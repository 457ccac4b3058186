import KappaGateway.Kapi.WrapperElements
import KappaGateway.Kapi.FreshValues

/-!
# Steps of wrappers

Every operation keeps the wrappers in step, under what it needs: that no wrapper
is used that hangs on one that was moved from, and that no other wrapper is in
step with a place that is set, erased or moved.
-/

namespace KappaGateway.JsonWrapper

open KeyedList RefCount Kutil Jansson State

section

variable {s : State} {E : Nat → Prop} {w x : Nat}

/-! ### Errors and fault values -/

/-- The value of a wrapper stays as it is. -/
theorem Shape.modifyAside (hs : Shape s E) {f : JSON → JSON} (hlinks : ∀ J, links (f J) = links J)
    (hjson : ∀ J, (f J).json = J.json) (htype : ∀ J, (f J).type = J.type)
    (hfault : ∀ x g, (s.get x).alive → ((s.modify w f).get x).fault = some g →
      (s.get g).alive ∧ (s.get g).parent = none ∧ g ≠ x ∧
        ∀ q, q ∈ (s.get g).within ↔ q = g ∨ q ∈ (s.get x).within) :
    Shape (s.modify w f) E := by
  have hsame : ∀ {T : Type} (g : JSON → T), (∀ J, g (f J) = g J) →
      ∀ x, g ((s.modify w f).get x) = g (s.get x) := by
    intro T g hg x
    rw [get_modify]
    split
    · exact hg _
    · rfl
  have hwithin : ∀ x, ((s.modify w f).get x).within = (s.get x).within :=
    hsame JSON.within fun J => (congrArg JSON.within (hlinks J) :)
  have hparent : ∀ x, ((s.modify w f).get x).parent = (s.get x).parent :=
    hsame JSON.parent fun J => (congrArg JSON.parent (hlinks J) :)
  have halive : ∀ x, ((s.modify w f).get x).alive = (s.get x).alive :=
    hsame JSON.alive fun J => (congrArg JSON.alive (hlinks J) :)
  have hkey : ∀ x, ((s.modify w f).get x).key = (s.get x).key :=
    hsame JSON.key fun J => (congrArg JSON.key (hlinks J) :)
  have hindex : ∀ x, ((s.modify w f).get x).index = (s.get x).index :=
    hsame JSON.index fun J => (congrArg JSON.index (hlinks J) :)
  refine hs.of_links hs.closed (hsame links hlinks) hfault ?_ ?_
  · intro x r hx hr
    rw [hsame JSON.json hjson] at hr
    rw [halive] at hx
    rw [hsame JSON.type htype]
    exact hs.typed x r hx hr
  · intro x p hx husable hE hp
    rw [halive] at hx
    rw [hparent] at hp
    have husable' : s.Usable x := by
      simpa only [Usable, hwithin, hparent, hsame JSON.json hjson] using husable
    simpa only [slot, heap_modify, hkey, hindex, hsame JSON.json hjson] using
      hs.synced x p hx husable' hE hp

theorem setFailBit_shape (hs : Shape s E) (message : Text) :
    Shape (s.setFailBit w message) E := by
  refine hs.modifyAside (by intro J; rfl) (by intro J; rfl) (by intro J; rfl) ?_
  intro x g hx hg
  rw [get_modify] at hg
  split at hg <;> exact hs.fault x g hx hg

/-- The fault value of a wrapper that had none. -/
theorem Shape.setFault (hs : Shape s E) {f : Nat} (hf : (s.get f).alive)
    (hparent : (s.get f).parent = none) (hne : f ≠ w)
    (hwithin : ∀ q, q ∈ (s.get f).within ↔ q = f ∨ q ∈ (s.get w).within) :
    Shape (s.modify w fun J => { J with fault := some f }) E := by
  refine hs.modifyAside (by intro J; rfl) (by intro J; rfl) (by intro J; rfl) ?_
  intro x g hx hg
  rw [get_modify] at hg
  split at hg
  · next hw =>
      obtain rfl := Option.some.inj hg
      obtain ⟨rfl, -⟩ := hw
      exact ⟨hf, hparent, hne, hwithin⟩
  · exact hs.fault x g hx hg

/-- The fault value as it is constructed. -/
def faultJSON (s : State) (w : Nat) : JSON :=
  { JSON.new (s.next :: (s.get w).within) with type := .fault, failbit := true }

theorem fault_inStep (hs : Shape s E) (halive : (s.get w).alive) : Shape (s.fault w).1 E := by
  unfold State.fault
  split
  · exact hs
  · have hpush : Shape (s.push (faultJSON s w)) E := by
      apply hs.push (s.get w).within rfl rfl rfl
      · exact fun q hq => (hs.holders w halive q hq).2
      · intro p hp
        cases hp
      · simp [faultJSON, JSON.new]
      · intro r hr
        obtain rfl := Option.some.inj hr
        exact ⟨fun a ha => (by cases ha), Or.inr ⟨rfl, rfl⟩⟩
      · intro p hp
        cases hp
    have hnew : (s.push (faultJSON s w)).get s.next = faultJSON s w := by
      rw [get_push, if_pos rfl]
    have hold : (s.push (faultJSON s w)).get w = s.get w := by
      rw [get_push, if_neg (Nat.ne_of_lt (lt_next_of_alive halive))]
    apply hpush.setFault (w := w)
    · rw [hnew]
      rfl
    · rw [hnew]
      rfl
    · exact Nat.ne_of_gt (lt_next_of_alive halive)
    · intro q
      rw [hnew, hold]
      simp [faultJSON, JSON.new]

/-! ### Assignments and elements -/

/-- The container of a wrapper is not a new value. -/
theorem json_ne_new (hs : InStep s) (halive : (s.get w).alive) (husable : s.Usable w)
    {h' : Memory} {j : Ref} (hnew : NewRefs s.heap h' j.cells) :
    ∀ q ∈ (s.get w).parent, (s.get q).json ≠ some j := by
  intro q hq hjson
  obtain ⟨a, c, -, hplace, -⟩ := hs.exists_place halive husable id hq
  obtain rfl := Option.some.inj (hplace.json.symm.trans hjson)
  cases hplace.contentAt.symm.trans (hnew.isNew a (List.mem_singleton_self a))

theorem withHeap_inStep (hs : InStep s) {h' : Memory} {rs : List Nat}
    (hnew : NewRefs s.heap h' rs) : InStep { s with heap := h' } :=
  hs.extend (f := fun _ => h') (hnew.closed hs.closed) hnew.extended

/-- Putting a new value in the place of a wrapper's. -/
theorem putNew_inStep (hs : InStep s) (halive : (s.get w).alive) (husable : s.Usable w)
    (hunshared : Unshared s w) {h' : Memory} {j : Ref} (hnew : NewRefs s.heap h' j.cells) :
    InStep ({ s with heap := h' }.put w j) :=
  put_inStep (withHeap_inStep hs hnew) halive husable hnew.allocated_ref hunshared
    (json_ne_new hs halive husable hnew)

theorem alloc_newRefs (h : Memory) {c : Content} (hc : refs c = []) :
    NewRefs h (h.alloc c) (Ref.cell h.fresh).cells :=
  NewRefs.alloc (by rw [hc]; exact .refl h)

/-- The wrapper of an object, once null has become one. -/
structure Opened (s : State) (w : Nat) (t : State) : Prop where
  inStep : InStep t
  alive : (t.get w).alive
  usable : t.Usable w
  type : (t.get w).type = .object
  json : (t.get w).json ≠ none

theorem put_opened (hs : InStep s) (halive : (s.get w).alive) (husable : s.Usable w)
    (hunshared : Unshared s w) :
    Opened s w ((s.onHeap (Heap.alloc (.object []))).put w (.cell s.heap.fresh)) := by
  have hnew := alloc_newRefs s.heap (c := .object []) rfl
  have hs' := withHeap_inStep hs hnew
  have hne := json_ne_new hs halive husable hnew
  have hself := put_get_self hs' halive husable hnew.allocated_ref hne
  refine ⟨putNew_inStep hs halive husable hunshared hnew, ?_, ?_, ?_, ?_⟩
  · exact (congrArg JSON.alive hself :).trans halive
  · exact put_usable hs' halive husable hnew.allocated_ref hne
  · refine (congrArg JSON.type hself :).trans ?_
    simp [json_typeof, Heap.contentAt_alloc, Content.type]
  · rw [show ((s.onHeap (Heap.alloc (.object []))).put w (.cell s.heap.fresh)).get w = _ from hself]
    exact Option.some_ne_none _

theorem elementKey_inStep (hs : InStep s) (halive : (s.get w).alive) (husable : s.Usable w)
    (hmoved : (s.get w).type = .object → (s.get w).json ≠ none)
    (hunshared : (s.get w).type = .null → Unshared s w) (key : Text) :
    InStep (s.elementKey w key).1 := by
  unfold elementKey
  split
  · next htype =>
      exact (childKey_accessed hs halive husable htype (hmoved htype) key).inStep hs halive
  · exact hs
  · next htype =>
      have ho := put_opened hs halive husable (hunshared htype)
      exact (childKey_accessed ho.inStep ho.alive ho.usable ho.type ho.json key).inStep ho.inStep
        ho.alive
  · apply fault_inStep (setFailBit_shape hs _)
    rw [setFailBit, get_modify]
    split <;> exact halive

theorem elementIndex_inStep (hs : InStep s) (halive : (s.get w).alive) (husable : s.Usable w)
    (hmoved : (s.get w).type = .array → (s.get w).json ≠ none) (index : Nat) :
    InStep (s.elementIndex w index).1 := by
  by_cases harray : (s.get w).type = .array
  · exact (elementIndex_accessed hs halive husable harray (hmoved harray) index).inStep hs halive
  · unfold elementIndex
    split
    · next htype => exact absurd htype harray
    · exact hs
    · apply fault_inStep (setFailBit_shape hs _)
      rw [setFailBit, get_modify]
      split <;> exact halive

/-! ### Erasing -/

/-- The value at a place is removed, and then the wrappers of the place. -/
structure Removed (s : State) (w : Nat) (key : Text) (index : Nat) (u : State) : Prop where
  intro ::
  exists_state : ∃ (t : State) (x a : Nat) (c : Content) (old : Ref) (p : JSON → Bool),
    Accessed s w key index t x ∧ (t.get w).json = some (.cell a) ∧
      t.heap.contentAt a = some c ∧ c.at key index = some old ∧
      (∀ y, (t.get y).alive → t.Usable y → (t.get y).parent = some w →
        (p (t.get y) ↔ (t.get y).key = key ∧ (t.get y).index = index)) ∧
      u = (t.onHeap fun h => json_decref (some old) (h.write a (c.remove key index))).delete
        (t.underChild w p)

/-- The access before an erasure changes no value. -/
theorem Accessed.contentAt_of_slot {t : State} {key : Text} {index a : Nat} {c : Content}
    (hacc : Accessed s w key index t x) (hjson : (s.get w).json = some (.cell a))
    (hc : s.heap.contentAt a = some c) (hat : (c.at key index).isSome) (b : Nat) :
    t.heap.contentAt b = s.heap.contentAt b := by
  cases hacc with
  | cached _ _ _ _ => rfl
  | @added a' c' f r _ hjson' hc' hgrown _ =>
      obtain rfl : a' = a := by simpa using hjson'.symm.trans hjson
      obtain rfl := Option.some.inj (hc'.symm.trans hc)
      rw [heap_push, heap_onHeap, hgrown.contentAt, grow_eq_self hat]
      split
      · next hab => rw [← hab, hc]
      · rfl

theorem existKey_iff {key : Text} : s.existKey w key = true ↔
    (s.get w).type = .object ∧ (json_object_get s.heap (s.get w).json key).isSome := by
  simp [existKey]

theorem existIndex_iff {index : Nat} : s.existIndex w index = true ↔
    (s.get w).type = .array ∧ (json_array_get s.heap (s.get w).json index).isSome := by
  simp [existIndex]

/-- The places of the usable children of an object and of an array. -/
theorem child_place (hs : InStep s) {a : Nat} {c : Content} (hx : (s.get x).alive)
    (husable : s.Usable x) (hparent : (s.get x).parent = some w)
    (hjson : (s.get w).json = some (.cell a)) (hc : s.heap.contentAt a = some c) :
    c.Takes (s.get x).key (s.get x).index := by
  obtain ⟨a', c', r, hplace, -, -⟩ := hs.exists_place hx husable id hparent
  obtain rfl : a = a' := by simpa using hjson.symm.trans hplace.json
  obtain rfl := Option.some.inj (hc.symm.trans hplace.contentAt)
  exact hplace.takes

theorem eraseKey_removed (hs : InStep s) (halive : (s.get w).alive) (husable : s.Usable w)
    {key : Text} (hexist : s.existKey w key = true) :
    Removed s w key 0 (s.eraseKey w key).1 := by
  obtain ⟨htype, hget⟩ := existKey_iff.mp hexist
  obtain ⟨old, hold⟩ := Option.isSome_iff_exists.mp hget
  obtain ⟨⟨a, members⟩, hobject, hvalue⟩ := Option.bind_eq_some_iff.mp hold
  obtain ⟨hjson, hc⟩ := objectAt_eq_some.mp hobject
  have hacc := childKey_accessed hs halive husable htype (by simp [hjson]) key
  have ht := hacc.inStep hs halive
  have helem := hacc.element
  have hw := helem.kept w halive
  have hcontent := hacc.contentAt_of_slot hjson hc (Option.isSome_iff_exists.mpr ⟨old, hvalue⟩)
  have helement : s.childKey w key = s.elementKey w key := by simp [elementKey, htype]
  rw [helement] at hacc ht helem hw hcontent
  have hborrowed : ((s.elementKey w key).1.get (s.elementKey w key).2).jsonPtrIsBorrowed :=
    (ht.borrowed _ helem.alive).mpr (by simp [helem.parent])
  refine ⟨_, _, a, .object members, old, fun J => J.key = key, hacc, by rw [hw, hjson],
    by rw [hcontent, hc], hvalue, ?_, ?_⟩
  · intro y hy husabley hparent
    have htakes := child_place ht hy husabley hparent (by rw [hw, hjson]) (by rw [hcontent, hc])
    have hindex : ((s.elementKey w key).1.get y).index = 0 := htakes
    simp [hindex]
  · have hdel : ∀ h : Memory, h.contentAt a = some (.object members) →
        json_object_del (some (.cell a)) key h = json_decref (some old)
          (h.write a ((Content.object members).remove key 0)) := by
      intro h hmembers
      rw [json_object_del_eq hmembers, hvalue]
      rfl
    simp only [eraseKey, hexist, if_true, hborrowed, hw, hjson]
    rw [onHeap, hdel _ (by rw [hcontent, hc])]
    rfl

theorem eraseIndex_removed (hs : InStep s) (halive : (s.get w).alive) (husable : s.Usable w)
    {index : Nat} (hexist : s.existIndex w index = true) :
    Removed s w [] index (s.eraseIndex w index).1 := by
  obtain ⟨htype, hget⟩ := existIndex_iff.mp hexist
  obtain ⟨old, hold⟩ := Option.isSome_iff_exists.mp hget
  obtain ⟨⟨a, elements⟩, harray, hvalue⟩ := Option.bind_eq_some_iff.mp hold
  obtain ⟨hjson, hc⟩ := arrayAt_eq_some.mp harray
  have hacc := elementIndex_accessed hs halive husable htype (by simp [hjson]) index
  have ht := hacc.inStep hs halive
  have helem := hacc.element
  have hw := helem.kept w halive
  have hcontent := hacc.contentAt_of_slot hjson hc (Option.isSome_iff_exists.mpr ⟨old, hvalue⟩)
  have hborrowed : ((s.elementIndex w index).1.get (s.elementIndex w index).2).jsonPtrIsBorrowed :=
    (ht.borrowed _ helem.alive).mpr (by simp [helem.parent])
  refine ⟨_, _, a, .array elements, old, fun J => J.index = index, hacc, by rw [hw, hjson],
    by rw [hcontent, hc], hvalue, ?_, ?_⟩
  · intro y hy husabley hparent
    have htakes := child_place ht hy husabley hparent (by rw [hw, hjson]) (by rw [hcontent, hc])
    simp [htakes.1]
  · have hremove : ∀ h : Memory, h.contentAt a = some (.array elements) →
        json_array_remove (some (.cell a)) index h = json_decref (some old)
          (h.write a ((Content.array elements).remove [] index)) := by
      intro h helements
      rw [json_array_remove_eq helements, hvalue]
      rfl
    simp only [eraseIndex, hexist, if_true, hborrowed, hw, hjson]
    rw [onHeap, hremove _ (by rw [hcontent, hc])]
    rfl

/-- If a wrapper has the place or one that comes after it, it is the child with the
place. -/
def NotAfter (s : State) (w : Nat) (key : Text) (index y : Nat) : Prop :=
  ∀ p ∈ (s.get y).parent, (s.get p).json = (s.get w).json → (s.get y).key = key →
    index ≤ (s.get y).index → p = w ∧ (s.get y).index = index

instance (s : State) (w : Nat) (key : Text) (index y : Nat) :
    Decidable (NotAfter s w key index y) :=
  inferInstanceAs (Decidable (∀ p ∈ (s.get y).parent, _ → _ → _ → _ ∧ _))

/-- No other wrapper is in step with the place, or with one that comes after it. -/
def Undisturbed (s : State) (w : Nat) (key : Text) (index : Nat) : Prop :=
  ∀ y < s.next, (s.get y).alive → s.Usable y → NotAfter s w key index y

instance (s : State) (w : Nat) (key : Text) (index : Nat) :
    Decidable (Undisturbed s w key index) :=
  inferInstanceAs (Decidable (∀ y < s.next, _ → _ → NotAfter s w key index y))

/-- An access changes no wrapper that was there. -/
theorem Element.usable {t : State} {key : Text} {index y : Nat} (helem : Element s w key index t x)
    (hs : Shape s E) (hy : (s.get y).alive) (husable : t.Usable y) : s.Usable y := by
  intro c hc p hp
  have hcalive := (hs.holders y hy c hc).2.1
  have hpalive := (hs.parent c p hcalive hp).2.1
  have hjson := husable c (by rwa [helem.kept y hy]) p (by rwa [helem.kept c hcalive])
  rwa [helem.kept p hpalive] at hjson

/-- All wrappers but the new one were there before. -/
theorem Accessed.alive_cases {t : State} {key : Text} {index y : Nat}
    (hacc : Accessed s w key index t x) (hy : (t.get y).alive) : (s.get y).alive ∨ y = x := by
  cases hacc with
  | cached _ _ _ _ => exact Or.inl hy
  | added _ _ _ _ _ =>
      rw [get_push] at hy
      split at hy
      · next heq => exact Or.inr heq
      · exact Or.inl hy

theorem Removed.inStep {key : Text} {index : Nat} {u : State} (hremoved : Removed s w key index u)
    (hs : InStep s) (halive : (s.get w).alive) (hundisturbed : Undisturbed s w key index) :
    InStep u := by
  obtain ⟨t, x, a, c, old, p, hacc, hjson, hc, hat, hp, rfl⟩ := hremoved.exists_state
  have ht := hacc.inStep hs halive
  have helem := hacc.element
  have hw := helem.kept w halive
  have hplaces : ∀ y q, (t.get y).alive → t.Usable y → (t.get y).parent = some q →
      (t.get q).json = some (.cell a) → (t.get y).key = key → index ≤ (t.get y).index →
      q = w ∧ (t.get y).index = index := by
    intro y q hy husable hq hqjson hkey hindex
    rcases hacc.alive_cases hy with hys | rfl
    · rw [helem.kept y hys] at hq hkey hindex ⊢
      have hqalive := (hs.parent y q hys hq).2.1
      rw [helem.kept q hqalive] at hqjson
      rw [hw] at hjson
      exact hundisturbed y (lt_next_of_alive hys) hys (helem.usable hs hys husable) q hq
        (hqjson.trans hjson.symm) hkey hindex
    · exact ⟨Option.some.inj (hq.symm.trans helem.parent), helem.index⟩
  have htakes := takes_of_at hat
  have hheap : Shape (t.onHeap fun h => json_decref (some old) (h.write a (c.remove key index)))
      fun y => (t.get y).parent = some w ∧ (t.get y).key = key ∧ (t.get y).index = index ∧
        t.Usable y := by
    apply ht.onHeap
    · apply closed_release
      exact closed_write ht.closed fun b hb => ht.closed a c b hc (mem_refs_remove hb)
    · intro b d hd
      rw [json_decref, Heap.contentAt_release, Heap.contentAt_write]
      split
      · next hab =>
          subst hab
          obtain rfl := Option.some.inj (hc.symm.trans hd)
          exact ⟨_, by rw [hc, Option.map_some], type_remove _ _ _⟩
      · exact ⟨d, hd, rfl⟩
    · intro y q r hy husable hE hq
      refine ⟨id, fun hslot => ?_⟩
      rw [json_decref, slotIn_release, slotIn_write hc]
      split
      · next hqjson =>
          rw [at_remove htakes]
          · rw [slot, hqjson] at hslot
            simpa [slotIn, hc] using hslot
          · rintro ⟨hkey, hindex⟩
            obtain ⟨rfl, hsame⟩ := hplaces y q hy husable hq hqjson hkey hindex
            exact hE ⟨hq, hkey, hsame, husable⟩
      · exact hslot
  refine hheap.deleteChildren w p ?_
  rintro y hy ⟨hparent, hkey, hindex, husable⟩
  exact Or.inr ⟨y, ht.self_mem y hy, hparent, (hp y hy husable hparent).mpr ⟨hkey, hindex⟩⟩

/-- The wrapper that something is erased in, and those that were made before it, stay. -/
theorem Removed.kept {key : Text} {index y : Nat} {u : State} (hremoved : Removed s w key index u)
    (hs : InStep s) (halive : (s.get w).alive) (hy : (s.get y).alive) (hle : y ≤ w) :
    u.get y = s.get y := by
  obtain ⟨t, x, a, c, old, p, hacc, -, -, -, -, rfl⟩ := hremoved.exists_state
  have ht := hacc.inStep hs halive
  have hsame := hacc.element.kept y hy
  have hyt : (t.get y).alive := by rw [hsame, hy]
  rw [← hsame]
  apply get_delete_of_not
  rw [Bool.eq_false_iff]
  intro hunder
  obtain ⟨d, hd, hchild⟩ := List.any_eq_true.mp hunder
  simp only [Bool.and_eq_true, decide_eq_true_eq] at hchild
  exact ht.parent_ne_of_le hyt hle hd hchild.1

/-- A wrapper that is left was there before, or has the place. -/
theorem Removed.left {key : Text} {index y : Nat} {u : State} (hremoved : Removed s w key index u)
    (hy : (u.get y).alive) :
    ((s.get y).alive ∧ u.get y = s.get y) ∨ (u.get y).index = index := by
  obtain ⟨t, x, a, c, old, p, hacc, -, -, -, -, rfl⟩ := hremoved.exists_state
  have helem := hacc.element
  obtain ⟨hyt, hnot⟩ := alive_delete.mp hy
  rw [get_delete_of_not hnot, get_onHeap]
  rcases hacc.alive_cases hyt with hys | rfl
  · exact Or.inl ⟨hys, helem.kept y hys⟩
  · exact Or.inr helem.index

theorem eraseKey_inStep (hs : InStep s) (halive : (s.get w).alive) (husable : s.Usable w)
    {key : Text} (hundisturbed : Undisturbed s w key 0) : InStep (s.eraseKey w key).1 := by
  by_cases hexist : s.existKey w key = true
  · exact (eraseKey_removed hs halive husable hexist).inStep hs halive hundisturbed
  · rw [eraseKey, if_neg hexist]
    exact hs

theorem eraseIndex_inStep (hs : InStep s) (halive : (s.get w).alive) (husable : s.Usable w)
    {index : Nat} (hundisturbed : Undisturbed s w [] index) :
    InStep (s.eraseIndex w index).1 := by
  by_cases hexist : s.existIndex w index = true
  · exact (eraseIndex_removed hs halive husable hexist).inStep hs halive hundisturbed
  · rw [eraseIndex, if_neg hexist]
    exact hs

/-! ### Strings and integers in their place -/

/-- A value that is no container changes. -/
theorem scalar_inStep (hs : InStep s) {a : Nat} {c c' : Content} (hc : s.heap.contentAt a = some c)
    (htype : c'.type = c.type) (hat : ∀ key index, c.at key index = none) (hrefs : refs c' = []) :
    InStep (s.onHeap (Heap.write a c')) := by
  apply hs.onHeap
  · exact closed_write hs.closed (by simp [hrefs])
  · intro b d hd
    rw [Heap.contentAt_write]
    split
    · next hab =>
        subst hab
        obtain rfl := Option.some.inj (hc.symm.trans hd)
        exact ⟨c', by rw [hc, Option.map_some], htype⟩
    · exact ⟨d, hd, rfl⟩
  · intro y q r hy husable hE hq
    refine ⟨id, fun hslot => ?_⟩
    rw [slotIn_write hc]
    split
    · next hqjson =>
        rw [slot, hqjson] at hslot
        simp [slotIn, hc, hat] at hslot
    · exact hslot

theorem json_string_set_cases (json : Option Ref) (str : Text) (h : Memory) :
    json_string_set json str h = h ∨ ∃ a old, json = some (.cell a) ∧
      h.contentAt a = some (.string old) ∧ json_string_set json str h = h.write a (.string str) := by
  unfold json_string_set
  split
  · next a =>
      split
      · next old hold => exact Or.inr ⟨a, old, rfl, hold, rfl⟩
      · exact Or.inl rfl
  · exact Or.inl rfl

theorem json_integer_set_cases (json : Option Ref) (val : Int) (h : Memory) :
    json_integer_set json val h = h ∨ ∃ a old, json = some (.cell a) ∧
      h.contentAt a = some (.integer old) ∧
      json_integer_set json val h = h.write a (.integer val) := by
  unfold json_integer_set
  split
  · next a =>
      split
      · next old hold => exact Or.inr ⟨a, old, rfl, hold, rfl⟩
      · exact Or.inl rfl
  · exact Or.inl rfl

/-- What assigning a string or an integer can do: nothing, write the cell of the old value,
or put a new cell in its place. -/
inductive Assigned (s : State) (w : Nat) (c : Content) : State → Prop where
  | kept : Assigned s w c s
  | written {a : Nat} {old : Content} (hold : s.heap.contentAt a = some old)
      (htype : c.type = old.type) (hat : ∀ key index, old.at key index = none)
      (hrefs : refs c = refs old) : Assigned s w c (s.onHeap (Heap.write a c))
  | renewed (hfault : (s.get w).type ≠ .fault) (hother : (s.get w).type ≠ c.type) :
      Assigned s w c ((s.onHeap (Heap.alloc c)).put w (.cell s.heap.fresh))

theorem assignString_assigned (s : State) (w : Nat) (str : Text) :
    Assigned s w (.string str) (s.assignString w str) := by
  unfold assignString
  split
  · exact .kept
  · rcases json_string_set_cases (s.get w).json str s.heap with heq | ⟨a, old, -, hold, heq⟩
    · rw [onHeap, heq]
      exact .kept
    · rw [onHeap, heq]
      exact .written hold rfl (fun _ _ => rfl) rfl
  · next hfault hstring => exact .renewed hfault hstring

theorem assignInteger_assigned (s : State) (w : Nat) (val : Int) :
    Assigned s w (.integer val) (s.assignInteger w val) := by
  unfold assignInteger
  split
  · exact .kept
  · rcases json_integer_set_cases (s.get w).json val s.heap with heq | ⟨a, old, -, hold, heq⟩
    · rw [onHeap, heq]
      exact .kept
    · rw [onHeap, heq]
      exact .written hold rfl (fun _ _ => rfl) rfl
  · next hfault hinteger => exact .renewed hfault hinteger

theorem Assigned.inStep {c : Content} {t : State} (h : Assigned s w c t) (hrefs : refs c = [])
    (hs : InStep s) (halive : (s.get w).alive) (husable : s.Usable w)
    (hunshared : (s.get w).type ≠ c.type → (s.get w).type ≠ .fault → Unshared s w) :
    InStep t := by
  cases h with
  | kept => exact hs
  | written hold htype hat _ => exact scalar_inStep hs hold htype hat hrefs
  | renewed hfault hother =>
      exact putNew_inStep hs halive husable (hunshared hother hfault) (alloc_newRefs s.heap hrefs)

theorem assignString_inStep (hs : InStep s) (halive : (s.get w).alive) (husable : s.Usable w)
    (hunshared : (s.get w).type ≠ .string → (s.get w).type ≠ .fault → Unshared s w)
    (str : Text) : InStep (s.assignString w str) :=
  (assignString_assigned s w str).inStep rfl hs halive husable hunshared

theorem assignInteger_inStep (hs : InStep s) (halive : (s.get w).alive) (husable : s.Usable w)
    (hunshared : (s.get w).type ≠ .integer → (s.get w).type ≠ .fault → Unshared s w)
    (val : Int) : InStep (s.assignInteger w val) :=
  (assignInteger_assigned s w val).inStep rfl hs halive husable hunshared

theorem assignBool_inStep (hs : InStep s) (halive : (s.get w).alive) (husable : s.Usable w)
    (hunshared : (s.get w).type ≠ .fault → Unshared s w) (boolean : Bool) :
    InStep (s.assignBool w boolean) := by
  unfold assignBool
  split
  · exact hs
  · next hfault =>
      exact putNew_inStep hs halive husable (hunshared hfault) (j := .bool boolean) (.refl s.heap)

theorem assignCopy_inStep (hs : InStep s) (halive : (s.get w).alive) (husable : s.Usable w)
    (hunshared : Unshared s w) {v : Nat} (hjson : (s.get v).json ≠ none) {t : State}
    (ht : s.assignCopy w v = some t) : InStep t := by
  obtain ⟨j, hj⟩ := Option.ne_none_iff_exists'.mp hjson
  simp only [assignCopy, hj, Option.map_eq_some_iff] at ht
  obtain ⟨⟨h', j'⟩, hcopy, rfl⟩ := ht
  exact putNew_inStep hs halive husable hunshared (deepCopy_newRefs _ hcopy)

/-! ### Moving -/

/-- A wrapper gives its value away. -/
def moved (v : Nat) (s : State) : State := s.modify v fun J => { J with json := none }

theorem moved_same {T : Type} (g : JSON → T) (hg : ∀ J : JSON, g { J with json := none } = g J)
    (s : State) (v x : Nat) : g ((moved v s).get x) = g (s.get x) := by
  rw [moved, get_modify]
  split
  · exact hg _
  · rfl

theorem moved_json (s : State) (v x : Nat) :
    ((moved v s).get x).json = none ∨ ((moved v s).get x).json = (s.get x).json := by
  rw [moved, get_modify]
  split
  · exact Or.inl rfl
  · exact Or.inr rfl

/-- What is usable after a move was so before. -/
theorem usable_of_moved {v : Nat} (husable : (moved v s).Usable x) : s.Usable x := by
  intro c hc q hq
  have hqjson := husable c (by rwa [moved_same JSON.within fun _ => rfl]) q
    (by rwa [moved_same JSON.parent fun _ => rfl])
  rcases moved_json s v q with hnone | hsame
  · exact absurd hnone hqjson
  · rwa [← hsame]

/-- Those that hang on a wrapper that was moved from are not usable any more. -/
theorem Shape.moved (hs : Shape s E) (v : Nat) : Shape (moved v s) E := by
  refine hs.of_values hs.closed (moved_same links (fun _ => rfl) s v)
    (moved_same JSON.fault (fun _ => rfl) s v) ?_ ?_
  · intro x r hx hr
    rw [moved_same JSON.alive fun _ => rfl] at hx
    rw [moved_same JSON.type fun _ => rfl]
    rcases moved_json s v x with hnone | hsame
    · rw [hnone] at hr
      cases hr
    · exact hs.typed x r hx (hsame ▸ hr)
  · intro x p hx husable hE hp
    rw [moved_same JSON.alive fun _ => rfl] at hx
    have hpjson := husable x (by
      rw [moved_same JSON.within fun _ => rfl]
      exact hs.self_mem x hx) p hp
    rw [moved_same JSON.parent fun _ => rfl] at hp
    obtain ⟨r, hr, hxjson⟩ := hs.synced x p hx (usable_of_moved husable) hE hp
    refine ⟨r, ?_, ?_⟩
    · rw [slot, JsonWrapper.moved, heap_modify, ← JsonWrapper.moved,
        moved_same JSON.key fun _ => rfl, moved_same JSON.index fun _ => rfl,
        (moved_json s v p).resolve_left hpjson]
      exact hr
    · rcases moved_json s v x with hnone | hsame
      · exact Or.inl hnone
      · rwa [hsame]

theorem moved_get_of_ne {v y : Nat} (hne : v ≠ y) : (moved v s).get y = s.get y :=
  get_modify_of_ne hne

/-- What `operator=(JSON&&)` does to another wrapper's value. -/
theorem assignMove_cases (hs : InStep s) (halive : (s.get w).alive) (husable : s.Usable w)
    {v : Nat} {j : Ref} (hj : (s.get v).json = some j) (hallocated : Allocated s.heap j)
    (hvw : v ≠ w) (hne : ∀ q ∈ (s.get w).parent, (s.get q).json ≠ some j) {u : State}
    (hu : s.assignMove w v = some u) :
    ((s.get w).parent = none ∧
        u = moved v (s.reset w j)) ∨
      ∃ q a c r, Place s w q a c ∧ c.at (s.get w).key (s.get w).index = some r ∧
        ((s.get w).json = none ∨ (s.get w).json = some r) ∧
        u = (moved v (s.reset w j)).onHeap fun h =>
          json_decref (some r) (h.write a (c.set (s.get w).key (s.get w).index j)) := by
  simp only [assignMove, hj, Option.map_some, Option.some.injEq] at hu
  rw [← moved] at hu
  have ht : Shape (s.reset w j) fun x => False ∨ x = w := hs.reset hallocated
  have hself := reset_get_self hs halive j
  have hmoved : (moved v (s.reset w j)).get w =
      (s.reset w j).get w := moved_get_of_ne hvw
  cases hparent : (s.get w).parent with
  | none =>
      left
      refine ⟨rfl, ?_⟩
      rw [← hu, updateParent, hmoved, hself, hparent]
  | some q =>
      right
      obtain ⟨a, c, r, hplace, hat, hjson⟩ := hs.exists_place halive husable id hparent
      refine ⟨q, a, c, r, hplace, hat, hjson, ?_⟩
      have hvq : v ≠ q := by
        rintro rfl
        exact hne v hparent hj
      have hplace' := hplace.reset hs halive j
      have hplace'' : Place (moved v (s.reset w j)) w q a c := by
        refine ⟨?_, ?_, hplace'.contentAt, ?_, ?_⟩
        · rw [hmoved]
          exact hplace'.parent
        · rw [moved_get_of_ne hvq]
          exact hplace'.json
        · rw [moved_get_of_ne hvq]
          exact hplace'.type
        · rw [hmoved]
          exact hplace'.takes
      have hcell : j ≠ .cell a := by
        rintro rfl
        exact hne q hparent hplace.json
      have hupdate := updateParent_place (ht.moved v) (by rw [hmoved, hself, halive]) hplace''
        (by rw [hmoved, hself]) hcell
      rw [hmoved] at hupdate
      simp only [hself] at hupdate
      rw [← hu, hupdate, hat]

theorem assignMove_inStep (hs : InStep s) (halive : (s.get w).alive) (husable : s.Usable w)
    (hunshared : Unshared s w) {v : Nat} {j : Ref} (hj : (s.get v).json = some j)
    (hallocated : Allocated s.heap j) (hvw : v ≠ w)
    (hne : ∀ q ∈ (s.get w).parent, (s.get q).json ≠ some j) {u : State}
    (hu : s.assignMove w v = some u) : InStep u := by
  have ht : Shape (s.reset w j) fun x => False ∨ x = w := hs.reset hallocated
  have hself := reset_get_self hs halive j
  have hmoved : (moved v (s.reset w j)).get w =
      (s.reset w j).get w := moved_get_of_ne hvw
  rcases assignMove_cases hs halive husable hj hallocated hvw hne hu with
    ⟨hparent, rfl⟩ | ⟨q, a, c, r, hplace, -, -, rfl⟩
  · apply (ht.moved v).of_root
    rw [hmoved, hself, hparent]
  · have hvq : v ≠ q := by
      rintro rfl
      exact hne v hplace.parent hj
    have hplace' := hplace.reset hs halive j
    have hset := (ht.moved v).place (w := w) (v := j) (q := q) (a := a) (c := c)
      (by rw [hmoved, hself, halive])
      (fun b hb => by
        rw [moved, heap_modify, reset_contentAt]
        exact hallocated b hb)
      (by rw [hmoved]; exact hplace'.parent) (by rw [hmoved, hself])
      (by rw [moved_get_of_ne hvq]; exact hplace'.json) hplace'.contentAt
      (by rw [hmoved]; exact hplace'.takes)
      (fun x p hx husablex _ hxw hp hpjson => by
        rw [moved_same JSON.alive fun _ => rfl] at hx
        rw [moved_same JSON.parent fun _ => rfl] at hp
        have hpsame := (moved_json (s.reset w j) v p).resolve_left (by simp [hpjson])
        simp only [moved_same JSON.key fun _ => rfl, moved_same JSON.index fun _ => rfl]
        exact apart_of_reset hs halive hallocated hplace hunshared x p hx
          (usable_of_moved husablex) hxw hp (hpsame ▸ hpjson)) (some r)
    rw [hmoved] at hset
    simp only [hself] at hset
    exact hset

/-! ### Construction and destruction -/

/-- A new wrapper that nothing holds, with a new value. -/
def rootJSON (s : State) (h : Memory) (j : Ref) : JSON :=
  { JSON.new [s.next] with json := some j, type := json_typeof h j }

theorem constructed_eq (hs : Shape s E) (f : Memory → Memory) (j : Ref) :
    ((s.onHeap f).push (JSON.new [s.next])).reset s.next j =
      (s.onHeap f).push (rootJSON s (f s.heap) j) :=
  reset_push hs f [] rfl rfl (by simp) (by simp [JSON.new]) j

theorem pushRoot_inStep (hs : InStep s) {h' : Memory} {j : Ref} (hnew : NewRefs s.heap h' j.cells) :
    InStep (({ s with heap := h' } : State).push (rootJSON s h' j)) := by
  apply (withHeap_inStep hs hnew).pushRoot rfl rfl rfl rfl rfl
  intro r hr
  obtain rfl := Option.some.inj hr
  exact ⟨hnew.allocated_ref, Or.inl rfl⟩

/-- A wrapper whose type is only used to pass on an error. -/
theorem pushFault_inStep (hs : InStep s) {J : JSON} (hlinks : links J = links (JSON.new [s.next]))
    (hfault : J.fault = none) (hjson : J.json = some .null) (htype : J.type = .fault) :
    InStep (s.push J) := by
  apply hs.pushRoot (J := J) (congrArg JSON.alive hlinks :) hfault
    (congrArg JSON.within hlinks :) (congrArg JSON.parent hlinks :)
    (congrArg JSON.jsonPtrIsBorrowed hlinks :)
  intro r hr
  obtain rfl := Option.some.inj (hjson.symm.trans hr)
  exact ⟨fun a ha => (by cases ha), Or.inr ⟨htype, rfl⟩⟩

/-- What a construction leaves: a new root with a new value, or a fault value. -/
inductive Constructed (s : State) : State → Prop
  | value {h' : Memory} {j : Ref} (hnew : NewRefs s.heap h' j.cells) :
      Constructed s (({ s with heap := h' } : State).push (rootJSON s h' j))
  | fault {J : JSON} (hlinks : links J = links (JSON.new [s.next])) (hfault : J.fault = none)
      (hjson : J.json = some .null) (htype : J.type = .fault) : Constructed s (s.push J)

theorem Constructed.inStep {t : State} (hc : Constructed s t) (hs : InStep s) : InStep t := by
  cases hc with
  | value hnew => exact pushRoot_inStep hs hnew
  | fault hlinks hfault hjson htype => exact pushFault_inStep hs hlinks hfault hjson htype

theorem construct_constructed (hs : InStep s) (type : JSONType) :
    Constructed s (s.construct type) := by
  have hcounted : ∀ c, refs c = [] → Constructed s
      (((s.push (JSON.new [s.next])).onHeap (Heap.alloc c)).reset s.next (.cell s.heap.fresh)) := by
    intro c hc
    have heq := constructed_eq hs (Heap.alloc c) (.cell s.heap.fresh)
    rw [show ((s.push (JSON.new [s.next])).onHeap (Heap.alloc c)) =
      (s.onHeap (Heap.alloc c)).push (JSON.new [s.next]) from rfl, heq]
    exact .value (alloc_newRefs s.heap hc)
  have hnull : Constructed s (s.push (JSON.new [s.next])) := .value (.refl s.heap)
  cases type with
  | object => exact hcounted (.object []) rfl
  | array => exact hcounted (.array []) rfl
  | string => exact hcounted (.string []) rfl
  | integer => exact hcounted (.integer 0) rfl
  | null =>
      have heq := constructed_eq hs id .null
      rw [show (s.onHeap id) = s from rfl] at heq
      rw [construct, show (s.push (JSON.new [s.next])).reset s.next .null = _ from heq]
      exact .value (.refl s.heap)
  | fault =>
      rw [construct, modify_push]
      exact .fault rfl rfl rfl rfl
  | _ => exact hnull

theorem constructFrom_constructed (hs : InStep s) (source : Option Tree) :
    Constructed s (s.constructFrom source) := by
  cases source with
  | none =>
      rw [constructFrom, setFailBit, modify_push, modify_push]
      exact .fault rfl rfl rfl rfl
  | some t =>
      have heq := constructed_eq hs (fun _ => (load t s.heap).1) (load t s.heap).2
      rw [show s.constructFrom (some t) = _ from heq]
      exact .value (load_newRefs t s.heap)

theorem constructCopy_constructed (hs : InStep s) {v : Nat} (hjson : (s.get v).json ≠ none)
    (hv : (s.get v).alive) {t : State} (ht : s.constructCopy v = some t) : Constructed s t := by
  obtain ⟨j, hj⟩ := Option.ne_none_iff_exists'.mp hjson
  have hold : (s.push (JSON.new [s.next])).get v = s.get v := by
    rw [get_push, if_neg (Nat.ne_of_lt (lt_next_of_alive hv))]
  simp only [constructCopy, hold, hj, Option.map_eq_some_iff] at ht
  obtain ⟨⟨h', j'⟩, hcopy, rfl⟩ := ht
  have heq := constructed_eq hs (fun _ => h') j'
  rw [show ({ s.push (JSON.new [s.next]) with heap := h' } : State).reset s.next j' = _ from heq]
  exact .value (deepCopy_newRefs _ hcopy)

theorem extends_retain (h : Memory) (a : Nat) : Extends h (h.retain a) :=
  fun b c hc => by rw [Heap.retain, Heap.contentAt_setCount, hc]

/-- The new wrapper of `JSON(JSON&&)`. -/
def movedJSON (s : State) (v : Nat) : JSON :=
  { JSON.new [s.next] with
    key := (s.get v).key, index := (s.get v).index, json := (s.get v).json
    type := (s.get v).type, fault := (s.get v).fault, failbit := (s.get v).failbit
    errorStr := (s.get v).errorStr }

theorem constructMove_eq (s : State) (v : Nat) :
    s.constructMove v =
      if (s.get v).jsonPtrIsBorrowed then
        (s.push (movedJSON s v)).onHeap (json_incref (s.get v).json)
      else moved v (s.push (movedJSON s v)) := rfl

theorem constructMove_inStep (hs : InStep s) {v : Nat} (halive : (s.get v).alive)
    (hfault : (s.get v).fault = none) : InStep (s.constructMove v) := by
  have hpush : InStep (s.push (movedJSON s v)) := by
    apply hs.pushRoot (J := movedJSON s v) rfl hfault rfl rfl rfl
    exact fun r hr => hs.typed v r halive hr
  rw [constructMove_eq]
  split
  · unfold json_incref
    split
    · next a _ =>
        apply hpush.extend (f := fun h => h.retain a) _ (extends_retain _ a)
        simpa only [Closed, Heap.retain, Heap.contentAt_setCount] using hpush.closed
    · exact hpush
  · exact hpush.moved v

/-- There is no wrapper at first. -/
theorem not_alive_init (x : Nat) : ¬ (State.init.get x).alive := by
  intro halive
  rw [get_of_le (Nat.zero_le x)] at halive
  cases halive

theorem init_inStep : InStep State.init := by
  constructor
  · intro a c b hc
    simp [State.init, Heap.contentAt] at hc
  · exact fun x hx => absurd hx (not_alive_init x)
  · exact fun x hx => absurd hx (not_alive_init x)
  · exact fun x _ hx => absurd hx (not_alive_init x)
  · exact fun x hx => absurd hx (not_alive_init x)
  · exact fun x _ hx => absurd hx (not_alive_init x)
  · exact fun x _ hx => absurd hx (not_alive_init x)
  · exact fun x _ hx => absurd hx (not_alive_init x)

/-- A wrapper that nothing holds is destroyed. -/
theorem destroy_inStep (hs : InStep s) {v : Nat} (halive : (s.get v).alive)
    (hroot : (s.get v).within = [v]) : InStep (s.destroy v) := by
  have hheld : ∀ x f, (s.get x).alive → (s.get x).fault = some f → f ≠ v := by
    rintro x f hx hf rfl
    obtain ⟨-, -, hne, hwithin⟩ := hs.fault x f hx hf
    have hmem := (hwithin x).mpr (Or.inr (hs.self_mem x hx))
    rw [hroot] at hmem
    exact hne (List.mem_singleton.mp hmem).symm
  have hany : ∀ J : JSON, (decide (v ∈ J.within) || (s.get v).fault.any (· ∈ J.within)) = true ↔
      v ∈ J.within ∨ ∃ f, (s.get v).fault = some f ∧ f ∈ J.within := by
    intro J
    cases (s.get v).fault <;> simp
  apply hs.delete (p := fun J => decide (v ∈ J.within) || (s.get v).fault.any (· ∈ J.within))
  · intro x q hx hq hp
    rw [hany] at hp ⊢
    have hsub := (hs.holders x hx q hq).2.2
    rcases hp with hv | ⟨f, hf, hmem⟩
    · exact Or.inl (hsub hv)
    · exact Or.inr ⟨f, hf, hsub hmem⟩
  · intro x f hx hf hp
    rw [hany] at hp ⊢
    obtain ⟨-, -, hne, hwithin⟩ := hs.fault x f hx hf
    rcases hp with hv | ⟨g, hg, hmem⟩
    · rcases (hwithin v).mp hv with heq | hv
      · exact absurd heq.symm (hheld x f hx hf)
      · exact Or.inl hv
    · rcases (hwithin g).mp hmem with rfl | hmem
      · obtain ⟨-, -, hgv, hgwithin⟩ := hs.fault v g halive hg
        have hx' := (hwithin v).mp ((hgwithin v).mpr (Or.inr (by simp [hroot])))
        exact Or.inl (hx'.resolve_left (Ne.symm hgv))
      · exact Or.inr ⟨g, hg, hmem⟩
  · intro x _ _ hE
    exact hE

end

end KappaGateway.JsonWrapper

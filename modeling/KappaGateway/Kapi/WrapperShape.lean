import KappaGateway.Kapi.JsonWrapper

/-!
# How wrappers hang together

What holds of the wrappers whatever the reference counts are: which wrapper holds
which, that a wrapper knows the type of its value, and that the value of a child
is what lies in its place in the container of its parent. Wrappers that hang on
one that was moved from are not usable, and nothing is known of their places.
-/

namespace KappaGateway.JsonWrapper

open KeyedList RefCount Kutil Jansson

namespace State

section

variable {s : State} {w x : Nat} {f : JSON → JSON} {J : JSON} {p : JSON → Bool}

theorem get_modify (w x : Nat) (f : JSON → JSON) (s : State) :
    (s.modify w f).get x = if w = x ∧ x < s.next then f (s.get x) else s.get x := by
  simp only [get, modify, next, List.getD_eq_getElem?_getD, List.getElem?_modify]
  by_cases hx : x < s.wrappers.length
  · by_cases hw : w = x <;> simp [hx, hw]
  · simp [hx]

theorem get_modify_of_ne (h : w ≠ x) : (s.modify w f).get x = s.get x := by
  rw [get_modify, if_neg fun hw => h hw.1]

theorem get_push (J : JSON) (x : Nat) (s : State) :
    (s.push J).get x = if x = s.next then J else s.get x := by
  simp only [get, push, next, List.getD_eq_getElem?_getD, List.getElem?_append,
    List.getElem?_singleton]
  rcases Nat.lt_trichotomy x s.wrappers.length with hlt | heq | hgt
  · simp [hlt, Nat.ne_of_lt hlt]
  · simp [heq]
  · simp [Nat.lt_asymm hgt, Nat.ne_of_gt hgt, Nat.sub_ne_zero_of_lt hgt]

theorem get_delete (p : JSON → Bool) (x : Nat) (s : State) :
    (s.delete p).get x =
      if p (s.get x) then { s.get x with alive := false } else s.get x := by
  simp only [get, delete, List.getD_eq_getElem?_getD, List.getElem?_map]
  cases s.wrappers[x]? with
  | none =>
      simp only [Option.map_none, Option.getD_none]
      split <;> rfl
  | some J => rfl

@[simp] theorem get_onHeap (f : Memory → Memory) (x : Nat) (s : State) :
    (s.onHeap f).get x = s.get x := rfl

@[simp] theorem heap_onHeap (f : Memory → Memory) (s : State) :
    (s.onHeap f).heap = f s.heap := rfl

@[simp] theorem heap_modify (w : Nat) (f : JSON → JSON) (s : State) :
    (s.modify w f).heap = s.heap := rfl

@[simp] theorem heap_push (J : JSON) (s : State) : (s.push J).heap = s.heap := rfl

@[simp] theorem next_onHeap (f : Memory → Memory) (s : State) : (s.onHeap f).next = s.next := rfl

@[simp] theorem next_modify (w : Nat) (f : JSON → JSON) (s : State) :
    (s.modify w f).next = s.next :=
  List.length_modify _ _ _

@[simp] theorem next_delete (p : JSON → Bool) (s : State) : (s.delete p).next = s.next := by
  simp [next, delete]

theorem get_eq_getElem (h : x < s.wrappers.length) : s.get x = s.wrappers[x] := by
  rw [get, List.getD_eq_getElem?_getD, List.getElem?_eq_getElem h]
  rfl

theorem get_of_le (h : s.next ≤ x) : s.get x = default := by
  rw [get, List.getD_eq_getElem?_getD, List.getElem?_eq_none h]
  rfl

theorem lt_next_of_alive (h : (s.get x).alive = true) : x < s.next := by
  by_contra hx
  rw [get_of_le (Nat.le_of_not_lt hx)] at h
  cases h

theorem get_modify_self (h : (s.get w).alive = true) :
    (s.modify w f).get w = f (s.get w) := by
  rw [get_modify, if_pos ⟨rfl, lt_next_of_alive h⟩]

theorem alive_delete :
    ((s.delete p).get x).alive = true ↔ (s.get x).alive = true ∧ p (s.get x) = false := by
  rw [get_delete]
  by_cases hp : p (s.get x) <;> simp [hp]

theorem get_delete_of_not (h : p (s.get x) = false) : (s.delete p).get x = s.get x := by
  rw [get_delete, if_neg (by simp [h])]

theorem modify_eq_self (h : f (s.get w) = s.get w) : s.modify w f = s := by
  have hsame : s.wrappers.modify w f = s.wrappers := by
    apply List.ext_getElem?
    intro x
    rw [List.getElem?_modify]
    cases hx : s.wrappers[x]? with
    | none => rfl
    | some J =>
        by_cases hw : w = x
        · have hJ : s.get w = J := by simp [get, hw, hx]
          rw [hJ] at h
          simp [hw, h]
        · simp [hw]
  rw [modify, hsame]

/-- The child takes its value to its place in the container of the parent. -/
theorem updateParent_eq {q a : Nat} {c : Content} {v : Ref} (hparent : (s.get w).parent = some q)
    (hq : q ≠ w) (hjson : (s.get w).json = some v) (hcell : (s.get q).json = some (.cell a))
    (hc : s.heap.contentAt a = some c) (htype : (s.get q).type = c.type)
    (htakes : c.Takes (s.get w).key (s.get w).index) (hne : v ≠ .cell a) :
    s.updateParent w =
      (s.modify w fun J => { J with jsonPtrIsBorrowed := true }).onHeap fun h =>
        json_decref (c.at (s.get w).key (s.get w).index)
          (h.write a (c.set (s.get w).key (s.get w).index v)) := by
  have hsame : ∀ {T : Type} (g : JSON → T) (hg : ∀ J, g { J with jsonPtrIsBorrowed := true } = g J),
      g ((s.modify w fun J => { J with jsonPtrIsBorrowed := true }).get w) = g (s.get w) := by
    intro T g hg
    rw [get_modify]
    split
    · exact hg _
    · rfl
  simp only [updateParent, hparent, get_modify_of_ne (Ne.symm hq), hcell, htype,
    hsame JSON.key fun _ => rfl, hsame JSON.index fun _ => rfl, hsame JSON.json fun _ => rfl, hjson]
  cases c with
  | object members =>
      simp only [Content.Takes] at htakes
      simp only [Content.type, htakes, Content.set, Content.at]
      simp only [onHeap, heap_modify, json_object_set_new_eq hc hne]
  | array elements =>
      obtain ⟨hkey, hindex⟩ := htakes
      simp only [Content.type, hkey, Content.set, Content.at]
      simp only [onHeap, heap_modify, json_array_set_new_eq hc hindex hne]
  | _ => exact absurd htakes id

theorem modify_push (J : JSON) : (s.push J).modify s.next f = s.push (f J) := by
  have happend : ∀ l : List JSON, (l ++ [J]).modify l.length f = l ++ [f J] := by
    intro l
    induction l with
    | nil => rfl
    | cons K l ih => simpa using ih
  rw [push, modify, push, next, happend]

/-- Destroying nothing. -/
theorem delete_eq_self (h : ∀ x, (s.get x).alive → p (s.get x) = false) : s.delete p = s := by
  have hmem : ∀ J ∈ s.wrappers, J.alive → p J = false := by
    intro J hJ
    obtain ⟨x, hx, rfl⟩ := List.mem_iff_getElem.mp hJ
    rw [← get_eq_getElem hx]
    exact h x
  have hnone : (s.wrappers.filter fun J => J.alive && p J) = [] := by
    apply List.filter_eq_nil_iff.mpr
    intro J hJ hboth
    rw [Bool.and_eq_true] at hboth
    rw [hmem J hJ hboth.1] at hboth
    cases hboth.2
  have hmap : (s.wrappers.map fun J => if p J then { J with alive := false } else J) =
      s.wrappers := by
    refine (List.map_congr_left fun J hJ => ?_).trans (List.map_id _)
    split
    · next hp =>
        have hdead : J.alive = false := by
          by_contra halive
          rw [hmem J hJ (by simpa using halive)] at hp
          cases hp
        rw [← hdead]
        rfl
    · rfl
  rw [delete, hnone, List.flatMap_nil, Heap.release_nil, hmap]

end

/-- What a wrapper has besides its value, its fault value and its errors. -/
def links (J : JSON) : JSON :=
  { J with json := none, type := .null, fault := none, failbit := false, errorStr := [] }

/-- No wrapper that it hangs on was moved from. -/
def Usable (s : State) (x : Nat) : Prop :=
  ∀ c ∈ (s.get x).within, ∀ p ∈ (s.get c).parent, (s.get p).json ≠ none

instance (s : State) (x : Nat) : Decidable (s.Usable x) :=
  inferInstanceAs (Decidable (∀ c ∈ _, ∀ p ∈ _, _ ≠ _))

/-- What lies in the place of a child of `p`. -/
def slot (s : State) (p x : Nat) : Option Ref :=
  slotIn s.heap (s.get p).json (s.get x).key (s.get x).index

/-- The cell of the reference was allocated. -/
def Allocated (h : Memory) (r : Ref) : Prop := ∀ a, r = .cell a → (h.contentAt a).isSome

/-- Everything that containers refer to was allocated. -/
def Closed (h : Memory) : Prop :=
  ∀ a c b, h.contentAt a = some c → b ∈ refs c → (h.contentAt b).isSome

/-- A wrapper of the type has the value. -/
def Typed (h : Memory) (type : JSONType) (r : Ref) : Prop :=
  Allocated h r ∧ (type = json_typeof h r ∨ type = .fault ∧ r = .null)

end State

open State

/-! ### Changes of the values -/

/-- No value disappears or changes its type. -/
def Evolves (h h' : Memory) : Prop :=
  ∀ a c, h.contentAt a = some c → ∃ c', h'.contentAt a = some c' ∧ c'.type = c.type

/-- No value changes. -/
def Extends (h h' : Memory) : Prop :=
  ∀ a c, h.contentAt a = some c → h'.contentAt a = some c

theorem Extends.evolves {h h' : Memory} (he : Extends h h') : Evolves h h' :=
  fun a c hc => ⟨c, he a c hc, rfl⟩

theorem Extends.trans {h h' h'' : Memory} (he : Extends h h') (he' : Extends h' h'') :
    Extends h h'' :=
  fun a c hc => he' a c (he a c hc)

theorem Extends.contentAt_eq_none {h h' : Memory} (he : Extends h h') {a : Nat}
    (hnone : h'.contentAt a = none) : h.contentAt a = none := by
  by_contra hsome
  obtain ⟨c, hc⟩ := Option.ne_none_iff_exists'.mp hsome
  rw [he a c hc] at hnone
  cases hnone

theorem extends_release (h : Memory) (pending : List Nat) : Extends h (h.release pending) :=
  fun a c hc => by rw [Heap.contentAt_release, hc]

theorem extends_alloc (h : Memory) (c : Content) : Extends h (h.alloc c) := by
  intro a c' hc
  rw [Heap.contentAt_alloc, if_neg (Nat.ne_of_gt (Heap.lt_fresh_of_contentAt hc)), hc]

theorem Extends.slotIn {h h' : Memory} (he : Extends h h') {json : Option Ref} {key : Text}
    {index : Nat} {r : Ref} (hslot : slotIn h json key index = some r) :
    slotIn h' json key index = some r := by
  obtain ⟨a, c, rfl, hc, hat⟩ := exists_of_slotIn hslot
  simp [Jansson.slotIn, he a c hc, hat]

theorem Evolves.allocated {h h' : Memory} (he : Evolves h h') {r : Ref} (hr : Allocated h r) :
    Allocated h' r := by
  intro a ha
  obtain ⟨c, hc⟩ := Option.isSome_iff_exists.mp (hr a ha)
  obtain ⟨c', hc', -⟩ := he a c hc
  rw [hc', Option.isSome_some]

theorem Evolves.json_typeof {h h' : Memory} (he : Evolves h h') {r : Ref} (hr : Allocated h r) :
    json_typeof h' r = json_typeof h r := by
  cases r with
  | cell a =>
      obtain ⟨c, hc⟩ := Option.isSome_iff_exists.mp (hr a rfl)
      obtain ⟨c', hc', htype⟩ := he a c hc
      simp [Jansson.json_typeof, hc, hc', htype]
  | _ => rfl

theorem Evolves.typed {h h' : Memory} (he : Evolves h h') {type : JSONType} {r : Ref}
    (hr : Typed h type r) : Typed h' type r :=
  ⟨he.allocated hr.1, by rw [he.json_typeof hr.1]; exact hr.2⟩

theorem closed_release {h : Memory} (hclosed : Closed h) (pending : List Nat) :
    Closed (h.release pending) := by
  simpa only [Closed, Heap.contentAt_release] using hclosed

theorem closed_write {h : Memory} (hclosed : Closed h) {a : Nat} {c : Content}
    (hrefs : ∀ b ∈ refs c, (h.contentAt b).isSome) : Closed (h.write a c) := by
  have hsome : ∀ b, (h.contentAt b).isSome → ((h.write a c).contentAt b).isSome := by
    intro b hb
    rw [Heap.contentAt_write]
    split
    · next hab => simpa [hab] using hb
    · exact hb
  intro b c' d hb hd
  apply hsome
  rw [Heap.contentAt_write] at hb
  split at hb
  · obtain ⟨old, -, rfl⟩ := Option.map_eq_some_iff.mp hb
    exact hrefs d hd
  · exact hclosed b c' d hb hd

theorem closed_alloc {h : Memory} (hclosed : Closed h) {c : Content}
    (hrefs : ∀ b ∈ refs c, (h.contentAt b).isSome) : Closed (h.alloc c) := by
  have hsome : ∀ b, (h.contentAt b).isSome → ((h.alloc c).contentAt b).isSome := by
    intro b hb
    rw [Heap.contentAt_alloc]
    split
    · rfl
    · exact hb
  intro b c' d hb hd
  apply hsome
  rw [Heap.contentAt_alloc] at hb
  split at hb
  · obtain rfl := Option.some.inj hb
    exact hrefs d hd
  · exact hclosed b c' d hb hd

/-! ### The wrappers -/

/-- How the wrappers hang together; those in `E` need not know what is in their
places. -/
structure Shape (s : State) (E : Nat → Prop) : Prop where
  closed : Closed s.heap
  self_mem : ∀ x, (s.get x).alive → x ∈ (s.get x).within
  holders : ∀ x, (s.get x).alive → ∀ q ∈ (s.get x).within,
    q ≤ x ∧ (s.get q).alive ∧ (s.get q).within ⊆ (s.get x).within
  parent : ∀ x p, (s.get x).alive → (s.get x).parent = some p →
    p < x ∧ (s.get p).alive ∧ ∀ q, q ∈ (s.get x).within ↔ q = x ∨ q ∈ (s.get p).within
  borrowed : ∀ x, (s.get x).alive → ((s.get x).jsonPtrIsBorrowed ↔ (s.get x).parent ≠ none)
  typed : ∀ x r, (s.get x).alive → (s.get x).json = some r → Typed s.heap (s.get x).type r
  synced : ∀ x p, (s.get x).alive → s.Usable x → ¬ E x → (s.get x).parent = some p →
    ∃ r, s.slot p x = some r ∧ ((s.get x).json = none ∨ (s.get x).json = some r)
  fault : ∀ x f, (s.get x).alive → (s.get x).fault = some f →
    (s.get f).alive ∧ (s.get f).parent = none ∧ f ≠ x ∧
      ∀ q, q ∈ (s.get f).within ↔ q = f ∨ q ∈ (s.get x).within

namespace Shape

variable {s t : State} {E E' : Nat → Prop} {w x : Nat}

/-- Only values, fault values and errors change. -/
theorem of_links (hs : Shape s E) (closed : Closed t.heap)
    (hlinks : ∀ x, links (t.get x) = links (s.get x))
    (hfault : ∀ x f, (s.get x).alive → (t.get x).fault = some f →
      (s.get f).alive ∧ (s.get f).parent = none ∧ f ≠ x ∧
        ∀ q, q ∈ (s.get f).within ↔ q = f ∨ q ∈ (s.get x).within)
    (typed : ∀ x r, (t.get x).alive → (t.get x).json = some r → Typed t.heap (t.get x).type r)
    (synced : ∀ x p, (t.get x).alive → t.Usable x → ¬ E' x → (t.get x).parent = some p →
      ∃ r, t.slot p x = some r ∧ ((t.get x).json = none ∨ (t.get x).json = some r)) :
    Shape t E' := by
  have halive : ∀ x, (t.get x).alive = (s.get x).alive :=
    fun x => (congrArg JSON.alive (hlinks x) :)
  have hwithin : ∀ x, (t.get x).within = (s.get x).within :=
    fun x => (congrArg JSON.within (hlinks x) :)
  have hparent : ∀ x, (t.get x).parent = (s.get x).parent :=
    fun x => (congrArg JSON.parent (hlinks x) :)
  have hborrowed : ∀ x, (t.get x).jsonPtrIsBorrowed = (s.get x).jsonPtrIsBorrowed :=
    fun x => (congrArg JSON.jsonPtrIsBorrowed (hlinks x) :)
  refine ⟨closed, ?_, ?_, ?_, ?_, typed, synced, ?_⟩
  · simpa only [halive, hwithin] using hs.self_mem
  · simpa only [halive, hwithin] using hs.holders
  · simpa only [halive, hwithin, hparent] using hs.parent
  · simpa only [halive, hparent, hborrowed] using hs.borrowed
  · simpa only [halive, hwithin, hparent] using hfault

/-- Only values and errors change. -/
theorem of_values (hs : Shape s E) (closed : Closed t.heap)
    (hlinks : ∀ x, links (t.get x) = links (s.get x))
    (hfault : ∀ x, (t.get x).fault = (s.get x).fault)
    (typed : ∀ x r, (t.get x).alive → (t.get x).json = some r → Typed t.heap (t.get x).type r)
    (synced : ∀ x p, (t.get x).alive → t.Usable x → ¬ E' x → (t.get x).parent = some p →
      ∃ r, t.slot p x = some r ∧ ((t.get x).json = none ∨ (t.get x).json = some r)) :
    Shape t E' :=
  hs.of_links closed hlinks (fun x f halive hf => hs.fault x f halive (by rwa [← hfault x]))
    typed synced

/-- The values change, but none in a place of a wrapper. -/
theorem onHeap (hs : Shape s E) {f : Memory → Memory} (hclosed : Closed (f s.heap))
    (he : Evolves s.heap (f s.heap))
    (hslot : ∀ x p r, (s.get x).alive → s.Usable x → ¬ E' x → (s.get x).parent = some p →
      ¬ E x ∧ (s.slot p x = some r → slotIn (f s.heap) (s.get p).json (s.get x).key
        (s.get x).index = some r)) :
    Shape (s.onHeap f) E' := by
  refine hs.of_values (t := s.onHeap f) hclosed (fun x => rfl) (fun x => rfl) ?_ ?_
  · intro x r halive hjson
    exact he.typed (hs.typed x r halive hjson)
  · intro x p halive husable hx hparent
    obtain ⟨r, hr, hjson⟩ := hs.synced x p halive husable (hslot x p .null halive husable hx
      hparent).1 hparent
    exact ⟨r, (hslot x p r halive husable hx hparent).2 hr, hjson⟩

theorem extend (hs : Shape s E) {f : Memory → Memory} (hclosed : Closed (f s.heap))
    (he : Extends s.heap (f s.heap)) : Shape (s.onHeap f) E :=
  hs.onHeap hclosed he.evolves fun _ _ _ _ _ hx _ => ⟨hx, he.slotIn⟩

/-! ### Destruction -/

theorem usable_delete (hs : Shape s E) {p : JSON → Bool} (halive : (s.get x).alive)
    (hkeep : ∀ q ∈ (s.get x).within, p (s.get q) = false) :
    (s.delete p).Usable x → s.Usable x := by
  intro husable c hc q hq
  have hcx := hs.holders x halive c hc
  have hparent := hs.parent c q hcx.2.1 hq
  have hq' : q ∈ (s.get x).within :=
    hcx.2.2 ((hparent.2.2 q).mpr (Or.inr (hs.self_mem q hparent.2.1)))
  have hx := get_delete_of_not (hkeep x (hs.self_mem x halive))
  have hc' := get_delete_of_not (hkeep c hc)
  have := husable c (by rwa [hx]) q (by rwa [hc'])
  rwa [get_delete_of_not (hkeep q hq')] at this

/-- Wrappers are destroyed together with all they hold. -/
theorem delete (hs : Shape s E) {p : JSON → Bool}
    (hwithin : ∀ x q, (s.get x).alive → q ∈ (s.get x).within → p (s.get q) → p (s.get x))
    (hfault : ∀ x f, (s.get x).alive → (s.get x).fault = some f → p (s.get f) → p (s.get x))
    (hE : ∀ x, (s.get x).alive → p (s.get x) = false → E x → E' x) :
    Shape (s.delete p) E' := by
  have hkeep : ∀ x, (s.get x).alive → p (s.get x) = false →
      ∀ q ∈ (s.get x).within, p (s.get q) = false := by
    intro x halive hp q hq
    by_contra hpq
    rw [hwithin x q halive hq (by simpa using hpq)] at hp
    cases hp
  constructor
  · exact closed_release hs.closed _
  · intro x hx
    obtain ⟨halive, hp⟩ := alive_delete.mp hx
    rw [get_delete_of_not hp]
    exact hs.self_mem x halive
  · intro x hx q hq
    obtain ⟨halive, hp⟩ := alive_delete.mp hx
    rw [get_delete_of_not hp] at hq ⊢
    have hpq := hkeep x halive hp q hq
    rw [get_delete_of_not hpq]
    exact hs.holders x halive q hq
  · intro x q hx hparent
    obtain ⟨halive, hp⟩ := alive_delete.mp hx
    rw [get_delete_of_not hp] at hparent ⊢
    obtain ⟨hlt, hq, hmem⟩ := hs.parent x q halive hparent
    have hpq := hkeep x halive hp q ((hmem q).mpr (Or.inr (hs.self_mem q hq)))
    rw [get_delete_of_not hpq]
    exact ⟨hlt, hq, hmem⟩
  · intro x hx
    obtain ⟨halive, hp⟩ := alive_delete.mp hx
    rw [get_delete_of_not hp]
    exact hs.borrowed x halive
  · intro x r hx hjson
    obtain ⟨halive, hp⟩ := alive_delete.mp hx
    rw [get_delete_of_not hp] at hjson ⊢
    exact (extends_release _ _).evolves.typed (hs.typed x r halive hjson)
  · intro x q hx husable hE' hparent
    obtain ⟨halive, hp⟩ := alive_delete.mp hx
    rw [get_delete_of_not hp] at hparent ⊢
    obtain ⟨hlt, hq, hmem⟩ := hs.parent x q halive hparent
    have hpq := hkeep x halive hp q ((hmem q).mpr (Or.inr (hs.self_mem q hq)))
    obtain ⟨r, hr, hjson⟩ := hs.synced x q halive
      (hs.usable_delete halive (hkeep x halive hp) husable)
      (fun hx => hE' (hE x halive hp hx)) hparent
    refine ⟨r, ?_, hjson⟩
    rw [slot, get_delete_of_not hp, get_delete_of_not hpq]
    exact (extends_release _ _).slotIn hr
  · intro x f hx hf
    obtain ⟨halive, hp⟩ := alive_delete.mp hx
    rw [get_delete_of_not hp] at hf ⊢
    have hpf : p (s.get f) = false := by
      by_contra hpf
      rw [hfault x f halive hf (by simpa using hpf)] at hp
      cases hp
    rw [get_delete_of_not hpf]
    exact hs.fault x f halive hf

/-- The children of `w` of some kind are destroyed with all they hold. -/
theorem deleteChildren (hs : Shape s E) (w : Nat) (p : JSON → Bool)
    (hE : ∀ x, (s.get x).alive → E x →
      E' x ∨ ∃ c ∈ (s.get x).within, (s.get c).parent = some w ∧ p (s.get c)) :
    Shape (s.delete (s.underChild w p)) E' := by
  have hunder : ∀ J : JSON, s.underChild w p J ↔
      ∃ c ∈ J.within, (s.get c).parent = some w ∧ p (s.get c) := by
    simp [underChild]
  apply hs.delete
  · intro x q halive hq hunderq
    obtain ⟨c, hc, hchild⟩ := (hunder _).mp hunderq
    exact (hunder _).mpr ⟨c, (hs.holders x halive q hq).2.2 hc, hchild⟩
  · intro x f halive hf hunderf
    obtain ⟨c, hc, hchild⟩ := (hunder _).mp hunderf
    obtain ⟨-, hparent, -, hwithin⟩ := hs.fault x f halive hf
    rcases (hwithin c).mp hc with rfl | hc
    · rw [hparent] at hchild
      cases hchild.1
    · exact (hunder _).mpr ⟨c, hc, hchild⟩
  · intro x halive hnot hx
    refine (hE x halive hx).resolve_right fun hchild => ?_
    rw [(hunder _).mpr hchild] at hnot
    cases hnot

/-! ### A new value for a wrapper -/

/-- The value of a wrapper changes, and what hangs on it is out of step. -/
theorem setJson (hs : Shape s E) {j : Ref} (hj : Allocated s.heap j) :
    Shape (s.modify w fun J => { J with json := some j, type := json_typeof s.heap j })
      fun x => E x ∨ x = w ∨ ∃ c ∈ (s.get x).within, (s.get c).parent = some w := by
  refine hs.of_values hs.closed (fun x => ?_) (fun x => ?_) ?_ ?_
  · rw [get_modify]
    split <;> rfl
  · rw [get_modify]
    split <;> rfl
  · intro x r halive hjson
    rw [heap_modify]
    rw [get_modify] at halive hjson ⊢
    split at halive
    · next hw =>
        rw [if_pos hw] at hjson ⊢
        obtain rfl := Option.some.inj hjson
        exact ⟨hj, Or.inl rfl⟩
    · next hw =>
        rw [if_neg hw] at hjson ⊢
        exact hs.typed x r halive hjson
  · intro x p halive husable hx hparent
    simp only [not_or, not_exists, not_and] at hx
    obtain ⟨hx, hne, hchild⟩ := hx
    rw [get_modify_of_ne (Ne.symm hne)] at halive hparent ⊢
    have hp : w ≠ p := by
      rintro rfl
      exact hchild x (hs.self_mem x halive) hparent
    have husable' : s.Usable x := by
      intro c hc q hq
      have hwq : w ≠ q := by
        rintro rfl
        exact hchild c hc hq
      have hlinks : ((s.modify w fun J => { J with
          json := some j, type := json_typeof s.heap j }).get c).parent = (s.get c).parent := by
        rw [get_modify]
        split <;> rfl
      have hjson := husable c (by rwa [get_modify_of_ne (Ne.symm hne)]) q (by rwa [hlinks])
      rwa [get_modify_of_ne hwq] at hjson
    obtain ⟨r, hr, hjson⟩ := hs.synced x p halive husable' hx hparent
    refine ⟨r, ?_, hjson⟩
    rwa [slot, get_modify_of_ne hp, get_modify_of_ne (Ne.symm hne)]

/-- After `reset`, only the wrapper itself is out of step with its place. -/
theorem reset (hs : Shape s E) {j : Ref} (hj : Allocated s.heap j) :
    Shape (s.reset w j) fun x => E x ∨ x = w := by
  have hdecref : Extends s.heap (json_decref (s.get w).json s.heap) := extends_release _ _
  have hset := (hs.extend (f := json_decref (s.get w).json) (closed_release hs.closed _)
    hdecref).setJson (w := w)
    (hdecref.evolves.allocated hj)
  apply hset.deleteChildren
  rintro x - (hx | hx | ⟨c, hc, hparent⟩)
  · exact Or.inl (Or.inl hx)
  · exact Or.inl (Or.inr hx)
  · refine Or.inr ⟨c, ?_, ?_, rfl⟩
    · rw [get_modify]
      split <;> exact hc
    · rw [get_modify]
      split <;> exact hparent

/-- The value of a wrapper goes to its place, in which no other wrapper is in step. -/
theorem place (hs : Shape s fun x => E x ∨ x = w) {q a : Nat} {c : Content} {v : Ref}
    (halive : (s.get w).alive) (hv : Allocated s.heap v) (hparent : (s.get w).parent = some q)
    (hjson : (s.get w).json = some v) (hq : (s.get q).json = some (.cell a))
    (hc : s.heap.contentAt a = some c) (htakes : c.Takes (s.get w).key (s.get w).index)
    (hunshared : ∀ x p, (s.get x).alive → s.Usable x → ¬ E x → x ≠ w →
      (s.get x).parent = some p → (s.get p).json = some (.cell a) →
      ¬ ((s.get x).key = (s.get w).key ∧ (s.get x).index = (s.get w).index)) (old : Option Ref) :
    Shape (s.onHeap fun h =>
      json_decref old (h.write a (c.set (s.get w).key (s.get w).index v))) E := by
  have hclosed : Closed
      (json_decref old (s.heap.write a (c.set (s.get w).key (s.get w).index v))) := by
    apply closed_release
    apply closed_write hs.closed
    intro b hb
    rcases mem_refs_set hb with hb | rfl
    · exact hs.closed a c b hc hb
    · exact hv b rfl
  have hevolves : Evolves s.heap
      (json_decref old (s.heap.write a (c.set (s.get w).key (s.get w).index v))) := by
    intro b c' hc'
    rw [json_decref, Heap.contentAt_release, Heap.contentAt_write]
    split
    · next hab =>
        subst hab
        obtain rfl := Option.some.inj (hc.symm.trans hc')
        exact ⟨_, by rw [hc, Option.map_some], type_set _ _ _ _⟩
    · exact ⟨c', hc', rfl⟩
  refine hs.of_values (t := s.onHeap _) hclosed (fun x => rfl) (fun x => rfl) ?_ ?_
  · intro x r hx hr
    exact hevolves.typed (hs.typed x r hx hr)
  · intro x p hx husable hE hp
    by_cases hxw : x = w
    · subst hxw
      obtain rfl := Option.some.inj (hparent.symm.trans hp)
      refine ⟨v, ?_, Or.inr hjson⟩
      rw [slot, heap_onHeap, json_decref, slotIn_release, slotIn_write hc, get_onHeap, if_pos hq]
      exact at_set_self htakes v
    · obtain ⟨r, hr, hsame⟩ := hs.synced x p hx husable (by simp [hE, hxw]) hp
      refine ⟨r, ?_, hsame⟩
      rw [slot, heap_onHeap, json_decref, slotIn_release, slotIn_write hc, get_onHeap, get_onHeap]
      split
      · next hpa =>
          rw [at_set_of_ne (hunshared x p hx husable hE hxw hp hpa)]
          rw [slot, hpa] at hr
          simpa [slotIn, hc] using hr
      · exact hr

/-! ### New wrappers -/

/-- A new wrapper without a fault value. -/
theorem push (hs : Shape s E) {J : JSON} (tail : List Nat) (halive : J.alive)
    (hfault : J.fault = none) (hwithin : J.within = s.next :: tail)
    (htail : ∀ q ∈ tail, (s.get q).alive ∧ (s.get q).within ⊆ tail)
    (hparent : ∀ p, J.parent = some p → (s.get p).alive ∧ tail = (s.get p).within)
    (hborrowed : J.jsonPtrIsBorrowed ↔ J.parent ≠ none)
    (htyped : ∀ r, J.json = some r → Typed s.heap J.type r)
    (hsynced : ∀ p, J.parent = some p → ∃ r,
      slotIn s.heap (s.get p).json J.key J.index = some r ∧ (J.json = none ∨ J.json = some r)) :
    Shape (s.push J) E := by
  have hold : ∀ x, (s.get x).alive → (s.push J).get x = s.get x := fun x hx => by
    rw [get_push, if_neg (Nat.ne_of_lt (lt_next_of_alive hx))]
  have hnew : (s.push J).get s.next = J := by rw [get_push, if_pos rfl]
  have hcases : ∀ x, ((s.push J).get x).alive → x = s.next ∨ x ≠ s.next ∧ (s.get x).alive := by
    intro x hx
    by_cases hxn : x = s.next
    · exact Or.inl hxn
    · rw [get_push, if_neg hxn] at hx
      exact Or.inr ⟨hxn, hx⟩
  have hmem : ∀ x, (s.get x).alive → ∀ q ∈ (s.get x).within, (s.push J).get q = s.get q :=
    fun x hx q hq => hold q (hs.holders x hx q hq).2.1
  constructor
  · exact hs.closed
  · intro x hx
    rcases hcases x hx with rfl | ⟨-, halivex⟩
    · simp [hnew, hwithin]
    · rw [hold x halivex]
      exact hs.self_mem x halivex
  · intro x hx q hq
    rcases hcases x hx with rfl | ⟨-, halivex⟩
    · rw [hnew, hwithin] at hq ⊢
      rcases List.mem_cons.mp hq with rfl | hq
      · simp [hnew, halive, hwithin]
      · obtain ⟨haliveq, hsub⟩ := htail q hq
        rw [hold q haliveq]
        exact ⟨Nat.le_of_lt (lt_next_of_alive haliveq), haliveq,
          fun c hc => List.mem_cons_of_mem _ (hsub hc)⟩
    · rw [hold x halivex] at hq ⊢
      rw [hmem x halivex q hq]
      exact hs.holders x halivex q hq
  · intro x p hx hp
    rcases hcases x hx with rfl | ⟨-, halivex⟩
    · rw [hnew] at hp ⊢
      obtain ⟨halivep, rfl⟩ := hparent p hp
      rw [hold p halivep]
      exact ⟨lt_next_of_alive halivep, halivep, by simp [hwithin]⟩
    · rw [hold x halivex] at hp ⊢
      obtain ⟨hlt, halivep, hpwithin⟩ := hs.parent x p halivex hp
      rw [hold p halivep]
      exact ⟨hlt, halivep, hpwithin⟩
  · intro x hx
    rcases hcases x hx with rfl | ⟨-, halivex⟩
    · rw [hnew]
      exact hborrowed
    · rw [hold x halivex]
      exact hs.borrowed x halivex
  · intro x r hx hr
    rcases hcases x hx with rfl | ⟨-, halivex⟩
    · rw [hnew] at hr ⊢
      exact htyped r hr
    · rw [hold x halivex] at hr ⊢
      exact hs.typed x r halivex hr
  · intro x p hx husable hE hp
    rcases hcases x hx with rfl | ⟨-, halivex⟩
    · rw [hnew] at hp ⊢
      obtain ⟨r, hr, hjson⟩ := hsynced p hp
      refine ⟨r, ?_, hjson⟩
      rw [slot, hnew, hold p (hparent p hp).1]
      exact hr
    · rw [hold x halivex] at hp ⊢
      have husable' : s.Usable x := by
        intro c hc q hq
        have halivec := (hs.holders x halivex c hc).2.1
        have hcount := husable c (by rwa [hold x halivex]) q (by rwa [hold c halivec])
        rwa [hold q (hs.parent c q halivec hq).2.1] at hcount
      obtain ⟨r, hr, hjson⟩ := hs.synced x p halivex husable' hE hp
      refine ⟨r, ?_, hjson⟩
      rw [slot, hold x halivex, hold p (hs.parent x p halivex hp).2.1]
      exact hr
  · intro x f hx hf
    rcases hcases x hx with rfl | ⟨-, halivex⟩
    · rw [hnew, hfault] at hf
      cases hf
    · rw [hold x halivex] at hf ⊢
      obtain ⟨halivef, hrest⟩ := hs.fault x f halivex hf
      rw [hold f halivef]
      exact ⟨halivef, hrest⟩

/-- A wrapper that nothing holds. -/
theorem pushRoot (hs : Shape s E) {J : JSON} (halive : J.alive) (hfault : J.fault = none)
    (hwithin : J.within = [s.next]) (hparent : J.parent = none)
    (hborrowed : J.jsonPtrIsBorrowed = false)
    (htyped : ∀ r, J.json = some r → Typed s.heap J.type r) : Shape (s.push J) E := by
  apply hs.push [] halive hfault hwithin
  · simp
  · simp [hparent]
  · simp [hborrowed, hparent]
  · exact htyped
  · simp [hparent]

end Shape

end KappaGateway.JsonWrapper

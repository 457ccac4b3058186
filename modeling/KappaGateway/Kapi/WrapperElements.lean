import KappaGateway.Kapi.WrapperShape

/-!
# Elements and assignments of wrappers

What the operations do, in terms of the wrapper that is found or added, and of
the one container that changes. An element is read through the wrapper that its
parent has for the place, or through a new one, after the container has grown to
have the place.
-/

namespace KappaGateway.JsonWrapper

open KeyedList RefCount Kutil Jansson State

/-- All wrappers are in step with their places. -/
abbrev InStep (s : State) : Prop := Shape s fun _ => False

/-- A container that has a place; what is missing is null. -/
def grow : Content → Text → Nat → Content
  | .object members, key, 0 =>
      .object (if (valueAt key members).isSome then members
        else alter key (fun _ => .null) members)
  | .array elements, [], index =>
      .array (elements ++ List.replicate (index + 1 - elements.length) .null)
  | c, _, _ => c

section

variable {c : Content} {key : Text} {index : Nat}

@[simp] theorem type_grow (c : Content) (key : Text) (index : Nat) :
    (grow c key index).type = c.type := by
  unfold grow
  split <;> rfl

/-- What was in a place stays there. -/
theorem at_grow {key' : Text} {index' : Nat} {r : Ref} (hat : c.at key' index' = some r) :
    (grow c key index).at key' index' = some r := by
  cases c with
  | object members =>
      cases index with
      | succ index => exact hat
      | zero =>
          cases index' with
          | succ index' => cases hat
          | zero =>
              simp only [grow, Content.at] at hat ⊢
              split
              · exact hat
              · next hmissing =>
                  have hne : key' ≠ key := by
                    rintro rfl
                    exact hmissing (by rw [hat, Option.isSome_some])
                  rw [valueAt_alter_of_ne hne, hat]
  | array elements =>
      cases key with
      | cons k key => exact hat
      | nil =>
          cases key' with
          | cons k key' => cases hat
          | nil =>
              simp only [grow, Content.at] at hat ⊢
              rw [List.getElem?_append_left (List.getElem?_eq_some_iff.mp hat).1, hat]
  | _ => cases hat

theorem grow_eq_self (hat : (c.at key index).isSome) : grow c key index = c := by
  unfold Content.at at hat
  split at hat
  · simp [grow, hat]
  · next elements index =>
      rw [Option.isSome_iff_exists] at hat
      obtain ⟨r, hr⟩ := hat
      have hindex := (List.getElem?_eq_some_iff.mp hr).1
      simp [grow, Nat.sub_eq_zero_of_le hindex]
  · cases hat

end

namespace State

/-- A child of `w` for a place. -/
def childJSON (s : State) (w : Nat) (key : Text) (index : Nat) (r : Ref) : JSON :=
  { JSON.new (s.next :: (s.get w).within) with
    parent := some w, key := key, index := index, json := some r
    type := json_typeof s.heap r, jsonPtrIsBorrowed := true }

end State

section

variable {s : State} {E : Nat → Prop} {w a : Nat} {key : Text} {index : Nat}

/-- Nothing is held by a wrapper that is about to be added. -/
theorem Shape.parent_ne_next (hs : Shape s E) {x : Nat} (halive : (s.get x).alive) {c : Nat}
    (hc : c ∈ (s.get x).within) : (s.get c).parent ≠ some s.next := by
  intro hparent
  have hcx := hs.holders x halive c hc
  have hlt := (hs.parent c s.next hcx.2.1 hparent).1
  have hnext := lt_next_of_alive hcx.2.1
  omega

/-- `reset` of a wrapper that was just added. -/
theorem reset_push (hs : Shape s E) (f : Memory → Memory) {J : JSON} (tail : List Nat)
    (hjson : J.json = some .null) (hwithin : J.within = s.next :: tail)
    (htail : ∀ q ∈ tail, (s.get q).alive) (hparent : J.parent ≠ some s.next) (r : Ref) :
    ((s.onHeap f).push J).reset s.next r =
      (s.onHeap f).push { J with json := some r, type := json_typeof (f s.heap) r } := by
  have hnew : ((s.onHeap f).push J).get s.next = J := by rw [get_push, next_onHeap, if_pos rfl]
  have hdecref : json_decref (some .null) (f s.heap) = f s.heap := Heap.release_nil _
  have hpushed : ((s.onHeap f).push J).onHeap (json_decref (some .null)) =
      (s.onHeap f).push J := by
    rw [onHeap, heap_push, heap_onHeap, hdecref]
    rfl
  have hmodify := modify_push (s := s.onHeap f)
    (f := fun J => { J with json := some r, type := json_typeof (f s.heap) r }) J
  rw [next_onHeap] at hmodify
  simp only [reset, hnew, hjson, hpushed, heap_push, heap_onHeap, hmodify]
  apply delete_eq_self
  intro x hx
  rw [Bool.eq_false_iff]
  intro hunder
  obtain ⟨c, hc, hchild⟩ := List.any_eq_true.mp hunder
  simp only [Bool.and_true, decide_eq_true_eq] at hchild
  by_cases hxn : x = s.next
  · rw [get_push, next_onHeap, if_pos hxn] at hc
    simp only [hwithin, List.mem_cons] at hc
    rcases hc with rfl | hc
    · rw [get_push, next_onHeap, if_pos rfl] at hchild
      exact hparent hchild
    · have hcalive := htail c hc
      rw [get_push, next_onHeap, if_neg (Nat.ne_of_lt (lt_next_of_alive hcalive))] at hchild
      exact hs.parent_ne_next hcalive (hs.self_mem c hcalive) hchild
  · rw [get_push, next_onHeap, if_neg hxn] at hx hc
    have hcalive := (hs.holders x hx c hc).2.1
    rw [get_push, next_onHeap, if_neg (Nat.ne_of_lt (lt_next_of_alive hcalive))] at hchild
    exact hs.parent_ne_next hx hc hchild

theorem wrapperKey_found (hs : Shape s E) (halive : (s.get w).alive) {r : Ref}
    (hget : json_object_get s.heap (s.get w).json key = some r) :
    s.wrapperKey w key = (s.push (s.childJSON w key 0 r), s.next) := by
  have hw : ∀ J, (s.push J).get w = s.get w := fun J => by
    rw [get_push, if_neg (Nat.ne_of_lt (lt_next_of_alive halive))]
  have hreset := reset_push hs id (s.get w).within
    (J := { JSON.new (s.next :: (s.get w).within) with parent := some w, key := key })
    rfl rfl (fun q hq => (hs.holders w halive q hq).2.1)
    (fun h => Nat.ne_of_lt (lt_next_of_alive halive) (Option.some.inj h)) r
  rw [show s.onHeap id = s from rfl] at hreset
  simp only [wrapperKey, hw, heap_push, hget, hreset, modify_push]
  rfl

theorem wrapperKey_missing (halive : (s.get w).alive) {members : List (Text × Ref)}
    (hjson : (s.get w).json = some (.cell a)) (hc : s.heap.contentAt a = some (.object members))
    (htype : (s.get w).type = .object) (hmissing : valueAt key members = none) :
    s.wrapperKey w key =
      ((s.onHeap (Heap.write a (.object (alter key (fun _ => .null) members)))).push
        (s.childJSON w key 0 .null), s.next) := by
  have hw : ∀ J, (s.push J).get w = s.get w := fun J => by
    rw [get_push, if_neg (Nat.ne_of_lt (lt_next_of_alive halive))]
  have hget : json_object_get s.heap (some (.cell a)) key = none := by
    simp [json_object_get, objectAt, hc, hmissing]
  have hdecref : ∀ h : Memory, json_decref none h = h := fun h => Heap.release_nil h
  let J : JSON := { JSON.new (s.next :: (s.get w).within) with parent := some w, key := key }
  have hnew : (s.push J).get s.next = J := by rw [get_push, if_pos rfl]
  have hupdate : (s.push J).updateParent s.next =
      ((s.push J).modify s.next fun J => { J with jsonPtrIsBorrowed := true }).onHeap fun h =>
        json_decref (valueAt key members)
          (h.write a (.object (alter key (fun _ => .null) members))) := by
    have heq := updateParent_eq (s := s.push J) (w := s.next) (q := w) (c := .object members)
      (v := .null) (a := a) (by rw [hnew]) (Nat.ne_of_lt (lt_next_of_alive halive))
      (by rw [hnew]; rfl) (by rw [hw, hjson]) hc (by rw [hw, htype]; rfl) (by rw [hnew]; rfl)
      (by simp)
    rw [hnew] at heq
    exact heq
  simp only [hmissing, hdecref, modify_push] at hupdate
  simp only [wrapperKey, hw, heap_push, hjson, hget]
  rw [show (s.push { JSON.new (s.next :: (s.get w).within) with parent := some w, key := key }) =
    s.push J from rfl, hupdate]
  exact congrArg (·, s.next) (modify_push
    (s := s.onHeap (Heap.write a (.object (alter key (fun _ => .null) members)))) _)

/-! ### Growing arrays -/

section

variable {h : Memory} {elements : List Ref}

theorem contentAt_appendNulls (hc : h.contentAt a = some (.array elements)) (n b : Nat) :
    ((json_array_append_new (some (.cell a)) .null)^[n] h).contentAt b =
      if a = b then some (.array (elements ++ List.replicate n .null)) else h.contentAt b := by
  induction n generalizing h elements with
  | zero =>
      by_cases hab : a = b
      · subst hab
        simp [hc]
      · simp [hab]
  | succ n ih =>
      have happend : json_array_append_new (some (.cell a)) .null h =
          h.write a (.array (elements ++ [.null])) := by
        simp [json_array_append_new, arrayAt, hc]
      have hcell : (h.write a (.array (elements ++ [.null]))).contentAt a =
          some (.array (elements ++ [.null])) := by
        rw [Heap.contentAt_write, if_pos rfl, hc, Option.map_some]
      rw [Function.iterate_succ_apply, happend, ih hcell, List.append_assoc,
        List.singleton_append, ← List.replicate_succ]
      split
      · rfl
      · next hab => rw [Heap.contentAt_write, if_neg hab]

theorem appendNulls_invariant {P : Memory → Prop}
    (hwrite : ∀ h elements, h.contentAt a = some (.array elements) → P h →
      P (h.write a (.array (elements ++ [.null]))))
    (hc : h.contentAt a = some (.array elements)) (n : Nat) (hP : P h) :
    P ((json_array_append_new (some (.cell a)) .null)^[n] h) := by
  induction n generalizing h elements with
  | zero => exact hP
  | succ n ih =>
      have happend : json_array_append_new (some (.cell a)) .null h =
          h.write a (.array (elements ++ [.null])) := by
        simp [json_array_append_new, arrayAt, hc]
      rw [Function.iterate_succ_apply, happend]
      have hcell : (h.write a (.array (elements ++ [.null]))).contentAt a =
          some (.array (elements ++ [.null])) := by
        rw [Heap.contentAt_write, if_pos rfl, hc, Option.map_some]
      exact ih hcell (hwrite h elements hc hP)

end

theorem refs_grow (c : Content) (key : Text) (index : Nat) : refs (grow c key index) = refs c := by
  cases c with
  | object members =>
      cases index with
      | succ index => rfl
      | zero =>
          simp only [grow]
          split
          · rfl
          · next hmissing =>
              rw [Option.not_isSome_iff_eq_none] at hmissing
              simp [alter_of_none hmissing, refs, Ref.cells]
  | array elements =>
      cases key with
      | cons k key => rfl
      | nil => simp [grow, refs, Ref.cells, List.flatMap_replicate]
  | _ => rfl

/-- One container has grown to have a place. -/
structure Grown (h : Memory) (a : Nat) (c : Content) (h' : Memory) : Prop where
  contentAt : ∀ b, h'.contentAt b = if a = b then some c else h.contentAt b
  fresh : h'.fresh = h.fresh
  twice : h'.twice = h.twice
  balanced : ∀ out, h.Balanced out → h'.Balanced out

theorem grown_self {h : Memory} {c : Content} (hc : h.contentAt a = some c) : Grown h a c h := by
  refine ⟨fun b => ?_, rfl, rfl, fun _ hb => hb⟩
  split
  · next hab => rw [← hab, hc]
  · rfl

theorem grown_write {h : Memory} {c : Content} (hc : h.contentAt a = some c) :
    Grown h a (grow c key index) (h.write a (grow c key index)) := by
  refine ⟨fun b => ?_, Heap.fresh_write _, rfl, fun _ hb => hb.write_same hc (refs_grow c _ _)⟩
  rw [Heap.contentAt_write, hc]
  rfl

theorem grown_appendNulls {h : Memory} {elements : List Ref} (index : Nat)
    (hc : h.contentAt a = some (.array elements)) :
    Grown h a (grow (.array elements) [] index)
      ((json_array_append_new (some (.cell a)) .null)^[index + 1 - elements.length] h) where
  contentAt b := contentAt_appendNulls hc _ b
  fresh := by
    refine appendNulls_invariant (P := fun h' => h'.fresh = h.fresh) ?_ hc _ rfl
    intro h' elements hc' hP
    rw [Heap.fresh_write, hP]
  twice := appendNulls_invariant (P := fun h' => h'.twice = h.twice) (fun _ _ _ hP => hP) hc _ rfl
  balanced out hb := by
    refine appendNulls_invariant (P := fun h' => h'.Balanced out) ?_ hc _ hb
    intro h' elements hc' hP
    exact hP.write_same hc' (by simp [refs, Ref.cells])

/-! ### The wrapper of an element -/

/-- The wrapper that a place has, or a new one for what lies there. -/
inductive Accessed (s : State) (w : Nat) (key : Text) (index : Nat) : State → Nat → Prop
  | cached {x : Nat} (halive : (s.get x).alive) (hparent : (s.get x).parent = some w)
      (hkey : (s.get x).key = key) (hindex : (s.get x).index = index) :
      Accessed s w key index s x
  | added {a : Nat} {c : Content} {f : Memory → Memory} {r : Ref}
      (hnone : ∀ x, (s.get x).alive → (s.get x).parent = some w →
        ¬ ((s.get x).key = key ∧ (s.get x).index = index))
      (hjson : (s.get w).json = some (.cell a)) (hc : s.heap.contentAt a = some c)
      (hgrown : Grown s.heap a (grow c key index) (f s.heap))
      (hat : (grow c key index).at key index = some r) :
      Accessed s w key index
        ((s.onHeap f).push ((s.onHeap f).childJSON w key index r)) s.next

theorem child_eq_some {p : JSON → Bool} {x : Nat} (hchild : s.child w p = some x) :
    (s.get x).alive ∧ (s.get x).parent = some w ∧ p (s.get x) := by
  obtain ⟨hx, hp, -⟩ := List.findIdx?_eq_some_iff_getElem.mp hchild
  rw [get_eq_getElem hx]
  simpa [and_assoc] using hp

theorem child_eq_none {p : JSON → Bool} (hchild : s.child w p = none) {x : Nat}
    (halive : (s.get x).alive) (hparent : (s.get x).parent = some w) : p (s.get x) = false := by
  have hx := lt_next_of_alive halive
  have hmem : s.get x ∈ s.wrappers := by
    rw [get_eq_getElem hx]
    exact List.getElem_mem hx
  have hall := List.findIdx?_eq_none_iff.mp hchild (s.get x) hmem
  simpa [halive, hparent] using hall

/-- A wrapper of a counted type has a cell of that type. -/
theorem Shape.cell_of_type (hs : Shape s E) (halive : (s.get w).alive)
    (hjson : (s.get w).json ≠ none)
    (htype : (s.get w).type ∈ [JSONType.object, .array, .string, .integer, .real]) :
    ∃ a c, (s.get w).json = some (.cell a) ∧ s.heap.contentAt a = some c ∧
      c.type = (s.get w).type := by
  obtain ⟨r, hr⟩ := Option.ne_none_iff_exists'.mp hjson
  obtain ⟨hallocated, htyped⟩ := hs.typed w r halive hr
  rcases htyped with htyped | ⟨hfault, -⟩
  · cases r with
    | null => simp [htyped, json_typeof] at htype
    | bool b => cases b <;> simp [htyped, json_typeof] at htype
    | cell a =>
        obtain ⟨c, hc⟩ := Option.isSome_iff_exists.mp (hallocated a rfl)
        exact ⟨a, c, hr, hc, by simp [htyped, json_typeof, hc]⟩
  · simp [hfault] at htype

/-- The children of a wrapper that was not moved from are in step. -/
theorem Shape.usable_child (hs : Shape s E) (husable : s.Usable w)
    (hjson : (s.get w).json ≠ none) {x : Nat} (halive : (s.get x).alive)
    (hparent : (s.get x).parent = some w) : s.Usable x := by
  intro c hc p hp
  rcases ((hs.parent x w halive hparent).2.2 c).mp hc with rfl | hc
  · rw [hparent] at hp
    rwa [← Option.some.inj hp]
  · exact husable c hc p hp

theorem childKey_accessed (hs : InStep s) (halive : (s.get w).alive) (husable : s.Usable w)
    (htype : (s.get w).type = .object) (hjson : (s.get w).json ≠ none) (key : Text) :
    Accessed s w key 0 (s.childKey w key).1 (s.childKey w key).2 := by
  obtain ⟨a, c, hcell, hc, hctype⟩ := hs.cell_of_type halive hjson (by simp [htype])
  rw [htype] at hctype
  obtain ⟨members, rfl⟩ : ∃ members, c = .object members := by
    cases c <;> simp [Content.type] at hctype ⊢
  cases hchild : s.child w (fun J => J.key = key) with
  | some x =>
      obtain ⟨hx, hparent, hkey⟩ := child_eq_some hchild
      have hplace := hs.synced x w hx (hs.usable_child husable hjson hx hparent) id hparent
      obtain ⟨r, hslot, -⟩ := hplace
      rw [slot, hcell] at hslot
      obtain ⟨a', c', ha, hc', hat⟩ := exists_of_slotIn hslot
      obtain rfl : a = a' := by simpa using ha
      obtain rfl := Option.some.inj (hc.symm.trans hc')
      have hindex : (s.get x).index = 0 := takes_of_at hat
      simp only [childKey, hchild]
      exact .cached hx hparent (by simpa using hkey) hindex
  | none =>
      have hnone : ∀ x, (s.get x).alive → (s.get x).parent = some w →
          ¬ ((s.get x).key = key ∧ (s.get x).index = 0) := by
        rintro x hx hparent ⟨hkey, -⟩
        have hfalse := child_eq_none hchild hx hparent
        simp [hkey] at hfalse
      simp only [childKey, hchild]
      cases hvalue : valueAt key members with
      | some r =>
          have hget : json_object_get s.heap (s.get w).json key = some r := by
            simp [json_object_get, objectAt, hcell, hc, hvalue]
          have hself : grow (.object members) key 0 = .object members :=
            grow_eq_self (by simp [Content.at, hvalue])
          rw [wrapperKey_found hs halive hget]
          refine .added (f := id) hnone hcell hc ?_ ?_
          · rw [hself]
            exact grown_self hc
          · rw [hself]
            exact hvalue
      | none =>
          have hgrow : grow (.object members) key 0 =
              .object (alter key (fun _ => .null) members) := by
            simp [grow, hvalue]
          rw [wrapperKey_missing halive hcell hc htype hvalue, ← hgrow]
          refine .added (f := Heap.write a _) hnone hcell hc (grown_write hc) ?_
          rw [hgrow]
          exact valueAt_alter_self key _ members

theorem json_array_get_eq {h : Memory} {elements : List Ref}
    (hc : h.contentAt a = some (.array elements)) :
    json_array_get h (some (.cell a)) index = elements[index]? := by
  simp [json_array_get, arrayAt, hc]

theorem wrapperIndex_eq (hs : Shape s E) (halive : (s.get w).alive) {elements : List Ref}
    (hjson : (s.get w).json = some (.cell a)) (hc : s.heap.contentAt a = some (.array elements))
    (htype : (s.get w).type = .array) {f : Memory → Memory} {r : Ref}
    (hf : f = (json_array_append_new (some (.cell a)) .null)^[index + 1 - elements.length])
    (hr : json_array_get (f s.heap) (some (.cell a)) index = some r) :
    s.wrapperIndex w index =
      ((s.onHeap f).push ((s.onHeap f).childJSON w [] index r), s.next) := by
  have hw : ∀ J, (s.push J).get w = s.get w := fun J => by
    rw [get_push, if_neg (Nat.ne_of_lt (lt_next_of_alive halive))]
  have hsize : ∀ J, (s.push J).size w = elements.length := fun J => by
    simp [size, hw, htype, json_array_size, arrayAt, hjson, hc]
  have hreset := reset_push hs f (s.get w).within
    (J := { JSON.new (s.next :: (s.get w).within) with parent := some w, index := index })
    rfl rfl (fun q hq => (hs.holders w halive q hq).2.1)
    (fun h => Nat.ne_of_lt (lt_next_of_alive halive) (Option.some.inj h)) r
  have hheap : ∀ J, (s.push J).onHeap f = (s.onHeap f).push J := fun _ => rfl
  have hmodify := modify_push (s := s.onHeap f) (f := fun J => { J with jsonPtrIsBorrowed := true })
    { JSON.new (s.next :: (s.get w).within) with
      parent := some w, index := index, json := some r, type := json_typeof (f s.heap) r }
  rw [next_onHeap] at hmodify
  simp only [wrapperIndex, hw, hsize, hjson, ← hf, hheap, heap_push, heap_onHeap]
  rw [show (((s.onHeap f).push _).get w) = s.get w from hw _, hjson]
  simp only [hr, hreset, hmodify]
  rfl

theorem elementIndex_accessed (hs : InStep s) (halive : (s.get w).alive) (husable : s.Usable w)
    (htype : (s.get w).type = .array) (hjson : (s.get w).json ≠ none) (index : Nat) :
    Accessed s w [] index (s.elementIndex w index).1 (s.elementIndex w index).2 := by
  obtain ⟨a, c, hcell, hc, hctype⟩ := hs.cell_of_type halive hjson (by simp [htype])
  rw [htype] at hctype
  obtain ⟨elements, rfl⟩ : ∃ elements, c = .array elements := by
    cases c <;> simp [Content.type] at hctype ⊢
  cases hchild : s.child w (fun J => J.index = index) with
  | some x =>
      obtain ⟨hx, hparent, hindex⟩ := child_eq_some hchild
      have hplace := hs.synced x w hx (hs.usable_child husable hjson hx hparent) id hparent
      obtain ⟨r, hslot, -⟩ := hplace
      rw [slot, hcell] at hslot
      obtain ⟨a', c', ha, hc', hat⟩ := exists_of_slotIn hslot
      obtain rfl : a = a' := by simpa using ha
      obtain rfl := Option.some.inj (hc.symm.trans hc')
      have hkey : (s.get x).key = [] := (takes_of_at hat).1
      simp only [elementIndex, htype, hchild]
      exact .cached hx hparent hkey (by simpa using hindex)
  | none =>
      have hnone : ∀ x, (s.get x).alive → (s.get x).parent = some w →
          ¬ ((s.get x).key = [] ∧ (s.get x).index = index) := by
        rintro x hx hparent ⟨-, hindex⟩
        have hfalse := child_eq_none hchild hx hparent
        simp [hindex] at hfalse
      have hgrown := grown_appendNulls index hc
      have hcell' := hgrown.contentAt a
      rw [if_pos rfl] at hcell'
      obtain ⟨r, hr⟩ : ∃ r, (grow (.array elements) [] index).at [] index = some r := by
        simp only [grow, Content.at]
        exact ⟨_, List.getElem?_eq_getElem (by simp; omega)⟩
      have hget : json_array_get
          ((json_array_append_new (some (.cell a)) .null)^[index + 1 - elements.length] s.heap)
          (some (.cell a)) index = some r := by
        rw [← hr]
        exact json_array_get_eq hcell'
      simp only [elementIndex, htype, hchild,
        wrapperIndex_eq hs halive hcell hc htype rfl hget]
      exact .added hnone hcell hc hgrown hr

/-- What an element access gives, and what it leaves. -/
structure Element (s : State) (w : Nat) (key : Text) (index : Nat) (t : State) (x : Nat) :
    Prop where
  alive : (t.get x).alive
  parent : (t.get x).parent = some w
  key : (t.get x).key = key
  index : (t.get x).index = index
  kept : ∀ y, (s.get y).alive → t.get y = s.get y

theorem Grown.evolves {h h' : Memory} {c : Content} (hgrown : Grown h a (grow c key index) h')
    (hc : h.contentAt a = some c) : Evolves h h' := by
  intro b d hd
  rw [hgrown.contentAt]
  split
  · next hab =>
      obtain rfl := Option.some.inj (hc.symm.trans (hab ▸ hd))
      exact ⟨_, rfl, type_grow c key index⟩
  · exact ⟨d, hd, rfl⟩

theorem Grown.closed {h h' : Memory} {c : Content} (hgrown : Grown h a (grow c key index) h')
    (hc : h.contentAt a = some c) (hclosed : Closed h) : Closed h' := by
  intro b d e hd he
  have hallocated : (h.contentAt e).isSome := by
    rw [hgrown.contentAt] at hd
    split at hd
    · obtain rfl := Option.some.inj hd
      rw [refs_grow] at he
      exact hclosed a c e hc he
    · exact hclosed b d e hd he
  obtain ⟨d', hd'⟩ := Option.isSome_iff_exists.mp hallocated
  obtain ⟨d'', hd'', -⟩ := hgrown.evolves hc e d' hd'
  rw [hd'', Option.isSome_some]

theorem Grown.slotIn {h h' : Memory} {c : Content} (hgrown : Grown h a (grow c key index) h')
    (hc : h.contentAt a = some c) {json : Option Ref} {key' : Text} {index' : Nat} {r : Ref}
    (hslot : slotIn h json key' index' = some r) : slotIn h' json key' index' = some r := by
  obtain ⟨b, d, rfl, hd, hat⟩ := exists_of_slotIn hslot
  simp only [Jansson.slotIn, hgrown.contentAt]
  split
  · next hab =>
      obtain rfl := Option.some.inj (hc.symm.trans (hab ▸ hd))
      exact at_grow hat
  · simp [hd, hat]

theorem Accessed.element {t : State} {x : Nat} (hacc : Accessed s w key index t x) :
    Element s w key index t x := by
  cases hacc with
  | cached hx hparent hkey hindex => exact ⟨hx, hparent, hkey, hindex, fun _ _ => rfl⟩
  | @added a c f r hnone hjson hc hgrown hat =>
      have hnew : ((s.onHeap f).push ((s.onHeap f).childJSON w key index r)).get s.next =
          (s.onHeap f).childJSON w key index r := by
        rw [get_push, next_onHeap, if_pos rfl]
      refine ⟨by rw [hnew]; rfl, by rw [hnew]; rfl, by rw [hnew]; rfl, by rw [hnew]; rfl, ?_⟩
      intro y hy
      rw [get_push, next_onHeap, if_neg (Nat.ne_of_lt (lt_next_of_alive hy)), get_onHeap]

/-- Accessing an element keeps all wrappers in step. -/
theorem Accessed.inStep {t : State} {x : Nat} (hacc : Accessed s w key index t x) (hs : InStep s)
    (halive : (s.get w).alive) : InStep t := by
  cases hacc with
  | cached hx hparent hkey hindex => exact hs
  | @added a c f r hnone hjson hc hgrown hat =>
      have hheap : InStep (s.onHeap f) := by
        apply hs.onHeap (hgrown.closed hc hs.closed) (hgrown.evolves hc)
        intro x p r hx husable hE hparent
        exact ⟨hE, hgrown.slotIn hc⟩
      have hcell : (f s.heap).contentAt a = some (grow c key index) := by
        rw [hgrown.contentAt, if_pos rfl]
      apply hheap.push (s.get w).within rfl rfl rfl
      · intro q hq
        exact (hs.holders w halive q hq).2
      · intro p hp
        obtain rfl := Option.some.inj hp
        exact ⟨halive, rfl⟩
      · simp [childJSON]
      · intro r' hr'
        obtain rfl := Option.some.inj hr'
        refine ⟨?_, Or.inl rfl⟩
        rintro b rfl
        exact hheap.closed a _ b hcell (mem_refs_of_at hat)
      · intro p hp
        obtain rfl := Option.some.inj hp
        refine ⟨r, ?_, Or.inr rfl⟩
        simp only [childJSON, get_onHeap, heap_onHeap, slotIn, hjson, hcell]
        exact hat

/-! ### A new value -/

theorem json_typeof_release (h : Memory) (pending : List Nat) (r : Ref) :
    json_typeof (h.release pending) r = json_typeof h r := by
  cases r <;> simp [json_typeof]

/-- No wrapper is below its own children. -/
theorem Shape.parent_ne_of_le (hs : Shape s E) {x : Nat} (halive : (s.get x).alive)
    (hle : x ≤ w) {c : Nat} (hc : c ∈ (s.get x).within) : (s.get c).parent ≠ some w := by
  intro hparent
  have hcx := hs.holders x halive c hc
  have hlt := (hs.parent c w hcx.2.1 hparent).1
  omega

theorem reset_get_of_ne {j : Ref} {x : Nat} (hx : w ≠ x)
    (hchild : ∀ c ∈ (s.get x).within, (s.get c).parent ≠ some w) :
    (s.reset w j).get x = s.get x := by
  have hmodify : ∀ f, ((s.onHeap (json_decref (s.get w).json)).modify w f).get x = s.get x :=
    fun f => get_modify_of_ne hx
  rw [State.reset, get_delete_of_not, hmodify]
  rw [Bool.eq_false_iff]
  intro hunder
  obtain ⟨c, hc, hparent⟩ := List.any_eq_true.mp hunder
  simp only [Bool.and_true, decide_eq_true_eq] at hparent
  rw [hmodify] at hc
  apply hchild c hc
  rw [get_modify] at hparent
  split at hparent
  · exact hparent
  · exact hparent

theorem reset_get_self (hs : Shape s E) (halive : (s.get w).alive) (j : Ref) :
    (s.reset w j).get w =
      { s.get w with json := some j, type := json_typeof s.heap j } := by
  have hmodify : ∀ f, ((s.onHeap (json_decref (s.get w).json)).modify w f).get w = f (s.get w) :=
    fun f => get_modify_self (s := s.onHeap _) halive
  rw [State.reset, get_delete_of_not, hmodify]
  · simp only [heap_onHeap, json_decref, json_typeof_release]
  · rw [Bool.eq_false_iff]
    intro hunder
    obtain ⟨c, hc, hparent⟩ := List.any_eq_true.mp hunder
    simp only [Bool.and_true, decide_eq_true_eq] at hparent
    rw [hmodify] at hc
    apply hs.parent_ne_of_le halive (Nat.le_refl w) hc
    rw [get_modify] at hparent
    split at hparent
    · exact hparent
    · exact hparent

theorem reset_alive {j : Ref} {x : Nat} (hx : ((s.reset w j).get x).alive) : (s.get x).alive := by
  obtain ⟨hx, -⟩ := alive_delete.mp hx
  rw [get_modify] at hx
  split at hx
  · exact hx
  · exact hx

/-- What is still there after `reset` is not below the wrapper. -/
theorem reset_not_under {j : Ref} {x : Nat} (hx : ((s.reset w j).get x).alive) :
    ∀ c ∈ (s.get x).within, (s.get c).parent ≠ some w := by
  intro c hc hparent
  obtain ⟨-, hunder⟩ := alive_delete.mp hx
  rw [Bool.eq_false_iff] at hunder
  apply hunder
  apply List.any_eq_true.mpr
  refine ⟨c, ?_, ?_⟩
  · rw [get_modify]
    split <;> exact hc
  · simp only [Bool.and_true, decide_eq_true_eq]
    rw [get_modify]
    split <;> exact hparent

theorem reset_get {j : Ref} {x : Nat} (hx : ((s.reset w j).get x).alive) (hne : w ≠ x) :
    (s.reset w j).get x = s.get x :=
  reset_get_of_ne hne (reset_not_under hx)

@[simp] theorem reset_contentAt (j : Ref) (b : Nat) :
    (s.reset w j).heap.contentAt b = s.heap.contentAt b := by
  simp only [State.reset, State.delete, Heap.contentAt_release, heap_modify, heap_onHeap,
    json_decref]

/-- The place of a child: the container of its parent can take it. -/
structure Place (s : State) (w q a : Nat) (c : Content) : Prop where
  parent : (s.get w).parent = some q
  json : (s.get q).json = some (.cell a)
  contentAt : s.heap.contentAt a = some c
  type : (s.get q).type = c.type
  takes : c.Takes (s.get w).key (s.get w).index

theorem Shape.exists_place (hs : Shape s E) (halive : (s.get w).alive) (husable : s.Usable w)
    (hw : ¬ E w) {q : Nat} (hparent : (s.get w).parent = some q) :
    ∃ a c r, Place s w q a c ∧ c.at (s.get w).key (s.get w).index = some r ∧
      ((s.get w).json = none ∨ (s.get w).json = some r) := by
  obtain ⟨r, hslot, hjson⟩ := hs.synced w q halive husable hw hparent
  obtain ⟨a, c, hq, hc, hat⟩ := exists_of_slotIn hslot
  refine ⟨a, c, r, ⟨hparent, hq, hc, ?_, takes_of_at hat⟩, hat, hjson⟩
  obtain ⟨-, htype | ⟨-, hnull⟩⟩ := hs.typed q _ (hs.parent w q halive hparent).2.1 hq
  · rw [htype, json_typeof, hc, Option.map_some, Option.getD_some]
  · cases hnull

/-- Two wrappers do not have the same place. -/
def Apart (s : State) (w x : Nat) : Prop :=
  ∀ p ∈ (s.get x).parent, ∀ q ∈ (s.get w).parent, (s.get p).json = (s.get q).json →
    ¬ ((s.get x).key = (s.get w).key ∧ (s.get x).index = (s.get w).index)

instance (s : State) (w x : Nat) : Decidable (Apart s w x) :=
  inferInstanceAs (Decidable (∀ p ∈ (s.get x).parent, ∀ q ∈ (s.get w).parent, _ → ¬ (_ ∧ _)))

/-- No other wrapper is in step with the same place. -/
def Unshared (s : State) (w : Nat) : Prop :=
  ∀ x < s.next, (s.get x).alive → s.Usable x → x ≠ w → Apart s w x

instance (s : State) (w : Nat) : Decidable (Unshared s w) :=
  inferInstanceAs (Decidable (∀ x < s.next, _ → _ → _ → Apart s w x))

theorem updateParent_place (hs : Shape s E) (halive : (s.get w).alive) {q : Nat} {c : Content}
    (hplace : Place s w q a c) {v : Ref} (hjson : (s.get w).json = some v)
    (hne : v ≠ .cell a) :
    s.updateParent w = s.onHeap fun h =>
      json_decref (c.at (s.get w).key (s.get w).index)
        (h.write a (c.set (s.get w).key (s.get w).index v)) := by
  have hborrowed : (s.get w).jsonPtrIsBorrowed :=
    (hs.borrowed w halive).mpr (by simp [hplace.parent])
  have hself : s.modify w (fun J => { J with jsonPtrIsBorrowed := true }) = s := by
    apply modify_eq_self
    rw [← hborrowed]
  rw [updateParent_eq hplace.parent (Nat.ne_of_lt (hs.parent w q halive hplace.parent).1) hjson
    hplace.json hplace.contentAt hplace.type hplace.takes hne, hself]

theorem reset_within (hs : Shape s E) (halive : (s.get w).alive) {j : Ref} {x : Nat}
    (hx : ((s.reset w j).get x).alive) : ((s.reset w j).get x).within = (s.get x).within := by
  by_cases hne : w = x
  · subst hne
    rw [reset_get_self hs halive]
  · rw [reset_get hx hne]

theorem reset_parent (hs : Shape s E) (halive : (s.get w).alive) {j : Ref} {x : Nat}
    (hx : ((s.reset w j).get x).alive) : ((s.reset w j).get x).parent = (s.get x).parent := by
  by_cases hne : w = x
  · subst hne
    rw [reset_get_self hs halive]
  · rw [reset_get hx hne]

/-- What is usable after `reset` was so before. -/
theorem usable_of_reset (hs : Shape s E) (halive : (s.get w).alive) {j : Ref}
    (hj : Allocated s.heap j) {x : Nat} (hx : ((s.reset w j).get x).alive)
    (husable : (s.reset w j).Usable x) : s.Usable x := by
  have ht := hs.reset (w := w) hj
  intro c hc p hp
  have hct : c ∈ ((s.reset w j).get x).within := by rwa [reset_within hs halive hx]
  have hcalive := (ht.holders x hx c hct).2.1
  have hpt : ((s.reset w j).get c).parent = some p := by rwa [reset_parent hs halive hcalive]
  have hpalive := (ht.parent c p hcalive hpt).2.1
  have hpw : w ≠ p := by
    rintro rfl
    exact reset_not_under hx c hc hp
  have hjson := husable c hct p hpt
  rwa [reset_get hpalive hpw] at hjson

theorem Place.reset (hs : Shape s E) (halive : (s.get w).alive) {q : Nat} {c : Content}
    (hplace : Place s w q a c) (j : Ref) : Place (s.reset w j) w q a c := by
  obtain ⟨hlt, hqalive, -⟩ := hs.parent w q halive hplace.parent
  have hq : (s.reset w j).get q = s.get q :=
    reset_get_of_ne (Nat.ne_of_gt hlt) fun d hd =>
      hs.parent_ne_of_le hqalive (Nat.le_of_lt hlt) hd
  refine ⟨?_, by rw [hq, hplace.json], by rw [reset_contentAt, hplace.contentAt],
    by rw [hq, hplace.type], ?_⟩
  · rw [reset_get_self hs halive, hplace.parent]
  · rw [reset_get_self hs halive]
    exact hplace.takes

/-- A wrapper without a parent has no place to be in step with. -/
theorem Shape.of_root (hs : Shape s fun x => E x ∨ x = w) (hparent : (s.get w).parent = none) :
    Shape s E := by
  refine { hs with synced := ?_ }
  intro x p halive husable hx hp
  apply hs.synced x p halive husable _ hp
  rintro (hE | rfl)
  · exact hx hE
  · rw [hparent] at hp
    cases hp

theorem apart_of_reset (hs : InStep s) (halive : (s.get w).alive) {j : Ref}
    (hj : Allocated s.heap j) {q : Nat} {c : Content} (hplace : Place s w q a c)
    (hunshared : Unshared s w) : ∀ x p, ((s.reset w j).get x).alive → (s.reset w j).Usable x →
      x ≠ w → ((s.reset w j).get x).parent = some p →
      ((s.reset w j).get p).json = some (.cell a) →
      ¬ (((s.reset w j).get x).key = ((s.reset w j).get w).key ∧
        ((s.reset w j).get x).index = ((s.reset w j).get w).index) := by
  intro x p hx husable hxw hparent hjson
  have ht := hs.reset (w := w) hj
  have hpalive := (ht.parent x p hx hparent).2.1
  rw [reset_parent hs halive hx] at hparent
  have hpw : w ≠ p := by
    rintro rfl
    exact reset_not_under hx x (hs.self_mem x (reset_alive hx)) hparent
  rw [reset_get hpalive hpw] at hjson
  rw [reset_get hx (Ne.symm hxw), reset_get_self hs halive]
  exact hunshared x (lt_next_of_alive (reset_alive hx)) (reset_alive hx)
    (usable_of_reset hs halive hj hx husable) hxw p hparent q hplace.parent
    (hjson.trans hplace.json.symm)

/-- A root takes its new value, a child also puts it in its place. -/
theorem put_cases (hs : InStep s) (halive : (s.get w).alive) (husable : s.Usable w) {j : Ref}
    (hj : Allocated s.heap j) (hne : ∀ q ∈ (s.get w).parent, (s.get q).json ≠ some j) :
    ((s.get w).parent = none ∧ s.put w j = s.reset w j) ∨
      ∃ q a c r, Place s w q a c ∧ c.at (s.get w).key (s.get w).index = some r ∧
        ((s.get w).json = none ∨ (s.get w).json = some r) ∧
        s.put w j = (s.reset w j).onHeap fun h =>
          json_decref (some r) (h.write a (c.set (s.get w).key (s.get w).index j)) := by
  have ht : Shape (s.reset w j) fun x => False ∨ x = w := hs.reset hj
  have hself := reset_get_self hs halive j
  cases hparent : (s.get w).parent with
  | none =>
      left
      have hroot : ((s.reset w j).get w).parent = none := by rw [hself, hparent]
      rw [put, updateParent, hroot]
      exact ⟨rfl, rfl⟩
  | some q =>
      right
      obtain ⟨a, c, r, hplace, hat, hjson⟩ := hs.exists_place halive husable id hparent
      refine ⟨q, a, c, r, hplace, hat, hjson, ?_⟩
      have hplace' := hplace.reset hs halive j
      have halive' : ((s.reset w j).get w).alive := by rw [hself, halive]
      have hcell : j ≠ .cell a := by
        rintro rfl
        exact hne q hparent hplace.json
      have hupdate := updateParent_place ht halive' hplace' (by rw [hself]) hcell
      simp only [hself] at hupdate
      rw [put, hupdate, hat]

theorem put_get (hs : InStep s) (halive : (s.get w).alive) (husable : s.Usable w) {j : Ref}
    (hj : Allocated s.heap j) (hne : ∀ q ∈ (s.get w).parent, (s.get q).json ≠ some j) (x : Nat) :
    (s.put w j).get x = (s.reset w j).get x := by
  rcases put_cases hs halive husable hj hne with ⟨-, hput⟩ | ⟨q, a, c, r, -, -, -, hput⟩
  · rw [hput]
  · rw [hput, get_onHeap]

/-- A new value in the place of a wrapper's keeps all wrappers in step. -/
theorem put_inStep (hs : InStep s) (halive : (s.get w).alive) (husable : s.Usable w) {j : Ref}
    (hj : Allocated s.heap j) (hunshared : Unshared s w)
    (hne : ∀ q ∈ (s.get w).parent, (s.get q).json ≠ some j) : InStep (s.put w j) := by
  have ht : Shape (s.reset w j) fun x => False ∨ x = w := hs.reset hj
  have hself := reset_get_self hs halive j
  rcases put_cases hs halive husable hj hne with ⟨hparent, hput⟩ | ⟨q, a, c, r, hplace, -, -, hput⟩
  · rw [hput]
    exact ht.of_root (by rw [hself, hparent])
  · have hplace' := hplace.reset hs halive j
    have hset := ht.place (w := w) (v := j) (by rw [hself, halive]) (fun b hb => by
        rw [reset_contentAt]
        exact hj b hb) hplace'.parent (by rw [hself]) hplace'.json hplace'.contentAt hplace'.takes
      (fun x p hx husablex _ hxw hp hpjson =>
        apart_of_reset hs halive hj hplace hunshared x p hx husablex hxw hp hpjson) (some r)
    simp only [hself] at hset
    rw [hput]
    exact hset

theorem put_get_self (hs : InStep s) (halive : (s.get w).alive) (husable : s.Usable w) {j : Ref}
    (hj : Allocated s.heap j) (hne : ∀ q ∈ (s.get w).parent, (s.get q).json ≠ some j) :
    (s.put w j).get w = { s.get w with json := some j, type := json_typeof s.heap j } := by
  rw [put_get hs halive husable hj hne, reset_get_self hs halive]

theorem put_get_of_le (hs : InStep s) (halive : (s.get w).alive) (husable : s.Usable w) {j : Ref}
    (hj : Allocated s.heap j) (hne : ∀ q ∈ (s.get w).parent, (s.get q).json ≠ some j) {x : Nat}
    (hx : (s.get x).alive) (hlt : x < w) : (s.put w j).get x = s.get x := by
  rw [put_get hs halive husable hj hne]
  exact reset_get_of_ne (Nat.ne_of_gt hlt) fun c hc =>
    hs.parent_ne_of_le hx (Nat.le_of_lt hlt) hc

theorem put_usable (hs : InStep s) (halive : (s.get w).alive) (husable : s.Usable w) {j : Ref}
    (hj : Allocated s.heap j) (hne : ∀ q ∈ (s.get w).parent, (s.get q).json ≠ some j) :
    (s.put w j).Usable w := by
  have hself := put_get_self hs halive husable hj hne
  intro c hc p hp
  have hcw : c ∈ (s.get w).within := by rwa [hself] at hc
  obtain ⟨hle, hcalive, -⟩ := hs.holders w halive c hcw
  have hparent : (s.get c).parent = some p := by
    rcases Nat.eq_or_lt_of_le hle with rfl | hlt
    · rwa [hself] at hp
    · rwa [put_get_of_le hs halive husable hj hne hcalive hlt] at hp
  obtain ⟨hpc, hpalive, -⟩ := hs.parent c p hcalive hparent
  rw [put_get_of_le hs halive husable hj hne hpalive (Nat.lt_of_lt_of_le hpc hle)]
  exact husable c hcw p hparent

end

end KappaGateway.JsonWrapper

import KappaGateway.Kapi.WrapperTrees
import Mathlib.Data.List.Flatten

/-!
# Operations on the wrappers of a plain tree

Assignments and erasures through a wrapper change the plain tree at the path of
the wrapper. An index can be erased only while no wrapper has a later place of
the array; a JSON value can be assigned to any wrapper but a fault value.
-/

namespace KappaGateway.JsonWrapper

open KeyedList RefCount Kutil Jansson State

section

variable {s u : State} {root w x a : Nat} {t v : Tree} {path : List Slot} {h : Memory} {j : Ref}

/-! ### Assignments -/

theorem alloc_newTrees (h : Memory) {c : Content} (hc : c.children = [])
    (hshows : ∀ R, c.Shows R v) : NewTrees h (h.alloc c) [.cell h.fresh] [v] := by
  have hnone : NewTrees h h c.children [] := by
    rw [hc]
    exact .nil h
  exact NewTrees.alloc hnone (fun R _ => hshows R) (Nat.le_refl _)

theorem assignString_mirrors (hm : Mirrors s root t) (hw : Reached s root w path) (str : Text) :
    Mirrors (s.assignString w str) root (Tree.put (.string str) path t) := by
  obtain ⟨r, n, v, hr, hlook, hread, -, -⟩ := hm.value_at hw
  have htype := hm.type_at hw hlook
  rw [assignString, htype]
  have hput := put_mirrors hm hw (alloc_newRefs s.heap (c := .string str) rfl)
    (alloc_newTrees (v := .string str) s.heap (c := .string str) rfl fun _ => rfl)
  cases v with
  | string old =>
      obtain ⟨a, rfl, hc⟩ := read_string hread
      have hset : json_string_set (some (.cell a)) str s.heap = s.heap.write a (.string str) := by
        rw [json_string_set, hc]
      simp only [Tree.type, hr, onHeap, hset]
      exact scalar_mirrors hm hw hr hc rfl (fun _ _ => rfl) rfl rfl fun _ _ _ => rfl
  | bool b => cases b <;> exact hput
  | _ => exact hput

theorem assignInteger_mirrors (hm : Mirrors s root t) (hw : Reached s root w path) (val : Int) :
    Mirrors (s.assignInteger w val) root (Tree.put (.integer val) path t) := by
  obtain ⟨r, n, v, hr, hlook, hread, -, -⟩ := hm.value_at hw
  have htype := hm.type_at hw hlook
  rw [assignInteger, htype]
  have hput := put_mirrors hm hw (alloc_newRefs s.heap (c := .integer val) rfl)
    (alloc_newTrees (v := .integer val) s.heap (c := .integer val) rfl fun _ => rfl)
  cases v with
  | integer old =>
      obtain ⟨a, rfl, hc⟩ := read_integer hread
      have hset : json_integer_set (some (.cell a)) val s.heap = s.heap.write a (.integer val) := by
        rw [json_integer_set, hc]
      simp only [Tree.type, hr, onHeap, hset]
      exact scalar_mirrors hm hw hr hc rfl (fun _ _ => rfl) rfl rfl fun _ _ _ => rfl
  | bool b => cases b <;> exact hput
  | _ => exact hput

theorem assignBool_mirrors (hm : Mirrors s root t) (hw : Reached s root w path) (boolean : Bool) :
    Mirrors (s.assignBool w boolean) root (Tree.put (.bool boolean) path t) := by
  have hput : Mirrors (s.put w (.bool boolean)) root (Tree.put (.bool boolean) path t) :=
    put_mirrors (j := .bool boolean) hm hw (.refl s.heap) (.const rfl)
  have hfault := hm.type_ne_fault hw
  rw [assignBool]
  split
  · next htype => exact absurd htype hfault
  · exact hput

/-- The copy of a value of the same document; a fault value is null. -/
theorem assignCopy_mirrors {cursor : Option (List Slot)} {y : Nat} (hm : Mirrors s root t)
    (hw : Reached s root w path) (hy : Found s root y cursor) :
    ∃ u, s.assignCopy w y = some u ∧
      Mirrors u root (Tree.put ((cursor.bind fun source => Tree.look source t).getD .null) path t) := by
  cases cursor with
  | none =>
      have hjson := hm.json_of_fault hy.1 hy.2
      have hcopy : json_deep_copy .null s.heap = some (s.heap, .null) := by
        rw [json_deep_copy]
        cases s.heap.fresh <;> rfl
      refine ⟨s.put w .null, ?_, put_mirrors (j := .null) hm hw (.refl s.heap) (.const rfl)⟩
      rw [assignCopy, hjson]
      simp [hcopy]
  | some source =>
      obtain ⟨r, n, v, hr, hlook, hread, hnodup, -⟩ := hm.value_at hy
      obtain ⟨h', r', hcopy, hnew⟩ := json_deep_copy_newTrees hread hnodup
      refine ⟨{ s with heap := h' }.put w r', ?_, ?_⟩
      · rw [assignCopy, hr]
        simp [hcopy]
      · rw [Option.bind_some, hlook]
        exact put_mirrors hm hw (deepCopy_newRefs _ hcopy) hnew

/-! ### Erasing -/

/-- No other wrapper is in step with a place, if none of the array has a later one. -/
theorem undisturbed (hm : Mirrors s root t) (hw : (s.get w).alive) {p : Slot}
    (hlater : ∀ y, (s.get y).alive → (s.get y).parent = some w → (s.get y).index ≤ p.2) :
    Undisturbed s w p.1 p.2 := by
  intro y _ hy _ q hq hjson _ hindex
  obtain ⟨a, c, r, hplace, -⟩ := hm.inStep.exists_place hy (hm.usable hy) id hq
  obtain rfl := hm.eq_of_cell (hm.inStep.parent y q hy hq).2.1 hw hplace.json
    (hjson.symm.trans hplace.json)
  exact ⟨rfl, Nat.le_antisymm (hlater y hy hq) hindex⟩

/-- A place of a container is removed. -/
theorem Removed.mirrors {p : Slot} (hremoved : Removed s w p.1 p.2 u) (hm : Mirrors s root t)
    (hw : Reached s root w path) (hlook : Tree.look path t = some v) (hat : (v.at p).isSome)
    (hundisturbed : Undisturbed s w p.1 p.2) :
    Mirrors u root (Tree.put (v.remove p) path t) := by
  have hwalive := hm.alive hw
  have hinStep := hremoved.inStep hm.inStep hwalive hundisturbed
  obtain ⟨s₁, x, a, c, old, q, hacc, hjson, hc, -, -, rfl⟩ := hremoved.exists_state
  obtain ⟨v', hlook', hm', -, hkept⟩ := hacc.mirrors hm hw
  obtain rfl := Option.some.inj (hlook.symm.trans hlook')
  rw [Tree.grow_eq_self hat, Tree.put_self hlook] at hm'
  have hw' : Reached s₁ root w path := hw.kept fun y hy => (hkept y hy).stays
  obtain ⟨r, n, hr, hread, hnodup⟩ := hm'.value
  obtain ⟨rw', hrw, hfollow⟩ := hm'.follow hw' hr
  obtain rfl := Option.some.inj (hjson.symm.trans hrw)
  let f := fun h : Memory => json_decref (some old) (h.write a (c.remove p.1 p.2))
  let s₂ := (s₁.onHeap f).delete (s₁.underChild w q)
  have hwrite : ∀ b, s₂.heap.contentAt b =
      if a = b then some (c.remove p.1 p.2) else s₁.heap.contentAt b := by
    intro b
    simp only [s₂, f, State.delete, heap_onHeap, json_decref, Heap.contentAt_release,
      Heap.contentAt_write, hc, Option.map_some]
  obtain ⟨v', k, hlook', hput, hputs, -⟩ := read_rewrite (f := fun v => v.remove p) hread
    hnodup hfollow hc hwrite (fun m u hu => hu.remove p) fun m => (children_remove c p).flatMap _
  obtain rfl := Option.some.inj (hlook.symm.trans hlook')
  have hroot : s₂.get root = s₁.get root := by
    apply get_delete_of_not
    rw [Bool.eq_false_iff]
    intro hunder
    obtain ⟨d, hd, hchild⟩ := List.any_eq_true.mp hunder
    simp only [Bool.and_eq_true, decide_eq_true_eq] at hchild
    exact hm'.inStep.parent_ne_of_le hm'.root_alive (hm'.root_le hw') hd hchild.1
  apply hm'.of_subset hinStep (by rw [hroot, hm'.root_alive])
  · intro y hy
    obtain ⟨hys, hnot⟩ := alive_delete.mp hy
    rw [get_delete_of_not hnot]
    exact ⟨hys, rfl, rfl, hm'.json y hys, Iff.rfl⟩
  · exact ⟨r, k, by rw [hroot, hr], hput, hputs⟩

theorem Mirrors.existKey_at (hm : Mirrors s root t) (hw : Reached s root w path)
    (hlook : Tree.look path t = some v) (key : Text) : s.existKey w key = v.hasKey key := by
  have htype := hm.type_at hw hlook
  obtain ⟨r, n, v', hr, hlook', hread, -, -⟩ := hm.value_at hw
  obtain rfl := Option.some.inj (hlook.symm.trans hlook')
  rw [existKey, htype]
  cases v with
  | object trees =>
      obtain ⟨a, members, m, rfl, hc, hrelated⟩ := read_object hread
      have hvalue := Related.valueAt hrelated key
      have hget : json_object_get s.heap (s.get w).json key = valueAt key members := by
        simp [json_object_get, objectAt, hr, hc]
      simp only [hget, Tree.hasKey]
      generalize valueAt key members = l at hvalue ⊢
      generalize valueAt key trees = l' at hvalue ⊢
      cases hvalue <;> rfl
  | bool b => cases b <;> rfl
  | _ => rfl

theorem Mirrors.existIndex_at (hm : Mirrors s root t) (hw : Reached s root w path)
    (hlook : Tree.look path t = some v) (index : Nat) :
    s.existIndex w index = v.hasIndex index := by
  have htype := hm.type_at hw hlook
  obtain ⟨r, n, v', hr, hlook', hread, -, -⟩ := hm.value_at hw
  obtain rfl := Option.some.inj (hlook.symm.trans hlook')
  rw [existIndex, htype]
  cases v with
  | array trees =>
      obtain ⟨a, elements, m, rfl, hc, hforall⟩ := read_array hread
      have hvalue := forall₂_getElem? hforall index
      have hget : json_array_get s.heap (s.get w).json index = elements[index]? := by
        rw [hr]
        exact json_array_get_eq hc
      simp only [hget, Tree.hasIndex]
      generalize elements[index]? = l at hvalue ⊢
      generalize trees[index]? = l' at hvalue ⊢
      cases hvalue <;> rfl
  | bool b => cases b <;> rfl
  | _ => rfl

theorem eraseKey_mirrors (hm : Mirrors s root t) (hw : Reached s root w path)
    (hlook : Tree.look path t = some v) (key : Text) :
    Mirrors (s.eraseKey w key).1 root (Tree.put (v.eraseKey key) path t) := by
  have hwalive := hm.alive hw
  have hexist := hm.existKey_at hw hlook key
  by_cases hkey : s.existKey w key = true
  · have hremoved := eraseKey_removed hm.inStep hwalive (hm.usable hwalive) hkey
    rw [hkey] at hexist
    have htype := hm.type_at hw hlook
    cases v with
    | object trees =>
        apply Removed.mirrors (p := (key, 0)) hremoved hm hw hlook hexist.symm
        apply undisturbed hm hwalive (p := (key, 0))
        intro y hy hparent
        obtain ⟨a, c, hjson, hc, hctype⟩ :=
          hm.inStep.cell_of_type hwalive (hm.json w hwalive) (by simp [htype, Tree.type])
        have htakes := child_place hm.inStep hy (hm.usable hy) hparent hjson hc
        rw [htype] at hctype
        cases c with
        | object members => exact Nat.le_of_eq htakes
        | _ => cases hctype
    | _ => cases hexist
  · have hsame : s.eraseKey w key = (s, 0) := by rw [eraseKey, if_neg hkey]
    rw [Bool.not_eq_true] at hkey
    rw [hsame, Tree.eraseKey_of_not (hexist.symm.trans hkey), Tree.put_self hlook]
    exact hm

/-- No wrapper has a place of an array after the one that is erased. -/
theorem eraseIndex_mirrors (hm : Mirrors s root t) (hw : Reached s root w path)
    (hlook : Tree.look path t = some v) {index : Nat}
    (hlater : ∀ y, (s.get y).alive → (s.get y).parent = some w → (s.get y).index ≤ index) :
    Mirrors (s.eraseIndex w index).1 root (Tree.put (v.eraseIndex index) path t) := by
  have hwalive := hm.alive hw
  have hexist := hm.existIndex_at hw hlook index
  by_cases hindex : s.existIndex w index = true
  · have hremoved := eraseIndex_removed hm.inStep hwalive (hm.usable hwalive) hindex
    rw [hindex] at hexist
    cases v with
    | array trees =>
        exact Removed.mirrors (p := ([], index)) hremoved hm hw hlook hexist.symm
          (undisturbed hm hwalive (p := ([], index)) hlater)
    | _ => cases hexist
  · have hsame : s.eraseIndex w index = (s, 0) := by rw [eraseIndex, if_neg hindex]
    rw [Bool.not_eq_true] at hindex
    rw [hsame, Tree.eraseIndex_of_not (hexist.symm.trans hindex), Tree.put_self hlook]
    exact hm

/-! ### Values from elsewhere -/

namespace State

/-- `operator=(JSON&&)` from a temporary. -/
def assignTemporary (w : Nat) (source : Tree) (s : State) : Option State :=
  ((s.constructFrom (some source)).assignMove w s.next).map (destroy s.next)

/-- `operator=(const JSON&)` from a document of its own. -/
def assignDocument (w : Nat) (source : Tree) (s : State) : Option State :=
  ((s.constructFrom (some source)).assignCopy w s.next).map (destroy s.next)

end State

/-- The state with a temporary: what was there is as before. -/
structure WithTemporary (s s₁ : State) : Prop where
  inStep : InStep s₁
  alive : (s₁.get s.next).alive
  within : (s₁.get s.next).within = [s.next]
  parent : (s₁.get s.next).parent = none
  fault : (s₁.get s.next).fault = none
  kept : ∀ y, y ≠ s.next → s₁.get y = s.get y

theorem constructFrom_eq (hs : InStep s) (source : Tree) :
    s.constructFrom (some source) = (s.onHeap fun _ => (load source s.heap).1).push
      (rootJSON s (load source s.heap).1 (load source s.heap).2) :=
  constructed_eq hs (fun _ => (load source s.heap).1) (load source s.heap).2

theorem constructFrom_get (hs : InStep s) (source : Tree) :
    (s.constructFrom (some source)).get s.next =
      rootJSON s (load source s.heap).1 (load source s.heap).2 := by
  rw [constructFrom_eq hs, get_push, next_onHeap, if_pos rfl]

theorem constructFrom_heap (hs : InStep s) (source : Tree) :
    (s.constructFrom (some source)).heap = (load source s.heap).1 := by
  rw [constructFrom_eq hs]
  rfl

theorem constructFrom_withTemporary (hs : InStep s) (source : Tree) :
    WithTemporary s (s.constructFrom (some source)) := by
  have hget := constructFrom_get hs source
  refine ⟨(constructFrom_constructed hs (some source)).inStep hs, ?_, ?_, ?_, ?_, fun y hy => ?_⟩
  · rw [hget]
    rfl
  · rw [hget]
    rfl
  · rw [hget]
    rfl
  · rw [hget]
    rfl
  · rw [constructFrom_eq hs, get_push, next_onHeap, if_neg hy, get_onHeap]

namespace WithTemporary

variable {s₁ : State}

theorem get (ht : WithTemporary s s₁) {y : Nat} (hy : (s.get y).alive) :
    s₁.get y = s.get y :=
  ht.kept y (Nat.ne_of_lt (lt_next_of_alive hy))

theorem usable (ht : WithTemporary s s₁) (hm : Mirrors s root t) (hw : (s.get w).alive) :
    s₁.Usable w := by
  intro c hc p hp
  rw [ht.get hw] at hc
  have hcalive := (hm.inStep.holders w hw c hc).2.1
  rw [ht.get hcalive] at hp
  have hpalive := (hm.inStep.parent c p hcalive hp).2.1
  rw [ht.get hpalive]
  exact hm.json p hpalive

theorem unshared (ht : WithTemporary s s₁) (hm : Mirrors s root t) (hw : (s.get w).alive) :
    Unshared s₁ w := by
  intro x _ hx _ hne p hp q hq hjson
  by_cases hxn : x = s.next
  · subst hxn
    rw [ht.parent] at hp
    cases hp
  · rw [ht.kept x hxn] at hx hp ⊢
    rw [ht.get hw] at hq ⊢
    rw [ht.get (hm.inStep.parent x p hx hp).2.1, ht.get (hm.inStep.parent w q hw hq).2.1] at hjson
    exact hm.unshared hw x (lt_next_of_alive hx) hx (hm.usable hx) hne p hp q hq hjson

/-- The temporary gives its value away. -/
theorem moved (ht : WithTemporary s s₁) : WithTemporary s (moved s.next s₁) := by
  refine ⟨ht.inStep.moved s.next, ?_, ?_, ?_, ?_, fun y hy => ?_⟩
  · rw [moved_same JSON.alive fun _ => rfl, ht.alive]
  · rw [moved_same JSON.within fun _ => rfl, ht.within]
  · rw [moved_same JSON.parent fun _ => rfl, ht.parent]
  · rw [moved_same JSON.fault fun _ => rfl, ht.fault]
  · rw [moved_get_of_ne (Ne.symm hy), ht.kept y hy]

/-- A value was replaced with the help of a temporary, which is then destroyed. -/
theorem destroyed (ht : WithTemporary s s₁) (hm : Mirrors s root t) (hw : (s.get w).alive)
    (he : Extends s.heap s₁.heap) (hrep : Replaced s₁ w j h u) :
    Replaced s w j h (u.destroy s.next) := by
  have hwn : s.next ≠ w := Nat.ne_of_gt (lt_next_of_alive hw)
  have htemporary : u.get s.next = s₁.get s.next := by
    apply hrep.apart s.next ht.alive hwn
    intro c hc
    rw [ht.within, List.mem_singleton] at hc
    rw [hc, ht.parent]
    exact (Option.some_ne_none w).symm
  have hdestroy : ∀ x, (u.destroy s.next).get x =
      if s.next ∈ (u.get x).within then { u.get x with alive := false } else u.get x := by
    intro x
    rw [destroy, get_delete]
    simp [htemporary, ht.fault]
  have hbefore : ∀ x, (s.get x).alive → s.next ∉ (s.get x).within := by
    intro x hx hmem
    have hle := (hm.inStep.holders x hx s.next hmem).1
    have hlt := lt_next_of_alive hx
    omega
  have hself := hrep.self
  have hmemory := hrep.memory
  rw [ht.get hw] at hself hmemory
  refine ⟨?_, ?_, ?_, ?_, ?_⟩
  · apply destroy_inStep hrep.inStep
    · rw [htemporary, ht.alive]
    · rw [htemporary, ht.within]
  · rw [hdestroy, hself, if_neg (hbefore w hw)]
  · intro x hx hxw
    rw [hdestroy] at hx ⊢
    by_cases hmem : s.next ∈ (u.get x).within
    · rw [if_pos hmem] at hx
      cases hx
    · rw [if_neg hmem] at hx ⊢
      have hxn : x ≠ s.next := by
        rintro rfl
        rw [htemporary, ht.within] at hmem
        exact hmem (List.mem_singleton_self _)
      rw [hrep.kept x hx hxw, ht.kept x hxn]
  · intro x hx hxw hchild
    have hsame : u.get x = s.get x := by
      rw [← ht.get hx]
      apply hrep.apart x (by rw [ht.get hx, hx]) hxw
      intro c hc
      rw [ht.get hx] at hc
      rw [ht.get (hm.inStep.holders x hx c hc).2.1]
      exact hchild c hc
    rw [hdestroy, hsame, if_neg (hbefore x hx)]
  · have hheap : ∀ b, (u.destroy s.next).heap.contentAt b = u.heap.contentAt b := by
      intro b
      rw [destroy, State.delete, Heap.contentAt_release]
    simp only [hheap]
    rcases hmemory with hroot | ⟨q, a, c, old, hplace, hat, hwrite⟩
    · exact Or.inl hroot
    · have hplace' := place_before hm.inStep hw (hm.usable hw) he (fun _ hy => ht.get hy) hplace
      exact Or.inr ⟨q, a, c, old, hplace', hat, hwrite⟩

end WithTemporary

/-- A value is moved to the place of a wrapper's. -/
theorem assignMove_replaced {s₁ : State} {v : Nat} (hs : InStep s) (hw : (s.get w).alive)
    (husable : s.Usable w) (hunshared : Unshared s w) (hj : (s.get v).json = some j)
    (hallocated : Allocated s.heap j) (hvw : v ≠ w)
    (hne : ∀ q ∈ (s.get w).parent, (s.get q).json ≠ some j)
    (hs₁ : s.assignMove w v = some s₁) : Replaced (moved v s) w j s.heap s₁ := by
  have hcases := assignMove_cases hs hw husable hj hallocated hvw hne hs₁
  have hget : ∀ x, s₁.get x = (moved v (s.reset w j)).get x := by
    intro x
    rcases hcases with ⟨-, rfl⟩ | ⟨q, a, c, r, -, -, -, rfl⟩
    · rfl
    · rw [get_onHeap]
  have hmoved : ∀ x, (s.reset w j).get x = s.get x →
      (moved v (s.reset w j)).get x = (moved v s).get x := by
    intro x hx
    have hnext : (s.reset w j).next = s.next := by simp [State.reset]
    rw [moved, moved, get_modify, get_modify, hx, hnext]
  refine ⟨assignMove_inStep hs hw husable hunshared hj hallocated hvw hne hs₁, ?_, ?_, ?_, ?_⟩
  · rw [hget, moved_get_of_ne hvw, moved_get_of_ne hvw, reset_get_self hs hw]
  · intro x hx hxw
    rw [hget] at hx ⊢
    rw [moved_same JSON.alive fun _ => rfl] at hx
    exact hmoved x (reset_get hx (Ne.symm hxw))
  · intro x _ hxw hchild
    rw [hget]
    apply hmoved x (reset_get_of_ne (Ne.symm hxw) _)
    intro c hc
    have hparent := hchild c (by rwa [moved_same JSON.within fun _ => rfl])
    rwa [moved_same JSON.parent fun _ => rfl] at hparent
  · rw [moved_get_of_ne hvw]
    rcases hcases with ⟨hparent, rfl⟩ | ⟨q, a, c, old, hplace, hat, -, rfl⟩
    · refine Or.inl ⟨hparent, fun b => ?_⟩
      rw [moved, heap_modify, reset_contentAt]
    · have hvq : v ≠ q := by
        rintro rfl
        exact hne v hplace.parent hj
      refine Or.inr ⟨q, a, c, old, ⟨?_, ?_, hplace.contentAt, ?_, ?_⟩, hat, fun b => ?_⟩
      · rw [moved_get_of_ne hvw, hplace.parent]
      · rw [moved_get_of_ne hvq, hplace.json]
      · rw [moved_get_of_ne hvq, hplace.type]
      · rw [moved_get_of_ne hvw]
        exact hplace.takes
      · rw [heap_onHeap, json_decref, Heap.contentAt_release, Heap.contentAt_write, moved,
          heap_modify]
        simp only [reset_contentAt, hplace.contentAt, Option.map_some]

/-- The value of a temporary is moved; a fault value would become a value of its own. -/
theorem assignTemporary_mirrors (hm : Mirrors s root t) (hw : Reached s root w path)
    (source : Tree) :
    ∃ u, s.assignTemporary w source = some u ∧ Mirrors u root (Tree.put source path t) := by
  have hwalive := hm.alive hw
  have ht := constructFrom_withTemporary hm.inStep source
  have hnew := load_newRefs source s.heap
  have hget := constructFrom_get hm.inStep source
  have hheap := constructFrom_heap hm.inStep source
  have hj : ((s.constructFrom (some source)).get s.next).json = some (load source s.heap).2 := by
    rw [hget]
    rfl
  have hne : ∀ q ∈ ((s.constructFrom (some source)).get w).parent,
      ((s.constructFrom (some source)).get q).json ≠ some (load source s.heap).2 := by
    intro q hq
    rw [ht.get hwalive] at hq
    rw [ht.get (hm.inStep.parent w q hwalive hq).2.1]
    exact json_ne_new hm.inStep hwalive (hm.usable hwalive) hnew q hq
  obtain ⟨s₁, hs₁⟩ : ∃ s₁, (s.constructFrom (some source)).assignMove w s.next = some s₁ :=
    ⟨_, by rw [assignMove, hj, Option.map_some]⟩
  have hrep := assignMove_replaced ht.inStep (by rw [ht.get hwalive, hwalive])
    (ht.usable hm hwalive) (ht.unshared hm hwalive) hj (by rw [hheap]; exact hnew.allocated_ref)
    (Nat.ne_of_gt (lt_next_of_alive hwalive)) hne hs₁
  rw [hheap] at hrep
  refine ⟨s₁.destroy s.next, by rw [assignTemporary, hs₁, Option.map_some], ?_⟩
  apply Replaced.mirrors _ hm hw hnew.extended (load_newTrees source s.heap)
  apply ht.moved.destroyed hm hwalive _ hrep
  rw [moved, heap_modify, hheap]
  exact hnew.extended

/-- A document of its own is copied. -/
theorem assignDocument_mirrors (hm : Mirrors s root t) (hw : Reached s root w path)
    (source : Tree) :
    ∃ u, s.assignDocument w source = some u ∧ Mirrors u root (Tree.put source path t) := by
  have hwalive := hm.alive hw
  have ht := constructFrom_withTemporary hm.inStep source
  have hnew := load_newRefs source s.heap
  have hheap := constructFrom_heap hm.inStep source
  have hj : ((s.constructFrom (some source)).get s.next).json = some (load source s.heap).2 := by
    rw [constructFrom_get hm.inStep source]
    rfl
  obtain ⟨n, hforall, hnodup, -⟩ := load_newTrees source s.heap
  have hread : read (load source s.heap).1 n (load source s.heap).2 = some source := by
    rcases hforall with _ | ⟨hread, -⟩
    exact hread
  rw [List.flatMap_singleton] at hnodup
  obtain ⟨h', r', hcopy, htrees⟩ := json_deep_copy_newTrees hread hnodup
  have hcopied := deepCopy_newRefs _ hcopy
  rw [← hheap] at hcopied
  have hrep := put_replaced ht.inStep (by rw [ht.get hwalive, hwalive]) (ht.usable hm hwalive)
    (ht.unshared hm hwalive) hcopied
  refine ⟨_, by rw [assignDocument, assignCopy, hj, hheap]; simp only [hcopy]; rfl, ?_⟩
  apply Replaced.mirrors (j := r') (h := h') _ hm hw _ (htrees.of_fresh_le hnew.fresh)
  · exact ht.destroyed hm hwalive (by rw [hheap]; exact hnew.extended) hrep
  · rw [hheap] at hcopied
    exact hnew.extended.trans hcopied.extended

end

end KappaGateway.JsonWrapper

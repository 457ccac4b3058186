import KappaGateway.Kapi.ReferenceCounts

/-!
# Runs of the wrappers

Constructions, element accesses, assignments, erasures and destructions in any
order. The counts stay balanced as long as no step drops a reference that a
container has, and no wrapper is used after the value that it stands for is gone.
-/

namespace KappaGateway.JsonWrapper

open KeyedList RefCount Kutil Jansson State Transition

section

variable {s : State} {w x a : Nat} {out : List Nat}

/-! ### New wrappers -/

theorem Counted.push {J : JSON} (hc : Counted s (J.owns ++ out)) : Counted (s.push J) out := by
  refine ⟨hc.twice, ?_⟩
  rw [heap_push, owners_push]
  apply hc.balanced.congr
  intro b
  simp only [List.count_append]
  omega

theorem owners_modify_same {f : JSON → JSON} (hf : ∀ J, (f J).owns = J.owns) :
    (s.modify w f).owners = s.owners := by
  rw [owners_eq, owners_eq, List.flatMap_def, List.flatMap_def]
  congr 1
  apply List.ext_getElem?
  intro x
  rw [List.getElem?_map, List.getElem?_map]
  exact Heap.map_getElem?_modify hf _ _ _

theorem Counted.modifyAside {f : JSON → JSON} (hc : Counted s out)
    (hf : ∀ J, (f J).owns = J.owns) : Counted (s.modify w f) out :=
  ⟨hc.twice, by rw [owners_modify_same hf]; exact hc.balanced⟩

theorem setFailBit_counted (hc : Counted s out) (message : Text) :
    Counted (s.setFailBit w message) out :=
  hc.modifyAside fun _ => rfl

theorem fault_counted (hc : Counted s out) : Counted (s.fault w).1 out := by
  unfold State.fault
  split
  · exact hc
  · apply Counted.modifyAside
    · apply Counted.push
      exact hc
    · intro J
      rfl

theorem Accessed.counted {key : Text} {index : Nat} {t : State}
    (hacc : Accessed s w key index t x) (hc : Counted s out) : Counted t out := by
  cases hacc with
  | cached _ _ _ _ => exact hc
  | @added a c f r hnone hjson hcontent hgrown hat =>
      apply Counted.push
      exact ⟨hgrown.twice.trans hc.twice, hgrown.balanced _ hc.balanced⟩

/-! ### Elements -/

/-- The value of a null wrapper is not counted. -/
theorem Shape.owning_of_null {E : Nat → Prop} (hs : Shape s E) (halive : (s.get w).alive)
    (htype : (s.get w).type = .null) : Owning s w := by
  intro _
  cases hjson : (s.get w).json with
  | none => rfl
  | some r =>
      obtain ⟨hallocated, hr | ⟨hfault, -⟩⟩ := hs.typed w r halive hjson
      · cases r with
        | cell a =>
            obtain ⟨c, hc⟩ := Option.isSome_iff_exists.mp (hallocated a rfl)
            rw [htype] at hr
            cases c <;> simp [json_typeof, hc, Content.type] at hr
        | _ => rfl
      · rw [htype] at hfault
        cases hfault

theorem putNew_counted (hc : Counted s []) (hs : InStep s) (halive : (s.get w).alive)
    (husable : s.Usable w) (howning : Owning s w) {h' : Memory} {j : Ref}
    (hnew : NewRefs s.heap h' j.cells) : Counted ({ s with heap := h' }.put w j) [] :=
  (hc.withHeap hnew).put (withHeap_inStep hs hnew) halive husable hnew.allocated_ref
    (json_ne_new hs halive husable hnew) howning

theorem elementKey_counted (hc : Counted s []) (hs : InStep s) (halive : (s.get w).alive)
    (husable : s.Usable w) (hmoved : (s.get w).type = .object → (s.get w).json ≠ none)
    (hunshared : (s.get w).type = .null → Unshared s w) (key : Text) :
    Counted (s.elementKey w key).1 [] := by
  unfold elementKey
  split
  · next htype =>
      exact (childKey_accessed hs halive husable htype (hmoved htype) key).counted hc
  · exact hc
  · next htype =>
      have ho := put_opened hs halive husable (hunshared htype)
      have hput := putNew_counted hc hs halive husable (hs.owning_of_null halive htype)
        (alloc_newRefs s.heap (c := .object []) rfl)
      exact (childKey_accessed ho.inStep ho.alive ho.usable ho.type ho.json key).counted hput
  · exact fault_counted (setFailBit_counted hc _)

theorem elementIndex_counted (hc : Counted s []) (hs : InStep s) (halive : (s.get w).alive)
    (husable : s.Usable w) (hmoved : (s.get w).type = .array → (s.get w).json ≠ none)
    (index : Nat) : Counted (s.elementIndex w index).1 [] := by
  by_cases harray : (s.get w).type = .array
  · exact (elementIndex_accessed hs halive husable harray (hmoved harray) index).counted hc
  · unfold elementIndex
    split
    · next htype => exact absurd htype harray
    · exact hc
    · exact fault_counted (setFailBit_counted hc _)

/-! ### Assignments -/

theorem scalar_counted (hc : Counted s out) {c c' : Content}
    (hcontent : s.heap.contentAt a = some c) (hrefs : refs c' = refs c) :
    Counted (s.onHeap (Heap.write a c')) out :=
  ⟨hc.twice, hc.balanced.write_same hcontent hrefs⟩

theorem Assigned.counted {c : Content} {t : State} (h : Assigned s w c t) (hrefs : refs c = [])
    (hc : Counted s []) (hs : InStep s) (halive : (s.get w).alive) (husable : s.Usable w)
    (howning : (s.get w).type ≠ c.type → (s.get w).type ≠ .fault → Owning s w) :
    Counted t [] := by
  cases h with
  | kept => exact hc
  | written hold _ _ hsame => exact scalar_counted hc hold hsame
  | renewed hfault hother =>
      exact putNew_counted hc hs halive husable (howning hother hfault) (alloc_newRefs s.heap hrefs)

theorem assignString_counted (hc : Counted s []) (hs : InStep s) (halive : (s.get w).alive)
    (husable : s.Usable w)
    (howning : (s.get w).type ≠ .string → (s.get w).type ≠ .fault → Owning s w) (str : Text) :
    Counted (s.assignString w str) [] :=
  (assignString_assigned s w str).counted rfl hc hs halive husable howning

theorem assignInteger_counted (hc : Counted s []) (hs : InStep s) (halive : (s.get w).alive)
    (husable : s.Usable w)
    (howning : (s.get w).type ≠ .integer → (s.get w).type ≠ .fault → Owning s w) (val : Int) :
    Counted (s.assignInteger w val) [] :=
  (assignInteger_assigned s w val).counted rfl hc hs halive husable howning

theorem assignBool_counted (hc : Counted s []) (hs : InStep s) (halive : (s.get w).alive)
    (husable : s.Usable w) (howning : (s.get w).type ≠ .fault → Owning s w) (boolean : Bool) :
    Counted (s.assignBool w boolean) [] := by
  unfold assignBool
  split
  · exact hc
  · next hfault =>
      exact putNew_counted hc hs halive husable (howning hfault) (j := .bool boolean)
        (.refl s.heap)

theorem assignCopy_counted (hc : Counted s []) (hs : InStep s) (halive : (s.get w).alive)
    (husable : s.Usable w) (howning : Owning s w) {v : Nat} (hjson : (s.get v).json ≠ none)
    {t : State} (ht : s.assignCopy w v = some t) : Counted t [] := by
  obtain ⟨j, hj⟩ := Option.ne_none_iff_exists'.mp hjson
  simp only [assignCopy, hj, Option.map_eq_some_iff] at ht
  obtain ⟨⟨h', j'⟩, hcopy, rfl⟩ := ht
  exact putNew_counted hc hs halive husable howning (deepCopy_newRefs _ hcopy)

/-- A value that its owner gives away goes to its new owner, or to a place. -/
theorem assignMove_counted (hc : Counted s []) (hs : InStep s) (halive : (s.get w).alive)
    (husable : s.Usable w) (howning : Owning s w) {v : Nat} {j : Ref}
    (hj : (s.get v).json = some j) (hv : (s.get v).alive) (hgiving : Owning s v) (hvw : v ≠ w)
    (hbelow : ∀ c ∈ (s.get v).within, (s.get c).parent ≠ some w)
    (hne : ∀ q ∈ (s.get w).parent, (s.get q).json ≠ some j) {u : State}
    (hu : s.assignMove w v = some u) : Counted u [] := by
  have hallocated := (hs.typed v j hv hj).1
  have hcleared := hc.cleared hs halive howning
  have hheap : (s.reset w j).heap = (cleared w s).heap := by
    rw [reset_eq hs halive]
    rfl
  have hvget : (s.reset w j).get v = s.get v := reset_get_of_ne (Ne.symm hvw) hbelow
  have hcount : Counted (moved v (s.reset w j))
      ((if (s.get w).jsonPtrIsBorrowed then j.cells else []) ++ []) := by
    refine ⟨hheap ▸ hcleared.twice, ?_⟩
    rw [moved, heap_modify, hheap, ← moved]
    apply hcleared.balanced.congr
    intro b
    have hreset := count_owners_reset hs halive j b
    have hmoved := count_owners_moved (s := s.reset w j) (w := v) (by rw [hvget]; exact hv) b
    rw [hvget, owned_eq hgiving, hj] at hmoved
    simp only [cellsOf, Option.map_some, Option.getD_some] at hmoved
    simp only [List.count_append, List.count_nil]
    cases hborrowed : (s.get w).jsonPtrIsBorrowed with
    | true =>
        simp only [hborrowed, if_true, List.count_nil] at hreset ⊢
        omega
    | false =>
        simp only [hborrowed, Bool.false_eq_true, if_false, List.count_nil] at hreset ⊢
        omega
  rcases assignMove_cases hs halive husable hj hallocated hvw hne hu with
    ⟨hparent, rfl⟩ | ⟨q, a, c, r, hplace, hat, -, rfl⟩
  · have howned : (s.get w).jsonPtrIsBorrowed = false := by
      rw [Bool.eq_false_iff]
      intro hborrowed
      exact (hs.borrowed w halive).mp hborrowed hparent
    rw [howned] at hcount
    exact hcount
  · obtain ⟨hlt, hqalive, hwithin⟩ := hs.parent w q halive hplace.parent
    have hsame : ∀ y, (s.get y).alive → y ≤ q → (cleared w s).get y = s.get y := by
      intro y hy hyq
      have hyw := Nat.lt_of_le_of_lt hyq hlt
      exact cleared_get_of_ne (Nat.ne_of_gt hyw) fun d hd =>
        hs.parent_ne_of_le hy (Nat.le_of_lt hyw) hd
    have hq := hsame q hqalive (Nat.le_refl q)
    have hpos : 0 < (cleared w s).heap.count a := by
      apply hcleared.live hs.cleared (x := q)
      · rw [hq]
        exact hqalive
      · exact usable_of_same hs hqalive hsame fun d hd => husable d ((hwithin d).mpr (Or.inr hd))
      · exact fun _ _ => id
      · rw [hq]
        exact hplace.json
    rw [if_pos ((hs.borrowed w halive).mpr (by simp [hplace.parent]))] at hcount
    apply hcount.place _ _ hat
    · rw [moved, heap_modify, hheap]
      exact hpos
    · rw [moved, heap_modify, reset_contentAt]
      exact hplace.contentAt

/-! ### Erasing -/

theorem Removed.counted {key : Text} {index : Nat} {u : State}
    (hremoved : Removed s w key index u) (hc : Counted s []) (hs : InStep s)
    (halive : (s.get w).alive) (husable : s.Usable w) : Counted u [] := by
  obtain ⟨t, x, a, c, old, p, hacc, hjson, hcontent, hat, hp, rfl⟩ := hremoved.exists_state
  have ht := hacc.inStep hs halive
  have hct := hacc.counted hc
  have helem := hacc.element
  have hw := helem.kept w halive
  have husablet : t.Usable w := usable_of_same hs halive (fun y hy _ => helem.kept y hy) husable
  have hpos := hct.live ht (by rw [hw]; exact halive) husablet (fun _ _ => id) hjson
  have hclosed : Closed (json_decref (some old) (t.heap.write a (c.remove key index))) := by
    apply closed_release
    exact closed_write ht.closed fun b hb => ht.closed a c b hcontent (mem_refs_remove hb)
  have hevolves : Evolves t.heap (json_decref (some old) (t.heap.write a (c.remove key index))) := by
    intro b d hd
    rw [json_decref, Heap.contentAt_release, Heap.contentAt_write]
    split
    · next hab =>
        subst hab
        obtain rfl := Option.some.inj (hcontent.symm.trans hd)
        exact ⟨_, by rw [hcontent, Option.map_some], type_remove _ _ _⟩
    · exact ⟨d, hd, rfl⟩
  have hshape : Shape (t.onHeap fun h => json_decref (some old) (h.write a (c.remove key index)))
      fun _ => True := by
    apply ht.onHeap hclosed hevolves
    intro y q r _ _ hy _
    exact absurd trivial hy
  exact (hct.remove hpos hcontent hat).delete hshape _

theorem eraseKey_counted (hc : Counted s []) (hs : InStep s) (halive : (s.get w).alive)
    (husable : s.Usable w) (key : Text) : Counted (s.eraseKey w key).1 [] := by
  by_cases hexist : s.existKey w key = true
  · exact (eraseKey_removed hs halive husable hexist).counted hc hs halive husable
  · rw [eraseKey, if_neg hexist]
    exact hc

theorem eraseIndex_counted (hc : Counted s []) (hs : InStep s) (halive : (s.get w).alive)
    (husable : s.Usable w) (index : Nat) : Counted (s.eraseIndex w index).1 [] := by
  by_cases hexist : s.existIndex w index = true
  · exact (eraseIndex_removed hs halive husable hexist).counted hc hs halive husable
  · rw [eraseIndex, if_neg hexist]
    exact hc

/-! ### Construction and destruction -/

theorem Constructed.counted {t : State} (hconstructed : Constructed s t) (hc : Counted s []) :
    Counted t [] := by
  cases hconstructed with
  | value hnew =>
      apply Counted.push
      exact hc.withHeap hnew
  | @fault J hlinks hfault hjson htype =>
      apply Counted.push
      have howns : J.owns = [] := by simp [JSON.owns, JSON.owned, hjson, cellsOf, Ref.cells]
      rw [howns]
      exact hc

theorem constructMove_counted (hc : Counted s []) (hs : InStep s) {v : Nat}
    (halive : (s.get v).alive) (husable : (s.get v).jsonPtrIsBorrowed → s.Usable v) :
    Counted (s.constructMove v) [] := by
  have howns : (movedJSON s v).owns = cellsOf (s.get v).json := rfl
  rw [constructMove_eq]
  split
  · next hborrowed =>
      have hpush : Counted { s with heap := json_incref (s.get v).json s.heap }
          (cellsOf (s.get v).json ++ []) := by
        cases hjson : (s.get v).json with
        | none => exact hc
        | some r =>
            cases r with
            | cell a =>
                have hpos := hc.live hs halive (husable hborrowed) (fun _ _ => id) hjson
                exact ⟨hc.twice, hc.balanced.retain hpos⟩
            | _ => exact hc
      rw [← howns] at hpush
      exact hpush.push
  · next hborrowed =>
      have hv : (s.push (movedJSON s v)).get v = s.get v := by
        rw [get_push, if_neg (Nat.ne_of_lt (lt_next_of_alive halive))]
      refine ⟨hc.twice, ?_⟩
      apply hc.balanced.congr
      intro b
      have hmoved := count_owners_moved (s := s.push (movedJSON s v)) (w := v)
        (by rw [hv]; exact halive) b
      rw [hv, JSON.owned, if_neg hborrowed, owners_push, howns] at hmoved
      simp only [List.nil_append, List.count_append] at hmoved ⊢
      omega

theorem destroy_counted (hc : Counted s []) (hs : InStep s) (v : Nat) :
    Counted (s.destroy v) [] :=
  hc.delete hs _

end

/-! ### Runs -/

inductive Action where
  | construct (type : JSONType)
  | constructFrom (source : Option Tree)
  | constructCopy (v : Nat)
  | constructMove (v : Nat)
  | destroy (v : Nat)
  | elementKey (w : Nat) (key : Text)
  | elementIndex (w index : Nat)
  | newElement (w : Nat)
  | assignString (w : Nat) (str : Text)
  | assignInteger (w : Nat) (val : Int)
  | assignBool (w : Nat) (boolean : Bool)
  | assignCopy (w v : Nat)
  | assignMove (w v : Nat)
  | eraseKey (w : Nat) (key : Text)
  | eraseIndex (w index : Nat)

/-- The wrappers that the program names. -/
def Action.operands : Action → List Nat
  | .construct _ | .constructFrom _ => []
  | .constructCopy v | .constructMove v | .destroy v => [v]
  | .elementKey w _ | .elementIndex w _ | .newElement w => [w]
  | .assignString w _ | .assignInteger w _ | .assignBool w _ => [w]
  | .assignCopy w v | .assignMove w v => [w, v]
  | .eraseKey w _ | .eraseIndex w _ => [w]

/-- The wrapper that is destroyed. -/
def Action.destroyed : Action → List Nat
  | .destroy v => [v]
  | _ => []

/-- The program names wrappers that exist, and destroys those that no other holds. -/
def Enabled (s : State) (action : Action) : Prop :=
  (∀ w ∈ action.operands, (s.get w).alive) ∧
    ∀ v ∈ action.destroyed, (s.get v).within = [v]

instance (s : State) (action : Action) : Decidable (Enabled s action) :=
  inferInstanceAs (Decidable (_ ∧ _))

def next (s : State) : Action → Option State
  | .construct type => some (s.construct type)
  | .constructFrom source => some (s.constructFrom source)
  | .constructCopy v => s.constructCopy v
  | .constructMove v => some (s.constructMove v)
  | .destroy v => some (s.destroy v)
  | .elementKey w key => some (s.elementKey w key).1
  | .elementIndex w index => some (s.elementIndex w index).1
  | .newElement w => some (s.newElement w).1
  | .assignString w str => some (s.assignString w str)
  | .assignInteger w val => some (s.assignInteger w val)
  | .assignBool w boolean => some (s.assignBool w boolean)
  | .assignCopy w v => s.assignCopy w v
  | .assignMove w v => s.assignMove w v
  | .eraseKey w key => some (s.eraseKey w key).1
  | .eraseIndex w index => some (s.eraseIndex w index).1

def Step (s : State) (action : Action) (t : State) : Prop :=
  Enabled s action ∧ next s action = some t

/-- Each count is the number of places in containers and of owners; what a container
holds is not released, and nothing is released twice. -/
structure CountsBalanced (s : State) : Prop where
  counts : ∀ a, s.heap.count a = s.heap.held.count a + s.owners.count a
  held : ∀ a b c, 0 < s.heap.count b → s.heap.contentAt b = some c → a ∈ refs c →
    0 < s.heap.count a
  once : s.heap.twice = []

/-- The value may be replaced: no container has it, and the place is in step with no
other wrapper. -/
def Replaceable (s : State) (w : Nat) : Prop := Owning s w ∧ Unshared s w

instance (s : State) (w : Nat) : Decidable (Owning s w) := inferInstanceAs (Decidable (_ → _))

instance (s : State) (w : Nat) : Decidable (Replaceable s w) :=
  inferInstanceAs (Decidable (_ ∧ _))

/-- The value of `v` may move to `w`. -/
def Movable (s : State) (w v : Nat) : Prop :=
  Owning s v ∧ v ≠ w ∧ (∀ c ∈ (s.get v).within, (s.get c).parent ≠ some w) ∧
    ∀ q ∈ (s.get w).parent, (s.get q).json ≠ (s.get v).json

instance (s : State) (w v : Nat) : Decidable (Movable s w v) :=
  inferInstanceAs (Decidable (_ ∧ _ ∧ (∀ c ∈ _, _ ≠ _) ∧ ∀ q ∈ (s.get w).parent, _ ≠ _))

/-- A step that uses no wrapper whose value is gone, and drops no reference that a
container has. -/
def Careful (s : State) : Action → Prop
  | .construct _ | .constructFrom _ | .destroy _ => True
  | .constructCopy v => s.Usable v ∧ (s.get v).json ≠ none
  | .constructMove v => (s.get v).fault = none ∧ ((s.get v).jsonPtrIsBorrowed → s.Usable v)
  | .elementKey w _ => s.Usable w ∧ ((s.get w).type = .object → (s.get w).json ≠ none) ∧
      ((s.get w).type = .null → Unshared s w)
  | .elementIndex w _ | .newElement w =>
      s.Usable w ∧ ((s.get w).type = .array → (s.get w).json ≠ none)
  | .assignString w _ =>
      s.Usable w ∧ ((s.get w).type ≠ .string → (s.get w).type ≠ .fault → Replaceable s w)
  | .assignInteger w _ =>
      s.Usable w ∧ ((s.get w).type ≠ .integer → (s.get w).type ≠ .fault → Replaceable s w)
  | .assignBool w _ => s.Usable w ∧ ((s.get w).type ≠ .fault → Replaceable s w)
  | .assignCopy w v => s.Usable w ∧ Replaceable s w ∧ s.Usable v ∧ (s.get v).json ≠ none
  | .assignMove w v => s.Usable w ∧ Replaceable s w ∧ Movable s w v
  | .eraseKey w key => s.Usable w ∧ Undisturbed s w key 0
  | .eraseIndex w index => s.Usable w ∧ Undisturbed s w [] index

instance (s : State) : DecidablePred (Careful s)
  | .construct _ | .constructFrom _ | .destroy _ => isTrue trivial
  | .constructCopy _ | .constructMove _ => inferInstanceAs (Decidable (_ ∧ _))
  | .elementKey _ _ => inferInstanceAs (Decidable (_ ∧ (_ → _) ∧ (_ → _)))
  | .elementIndex _ _ | .newElement _ => inferInstanceAs (Decidable (_ ∧ (_ → _)))
  | .assignString _ _ | .assignInteger _ _ => inferInstanceAs (Decidable (_ ∧ (_ → _ → _)))
  | .assignBool _ _ => inferInstanceAs (Decidable (_ ∧ (_ → _)))
  | .assignCopy _ _ => inferInstanceAs (Decidable (_ ∧ _ ∧ _ ∧ _))
  | .assignMove _ _ => inferInstanceAs (Decidable (_ ∧ _ ∧ _))
  | .eraseKey _ _ | .eraseIndex _ _ => inferInstanceAs (Decidable (_ ∧ _))

/-- What every careful step keeps. -/
structure Consistent (s : State) : Prop where
  inStep : InStep s
  counted : Counted s []

theorem consistent_init : Consistent State.init := by
  refine ⟨init_inStep, rfl, fun a => ?_⟩
  simp [State.init, Heap.count, Heap.held, owners]

theorem Consistent.countsBalanced {s : State} (hs : Consistent s) : CountsBalanced s where
  counts a := hs.counted.balanced a
  held _ _ _ hpos hc ha := hs.counted.balanced.pos_of_refs hpos hc ha
  once := hs.counted.twice

/-- A careful step keeps the counts in balance. -/
theorem Consistent.step {s t : State} {action : Action} (hs : Consistent s)
    (hstep : Step s action t) (hcareful : Careful s action) : Consistent t := by
  obtain ⟨⟨halive, hroot⟩, hnext⟩ := hstep
  obtain ⟨hs, hc⟩ := hs
  cases action with
  | construct type =>
      obtain rfl := Option.some.inj hnext
      have hconstructed := construct_constructed hs type
      exact ⟨hconstructed.inStep hs, hconstructed.counted hc⟩
  | constructFrom source =>
      obtain rfl := Option.some.inj hnext
      have hconstructed := constructFrom_constructed hs source
      exact ⟨hconstructed.inStep hs, hconstructed.counted hc⟩
  | constructCopy v =>
      have hv := halive v (by simp [Action.operands])
      have hconstructed := constructCopy_constructed hs hcareful.2 hv hnext
      exact ⟨hconstructed.inStep hs, hconstructed.counted hc⟩
  | constructMove v =>
      obtain rfl := Option.some.inj hnext
      have hv := halive v (by simp [Action.operands])
      exact ⟨constructMove_inStep hs hv hcareful.1, constructMove_counted hc hs hv hcareful.2⟩
  | destroy v =>
      obtain rfl := Option.some.inj hnext
      have hv := halive v (by simp [Action.operands])
      exact ⟨destroy_inStep hs hv (hroot v (by simp [Action.destroyed])),
        destroy_counted hc hs v⟩
  | elementKey w key =>
      obtain rfl := Option.some.inj hnext
      have hw := halive w (by simp [Action.operands])
      obtain ⟨husable, hmoved, hunshared⟩ := hcareful
      exact ⟨elementKey_inStep hs hw husable hmoved hunshared key,
        elementKey_counted hc hs hw husable hmoved hunshared key⟩
  | elementIndex w index =>
      obtain rfl := Option.some.inj hnext
      have hw := halive w (by simp [Action.operands])
      exact ⟨elementIndex_inStep hs hw hcareful.1 hcareful.2 index,
        elementIndex_counted hc hs hw hcareful.1 hcareful.2 index⟩
  | newElement w =>
      obtain rfl := Option.some.inj hnext
      have hw := halive w (by simp [Action.operands])
      exact ⟨elementIndex_inStep hs hw hcareful.1 hcareful.2 _,
        elementIndex_counted hc hs hw hcareful.1 hcareful.2 _⟩
  | assignString w str =>
      obtain rfl := Option.some.inj hnext
      have hw := halive w (by simp [Action.operands])
      obtain ⟨husable, hreplace⟩ := hcareful
      exact ⟨assignString_inStep hs hw husable (fun h h' => (hreplace h h').2) str,
        assignString_counted hc hs hw husable (fun h h' => (hreplace h h').1) str⟩
  | assignInteger w val =>
      obtain rfl := Option.some.inj hnext
      have hw := halive w (by simp [Action.operands])
      obtain ⟨husable, hreplace⟩ := hcareful
      exact ⟨assignInteger_inStep hs hw husable (fun h h' => (hreplace h h').2) val,
        assignInteger_counted hc hs hw husable (fun h h' => (hreplace h h').1) val⟩
  | assignBool w boolean =>
      obtain rfl := Option.some.inj hnext
      have hw := halive w (by simp [Action.operands])
      obtain ⟨husable, hreplace⟩ := hcareful
      exact ⟨assignBool_inStep hs hw husable (fun h => (hreplace h).2) boolean,
        assignBool_counted hc hs hw husable (fun h => (hreplace h).1) boolean⟩
  | assignCopy w v =>
      have hw := halive w (by simp [Action.operands])
      obtain ⟨husable, hreplace, -, hjson⟩ := hcareful
      exact ⟨assignCopy_inStep hs hw husable hreplace.2 hjson hnext,
        assignCopy_counted hc hs hw husable hreplace.1 hjson hnext⟩
  | assignMove w v =>
      have hw := halive w (by simp [Action.operands])
      have hv := halive v (by simp [Action.operands])
      obtain ⟨husable, hreplace, hgiving, hvw, hbelow, hne⟩ := hcareful
      obtain ⟨j, hj, -⟩ := Option.map_eq_some_iff.mp hnext
      rw [hj] at hne
      exact ⟨assignMove_inStep hs hw husable hreplace.2 hj (hs.typed v j hv hj).1 hvw hne hnext,
        assignMove_counted hc hs hw husable hreplace.1 hj hv hgiving hvw hbelow hne hnext⟩
  | eraseKey w key =>
      obtain rfl := Option.some.inj hnext
      have hw := halive w (by simp [Action.operands])
      exact ⟨eraseKey_inStep hs hw hcareful.1 hcareful.2,
        eraseKey_counted hc hs hw hcareful.1 key⟩
  | eraseIndex w index =>
      obtain rfl := Option.some.inj hnext
      have hw := halive w (by simp [Action.operands])
      exact ⟨eraseIndex_inStep hs hw hcareful.1 hcareful.2,
        eraseIndex_counted hc hs hw hcareful.1 index⟩

/-- In every run of careful steps, from no wrapper at all, the counts are balanced in
every state. -/
theorem counts_balanced {tr : List (State × Action × State)} {s : State}
    (path : Path Step State.init tr s) (hcareful : ∀ e ∈ tr, Careful e.1 e.2.1) :
    CountsBalanced s ∧ ∀ e ∈ tr, CountsBalanced e.1 ∧ CountsBalanced e.2.2 := by
  obtain ⟨hlast, hmem⟩ := path.invariant
    (fun _ _ _ hs hstep hok => Consistent.step hs hstep hok) consistent_init hcareful
  refine ⟨hlast.countsBalanced, fun e he => ?_⟩
  exact ⟨(hmem e he).1.countsBalanced, (hmem e he).2.countsBalanced⟩

/-- A run in which a document is read, extended, copied, moved and erased. -/
def session : List Action :=
  [.constructFrom (some (.object [(cstr "a", .null), (cstr "b", .array [.integer 1, .string []])])),
   .elementKey 0 (cstr "a"), .elementKey 1 (cstr "c"), .assignString 2 (cstr "x"),
   .assignString 2 (cstr "y"), .elementKey 0 (cstr "b"), .elementIndex 3 1, .newElement 3,
   .assignBool 5 true, .construct .object, .elementKey 6 (cstr "d"), .assignCopy 7 1,
   .elementKey 0 (cstr "e"), .assignMove 8 6, .constructMove 4, .eraseKey 0 (cstr "b"),
   .eraseKey 0 (cstr "e"), .destroy 0]

theorem counts_balanced_session :
    ∃ tr s, Path Step State.init tr s ∧ tr.length = 18 ∧ CountsBalanced s := by
  have hsome : ((playSome next State.init session).any fun r =>
      r.1.length = 18 ∧ ∀ e ∈ r.1, Enabled e.1 e.2.1 ∧ Careful e.1 e.2.1) = true := by
    decide +kernel
  obtain ⟨⟨tr, s⟩, hplay, hall⟩ := (Option.any_eq_true _ _).mp hsome
  obtain ⟨hlength, hall⟩ := of_decide_eq_true hall
  have hpath := playSome_path session hplay fun e he => (hall e he).1
  exact ⟨tr, s, hpath, hlength, (counts_balanced hpath fun e he => (hall e he).2).1⟩

/-- A string is assigned to an element that is an integer: the integer is released
while the object holds it, and then once more. -/
theorem counts_unbalanced :
    ∃ tr s, Path Step State.init tr s ∧ s.heap.twice = [0] ∧ ¬ CountsBalanced s := by
  have hsome : ((playSome next State.init [.constructFrom (some (.object [(cstr "a", .integer 1)])),
      .elementKey 0 (cstr "a"), .assignString 1 (cstr "x")]).any fun r =>
        r.2.heap.twice = [0] ∧ ∀ e ∈ r.1, Enabled e.1 e.2.1) = true := by
    decide +kernel
  obtain ⟨⟨tr, s⟩, hplay, hall⟩ := (Option.any_eq_true _ _).mp hsome
  obtain ⟨htwice, hall⟩ := of_decide_eq_true hall
  refine ⟨tr, s, playSome_path _ hplay hall, htwice, fun hbalanced => ?_⟩
  rw [hbalanced.once] at htwice
  cases htwice

end KappaGateway.JsonWrapper

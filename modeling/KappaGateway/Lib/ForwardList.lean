import Mathlib.Data.List.Perm.Basic
import Mathlib.Data.List.Nodup
import Mathlib.Data.List.Perm.Subperm

/-!
# A linked list with iterators

A list of cells that keep their address while they are in the list. An iterator
is an address; it is dangling when no cell has it. Swapping the values of two
cells leaves the cells where they are, so that iterators to them stay valid and
designate other values.
-/

namespace KappaGateway.ForwardList

variable {A α : Type*} [DecidableEq A]

structure Node (A α : Type*) where
  addr : A
  value : α

/-- `*it`, if the iterator is not dangling. -/
def deref (l : List (Node A α)) (it : A) : Option α :=
  (l.find? (·.addr = it)).map Node.value

/-- `*it = v`. -/
def assign (l : List (Node A α)) (it : A) (v : α) : List (Node A α) :=
  l.map fun n => if n.addr = it then { n with value := v } else n

/-- `swap(*it, l.front())`. -/
def swapFront (l : List (Node A α)) (it : A) : List (Node A α) :=
  match l.head?, deref l it with
  | some front, some v => assign (assign l it front.value) front.addr v
  | _, _ => l

/-- The cells have different addresses. -/
def Distinct (l : List (Node A α)) : Prop := (l.map Node.addr).Nodup

theorem deref_cons (n : Node A α) (l : List (Node A α)) (it : A) :
    deref (n :: l) it = if n.addr = it then some n.value else deref l it := by
  by_cases h : n.addr = it <;> simp [deref, h]

theorem deref_eq_none_iff (l : List (Node A α)) (it : A) :
    deref l it = none ↔ it ∉ l.map Node.addr := by
  induction l with
  | nil => simp [deref]
  | cons n l ih =>
      rw [deref_cons]
      by_cases h : n.addr = it
      · simp [h]
      · simp [h, ih, Ne.symm h]

theorem deref_of_mem {l : List (Node A α)} (hl : Distinct l) {n : Node A α} (h : n ∈ l) :
    deref l n.addr = some n.value := by
  induction l with
  | nil => simp at h
  | cons c l ih =>
      rw [Distinct, List.map_cons, List.nodup_cons] at hl
      rw [deref_cons]
      rcases List.mem_cons.mp h with rfl | hmem
      · simp
      · have hne : c.addr ≠ n.addr := fun heq => hl.1 (heq ▸ List.mem_map_of_mem hmem)
        rw [if_neg hne]
        exact ih hl.2 hmem

theorem mem_of_deref {l : List (Node A α)} {it : A} {v : α} (h : deref l it = some v) :
    v ∈ l.map Node.value := by
  obtain ⟨n, hn, rfl⟩ := Option.map_eq_some_iff.mp h
  exact List.mem_map_of_mem (List.mem_of_find?_eq_some hn)

@[simp] theorem assign_addr (l : List (Node A α)) (it : A) (v : α) :
    (assign l it v).map Node.addr = l.map Node.addr := by
  rw [assign, List.map_map]
  apply List.map_congr_left
  intro n _
  simp only [Function.comp]
  split <;> rfl

theorem assign_of_not_mem {l : List (Node A α)} {it : A} (h : it ∉ l.map Node.addr) (v : α) :
    assign l it v = l := by
  rw [assign]
  conv_rhs => rw [← List.map_id l]
  apply List.map_congr_left
  intro n hn
  apply if_neg
  rintro rfl
  exact h (List.mem_map_of_mem hn)

theorem assign_cons (n : Node A α) (l : List (Node A α)) (it : A) (v : α) :
    assign (n :: l) it v =
      (if n.addr = it then { n with value := v } else n) :: assign l it v := rfl

/-- Overwriting a value puts the new one in its place. -/
theorem assign_perm {l : List (Node A α)} (hl : Distinct l) {it : A} {v : α}
    (h : deref l it = some v) (w : α) :
    (v :: (assign l it w).map Node.value).Perm (w :: l.map Node.value) := by
  induction l with
  | nil => simp [deref] at h
  | cons n l ih =>
      rw [Distinct, List.map_cons, List.nodup_cons] at hl
      rw [deref_cons] at h
      rw [assign_cons]
      by_cases hn : n.addr = it
      · rw [if_pos hn] at h ⊢
        obtain rfl := Option.some.inj h
        rw [assign_of_not_mem (hn ▸ hl.1)]
        exact List.Perm.swap w n.value _
      · rw [if_neg hn] at h ⊢
        calc (v :: n.value :: (assign l it w).map Node.value).Perm
              (n.value :: v :: (assign l it w).map Node.value) := List.Perm.swap _ _ _
          _ |>.Perm (n.value :: w :: l.map Node.value) := (ih hl.2 h).cons _
          _ |>.Perm (w :: n.value :: l.map Node.value) := List.Perm.swap _ _ _

theorem value_of_mem_assign {l : List (Node A α)} {it : A} {v : α} {n : Node A α}
    (h : n ∈ assign l it v) : n.value = v ∨ n.value ∈ l.map Node.value := by
  obtain ⟨m, hm, rfl⟩ := List.mem_map.mp h
  by_cases hit : m.addr = it
  · exact Or.inl (by rw [if_pos hit])
  · rw [if_neg hit]
    exact Or.inr (List.mem_map_of_mem hm)

/-- Swapping brings in no value. -/
theorem value_of_mem_swapFront {l : List (Node A α)} {it : A} {n : Node A α}
    (h : n ∈ swapFront l it) : n.value ∈ l.map Node.value := by
  unfold swapFront at h
  split at h
  · rename_i front v hfront hv
    have hmem : front.value ∈ l.map Node.value :=
      List.mem_map_of_mem (List.mem_of_mem_head? hfront)
    rcases value_of_mem_assign h with heq | hold
    · rw [heq]
      exact mem_of_deref hv
    · obtain ⟨m, hm, heq⟩ := List.mem_map.mp hold
      rw [← heq]
      rcases value_of_mem_assign hm with hnew | hm
      · rw [hnew]
        exact hmem
      · exact hm
  · exact List.mem_map_of_mem h

@[simp] theorem swapFront_addr (l : List (Node A α)) (it : A) :
    (swapFront l it).map Node.addr = l.map Node.addr := by
  unfold swapFront
  split <;> simp

/-- The iterator to the front swaps the front with itself. -/
theorem swapFront_front {n : Node A α} {l : List (Node A α)} (hl : Distinct (n :: l)) :
    swapFront (n :: l) n.addr = n :: l := by
  rw [Distinct, List.map_cons, List.nodup_cons] at hl
  simp [swapFront, deref_cons, assign_cons, assign_of_not_mem hl.1]

/-- Any other iterator swaps its cell with the front. -/
theorem swapFront_other {n : Node A α} {l : List (Node A α)} (hl : Distinct (n :: l)) {it : A}
    {v : α} (hit : n.addr ≠ it) (h : deref l it = some v) :
    swapFront (n :: l) it = { n with value := v } :: assign l it n.value := by
  rw [Distinct, List.map_cons, List.nodup_cons] at hl
  have hrest : n.addr ∉ (assign l it n.value).map Node.addr := by simpa using hl.1
  simp [swapFront, deref_cons, assign_cons, hit, h, assign_of_not_mem hrest]

/-- Popping after the swap deletes the value of the iterator and no other. -/
theorem swapFront_tail_perm {l : List (Node A α)} (hl : Distinct l) {it : A} {v : α}
    (h : deref l it = some v) :
    (v :: (swapFront l it).tail.map Node.value).Perm (l.map Node.value) := by
  cases l with
  | nil => simp [deref] at h
  | cons n l =>
      by_cases hit : n.addr = it
      · subst hit
        rw [swapFront_front hl]
        simp_all [deref_cons]
      · rw [deref_cons, if_neg hit] at h
        rw [swapFront_other hl hit h]
        have hrest : Distinct l := (List.nodup_cons.mp hl).2
        exact assign_perm hrest h n.value

/-- A dangling iterator swaps nothing. -/
theorem swapFront_dangling {l : List (Node A α)} {it : A} (h : deref l it = none) :
    swapFront l it = l := by
  unfold swapFront
  split
  · rename_i hv
    simp [h] at hv
  · rfl

/-- Popping after the swap brings in no value, whatever the iterator designates. -/
theorem swapFront_tail_subperm {l : List (Node A α)} (hl : Distinct l) (it : A) :
    ((swapFront l it).tail.map Node.value).Subperm (l.map Node.value) := by
  cases h : deref l it with
  | none =>
      rw [swapFront_dangling h]
      exact ((List.tail_sublist l).map Node.value).subperm
  | some v => exact (List.sublist_cons_self v _).subperm.trans (swapFront_tail_perm hl h).subperm

end KappaGateway.ForwardList

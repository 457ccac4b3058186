import KappaGateway.Lib.RefCount

/-!
# Dropping references that may not be counted

What holds of a release whether or not the references to drop are counted. No count grows;
a reference to a cell that is referred to once leaves it released; and a reference to a cell
that was released before is a double release.
-/

namespace KappaGateway.RefCount.Heap

variable {C : Type*} [HasRefs C] {h : Heap C} {a : Nat} {pending : List Nat}

omit [HasRefs C] in
theorem count_setCount_le {b n : Nat} (hpos : 0 < h.count b) (hn : n ≤ h.count b) :
    (h.setCount b n).count a ≤ h.count a := by
  rw [count_setCount hpos]
  split
  · next hba =>
      rw [← hba]
      exact hn
  · exact Nat.le_refl _

/-- No count grows. -/
theorem count_releaseAll_le (n : Nat) (pending : List Nat) (h : Heap C) (a : Nat) :
    (releaseAll n pending h).count a ≤ h.count a := by
  induction n generalizing pending h with
  | zero => exact Nat.le_refl _
  | succ n ih =>
      cases pending with
      | nil => exact Nat.le_refl _
      | cons b pending =>
          rw [releaseAll]
          split
          · exact ih pending { h with twice := b :: h.twice }
          · next hone =>
              exact Nat.le_trans (ih _ _) (count_setCount_le (by omega) (by omega))
          · next k hcount =>
              exact Nat.le_trans (ih _ _) (count_setCount_le (by omega) (by omega))

theorem count_release_le (pending : List Nat) (h : Heap C) (a : Nat) :
    (h.release pending).count a ≤ h.count a :=
  count_releaseAll_le _ pending h a

/-- What was released twice stays so. -/
theorem twice_releaseAll (n : Nat) {pending : List Nat} {h : Heap C} (ha : a ∈ h.twice) :
    a ∈ (releaseAll n pending h).twice := by
  induction n generalizing pending h with
  | zero => exact ha
  | succ n ih =>
      cases pending with
      | nil => exact ha
      | cons b pending =>
          rw [releaseAll]
          split
          · exact ih (List.mem_cons_of_mem b ha)
          · exact ih ha
          · exact ih ha

/-- Each reference to drop is dropped: either the cell was released before, or its count
is smaller. -/
theorem releaseAll_drops (n : Nat) (hn : pending.length + h.held.length ≤ n) (ha : a ∈ pending)
    (hcount : h.count a ≤ 1) :
    (releaseAll n pending h).count a = 0 ∧
      (h.count a = 0 → a ∈ (releaseAll n pending h).twice) := by
  induction n generalizing h pending with
  | zero =>
      obtain rfl : pending = [] := List.eq_nil_of_length_eq_zero (by omega)
      cases ha
  | succ n ih =>
      cases pending with
      | nil => cases ha
      | cons b pending =>
          rw [List.length_cons] at hn
          rw [releaseAll]
          split
          · next hzero =>
              by_cases hab : a = b
              · subst hab
                constructor
                · have hle := count_releaseAll_le n pending { h with twice := a :: h.twice } a
                  have hsame : ({ h with twice := a :: h.twice } : Heap C).count a = 0 := hzero
                  omega
                · intro _
                  exact twice_releaseAll n List.mem_cons_self
              · apply ih
                · show pending.length + h.held.length ≤ n
                  omega
                · exact (List.mem_cons.mp ha).resolve_left hab
                · exact hcount
          · next hone =>
              have hpos : 0 < h.count b := by omega
              obtain ⟨c, hc⟩ := exists_contentAt hpos
              have hlength := length_held_release hone hc
              rw [hc, Option.map_some, Option.getD_some]
              by_cases hab : a = b
              · subst hab
                constructor
                · have hle := count_releaseAll_le n (refs c ++ pending) (h.setCount a 0) a
                  rw [count_setCount hpos, if_pos rfl] at hle
                  omega
                · intro hzero
                  omega
              · have hsame : (h.setCount b 0).count a = h.count a := by
                  rw [count_setCount hpos, if_neg (Ne.symm hab)]
                rw [← hsame]
                apply ih
                · rw [List.length_append]
                  omega
                · exact List.mem_append_right _ ((List.mem_cons.mp ha).resolve_left hab)
                · rw [hsame]
                  exact hcount
          · next k hk =>
              have hpos : 0 < h.count b := by omega
              have hab : a ≠ b := by
                rintro rfl
                omega
              have hsame : (h.setCount b (k + 1)).count a = h.count a := by
                rw [count_setCount hpos, if_neg (Ne.symm hab)]
              rw [← hsame]
              apply ih
              · rw [length_held_setCount hpos (Nat.succ_pos k)]
                omega
              · exact (List.mem_cons.mp ha).resolve_left hab
              · rw [hsame]
                exact hcount

/-- A cell that is referred to at most once is released with that reference. -/
theorem count_release_self (ha : a ∈ pending) (hcount : h.count a ≤ 1) :
    (h.release pending).count a = 0 :=
  (releaseAll_drops _ (Nat.le_refl _) ha hcount).1

/-- A cell that refers to a released one cannot be released. -/
theorem twice_release_holder {b : Nat} {c : C} (hc : h.contentAt b = some c) (ha : a ∈ refs c)
    (hreleased : h.count a = 0) (hcount : h.count b ≤ 1) : (h.release [b]).twice ≠ [] := by
  rcases Nat.le_one_iff_eq_zero_or_eq_one.mp hcount with hzero | hone
  · have hmem := (releaseAll_drops _ (Nat.le_refl _) (List.mem_singleton_self b) hcount).2 hzero
    exact List.ne_nil_of_mem hmem
  · have hpos : 0 < h.count b := by omega
    have hlength := length_held_release hone hc
    have hrelease : h.release [b] = releaseAll h.held.length (refs c ++ []) (h.setCount b 0) := by
      rw [release, List.length_singleton, Nat.add_comm, releaseAll]
      split
      · omega
      · rw [hc]
        rfl
      · omega
    have hle : (h.setCount b 0).count a ≤ h.count a := count_setCount_le hpos (by omega)
    rw [hrelease, List.append_nil]
    apply List.ne_nil_of_mem
    apply (releaseAll_drops _ _ ha (by omega)).2
    · omega
    · omega

end KappaGateway.RefCount.Heap

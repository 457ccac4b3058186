import Mathlib.Data.List.Chain

/-!
# Erasing while counting up

A loop goes through a list by the index, and erases the elements that match. If it goes on
to the next index after it has erased one, it does not look at the element that has moved
to the index. What such a loop leaves is described by a function on lists, and a rule
carries any relation between lists and states through the loop.
-/

namespace KappaGateway.Sweep

variable {T U S : Type*}

/-- A list without the elements that match, except for those right behind one that was
removed. -/
def sweep (p : T → Bool) : List T → List T
  | [] => []
  | [v] => if p v then [] else [v]
  | v :: w :: rest => if p v then w :: sweep p rest else v :: sweep p (w :: rest)

/-- No two adjacent elements match. -/
def Isolated (p : T → Bool) (l : List T) : Prop := l.IsChain fun v w => ¬ (p v ∧ p w)

instance (p : T → Bool) (l : List T) : Decidable (Isolated p l) :=
  inferInstanceAs (Decidable (l.IsChain _))

section

variable {p : T → Bool} {v w : T}

theorem sweep_of_neg (h : p v = false) (l : List T) : sweep p (v :: l) = v :: sweep p l := by
  cases l with
  | nil => simp [sweep, h]
  | cons w rest => simp [sweep, h]

theorem isolated_cons_of_neg (h : p v = false) (l : List T) :
    Isolated p (v :: l) ↔ Isolated p l := by
  cases l with
  | nil => exact iff_of_true (List.isChain_singleton v) List.isChain_nil
  | cons w rest =>
      have hpair : ¬ (p v ∧ p w) := by
        rw [h]
        exact fun hboth => Bool.false_ne_true hboth.1
      exact List.isChain_cons_cons.trans (and_iff_right hpair)

/-- An element that matches stays if it is behind one that was removed. -/
theorem sweep_ne_of_adjacent (hv : p v = true) (hw : p w = true) (l : List T) :
    sweep p (v :: w :: l) ≠ (v :: w :: l).filter fun v => !p v := by
  intro heq
  have hmem : w ∈ (v :: w :: l).filter fun v => !p v := by
    rw [← heq, sweep, if_pos hv]
    exact List.mem_cons_self
  have hkept := (List.mem_filter.mp hmem).2
  rw [hw] at hkept
  cases hkept

/-- Exactly the elements that match are removed if and only if no two of them are
adjacent. -/
theorem sweep_eq_filter_iff (p : T → Bool) (l : List T) :
    sweep p l = (l.filter fun v => !p v) ↔ Isolated p l := by
  induction l using sweep.induct p with
  | case1 => exact iff_of_true rfl List.isChain_nil
  | case2 v hv =>
      refine iff_of_true ?_ (List.isChain_singleton v)
      simp [sweep, hv]
  | case3 v hv =>
      refine iff_of_true ?_ (List.isChain_singleton v)
      simp [sweep, hv]
  | case4 v w rest hv ih =>
      cases hw : p w with
      | true =>
          refine iff_of_false (sweep_ne_of_adjacent hv hw rest) fun hisolated => ?_
          exact (List.isChain_cons_cons.mp hisolated).1 ⟨hv, hw⟩
      | false =>
          have hpair : ¬ (p v ∧ p w) := by
            rw [hw]
            exact fun hboth => Bool.false_ne_true hboth.2
          have hsweep : sweep p (v :: w :: rest) = w :: sweep p rest := if_pos hv
          have hfilter : ((v :: w :: rest).filter fun v => !p v) =
              w :: rest.filter fun v => !p v := by
            rw [List.filter_cons_of_neg (by simp [hv]), List.filter_cons_of_pos (by simp [hw])]
          calc sweep p (v :: w :: rest) = ((v :: w :: rest).filter fun v => !p v)
              ↔ sweep p rest = rest.filter fun v => !p v := by
                rw [hsweep, hfilter, List.cons.injEq, and_iff_right rfl]
            _ ↔ Isolated p rest := ih
            _ ↔ Isolated p (w :: rest) := (isolated_cons_of_neg hw rest).symm
            _ ↔ Isolated p (v :: w :: rest) :=
                (List.isChain_cons_cons.trans (and_iff_right hpair)).symm
  | case5 v w rest hv ih =>
      have hv : p v = false := Bool.eq_false_iff.mpr hv
      rw [sweep_of_neg hv, List.filter_cons_of_pos (by simp [hv]), List.cons.injEq,
        and_iff_right rfl, ih, isolated_cons_of_neg hv]

end

theorem sweep_map (f : U → T) (p : T → Bool) (l : List U) :
    sweep p (l.map f) = (sweep (p ∘ f) l).map f := by
  induction l using sweep.induct (p ∘ f) with
  | case1 => rfl
  | case2 v hv =>
      have hv : p (f v) = true := hv
      simp [sweep, hv]
  | case3 v hv =>
      have hv : ¬ p (f v) = true := hv
      simp [sweep, hv]
  | case4 v w rest hv ih =>
      have hv : p (f v) = true := hv
      simp [sweep, hv, ih]
  | case5 v w rest hv ih =>
      have hv : ¬ p (f v) = true := hv
      rw [List.map_cons] at ih
      simp [sweep, hv, ih]

/-- The rule for such a loop, which has a bound on its rounds: a relation between an
index, a list and a state that each round carries on holds at the end for the list that
was swept from the first index. -/
theorem sweep_rule {p : T → Bool} {run : Nat → Nat → S → S} {Holds : Nat → List T → S → Prop}
    (hend : ∀ rounds i l s, Holds i l s → l.length ≤ i → run rounds i s = s)
    (hround : ∀ rounds i l s v, Holds i l s → l[i]? = some v →
      ∃ s', run (rounds + 1) i s = run rounds (i + 1) s' ∧
        Holds (i + 1) (if p v then l.eraseIdx i else l) s')
    {rounds : Nat} {before after : List T} {s : S} (h : Holds before.length (before ++ after) s)
    (hrounds : after.length ≤ rounds) :
    ∃ i, Holds i (before ++ sweep p after) (run rounds before.length s) := by
  have hnext : ∀ {rounds : Nat} {before after : List T} {v : T} {s : S},
      Holds before.length (before ++ v :: after) s → (v :: after).length ≤ rounds →
      ∃ left s', after.length ≤ left ∧
        run rounds before.length s = run left (before.length + 1) s' ∧
        Holds (before.length + 1) (if p v then before ++ after else before ++ v :: after) s' := by
    intro rounds before after v s h hrounds
    have hget : (before ++ v :: after)[before.length]? = some v := by simp
    have herase : (before ++ v :: after).eraseIdx before.length = before ++ after := by
      rw [List.eraseIdx_append_of_length_le (Nat.le_refl _), Nat.sub_self, List.eraseIdx_cons_zero]
    cases rounds with
    | zero => exact absurd hrounds (Nat.not_succ_le_zero _)
    | succ left =>
        obtain ⟨s', hrun, hs'⟩ := hround left before.length _ s v h hget
        rw [herase] at hs'
        exact ⟨left, s', Nat.le_of_succ_le_succ hrounds, hrun, hs'⟩
  have hlonger : ∀ (before : List T) (v : T), before.length + 1 = (before ++ [v]).length := by
    simp
  induction after using sweep.induct p generalizing rounds before s with
  | case1 =>
      rw [List.append_nil] at h
      refine ⟨before.length, ?_⟩
      rwa [hend rounds _ _ s h (Nat.le_refl _), sweep, List.append_nil]
  | case2 v hv =>
      obtain ⟨left, s', -, hrun, hs'⟩ := hnext h hrounds
      rw [if_pos hv, List.append_nil] at hs'
      refine ⟨before.length + 1, ?_⟩
      rwa [hrun, hend left _ _ s' hs' (Nat.le_succ _), sweep, if_pos hv, List.append_nil]
  | case3 v hv =>
      obtain ⟨left, s', -, hrun, hs'⟩ := hnext h hrounds
      rw [if_neg hv] at hs'
      refine ⟨before.length + 1, ?_⟩
      rwa [hrun, hend left _ _ s' hs' (hlonger before v).ge, sweep, if_neg hv]
  | case4 v w rest hv ih =>
      obtain ⟨left, s', hleft, hrun, hs'⟩ := hnext h hrounds
      rw [if_pos hv, hlonger before w, List.append_cons before w rest] at hs'
      rw [hrun, hlonger before w, sweep, if_pos hv, List.append_cons before w]
      exact ih hs' (Nat.le_of_succ_le hleft)
  | case5 v w rest hv ih =>
      obtain ⟨left, s', hleft, hrun, hs'⟩ := hnext h hrounds
      rw [if_neg hv, hlonger before v, List.append_cons before v (w :: rest)] at hs'
      rw [hrun, hlonger before v, sweep, if_neg hv, List.append_cons before v]
      exact ih hs' hleft

end KappaGateway.Sweep

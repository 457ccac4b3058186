import Mathlib.Algebra.BigOperators.Group.Finset.Basic
import Mathlib.Algebra.Order.BigOperators.Group.Finset
import Mathlib.Algebra.Order.Ring.Nat
import Mathlib.Data.Fintype.BigOperators

/-!
# Tokens held by finitely many parties

Every party holds a number of tokens that its local state determines. A step of
one party changes the total by what that party gained or lost, so conservation
laws over any number of parties are linear arithmetic on one of them.
-/

namespace KappaGateway.Tokens

variable {T S : Type*} [Fintype T]

/-- The tokens that all parties hold together. -/
def total (weight : S → Nat) (party : T → S) : Nat := ∑ t, weight (party t)

theorem le_total (weight : S → Nat) (party : T → S) (t : T) :
    weight (party t) ≤ total weight party := by
  exact Finset.single_le_sum (fun u _ => Nat.zero_le (weight (party u))) (Finset.mem_univ t)

/-- Where no party holds a token, the total is zero. -/
theorem total_eq_zero {weight : S → Nat} {party : T → S} :
    total weight party = 0 ↔ ∀ t, weight (party t) = 0 := by
  simp [total]

/-- A positive total has a holder. -/
theorem exists_holder {weight : S → Nat} {party : T → S} (h : 0 < total weight party) :
    ∃ t, 0 < weight (party t) := by
  by_contra hnone
  push Not at hnone
  have hzero : total weight party = 0 := total_eq_zero.mpr fun t => by
    have := hnone t
    omega
  omega

/-- Where no party holds two tokens, the total counts the holders. -/
theorem total_eq_card {weight : S → Nat} {party : T → S} (h : ∀ t, weight (party t) ≤ 1) :
    total weight party = (Finset.univ.filter fun t => 0 < weight (party t)).card := by
  rw [Finset.card_filter]
  apply Finset.sum_congr rfl
  intro t _
  have := h t
  split <;> omega

variable [DecidableEq T]

/-- What a step of one party does to the total. -/
theorem total_update (weight : S → Nat) (party : T → S) (t : T) (x : S) :
    total weight (Function.update party t x) + weight (party t) =
      total weight party + weight x := by
  have hrest : ∑ u ∈ Finset.univ.erase t, weight (Function.update party t x u) =
      ∑ u ∈ Finset.univ.erase t, weight (party u) := by
    apply Finset.sum_congr rfl
    intro u hu
    rw [Function.update_of_ne (Finset.ne_of_mem_erase hu)]
  have hnew := Finset.add_sum_erase Finset.univ
    (fun u => weight (Function.update party t x u)) (Finset.mem_univ t)
  have hold := Finset.add_sum_erase Finset.univ (fun u => weight (party u)) (Finset.mem_univ t)
  simp only [Function.update_self] at hnew
  unfold total
  omega

/-- Two different parties that both hold a token hold two together. -/
theorem add_le_total (weight : S → Nat) (party : T → S) {t u : T} (h : t ≠ u) :
    weight (party t) + weight (party u) ≤ total weight party := by
  have hpair := Finset.add_sum_erase Finset.univ (fun v => weight (party v)) (Finset.mem_univ t)
  have hu := Finset.single_le_sum (f := fun v => weight (party v))
    (fun v _ => Nat.zero_le (weight (party v)))
    (Finset.mem_erase.mpr ⟨h.symm, Finset.mem_univ u⟩)
  unfold total
  omega

end KappaGateway.Tokens

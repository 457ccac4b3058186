import Mathlib.Tactic.Common

/-!
# A semaphore with one permit

The value of the semaphore and the set of its holders, as long as every holder
gives back what it took: either the permit is free and nobody holds it, or
exactly one party does.
-/

namespace KappaGateway.Semaphore

variable {α : Type*}

/-- Either the permit is free, or it has one holder. -/
def Exclusive (value : Nat) (holds : α → Prop) : Prop :=
  value = 1 ∧ (∀ a, ¬ holds a) ∨ value = 0 ∧ ∃ a, ∀ b, holds b ↔ b = a

namespace Exclusive

variable {value : Nat} {holds holds' : α → Prop}

theorem congr (h : Exclusive value holds) (hsame : ∀ b, holds' b ↔ holds b) :
    Exclusive value holds' := by
  obtain ⟨hv, hfree⟩ | ⟨hv, a, ha⟩ := h
  · exact Or.inl ⟨hv, fun b hb => hfree b ((hsame b).mp hb)⟩
  · exact Or.inr ⟨hv, a, fun b => (hsame b).trans (ha b)⟩

/-- A wait that succeeds. -/
theorem take (h : Exclusive value holds) (hvalue : 0 < value) {a : α}
    (hnew : ∀ b, holds' b ↔ holds b ∨ b = a) : Exclusive (value - 1) holds' := by
  obtain ⟨rfl, hfree⟩ | ⟨rfl, -⟩ := h
  · exact Or.inr ⟨rfl, a, fun b => by simp [hnew, hfree]⟩
  · omega

/-- A post by the holder. -/
theorem give (h : Exclusive value holds) {a : α} (ha : holds a)
    (hnew : ∀ b, holds' b ↔ holds b ∧ b ≠ a) : Exclusive (value + 1) holds' := by
  obtain ⟨-, hfree⟩ | ⟨rfl, c, hc⟩ := h
  · exact absurd ha (hfree a)
  · obtain rfl := (hc a).mp ha
    exact Or.inl ⟨rfl, fun b hb => ((hnew b).mp hb).2 ((hc b).mp ((hnew b).mp hb).1)⟩

theorem unique (h : Exclusive value holds) {a b : α} (ha : holds a) (hb : holds b) : a = b := by
  obtain ⟨-, hfree⟩ | ⟨-, c, hc⟩ := h
  · exact absurd ha (hfree a)
  · exact ((hc a).mp ha).trans ((hc b).mp hb).symm

end Exclusive

end KappaGateway.Semaphore

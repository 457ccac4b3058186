import Mathlib.Data.List.Basic

/-!
# Walking through memory

A program walks a pointer through memory without a bound. The addresses that it reads
are kept. If they are the ones between its start and its end, it stays inside a buffer
exactly if its end does.
-/

namespace KappaGateway

/-- What a walk leaves: its value, where the pointer stands, and the addresses read. -/
structure Walked (α : Type) where
  value : α
  stop : Nat
  reads : List Nat

/-- A program that walks through memory from an address on. -/
def Scan (β α : Type) : Type := (Nat → β) → Nat → Walked α

namespace Scan

variable {β α γ : Type}

instance : Monad (Scan β) where
  pure a := fun _ i => ⟨a, i, []⟩
  bind p f := fun m i =>
    let first := p m i
    let second := f first.value m first.stop
    ⟨second.value, second.stop, first.reads ++ second.reads⟩

/-- `*p++`. -/
def readNext : Scan β β := fun m i => ⟨m i, i + 1, [i]⟩

/-- The same program several times. -/
def times : Nat → Scan β α → Scan β (List α)
  | 0, _ => pure []
  | n + 1, p => do
      let a ← p
      let rest ← times n p
      pure (a :: rest)

/-- From `i`, the program gives `a`, stops at `j`, and reads what lies between. -/
structure Covers (p : Scan β α) (m : Nat → β) (i : Nat) (a : α) (j : Nat) : Prop where
  value : (p m i).value = a
  stop : (p m i).stop = j
  le : i ≤ j
  reads : ∀ k, k ∈ (p m i).reads ↔ i ≤ k ∧ k < j

namespace Covers

variable {p : Scan β α} {f : α → Scan β γ} {m : Nat → β} {i j l n : Nat} {a : α} {c : γ}

theorem pure (m : Nat → β) (i : Nat) (a : α) : Covers (Pure.pure a) m i a i := by
  refine ⟨rfl, rfl, Nat.le_refl i, fun k => ?_⟩
  show k ∈ [] ↔ _
  simp

theorem readNext (m : Nat → β) (i : Nat) : Covers readNext m i (m i) (i + 1) := by
  refine ⟨rfl, rfl, Nat.le_succ i, fun k => ?_⟩
  show k ∈ [i] ↔ _
  rw [List.mem_singleton]
  omega

theorem bind (first : Covers p m i a j) (second : Covers (f a) m j c l) :
    Covers (p >>= f) m i c l := by
  have hvalue : (p >>= f) m i = ⟨(f a m j).value, (f a m j).stop,
      (p m i).reads ++ (f a m j).reads⟩ := by
    show Walked.mk _ _ _ = _
    rw [first.value, first.stop]
  refine ⟨?_, ?_, Nat.le_trans first.le second.le, fun k => ?_⟩
  · rw [hvalue]
    exact second.value
  · rw [hvalue]
    exact second.stop
  · have hfirst := first.le
    have hsecond := second.le
    rw [hvalue, List.mem_append, first.reads, second.reads]
    omega

/-- A program of a fixed size, several times. -/
theorem times {value : Nat → α} {size : Nat} (h : ∀ i, Covers p m i (value i) (i + size))
    (n i : Nat) :
    Covers (times n p) m i ((List.range n).map fun k => value (i + size * k)) (i + size * n) := by
  induction n generalizing i with
  | zero => exact pure m i []
  | succ n ih =>
      have hrest := ih (i + size)
      have hstop : i + size + size * n = i + size * (n + 1) := by
        rw [Nat.mul_succ]
        omega
      have hvalues : (List.range (n + 1)).map (fun k => value (i + size * k)) =
          value i :: (List.range n).map fun k => value (i + size + size * k) := by
        rw [List.range_succ_eq_map, List.map_cons, List.map_map]
        refine congrArg₂ List.cons rfl (List.map_congr_left fun k _ => congrArg value ?_)
        rw [Nat.mul_succ]
        omega
      rw [hvalues, ← hstop]
      exact (h i).bind (hrest.bind (pure m _ _))

/-- A walk that reads something stays below a bound exactly if it stops there. -/
theorem within_iff (h : Covers p m i a j) (hread : i < j) :
    (∀ k ∈ (p m i).reads, k < n) ↔ j ≤ n := by
  constructor
  · intro hwithin
    have hlast := hwithin (j - 1) ((h.reads _).mpr (by omega))
    omega
  · intro hle k hk
    exact Nat.lt_of_lt_of_le ((h.reads k).mp hk).2 hle

end Covers

end Scan

end KappaGateway

import Mathlib.Algebra.Order.Monoid.Defs
import Mathlib.Algebra.Order.Monoid.Unbundled.Pow
import Mathlib.Data.List.Basic

/-!
# Waiting in line

A line in which the first is served before the others move up, and nobody is served for
longer than a given time. Whoever finds at most a given number before him waits for at most
as many services and his own. The times are those of any ordered monoid.
-/

namespace KappaGateway.Line

variable {ι T : Type*} [AddCommMonoid T] [PartialOrder T] [IsOrderedAddMonoid T]
  {service now turn turn' : T} {crowd : Nat} {stamp stamp' : ι → T} {queue : List ι} {i : ι}

/-- The first got his turn at a time, and everybody joined late enough for the services
before his own. -/
def InLine (service : T) (crowd : Nat) (turn : T) (stamp : ι → T) (queue : List ι) : Prop :=
  ∀ (p : Nat) (i : ι), queue[p]? = some i → turn + p • service ≤ stamp i + crowd • service

omit [IsOrderedAddMonoid T] in
theorem InLine.nil : InLine service crowd turn stamp [] := by
  intro p i hi
  simp at hi

/-- Somebody joins who finds few enough in the line. -/
theorem InLine.join (h : InLine service crowd turn stamp queue) (hservice : 0 ≤ service)
    (hfew : queue.length ≤ crowd) (hstamp : turn ≤ stamp i) :
    InLine service crowd turn stamp (queue ++ [i]) := by
  intro p j hj
  rcases lt_or_ge p queue.length with hp | hp
  · exact h p j (by rwa [List.getElem?_append_left hp] at hj)
  · rw [List.getElem?_append_right hp, List.getElem?_singleton] at hj
    split at hj
    · next hzero =>
        cases hj
        have hlast : p ≤ crowd := by omega
        exact add_le_add hstamp (nsmul_le_nsmul_left hservice hlast)
    · cases hj

/-- The first is served in time, and the others move up. -/
theorem InLine.served (h : InLine service crowd turn stamp (i :: queue))
    (hserved : turn' ≤ turn + service) : InLine service crowd turn' stamp queue := by
  intro p j hj
  calc
    turn' + p • service ≤ turn + service + p • service := add_le_add_left hserved _
    _ = turn + (p + 1) • service := by rw [add_assoc, succ_nsmul']
    _ ≤ stamp j + crowd • service := h (p + 1) j hj

/-- It does no harm to have joined later. -/
theorem InLine.later (h : InLine service crowd turn stamp queue)
    (hlater : ∀ j ∈ queue, stamp j ≤ stamp' j) : InLine service crowd turn stamp' queue := by
  intro p j hj
  exact (h p j hj).trans (add_le_add_left (hlater j (List.mem_of_getElem? hj)) _)

/-- Nobody is in the line for longer than the services before his own and his own. -/
theorem InLine.waits (h : InLine service crowd turn stamp queue) (hservice : 0 ≤ service)
    (hnow : now ≤ turn + service) (hi : i ∈ queue) : now ≤ stamp i + (crowd + 1) • service := by
  obtain ⟨p, hp⟩ := List.mem_iff_getElem?.mp hi
  calc
    now ≤ turn + service := hnow
    _ ≤ turn + p • service + service :=
        add_le_add_left (le_add_of_nonneg_right (nsmul_nonneg hservice p)) _
    _ ≤ stamp i + crowd • service + service := add_le_add_left (h p i hp) _
    _ = stamp i + (crowd + 1) • service := by rw [add_assoc, succ_nsmul]

end KappaGateway.Line

import Mathlib.Tactic.Common

/-!
# Loops

Statements of an imperative program as functions of its variables: a statement
goes on to the next one, breaks out of the loop around it, or ends the program.
A loop takes a bound on its rounds, and is still running when it reaches it.
-/

namespace KappaGateway.Loop

variable {σ : Type*}

/-- How a statement ends, and with which variables. `continue` goes on from the
body of a loop. -/
inductive Flow (σ : Type*) where
  | goesOn (s : σ)
  | breaks (s : σ)
  | exits (s : σ)
  | runs (s : σ)

/-- The variables at the end of a statement. -/
def Flow.vars : Flow σ → σ
  | .goesOn s | .breaks s | .exits s | .runs s => s

/-- One statement after the other. -/
def Flow.andThen (first : Flow σ) (second : σ → Flow σ) : Flow σ :=
  match first with
  | .goesOn s => second s
  | other => other

@[simp] theorem Flow.goesOn_andThen (s : σ) (second : σ → Flow σ) :
    (Flow.goesOn s).andThen second = second s := rfl

variable (cond : σ → Prop) [DecidablePred cond] (body : σ → Flow σ)

/-- `while (cond) body`. -/
def loop : Nat → σ → Flow σ
  | 0, s => .runs s
  | fuel + 1, s =>
      if cond s then
        match body s with
        | .goesOn t => loop fuel t
        | .breaks t => .goesOn t
        | other => other
      else .goesOn s

/-- `do body while (cond)`. -/
def doLoop (fuel : Nat) (s : σ) : Flow σ :=
  match body s with
  | .goesOn t => loop cond body fuel t
  | .breaks t => .goesOn t
  | other => other

variable {cond body} {fuel : Nat} {s t : σ}

theorem loop_done (h : ¬ cond s) : loop cond body (fuel + 1) s = .goesOn s := if_neg h

theorem loop_goesOn (h : cond s) (hbody : body s = .goesOn t) :
    loop cond body (fuel + 1) s = loop cond body fuel t := by
  rw [loop, if_pos h, hbody]

theorem loop_breaks (h : cond s) (hbody : body s = .breaks t) :
    loop cond body (fuel + 1) s = .goesOn t := by
  rw [loop, if_pos h, hbody]

theorem doLoop_goesOn (hbody : body s = .goesOn t) (h : cond t) :
    doLoop cond body (fuel + 1) s = doLoop cond body fuel t := by
  rw [doLoop, hbody]
  exact if_pos h

theorem doLoop_done (hbody : body s = .goesOn t) (h : ¬ cond t) :
    doLoop cond body (fuel + 1) s = .goesOn t := by
  rw [doLoop, hbody]
  exact loop_done h

theorem doLoop_exits (hbody : body s = .exits t) : doLoop cond body fuel s = .exits t := by
  rw [doLoop, hbody]

theorem doLoop_runs (hbody : body s = .runs t) : doLoop cond body fuel s = .runs t := by
  rw [doLoop, hbody]

/-- A loop whose body goes on and keeps an invariant ends or runs with it. -/
theorem loop_invariant {Inv : σ → Prop}
    (hbody : ∀ s, Inv s → cond s → ∃ t, body s = .goesOn t ∧ Inv t) (fuel : Nat) {s : σ}
    (h : Inv s) :
    ∃ t, (loop cond body fuel s = .goesOn t ∨ loop cond body fuel s = .runs t) ∧ Inv t := by
  induction fuel generalizing s with
  | zero => exact ⟨s, Or.inr rfl, h⟩
  | succ fuel ih =>
      by_cases hcond : cond s
      · obtain ⟨t, ht, hinv⟩ := hbody s h hcond
        rw [loop_goesOn hcond ht]
        exact ih hinv
      · exact ⟨s, Or.inl (loop_done hcond), h⟩

/-- Whatever the bound, a loop that goes on has kept what its body keeps. -/
theorem loop_keeps {Inv : σ → Prop}
    (hbody : ∀ s t, Inv s → cond s → body s = .goesOn t ∨ body s = .breaks t → Inv t)
    {fuel : Nat} {s t : σ} (h : Inv s) (hloop : loop cond body fuel s = .goesOn t) : Inv t := by
  induction fuel generalizing s with
  | zero => cases hloop
  | succ fuel ih =>
      by_cases hcond : cond s
      · cases hround : body s with
        | goesOn u =>
            rw [loop_goesOn hcond hround] at hloop
            exact ih (hbody s u h hcond (Or.inl hround)) hloop
        | breaks u =>
            rw [loop_breaks hcond hround] at hloop
            cases hloop
            exact hbody s t h hcond (Or.inr hround)
        | exits u | runs u =>
            rw [loop, if_pos hcond, hround] at hloop
            cases hloop
      · rw [loop_done hcond] at hloop
        cases hloop
        exact h

/-- A loop whose body makes progress, breaks, or runs on itself, goes on to the
next statement or runs on inside its body. -/
theorem loop_ends {Inv Post Running : σ → Prop} (left : σ → Nat)
    (hdone : ∀ s, Inv s → ¬ cond s → Post s)
    (hbody : ∀ s, Inv s → cond s → (∃ t, body s = .goesOn t ∧ Inv t ∧ left t < left s) ∨
      (∃ t, body s = .breaks t ∧ Post t) ∨ ∃ t, body s = .runs t ∧ Running t)
    {fuel : Nat} {s : σ} (h : Inv s) (hfuel : left s < fuel) :
    (∃ t, loop cond body fuel s = .goesOn t ∧ Post t) ∨
      ∃ t, loop cond body fuel s = .runs t ∧ Running t := by
  induction fuel generalizing s with
  | zero => exact absurd hfuel (Nat.not_lt_zero _)
  | succ fuel ih =>
      by_cases hcond : cond s
      · obtain ⟨t, ht, hinv, hleft⟩ | ⟨t, ht, hpost⟩ | ⟨t, ht, hrunning⟩ := hbody s h hcond
        · rw [loop_goesOn hcond ht]
          exact ih hinv (by omega)
        · exact Or.inl ⟨t, loop_breaks hcond ht, hpost⟩
        · refine Or.inr ⟨t, ?_, hrunning⟩
          rw [loop, if_pos hcond, ht]
      · exact Or.inl ⟨s, loop_done hcond, hdone s h hcond⟩

end KappaGateway.Loop

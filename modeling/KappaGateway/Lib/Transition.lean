import Mathlib.Data.List.Basic

/-!
# Runs of a labelled transition relation

A path keeps every transition it takes, so that a property may speak about the
states before and after each of them. Two rules carry invariants along a path:
one for paths whose transitions meet a side condition, one that turns a fact
about each transition into an equivalence for whole paths.
-/

namespace KappaGateway.Transition

variable {σ α : Type*}

/-- A finite run with the list of its transitions. -/
inductive Path (step : σ → α → σ → Prop) : σ → List (σ × α × σ) → σ → Prop
  | nil (s : σ) : Path step s [] s
  | cons {s a t tr u} (h : step s a t) (tail : Path step t tr u) :
      Path step s ((s, a, t) :: tr) u

namespace Path

variable {step : σ → α → σ → Prop}

/-- Every listed transition is a transition of the relation. -/
theorem step_of_mem {s tr u} (path : Path step s tr u) :
    ∀ e ∈ tr, step e.1 e.2.1 e.2.2 := by
  induction path with
  | nil => simp
  | cons h tail ih => simpa [h] using ih

theorem append {s tr t tr' u} (first : Path step s tr t) (second : Path step t tr' u) :
    Path step s (tr ++ tr') u := by
  induction first with
  | nil => exact second
  | cons h tail ih => exact .cons h (ih second)

theorem of_append {s tr tr' u} (path : Path step s (tr ++ tr') u) :
    ∃ t, Path step s tr t ∧ Path step t tr' u := by
  induction tr generalizing s with
  | nil => exact ⟨s, .nil s, path⟩
  | cons e tr ih =>
      cases path with
      | cons h tail =>
          obtain ⟨t, hfirst, hrest⟩ := ih tail
          exact ⟨t, .cons h hfirst, hrest⟩

/-- An invariant that every transition with the side condition preserves holds
along every path whose transitions meet the condition. -/
theorem invariant {Inv : σ → Prop} {ok : σ × α × σ → Prop}
    (preserved : ∀ s a t, Inv s → step s a t → ok (s, a, t) → Inv t)
    {s tr u} (path : Path step s tr u) (start : Inv s) (hok : ∀ e ∈ tr, ok e) :
    Inv u ∧ ∀ e ∈ tr, Inv e.1 ∧ Inv e.2.2 := by
  induction path with
  | nil => exact ⟨start, by simp⟩
  | cons h tail ih =>
      have hnext := preserved _ _ _ start h (hok _ (by simp))
      obtain ⟨hlast, hmem⟩ := ih hnext fun e he => hok e (by simp [he])
      exact ⟨hlast, by simpa [start, hnext] using hmem⟩

/-- An invariant that every transition preserves holds at the end of every path. -/
theorem preserves {Inv : σ → Prop} (preserved : ∀ s a t, Inv s → step s a t → Inv t)
    {s tr u} (path : Path step s tr u) (start : Inv s) : Inv u := by
  induction path with
  | nil => exact start
  | cons h tail ih => exact ih (preserved _ _ _ start h)

/-- What holds of the transitions so far and the state, and is kept when a transition is
added, holds of every path. -/
theorem history {P : List (σ × α × σ) → σ → Prop}
    (preserved : ∀ tr s a t, P tr s → step s a t → P (tr ++ [(s, a, t)]) t)
    {s tr u} (path : Path step s tr u) (start : P [] s) : P tr u := by
  suffices hfrom : ∀ past, P past s → P (past ++ tr) u from hfrom [] start
  clear start
  induction path with
  | nil => simp
  | @cons s a t tr u h tail ih =>
      intro past hpast
      simpa using ih _ (preserved past s a t hpast h)

/-- If in states with the invariant a transition is good exactly when it meets
the condition, and good transitions keep the invariant, then on a whole path
all transitions are good exactly when all meet the condition. -/
theorem forall_iff {Inv : σ → Prop} {good ok : σ × α × σ → Prop}
    (each : ∀ s a t, Inv s → step s a t → (good (s, a, t) ↔ ok (s, a, t)))
    (preserved : ∀ s a t, Inv s → step s a t → good (s, a, t) → Inv t)
    {s tr u} (path : Path step s tr u) (start : Inv s) :
    (∀ e ∈ tr, good e) ↔ ∀ e ∈ tr, ok e := by
  induction path with
  | nil => simp
  | @cons s a t tr u h tail ih =>
      simp only [List.forall_mem_cons, each s a t start h]
      apply and_congr_right
      intro hok
      exact ih (preserved s a t start h ((each s a t start h).mpr hok))

end Path

/-- The transitions of a list of actions, taken one after the other. -/
def play (next : σ → α → σ) (s : σ) : List α → List (σ × α × σ) × σ
  | [] => ([], s)
  | a :: rest =>
      let (tr, u) := play next (next s a) rest
      ((s, a, next s a) :: tr, u)

theorem play_cons (next : σ → α → σ) (s : σ) (a : α) (rest : List α) :
    (play next s (a :: rest)).1 = (s, a, next s a) :: (play next (next s a) rest).1 := rfl

/-- Each transition that is played is the one of its state and action. -/
theorem play_next {next : σ → α → σ} {s : σ} {actions : List α} {e : σ × α × σ}
    (h : e ∈ (play next s actions).1) : e.2.2 = next e.1 e.2.1 := by
  induction actions generalizing s with
  | nil => cases h
  | cons a rest ih =>
      rw [play_cons] at h
      rcases List.mem_cons.mp h with rfl | h
      · rfl
      · exact ih h

theorem play_first {next : σ → α → σ} {s : σ} {actions : List α} {e : σ × α × σ}
    (h : (play next s actions).1[0]? = some e) : e.1 = s := by
  cases actions with
  | nil => cases h
  | cons a rest =>
      cases h
      rfl

/-- A transition begins where the one before it ends. -/
theorem play_adjacent {next : σ → α → σ} {s : σ} {actions : List α} {i : Nat}
    {d e : σ × α × σ} (hd : (play next s actions).1[i]? = some d)
    (he : (play next s actions).1[i + 1]? = some e) : e.1 = d.2.2 := by
  induction actions generalizing s i with
  | nil => cases hd
  | cons a rest ih =>
      rw [play_cons] at hd he
      cases i with
      | zero =>
          cases hd
          exact play_first he
      | succ i => exact ih hd he

/-- Playing actions that are enabled one after the other is a path. -/
theorem play_path {enabled : σ → α → Prop} {next : σ → α → σ} {s : σ} (actions : List α)
    (h : ∀ e ∈ (play next s actions).1, enabled e.1 e.2.1) :
    Path (fun s a t => enabled s a ∧ t = next s a) s (play next s actions).1
      (play next s actions).2 := by
  induction actions generalizing s with
  | nil => exact .nil s
  | cons a rest ih =>
      simp only [play, List.forall_mem_cons] at h
      exact .cons ⟨h.1, rfl⟩ (ih h.2)

/-- The same for actions that may have no result. -/
def playSome (next : σ → α → Option σ) (s : σ) : List α → Option (List (σ × α × σ) × σ)
  | [] => some ([], s)
  | a :: rest =>
      match next s a with
      | none => none
      | some t => (playSome next t rest).map fun r => ((s, a, t) :: r.1, r.2)

theorem playSome_path {enabled : σ → α → Prop} {next : σ → α → Option σ} {s u : σ}
    {tr : List (σ × α × σ)} (actions : List α) (hplay : playSome next s actions = some (tr, u))
    (h : ∀ e ∈ tr, enabled e.1 e.2.1) :
    Path (fun s a t => enabled s a ∧ next s a = some t) s tr u := by
  induction actions generalizing s tr with
  | nil =>
      obtain ⟨rfl, rfl⟩ := Prod.mk.inj (Option.some.inj hplay)
      exact .nil s
  | cons a rest ih =>
      rw [playSome] at hplay
      split at hplay
      · cases hplay
      · next t hnext =>
          obtain ⟨⟨tr', u'⟩, hrest, heq⟩ := Option.map_eq_some_iff.mp hplay
          obtain ⟨rfl, rfl⟩ := Prod.mk.inj heq
          rw [List.forall_mem_cons] at h
          exact .cons ⟨h.1, hnext⟩ (ih hrest h.2)

end KappaGateway.Transition

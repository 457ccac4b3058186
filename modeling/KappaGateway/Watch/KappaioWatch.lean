import KappaGateway.Lib.Transition

/-!
# The supervisor

`kappaio-watch` polls the process file and the keep-alive counter. It restarts the gateway
when one of them is missing, and when the counter has not changed for two polls. The
reference counter and the tolerance are kept over the other restarts.
-/

namespace KappaGateway.KappaioWatch

open Transition

/-- What `stat` says of the directory of a process. -/
inductive Stat where
  | found
  | noEntry
  | error
  deriving DecidableEq

/-- What a poll finds: the number in `KAPPAIO_PIDF`, the processes, and the number in
`KAPPAIO_KEEP_ALIVE_COUNT_FILE`. -/
structure Poll where
  pidFile : Option Int
  proc : Int → Stat
  countFile : Option Int

def checkByPIDFile (poll : Poll) : Int :=
  match poll.pidFile with
  | none => -1
  | some pid => if poll.proc pid = .noEntry then -1 else 0

def readKLA (poll : Poll) : Int := poll.countFile.getD (-1)

/-- The variables of `main`. -/
structure State where
  keepAliveCountRef : Int
  tolerance : Nat
  deriving DecidableEq

/-- The reasons for a restart. -/
inductive Restart where
  | notRunning
  | noCounter
  | unchanged
  deriving DecidableEq

/-- A round of the loop of `main`: the variables afterwards, and the restart if there is
one. -/
def watchRound (s : State) (poll : Poll) : State × Option Restart :=
  if checkByPIDFile poll < 0 then (s, some .notRunning)
  else
    let keepAliveCount := readKLA poll
    if keepAliveCount < 0 then (s, some .noCounter)
    else if keepAliveCount ≠ s.keepAliveCountRef then
      ({ s with keepAliveCountRef := keepAliveCount, tolerance := 0 }, none)
    else if s.tolerance > 0 then ({ s with tolerance := 0 }, some .unchanged)
    else ({ s with tolerance := s.tolerance + 1 }, none)

/-! ### Polls and rounds -/

/-- The counter, if the process is present. -/
def Poll.counter (poll : Poll) : Option Int :=
  if checkByPIDFile poll < 0 ∨ readKLA poll < 0 then none else some (readKLA poll)

/-- The rounds of `main`: the variables before, the poll, and the variables afterwards. -/
def rounds (polls : List Poll) : List (State × Poll × State) :=
  (play (fun s poll => (watchRound s poll).1) ⟨0, 0⟩ polls).1

/-- The restart in a round. -/
def restart (e : State × Poll × State) : Option Restart := (watchRound e.1 e.2.1).2

/-- Before a restart for an unchanged counter, the last two polls have found the process
with the same counter, and there was no restart between them. -/
def Founded (polls : List Poll) : Prop :=
  ∀ i r, (rounds polls)[i]? = some r → restart r = some .unchanged →
    ∃ j q, i = j + 1 ∧ (rounds polls)[j]? = some q ∧ restart q = none ∧
      ∃ n, q.2.1.counter = some n ∧ r.2.1.counter = some n

/-- Right after a poll without a process or a counter, the tolerance is used up and the
counter is the one of before. -/
def Carried (polls : List Poll) : Prop :=
  ∃ i q r, (rounds polls)[i]? = some q ∧ (rounds polls)[i + 1]? = some r ∧
    q.2.1.counter = none ∧ 0 < r.1.tolerance ∧
      r.2.1.counter = some r.1.keepAliveCountRef

section

variable {s : State} {poll : Poll} {n : Int}

/-- Without a counter there is a restart, and the variables stay. -/
theorem watchRound_of_none (h : poll.counter = none) :
    (watchRound s poll).1 = s ∧ (watchRound s poll).2 ≠ some .unchanged ∧
      (watchRound s poll).2 ≠ none := by
  have hmissing : checkByPIDFile poll < 0 ∨ readKLA poll < 0 := by
    by_contra hpresent
    rw [Poll.counter, if_neg hpresent] at h
    cases h
  by_cases hrunning : checkByPIDFile poll < 0
  · simp [watchRound, hrunning]
  · have hcount := hmissing.resolve_left hrunning
    simp [watchRound, hrunning, hcount]

/-- What is done with a counter. -/
theorem watchRound_of_some (h : poll.counter = some n) :
    watchRound s poll =
      if n ≠ s.keepAliveCountRef then (⟨n, 0⟩, none)
      else if s.tolerance > 0 then ({ s with tolerance := 0 }, some .unchanged)
      else ({ s with tolerance := s.tolerance + 1 }, none) := by
  have hpresent : ¬ (checkByPIDFile poll < 0 ∨ readKLA poll < 0) := by
    intro hmissing
    rw [Poll.counter, if_pos hmissing] at h
    cases h
  rw [Poll.counter, if_neg hpresent] at h
  obtain ⟨hrunning, hcount⟩ := not_or.mp hpresent
  have hread : readKLA poll = n := Option.some.inj h
  rw [hread] at hcount
  simp only [watchRound, if_neg hrunning, hread, if_neg hcount]

/-- When the counter counts as unchanged. -/
theorem unchanged_iff :
    (watchRound s poll).2 = some .unchanged ↔
      poll.counter = some s.keepAliveCountRef ∧ 0 < s.tolerance := by
  cases hcounter : poll.counter with
  | none => simp [(watchRound_of_none hcounter).2.1]
  | some n =>
      rw [watchRound_of_some hcounter]
      by_cases hsame : n = s.keepAliveCountRef
      · by_cases htolerance : 0 < s.tolerance
        · simp [hsame, htolerance]
        · simp [hsame, htolerance]
      · simp [hsame]

/-- A counter that leaves some tolerance used is the reference counter, and there is no
restart. -/
theorem tolerance_used (h : poll.counter = some n)
    (htolerance : 0 < (watchRound s poll).1.tolerance) :
    (watchRound s poll).2 = none ∧ (watchRound s poll).1.keepAliveCountRef = n := by
  rw [watchRound_of_some h] at htolerance ⊢
  by_cases hsame : n = s.keepAliveCountRef
  · by_cases hused : 0 < s.tolerance
    · simp [hsame, hused] at htolerance
    · simp [hsame, hused]
  · simp [hsame] at htolerance

end

/-- Over all sequences of polls, the restarts for an unchanged counter are founded if and
only if no tolerance is carried over another restart to the same counter. -/
theorem unchanged_founded_iff (polls : List Poll) : Founded polls ↔ ¬ Carried polls := by
  constructor
  · rintro hfounded ⟨i, q, r, hq, hr, hnone, htolerance, hcounter⟩
    have hunchanged : restart r = some .unchanged := unchanged_iff.mpr ⟨hcounter, htolerance⟩
    obtain ⟨j, q', hj, hq', hcalm, -⟩ := hfounded (i + 1) r hr hunchanged
    obtain rfl : i = j := Nat.succ.inj hj
    obtain rfl : q = q' := Option.some.inj (hq.symm.trans hq')
    exact (watchRound_of_none hnone).2.2 hcalm
  · intro hcarried i r hr hunchanged
    obtain ⟨hcounter, htolerance⟩ := unchanged_iff.mp hunchanged
    cases i with
    | zero =>
        have hstart : r.1 = ⟨0, 0⟩ := play_first hr
        rw [hstart] at htolerance
        exact absurd htolerance (Nat.lt_irrefl 0)
    | succ j =>
        obtain ⟨hlt, -⟩ := List.getElem?_eq_some_iff.mp hr
        have hq := List.getElem?_eq_getElem (Nat.lt_of_succ_lt hlt)
        have hbefore : r.1 = (rounds polls)[j].2.2 := play_adjacent hq hr
        have hnext : (rounds polls)[j].2.2 = _ := play_next (List.getElem_mem _)
        refine ⟨j, _, rfl, hq, ?_⟩
        cases hprevious : (rounds polls)[j].2.1.counter with
        | none => exact absurd ⟨j, _, r, hq, hr, hprevious, htolerance, hcounter⟩ hcarried
        | some n =>
            rw [hbefore, hnext] at htolerance hcounter
            obtain ⟨hcalm, href⟩ := tolerance_used hprevious htolerance
            exact ⟨hcalm, n, rfl, href ▸ hcounter⟩

/-! ### A restart that is not founded -/

/-- A poll with the process present and a counter. -/
def present (n : Int) : Poll := ⟨some 1, fun _ => .found, some n⟩

def absent : Poll := ⟨none, fun _ => .noEntry, some 1⟩

/-- The counter of the new process is that of the old one, and the new process is restarted
when it is seen for the first time. -/
theorem unchanged_after_restart :
    (rounds [present 1, present 1, absent, present 1]).map restart =
        [none, none, some .notRunning, some .unchanged] ∧
      ¬ Founded [present 1, present 1, absent, present 1] := by
  refine ⟨by decide, fun hfounded => ?_⟩
  obtain ⟨j, q, hj, hq, hcalm, -⟩ := hfounded 3 _ rfl (by decide)
  obtain rfl : 2 = j := Nat.succ.inj hj
  cases hq
  exact absurd hcalm (by decide)

end KappaGateway.KappaioWatch

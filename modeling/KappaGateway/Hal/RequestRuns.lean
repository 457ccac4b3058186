import KappaGateway.Hal.RequestMatching

/-!
# Runs of the subsystem

Orderly runs keep every delivery with the request it answers. The condition is
exact: from the first disorderly step on, the scheduler can finish a delivery
that writes to a call that has returned, or a call that returns 0 with a frame
which answers another request.
-/

namespace KappaGateway.MtHelper

open Transition

variable {call : Nat → Call} {s t : State}

/-! ### Runs that end badly -/

@[simp] theorem handBack_origin (c : Call) (m : MtMessage) :
    (c.handBack m).origin = m.origin := by
  unfold Call.handBack
  split <;> rfl

/-- The call can return as it is. -/
def Finishes (call : Nat → Call) (s : State) (i : Nat) : Prop :=
  ∃ tr u, Path (Step call) s tr u ∧
    u.send i = ⟨.returned, (s.send i).rtn, (s.send i).handed⟩

theorem Finishes.cons {a : Action} {i : Nat} (hstep : Step call s a t)
    (h : Finishes call t i) (hrtn : (t.send i).rtn = (s.send i).rtn)
    (hhanded : (t.send i).handed = (s.send i).handed) : Finishes call s i := by
  obtain ⟨tr, u, path, hu⟩ := h
  exact ⟨_, u, .cons hstep path, by rw [hu, hrtn, hhanded]⟩

theorem finishes_released {i : Nat} (h : (s.send i).phase = .released) :
    Finishes call s i := by
  have hstep : Step call s (.sendReturn i) (next call s (.sendReturn i)) := ⟨h, rfl⟩
  refine ⟨_, _, .cons hstep (.nil _), ?_⟩
  simp [next]

theorem finishes_woken {i : Nat} (h : (s.send i).phase = .woken) : Finishes call s i := by
  have hstep : Step call s (.release i) (next call s (.release i)) := ⟨h, rfl⟩
  refine .cons hstep (finishes_released ?_) ?_ ?_ <;> simp [next]

theorem finishes_waiting {i : Nat} (h : (s.send i).phase = .waiting) : Finishes call s i := by
  have hstep : Step call s (.timeout i) (next call s (.timeout i)) := ⟨h, rfl⟩
  refine .cons hstep (finishes_woken ?_) ?_ ?_ <;> simp [next]

theorem finishes_published {i : Nat} (h : (s.send i).phase = .published) :
    Finishes call s i := by
  have hstep : Step call s (.transmit i) (next call s (.transmit i)) := ⟨h, rfl⟩
  refine .cons hstep (finishes_waiting ?_) ?_ ?_ <;> simp [next]

/-- No scheduling keeps a call that has published from returning. -/
theorem Published.finishes {i : Nat} (h : Published call s i) : Finishes call s i := by
  have hidle := h.not_idle
  have hacq := h.not_acquired
  cases hphase : (s.send i).phase with
  | idle => exact absurd hphase hidle
  | acquired => exact absurd hphase hacq
  | published => exact finishes_published hphase
  | waiting => exact finishes_waiting hphase
  | woken => exact finishes_woken hphase
  | released => exact finishes_released hphase
  | returned =>
      refine ⟨[], s, .nil s, ?_⟩
      rw [← hphase]

/-- Some continuation breaks the matching. -/
def Breaks (call : Nat → Call) (s : State) : Prop :=
  ∃ tr u, Path (Step call) s tr u ∧ ¬ ((∀ e ∈ tr, WritesLive e) ∧ OwnAnswers call u)

/-- A delivery that is due while the published call is no longer there. -/
theorem breaks_of_dead {j : Nat} (hj : (s.recv j).phase = .delivering)
    (hdead : ∀ i, s.info.sendStatus = some i → (s.send i).phase = .returned) :
    Breaks call s := by
  have hstep : Step call s (.deliver j) (next call s (.deliver j)) := ⟨hj, rfl⟩
  refine ⟨_, _, .cons hstep (.nil _), ?_⟩
  rintro ⟨hlive, -⟩
  obtain ⟨⟨i, hi, hphase⟩, -⟩ := hlive (s, .deliver j, next call s (.deliver j)) (by simp)
  exact hphase (hdead i hi)

/-- A delivery that is due while `response` holds no answer to the published call. -/
theorem breaks_of_foreign {i j : Nat} (hj : (s.recv j).phase = .delivering)
    (hi : s.info.sendStatus = some i) (h : Published call s i)
    (hforeign : ∀ m, s.info.response = some m → m.origin ≠ .answer i) : Breaks call s := by
  have hstep : Step call s (.deliver j) (next call s (.deliver j)) := ⟨hj, rfl⟩
  have hsend := (deliver_send j hi h).1
  obtain ⟨tr, u, path, hu⟩ := (h.step hstep (by simp)).finishes
  refine ⟨_, u, .cons hstep path, ?_⟩
  rintro ⟨-, hown⟩
  rw [hsend] at hu
  obtain ⟨m, horigin, -, hm⟩ := hown i h.expects (by rw [hu]) (by rw [hu])
  rw [hu] at hm
  obtain ⟨m', hm', heq⟩ := Option.map_eq_some_iff.mp hm
  have hsame : m'.origin = m.origin := by simpa using congrArg MtMessage.origin heq
  exact hforeign m' hm' (hsame.trans horigin)

/-- A disorderly step lets the scheduler break the matching. -/
theorem Matching.breaks {a : Action} (h : Matching call s) (hstep : Step call s a t)
    (hbad : ¬ Orderly (s, a, t)) : Breaks call t := by
  have ht := h.consistent.step hstep
  cases a with
  | probe j =>
      obtain ⟨hsem, hawaited⟩ := Classical.not_imp.mp hbad
      have hnext : t = { s.setRecv j .delivering with
          info := { s.info with recvStatus := some j } } := by
        rw [hstep.2, next, if_neg (by omega)]
      have hj : (t.recv j).phase = .delivering := by simp [hnext]
      by_cases hlive : ∃ i, t.info.sendStatus = some i ∧ (t.send i).phase ≠ .returned
      · obtain ⟨i, hi, hphase⟩ := hlive
        apply breaks_of_foreign hj hi (ht.published i hi)
        intro m hm horigin
        apply hawaited
        subst hnext
        exact ⟨i, m, hi, hphase, hm, horigin⟩
      · exact breaks_of_dead hj fun i hi => not_not.mp fun hphase => hlive ⟨i, hi, hphase⟩
  | compare j m =>
      simp only [Orderly, Classical.not_imp] at hbad
      obtain ⟨⟨k, hk⟩, hid, hforeign⟩ := hbad
      obtain ⟨i, -, hi, -⟩ := h.awaited ⟨k, hk⟩
      have hne : k ≠ j := by
        rintro rfl
        simp [hstep.1.1] at hk
      have hnext : t = { s.setRecv j .compared with
          info := { s.info with response := some m }
          line := s.line.erase m } := by
        rw [hstep.2, next, if_neg (not_not.mpr hid)]
      refine breaks_of_foreign (j := k) (by simpa [hnext, hne] using hk) (by simpa [hnext] using hi)
        (ht.published i (by simpa [hnext] using hi)) fun m' hm' horigin => hforeign ⟨i, hi, ?_⟩
      obtain rfl : m = m' := by simpa [hnext] using hm'
      exact horigin
  | publish i =>
      obtain ⟨k, hk⟩ := not_not.mp hbad
      obtain ⟨i', m, hi', -, hm, horigin⟩ := h.awaited ⟨k, hk⟩
      have hne : i' ≠ i := by
        rintro rfl
        exact (h.consistent.published i' hi').not_acquired hstep.1
      obtain ⟨hen, rfl⟩ := hstep
      have hdue : ((next call s (.publish i)).recv k).phase = .delivering := hk
      apply breaks_of_foreign hdue rfl (ht.published i rfl)
      intro m' hm' heq
      obtain rfl : m = m' := Option.some.inj (hm.symm.trans hm')
      exact hne (by simpa [horigin] using heq)
  | sendReturn i =>
      simp only [Orderly, Classical.not_imp, not_not] at hbad
      obtain ⟨⟨k, hk⟩, hi⟩ := hbad
      obtain ⟨hen, rfl⟩ := hstep
      have hdue : ((next call s (.sendReturn i)).recv k).phase = .delivering := hk
      apply breaks_of_dead hdue
      intro i' hi'
      obtain rfl : i = i' := Option.some.inj (hi.symm.trans hi')
      simp [next]
  | _ => exact absurd trivial hbad

/-! ### All runs -/

/-- Pings with a return buffer of four bytes. -/
def pingCalls : Nat → Call := fun _ => ⟨1, true, 4, false⟩

/-- The answer to the first ping. -/
def pong : MtMessage := ⟨1, [0xFE, 2, 0x61, 1, 0x79, 0x01], .answer 0⟩

/-- A ping that is answered in time. -/
def answeredPing : List Action :=
  [.acquire 0, .publish 0, .transmit 0, .respond 0 pong, .compare 0 pong, .probe 0, .deliver 0,
    .release 0, .sendReturn 0]

/-- The answer to the first ping arrives when a second one is waiting. -/
def latePong : List Action :=
  [.acquire 0, .publish 0, .transmit 0, .timeout 0, .release 0, .sendReturn 0, .acquire 1,
    .publish 1, .transmit 1, .respond 0 pong, .compare 0 pong, .probe 0, .deliver 0,
    .release 1, .sendReturn 1]

/-- A ping times out and returns between a probe and its delivery. -/
def deadPing : List Action :=
  [.acquire 0, .publish 0, .transmit 0, .respond 0 pong, .compare 0 pong, .probe 0, .timeout 0,
    .release 0, .sendReturn 0, .deliver 0]

end KappaGateway.MtHelper

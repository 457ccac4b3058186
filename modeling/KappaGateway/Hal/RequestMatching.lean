import KappaGateway.Lib.Semaphore
import KappaGateway.Hal.MtHelper

/-!
# Which request a response is delivered to

A delivery follows the pointers in the record of the subsystem, whoever put
them there. It reaches the request that the frame answers as long as every
receiver that found the semaphore taken is awaited: by the call that published
last, which has not returned, for the very frame in `response`. The steps that
can end such a wait, or begin a delivery outside of one, are the four below.
-/

namespace KappaGateway.MtHelper

open Transition Semaphore

variable {call : Nat → Call} {s t : State}

/-! ### One delivery -/

section RecvThread

@[simp] theorem setPhase_send (s : State) (i k : Nat) (phase : SendPhase) :
    (s.setPhase i phase).send k =
      if k = i then { s.send i with phase := phase } else s.send k := by
  simp [State.setPhase, Function.update_apply]

@[simp] theorem setRecv_recv_phase (s : State) (j k : Nat) (phase : RecvPhase) :
    ((s.setRecv j phase).recv k).phase = if k = j then phase else (s.recv k).phase := by
  simp only [State.setRecv, Function.update_apply]
  split <;> rfl

@[simp] theorem recvThread_info (s : State) : (recvThread s).info = s.info := by
  unfold recvThread
  split <;> rfl

@[simp] theorem recvThread_line (s : State) : (recvThread s).line = s.line := by
  unfold recvThread
  split <;> rfl

@[simp] theorem recvThread_requests (s : State) : (recvThread s).requests = s.requests := by
  unfold recvThread
  split <;> rfl

@[simp] theorem recvThread_answered (s : State) : (recvThread s).answered = s.answered := by
  unfold recvThread
  split <;> rfl

@[simp] theorem setStatus_recv_phase (s : State) (status : Int) (j : Nat) :
    ((s.setStatus status).recv j).phase = (s.recv j).phase := by
  simp only [State.setStatus]
  split <;> rfl

@[simp] theorem setStatus_send_phase (s : State) (status : Int) (i : Nat) :
    ((s.setStatus status).send i).phase = (s.send i).phase := by
  simp only [State.setStatus]
  split <;> rfl

@[simp] theorem hand_send_phase (s : State) (k : Nat) (m : Option MtMessage) (i : Nat) :
    ((s.hand k m).send i).phase = (s.send i).phase := by
  by_cases h : i = k
  · subst h
    simp [State.hand]
  · simp [State.hand, h]

@[simp] theorem recvThread_recv_phase (s : State) (j : Nat) :
    ((recvThread s).recv j).phase = (s.recv j).phase := by
  unfold recvThread
  split
  · exact setStatus_recv_phase s 1 j
  · exact setStatus_recv_phase (s.hand _ _) 0 j
  · exact setStatus_recv_phase (s.hand _ _) 0 j

@[simp] theorem recvThread_send_phase (s : State) (i : Nat) :
    ((recvThread s).send i).phase = (s.send i).phase.wake := by
  unfold recvThread
  split <;> simp [State.signal]

end RecvThread

/-- What the record says about the call that published last. -/
structure Published (call : Nat → Call) (s : State) (i : Nat) : Prop where
  expects : (call i).expects
  not_idle : (s.send i).phase ≠ .idle
  not_acquired : (s.send i).phase ≠ .acquired
  returnBuffer : s.info.returnBuffer = if (call i).returnBuffer then some i else none
  bufferSize : s.info.bufferSize = (call i).bufferSize
  callback : s.info.callback = if (call i).callback then some i else none

/-- Through the pointers of one call, a delivery hands the frame in `response`
to its caller and touches no other. -/
theorem recvThread_send {i : Nat} (hi : s.info.sendStatus = some i) (h : Published call s i) :
    (recvThread s).send i =
        ⟨(s.send i).phase.wake, 0, s.info.response.map (call i).handBack⟩ ∧
      ∀ k, k ≠ i → ((recvThread s).send k).rtn = (s.send k).rtn ∧
        ((recvThread s).send k).handed = (s.send k).handed := by
  have hbuf := h.returnBuffer
  have hcb := h.callback
  by_cases hc : (call i).callback = true
  · have hhand : (call i).handBack = id := by
      ext m : 1
      simp [Call.handBack, hc]
    rw [if_pos hc] at hcb
    simp only [recvThread, hcb, hhand]
    constructor
    · simp [State.signal, State.setStatus, State.hand, hi]
    · intro k hk
      simp [State.signal, State.setStatus, State.hand, hi, hk, Ne.symm hk]
  · have hhand : (call i).handBack = MtMessage.copied s.info.bufferSize := by
      ext m : 1
      simp [Call.handBack, hc, h.bufferSize]
    have hb : (call i).returnBuffer = true := h.expects.resolve_right hc
    rw [if_neg hc] at hcb
    rw [if_pos hb] at hbuf
    simp only [recvThread, hcb, hbuf, hhand]
    constructor
    · simp [State.signal, State.setStatus, State.hand, hi]
    · intro k hk
      simp [State.signal, State.setStatus, State.hand, hi, hk, Ne.symm hk]

theorem deliver_send {i : Nat} (j : Nat) (hi : s.info.sendStatus = some i)
    (h : Published call s i) :
    (next call s (.deliver j)).send i =
        ⟨(s.send i).phase.wake, 0, s.info.response.map (call i).handBack⟩ ∧
      ∀ k, k ≠ i → ((next call s (.deliver j)).send k).rtn = (s.send k).rtn ∧
        ((next call s (.deliver j)).send k).handed = (s.send k).handed := by
  have hrecv : Published call (s.setRecv j .returned) i :=
    ⟨h.expects, h.not_idle, h.not_acquired, h.returnBuffer, h.bufferSize, h.callback⟩
  exact recvThread_send hi hrecv

/-! ### What holds in every run -/

/-- The phases of an `mtSend` call in their order, with the guards and the
actions that later proofs refer to. -/
inductive Advance (call : Nat → Call) (a : Action) (i : Nat) : SendPhase → SendPhase → Prop
  | sent (h : ¬ (call i).expects) : Advance call a i .idle .returned
  | acquired (h : (call i).expects) : Advance call a i .idle .acquired
  | published (h : a = .publish i) : Advance call a i .acquired .published
  | transmitted : Advance call a i .published .waiting
  | woken : Advance call a i .waiting .woken
  | released : Advance call a i .woken .released
  | returned (h : a = .sendReturn i) : Advance call a i .released .returned

theorem Step.phase {a : Action} (hstep : Step call s a t) (i : Nat) :
    (t.send i).phase = (s.send i).phase ∨
      Advance call a i (s.send i).phase (t.send i).phase := by
  obtain ⟨hen, rfl⟩ := hstep
  cases a with
  | sendOnly k =>
      by_cases hk : i = k
      · subst hk
        right
        simpa [next, hen.1] using Advance.sent hen.2
      · simp [next, hk]
  | acquire k =>
      by_cases hk : i = k
      · subst hk
        right
        simpa [next, hen.1] using Advance.acquired hen.2.1
      · simp [next, hk]
  | publish k | transmit k | timeout k | release k | sendReturn k =>
      by_cases hk : i = k
      · subst hk
        rw [Enabled] at hen
        right
        rw [hen]
        simp only [next, setPhase_send, if_true]
        constructor <;> rfl
      · simp [next, hk]
  | probe j | compare j m =>
      left
      simp only [next]
      split <;> rfl
  | deliver j =>
      simp only [next, recvThread_send_phase]
      simp only [State.setRecv]
      cases (s.send i).phase with
      | waiting => exact Or.inr .woken
      | _ => exact Or.inl rfl
  | post j | respond k m | indicate m => exact Or.inl rfl

/-- Only `publish` writes the pointers of the record. -/
theorem Step.pointers {a : Action} (hstep : Step call s a t) (ha : ∀ i, a ≠ .publish i) :
    t.info.sendStatus = s.info.sendStatus ∧ t.info.returnBuffer = s.info.returnBuffer ∧
      t.info.bufferSize = s.info.bufferSize ∧ t.info.callback = s.info.callback := by
  obtain ⟨-, rfl⟩ := hstep
  cases a with
  | publish i => exact absurd rfl (ha i)
  | probe j | compare j m =>
      simp only [next]
      split <;> exact ⟨rfl, rfl, rfl, rfl⟩
  | deliver j => simp [next, State.setRecv]
  | _ => exact ⟨rfl, rfl, rfl, rfl⟩

/-- Where a step takes the frame in `response` from, and those on the line. -/
theorem Step.frames {a : Action} (hstep : Step call s a t) :
    (∀ m, t.info.response = some m → s.info.response = some m ∨ m ∈ s.line) ∧
      (∀ m ∈ t.line, m ∈ s.line ∨ m.origin = .indication ∨
        ∃ i, m.origin = .answer i ∧ t.answered i = some m) ∧
      ∀ i m, s.answered i = some m → t.answered i = some m := by
  obtain ⟨hen, rfl⟩ := hstep
  cases a with
  | compare j m =>
      simp only [next]
      split
      · exact ⟨fun _ h => Or.inl h, fun _ h => Or.inl (List.mem_of_mem_erase h), fun _ _ h => h⟩
      · refine ⟨fun _ h => Or.inr ?_, fun _ h => Or.inl (List.mem_of_mem_erase h),
          fun _ _ h => h⟩
        exact Option.some.inj h ▸ hen.2
  | probe j =>
      simp only [next]
      split <;> exact ⟨fun _ h => Or.inl h, fun _ h => Or.inl h, fun _ _ h => h⟩
  | deliver j =>
      simp only [next, recvThread_info, recvThread_line, recvThread_answered]
      exact ⟨fun _ h => Or.inl h, fun _ h => Or.inl h, fun _ _ h => h⟩
  | respond k m =>
      obtain ⟨horigin, -, hfresh⟩ := hen
      refine ⟨fun _ h => Or.inl h, ?_, ?_⟩
      · rintro m' hm'
        rcases List.mem_cons.mp hm' with rfl | hmem
        · exact Or.inr (Or.inr ⟨k, horigin, by simp [next]⟩)
        · exact Or.inl hmem
      · intro i m' hi
        have hik : i ≠ k := by
          rintro rfl
          simp [hfresh] at hi
        simpa [next, hik] using hi
  | indicate m =>
      refine ⟨fun _ h => Or.inl h, ?_, fun _ _ h => h⟩
      rintro m' hm'
      rcases List.mem_cons.mp hm' with rfl | hmem
      · exact Or.inr (Or.inl hen)
      · exact Or.inl hmem
  | _ => exact ⟨fun _ h => Or.inl h, fun _ h => Or.inl h, fun _ _ h => h⟩

/-- The record speaks of a call that has published, and every frame that claims
to be an answer is one. -/
structure Consistent (call : Nat → Call) (s : State) : Prop where
  acquired : ∀ i, (s.send i).phase = .acquired → (call i).expects
  published : ∀ i, s.info.sendStatus = some i → Published call s i
  line : ∀ m ∈ s.line, ∀ i, m.origin = .answer i → s.answered i = some m
  response : ∀ m, s.info.response = some m → ∀ i, m.origin = .answer i → s.answered i = some m

theorem mtHelperInit_consistent (call : Nat → Call) : Consistent call mtHelperInit := by
  constructor <;> simp [mtHelperInit]

theorem Published.step {a : Action} {i : Nat} (h : Published call s i)
    (hstep : Step call s a t) (ha : ∀ k, a ≠ .publish k) : Published call t i := by
  obtain ⟨-, hbuf, hsize, hcb⟩ := hstep.pointers ha
  have hidle := h.not_idle
  have hacq := h.not_acquired
  have hphase : (t.send i).phase ≠ .idle ∧ (t.send i).phase ≠ .acquired := by
    rcases hstep.phase i with heq | hadv
    · exact heq ▸ ⟨hidle, hacq⟩
    · generalize (s.send i).phase = p at *
      generalize (t.send i).phase = q at *
      cases hadv <;> simp_all
  exact ⟨h.expects, hphase.1, hphase.2, hbuf.trans h.returnBuffer, hsize.trans h.bufferSize,
    hcb.trans h.callback⟩

theorem publish_published {i : Nat} (h : Consistent call s)
    (hen : Enabled call s (.publish i)) : Published call (next call s (.publish i)) i := by
  constructor <;> simp [next, h.acquired i hen]

theorem Consistent.step {a : Action} (h : Consistent call s) (hstep : Step call s a t) :
    Consistent call t := by
  obtain ⟨hresponse, hline, hanswered⟩ := hstep.frames
  constructor
  · intro i hi
    rcases hstep.phase i with heq | hadv
    · exact h.acquired i (heq ▸ hi)
    · rw [hi] at hadv
      generalize (s.send i).phase = p at hadv
      cases hadv with
      | acquired hexp => exact hexp
  · intro i hi
    by_cases ha : ∃ k, a = .publish k
    · obtain ⟨k, rfl⟩ := ha
      obtain ⟨hen, rfl⟩ := hstep
      obtain rfl : k = i := Option.some.inj hi
      exact publish_published h hen
    · have ha : ∀ k, a ≠ .publish k := fun k hk => ha ⟨k, hk⟩
      exact (h.published i ((hstep.pointers ha).1 ▸ hi)).step hstep ha
  · rintro m hm i horigin
    rcases hline m hm with hmem | hind | ⟨k, hk, hans⟩
    · exact hanswered i m (h.line m hmem i horigin)
    · simp [hind] at horigin
    · obtain rfl : k = i := by simpa [hk] using horigin
      exact hans
  · rintro m hm i horigin
    rcases hresponse m hm with hold | hmem
    · exact hanswered i m (h.response m hold i horigin)
    · exact hanswered i m (h.line m hmem i horigin)

/-- Only a delivery changes what a waiting caller gets. -/
theorem Step.results {a : Action} (hstep : Step call s a t) (ha : ∀ j, a ≠ .deliver j) {i : Nat}
    (hexp : (call i).expects) :
    (t.send i).rtn = (s.send i).rtn ∧ (t.send i).handed = (s.send i).handed := by
  obtain ⟨hen, rfl⟩ := hstep
  cases a with
  | sendOnly k =>
      have hik : i ≠ k := by
        rintro rfl
        exact hen.2 hexp
      simp [next, hik]
  | acquire k | publish k | transmit k | timeout k | release k | sendReturn k =>
      simp only [next, setPhase_send]
      split
      · rename_i hik
        exact hik ▸ ⟨rfl, rfl⟩
      · exact ⟨rfl, rfl⟩
  | probe j | compare j m =>
      simp only [next]
      split <;> exact ⟨rfl, rfl⟩
  | deliver j => exact absurd rfl (ha j)
  | _ => exact ⟨rfl, rfl⟩

/-! ### The semaphore -/

/-- The phases in which an `mtSend` call has the semaphore. -/
def SendPhase.taken : List SendPhase := [.acquired, .published, .waiting, .woken]

/-- The `mtSend` and `mtRecv` calls that have taken the semaphore. -/
def Holds (send : Nat → SendCall) (recv : Nat → RecvCall) : Nat ⊕ Nat → Prop
  | .inl i => (send i).phase ∈ SendPhase.taken
  | .inr j => (recv j).phase = .probing

theorem holds_setPhase (s : State) (i : Nat) (phase : SendPhase) (b : Nat ⊕ Nat) :
    Holds (s.setPhase i phase).send (s.setPhase i phase).recv b ↔
      if b = .inl i then phase ∈ SendPhase.taken else Holds s.send s.recv b := by
  cases b with
  | inl k =>
      simp only [Holds, setPhase_send, Sum.inl.injEq]
      split <;> rfl
  | inr k => simp [Holds, State.setPhase]

theorem holds_setRecv (s : State) (j : Nat) (phase : RecvPhase) (b : Nat ⊕ Nat) :
    Holds (s.setRecv j phase).send (s.setRecv j phase).recv b ↔
      if b = .inr j then phase = .probing else Holds s.send s.recv b := by
  cases b with
  | inl k => simp [Holds, State.setRecv]
  | inr k =>
      simp only [Holds, setRecv_recv_phase, Sum.inr.injEq]
      split <;> rfl

theorem wake_taken (phase : SendPhase) :
    phase.wake ∈ SendPhase.taken ↔ phase ∈ SendPhase.taken := by
  cases phase <;> decide

/-- A step between two phases of `mtSend` that both have the semaphore, or both not. -/
theorem holds_setPhase_same {i : Nat} {phase : SendPhase}
    (h : phase ∈ SendPhase.taken ↔ (s.send i).phase ∈ SendPhase.taken) (b : Nat ⊕ Nat) :
    Holds (s.setPhase i phase).send (s.setPhase i phase).recv b ↔ Holds s.send s.recv b := by
  rw [holds_setPhase]
  split
  · rename_i hb
    rw [h, hb, Holds]
  · rfl

theorem holds_setRecv_same {j : Nat} {phase : RecvPhase} (hphase : phase ≠ .probing)
    (h : (s.recv j).phase ≠ .probing) (b : Nat ⊕ Nat) :
    Holds (s.setRecv j phase).send (s.setRecv j phase).recv b ↔ Holds s.send s.recv b := by
  rw [holds_setRecv]
  split
  · rename_i hb
    simp [hb, Holds, hphase, h]
  · rfl

/-- Who has the semaphore, counting a probe as long as it has not posted. -/
theorem exclusive_step {a : Action} (h : Exclusive s.info.sem (Holds s.send s.recv))
    (hstep : Step call s a t) : Exclusive t.info.sem (Holds t.send t.recv) := by
  obtain ⟨hen, rfl⟩ := hstep
  cases a with
  | sendOnly i =>
      apply h.congr
      intro b
      cases b with
      | inl k =>
          by_cases hk : k = i
          · simp [Holds, next, hk, hen.1, SendPhase.taken]
          · simp [Holds, next, hk]
      | inr k => rfl
  | publish i | transmit i | timeout i | sendReturn i =>
      rw [Enabled] at hen
      exact h.congr (holds_setPhase_same (by rw [hen]; decide))
  | acquire i =>
      apply h.take (a := .inl i) hen.2.2
      intro b
      simp only [next, holds_setPhase]
      by_cases hb : b = .inl i <;> simp [hb, SendPhase.taken]
  | release i =>
      rw [Enabled] at hen
      apply h.give (a := .inl i) (by simp [Holds, hen, SendPhase.taken])
      intro b
      simp only [next, holds_setPhase]
      by_cases hb : b = .inl i <;> simp [hb, SendPhase.taken]
  | compare j m =>
      have hidle : (s.recv j).phase ≠ .probing := by simp [hen.1]
      simp only [next]
      split
      · exact h.congr (holds_setRecv_same (by decide) hidle)
      · exact h.congr (holds_setRecv_same (by decide) hidle)
  | probe j =>
      rw [Enabled] at hen
      have hcompared : (s.recv j).phase ≠ .probing := by simp [hen]
      simp only [next]
      split
      · rename_i hsem
        apply h.take (a := .inr j) hsem
        intro b
        simp only [holds_setRecv]
        by_cases hb : b = .inr j <;> simp [hb]
      · have hphase : RecvPhase.delivering ≠ .probing := by decide
        exact h.congr (holds_setRecv_same hphase hcompared)
  | post j =>
      rw [Enabled] at hen
      apply h.give (a := .inr j) (by simp [Holds, hen])
      intro b
      simp only [next, holds_setRecv]
      by_cases hb : b = .inr j <;> simp [hb]
  | deliver j =>
      rw [Enabled] at hen
      have hdelivering : (s.recv j).phase ≠ .probing := by simp [hen]
      have hphase : RecvPhase.returned ≠ .probing := by decide
      simp only [next, recvThread_info]
      refine h.congr fun b => Iff.trans ?_ (holds_setRecv_same hphase hdelivering b)
      cases b with
      | inl k => simp only [Holds, recvThread_send_phase, wake_taken]
      | inr k => simp only [Holds, recvThread_recv_phase]
  | respond i m | indicate m => exact h

/-- At most one call waits on the condition variable. -/
theorem waiting_unique {tr : Trace} (path : Path (Step call) mtHelperInit tr s) {i k : Nat}
    (hi : (s.send i).phase = .waiting) (hk : (s.send k).phase = .waiting) : i = k := by
  have hinit : Exclusive mtHelperInit.info.sem (Holds mtHelperInit.send mtHelperInit.recv) := by
    refine Or.inl ⟨rfl, fun b => ?_⟩
    cases b <;> simp [Holds, mtHelperInit, SendPhase.taken]
  have hok : ∀ e ∈ tr, True := fun _ _ => trivial
  have h := (path.invariant (fun _ _ _ hinv hstep _ => exclusive_step hinv hstep) hinit hok).1
  have hboth := h.unique (a := .inl i) (b := .inl k) (by simp [Holds, hi, SendPhase.taken])
    (by simp [Holds, hk, SendPhase.taken])
  exact Sum.inl.inj hboth

/-! ### The waits of the receivers -/

/-- Some receiver has found the semaphore taken and is still to deliver. -/
def Pending (s : State) : Prop := ∃ j, (s.recv j).phase = .delivering

/-- The call that published last has not returned, and `response` holds the
answer to it. -/
def Awaited (s : State) : Prop :=
  ∃ i m, s.info.sendStatus = some i ∧ (s.send i).phase ≠ .returned ∧
    s.info.response = some m ∧ m.origin = .answer i

/-- A probe finds the semaphore taken only where the delivery is awaited; until
that has run, no frame but the awaited one passes the comparison, no call
publishes, and the call with the published pointers does not return. -/
def Orderly : State × Action × State → Prop
  | (s, .probe _, _) => s.info.sem = 0 → Awaited s
  | (s, .compare _ m, _) =>
      Pending s → s.info.rspCmdId = m.cmdId →
        ∃ i, s.info.sendStatus = some i ∧ m.origin = .answer i
  | (s, .publish _, _) => ¬ Pending s
  | (s, .sendReturn i, _) => Pending s → s.info.sendStatus ≠ some i
  | _ => True

/-- A delivery stores through `sendStatus` and `returnBuffer` only while the
calls they belong to have not returned. -/
def WritesLive : State × Action × State → Prop
  | (s, .deliver _, _) =>
      (∃ i, s.info.sendStatus = some i ∧ (s.send i).phase ≠ .returned) ∧
        ∀ i, s.info.returnBuffer = some i → (s.send i).phase ≠ .returned
  | _ => True

/-- A call that returned 0 gave its caller what the dongle answered to it. -/
def OwnAnswers (call : Nat → Call) (s : State) : Prop :=
  ∀ i, (call i).expects → (s.send i).phase = .returned → (s.send i).rtn = 0 →
    ∃ m, m.origin = .answer i ∧ s.answered i = some m ∧
      (s.send i).handed = some ((call i).handBack m)

/-- The invariant of orderly runs. -/
structure Matching (call : Nat → Call) (s : State) : Prop where
  consistent : Consistent call s
  awaited : Pending s → Awaited s
  own : ∀ i, (call i).expects → (s.send i).rtn = 0 →
    ∃ m, m.origin = .answer i ∧ s.answered i = some m ∧
      (s.send i).handed = some ((call i).handBack m)

theorem mtHelperInit_matching (call : Nat → Call) : Matching call mtHelperInit := by
  refine ⟨mtHelperInit_consistent call, ?_, ?_⟩
  · rintro ⟨j, hj⟩
    simp [mtHelperInit] at hj
  · intro i _ hrtn
    simp [mtHelperInit] at hrtn

theorem Step.pending {a : Action} (hstep : Step call s a t) (hp : Pending t) :
    Pending s ∨ s.info.sem = 0 ∧ ∃ j, a = .probe j := by
  obtain ⟨hen, rfl⟩ := hstep
  obtain ⟨k, hk⟩ := hp
  cases a with
  | probe j =>
      simp only [next] at hk
      split at hk
      · by_cases hkj : k = j
        · simp [hkj] at hk
        · exact Or.inl ⟨k, by simpa [hkj] using hk⟩
      · exact Or.inr ⟨by omega, j, rfl⟩
  | compare j m =>
      left
      by_cases hkj : k = j
      · simp only [next] at hk
        split at hk <;> simp [hkj] at hk
      · simp only [next] at hk
        split at hk <;> exact ⟨k, by simpa [hkj] using hk⟩
  | post j =>
      by_cases hkj : k = j
      · simp [next, hkj] at hk
      · exact Or.inl ⟨k, by simpa [next, hkj] using hk⟩
  | deliver j =>
      by_cases hkj : k = j
      · simp [next, hkj] at hk
      · exact Or.inl ⟨k, by simpa [next, hkj] using hk⟩
  | _ => exact Or.inl ⟨k, hk⟩

/-- The frame in `response` changes only where another one passes the comparison. -/
theorem Step.response {a : Action} (hstep : Step call s a t) :
    t.info.response = s.info.response ∨
      ∃ j m, a = .compare j m ∧ s.info.rspCmdId = m.cmdId ∧ t.info.response = some m := by
  obtain ⟨-, rfl⟩ := hstep
  cases a with
  | compare j m =>
      simp only [next]
      split
      · exact Or.inl rfl
      · rename_i heq
        exact Or.inr ⟨j, m, rfl, not_not.mp heq, rfl⟩
  | probe j =>
      left
      simp only [next]
      split <;> rfl
  | deliver j => exact Or.inl (by simp [next, State.setRecv])
  | _ => exact Or.inl rfl

theorem Published.not_returned {a : Action} {i : Nat} (h : Published call s i)
    (hstep : Step call s a t) (ha : a ≠ .sendReturn i) (hlive : (s.send i).phase ≠ .returned) :
    (t.send i).phase ≠ .returned := by
  rcases hstep.phase i with heq | hadv
  · exact heq ▸ hlive
  · intro ht
    rw [ht] at hadv
    generalize (s.send i).phase = p at hadv
    cases hadv with
    | sent hexp => exact hexp h.expects
    | returned heq => exact ha heq

theorem Matching.step {a : Action} (h : Matching call s) (hstep : Step call s a t)
    (hok : Orderly (s, a, t)) : Matching call t := by
  refine ⟨h.consistent.step hstep, ?_, ?_⟩
  · intro hp
    have hs : Awaited s := by
      rcases hstep.pending hp with hp' | ⟨hsem, j, rfl⟩
      · exact h.awaited hp'
      · exact hok hsem
    obtain ⟨i, m, hi, hlive, hm, horigin⟩ := hs
    have hpublish : ∀ k, a ≠ .publish k := by
      rintro k rfl
      obtain hp' | ⟨-, j, hj⟩ := hstep.pending hp
      · exact hok hp'
      · cases hj
    have hreturn : a ≠ .sendReturn i := by
      rintro rfl
      obtain hp' | ⟨-, j, hj⟩ := hstep.pending hp
      · exact hok hp' hi
      · cases hj
    have hstatus := (hstep.pointers hpublish).1.trans hi
    have halive := (h.consistent.published i hi).not_returned hstep hreturn hlive
    rcases hstep.response with hsame | ⟨j, m', rfl, hid, hm'⟩
    · exact ⟨i, m, hstatus, halive, hsame.trans hm, horigin⟩
    · obtain hp' | ⟨-, k, hk⟩ := hstep.pending hp
      · obtain ⟨i', hi', horigin'⟩ := hok hp' hid
        obtain rfl : i = i' := Option.some.inj (hi.symm.trans hi')
        exact ⟨i, m', hstatus, halive, hm', horigin'⟩
      · cases hk
  · intro i hexp hrtn
    obtain ⟨-, -, hanswered⟩ := hstep.frames
    have hsame : (s.send i).rtn = 0 → (t.send i).handed = (s.send i).handed →
        ∃ m, m.origin = .answer i ∧ t.answered i = some m ∧
          (t.send i).handed = some ((call i).handBack m) := by
      intro hrtn' hhanded
      obtain ⟨m, horigin, hans, hm⟩ := h.own i hexp hrtn'
      exact ⟨m, horigin, hanswered i m hans, hhanded.trans hm⟩
    by_cases ha : ∃ j, a = .deliver j
    · obtain ⟨j, rfl⟩ := ha
      obtain ⟨hen, rfl⟩ := hstep
      obtain ⟨k, m, hk, -, hm, horigin⟩ := h.awaited ⟨j, hen⟩
      have hdelivery := deliver_send j hk (h.consistent.published k hk)
      by_cases hik : i = k
      · subst hik
        refine ⟨m, horigin, hanswered i m (h.consistent.response m hm i horigin), ?_⟩
        simp [hdelivery.1, hm]
      · obtain ⟨hrtn', hhanded⟩ := hdelivery.2 i hik
        exact hsame (hrtn'.symm.trans hrtn) hhanded
    · obtain ⟨hrtn', hhanded⟩ := hstep.results (fun j hj => ha ⟨j, hj⟩) hexp
      exact hsame (hrtn'.symm.trans hrtn) hhanded

theorem Matching.writesLive {a : Action} (h : Matching call s) (hstep : Step call s a t) :
    WritesLive (s, a, t) := by
  cases a with
  | deliver j =>
      obtain ⟨i, m, hi, hlive, -, -⟩ := h.awaited ⟨j, hstep.1⟩
      refine ⟨⟨i, hi, hlive⟩, fun k hk => ?_⟩
      rw [(h.consistent.published i hi).returnBuffer] at hk
      split at hk
      · exact Option.some.inj hk ▸ hlive
      · simp at hk
  | _ => trivial

end KappaGateway.MtHelper

import Mathlib.Data.List.Basic

/-!
# Decisions that rest on pings

`StartSystem` and `StateMonitor` read a record that `systemPing` writes when the ping is
answered. They do not look at what it returns, so after a failure they read what an
earlier ping has left, or what was on the stack.
-/

namespace KappaGateway.Bootstrap

def MINIUM_FAILED_PING_WAIT_SEC : Int := 40

/-- `processorStatus_t`, without a field that nothing writes or reads. -/
structure ProcessorStatus where
  capability : UInt16
  operationState : UInt8
  deriving DecidableEq

/-- What a call of `systemPing` gets from outside: the time, `result` unless
`mt_sysping_req` fails, and the time after that. -/
structure Ping where
  now : Int
  result : Option (Vector UInt8 4)
  later : Int

/-- `consecutiveFailedPing`, the file `KAPPAIO_LAST_FAILED_PING`, and the record of the
caller. -/
structure State where
  consecutiveFailedPing : Nat
  lastFailedPing : Option Int
  status : ProcessorStatus

/-! ### `systemPing` -/

/-- What a response reports, in little-endian order. -/
def reported (result : Vector UInt8 4) : ProcessorStatus :=
  ⟨UInt16.ofNat (result[0].toNat + 256 * result[1].toNat), result[2]⟩

/-- The seconds that `systemPing` waits before the ping. -/
def pingWait (ping : Ping) (s : State) : Int :=
  let timeLapse := ping.now - s.lastFailedPing.getD 0
  if timeLapse < MINIUM_FAILED_PING_WAIT_SEC then MINIUM_FAILED_PING_WAIT_SEC - timeLapse else 0

/-- `systemPing`: the state afterwards, and the return value. -/
def systemPing (ping : Ping) (s : State) : State × Int :=
  let s := { s with lastFailedPing := some (s.lastFailedPing.getD 0) }
  match ping.result with
  | some result => ({ s with status := reported result, consecutiveFailedPing := 0 }, 0)
  | none =>
      if s.consecutiveFailedPing > 3 then ({ s with lastFailedPing := some ping.later }, -1)
      else ({ s with consecutiveFailedPing := s.consecutiveFailedPing + 1 }, -1)

theorem status_of_answered {ping : Ping} {result : Vector UInt8 4} (h : ping.result = some result)
    (s : State) : (systemPing ping s).1.status = reported result := by
  rw [systemPing, h]

theorem status_of_failed {ping : Ping} (h : ping.result = none) (s : State) :
    (systemPing ping s).1.status = s.status := by
  simp only [systemPing, h]
  split
  · rfl
  · rfl

/-! ### The loops -/

/-- A round: the state before it, the ping, and what was done after it. -/
structure Round (D : Type*) where
  before : State
  ping : Ping
  decision : D

/-- A loop that pings and decides, until a decision ends it or the pings end. -/
def pingLoop {D : Type*} (decide : ProcessorStatus → D) (ends : D → Bool) (s : State) :
    List Ping → List (Round D)
  | [] => []
  | ping :: rest =>
      let t := (systemPing ping s).1
      let decision := decide t.status
      ⟨s, ping, decision⟩ :: if ends decision then [] else pingLoop decide ends t rest

/-- What `StartSystem` does after a ping: it sends the boot command, logs that there is no
firmware, leaves its loop, or does nothing. -/
inductive StartDecision where
  | boot
  | noFirmware
  | normal
  | wait
  deriving DecidableEq

def startDecision (status : ProcessorStatus) : StartDecision :=
  if status.capability = 0x3275 then .boot
  else if status.capability = 0x32b5 then .noFirmware
  else if status.capability = 0x0059 ∧ status.operationState = 0x02 then .normal
  else .wait

/-- `cmdType`, `cmdId` and the data of what is sent. -/
def StartDecision.command : StartDecision → Option (UInt8 × UInt8 × List UInt8)
  | .boot => some (0x21, 0x4b, [])
  | _ => none

/-- What `StateMonitor` does after a ping. -/
inductive MonitorDecision where
  | exit
  | goOn
  deriving DecidableEq

def monitorDecision (status : ProcessorStatus) : MonitorDecision :=
  if status.capability ≠ 0x0059 then .exit else .goOn

/-- `StartSystem`, with what is in its record at first. -/
def StartSystem (s : State) (pings : List Ping) : List (Round StartDecision) :=
  pingLoop startDecision (· = .normal) s pings

def StateMonitor (s : State) (pings : List Ping) : List (Round MonitorDecision) :=
  pingLoop monitorDecision (· = .exit) s pings

/-! ### Decisions and reports -/

section

variable {D : Type*} {decide : ProcessorStatus → D} {ends : D → Bool} {s : State}
  {pings : List Ping} {r : Round D}

/-- The ping of the round was answered with such a report. -/
def Round.Reports (r : Round D) (p : ProcessorStatus → Prop) : Prop :=
  ∃ result ∈ r.ping.result, p (reported result)

/-- Every decision is made on the record after the ping. -/
theorem decision_of_mem (h : r ∈ pingLoop decide ends s pings) :
    r.decision = decide (systemPing r.ping r.before).1.status := by
  induction pings generalizing s with
  | nil => cases h
  | cons ping rest ih =>
      rcases List.mem_cons.mp h with rfl | h
      · rfl
      · split at h
        · cases h
        · exact ih h

/-- A decision that is made on records of one kind rests on a report of that kind, unless
the ping fails and the record before it is of that kind. -/
theorem founded_iff (q : D → Prop) (p : ProcessorStatus → Prop)
    (hq : ∀ status, q (decide status) ↔ p status) (h : r ∈ pingLoop decide ends s pings) :
    (q r.decision → r.Reports p) ↔ (r.ping.result = none → ¬ p r.before.status) := by
  rw [decision_of_mem h, hq]
  cases hping : r.ping.result with
  | none =>
      have hnone : ¬ r.Reports p := by
        rintro ⟨result, hresult, -⟩
        rw [hping] at hresult
        cases hresult
      rw [status_of_failed hping, imp_iff_right rfl]
      exact ⟨fun himp hp => hnone (himp hp), fun hnot hp => absurd hp hnot⟩
  | some result =>
      rw [status_of_answered hping]
      refine iff_of_true (fun hp => ⟨result, hping, hp⟩) fun hnone => ?_
      cases hnone

end

/-- The records on which `StartSystem` leaves its loop. -/
def Normal (status : ProcessorStatus) : Prop :=
  status.capability = 0x0059 ∧ status.operationState = 0x02

/-- `StartSystem` acts on what the ping before has reported. -/
structure StartFounded (r : Round StartDecision) : Prop where
  normal : r.decision = .normal → r.Reports Normal
  boot : r.decision.command = some (0x21, 0x4b, []) → r.Reports (·.capability = 0x3275)

/-- `StateMonitor` exits on what the ping before has reported. -/
def MonitorFounded (r : Round MonitorDecision) : Prop :=
  r.decision = .exit → r.Reports (·.capability ≠ 0x0059)

theorem startDecision_normal (status : ProcessorStatus) :
    startDecision status = .normal ↔ Normal status := by
  rw [startDecision, Normal]
  split_ifs with hboot hinvalid hnormal
  · simp [hboot]
  · simp [hinvalid]
  · simp [hnormal]
  · simp [hnormal]

theorem startDecision_boot (status : ProcessorStatus) :
    (startDecision status).command = some (0x21, 0x4b, []) ↔ status.capability = 0x3275 := by
  rw [startDecision]
  split_ifs with hboot hinvalid hnormal
  · exact iff_of_true rfl hboot
  · simp [StartDecision.command, hboot]
  · simp [StartDecision.command, hboot]
  · simp [StartDecision.command, hboot]

theorem monitorDecision_exit (status : ProcessorStatus) :
    monitorDecision status = .exit ↔ status.capability ≠ 0x0059 := by
  rw [monitorDecision]
  split_ifs with hother
  · exact iff_of_true rfl hother
  · simp [hother]

/-- For all pings and whatever is in the records at first, the decisions of both loops rest
on reports if and only if no ping fails while the record is one that they act on. -/
theorem bootstrap_founded_iff (s : State) (pings : List Ping) :
    ((∀ r ∈ StartSystem s pings, StartFounded r) ↔
      ∀ r ∈ StartSystem s pings, r.ping.result = none →
        ¬ Normal r.before.status ∧ r.before.status.capability ≠ 0x3275) ∧
    ((∀ r ∈ StateMonitor s pings, MonitorFounded r) ↔
      ∀ r ∈ StateMonitor s pings, r.ping.result = none →
        r.before.status.capability = 0x0059) := by
  constructor
  · apply forall₂_congr
    intro r hr
    have hnormal := founded_iff (· = .normal) Normal startDecision_normal hr
    have hboot := founded_iff (·.command = some (0x21, 0x4b, [])) (·.capability = 0x3275)
      startDecision_boot hr
    rw [imp_and, ← hnormal, ← hboot]
    exact ⟨fun h => ⟨h.normal, h.boot⟩, fun h => ⟨h.1, h.2⟩⟩
  · apply forall₂_congr
    intro r hr
    have hexit := founded_iff (· = .exit) (·.capability ≠ 0x0059) monitorDecision_exit hr
    rw [not_not] at hexit
    exact hexit

/-! ### Pings that fail -/

def answered (result : Vector UInt8 4) : Ping := ⟨1000, some result, 1000⟩

def failed : Ping := ⟨1000, none, 1000⟩

/-- What may be in a record at first. -/
def zeroStatus : State := ⟨0, none, ⟨0, 0⟩⟩

/-- After a report of a valid image, the next ping fails, and the boot command is sent once
more. `StateMonitor` exits when its first ping fails. -/
theorem bootstrap_unfounded :
    (StartSystem zeroStatus [answered #v[0x75, 0x32, 0, 0], failed]).map (·.decision) =
        [.boot, .boot] ∧
      ¬ (∀ r ∈ StartSystem zeroStatus [answered #v[0x75, 0x32, 0, 0], failed],
        StartFounded r) ∧
      ¬ ∀ r ∈ StateMonitor zeroStatus [failed], MonitorFounded r := by
  have hnothing : ∀ {D : Type} (before : State) (decision : D) (p : ProcessorStatus → Prop),
      ¬ (Round.mk before failed decision).Reports p := by
    rintro D before decision p ⟨result, hresult, -⟩
    cases hresult
  refine ⟨rfl, fun h => ?_, fun h => ?_⟩
  · have hsecond := h _ (List.mem_cons_of_mem _ List.mem_cons_self)
    exact hnothing _ _ _ (hsecond.boot rfl)
  · exact hnothing _ _ _ (h _ List.mem_cons_self rfl)

end KappaGateway.Bootstrap

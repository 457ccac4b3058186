import Mathlib.Logic.Function.Basic
import KappaGateway.Lib.Transition

/-!
# Requests and responses of one MT subsystem

`mtSend` publishes the addresses of its caller's buffer and of its own `rtn` in
the record of the subsystem, and waits on the condition variable of the record.
`mtRecv` finds them there. The only link between a request and a frame is the
command id. Calls of either function are numbered; what lies between two
accesses to the shared record is one step of the relation below, and the bodies
of `sendThread` and `recvThread`, which hold the mutex, are one step each.
-/

namespace KappaGateway.MtHelper

open Transition

/-- What made the dongle send a frame. -/
inductive Origin where
  | answer (request : Nat)
  | indication
  deriving DecidableEq

/-- A frame as `mtRecv` overlays it with `mtMessage_t`; `cmdId` is one of its bytes. -/
structure MtMessage where
  cmdId : UInt8
  bytes : List UInt8
  origin : Origin
  deriving DecidableEq

/-- The arguments of an `mtSend` call: the two flags say which pointers are not `NULL`. -/
structure Call where
  rspCmdId : UInt8
  returnBuffer : Bool
  bufferSize : Nat
  callback : Bool

/-- The call waits for its response. -/
def Call.expects (c : Call) : Prop := c.returnBuffer = true ∨ c.callback = true

instance (c : Call) : Decidable c.expects :=
  inferInstanceAs (Decidable (_ ∨ _))

/-- `memcpy` of the first `bufferSize` bytes. -/
def MtMessage.copied (bufferSize : Nat) (m : MtMessage) : MtMessage :=
  { m with bytes := m.bytes.take bufferSize }

/-- What the caller of `mtSend` gets from a frame: all of it through the
callback, else the bytes that fit the return buffer. -/
def Call.handBack (c : Call) (m : MtMessage) : MtMessage :=
  if c.callback then m else m.copied c.bufferSize

/-- How far an `mtSend` call is. -/
inductive SendPhase where
  | idle
  | acquired
  | published
  | waiting
  | woken
  | released
  | returned
  deriving DecidableEq

/-- A signal on the condition variable. -/
def SendPhase.wake : SendPhase → SendPhase
  | .waiting => .woken
  | phase => phase

/-- An `mtSend` call: `rtn`, and the frame its caller got last. -/
structure SendCall where
  phase : SendPhase
  rtn : Int
  handed : Option MtMessage

/-- How far an `mtRecv` call is. -/
inductive RecvPhase where
  | idle
  | compared
  | probing
  | delivering
  | returned
  deriving DecidableEq

structure RecvCall where
  phase : RecvPhase
  returnStatus : Int

/-- `mtMessageResource[subsystem]`. A pointer is the number of the call that
owns its target, `none` for `NULL`. -/
structure MtMessageResource where
  sem : Nat
  rspCmdId : UInt8
  request : Option Nat
  response : Option MtMessage
  returnBuffer : Option Nat
  bufferSize : Nat
  callback : Option Nat
  recvStatus : Option Nat
  sendStatus : Option Nat

/-- The record, the calls, the frames on their way from the dongle, and the
requests that the dongle has received, with its answers. -/
structure State where
  info : MtMessageResource
  send : Nat → SendCall
  recv : Nat → RecvCall
  line : List MtMessage
  requests : List Nat
  answered : Nat → Option MtMessage

/-- `mtHelperInit`: static memory is zero and the semaphore is free. -/
def mtHelperInit : State where
  info := ⟨1, 0, none, none, none, 0, none, none, none⟩
  send := fun _ => ⟨.idle, -1, none⟩
  recv := fun _ => ⟨.idle, -1⟩
  line := []
  requests := []
  answered := fun _ => none

namespace State

def setPhase (s : State) (i : Nat) (phase : SendPhase) : State :=
  { s with send := Function.update s.send i { s.send i with phase := phase } }

def setRecv (s : State) (j : Nat) (phase : RecvPhase) : State :=
  { s with recv := Function.update s.recv j { s.recv j with phase := phase } }

/-- The stores through `sendStatus` and `recvStatus`. -/
def setStatus (s : State) (status : Int) : State :=
  { s with
    send := fun i =>
      if s.info.sendStatus = some i then { s.send i with rtn := status } else s.send i
    recv := fun j =>
      if s.info.recvStatus = some j then { s.recv j with returnStatus := status }
      else s.recv j }

/-- The caller of `mtSend` call `i` gets a frame. -/
def hand (s : State) (i : Nat) (m : Option MtMessage) : State :=
  { s with send := Function.update s.send i { s.send i with handed := m } }

/-- `pthread_cond_signal`; by `waiting_unique` at most one call waits. -/
def signal (s : State) : State :=
  { s with send := fun i => { s.send i with phase := (s.send i).phase.wake } }

end State

/-- `recvThread`. -/
def recvThread (s : State) : State :=
  match s.info.callback, s.info.returnBuffer with
  | none, none => (s.setStatus 1).signal
  | none, some i =>
      ((s.hand i (s.info.response.map (MtMessage.copied s.info.bufferSize))).setStatus 0).signal
  | some i, _ => ((s.hand i s.info.response).setStatus 0).signal

/-- The steps of `mtSend` call `i`, of `mtRecv` call `j`, and of the dongle. -/
inductive Action where
  | sendOnly (i : Nat)
  | acquire (i : Nat)
  | publish (i : Nat)
  | transmit (i : Nat)
  | timeout (i : Nat)
  | release (i : Nat)
  | sendReturn (i : Nat)
  | compare (j : Nat) (m : MtMessage)
  | probe (j : Nat)
  | post (j : Nat)
  | deliver (j : Nat)
  | respond (i : Nat) (m : MtMessage)
  | indicate (m : MtMessage)

/-- When a step can be taken. The dongle answers a request it has received, at
most once and at any later time; an indication it sends at any time. -/
def Enabled (call : Nat → Call) (s : State) : Action → Prop
  | .sendOnly i => (s.send i).phase = .idle ∧ ¬ (call i).expects
  | .acquire i => (s.send i).phase = .idle ∧ (call i).expects ∧ 0 < s.info.sem
  | .publish i => (s.send i).phase = .acquired
  | .transmit i => (s.send i).phase = .published
  | .timeout i => (s.send i).phase = .waiting
  | .release i => (s.send i).phase = .woken
  | .sendReturn i => (s.send i).phase = .released
  | .compare j m => (s.recv j).phase = .idle ∧ m ∈ s.line
  | .probe j => (s.recv j).phase = .compared
  | .post j => (s.recv j).phase = .probing
  | .deliver j => (s.recv j).phase = .delivering
  | .respond i m => m.origin = .answer i ∧ i ∈ s.requests ∧ s.answered i = none
  | .indicate m => m.origin = .indication

instance (call : Nat → Call) (s : State) (a : Action) : Decidable (Enabled call s a) := by
  cases a <;> dsimp only [Enabled] <;> infer_instance

/-- What a step does. -/
def next (call : Nat → Call) (s : State) : Action → State
  | .sendOnly i =>
      { s with
        send := Function.update s.send i { s.send i with phase := .returned, rtn := 0 }
        requests := i :: s.requests }
  | .acquire i => { s.setPhase i .acquired with info := { s.info with sem := s.info.sem - 1 } }
  | .publish i =>
      { s.setPhase i .published with
        info := { s.info with
          returnBuffer := if (call i).returnBuffer then some i else none
          bufferSize := (call i).bufferSize
          callback := if (call i).callback then some i else none
          request := some i
          rspCmdId := (call i).rspCmdId
          sendStatus := some i } }
  | .transmit i =>
      { s.setPhase i .waiting with requests := s.info.request.toList ++ s.requests }
  | .timeout i => s.setPhase i .woken
  | .release i => { s.setPhase i .released with info := { s.info with sem := s.info.sem + 1 } }
  | .sendReturn i => s.setPhase i .returned
  | .compare j m =>
      if s.info.rspCmdId ≠ m.cmdId then
        { s.setRecv j .returned with line := s.line.erase m }
      else
        { s.setRecv j .compared with
          info := { s.info with response := some m }
          line := s.line.erase m }
  | .probe j =>
      if 0 < s.info.sem then
        { s.setRecv j .probing with info := { s.info with sem := s.info.sem - 1 } }
      else
        { s.setRecv j .delivering with info := { s.info with recvStatus := some j } }
  | .post j => { s.setRecv j .returned with info := { s.info with sem := s.info.sem + 1 } }
  | .deliver j => recvThread (s.setRecv j .returned)
  | .respond i m =>
      { s with line := m :: s.line, answered := Function.update s.answered i (some m) }
  | .indicate m => { s with line := m :: s.line }

/-- The step relation of the subsystem. -/
def Step (call : Nat → Call) (s : State) (a : Action) (t : State) : Prop :=
  Enabled call s a ∧ t = next call s a

abbrev Trace := List (State × Action × State)

end KappaGateway.MtHelper

import KappaGateway.Hal.FrameRoundTrip

/-!
# Concurrent assembler threads

Every `SerialRcv` call starts a thread of its own that runs `MessageAssembler`.
The loop guard reads `SerBufInLen` without the lock, a frame is extracted under
it, and `ProcessIncommingMessage` is called after its release. These are the
steps here, for any number of calls and threads in any order.
-/

namespace KappaGateway.Assemblers

open Mtproc Mtintf Transition

/-- Where an assembler thread is, with its `Offset` and its `PacketBuffer`. -/
inductive Thread where
  | absent
  | guard (offset : Nat)
  | entering (offset : Nat)
  | holding (packetBuffer : List UInt8) (offset : Nat)
  | returned
  deriving DecidableEq

/-- The statics, the bytes on the line, the `SerialRcv` calls that have not
started their thread yet, the threads, and the arguments of the
`ProcessIncommingMessage` calls so far. `held` lists the threads that have
extracted a frame and not passed it on, in the order of extraction. -/
structure State where
  serBuf : SerBuf
  line : List UInt8
  starting : Nat
  threads : Nat → Thread
  held : List (Nat × List UInt8)
  processed : List (List UInt8)

/-- After `MTIntfInit`, with the bytes that are going to arrive. -/
def init (serBufIn : Nat → UInt8) (line : List UInt8) : State :=
  ⟨mtIntfInit serBufIn, line, 0, fun _ => .absent, [], []⟩

/-- The locked section of `SerialRcv`, its `pthread_create`, the loop guard of a
thread, its locked section, and its checksum test with the call behind it. -/
inductive Action where
  | receive (dev : Driver)
  | create (i : Nat)
  | test (i : Nat)
  | extract (i : Nat)
  | process (i : Nat)

def Enabled (s : State) : Action → Prop
  | .receive dev => delivered dev <+: s.line
  | .create i => 0 < s.starting ∧ s.threads i = .absent
  | .test i => ∃ offset, s.threads i = .guard offset
  | .extract i => ∃ offset, s.threads i = .entering offset
  | .process i => ∃ packet offset, s.threads i = .holding packet offset

instance (s : State) (a : Action) : Decidable (Enabled s a) :=
  match a with
  | .receive dev => inferInstanceAs (Decidable (delivered dev <+: s.line))
  | .create i => inferInstanceAs (Decidable (0 < s.starting ∧ s.threads i = .absent))
  | .test i =>
      match h : s.threads i with
      | .guard offset => isTrue ⟨offset, h⟩
      | .absent | .entering _ | .holding _ _ | .returned => isFalse (by simp [Enabled, h])
  | .extract i =>
      match h : s.threads i with
      | .entering offset => isTrue ⟨offset, h⟩
      | .absent | .guard _ | .holding _ _ | .returned => isFalse (by simp [Enabled, h])
  | .process i =>
      match h : s.threads i with
      | .holding packet offset => isTrue ⟨packet, offset, h⟩
      | .absent | .guard _ | .entering _ | .returned => isFalse (by simp [Enabled, h])

/-- The locked section of `MessageAssembler`, which does not test the length
against `MIN_PACKET_LEN` again. -/
def lockedSection (s : SerBuf) (offset : Nat) : Option Extraction :=
  match seek s (SERIAL_BUFFER_MAX + 1) offset s.serBufInHead with
  | none => none
  | some (offset, sof) =>
      let headTemp := lengthCell sof
      let frameLen := (s.serBufIn headTemp).toNat + 4
      if s.serBufInLen < frameLen + 1 + offset then none
      else
        some {
          offset := offset
          sof := sof
          frameLen := frameLen
          copies := copies headTemp frameLen
          packet := (copies headTemp frameLen).flatMap fun c =>
            CircularBuffer.block s.serBufIn c.src c.len
          after := { s with
            serBufInHead := mask (headTemp + frameLen)
            serBufInLen := s.serBufInLen - (frameLen + 1 + offset) } }

def State.goto (s : State) (i : Nat) (thread : Thread) : State :=
  { s with threads := Function.update s.threads i thread }

def next (s : State) : Action → State
  | .receive dev =>
      { s with
        serBuf := (serialRcv s.serBuf dev).2
        line := s.line.drop (delivered dev).length
        starting := s.starting + 1 }
  | .create i => { s.goto i (.guard 0) with starting := s.starting - 1 }
  | .test i =>
      match s.threads i with
      | .guard offset =>
          if s.serBuf.serBufInLen ≥ MIN_PACKET_LEN then s.goto i (.entering offset)
          else s.goto i .returned
      | _ => s
  | .extract i =>
      match s.threads i with
      | .entering offset =>
          match lockedSection s.serBuf offset with
          | none => s.goto i .returned
          | some e =>
              { s.goto i (.holding e.packet e.offset) with
                serBuf := e.after
                held := s.held ++ [(i, e.packet)] }
      | _ => s
  | .process i =>
      match s.threads i with
      | .holding packet offset =>
          { s.goto i (.guard offset) with
            held := s.held.eraseP (·.1 = i)
            processed :=
              if xorBytes packet = 0 then s.processed ++ [packet] else s.processed }
      | _ => s

/-- One atomic step of a `SerialRcv` call or of an assembler thread. -/
def Step (s : State) (a : Action) (t : State) : Prop := Enabled s a ∧ t = next s a

/-- The guard adds nothing: with fewer bytes than a minimal packet the locked
section finds no complete frame, whatever stale bytes it looks at. -/
theorem lockedSection_eq (s : SerBuf) (offset : Nat) :
    lockedSection s offset = assembleOnce s offset := by
  unfold assembleOnce
  split
  case isTrue hmin =>
    unfold lockedSection
    split
    · rfl
    · apply if_pos
      rw [MIN_PACKET_LEN] at hmin
      omega
  case isFalse => rfl

end KappaGateway.Assemblers

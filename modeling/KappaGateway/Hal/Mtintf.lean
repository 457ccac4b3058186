import KappaGateway.Lib.CircularBuffer
import KappaGateway.Lib.Transition
import KappaGateway.Hal.Mtproc

/-!
# The serial receive path

`SerialRcv` moves bytes from the driver into a ring of 512 cells, and
`MessageAssembler` cuts frames out of it. The ring is known only by the static
variables `SerBufInHead` and `SerBufInLen`. The functions return the final
statics with every pass over the lock they made: the reads of the one, the
extracting iterations of the other.
-/

namespace KappaGateway.Mtintf

open CircularBuffer Mtproc Transition

def SERIAL_BUFFER_MAX : Nat := 512

def PACKET_BUFFER_MAX : Nat := 256

def MIN_PACKET_LEN : Nat := 5

/-- The static variables of the receive path. -/
structure SerBuf where
  serBufIn : Nat → UInt8
  serBufInHead : Nat
  serBufInLen : Int

/-- `MTIntfInit`: an empty ring at cell zero. -/
def mtIntfInit (serBufIn : Nat → UInt8) : SerBuf := ⟨serBufIn, 0, 0⟩

/-- `SERIAL_BUFFER_MAX_MASK & i`. -/
def mask (i : Int) : Nat := (i % SERIAL_BUFFER_MAX).toNat

/-- What the driver hands out: bursts of bytes, an empty one where a `read`
finds nothing or fails. -/
abbrev Driver := List (List UInt8)

/-- `read`: at most `size` bytes of the next burst, whose rest stays queued. -/
def read (size : Nat) : Driver → List UInt8 × Driver
  | [] => ([], [])
  | burst :: rest =>
      (burst.take size, if burst.length ≤ size then rest else burst.drop size :: rest)

/-- `SerTailPtr`: the first cell available for writing. -/
def serTailPtr (s : SerBuf) : Nat := mask (s.serBufInHead + s.serBufInLen)

/-- `SerBufAva`: the cells from there to the end of the array. -/
def serBufAva (s : SerBuf) : Nat := SERIAL_BUFFER_MAX - serTailPtr s

/-- The statics after one `read` of `SerialRcv` returned `data`. -/
def storeRead (s : SerBuf) (data : List UInt8) : SerBuf :=
  { s with
    serBufIn := store s.serBufIn (serTailPtr s) data
    serBufInLen := s.serBufInLen + data.length }

/-- One of the `memcpy` calls that fill `PacketBuffer` from `SerBufIn`. -/
structure Memcpy where
  dst : Nat
  src : Nat
  len : Nat

/-- What one iteration of the outer loop of `MessageAssembler` did when it
extracted a frame: `Offset` and `SerBufHeadTemp` at the start byte, the copies,
the bytes they put into `PacketBuffer`, and the statics afterwards. Where a copy
runs over the end of `PacketBuffer`, the last two are what C leaves undefined. -/
structure Extraction where
  offset : Nat
  sof : Nat
  frameLen : Nat
  copies : List Memcpy
  packet : List UInt8
  after : SerBuf

/-- The inner loop of `MessageAssembler`: `Offset` and `SerBufHeadTemp` at the
start byte, or `none` where it returns. -/
def seek (s : SerBuf) : Nat → Nat → Nat → Option (Nat × Nat)
  | 0, _, _ => none
  | fuel + 1, offset, headTemp =>
      if s.serBufIn headTemp = MT_SOF then some (offset, headTemp)
      else
        let offset := offset + 1
        let headTemp := mask (s.serBufInHead + offset)
        if s.serBufInHead = headTemp ∨ s.serBufInLen < offset + MIN_PACKET_LEN then none
        else seek s fuel offset headTemp

/-- `SerBufHeadTemp` on the length byte. -/
def lengthCell (sof : Nat) : Nat := mask (sof + 1)

/-- The contiguous branch of the copy into `PacketBuffer`, and the wrapped one. -/
def copies (headTemp frameLen : Nat) : List Memcpy :=
  let tempLen := SERIAL_BUFFER_MAX - headTemp
  if frameLen ≤ tempLen then [⟨0, headTemp, frameLen⟩]
  else [⟨0, headTemp, tempLen⟩, ⟨tempLen, 0, frameLen - tempLen⟩]

/-- One iteration of the outer loop of `MessageAssembler` with the given
`Offset`; `none` where the function returns. -/
def assembleOnce (s : SerBuf) (offset : Nat) : Option Extraction :=
  if s.serBufInLen < MIN_PACKET_LEN then none
  else
    match seek s (SERIAL_BUFFER_MAX + 1) offset s.serBufInHead with
    | none => none
    | some (offset, sof) =>
        let headTemp := lengthCell sof
        let frameLen := (s.serBufIn headTemp).toNat + 4
        if s.serBufInLen < frameLen + 1 + offset then none
        else
          some {
            offset := offset
            sof := sof
            frameLen := frameLen
            copies := copies headTemp frameLen
            packet := (copies headTemp frameLen).flatMap fun c =>
              block s.serBufIn c.src c.len
            after := { s with
              serBufInHead := mask (headTemp + frameLen)
              serBufInLen := s.serBufInLen - (frameLen + 1 + offset) } }

/-- The passes over the statics: one `read` of `SerialRcv` that returned data,
and one iteration of `MessageAssembler` that extracted a frame. -/
inductive Pass where
  | read (data : List UInt8)
  | iterate (offset : Nat)

/-- What a pass does. A `read` returns no more bytes than were asked for. -/
inductive Step : SerBuf → Pass → SerBuf → Prop
  | read {s data} (h : data.length ≤ serBufAva s) : Step s (.read data) (storeRead s data)
  | iterate {s offset e} (h : assembleOnce s offset = some e) :
      Step s (.iterate offset) e.after

abbrev Trace := List (SerBuf × Pass × SerBuf)

/-- The `do … while (len > 0)` loop of `SerialRcv`. -/
def rcvLoop : Nat → SerBuf → Driver → Trace × SerBuf
  | 0, s, _ => ([], s)
  | fuel + 1, s, dev =>
      let (data, dev') := read (serBufAva s) dev
      if data = [] then ([], s)
      else
        let (tr, last) := rcvLoop fuel (storeRead s data) dev'
        ((s, .read data, storeRead s data) :: tr, last)

/-- The bytes the driver hands out before a `read` returns nothing. -/
def delivered : Driver → List UInt8
  | [] => []
  | burst :: rest => if burst = [] then [] else burst ++ delivered rest

/-- `SerialRcv`: every pass but the last reads at least one byte. -/
def serialRcv (s : SerBuf) (dev : Driver) : Trace × SerBuf :=
  rcvLoop ((delivered dev).length + 1) s dev

/-- The outer loop of `MessageAssembler`. `Offset` is declared outside it and
keeps its value from one iteration to the next. -/
def assembleLoop : Nat → SerBuf → Nat → Trace × SerBuf
  | 0, s, _ => ([], s)
  | fuel + 1, s, offset =>
      match assembleOnce s offset with
      | none => ([], s)
      | some e =>
          let (tr, last) := assembleLoop fuel e.after e.offset
          ((s, .iterate offset, e.after) :: tr, last)

/-- `MessageAssembler`: every iteration but the last takes bytes out of the ring. -/
def messageAssembler (s : SerBuf) : Trace × SerBuf :=
  assembleLoop s.serBufInLen.toNat s 0

/-- A `SerialRcv` call, or a complete run of `MessageAssembler`. -/
inductive Event where
  | serialRcv (dev : Driver)
  | messageAssembler

def perform (s : SerBuf) : Event → Trace × SerBuf
  | .serialRcv dev => serialRcv s dev
  | .messageAssembler => messageAssembler s

/-- A sequence of events, with all the passes they make. -/
def run (s : SerBuf) : List Event → Trace × SerBuf
  | [] => ([], s)
  | event :: rest =>
      let (tr, next) := perform s event
      let (tr', last) := run next rest
      (tr ++ tr', last)

/-- The bytes received during a sequence of events. -/
def received (events : List Event) : List UInt8 :=
  events.flatMap fun
    | .serialRcv dev => delivered dev
    | .messageAssembler => []

/-- The packet an iteration passes to `ProcessIncommingMessage`: the extracted
one, if its checksum is right. -/
def dispatch : SerBuf × Pass × SerBuf → Option (List UInt8)
  | (_, .read _, _) => none
  | (s, .iterate offset, _) =>
      (assembleOnce s offset).bind fun e =>
        if xorBytes e.packet = 0 then some e.packet else none

end KappaGateway.Mtintf

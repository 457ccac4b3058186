import KappaGateway.Lib.Loop

/-!
# The serial boot loader

The firmware image is checked by its checksum, written in chunks, and each chunk
read back. `mtSend` is a parameter: it answers a request or fails, and may
depend on a world that it changes.
-/

namespace KappaGateway.SerialBootload

open Loop

def HAL_SB_IMG_ADDR : Nat := 0x2000

def HAL_SB_CRC_ADDR : Nat := 0x2090

def HAL_SB_IMG_SIZE : Nat := 0x40000 - 0x2000 - 0x3000 - 0x0800

def HAL_FLASH_WORD_SIZE : Nat := 4

def SB_RW_BUF_LEN : Nat := 64

def SB_SUCCESS : UInt8 := 0

/-! ### The check of the image -/

/-- The loop of `runPoly`, with the rounds that remain. -/
def runPolyLoop : Nat → UInt16 → UInt8 → UInt16
  | 0, crc, _ => crc
  | cnt + 1, crc, val =>
      let msb := crc &&& 0x8000 ≠ 0
      let crc := crc <<< 1
      let crc := if val &&& 0x80 ≠ 0 then crc ||| 0x0001 else crc
      let crc := if msb then crc ^^^ 0x1021 else crc
      runPolyLoop cnt crc (val <<< 1)

def runPoly (crc : UInt16) (val : UInt8) : UInt16 := runPolyLoop 8 crc val

/-- The loop of `calcCRC` from an address. -/
def calcCRCLoop (firmwareBuffer : List UInt8) (addr : Nat) (crc : UInt16) : UInt16 :=
  if addr < HAL_SB_IMG_SIZE then
    if addr = HAL_SB_CRC_ADDR - HAL_SB_IMG_ADDR then
      calcCRCLoop firmwareBuffer (addr + 3 + 1) crc
    else calcCRCLoop firmwareBuffer (addr + 1) (runPoly crc (firmwareBuffer.getD addr 0))
  else crc
termination_by HAL_SB_IMG_SIZE - addr

def calcCRC (firmwareBuffer : List UInt8) : UInt16 :=
  runPoly (runPoly (calcCRCLoop firmwareBuffer 0 0) 0) 0

/-- The checksum in the image, in little-endian order. -/
def storedCRC (firmwareBuffer : List UInt8) : UInt16 :=
  let slot := HAL_SB_CRC_ADDR - HAL_SB_IMG_ADDR
  UInt16.ofNat
    ((firmwareBuffer.getD slot 0).toNat + 256 * (firmwareBuffer.getD (slot + 1) 0).toNat)

/-- `sb_image_check`; `none` is a file that cannot be opened. -/
def sb_image_check (file : Option (List UInt8)) : Int :=
  match file with
  | none => -1
  | some image =>
      let firmwareBuffer := image.take HAL_SB_IMG_SIZE
      let crc := storedCRC firmwareBuffer
      if firmwareBuffer.length ≠ HAL_SB_IMG_SIZE then -1
      else if crc = 0xFFFF ∨ crc = 0x0000 ∨ crc ≠ calcCRC firmwareBuffer then -1
      else 0

/-! ### The transfer -/

/-- The bytes of a chunk. -/
abbrev Block := Vector UInt8 SB_RW_BUF_LEN

/-- Stores bytes at the front of a buffer. -/
def fill (buf : Block) (bytes : List UInt8) : Block := Vector.ofFn fun i => bytes.getD i buf[i]

/-- A request: the two bytes of the word address, and the data of a write. -/
inductive MtReq where
  | write (addrLow addrHigh : UInt8) (data : Block)
  | read (addrLow addrHigh : UInt8)

/-- `pData` of a response. -/
structure MtRsp where
  status : UInt8
  addrLow : UInt8
  addrHigh : UInt8
  data : Block

/-- `mtSend`: `none` if it returns a negative number. -/
abbrev MtSend (W : Type*) := MtReq → W → Option MtRsp × W

def addrLow (addr : UInt16) : UInt8 := (addr &&& 0x00FF).toUInt8

def addrHigh (addr : UInt16) : UInt8 := (addr >>> 8).toUInt8

/-- The variables of `sb_image_write`; `file` is what `read` has not returned
yet, and the two buffers are parts of `wrReq.pData` and `rdRsp.pData`. -/
structure Vars (W : Type*) where
  world : W
  file : List UInt8
  fileBufLen : Nat
  addr : UInt16
  rtnval : Int
  returnStatus : UInt8
  wrRetry : Nat
  rdRetry : Nat
  rwRetry : Nat
  readbackStatus : Int
  wrReq : Block
  rdRsp : MtRsp

variable {W : Type*} (mtSend : MtSend W)

/-- A round of the loop that writes. -/
def writeRound (s : Vars W) : Flow (Vars W) :=
  match mtSend (.write (addrLow s.addr) (addrHigh s.addr) s.wrReq) s.world with
  | (none, world) => .goesOn { s with world }
  | (some wrRsp, world) =>
      .goesOn { s with
        world
        returnStatus := wrRsp.status
        wrRetry := if wrRsp.status ≠ SB_SUCCESS then s.wrRetry + 1 else s.wrRetry }

/-- The comparison of what was read with what was written. -/
def compareBack (s : Vars W) : Flow (Vars W) :=
  if s.wrReq ≠ s.rdRsp.data then .breaks { s with rtnval := -1 }
  else .goesOn { s with readbackStatus := 0 }

/-- A round of the loop that reads. After a failure, the response to an earlier
request is compared. -/
def readRound (s : Vars W) : Flow (Vars W) :=
  match mtSend (.read (addrLow s.addr) (addrHigh s.addr)) s.world with
  | (none, world) => compareBack { s with world }
  | (some rdRsp, world) =>
      if rdRsp.status ≠ SB_SUCCESS then
        .goesOn { s with world, rdRsp, rdRetry := s.rdRetry + 1 }
      else compareBack { s with world, rdRsp }

/-- The two conditions of the inner loops. -/
def Unwritten (s : Vars W) : Prop := s.returnStatus ≠ SB_SUCCESS ∧ s.wrRetry < 3

def Unread (s : Vars W) : Prop := s.readbackStatus ≠ 0 ∧ s.rdRetry < 3

/-- The condition of the loop that writes and reads. -/
def Unverified (s : Vars W) : Prop := s.readbackStatus ≠ 0 ∧ s.rwRetry < 3

instance : DecidablePred (Unwritten (W := W)) := fun _ => inferInstanceAs (Decidable (_ ∧ _))

instance : DecidablePred (Unread (W := W)) := fun _ => inferInstanceAs (Decidable (_ ∧ _))

instance : DecidablePred (Unverified (W := W)) := fun _ => inferInstanceAs (Decidable (_ ∧ _))

/-- A round of the loop that writes and reads. `returnStatus` is not reset. -/
def verifyRound (fuel : Nat) (s : Vars W) : Flow (Vars W) :=
  (loop Unwritten (writeRound mtSend) fuel { s with wrRetry := 0, rdRetry := 0 }).andThen
    fun s =>
      if s.returnStatus ≠ SB_SUCCESS then .goesOn { s with rwRetry := s.rwRetry + 1 }
      else
        (loop Unread (readRound mtSend) fuel { s with readbackStatus := -1 }).andThen
          fun s => .goesOn { s with rwRetry := s.rwRetry + 1 }

/-- The next bytes of the file, at most a chunk, and the variables of the loop
body as they are declared. -/
def readChunk (s : Vars W) : Vars W :=
  { s with
    returnStatus := 0xff
    wrRetry := 0
    rdRetry := 0
    rwRetry := 0
    readbackStatus := -1
    file := s.file.drop SB_RW_BUF_LEN
    fileBufLen := (s.file.take SB_RW_BUF_LEN).length
    wrReq := fill s.wrReq (s.file.take SB_RW_BUF_LEN) }

/-- The body of the loop over the file. -/
def chunkRound (fuel : Nat) (s : Vars W) : Flow (Vars W) :=
  let s := readChunk s
  if 0 < s.fileBufLen then
    (loop Unverified (verifyRound mtSend fuel) fuel s).andThen fun s =>
      if s.readbackStatus ≠ 0 then .exits s
      else
        .goesOn { s with addr := s.addr + UInt16.ofNat (SB_RW_BUF_LEN / HAL_FLASH_WORD_SIZE) }
  else .goesOn s

/-- `sb_image_write`, with what was on the stack before. It returns `rtnval` if
it goes on, and does not if it exits. -/
def sb_image_write (fuel : Nat) (file : Option (List UInt8)) (stack : Vars W) : Flow (Vars W) :=
  match file with
  | none => .goesOn { stack with rtnval := -1 }
  | some image =>
      doLoop (0 < ·.fileBufLen) (chunkRound mtSend fuel) fuel
        { stack with
          file := image
          addr := 0
          rtnval := 0 }

end KappaGateway.SerialBootload

import Mathlib.Data.List.Basic

/-!
# MT frames sent to the dongle

`MTBuildAndSendCmd` frames a command as start byte, length, two command bytes,
data and checksum. The checksum is the exclusive or of everything between the
start byte and itself, so that the whole rest of a frame sums to zero.
-/

namespace KappaGateway.Mtproc

def MT_SOF : UInt8 := 0xFE

def MT_RPC_DATA_MAX : Nat := 250

/-- The running exclusive or of a byte string. -/
def xorBytes (bytes : List UInt8) : UInt8 := bytes.foldl (· ^^^ ·) 0

/-- `CmdFCSCal`: the exclusive or of the first `dataLen` bytes of `pBuf`. -/
def cmdFCSCal (pBuf : List UInt8) (dataLen : UInt8) : UInt8 :=
  xorBytes (pBuf.take dataLen.toNat)

/-- `MTBuildAndSendCmd`: the bytes handed to `SerialSend`. `cmdPtr` is what
`malloc` returned, with its old contents; without a `pData` these stay in the
data field. The length passed to `CmdFCSCal` is an 8-bit sum. -/
def mtBuildAndSendCmd (cmdPtr : Option (List UInt8)) (cmdType cmdId dataLen : UInt8)
    (pData : Option (List UInt8)) : Option (List UInt8) :=
  cmdPtr.map fun old =>
    let data := match pData with
      | some bytes => bytes.take dataLen.toNat
      | none => (old.drop 4).take dataLen.toNat
    let msg := dataLen :: cmdType :: cmdId :: data
    MT_SOF :: msg ++ [cmdFCSCal msg (dataLen + 3)]

theorem foldl_xor (bytes : List UInt8) (acc : UInt8) :
    bytes.foldl (· ^^^ ·) acc = acc ^^^ xorBytes bytes := by
  induction bytes generalizing acc with
  | nil => simp [xorBytes]
  | cons b rest ih =>
      have hrest : xorBytes (b :: rest) = b ^^^ xorBytes rest := by
        rw [xorBytes, List.foldl_cons, ih, UInt8.zero_xor]
      calc (b :: rest).foldl (· ^^^ ·) acc
          = acc ^^^ b ^^^ xorBytes rest := ih _
        _ = acc ^^^ (b ^^^ xorBytes rest) := UInt8.xor_assoc ..
        _ = acc ^^^ xorBytes (b :: rest) := by rw [hrest]

@[simp] theorem xorBytes_nil : xorBytes [] = 0 := rfl

@[simp] theorem xorBytes_cons (b : UInt8) (bytes : List UInt8) :
    xorBytes (b :: bytes) = b ^^^ xorBytes bytes := by
  calc xorBytes (b :: bytes)
      = 0 ^^^ b ^^^ xorBytes bytes := foldl_xor bytes (0 ^^^ b)
    _ = b ^^^ xorBytes bytes := by rw [UInt8.zero_xor]

@[simp] theorem xorBytes_append (left right : List UInt8) :
    xorBytes (left ++ right) = xorBytes left ^^^ xorBytes right := by
  calc xorBytes (left ++ right)
      = right.foldl (· ^^^ ·) (xorBytes left) := List.foldl_append ..
    _ = xorBytes left ^^^ xorBytes right := foldl_xor right _

/-- Changing one byte changes the exclusive or. -/
theorem xorBytes_set_ne {bytes : List UInt8} {i : Nat} (h : i < bytes.length) {v : UInt8}
    (hv : bytes[i] ≠ v) : xorBytes (bytes.set i v) ≠ xorBytes bytes := by
  have hsplit : bytes = bytes.take i ++ bytes[i] :: bytes.drop (i + 1) := by simp
  intro heq
  rw [List.set_eq_take_append_cons_drop, if_pos h] at heq
  conv at heq => rhs; rw [hsplit]
  simp only [xorBytes_append, xorBytes_cons] at heq
  have hbyte := (UInt8.xor_right_inj _).mp heq
  exact hv ((UInt8.xor_left_inj _).mp hbyte).symm

/-- A message followed by its exclusive or sums to zero. -/
theorem xorBytes_append_self (msg : List UInt8) : xorBytes (msg ++ [xorBytes msg]) = 0 := by
  simp

/-- Up to the longest MT data field the 8-bit length of `CmdFCSCal` covers the
whole message, and the frame is the five fields in order. -/
theorem mtBuildAndSendCmd_eq (old : List UInt8) (cmdType cmdId dataLen : UInt8)
    (data : List UInt8) (hlen : data.length = dataLen.toNat)
    (hmax : data.length ≤ MT_RPC_DATA_MAX) :
    mtBuildAndSendCmd (some old) cmdType cmdId dataLen (some data) =
      some (MT_SOF :: dataLen :: cmdType :: cmdId :: data ++
        [xorBytes (dataLen :: cmdType :: cmdId :: data)]) := by
  have hsum : (dataLen + 3).toNat = data.length + 3 := by
    rw [MT_RPC_DATA_MAX] at hmax
    rw [UInt8.toNat_add, ← hlen]
    exact Nat.mod_eq_of_lt (by simpa using by omega)
  simp only [mtBuildAndSendCmd, Option.map_some, ← hlen, List.take_length, cmdFCSCal, hsum]
  rw [List.take_of_length_le (by simp)]

end KappaGateway.Mtproc

import Mathlib.Algebra.Group.Nat.Defs
import Mathlib.Algebra.Ring.Int.Defs
import Mathlib.Data.List.Basic
import Mathlib.Tactic.Common

/-!
# Hexadecimal text

The conversions of `kutil` between integers, bytes in memory and hexadecimal
text, on a little-endian machine. Text is the bytes of a C string without its
terminator.
-/

namespace KappaGateway.Kutil

/-- A C string, or a `std::string`. -/
abbrev Text := List UInt8

/-- A string literal of the source. -/
def cstr (s : String) : Text := s.toList.map fun c => UInt8.ofNat c.toNat

/-- A digit of `"%x"`. -/
def hexDigit (v : UInt8) : UInt8 := if v < 10 then 0x30 + v else 0x57 + v

/-- `"%02x"`. -/
def hexByte (b : UInt8) : Text := [hexDigit (b / 16), hexDigit (b % 16)]

/-- `kByteToHexString`: the text it writes in front of the terminator. -/
def kByteToHexString (byte : List UInt8) : Text := byte.flatMap hexByte

/-- The bytes of an integer of `size` bytes in memory. -/
def memory (size v : Nat) : List UInt8 :=
  match size with
  | 0 => []
  | size + 1 => UInt8.ofNat v :: memory size (v / 256)

/-- The integer in some bytes of memory. -/
def memoryValue : List UInt8 → Nat
  | [] => 0
  | b :: rest => b.toNat + 256 * memoryValue rest

/-- `kIntToStr`: the bytes of the source from the last to the first. -/
def kIntToStr (source : List UInt8) : Text := kByteToHexString source.reverse

/-- `IntToHexStr` of an integer of `size` bytes. -/
def intToHexStr (size v : Nat) : Text := kIntToStr (memory size v)

/-- `kCharToInt`: 16 for a character that is no hexadecimal digit. -/
def kCharToInt (c : UInt8) : UInt8 :=
  if 0x30 ≤ c ∧ c ≤ 0x39 then c - 0x30
  else if 0x41 ≤ c ∧ c ≤ 0x46 then c - 55
  else if 0x61 ≤ c ∧ c ≤ 0x66 then c - 87
  else 16

/-- The loop of `kStrToInt` over the characters from the last to the first: the
bytes it stores, and whether it runs to the end. -/
def kStrToIntLoop : Text → List UInt8 × Bool
  | low :: high :: rest =>
      if 0x0f < kCharToInt low then ([], false)
      else if 0x0f < kCharToInt high then ([kCharToInt low], false)
      else
        let (stored, done) := kStrToIntLoop rest
        ((kCharToInt low ||| kCharToInt high <<< 4) :: stored, done)
  | _ => ([], true)

/-- `kStrToInt` on the first `2 * size` characters of the source. -/
def kStrToInt (source : Text) (size : Nat) : List UInt8 × Bool :=
  kStrToIntLoop (source.take (2 * size)).reverse

/-- The characters at and behind a C string: its own, the terminator, and then
whatever lies in memory. -/
def charAt (str : Text) (beyond : Nat → UInt8) (i : Nat) : UInt8 :=
  if h : i < str.length then str[i] else if i = str.length then 0 else beyond i

/-- `hexStrToByteVec`: one byte from two characters, as many times as there are
characters, so that the second half is made of what follows the text. -/
def hexStrToByteVec (str : Text) (beyond : Nat → UInt8) : List UInt8 :=
  if str.length % 2 = 1 then []
  else
    (List.range str.length).map fun i =>
      kCharToInt (charAt str beyond (2 * i)) <<< 4 |||
        kCharToInt (charAt str beyond (2 * i + 1))

/-! ### Digits -/

theorem kCharToInt_hexDigit {v : UInt8} (h : v.toNat < 16) : kCharToInt (hexDigit v) = v := by
  have hall : ∀ n < 16, kCharToInt (hexDigit (UInt8.ofNat n)) = UInt8.ofNat n := by decide
  simpa using hall v.toNat h

theorem high_lt (b : UInt8) : (b / 16).toNat < 16 := by
  have hb := b.toNat_lt
  have hdiv : (b / 16).toNat = b.toNat / 16 := UInt8.toNat_div b 16
  omega

theorem low_lt (b : UInt8) : (b % 16).toNat < 16 := by
  have hmod : (b % 16).toNat = b.toNat % 16 := UInt8.toNat_mod b 16
  omega

theorem nibbles_join (b : UInt8) : (b / 16) <<< 4 ||| b % 16 = b := by
  have hall : ∀ n < 256,
      (UInt8.ofNat n / 16) <<< 4 ||| UInt8.ofNat n % 16 = UInt8.ofNat n := by decide +kernel
  simpa using hall b.toNat b.toNat_lt

/-! ### Text from bytes -/

theorem kByteToHexString_cons (b : UInt8) (bytes : List UInt8) :
    kByteToHexString (b :: bytes) =
      hexDigit (b / 16) :: hexDigit (b % 16) :: kByteToHexString bytes := rfl

@[simp] theorem kByteToHexString_length (bytes : List UInt8) :
    (kByteToHexString bytes).length = 2 * bytes.length := by
  induction bytes with
  | nil => rfl
  | cons b bytes ih =>
      rw [kByteToHexString_cons, List.length_cons, List.length_cons, ih, List.length_cons]
      omega

theorem kByteToHexString_getElem {bytes : List UInt8} {i : Nat} (hi : i < bytes.length) :
    (kByteToHexString bytes)[2 * i]? = some (hexDigit (bytes[i] / 16)) ∧
      (kByteToHexString bytes)[2 * i + 1]? = some (hexDigit (bytes[i] % 16)) := by
  induction bytes generalizing i with
  | nil => simp at hi
  | cons b bytes ih =>
      cases i with
      | zero => simp [kByteToHexString_cons]
      | succ i =>
          have hi' : i < bytes.length := by simpa using hi
          have := ih hi'
          rw [kByteToHexString_cons, show 2 * (i + 1) = 2 * i + 1 + 1 by omega]
          simpa using this

/-! ### Bytes from text -/

theorem charAt_of_getElem {str : Text} {i : Nat} {c : UInt8} (h : str[i]? = some c)
    (beyond : Nat → UInt8) : charAt str beyond i = c := by
  obtain ⟨hi, hc⟩ := List.getElem?_eq_some_iff.mp h
  rw [charAt, dif_pos hi, hc]

/-- The bytes come back at the front of the vector, which is twice as long. -/
theorem hexStrToByteVec_hex (bytes : List UInt8) (beyond : Nat → UInt8) :
    ∃ extra, extra.length = bytes.length ∧
      hexStrToByteVec (kByteToHexString bytes) beyond = bytes ++ extra := by
  have heven : ¬ (kByteToHexString bytes).length % 2 = 1 := by
    rw [kByteToHexString_length]
    omega
  have hlength : (hexStrToByteVec (kByteToHexString bytes) beyond).length = 2 * bytes.length := by
    simp [hexStrToByteVec]
  have htake : (hexStrToByteVec (kByteToHexString bytes) beyond).take bytes.length = bytes := by
    apply List.ext_getElem
    · rw [List.length_take, hlength]
      omega
    · intro i hi hi'
      obtain ⟨hhigh, hlow⟩ := kByteToHexString_getElem hi'
      simp only [List.getElem_take, hexStrToByteVec, if_neg heven, List.getElem_map,
        List.getElem_range, charAt_of_getElem hhigh, charAt_of_getElem hlow,
        kCharToInt_hexDigit (high_lt _), kCharToInt_hexDigit (low_lt _), nibbles_join]
  refine ⟨_, ?_, (htake ▸ (List.take_append_drop bytes.length _).symm)⟩
  rw [List.length_drop, hlength]
  omega

/-! ### Integers -/

@[simp] theorem memory_length (size v : Nat) : (memory size v).length = size := by
  induction size generalizing v with
  | zero => rfl
  | succ size ih => simp [memory, ih]

theorem memoryValue_memory (size v : Nat) : memoryValue (memory size v) = v % 256 ^ size := by
  induction size generalizing v with
  | zero => simp [memory, memoryValue, Nat.mod_one]
  | succ size ih =>
      have hlow : (UInt8.ofNat v).toNat = v % 256 := UInt8.toNat_ofNat'
      calc memoryValue (memory (size + 1) v)
          = v % 256 + 256 * (v / 256 % 256 ^ size) := by rw [memory, memoryValue, ih, hlow]
        _ = v % (256 * 256 ^ size) := (Nat.mod_mul ..).symm
        _ = v % 256 ^ (size + 1) := by rw [Nat.pow_succ']

theorem kStrToIntLoop_hex (bytes : List UInt8) :
    kStrToIntLoop (bytes.flatMap fun b => (hexByte b).reverse) = (bytes, true) := by
  induction bytes with
  | nil => rfl
  | cons b bytes ih =>
      have hlow : ¬ 0x0f < b % 16 := by
        have := low_lt b
        rw [UInt8.not_lt, UInt8.le_iff_toNat_le]
        exact Nat.le_of_lt_succ this
      have hhigh : ¬ 0x0f < b / 16 := by
        have := high_lt b
        rw [UInt8.not_lt, UInt8.le_iff_toNat_le]
        exact Nat.le_of_lt_succ this
      have hpair : (hexByte b).reverse = [hexDigit (b % 16), hexDigit (b / 16)] := rfl
      rw [List.flatMap_cons, hpair]
      simp only [List.cons_append, List.nil_append, kStrToIntLoop,
        kCharToInt_hexDigit (low_lt b), kCharToInt_hexDigit (high_lt b), if_neg hlow,
        if_neg hhigh, ih]
      rw [UInt8.or_comm, nibbles_join]

theorem kIntToStr_reverse (source : List UInt8) :
    (kIntToStr source).reverse = source.flatMap fun b => (hexByte b).reverse := by
  rw [kIntToStr, kByteToHexString, List.reverse_flatMap, List.reverse_reverse]
  rfl

/-- `kStrToInt` restores what `kIntToStr` has written. -/
theorem kStrToInt_kIntToStr (source : List UInt8) :
    kStrToInt (kIntToStr source) source.length = (source, true) := by
  have hlength : (kIntToStr source).length = 2 * source.length := by
    simp [kIntToStr]
  rw [kStrToInt, List.take_of_length_le (Nat.le_of_eq hlength), kIntToStr_reverse,
    kStrToIntLoop_hex]

@[simp] theorem intToHexStr_length (size v : Nat) : (intToHexStr size v).length = 2 * size := by
  simp [intToHexStr, kIntToStr]

/-- Different integers of one size have different texts. -/
theorem intToHexStr_injective {size v w : Nat} (hv : v < 256 ^ size) (hw : w < 256 ^ size)
    (h : intToHexStr size v = intToHexStr size w) : v = w := by
  have hmem : memory size v = memory size w := by
    have hv' := kStrToInt_kIntToStr (memory size v)
    have hw' := kStrToInt_kIntToStr (memory size w)
    rw [memory_length] at hv' hw'
    rw [intToHexStr, intToHexStr] at h
    rw [h, hw'] at hv'
    exact (congrArg Prod.fst hv').symm
  calc v = memoryValue (memory size v) := by rw [memoryValue_memory, Nat.mod_eq_of_lt hv]
    _ = memoryValue (memory size w) := by rw [hmem]
    _ = w := by rw [memoryValue_memory, Nat.mod_eq_of_lt hw]

end KappaGateway.Kutil

import KappaGateway.Lib.Json
import KappaGateway.Kapi.Kutil

/-!
# The JSON wrapper

Reading and writing through `kapi::JSON`, as the archive uses it: element access
that creates what is missing, and conversions that answer for every type. The
element of a value that has none is the fault value, which takes no assignment.
-/

namespace KappaGateway.Kjson

open KeyedList Kutil

/-- A document; strings are C strings. -/
abbrev Doc := Json Text

/-- `operator[](key)` for reading: `none` is the fault value. -/
def elem (key : Text) : Doc → Option Doc
  | .object m => some ((valueAt key m).getD .null)
  | .null => some .null
  | _ => none

/-- `operator[](size_t)` for reading. -/
def elemAt (index : Nat) : Option Doc → Option Doc
  | some (.array l) => some (l.getD index .null)
  | _ => none

/-- The elements that `forEachInArr` visits. -/
def elements : Option Doc → List Doc
  | some (.array l) => l
  | _ => []

/-- Assignments `j[k1][k2]… = str`: the path of the element and the string. -/
abbrev Assignment := List Text × Text

/-- Makes assignments in their order; on the fault value they are lost. -/
def assignAll (assignments : List Assignment) (j : Doc) : Doc :=
  j.putAll (assignments.map fun a => (a.1, .string a.2))

/-- `toString`; the fault value has no text either. -/
def toText : Option Doc → Text
  | some (.string s) => s
  | _ => []

/-- `toInteger`, as a bit pattern: a string is padded to an even length and its
first 16 digits are converted, as far as they are digits. -/
def toInteger : Option Doc → UInt64
  | some (.integer n) => UInt64.ofNat (n % 2 ^ 64).toNat
  | some (.string s) =>
      let temp := if s.length % 2 = 1 then cstr "0" ++ s else s
      UInt64.ofNat (memoryValue (kStrToInt temp (min (temp.length / 2) 8)).1)
  | _ => 0

@[simp] theorem toText_string (s : Text) : toText (some (.string s)) = s := rfl

/-- The text of an integer of up to eight bytes reads back as the integer. -/
theorem toInteger_intToHexStr {size v : Nat} (hsize : size ≤ 8) (hv : v < 256 ^ size) :
    toInteger (some (.string (intToHexStr size v))) = UInt64.ofNat v := by
  have heven : ¬ (intToHexStr size v).length % 2 = 1 := by
    rw [intToHexStr_length]
    omega
  have hmin : min ((intToHexStr size v).length / 2) 8 = size := by
    rw [intToHexStr_length]
    omega
  have hread := kStrToInt_kIntToStr (memory size v)
  rw [memory_length] at hread
  simp only [toInteger, if_neg heven, hmin]
  rw [intToHexStr, hread, memoryValue_memory, Nat.mod_eq_of_lt hv]

theorem elem_of_member {key : Text} {j v : Doc} (h : j.member key = some v) :
    elem key j = some v := by
  cases j with
  | object m =>
      have hget : valueAt key m = some v := h
      simp [elem, hget]
  | _ => simp [Json.member] at h

end KappaGateway.Kjson

import KappaGateway.Kapi.HexText
import KappaGateway.Kapi.Kjson
import KappaGateway.Kapi.TreeRefinement

/-!
# Strings as integers

`toInteger` hands a string to `kStrToInt`, with a zero in front if its length is odd and
cut to the size of an integer. It does not look at what `kStrToInt` returns, so it never
sets the fail bit for a string.
-/

namespace KappaGateway.JsonWrapper.State

open Jansson Kutil

/-- `json_integer_value`. -/
def json_integer_value (h : Memory) : Option Ref → Int
  | some (.cell a) =>
      match h.contentAt a with
      | some (.integer n) => n
      | _ => 0
  | _ => 0

/-- `toInteger`, as a bit pattern. -/
def toInteger (s : State) (w : Nat) : Option (State × UInt64) :=
  match (s.get w).type with
  | .integer =>
      some (s, Kjson.toInteger (some (.integer (json_integer_value s.heap (s.get w).json))))
  | .string => (json_string_value s.heap (s.get w).json).map fun str =>
      (s, Kjson.toInteger (some (.string str)))
  | _ => some (s.setFailBit w (cstr "Invalid conversion to integer"), 0)

end KappaGateway.JsonWrapper.State

namespace KappaGateway.IntegerText

open Jansson JsonWrapper Kjson Kutil TreeRefinement

/-- The texts of integers of at most 64 bits. -/
structure IsNumber (str : Text) : Prop where
  nonempty : str ≠ []
  length : str.length ≤ 16
  hex : IsHexText str

/-- The wrapper is a string, and no operation on it has failed. -/
structure Shows (s : State) (w : Nat) (str : Text) : Prop where
  type : (s.get w).type = .string
  value : State.json_string_value s.heap (s.get w).json = some str
  good : (s.get w).failbit = false

/-- The number of a text is returned, and for any other text the fail bit is set. -/
structure Converts (str : Text) : Prop where
  exact : IsNumber str → ∀ s w, Shows s w str →
    ∃ after, s.toInteger w = some (after, UInt64.ofNat (hexNumber str)) ∧
      (after.get w).failbit = false
  reported : ¬ IsNumber str → ∀ s w, Shows s w str →
    ∃ after v, s.toInteger w = some (after, v) ∧ (after.get w).failbit = true

/-! ### The number -/

section

variable {n : Nat} {str : Text}

theorem hexNumber_zero_cons (str : Text) : hexNumber (cstr "0" ++ str) = hexNumber str := by
  have hzero : digitOf 0x30 = 0 := by decide
  show Nat.ofDigits 16 ((0x30 :: str).reverse.map digitOf) = _
  rw [List.map_reverse, List.map_cons, hzero, Nat.ofDigits_reverse_zero_cons, ← List.map_reverse,
    hexNumber]

/-- What is stored for a text of an even length is its number. -/
theorem memoryValue_kStrToInt (h : str.length = 2 * n) (hhex : IsHexText str) :
    memoryValue (kStrToInt str n).1 = hexNumber str := by
  have hlt := hexNumber_lt hhex
  have hpow : 16 ^ str.length = 256 ^ n := by
    rw [h, Nat.pow_mul]
  rw [(kStrToInt_stored h hhex).1, memoryValue_memory, Nat.mod_eq_of_lt (hpow ▸ hlt)]

theorem toInteger_of_even (h : str.length = 2 * n) (hn : n ≤ 8) (hhex : IsHexText str) :
    UInt64.ofNat (memoryValue (kStrToInt str (min (str.length / 2) 8)).1) =
      UInt64.ofNat (hexNumber str) := by
  have hmin : min (str.length / 2) 8 = n := by omega
  rw [hmin, memoryValue_kStrToInt h hhex]

theorem toInteger_of_number (h : IsNumber str) :
    Kjson.toInteger (some (.string str)) = UInt64.ofNat (hexNumber str) := by
  have hlength := h.length
  rw [Kjson.toInteger]
  by_cases hodd : str.length % 2 = 1
  · have hpadded : (cstr "0" ++ str).length = 2 * ((str.length + 1) / 2) := by
      have hzero : (cstr "0" ++ str).length = str.length + 1 := rfl
      omega
    have hhex : IsHexText (cstr "0" ++ str) := List.forall_mem_cons.mpr ⟨by decide, h.hex⟩
    rw [if_pos hodd, ← hexNumber_zero_cons]
    exact toInteger_of_even hpadded (by omega) hhex
  · rw [if_neg hodd]
    exact toInteger_of_even (n := str.length / 2) (by omega) (by omega) h.hex

end

/-! ### The fail bit -/

theorem Shows.toInteger {s : State} {w : Nat} {str : Text} (h : Shows s w str) :
    s.toInteger w = some (s, Kjson.toInteger (some (.string str))) := by
  rw [State.toInteger, h.type]
  exact congrArg (Option.map _) h.value

/-- A parsed string is shown. -/
theorem shows_start (str : Text) : Shows (start (.string str)) 0 str := ⟨rfl, rfl, rfl⟩

/-- Exactly the texts of numbers are converted as they should be. -/
theorem toInteger_exact_iff (str : Text) : Converts str ↔ IsNumber str := by
  constructor
  · intro h
    by_contra hnot
    obtain ⟨after, v, hresult, hfail⟩ := h.reported hnot _ _ (shows_start str)
    rw [(shows_start str).toInteger] at hresult
    obtain ⟨rfl, -⟩ := Prod.mk.inj (Option.some.inj hresult)
    exact Bool.false_ne_true ((shows_start str).good.symm.trans hfail)
  · intro h
    refine ⟨fun _ s w hs => ⟨s, ?_, hs.good⟩, fun hnot => absurd h hnot⟩
    rw [hs.toInteger, toInteger_of_number h]

/-- `"12g4"` is 4, and nothing is reported. -/
theorem toInteger_of_bad_digit :
    (start (.string (cstr "12g4"))).toInteger 0 = some (start (.string (cstr "12g4")), 4) ∧
      ((start (.string (cstr "12g4"))).get 0).failbit = false ∧ ¬ Converts (cstr "12g4") := by
  have hvalue : Kjson.toInteger (some (.string (cstr "12g4"))) = 4 := by decide
  refine ⟨?_, rfl, ?_⟩
  · rw [(shows_start _).toInteger, hvalue]
  · rw [toInteger_exact_iff]
    intro h
    exact absurd h.hex (by decide)

end KappaGateway.IntegerText

import KappaGateway.Kapi.Kutil
import Mathlib.Data.Nat.Digits.Defs

/-!
# Reading hexadecimal text

`kStrToInt` walks through a text from its end and stops at the first character that is
no digit, for which `kCharToInt` returns 16. It takes the size as a `size_t` and returns
twice the size as an `int`.
-/

namespace KappaGateway.Kutil

/-! ### Texts and the numbers they denote -/

def hexDigits : Text := cstr "0123456789abcdef"

/-- A letter in lower case. -/
def toLower (c : UInt8) : UInt8 := if 0x41 ≤ c ∧ c ≤ 0x5a then c + 0x20 else c

/-- A hexadecimal digit of either case. -/
def IsHexDigit (c : UInt8) : Prop := toLower c ∈ hexDigits

instance (c : UInt8) : Decidable (IsHexDigit c) := inferInstanceAs (Decidable (_ ∈ _))

def IsHexText (text : Text) : Prop := ∀ c ∈ text, IsHexDigit c

instance (text : Text) : Decidable (IsHexText text) := List.decidableBAll _ text

/-- The value of a digit, and 16 for any other character. -/
def digitOf (c : UInt8) : Nat := hexDigits.idxOf (toLower c)

/-- The number that a text denotes. -/
def hexNumber (text : Text) : Nat := Nat.ofDigits 16 (text.reverse.map digitOf)

/-! ### Numbers of type `int` -/

/-- A `size_t` as an `int`. -/
def asInt (v : Nat) : Int := (v : Int).bmod (2 ^ 32)

/-- The rounds of `for (int i = size - 1; i >= 0; i--)`. -/
def intRounds (size : Nat) : Nat := (((size : Int) - 1).bmod (2 ^ 32) + 1).toNat

/-- The return value of `kStrToInt`. -/
def returnStatus (source : Text) (size : Nat) : Int :=
  if (kStrToInt source size).2 then asInt (2 * size) else -1

/-- What `kIntToStr` writes for a source of any size. -/
def intToStr (source : List UInt8) : Text := kIntToStr (source.take (intRounds source.length))

theorem asInt_of_lt {v : Nat} (h : v < 2 ^ 31) : asInt v = v := by
  apply Int.bmod_eq_of_le
  · omega
  · omega

theorem intRounds_of_le {size : Nat} (h : size ≤ 2 ^ 31) : intRounds size = size := by
  have hsame : ((size : Int) - 1).bmod (2 ^ 32) = (size : Int) - 1 := by
    apply Int.bmod_eq_of_le
    · omega
    · omega
  rw [intRounds, hsame]
  omega

theorem intRounds_le (size : Nat) : intRounds size ≤ 2 ^ 31 := by
  have hlt : ((size : Int) - 1).bmod (2 ^ 32) < 2 ^ 31 := Int.bmod_lt (by decide)
  rw [intRounds]
  omega

/-- Up to the range of `int`, the loop goes through the whole source. -/
theorem intToStr_of_le {source : List UInt8} (h : source.length ≤ 2 ^ 31) :
    intToStr source = kIntToStr source := by
  rw [intToStr, intRounds_of_le h, List.take_length]

/-! ### Single characters -/

theorem kCharToInt_toNat (c : UInt8) : (kCharToInt c).toNat = digitOf c := by
  have hall : ∀ n < 256,
      (kCharToInt (UInt8.ofNat n)).toNat = digitOf (UInt8.ofNat n) := by decide +kernel
  simpa using hall c.toNat c.toNat_lt

theorem digitOf_lt_iff (c : UInt8) : digitOf c < 16 ↔ IsHexDigit c := List.idxOf_lt_length_iff

/-- `kStrToInt` goes on exactly at digits. -/
theorem not_lt_kCharToInt_iff (c : UInt8) : ¬ 0x0f < kCharToInt c ↔ IsHexDigit c := by
  rw [← digitOf_lt_iff, ← kCharToInt_toNat, UInt8.lt_iff_toNat_lt]
  exact Nat.not_lt.trans Nat.lt_succ_iff.symm

theorem kCharToInt_eq (c : UInt8) : kCharToInt c = UInt8.ofNat (digitOf c) := by
  rw [← kCharToInt_toNat, UInt8.ofNat_toNat]

/-- A digit is written in lower case. -/
theorem hexDigit_kCharToInt {c : UInt8} (h : IsHexDigit c) :
    hexDigit (kCharToInt c) = toLower c := by
  have hall : ∀ n < 256, IsHexDigit (UInt8.ofNat n) →
      hexDigit (kCharToInt (UInt8.ofNat n)) = toLower (UInt8.ofNat n) := by decide +kernel
  simpa using hall c.toNat c.toNat_lt (by simpa using h)

theorem nibbles_or {low high : Nat} (hlow : low < 16) (hhigh : high < 16) :
    UInt8.ofNat low ||| UInt8.ofNat high <<< 4 = UInt8.ofNat (low + 16 * high) := by
  have hall : ∀ low < 16, ∀ high < 16,
      UInt8.ofNat low ||| UInt8.ofNat high <<< 4 = UInt8.ofNat (low + 16 * high) := by decide
  exact hall low hlow high hhigh

/-- The byte of two digits. -/
theorem byte_of_hex {low high : UInt8} (hlow : IsHexDigit low) (hhigh : IsHexDigit high) :
    kCharToInt low ||| kCharToInt high <<< 4 = UInt8.ofNat (digitOf low + 16 * digitOf high) := by
  rw [kCharToInt_eq, kCharToInt_eq]
  exact nibbles_or ((digitOf_lt_iff low).mpr hlow) ((digitOf_lt_iff high).mpr hhigh)

theorem hexByte_reverse {low high : Nat} (hlow : low < 16) (hhigh : high < 16) :
    (hexByte (UInt8.ofNat (low + 16 * high))).reverse =
      [hexDigit (UInt8.ofNat low), hexDigit (UInt8.ofNat high)] := by
  have hall : ∀ low < 16, ∀ high < 16, (hexByte (UInt8.ofNat (low + 16 * high))).reverse =
      [hexDigit (UInt8.ofNat low), hexDigit (UInt8.ofNat high)] := by decide
  exact hall low hlow high hhigh

/-! ### The loop -/

section

variable {n : Nat} {l : Text}

/-- Two characters at a time. -/
theorem exists_pair (h : l.length = 2 * (n + 1)) :
    ∃ low high rest, l = low :: high :: rest ∧ rest.length = 2 * n := by
  match l with
  | [] => cases h
  | [_] => simp at h; omega
  | low :: high :: rest =>
      refine ⟨low, high, rest, rfl, ?_⟩
      simp only [List.length_cons] at h
      omega

theorem kStrToIntLoop_of_hex {low high : UInt8} (hlow : IsHexDigit low)
    (hhigh : IsHexDigit high) (rest : Text) :
    kStrToIntLoop (low :: high :: rest) =
      (UInt8.ofNat (digitOf low + 16 * digitOf high) :: (kStrToIntLoop rest).1,
        (kStrToIntLoop rest).2) := by
  rw [kStrToIntLoop, if_neg ((not_lt_kCharToInt_iff low).mpr hlow),
    if_neg ((not_lt_kCharToInt_iff high).mpr hhigh), byte_of_hex hlow hhigh]

/-- The loop runs to the end exactly if all characters are digits. -/
theorem kStrToIntLoop_done (h : l.length = 2 * n) : (kStrToIntLoop l).2 ↔ IsHexText l := by
  induction n generalizing l with
  | zero =>
      obtain rfl := List.length_eq_zero_iff.mp h
      exact iff_of_true rfl (List.forall_mem_nil _)
  | succ n ih =>
      obtain ⟨low, high, rest, rfl, hrest⟩ := exists_pair h
      rw [IsHexText, List.forall_mem_cons, List.forall_mem_cons]
      by_cases hlow : IsHexDigit low
      · by_cases hhigh : IsHexDigit high
        · rw [kStrToIntLoop_of_hex hlow hhigh, and_iff_right hlow, and_iff_right hhigh]
          exact ih hrest
        · refine iff_of_false ?_ fun hall => hhigh hall.2.1
          rw [kStrToIntLoop, if_neg ((not_lt_kCharToInt_iff low).mpr hlow),
            if_pos (not_not.mp fun hle => hhigh ((not_lt_kCharToInt_iff high).mp hle))]
          exact Bool.false_ne_true
      · refine iff_of_false ?_ fun hall => hlow hall.1
        rw [kStrToIntLoop, if_pos (not_not.mp fun hle => hlow ((not_lt_kCharToInt_iff low).mp hle))]
        exact Bool.false_ne_true

/-- The bytes that the loop stores, in the order of their digits. -/
theorem kStrToIntLoop_stored (h : l.length = 2 * n) (hhex : IsHexText l) :
    (kStrToIntLoop l).1 = memory n (Nat.ofDigits 16 (l.map digitOf)) ∧
      ((kStrToIntLoop l).1.flatMap fun b => (hexByte b).reverse) = l.map toLower := by
  induction n generalizing l with
  | zero =>
      obtain rfl := List.length_eq_zero_iff.mp h
      exact ⟨rfl, rfl⟩
  | succ n ih =>
      obtain ⟨low, high, rest, rfl, hrest⟩ := exists_pair h
      obtain ⟨hlow, hhex⟩ := List.forall_mem_cons.mp hhex
      obtain ⟨hhigh, hhex⟩ := List.forall_mem_cons.mp hhex
      obtain ⟨hstored, htext⟩ := ih hrest hhex
      have hl := (digitOf_lt_iff low).mpr hlow
      have hh := (digitOf_lt_iff high).mpr hhigh
      rw [kStrToIntLoop_of_hex hlow hhigh]
      constructor
      · have hnumber : Nat.ofDigits 16 ((low :: high :: rest).map digitOf) =
            digitOf low + 16 * digitOf high + 256 * Nat.ofDigits 16 (rest.map digitOf) := by
          simp only [List.map_cons, Nat.ofDigits_cons]
          omega
        have hbyte : UInt8.ofNat (Nat.ofDigits 16 ((low :: high :: rest).map digitOf)) =
            UInt8.ofNat (digitOf low + 16 * digitOf high) := by
          apply UInt8.toNat_inj.mp
          rw [hnumber, UInt8.toNat_ofNat', UInt8.toNat_ofNat']
          omega
        have hdiv : Nat.ofDigits 16 ((low :: high :: rest).map digitOf) / 256 =
            Nat.ofDigits 16 (rest.map digitOf) := by
          rw [hnumber]
          omega
        rw [memory, hbyte, hdiv, hstored]
      · have hpair : (hexByte (UInt8.ofNat (digitOf low + 16 * digitOf high))).reverse =
            [toLower low, toLower high] := by
          rw [← hexDigit_kCharToInt hlow, ← hexDigit_kCharToInt hhigh, kCharToInt_eq,
            kCharToInt_eq]
          exact hexByte_reverse hl hh
        rw [List.flatMap_cons, hpair, htext]
        rfl

end

/-! ### Texts of one size -/

theorem hexNumber_lt {text : Text} (hhex : IsHexText text) :
    hexNumber text < 16 ^ text.length := by
  have hlt : ∀ d ∈ text.reverse.map digitOf, d < 16 := by
    intro d hd
    obtain ⟨c, hc, rfl⟩ := List.mem_map.mp hd
    exact (digitOf_lt_iff c).mpr (hhex c (List.mem_reverse.mp hc))
  simpa [hexNumber] using Nat.ofDigits_lt_base_pow_length (by decide) hlt

section

variable {n : Nat} {text : Text}

theorem kStrToInt_done (h : text.length = 2 * n) : (kStrToInt text n).2 ↔ IsHexText text := by
  rw [kStrToInt, List.take_of_length_le (Nat.le_of_eq h),
    kStrToIntLoop_done (by rw [List.length_reverse, h])]
  simp [IsHexText]

/-- The bytes of the number in memory, from which its digits can be written again. -/
theorem kStrToInt_stored (h : text.length = 2 * n) (hhex : IsHexText text) :
    (kStrToInt text n).1 = memory n (hexNumber text) ∧
      kIntToStr (kStrToInt text n).1 = text.map toLower := by
  have hreverse : IsHexText text.reverse := fun c hc => hhex c (List.mem_reverse.mp hc)
  obtain ⟨hstored, htext⟩ := kStrToIntLoop_stored ((List.length_reverse).trans h) hreverse
  rw [kStrToInt, List.take_of_length_le (Nat.le_of_eq h)]
  refine ⟨hstored, ?_⟩
  rw [← kIntToStr_reverse, List.map_reverse] at htext
  exact List.reverse_injective htext

theorem returnStatus_of_hex (h : text.length = 2 * n) (hhex : IsHexText text) :
    returnStatus text n = asInt (2 * n) := if_pos ((kStrToInt_done h).mpr hhex)

theorem returnStatus_of_not_hex (h : text.length = 2 * n) (hhex : ¬ IsHexText text) :
    returnStatus text n = -1 := if_neg fun hdone => hhex ((kStrToInt_done h).mp hdone)

end

/-- `kStrToInt` and `kIntToStr` invert each other on texts of `n` bytes, and `kStrToInt`
tells the texts that are no numbers from those that are. -/
structure Inverse (n : Nat) : Prop where
  accepted : ∀ text : Text, text.length = 2 * n →
    (returnStatus text n = 2 * n ↔ IsHexText text)
  refused : ∀ text : Text, text.length = 2 * n → ¬ IsHexText text → returnStatus text n = -1
  stored : ∀ text : Text, text.length = 2 * n → returnStatus text n = 2 * n →
    (kStrToInt text n).1 = memory n (hexNumber text) ∧
      intToStr (kStrToInt text n).1 = text.map toLower
  restored : ∀ bytes : List UInt8, bytes.length = n →
    (kStrToInt (intToStr bytes) n).1 = bytes ∧ returnStatus (intToStr bytes) n = 2 * n

/-- The two functions are inverse for all sizes whose double is an `int`. -/
theorem kStrToInt_inverse (n : Nat) (hn : 2 * n < 2 ^ 31) : Inverse n := by
  have hint : asInt (2 * n) = 2 * n := by
    rw [asInt_of_lt hn]
    rfl
  have haccepted : ∀ text : Text, text.length = 2 * n →
      (returnStatus text n = 2 * n ↔ IsHexText text) := by
    intro text htext
    constructor
    · intro hstatus
      by_contra hhex
      rw [returnStatus_of_not_hex htext hhex] at hstatus
      omega
    · intro hhex
      exact (returnStatus_of_hex htext hhex).trans hint
  refine ⟨haccepted, fun text htext => returnStatus_of_not_hex htext, ?_, ?_⟩
  · intro text htext hstatus
    have hstored := kStrToInt_stored htext ((haccepted text htext).mp hstatus)
    have hlength : (kStrToInt text n).1.length ≤ 2 ^ 31 := by
      rw [hstored.1, memory_length]
      omega
    rwa [intToStr_of_le hlength]
  · intro bytes hbytes
    have hread := kStrToInt_kIntToStr bytes
    rw [hbytes] at hread
    rw [intToStr_of_le (by omega), returnStatus, hread]
    exact ⟨rfl, (if_pos rfl).trans hint⟩

/-- The bytes of an extended address. -/
theorem kStrToInt_inverse_address : Inverse 8 := kStrToInt_inverse 8 (by decide)

end KappaGateway.Kutil

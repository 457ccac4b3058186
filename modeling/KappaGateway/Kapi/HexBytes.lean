import KappaGateway.Kapi.HexText
import KappaGateway.Lib.Windows
import Mathlib.Logic.Function.Basic

/-!
# Bytes from hexadecimal text

Both decoders take two characters in a round, and make as many rounds as the text has
characters. The bytes of the text come first; as many again are made of its terminator
and of what lies behind it.
-/

namespace KappaGateway.Kutil

open Windows

/-- What `kHexStringToByte` leaves: the memory of the bytes, the characters it has read,
the bytes it has written, and the return value. -/
structure Decoded where
  mem : Nat → UInt8
  reads : List Nat
  writes : List Nat
  returned : Int

/-- The loop of `kHexStringToByte`, from a position of `psrc` and one of `pdst`. -/
def kHexStringToByteLoop (hexString : Nat → UInt8) :
    Nat → Nat → Nat → (Nat → UInt8) → (Nat → UInt8) × List Nat × List Nat
  | 0, _, _, mem => (mem, [], [])
  | asrclen + 1, psrc, pdst, mem =>
      let mem := Function.update mem pdst (kCharToInt (hexString psrc) <<< 4)
      let mem := Function.update mem pdst (mem pdst ||| kCharToInt (hexString (psrc + 1)))
      let (mem, reads, writes) :=
        kHexStringToByteLoop hexString asrclen (psrc + 2) (pdst + 1) mem
      (mem, psrc :: (psrc + 1) :: reads, pdst :: writes)

def kHexStringToByte (outputByte hexString : Nat → UInt8) (stringLength : Nat) : Decoded :=
  let (mem, reads, writes) := kHexStringToByteLoop hexString stringLength 0 0 outputByte
  ⟨mem, reads, writes, asInt (stringLength / 2)⟩

/-- `kHexStringToByte` on the text of some bytes. -/
def decoded (bs : List UInt8) (outputByte beyond : Nat → UInt8) : Decoded :=
  kHexStringToByte outputByte (charAt (kByteToHexString bs) beyond) (2 * bs.length)

/-- Both decoders give the bytes back, and `kHexStringToByte` stays in its buffers. -/
structure Decodes (bs : List UInt8) : Prop where
  vector : ∀ beyond, hexStrToByteVec (kByteToHexString bs) beyond = bs
  bytes : ∀ outputByte beyond, window (decoded bs outputByte beyond).mem 0 bs.length = bs
  reads : ∀ outputByte beyond, ∀ i ∈ (decoded bs outputByte beyond).reads, i < 2 * bs.length
  writes : ∀ outputByte beyond i, i ∈ (decoded bs outputByte beyond).writes ↔ i < bs.length
  returned : ∀ outputByte beyond, (decoded bs outputByte beyond).returned = bs.length

/-! ### The loop -/

/-- The byte of two characters. -/
def pairAt (hexString : Nat → UInt8) (i : Nat) : UInt8 :=
  kCharToInt (hexString i) <<< 4 ||| kCharToInt (hexString (i + 1))

/-- The bytes of as many pairs of characters. -/
def pairsFrom (hexString : Nat → UInt8) : Nat → Nat → List UInt8
  | 0, _ => []
  | n + 1, i => pairAt hexString i :: pairsFrom hexString n (i + 2)

section

variable {hexString : Nat → UInt8}

theorem pairsFrom_eq_map (hexString : Nat → UInt8) (n i : Nat) :
    pairsFrom hexString n i = (List.range n).map fun k => pairAt hexString (i + 2 * k) := by
  induction n generalizing i with
  | zero => rfl
  | succ n ih =>
      have hstep : ∀ k, i + 2 + 2 * k = i + 2 * (k + 1) := fun k => by omega
      simp only [pairsFrom, ih, List.range_succ_eq_map, List.map_cons, List.map_map,
        Function.comp_def, hstep, Nat.mul_zero, Nat.add_zero]

/-- Every round reads the next two characters and writes the next byte. -/
theorem kHexStringToByteLoop_eq (asrclen psrc pdst : Nat) (mem : Nat → UInt8) :
    kHexStringToByteLoop hexString asrclen psrc pdst mem =
      (patch pdst (pairsFrom hexString asrclen psrc) mem, List.range' psrc (2 * asrclen),
        List.range' pdst asrclen) := by
  induction asrclen generalizing psrc pdst mem with
  | zero => exact congrArg₂ Prod.mk (patch_nil pdst mem).symm rfl
  | succ asrclen ih =>
      have hread : List.range' psrc (2 * (asrclen + 1)) =
          psrc :: (psrc + 1) :: List.range' (psrc + 2) (2 * asrclen) := rfl
      have hbyte : kCharToInt (hexString psrc) <<< 4 ||| kCharToInt (hexString (psrc + 1)) =
          pairAt hexString psrc := rfl
      simp only [kHexStringToByteLoop, ih, Function.update_self, Function.update_idem, hbyte,
        pairsFrom, patch_cons, hread, List.range'_succ]

/-! ### Both decoders on the text of some bytes -/

theorem hexStrToByteVec_eq (bs : List UInt8) (beyond : Nat → UInt8) :
    hexStrToByteVec (kByteToHexString bs) beyond =
      pairsFrom (charAt (kByteToHexString bs) beyond) (2 * bs.length) 0 := by
  have heven : ¬ (kByteToHexString bs).length % 2 = 1 := by
    rw [kByteToHexString_length]
    omega
  rw [hexStrToByteVec, if_neg heven, pairsFrom_eq_map, kByteToHexString_length]
  simp only [pairAt, Nat.zero_add]

/-- The bytes come first, and as many others are written behind them. -/
theorem decoded_eq (bs : List UInt8) (outputByte beyond : Nat → UInt8) :
    ∃ extra, extra.length = bs.length ∧
      decoded bs outputByte beyond =
        ⟨patch 0 (bs ++ extra) outputByte, List.range' 0 (2 * (2 * bs.length)),
          List.range' 0 (2 * bs.length), asInt bs.length⟩ := by
  obtain ⟨extra, hlength, hextra⟩ := hexStrToByteVec_hex bs beyond
  refine ⟨extra, hlength, ?_⟩
  rw [hexStrToByteVec_eq] at hextra
  have hhalf : 2 * bs.length / 2 = bs.length := Nat.mul_div_cancel_left _ Nat.zero_lt_two
  rw [decoded, kHexStringToByte, kHexStringToByteLoop_eq, hextra, hhalf]

/-- The decoders invert the encoder on no bytes only. -/
theorem decoders_invert_iff (bs : List UInt8) : Decodes bs ↔ bs = [] := by
  constructor
  · intro h
    obtain ⟨extra, hlength, hextra⟩ := hexStrToByteVec_hex bs fun _ => 0
    rw [h.vector, List.self_eq_append_right] at hextra
    rw [hextra] at hlength
    exact List.length_eq_zero_iff.mp hlength.symm
  · rintro rfl
    refine ⟨fun _ => rfl, fun _ _ => rfl, fun _ _ i hi => ?_, fun _ _ i => ?_, fun _ _ => rfl⟩
    · cases hi
    · exact iff_of_false (List.not_mem_nil) (Nat.not_lt_zero i)

/-- From the text `"2a"`, both decoders make two bytes; the second is made of the
terminator and the character behind it. -/
theorem decoders_of_one_byte :
    hexStrToByteVec (kByteToHexString [0x2a]) (fun _ => 0x30) = [0x2a, 0] ∧
      (decoded [0x2a] (fun _ => 0) fun _ => 0x30).reads = [0, 1, 2, 3] ∧
      (decoded [0x2a] (fun _ => 0) fun _ => 0x30).writes = [0, 1] ∧ ¬ Decodes [0x2a] := by
  refine ⟨by decide, by decide, by decide, ?_⟩
  rw [decoders_invert_iff]
  exact List.cons_ne_nil _ _

end

end KappaGateway.Kutil

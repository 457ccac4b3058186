import KappaGateway.Lib.ShiftRegister
import KappaGateway.Sbl.SerialBootload

/-!
# Bursts and the checksum of an image

`calcCRC` divides the bits of an image, without the four bytes at the slot, by a polynomial
of degree 16. Two images that differ in a short burst have different checksums.
-/

namespace KappaGateway.SerialBootload

open ShiftRegister

/-- `poly` without the highest term. -/
def crcPoly : BitVec 16 := 0x1021

/-- The bits of a byte, the most significant one first. -/
def byteBits (val : UInt8) : List Bool := (List.range 8).map val.toBitVec.getMsbD

/-- The offset of the checksum in an image. -/
def crcSlot : Nat := HAL_SB_CRC_ADDR - HAL_SB_IMG_ADDR

/-- An image without the four bytes at the slot of the checksum. -/
def checkedBytes (image : List UInt8) : List UInt8 :=
  image.take crcSlot ++ image.drop (crcSlot + 4)

/-- The bits of an image, without those at the slot. -/
def imageBits (image : List UInt8) : List Bool := (checkedBytes image).flatMap byteBits

/-! ### The register -/

theorem and_topBit16 (crc : UInt16) : (crc &&& 0x8000 ≠ 0) ↔ crc.toBitVec.msb = true := by
  have hmask : (crc &&& 0x8000).toBitVec = crc.toBitVec &&& BitVec.twoPow 16 15 := rfl
  rw [Ne, ← UInt16.toBitVec_inj, hmask, BitVec.and_twoPow, BitVec.msb_eq_getLsbD_last]
  cases crc.toBitVec.getLsbD 15 <;> decide

theorem and_topBit8 (val : UInt8) : (val &&& 0x80 ≠ 0) ↔ val.toBitVec.getMsbD 0 = true := by
  have hmask : (val &&& 0x80).toBitVec = val.toBitVec &&& BitVec.twoPow 8 7 := rfl
  have hbit : val.toBitVec.getMsbD 0 = val.toBitVec.getLsbD 7 := rfl
  rw [Ne, ← UInt8.toBitVec_inj, hmask, BitVec.and_twoPow, hbit]
  cases val.toBitVec.getLsbD 7 <;> decide

theorem shiftLeft_one_toBitVec (crc : UInt16) (b : Bool) :
    (if b = true then crc <<< 1 ||| 0x0001 else crc <<< 1).toBitVec =
      crc.toBitVec.shiftConcat b := by
  have hshift : (crc <<< 1).toBitVec = crc.toBitVec <<< 1 := by simp
  have hone : (0x0001 : UInt16).toBitVec = 1#16 := rfl
  ext i hi
  cases b with
  | false =>
      rw [if_neg Bool.false_ne_true, hshift, BitVec.getElem_shiftConcat, BitVec.getElem_shiftLeft]
      split <;> simp_all
  | true =>
      rw [if_pos rfl, UInt16.toBitVec_or, hshift, hone, BitVec.getElem_shiftConcat,
        BitVec.getElem_or, BitVec.getElem_shiftLeft, BitVec.getElem_one]
      split <;> simp_all

/-- A round of `runPoly` shifts in the next bit of the byte. -/
theorem runPolyLoop_succ (cnt : Nat) (crc : UInt16) (val : UInt8) :
    ∃ next, runPolyLoop (cnt + 1) crc val = runPolyLoop cnt next (val <<< 1) ∧
      next.toBitVec = shiftIn crcPoly crc.toBitVec (val.toBitVec.getMsbD 0) := by
  refine ⟨_, rfl, ?_⟩
  simp only [and_topBit16, and_topBit8, shiftIn, ← shiftLeft_one_toBitVec]
  split
  · rfl
  · exact (BitVec.xor_zero).symm

theorem runPolyLoop_toBitVec (cnt : Nat) (crc : UInt16) (val : UInt8) :
    (runPolyLoop cnt crc val).toBitVec =
      remainder crcPoly crc.toBitVec ((List.range cnt).map val.toBitVec.getMsbD) := by
  induction cnt generalizing crc val with
  | zero => rfl
  | succ cnt ih =>
      obtain ⟨next, hround, hnext⟩ := runPolyLoop_succ cnt crc val
      have hshift : (List.range cnt).map (val <<< 1).toBitVec.getMsbD =
          (List.range cnt).map (val.toBitVec.getMsbD ∘ Nat.succ) := by
        apply List.map_congr_left
        intro i _
        exact BitVec.getMsbD_shiftLeft val.toBitVec 1
      rw [hround, ih, hnext, hshift, List.range_succ_eq_map, List.map_cons, List.map_map]
      rfl

theorem runPoly_toBitVec (crc : UInt16) (val : UInt8) :
    (runPoly crc val).toBitVec = remainder crcPoly crc.toBitVec (byteBits val) :=
  runPolyLoop_toBitVec 8 crc val

theorem foldl_runPoly_toBitVec (crc : UInt16) (bytes : List UInt8) :
    (bytes.foldl runPoly crc).toBitVec =
      remainder crcPoly crc.toBitVec (bytes.flatMap byteBits) := by
  induction bytes generalizing crc with
  | nil => rfl
  | cons val bytes ih =>
      rw [List.foldl_cons, ih, runPoly_toBitVec, List.flatMap_cons, remainder_append]

/-! ### The bytes of an image -/

/-- A stretch of the image that does not contain the slot. -/
theorem calcCRCLoop_stretch {image : List UInt8} (hlength : image.length = HAL_SB_IMG_SIZE)
    {addr count : Nat} (crc : UInt16) (hsize : addr + count ≤ HAL_SB_IMG_SIZE)
    (hslot : crcSlot < addr ∨ addr + count ≤ crcSlot) :
    calcCRCLoop image addr crc =
      calcCRCLoop image (addr + count) (((image.drop addr).take count).foldl runPoly crc) := by
  induction count generalizing addr crc with
  | zero => rfl
  | succ count ih =>
      have hlt : addr < image.length := by omega
      have hbyte : image.getD addr 0 = image[addr] := by simp [hlt]
      have hne : addr ≠ HAL_SB_CRC_ADDR - HAL_SB_IMG_ADDR := fun heq => by
        rw [crcSlot, ← heq] at hslot
        omega
      rw [calcCRCLoop, if_pos (by omega), if_neg hne, hbyte, ih _ (by omega) (by omega),
        List.drop_eq_getElem_cons hlt, List.take_succ_cons, List.foldl_cons, Nat.add_assoc,
        Nat.add_comm 1]

/-- The loop of `calcCRC` reads every byte but those at the slot. -/
theorem calcCRCLoop_eq {image : List UInt8} (hlength : image.length = HAL_SB_IMG_SIZE) :
    calcCRCLoop image 0 0 = (checkedBytes image).foldl runPoly 0 := by
  have hrest : image.drop (crcSlot + 4) =
      (image.drop (crcSlot + 4)).take (HAL_SB_IMG_SIZE - (crcSlot + 4)) := by
    rw [← hlength, ← List.length_drop, List.take_length]
  have hskip : ∀ crc, calcCRCLoop image crcSlot crc = calcCRCLoop image (crcSlot + 4) crc := by
    intro crc
    have hslot : crcSlot = HAL_SB_CRC_ADDR - HAL_SB_IMG_ADDR := rfl
    rw [calcCRCLoop, if_pos (by decide), if_pos hslot]
  have hend : ∀ crc, calcCRCLoop image HAL_SB_IMG_SIZE crc = crc := by
    intro crc
    rw [calcCRCLoop, if_neg (Nat.lt_irrefl _)]
  calc calcCRCLoop image 0 0
      = calcCRCLoop image crcSlot ((image.take crcSlot).foldl runPoly 0) := by
        rw [calcCRCLoop_stretch hlength 0 (by decide : 0 + crcSlot ≤ _)
          (Or.inr (Nat.le_of_eq (Nat.zero_add _))), Nat.zero_add, List.drop_zero]
    _ = calcCRCLoop image (crcSlot + 4 + (HAL_SB_IMG_SIZE - (crcSlot + 4)))
          ((image.drop (crcSlot + 4)).foldl runPoly ((image.take crcSlot).foldl runPoly 0)) := by
        rw [hskip, calcCRCLoop_stretch hlength _
          (by decide : crcSlot + 4 + (HAL_SB_IMG_SIZE - (crcSlot + 4)) ≤ _) (Or.inl (by decide)),
          ← hrest]
    _ = (checkedBytes image).foldl runPoly 0 := by
        rw [Nat.add_sub_cancel' (by decide), hend, checkedBytes, List.foldl_append]

/-- The checksum is the remainder of the bits of the image and sixteen zeros. -/
theorem calcCRC_toBitVec {image : List UInt8} (hlength : image.length = HAL_SB_IMG_SIZE) :
    (calcCRC image).toBitVec =
      remainder crcPoly 0 (imageBits image ++ List.replicate 16 false) := by
  have hzeros : List.replicate 16 false = byteBits 0 ++ byteBits 0 := by decide
  rw [calcCRC, runPoly_toBitVec, runPoly_toBitVec, calcCRCLoop_eq hlength,
    foldl_runPoly_toBitVec, hzeros, ← List.append_assoc, remainder_append, remainder_append]
  rfl

theorem length_byteBits (val : UInt8) : (byteBits val).length = 8 := by
  rw [byteBits, List.length_map, List.length_range]

theorem length_imageBits {image : List UInt8} (hlength : image.length = HAL_SB_IMG_SIZE) :
    (imageBits image).length = 8 * (HAL_SB_IMG_SIZE - 4) := by
  have hbytes : (checkedBytes image).length = HAL_SB_IMG_SIZE - 4 := by
    rw [checkedBytes, List.length_append, List.length_take, List.length_drop, hlength]
    decide
  rw [imageBits, List.length_flatMap, ← hbytes]
  simp [length_byteBits, Nat.mul_comm]

/-- An image that is accepted has its checksum in the slot. -/
theorem storedCRC_of_accepted {image : List UInt8} (hlength : image.length = HAL_SB_IMG_SIZE)
    (h : sb_image_check (some image) = 0) : storedCRC image = calcCRC image := by
  have htake : image.take HAL_SB_IMG_SIZE = image :=
    List.take_of_length_le (Nat.le_of_eq hlength)
  by_contra hne
  simp [sb_image_check, htake, hlength, hne] at h

/-- Images that differ in a burst of at most 16 bits have different checksums, and they
are not both accepted with the same one in the slot. -/
theorem calcCRC_detects_burst {image image' : List UInt8}
    (hlength : image.length = HAL_SB_IMG_SIZE) (hlength' : image'.length = HAL_SB_IMG_SIZE)
    (hne : imageBits image ≠ imageBits image')
    (hburst : DiffersWithin 16 (imageBits image) (imageBits image')) :
    calcCRC image ≠ calcCRC image' ∧ (storedCRC image = storedCRC image' →
      ¬ (sb_image_check (some image) = 0 ∧ sb_image_check (some image') = 0)) := by
  have hpoly : crcPoly.getLsbD 0 = true := by decide
  have hbits : (imageBits image).length = (imageBits image').length :=
    (length_imageBits hlength).trans (length_imageBits hlength').symm
  have hdetected : calcCRC image ≠ calcCRC image' := by
    intro heq
    have hremainder := congrArg UInt16.toBitVec heq
    rw [calcCRC_toBitVec hlength, calcCRC_toBitVec hlength', remainder_append,
      remainder_append] at hremainder
    exact remainder_ne_of_burst hpoly hbits hne hburst (remainder_injective hpoly hremainder)
  refine ⟨hdetected, ?_⟩
  rintro hstored ⟨haccepted, haccepted'⟩
  apply hdetected
  calc calcCRC image
      = storedCRC image := (storedCRC_of_accepted hlength haccepted).symm
    _ = storedCRC image' := hstored
    _ = calcCRC image' := storedCRC_of_accepted hlength' haccepted'

/-- Zeros up to a last byte. -/
def zerosThen (last : UInt8) : List UInt8 := List.replicate (HAL_SB_IMG_SIZE - 1) 0 ++ [last]

theorem zerosThen_length (last : UInt8) : (zerosThen last).length = HAL_SB_IMG_SIZE := by
  rw [zerosThen, List.length_append, List.length_replicate]
  rfl

theorem imageBits_zerosThen :
    ∃ p, ∀ last, imageBits (zerosThen last) = p ++ byteBits last := by
  refine ⟨(checkedBytes (List.replicate (HAL_SB_IMG_SIZE - 1) 0)).flatMap byteBits, ?_⟩
  intro last
  have hfront : crcSlot ≤ (List.replicate (HAL_SB_IMG_SIZE - 1) (0 : UInt8)).length := by
    rw [List.length_replicate]
    decide
  have hback : crcSlot + 4 ≤ (List.replicate (HAL_SB_IMG_SIZE - 1) (0 : UInt8)).length := by
    rw [List.length_replicate]
    decide
  rw [imageBits, zerosThen, checkedBytes, checkedBytes, List.take_append_of_le_length hfront,
    List.drop_append_of_le_length hback, ← List.append_assoc, List.flatMap_append,
    List.flatMap_singleton]

theorem calcCRC_detects_burst_lastByte : calcCRC (zerosThen 1) ≠ calcCRC (zerosThen 0x80) := by
  obtain ⟨p, hp⟩ := imageBits_zerosThen
  have hdiffers : imageBits (zerosThen 1) ≠ imageBits (zerosThen 0x80) := by
    rw [hp, hp, Ne, List.append_cancel_left_eq]
    decide
  have hburst : DiffersWithin 16 (imageBits (zerosThen 1)) (imageBits (zerosThen 0x80)) := by
    rw [hp, hp]
    exact differsWithin_append p (by decide) (by decide)
  exact (calcCRC_detects_burst (zerosThen_length 1) (zerosThen_length 0x80) hdiffers hburst).1

end KappaGateway.SerialBootload

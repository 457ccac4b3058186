import KappaGateway.Sbl.ChunkTransfer
import Mathlib.Data.List.Basic

/-!
# Transient write faults

The loop over the file writes the chunks one after the other, each to its own
word address. Flashing succeeds exactly if the boot loader corrupts no write
that it acknowledges first.
-/

namespace KappaGateway.SerialBootload

open Loop

/-! ### The whole image -/

/-- The word address of a chunk. -/
def chunkAddr (i : Nat) : UInt16 := UInt16.ofNat (16 * i)

/-- A chunk of the image. -/
def block (image : List UInt8) (i : Nat) : Block :=
  Vector.ofFn fun j => image.getD (SB_RW_BUF_LEN * i + j) 0

theorem block_getElem (image : List UInt8) (i : Nat) {j : Nat} (hj : j < SB_RW_BUF_LEN) :
    (block image i)[j] = image.getD (SB_RW_BUF_LEN * i + j) 0 := by
  simp [block]

theorem chunkAddr_inj {i j : Nat} (hi : i < 4096) (hj : j < 4096)
    (h : chunkAddr i = chunkAddr j) : i = j := by
  have hnat := congrArg UInt16.toNat h
  rw [chunkAddr, chunkAddr, UInt16.toNat_ofNat', UInt16.toNat_ofNat',
    Nat.mod_eq_of_lt (by omega), Nat.mod_eq_of_lt (by omega)] at hnat
  omega

theorem chunkAddr_succ (i : Nat) : chunkAddr i + 16 = chunkAddr (i + 1) := by
  rw [chunkAddr, chunkAddr, Nat.mul_succ, UInt16.ofNat_add]
  rfl

theorem block_toList {image : List UInt8} {i : Nat}
    (h : SB_RW_BUF_LEN * (i + 1) ≤ image.length) :
    (block image i).toList = (image.drop (SB_RW_BUF_LEN * i)).take SB_RW_BUF_LEN := by
  rw [Nat.mul_succ] at h
  apply List.ext_getElem
  · simp
    omega
  · intro j hj hj'
    have hlt : SB_RW_BUF_LEN * i + j < image.length := by
      rw [Vector.length_toList] at hj
      omega
    simp [block, List.getElem?_eq_getElem hlt]

/-- The chunks make up the image. -/
theorem flatMap_block {image : List UInt8} {n : Nat} (h : SB_RW_BUF_LEN * n ≤ image.length) :
    (List.range n).flatMap (fun i => (block image i).toList) =
      image.take (SB_RW_BUF_LEN * n) := by
  induction n with
  | zero => simp
  | succ n ih =>
      have hprev : SB_RW_BUF_LEN * n ≤ image.length := by
        rw [Nat.mul_succ] at h
        omega
      calc (List.range (n + 1)).flatMap (fun i => (block image i).toList)
          = image.take (SB_RW_BUF_LEN * n) ++ (block image n).toList := by
            rw [List.range_succ, List.flatMap_append, ih hprev, List.flatMap_singleton]
        _ = image.take (SB_RW_BUF_LEN * n) ++
              (image.drop (SB_RW_BUF_LEN * n)).take SB_RW_BUF_LEN := by rw [block_toList h]
        _ = image.take (SB_RW_BUF_LEN * (n + 1)) := by rw [Nat.mul_succ, List.take_add]

/-- The loop over the file is at a chunk; the writes to it and to the later ones
are still to come. -/
structure AtChunk (image : List UInt8) (plan : UInt16 → List (Option Fault)) (n k : Nat)
    (s : Vars BootLoader) : Prop where
  file : s.file = image.drop (SB_RW_BUF_LEN * k)
  addr : s.addr = chunkAddr k
  plan : ∀ i, k ≤ i → i < n → s.world.plan (chunkAddr i) = plan (chunkAddr i)

section

variable {image : List UInt8} {plan : UInt16 → List (Option Fault)} {n k fuel : Nat}
  {s : Vars BootLoader}

theorem AtChunk.start (image : List UInt8) (n : Nat) (stack : Vars BootLoader) :
    AtChunk image stack.world.plan n 0
      { stack with
        file := image
        addr := 0
        rtnval := 0 } :=
  ⟨rfl, rfl, fun _ _ _ => rfl⟩

theorem AtChunk.length (h : AtChunk image plan n k s) (himage : image.length = SB_RW_BUF_LEN * n)
    (hk : k < n) : SB_RW_BUF_LEN ≤ s.file.length := by
  have hle : SB_RW_BUF_LEN * (k + 1) ≤ SB_RW_BUF_LEN * n := Nat.mul_le_mul_left _ hk
  rw [Nat.mul_succ] at hle
  rw [h.file, List.length_drop, himage]
  omega

theorem AtChunk.data (h : AtChunk image plan n k s) (himage : image.length = SB_RW_BUF_LEN * n)
    (hk : k < n) : s.data = block image k := by
  have hlength := h.length himage hk
  ext i hi
  have hlt : SB_RW_BUF_LEN * k + i < image.length := by
    rw [h.file, List.length_drop] at hlength
    omega
  simp [Vars.data, readChunk, fill, block, h.file, List.getElem?_eq_getElem hlt]

/-- A clean chunk is written, and the loop goes to the next one. -/
theorem AtChunk.step (h : AtChunk image plan n k s) (himage : image.length = SB_RW_BUF_LEN * n)
    (hn : n ≤ 4096) (hk : k < n) (hplan : Transient (block image k) (plan (chunkAddr k)))
    (hclean : AckClean (plan (chunkAddr k))) (hfuel : 3 < fuel) :
    ∃ t, chunkRound BootLoader.mtSend fuel s = .goesOn t ∧ AtChunk image plan n (k + 1) t ∧
      0 < t.fileBufLen ∧ t.rtnval = s.rtnval ∧
      t.world.flash (chunkAddr k) = block image k ∧
      ∀ i < n, i ≠ k → t.world.flash (chunkAddr i) = s.world.flash (chunkAddr i) := by
  have hdata := h.data himage hk
  have hhere : s.world.plan s.addr = plan (chunkAddr k) := by
    rw [h.addr]
    exact h.plan k (Nat.le_refl k) hk
  obtain ⟨t, hround, hworld, hfile, hlen, haddr, hrtn⟩ := chunkRound_clean
    (h.length himage hk) (hdata ▸ hhere ▸ hplan) (hhere ▸ hclean) hfuel
  have hother : ∀ i < n, i ≠ k → chunkAddr i ≠ s.addr := by
    intro i hi hne heq
    rw [h.addr] at heq
    exact hne (chunkAddr_inj (by omega) (by omega) heq)
  refine ⟨t, hround, ⟨?_, ?_, ?_⟩, ?_, hrtn, ?_, ?_⟩
  · rw [hfile, h.file, List.drop_drop, Nat.mul_succ]
  · rw [haddr, h.addr, chunkAddr_succ]
  · intro i hki hi
    rw [hworld]
    exact (Function.update_of_ne (hother i hi (by omega)) _ _).trans (h.plan i (by omega) hi)
  · rw [hlen]
    decide
  · rw [hworld, ← h.addr, BootLoader.acknowledge, hdata, hhere]
    exact (Function.update_self ..).trans ((settled_eq_iff hplan.corrupted).mpr hclean)
  · intro i hi hne
    rw [hworld]
    exact Function.update_of_ne (hother i hi hne) _ _

/-- With clean chunks only, the loop comes to the end of the file. -/
theorem AtChunk.run {left bound : Nat} (h : AtChunk image plan n k s)
    (himage : image.length = SB_RW_BUF_LEN * n) (hn : n ≤ 4096) (hleft : k + left = n)
    (hplan : ∀ i < n, Transient (block image i) (plan (chunkAddr i)))
    (hclean : ∀ i, k ≤ i → i < n → AckClean (plan (chunkAddr i))) (hfuel : 3 < fuel)
    (hbound : left < bound) :
    ∃ t, doLoop (0 < ·.fileBufLen) (chunkRound BootLoader.mtSend fuel) bound s = .goesOn t ∧
      t.rtnval = s.rtnval ∧
      (∀ i, k ≤ i → i < n → t.world.flash (chunkAddr i) = block image i) ∧
      ∀ i < k, i < n → t.world.flash (chunkAddr i) = s.world.flash (chunkAddr i) := by
  induction left generalizing k s bound with
  | zero =>
      obtain ⟨bound, rfl⟩ : ∃ b, bound = b + 1 := ⟨bound - 1, by omega⟩
      have hend : s.file = [] := by
        rw [h.file, List.drop_eq_nil_iff, himage, ← hleft]
        exact Nat.le_refl _
      obtain ⟨t, hround, hworld, hlen, hrtn⟩ := chunkRound_end BootLoader.mtSend fuel hend
      refine ⟨t, doLoop_done hround (by rw [hlen]; exact Nat.lt_irrefl 0), hrtn, ?_, ?_⟩
      · intro i hki hi
        omega
      · intro i _ _
        rw [hworld]
  | succ left ih =>
      obtain ⟨bound, rfl⟩ : ∃ b, bound = b + 1 := ⟨bound - 1, by omega⟩
      have hk : k < n := by omega
      obtain ⟨t, hround, ht, hlen, hrtn, hflash, hothers⟩ :=
        h.step himage hn hk (hplan k hk) (hclean k (Nat.le_refl k) hk) hfuel
      obtain ⟨u, hrun, hrtn', hlater, hearlier⟩ := ih ht (by omega)
        (fun i hki hi => hclean i (by omega) hi) (show left < bound by omega)
      refine ⟨u, (doLoop_goesOn hround hlen).trans hrun, hrtn'.trans hrtn, ?_, ?_⟩
      · intro i hki hi
        rcases Nat.eq_or_lt_of_le hki with rfl | hlt
        · rw [hearlier k (Nat.lt_succ_self k) hi, hflash]
        · exact hlater i hlt hi
      · intro i hik hi
        rw [hearlier i (by omega) hi, hothers i hi (by omega)]

/-- The first chunk that is not clean ends the program. -/
theorem AtChunk.exits {left bound : Nat} (h : AtChunk image plan n k s)
    (himage : image.length = SB_RW_BUF_LEN * n) (hn : n ≤ 4096) (hleft : k + left = n)
    (hplan : ∀ i < n, Transient (block image i) (plan (chunkAddr i)))
    (hbad : ∃ i, k ≤ i ∧ i < n ∧ ¬ AckClean (plan (chunkAddr i))) (hfuel : 3 < fuel)
    (hbound : left < bound) :
    ∃ t, doLoop (0 < ·.fileBufLen) (chunkRound BootLoader.mtSend fuel) bound s = .exits t := by
  induction left generalizing k s bound with
  | zero =>
      obtain ⟨i, hki, hi, -⟩ := hbad
      omega
  | succ left ih =>
      have hk : k < n := by omega
      by_cases hclean : AckClean (plan (chunkAddr k))
      · obtain ⟨bound, rfl⟩ : ∃ b, bound = b + 1 := ⟨bound - 1, by omega⟩
        obtain ⟨t, hround, ht, hlen, -⟩ := h.step himage hn hk (hplan k hk) hclean hfuel
        rw [doLoop_goesOn hround hlen]
        refine ih ht (by omega) ?_ (by omega)
        obtain ⟨i, hki, hi, hi'⟩ := hbad
        refine ⟨i, Nat.lt_of_le_of_ne hki ?_, hi, hi'⟩
        rintro rfl
        exact hi' hclean
      · have hhere : s.world.plan s.addr = plan (chunkAddr k) := by
          rw [h.addr]
          exact h.plan k (Nat.le_refl k) hk
        obtain ⟨t, hround⟩ := chunkRound_corrupted (h.length himage hk)
          (h.data himage hk ▸ hhere ▸ hplan k hk) (hhere ▸ hclean) hfuel
        exact ⟨t, doLoop_exits hround⟩

end

/-- The chunks of an image. -/
def imgChunks : Nat := HAL_SB_IMG_SIZE / SB_RW_BUF_LEN

/-- No part of a chunk is left at the end. -/
theorem chunks_size : HAL_SB_IMG_SIZE = SB_RW_BUF_LEN * imgChunks := by decide

/-- The word addresses of the chunks are below `2 ^ 16`. -/
theorem imgChunks_bounds : 3 < imgChunks ∧ imgChunks ≤ 4096 := by decide

/-- One chunk that is not clean is enough. -/
theorem sb_image_write_exits {image : List UInt8} (himage : image.length = HAL_SB_IMG_SIZE)
    (stack : Vars BootLoader)
    (hplan : ∀ i < imgChunks, Transient (block image i) (stack.world.plan (chunkAddr i)))
    (hbad : ∃ i < imgChunks, ¬ AckClean (stack.world.plan (chunkAddr i))) {fuel : Nat}
    (hfuel : imgChunks < fuel) :
    ∃ t, sb_image_write BootLoader.mtSend fuel (some image) stack = .exits t := by
  obtain ⟨hfew, hmany⟩ := imgChunks_bounds
  obtain ⟨i, hi, hi'⟩ := hbad
  exact (AtChunk.start image imgChunks stack).exits (himage.trans chunks_size) hmany
    (Nat.zero_add _) hplan ⟨i, Nat.zero_le i, hi, hi'⟩ (Nat.lt_trans hfew hfuel) hfuel

/-- A boot loader with at most two faults in each chunk is flashed exactly if in
every chunk the first write that it acknowledges is not a corrupted one. -/
theorem flash_transient_faults {image : List UInt8} (himage : image.length = HAL_SB_IMG_SIZE)
    (stack : Vars BootLoader)
    (hplan : ∀ i < imgChunks, Transient (block image i) (stack.world.plan (chunkAddr i)))
    {fuel : Nat} (hfuel : imgChunks < fuel) :
    (∃ t, sb_image_write BootLoader.mtSend fuel (some image) stack = .goesOn t ∧ t.rtnval = 0 ∧
        t.world.content imgChunks = image) ↔
      ∀ i < imgChunks, AckClean (stack.world.plan (chunkAddr i)) := by
  constructor
  · rintro ⟨t, hrun, -, -⟩
    by_contra hbad
    push Not at hbad
    obtain ⟨u, hexits⟩ := sb_image_write_exits himage stack hplan hbad hfuel
    rw [hrun] at hexits
    cases hexits
  · intro hclean
    obtain ⟨hfew, hmany⟩ := imgChunks_bounds
    have hsize := himage.trans chunks_size
    obtain ⟨t, hrun, hrtn, hflash, -⟩ := (AtChunk.start image imgChunks stack).run hsize hmany
      (Nat.zero_add _) hplan (fun i _ hi => hclean i hi) (Nat.lt_trans hfew hfuel) hfuel
    have hblocks : t.world.content imgChunks =
        (List.range imgChunks).flatMap fun i => (block image i).toList := by
      apply List.flatMap_congr
      intro i hi
      rw [← hflash i (Nat.zero_le i) (List.mem_range.mp hi)]
      rfl
    refine ⟨t, hrun, hrtn, ?_⟩
    calc t.world.content imgChunks
        = image.take (SB_RW_BUF_LEN * imgChunks) := by
          rw [hblocks, flatMap_block (Nat.le_of_eq hsize.symm)]
      _ = image := by rw [← hsize, List.take_length]

/-! ### A corrupted write -/

/-- Zeros up to a last byte of 1, and the checksum of that. -/
def sampleImage : List UInt8 :=
  (List.range HAL_SB_IMG_SIZE).map fun addr =>
    if addr = 0x90 then 0x21 else if addr = 0x91 then 0x10
    else if addr = HAL_SB_IMG_SIZE - 1 then 1 else 0

theorem sampleImage_length : sampleImage.length = HAL_SB_IMG_SIZE := by
  rw [sampleImage, List.length_map, List.length_range]

theorem sampleImage_getD {addr : Nat} (h : addr < HAL_SB_IMG_SIZE) :
    sampleImage.getD addr 0 =
      if addr = 0x90 then 0x21 else if addr = 0x91 then 0x10
      else if addr = HAL_SB_IMG_SIZE - 1 then 1 else 0 := by
  simp [sampleImage, h]

/-- Zeros do not change a checksum of zero. -/
theorem calcCRCLoop_zeros (image : List UInt8) (addr count : Nat)
    (hsize : addr + count ≤ HAL_SB_IMG_SIZE)
    (h : ∀ i, addr ≤ i → i < addr + count →
      i ≠ HAL_SB_CRC_ADDR - HAL_SB_IMG_ADDR ∧ image.getD i 0 = 0) :
    calcCRCLoop image addr 0 = calcCRCLoop image (addr + count) 0 := by
  induction count generalizing addr with
  | zero => rfl
  | succ count ih =>
      obtain ⟨hslot, hzero⟩ := h addr (Nat.le_refl addr) (by omega)
      have hstep : runPoly 0 0 = 0 := by decide
      have hnext := ih (addr + 1) (by omega) fun i hi hi' => h i (by omega) (by omega)
      calc calcCRCLoop image addr 0
          = calcCRCLoop image (addr + 1) 0 := by
            rw [calcCRCLoop, if_pos (by omega), if_neg hslot, hzero, hstep]
        _ = calcCRCLoop image (addr + (count + 1)) 0 := by
            rw [hnext, Nat.add_assoc, Nat.add_comm 1]

theorem sampleImage_calcCRC : calcCRC sampleImage = 0x1021 := by
  have hzero : ∀ i, i + 1 < HAL_SB_IMG_SIZE → i < 0x90 ∨ 0x94 ≤ i →
      i ≠ HAL_SB_CRC_ADDR - HAL_SB_IMG_ADDR ∧ sampleImage.getD i 0 = 0 := by
    intro i hi hslot
    have hne : i ≠ 0x90 ∧ i ≠ 0x91 ∧ i ≠ HAL_SB_IMG_SIZE - 1 := by omega
    refine ⟨hne.1, ?_⟩
    rw [sampleImage_getD (by omega), if_neg hne.1, if_neg hne.2.1, if_neg hne.2.2]
  have hfront : calcCRCLoop sampleImage 0 0 = calcCRCLoop sampleImage 0x90 0 :=
    calcCRCLoop_zeros sampleImage 0 0x90 (by decide) fun i _ hi =>
      hzero i (Nat.lt_trans (Nat.succ_lt_succ hi) (by decide)) (Or.inl hi)
  have hslot : calcCRCLoop sampleImage 0x90 0 = calcCRCLoop sampleImage 0x94 0 := by
    rw [calcCRCLoop, if_pos (by decide), if_pos (by decide)]
  have hend : 0x94 + (HAL_SB_IMG_SIZE - 1 - 0x94) = HAL_SB_IMG_SIZE - 1 := by decide
  have hback := calcCRCLoop_zeros sampleImage 0x94 (HAL_SB_IMG_SIZE - 1 - 0x94) (by omega)
    fun i hi hi' => hzero i (by omega) (Or.inr hi)
  rw [hend] at hback
  have hlast : calcCRCLoop sampleImage (HAL_SB_IMG_SIZE - 1) 0 = runPoly 0 1 := by
    rw [calcCRCLoop, if_pos (by decide), if_neg (by decide), sampleImage_getD (by decide),
      calcCRCLoop, if_neg (by decide)]
    rfl
  calc calcCRC sampleImage
      = runPoly (runPoly (runPoly 0 1) 0) 0 := by
        rw [calcCRC, hfront, hslot, hback, hlast]
    _ = 0x1021 := by decide +kernel

theorem sampleImage_accepted : sb_image_check (some sampleImage) = 0 := by
  have hstored : storedCRC sampleImage = 0x1021 := by
    rw [storedCRC, sampleImage_getD (by decide), sampleImage_getD (by decide)]
    decide
  have htake : sampleImage.take HAL_SB_IMG_SIZE = sampleImage :=
    List.take_of_length_le (Nat.le_of_eq sampleImage_length)
  rw [sb_image_check, htake]
  simp only [sampleImage_length, hstored, sampleImage_calcCRC]
  decide

/-- A boot loader with one fault, in the first write to the first chunk. -/
def loaderWith (fault : Fault) : BootLoader where
  flash _ := Vector.replicate SB_RW_BUF_LEN 0xff
  plan a := if a = 0 then [some fault] else []

/-- A chunk of other bytes than the image begins with. -/
def otherBlock : Block := Vector.replicate SB_RW_BUF_LEN 1

theorem otherBlock_ne : otherBlock ≠ block sampleImage 0 := by
  intro heq
  have hfirst := block_getElem sampleImage 0 (j := 0) (by decide)
  rw [sampleImage_getD (by decide), ← heq, otherBlock, Vector.getElem_replicate] at hfirst
  exact absurd hfirst (by decide)

theorem loaderWith_first (fault : Fault) :
    (loaderWith fault).plan (chunkAddr 0) = [some fault] := by
  have hzero : chunkAddr 0 = 0 := by decide
  simp only [loaderWith, if_pos hzero]

theorem loaderWith_later (fault : Fault) {i : Nat} (hi : i < imgChunks) (hne : i ≠ 0) :
    (loaderWith fault).plan (chunkAddr i) = [] := by
  have haddr : chunkAddr i ≠ 0 := fun h =>
    hne (chunkAddr_inj (Nat.lt_trans hi (by decide)) (by decide) h)
  exact if_neg haddr

theorem loaderWith_transient {fault : Fault} (h : Transient (block sampleImage 0) [some fault])
    {i : Nat} (hi : i < imgChunks) :
    Transient (block sampleImage i) ((loaderWith fault).plan (chunkAddr i)) := by
  by_cases hzero : i = 0
  · rw [hzero, loaderWith_first]
    exact h
  · rw [loaderWith_later fault hi hzero]
    exact ⟨by decide, by simp, by simp⟩

/-- What may have been on the stack. -/
def stackWith (d : BootLoader) : Vars BootLoader :=
  ⟨d, [], 0, 0, 0, 0, 0, 0, 0, 0, otherBlock, ⟨0, 0, 0, otherBlock⟩⟩

/-- A refused write is repeated. -/
theorem flash_transient_faults_refused :
    ∃ t, sb_image_write BootLoader.mtSend (imgChunks + 1) (some sampleImage)
        (stackWith (loaderWith (.refused 1 none))) = .goesOn t ∧
      t.rtnval = 0 ∧ t.world.content imgChunks = sampleImage := by
  have hfault : Transient (block sampleImage 0) [some (.refused 1 none)] := by
    refine ⟨by decide, ?_, by simp⟩
    intro status stored hmem
    simp only [List.mem_singleton, Option.some.injEq, Fault.refused.injEq] at hmem
    rw [hmem.1]
    decide
  have hplan : ∀ i < imgChunks, Transient (block sampleImage i)
      ((loaderWith (.refused 1 none)).plan (chunkAddr i)) :=
    fun i hi => loaderWith_transient hfault hi
  apply (flash_transient_faults sampleImage_length _ hplan (Nat.lt_succ_self _)).mpr
  intro i hi
  show AckClean ((loaderWith (.refused 1 none)).plan (chunkAddr i))
  by_cases hzero : i = 0
  · rw [hzero, loaderWith_first]
    trivial
  · rw [loaderWith_later _ hi hzero]
    trivial

/-- A corrupted write ends the program. -/
theorem flash_transient_faults_corrupted :
    sb_image_check (some sampleImage) = 0 ∧ sampleImage.length = HAL_SB_IMG_SIZE ∧
      (∀ i < imgChunks, Transient (block sampleImage i)
        ((loaderWith (.corrupted otherBlock)).plan (chunkAddr i))) ∧
      ∀ stack : Vars BootLoader, stack.world = loaderWith (.corrupted otherBlock) →
        ∀ fuel > imgChunks,
          ∃ t, sb_image_write BootLoader.mtSend fuel (some sampleImage) stack = .exits t := by
  have hfault : Transient (block sampleImage 0) [some (.corrupted otherBlock)] := by
    refine ⟨by decide, by simp, ?_⟩
    intro stored hmem
    simp only [List.mem_singleton, Option.some.injEq, Fault.corrupted.injEq] at hmem
    rw [hmem]
    exact otherBlock_ne
  have hplan : ∀ i < imgChunks, Transient (block sampleImage i)
      ((loaderWith (.corrupted otherBlock)).plan (chunkAddr i)) :=
    fun i hi => loaderWith_transient hfault hi
  refine ⟨sampleImage_accepted, sampleImage_length, hplan, ?_⟩
  intro stack hstack fuel hfuel
  rw [← hstack] at hplan
  refine sb_image_write_exits sampleImage_length stack hplan ⟨0, by decide, ?_⟩ hfuel
  rw [hstack, loaderWith_first]
  exact id

end KappaGateway.SerialBootload

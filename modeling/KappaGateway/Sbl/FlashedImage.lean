import KappaGateway.Sbl.FlashVerified

/-!
# What is flashed and what was checked

`sb_image_check` reads as many bytes as an image has, and `sb_image_write` writes up to
the end of the file. The word address has 16 bits, and a last chunk that is not full is
sent with the end of the one before.
-/

namespace KappaGateway.SerialBootload

open Loop

variable {W : Type*}

/-- A device that answers every request successfully, and reads back what was written. -/
def Honest (mtSend : MtSend W) : Prop :=
  ∀ low high data w, ∃ rsp w', mtSend (.write low high data) w = (some rsp, w') ∧
    rsp.status = SB_SUCCESS ∧
    ∃ rsp' w'', mtSend (.read low high) w' = (some rsp', w'') ∧ rsp'.status = SB_SUCCESS ∧
      rsp'.data = data

/-- `mtSend` with a record of the requests. -/
def recorded (mtSend : MtSend W) : MtSend (W × List MtReq) := fun req w =>
  ((mtSend req w.1).1, (mtSend req w.1).2, w.2 ++ [req])

/-- The write requests: their word addresses and their data. -/
def writeRequests (requests : List MtReq) : List (UInt16 × Block) :=
  requests.filterMap fun
    | .write low high data => some (wordAddr low high, data)
    | .read _ _ => none

/-- The write requests carry the addresses 0, 16, 32, … and the bytes that were checked. -/
structure FlashedAsChecked (image : List UInt8) (writes : List (UInt16 × Block)) : Prop where
  addresses : writes.map (·.1.toNat) = (List.range writes.length).map (16 * ·)
  bodies : writes.flatMap (·.2.toList) = image.take HAL_SB_IMG_SIZE

/-! ### The requests for a chunk -/

section

variable {mtSend : MtSend W} {s : Vars (W × List MtReq)} {fuel : Nat}

/-- The requests for a chunk. -/
def chunkRequests (addr : UInt16) (data : Block) : List MtReq :=
  [.write (addrLow addr) (addrHigh addr) data, .read (addrLow addr) (addrHigh addr)]

/-- A first round with an honest device writes and reads once. -/
theorem verifyRound_honest (h : Honest mtSend) (hstatus : s.returnStatus ≠ SB_SUCCESS)
    (hfuel : 1 < fuel) :
    ∃ t, verifyRound (recorded mtSend) fuel s = .goesOn t ∧
      t.world.2 = s.world.2 ++ chunkRequests s.addr s.wrReq ∧ t.readbackStatus = 0 ∧
      t.file = s.file ∧ t.fileBufLen = s.fileBufLen ∧ t.addr = s.addr ∧ t.wrReq = s.wrReq := by
  obtain ⟨fuel, rfl⟩ : ∃ f, fuel = f + 2 := ⟨fuel - 2, by omega⟩
  obtain ⟨rsp, w', hwrite, haccepted, rsp', w'', hread, hsuccess, hdata⟩ :=
    h (addrLow s.addr) (addrHigh s.addr) s.wrReq s.world.1
  let u : Vars (W × List MtReq) := { s with
    world := (w', s.world.2 ++ [.write (addrLow s.addr) (addrHigh s.addr) s.wrReq])
    wrRetry := 0
    rdRetry := 0
    returnStatus := rsp.status }
  have hwriteRound : writeRound (recorded mtSend) { s with wrRetry := 0, rdRetry := 0 } =
      .goesOn u := by
    simp only [writeRound, recorded, hwrite, haccepted, u]
    rfl
  have hwriteLoop : loop Unwritten (writeRound (recorded mtSend)) (fuel + 2)
      { s with wrRetry := 0, rdRetry := 0 } = .goesOn u := by
    rw [loop_goesOn ⟨hstatus, Nat.zero_lt_succ 2⟩ hwriteRound]
    exact loop_done fun hagain => hagain.1 haccepted
  let v : Vars (W × List MtReq) := { u with
    world := (w'', u.world.2 ++ [.read (addrLow s.addr) (addrHigh s.addr)])
    rdRsp := rsp'
    readbackStatus := 0 }
  have hreadRound : readRound (recorded mtSend) { u with readbackStatus := -1 } = .goesOn v := by
    have hsame : ¬ s.wrReq ≠ rsp'.data := not_not.mpr hdata.symm
    have hstatus' : ¬ rsp'.status ≠ SB_SUCCESS := not_not.mpr hsuccess
    simp only [readRound, recorded, u, hread, if_neg hstatus', compareBack, if_neg hsame, v]
  have hreadLoop : loop Unread (readRound (recorded mtSend)) (fuel + 2)
      { u with readbackStatus := -1 } = .goesOn v := by
    rw [loop_goesOn ⟨show (-1 : Int) ≠ 0 by decide, Nat.zero_lt_succ 2⟩ hreadRound]
    exact loop_done fun hagain => hagain.1 rfl
  refine ⟨{ v with rwRetry := v.rwRetry + 1 }, ?_, ?_, rfl, rfl, rfl, rfl, rfl⟩
  · rw [verifyRound, hwriteLoop, Flow.goesOn_andThen, if_neg (not_not.mpr haccepted), hreadLoop]
    rfl
  · exact List.append_assoc _ _ _

/-- A chunk is sent once and read back once. -/
theorem chunkRound_honest (h : Honest mtSend) (hfile : s.file ≠ []) (hfuel : 1 < fuel) :
    ∃ t, chunkRound (recorded mtSend) fuel s = .goesOn t ∧
      t.world.2 = s.world.2 ++ chunkRequests s.addr (readChunk s).wrReq ∧
      t.file = s.file.drop SB_RW_BUF_LEN ∧ 0 < t.fileBufLen ∧ t.addr = s.addr + 16 ∧
      t.wrReq = (readChunk s).wrReq := by
  have hlen := readChunk_pos hfile
  have hunverified : Unverified (readChunk s) :=
    ⟨show (-1 : Int) ≠ 0 by decide, Nat.zero_lt_succ 2⟩
  obtain ⟨t, hround, hworld, hread, hrest, hcount, haddr, hdata⟩ :=
    verifyRound_honest (s := readChunk s) h (show (0xff : UInt8) ≠ SB_SUCCESS by decide) hfuel
  obtain ⟨fuel, rfl⟩ : ∃ f, fuel = f + 2 := ⟨fuel - 2, by omega⟩
  rw [chunkRound, if_pos hlen, loop_goesOn hunverified hround,
    loop_done fun hagain => hagain.1 hread, Flow.goesOn_andThen, if_neg (not_not.mpr hread)]
  refine ⟨_, rfl, hworld, hrest, hcount ▸ hlen, ?_, hdata⟩
  exact congrArg (· + 16) haddr

end

/-! ### All requests -/

/-- The requests for the first chunks of a file. -/
def imageRequests (buf : Block) (image : List UInt8) (n : Nat) : List MtReq :=
  (List.range n).flatMap fun k => chunkRequests (chunkAddr k) (sent buf image k)

theorem imageRequests_succ (buf : Block) (image : List UInt8) (n : Nat) :
    imageRequests buf image (n + 1) =
      imageRequests buf image n ++ chunkRequests (chunkAddr n) (sent buf image n) := by
  rw [imageRequests, List.range_succ, List.flatMap_append, List.flatMap_singleton]
  rfl

/-- The state before chunk `k`. -/
structure Sending (buf : Block) (image : List UInt8) (k : Nat) (s : Vars (W × List MtReq)) :
    Prop where
  file : s.file = image.drop (SB_RW_BUF_LEN * k)
  addr : s.addr = chunkAddr k
  wrReq : s.wrReq = wrBuf buf image k
  requests : s.world.2 = imageRequests buf image k

section

variable {mtSend : MtSend W} {s : Vars (W × List MtReq)} {buf : Block} {image : List UInt8}
  {k fuel : Nat}

theorem Sending.step (h : Sending buf image k s) (hdevice : Honest mtSend)
    (hk : k < chunkCount image) (hfuel : 1 < fuel) :
    ∃ t, chunkRound (recorded mtSend) fuel s = .goesOn t ∧ 0 < t.fileBufLen ∧
      Sending buf image (k + 1) t := by
  have hfile : s.file ≠ [] := by
    rw [h.file]
    exact lt_chunkCount.mp hk
  have hchunk : (readChunk s).wrReq = sent buf image k := by
    simp only [readChunk, h.file, h.wrReq]
    rfl
  obtain ⟨t, hround, hworld, hrest, hlen, haddr, hdata⟩ := chunkRound_honest hdevice hfile hfuel
  refine ⟨t, hround, hlen, ?_, ?_, ?_, ?_⟩
  · rw [hrest, h.file, List.drop_drop, Nat.mul_succ]
  · rw [haddr, h.addr, chunkAddr_succ]
  · rw [hdata, hchunk]
    rfl
  · rw [hworld, h.requests, h.addr, hchunk, imageRequests_succ]

/-- The whole file is sent. -/
theorem Sending.run (h : Sending buf image k s) (hdevice : Honest mtSend) (hfuel : 1 < fuel)
    {left bound : Nat} (hleft : k + left = chunkCount image) (hbound : left < bound) :
    ∃ t, doLoop (0 < ·.fileBufLen) (chunkRound (recorded mtSend) fuel) bound s = .goesOn t ∧
      t.world.2 = imageRequests buf image (chunkCount image) := by
  obtain ⟨bound, rfl⟩ : ∃ b, bound = b + 1 := ⟨bound - 1, by omega⟩
  induction left generalizing k s bound with
  | zero =>
      have hend : s.file = [] := by
        rw [h.file]
        by_contra hfile
        have hlt := lt_chunkCount.mpr hfile
        omega
      obtain ⟨t, hround, hworld, hlen, -⟩ := chunkRound_end (recorded mtSend) fuel hend
      refine ⟨t, doLoop_done hround (by rw [hlen]; exact Nat.lt_irrefl 0), ?_⟩
      rw [hworld, h.requests, ← hleft, Nat.add_zero]
  | succ left ih =>
      obtain ⟨bound, rfl⟩ : ∃ b, bound = b + 1 := ⟨bound - 1, by omega⟩
      obtain ⟨t, hround, hlen, hnext⟩ := h.step hdevice (by omega) hfuel
      rw [doLoop_goesOn hround hlen]
      exact ih hnext (by omega) bound (by omega)

end

theorem writeRequests_imageRequests (buf : Block) (image : List UInt8) (n : Nat) :
    writeRequests (imageRequests buf image n) =
      (List.range n).map fun k => (chunkAddr k, sent buf image k) := by
  induction n with
  | zero => rfl
  | succ n ih =>
      have hchunk : writeRequests (chunkRequests (chunkAddr n) (sent buf image n)) =
          [(chunkAddr n, sent buf image n)] := by
        simp [writeRequests, chunkRequests, wordAddr_split]
      have happend : ∀ l l', writeRequests (l ++ l') = writeRequests l ++ writeRequests l' :=
        fun _ _ => List.filterMap_append
      rw [imageRequests_succ, happend, ih, hchunk, List.range_succ, List.map_append,
        List.map_singleton]

/-! ### Files that pass the check -/

/-- The write requests for a file, with an honest device. -/
def fileWrites (buf : Block) (file : List UInt8) : List (UInt16 × Block) :=
  (List.range (chunkCount file)).map fun k => (chunkAddr k, sent buf file k)

section

variable {buf : Block} {file : List UInt8}

theorem size_le_of_accepted (h : sb_image_check (some file) = 0) :
    HAL_SB_IMG_SIZE ≤ file.length := by
  by_contra hshort
  have hlength : (file.take HAL_SB_IMG_SIZE).length ≠ HAL_SB_IMG_SIZE := by
    rw [List.length_take]
    omega
  simp only [sb_image_check, if_pos hlength] at h
  exact absurd h (by decide)

theorem length_le_chunks (file : List UInt8) : file.length ≤ SB_RW_BUF_LEN * chunkCount file := by
  simp only [chunkCount, SB_RW_BUF_LEN]
  omega

theorem chunkAddr_toNat {k : Nat} (h : k < 4096) : (chunkAddr k).toNat = 16 * k := by
  rw [chunkAddr, UInt16.toNat_ofNat', Nat.mod_eq_of_lt (by omega)]

theorem fileWrites_bodies_length :
    ((fileWrites buf file).flatMap (·.2.toList)).length = SB_RW_BUF_LEN * chunkCount file := by
  rw [fileWrites, List.flatMap_map, List.length_flatMap]
  simp [Nat.mul_comm]

/-- A longer file is sent with chunks that were not checked. -/
theorem flashedAsChecked_iff (hsize : HAL_SB_IMG_SIZE ≤ file.length) :
    FlashedAsChecked file (fileWrites buf file) ↔ file.length = HAL_SB_IMG_SIZE := by
  constructor
  · rintro ⟨-, hbodies⟩
    have hlength := congrArg List.length hbodies
    rw [fileWrites_bodies_length, List.length_take, Nat.min_eq_left hsize] at hlength
    have hle := length_le_chunks file
    omega
  · intro hlength
    have hcount : chunkCount file = imgChunks := by
      rw [chunkCount, hlength]
      decide
    constructor
    · rw [fileWrites, List.length_map, List.length_range, List.map_map, hcount]
      apply List.map_congr_left
      intro k hk
      exact chunkAddr_toNat (Nat.lt_of_lt_of_le (List.mem_range.mp hk) imgChunks_bounds.2)
    · have hblocks : (fileWrites buf file).flatMap (·.2.toList) =
          (List.range imgChunks).flatMap fun k => (block file k).toList := by
        rw [fileWrites, List.flatMap_map, hcount]
        apply List.flatMap_congr
        intro k hk
        have hwhole : SB_RW_BUF_LEN * (k + 1) ≤ file.length := by
          rw [hlength, chunks_size]
          exact Nat.mul_le_mul_left _ (List.mem_range.mp hk)
        rw [sent_eq_block buf hwhole]
      have htotal : SB_RW_BUF_LEN * imgChunks ≤ file.length := by
        rw [hlength, chunks_size]
      rw [hblocks, flatMap_block htotal, chunks_size]

end

/-- The variables with an empty record of requests. -/
def unsent (w : W) (stack : Vars (W × List MtReq)) : Vars (W × List MtReq) :=
  { stack with world := (w, []) }

/-- An honest device is sent the write requests for the file. -/
theorem sb_image_write_honest {mtSend : MtSend W} (hdevice : Honest mtSend) {file : List UInt8}
    (w : W) (stack : Vars (W × List MtReq)) {fuel : Nat} (hone : 1 < fuel)
    (hfuel : chunkCount file < fuel) :
    ∃ t, sb_image_write (recorded mtSend) fuel (some file) (unsent w stack) = .goesOn t ∧
      writeRequests t.world.2 = fileWrites stack.wrReq file := by
  have hstart : Sending stack.wrReq file 0
      { unsent w stack with
        file := file
        addr := 0
        rtnval := 0 } := ⟨rfl, rfl, rfl, rfl⟩
  obtain ⟨t, hrun, hrequests⟩ := hstart.run hdevice hone (Nat.zero_add _) hfuel
  refine ⟨t, hrun, ?_⟩
  rw [hrequests, writeRequests_imageRequests]
  rfl

/-- Of the files that pass the check, those with the size of an image are flashed as
they were checked, and no others. -/
theorem flashed_as_checked_iff {mtSend : MtSend W} (hdevice : Honest mtSend)
    {file : List UInt8} (haccepted : sb_image_check (some file) = 0) (w : W)
    (stack : Vars (W × List MtReq)) {fuel : Nat} (hfuel : chunkCount file < fuel) :
    ∃ t, sb_image_write (recorded mtSend) fuel (some file) (unsent w stack) = .goesOn t ∧
      (FlashedAsChecked file (writeRequests t.world.2) ↔ file.length = HAL_SB_IMG_SIZE) := by
  have hsize := size_le_of_accepted haccepted
  have hone : 1 < fuel := by
    have hle := length_le_chunks file
    simp only [HAL_SB_IMG_SIZE, SB_RW_BUF_LEN] at hsize hle
    omega
  obtain ⟨t, hrun, hwrites⟩ := sb_image_write_honest hdevice w stack hone hfuel
  refine ⟨t, hrun, ?_⟩
  rw [hwrites]
  exact flashedAsChecked_iff hsize

/-! ### A file that is longer -/

/-- A device that stores what it is sent. -/
def memory : MtSend (UInt16 → Block)
  | .write low high data, w =>
      (some ⟨SB_SUCCESS, low, high, data⟩, Function.update w (wordAddr low high) data)
  | .read low high, w => (some ⟨SB_SUCCESS, low, high, w (wordAddr low high)⟩, w)

theorem memory_honest : Honest memory := by
  intro low high data w
  exact ⟨_, _, rfl, rfl, _, _, rfl, rfl, Function.update_self ..⟩

/-- What may have been in the memory and on the stack. -/
def memoryStack : Vars ((UInt16 → Block) × List MtReq) :=
  ⟨(fun _ => otherBlock, []), [], 0, 0, 0, 0, 0, 0, 0, 0, otherBlock, ⟨0, 0, 0, otherBlock⟩⟩

theorem flashed_as_checked_iff_sampleImage :
    ∃ t, sb_image_write (recorded memory) 4000 (some sampleImage)
        (unsent (fun _ => otherBlock) memoryStack) = .goesOn t ∧
      FlashedAsChecked sampleImage (writeRequests t.world.2) := by
  have hfuel : chunkCount sampleImage < 4000 := by
    rw [chunkCount, sampleImage_length]
    decide
  obtain ⟨t, hrun, hiff⟩ := flashed_as_checked_iff memory_honest sampleImage_accepted
    (fun _ => otherBlock) memoryStack hfuel
  exact ⟨t, hrun, hiff.mpr sampleImage_length⟩

/-- The check does not read what comes after an image. -/
theorem sb_image_check_append {image : List UInt8} (h : image.length = HAL_SB_IMG_SIZE)
    (rest : List UInt8) : sb_image_check (some (image ++ rest)) = sb_image_check (some image) := by
  have htake : (image ++ rest).take HAL_SB_IMG_SIZE = image.take HAL_SB_IMG_SIZE :=
    List.take_append_of_le_length (Nat.le_of_eq h.symm)
  simp only [sb_image_check, htake]

/-- A byte after the image is sent as one more chunk. -/
theorem flashed_with_another_byte :
    sb_image_check (some (sampleImage ++ [0])) = 0 ∧
      ∀ (w : UInt16 → Block) (stack : Vars ((UInt16 → Block) × List MtReq)),
        ∀ fuel > chunkCount (sampleImage ++ [0]),
          ∃ t, sb_image_write (recorded memory) fuel (some (sampleImage ++ [0]))
              (unsent w stack) = .goesOn t ∧
            ¬ FlashedAsChecked (sampleImage ++ [0]) (writeRequests t.world.2) := by
  have haccepted : sb_image_check (some (sampleImage ++ [0])) = 0 :=
    (sb_image_check_append sampleImage_length [0]).trans sampleImage_accepted
  have hlength : (sampleImage ++ [0]).length = HAL_SB_IMG_SIZE + 1 := by
    rw [List.length_append, sampleImage_length]
    rfl
  refine ⟨haccepted, fun w stack fuel hfuel => ?_⟩
  have hone : 1 ≤ chunkCount (sampleImage ++ [0]) := by
    rw [chunkCount, hlength]
    decide
  obtain ⟨t, hrun, hwrites⟩ :=
    sb_image_write_honest memory_honest w stack (Nat.lt_of_le_of_lt hone hfuel) hfuel
  refine ⟨t, hrun, ?_⟩
  rw [hwrites, flashedAsChecked_iff (size_le_of_accepted haccepted), hlength]
  exact Nat.succ_ne_self _

end KappaGateway.SerialBootload

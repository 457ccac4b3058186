import KappaGateway.Hal.Mtintf

/-!
# What one pass over the receive ring does

Each function of the receive path gets one specification: an extracting
iteration is described through the number of bytes it skipped, and the two
loops through runs without fuel. The fuel of the model never runs out.
-/

namespace KappaGateway.Mtintf

open CircularBuffer Mtproc Transition

/-- The ring has cells. -/
theorem serialBufferMax_pos : 0 < SERIAL_BUFFER_MAX := Nat.zero_lt_succ _

theorem mask_lt (i : Int) : mask i < SERIAL_BUFFER_MAX := by
  simp only [mask, SERIAL_BUFFER_MAX]
  omega

theorem mask_add (head i : Nat) : mask (head + i) = cell SERIAL_BUFFER_MAX head i := by
  simp only [mask, cell, SERIAL_BUFFER_MAX]
  omega

/-- The unread bytes, as the statics record them. -/
def unread (s : SerBuf) : List UInt8 :=
  window SERIAL_BUFFER_MAX s.serBufIn s.serBufInHead s.serBufInLen.toNat

/-- The ring cells that hold an unread byte. -/
def Unconsumed (s : SerBuf) (c : Nat) : Prop :=
  ∃ i : Nat, (i : Int) < s.serBufInLen ∧ c = cell SERIAL_BUFFER_MAX s.serBufInHead i

/-- The bounds that every pass keeps, whatever the bytes are. -/
structure Bounded (s : SerBuf) : Prop where
  head_lt : s.serBufInHead < SERIAL_BUFFER_MAX
  len_nonneg : 0 ≤ s.serBufInLen

theorem mtIntfInit_bounded (serBufIn : Nat → UInt8) : Bounded (mtIntfInit serBufIn) :=
  ⟨Nat.zero_lt_succ _, le_rfl⟩

/-! ### The inner loop -/

/-- Where the inner loop stops at a start byte, it has stayed on the first cell
or, that cell holding another byte, has moved `Offset` cells away from the head. -/
theorem seek_some {s : SerBuf} {fuel offset headTemp offset' sof : Nat}
    (h : seek s fuel offset headTemp = some (offset', sof)) :
    s.serBufIn sof = MT_SOF ∧
      (offset' = offset ∧ sof = headTemp ∨
        s.serBufIn headTemp ≠ MT_SOF ∧ offset < offset' ∧
          sof = cell SERIAL_BUFFER_MAX s.serBufInHead offset') := by
  induction fuel generalizing offset headTemp with
  | zero => simp [seek] at h
  | succ fuel ih =>
      rw [seek] at h
      split at h
      · rename_i hsof
        obtain ⟨rfl, rfl⟩ := Prod.mk.inj (Option.some.inj h)
        exact ⟨hsof, Or.inl ⟨rfl, rfl⟩⟩
      · rename_i hne
        dsimp only at h
        split at h
        · simp at h
        · obtain ⟨hsof, ⟨rfl, rfl⟩ | ⟨-, hlt, hcell⟩⟩ := ih h
          · exact ⟨hsof, Or.inr ⟨hne, by omega, mask_add s.serBufInHead (offset + 1)⟩⟩
          · exact ⟨hsof, Or.inr ⟨hne, by omega, hcell⟩⟩

/-! ### One iteration -/

/-- The two copies take the run of cells behind the length byte, wrapped or not. -/
theorem copies_window (mem : Nat → UInt8) {headTemp frameLen : Nat}
    (hh : headTemp < SERIAL_BUFFER_MAX) (hf : frameLen ≤ SERIAL_BUFFER_MAX) :
    ((copies headTemp frameLen).flatMap fun c => block mem c.src c.len) =
      window SERIAL_BUFFER_MAX mem headTemp frameLen := by
  rw [copies]
  split
  · simpa using (window_eq_block mem (by omega)).symm
  · simpa using (window_eq_block_append mem (by omega) (by omega) (by omega)).symm

/-- An extracting iteration that started with `Offset = offset` and found its
start byte `skip` cells behind the head. -/
structure Extracts (s : SerBuf) (offset : Nat) (e : Extraction) (skip : Nat) : Prop where
  found : s.serBufIn s.serBufInHead = MT_SOF ∧ skip = 0 ∧ e.offset = offset ∨
    s.serBufIn s.serBufInHead ≠ MT_SOF ∧ skip = e.offset ∧ offset < e.offset
  sof : e.sof = cell SERIAL_BUFFER_MAX s.serBufInHead skip
  min_len : (MIN_PACKET_LEN : Int) ≤ s.serBufInLen
  len_byte : e.frameLen =
    (s.serBufIn (cell SERIAL_BUFFER_MAX s.serBufInHead (skip + 1))).toNat + 4
  complete : (e.frameLen : Int) + 1 + e.offset ≤ s.serBufInLen
  copied : e.copies = copies (cell SERIAL_BUFFER_MAX s.serBufInHead (skip + 1)) e.frameLen
  packet : e.packet = window SERIAL_BUFFER_MAX s.serBufIn
    (cell SERIAL_BUFFER_MAX s.serBufInHead (skip + 1)) e.frameLen
  after : e.after = { s with
    serBufInHead := cell SERIAL_BUFFER_MAX s.serBufInHead (skip + 1 + e.frameLen)
    serBufInLen := s.serBufInLen - (e.frameLen + 1 + e.offset) }

theorem assembleOnce_extracts {s : SerBuf} (hs : Bounded s) {offset : Nat} {e : Extraction}
    (h : assembleOnce s offset = some e) : ∃ skip, Extracts s offset e skip := by
  rw [assembleOnce] at h
  split at h
  · simp at h
  · rename_i hmin
    split at h
    · simp at h
    · rename_i offset' sof hseek
      dsimp only at h
      split at h
      · simp at h
      · rename_i hlen
        obtain ⟨hsof, hfound⟩ := seek_some hseek
        obtain ⟨skip, hskip, hcell⟩ : ∃ skip,
            (s.serBufIn s.serBufInHead = MT_SOF ∧ skip = 0 ∧ offset' = offset ∨
              s.serBufIn s.serBufInHead ≠ MT_SOF ∧ skip = offset' ∧ offset < offset') ∧
              sof = cell SERIAL_BUFFER_MAX s.serBufInHead skip := by
          rcases hfound with ⟨rfl, rfl⟩ | ⟨hne, hlt, rfl⟩
          · exact ⟨0, Or.inl ⟨hsof, rfl, rfl⟩, (cell_zero hs.head_lt).symm⟩
          · exact ⟨offset', Or.inr ⟨hne, rfl, hlt⟩, rfl⟩
        have hnext : lengthCell sof = cell SERIAL_BUFFER_MAX s.serBufInHead (skip + 1) := by
          rw [lengthCell, hcell, ← cell_cell]
          exact mask_add _ 1
        have hcells := cell_lt serialBufferMax_pos s.serBufInHead (skip + 1)
        have hbyte := (s.serBufIn (cell SERIAL_BUFFER_MAX s.serBufInHead (skip + 1))).toNat_lt
        have hshort : (s.serBufIn (cell SERIAL_BUFFER_MAX s.serBufInHead (skip + 1))).toNat + 4 ≤
            SERIAL_BUFFER_MAX := by rw [SERIAL_BUFFER_MAX] at hbyte ⊢; omega
        rw [hnext] at h hlen
        obtain rfl := Option.some.inj h
        refine ⟨skip, hskip, hcell, by omega, rfl, by dsimp only; omega, rfl, ?_, ?_⟩
        · exact copies_window s.serBufIn hcells hshort
        · simp only [mask_add, cell_cell]

namespace Extracts

variable {s : SerBuf} {offset skip : Nat} {e : Extraction}

theorem frameLen_le (h : Extracts s offset e skip) : e.frameLen ≤ 259 := by
  have := (s.serBufIn (cell SERIAL_BUFFER_MAX s.serBufInHead (skip + 1))).toNat_lt
  have := h.len_byte
  omega

/-- What the iteration takes off `SerBufInLen` covers the cells it passed over. -/
theorem skip_le (h : Extracts s offset e skip) : skip ≤ e.offset := by
  rcases h.found with ⟨-, rfl, -⟩ | ⟨-, rfl, -⟩ <;> omega

theorem bounded (h : Extracts s offset e skip) : Bounded e.after := by
  have := h.complete
  rw [h.after]
  exact ⟨cell_lt serialBufferMax_pos _ _, by dsimp only; omega⟩

/-- Every extraction shortens the ring. -/
theorem len_lt (h : Extracts s offset e skip) :
    e.after.serBufInLen.toNat < s.serBufInLen.toNat := by
  have := h.complete
  rw [h.after]
  dsimp only
  omega

end Extracts

/-- A start byte at the head of a ring that holds a whole frame is extracted. -/
theorem assembleOnce_of_start {s : SerBuf} {offset : Nat}
    (hmin : (MIN_PACKET_LEN : Int) ≤ s.serBufInLen)
    (hstart : s.serBufIn s.serBufInHead = MT_SOF) :
    (∃ e, assembleOnce s offset = some e) ↔
      ((s.serBufIn (cell SERIAL_BUFFER_MAX s.serBufInHead 1)).toNat : Int) + 5 + offset ≤
        s.serBufInLen := by
  have hnext : lengthCell s.serBufInHead = cell SERIAL_BUFFER_MAX s.serBufInHead 1 :=
    mask_add s.serBufInHead 1
  rw [assembleOnce, if_neg (by omega), seek, if_pos hstart]
  dsimp only
  rw [hnext]
  split
  · simp only [reduceCtorEq, exists_false, false_iff]
    omega
  · simp only [Option.some.injEq, exists_eq', true_iff]
    omega

/-! ### The two loops without fuel -/

/-- A complete run of the outer loop of `MessageAssembler`. -/
inductive Assembling : SerBuf → Nat → Trace → SerBuf → Prop
  | done {s offset} (h : assembleOnce s offset = none) : Assembling s offset [] s
  | frame {s offset e tr last} (h : assembleOnce s offset = some e)
      (rest : Assembling e.after e.offset tr last) :
      Assembling s offset ((s, .iterate offset, e.after) :: tr) last

theorem assembleLoop_assembling {fuel : Nat} {s : SerBuf} (hs : Bounded s) (offset : Nat)
    (h : s.serBufInLen.toNat ≤ fuel) :
    Assembling s offset (assembleLoop fuel s offset).1 (assembleLoop fuel s offset).2 := by
  induction fuel generalizing s offset with
  | zero =>
      have hlt : s.serBufInLen < MIN_PACKET_LEN := by simp only [MIN_PACKET_LEN]; omega
      exact .done (by rw [assembleOnce, if_pos hlt])
  | succ fuel ih =>
      rw [assembleLoop]
      cases he : assembleOnce s offset with
      | none => exact .done he
      | some e =>
          obtain ⟨skip, hx⟩ := assembleOnce_extracts hs he
          exact .frame he (ih hx.bounded e.offset (by have := hx.len_lt; omega))

/-- `MessageAssembler` always returns. -/
theorem messageAssembler_assembling {s : SerBuf} (hs : Bounded s) :
    Assembling s 0 (messageAssembler s).1 (messageAssembler s).2 :=
  assembleLoop_assembling hs 0 le_rfl

/-- A complete run of the loop of `SerialRcv`. -/
inductive Receiving : SerBuf → Driver → Trace → SerBuf → Prop
  | done {s dev} (h : (read (serBufAva s) dev).1 = []) : Receiving s dev [] s
  | more {s dev data dev' tr last} (h : read (serBufAva s) dev = (data, dev'))
      (hne : data ≠ []) (rest : Receiving (storeRead s data) dev' tr last) :
      Receiving s dev ((s, .read data, storeRead s data) :: tr) last

theorem serBufAva_pos (s : SerBuf) : 0 < serBufAva s := by
  have := mask_lt (s.serBufInHead + s.serBufInLen)
  rw [serBufAva, serTailPtr]
  omega

/-- A `read` takes its bytes off what the driver is going to deliver. -/
theorem delivered_read {size : Nat} (hsize : 0 < size) {dev dev' : Driver}
    {data : List UInt8} (h : read size dev = (data, dev')) :
    (data = [] → delivered dev = []) ∧
      (data ≠ [] → delivered dev = data ++ delivered dev') ∧ data.length ≤ size := by
  cases dev with
  | nil =>
      obtain ⟨rfl, rfl⟩ := Prod.mk.inj h
      simp [delivered]
  | cons burst rest =>
      obtain ⟨rfl, rfl⟩ := Prod.mk.inj h
      have hempty : burst.take size = [] ↔ burst = [] := by
        simp [List.take_eq_nil_iff, hsize.ne']
      refine ⟨fun hb => by simp [delivered, hempty.mp hb], fun hb => ?_, by simp⟩
      have hne : burst ≠ [] := fun h => hb (hempty.mpr h)
      rw [delivered, if_neg hne]
      split
      · rw [List.take_of_length_le ‹_›]
      · have hdrop : burst.drop size ≠ [] := by simp; omega
        rw [delivered, if_neg hdrop, ← List.append_assoc, List.take_append_drop]

theorem rcvLoop_receiving {fuel : Nat} {s : SerBuf} {dev : Driver}
    (h : (delivered dev).length < fuel) :
    Receiving s dev (rcvLoop fuel s dev).1 (rcvLoop fuel s dev).2 := by
  induction fuel generalizing s dev with
  | zero => omega
  | succ fuel ih =>
      rw [rcvLoop]
      cases hr : read (serBufAva s) dev with
      | mk data dev' =>
          obtain ⟨-, hmore, -⟩ := delivered_read (serBufAva_pos s) hr
          by_cases hd : data = []
          · simp only [hd, if_true]
            exact .done (by rw [hr, hd])
          · simp only [hd, if_false]
            have hlen : 0 < data.length := List.length_pos_iff.mpr hd
            have hsum := congrArg List.length (hmore hd)
            rw [List.length_append] at hsum
            exact .more hr hd (ih (by omega))

theorem serialRcv_receiving (s : SerBuf) (dev : Driver) :
    Receiving s dev (serialRcv s dev).1 (serialRcv s dev).2 :=
  rcvLoop_receiving (Nat.lt_succ_self _)

end KappaGateway.Mtintf

import KappaGateway.Hal.ReceiveRuns

/-!
# Accounting and bounds of the receive ring

`MessageAssembler` declares `Offset` outside its outer loop, so that noise
skipped before one frame is charged again to a frame that starts right at the
head. `SerialRcv` sizes its reads by the end of the array, and the copy into
`PacketBuffer` by the length byte alone. Each of the conditions below is about
one pass, and the ring is in order exactly while it is met. An iteration that
writes behind `PacketBuffer` leaves nothing to be relied on, so it never counts
as one that accounts for its bytes.
-/

namespace KappaGateway.Mtintf

open CircularBuffer Mtproc Transition

/-! ### Head and length -/

/-- The noise bytes between the head and the start byte of an extraction. -/
def skipped (s : SerBuf) (e : Extraction) : Nat :=
  (e.sof + SERIAL_BUFFER_MAX - s.serBufInHead) % SERIAL_BUFFER_MAX

/-- The copies of an extraction read from `SerBufIn` and write to `PacketBuffer`
within their bounds. -/
def CopiesInside (e : Extraction) : Prop :=
  ∀ c ∈ e.copies, c.src + c.len ≤ SERIAL_BUFFER_MAX ∧ c.dst + c.len ≤ PACKET_BUFFER_MAX

/-- Head and length move by the same amount, the skipped bytes, the start byte
and the frame, and the frame is copied within the buffers. -/
def Accounted : SerBuf × Pass × SerBuf → Prop
  | (_, .read _, _) => True
  | (s, .iterate offset, t) =>
      ∀ e ∈ assembleOnce s offset,
        CopiesInside e ∧
          t.serBufInHead =
            cell SERIAL_BUFFER_MAX s.serBufInHead (skipped s e + 1 + e.frameLen) ∧
          t.serBufInLen = s.serBufInLen - (skipped s e + 1 + e.frameLen : Nat)

/-- No `Offset` is left over from earlier noise when the start byte of the frame
lies under the head. -/
def Aligned : SerBuf × Pass × SerBuf → Prop
  | (_, .read _, _) => True
  | (s, .iterate offset, _) => s.serBufIn s.serBufInHead = MT_SOF → offset = 0

instance : DecidablePred Aligned
  | (_, .read _, _) => inferInstanceAs (Decidable True)
  | (s, .iterate offset, _) =>
      inferInstanceAs (Decidable (s.serBufIn s.serBufInHead = MT_SOF → offset = 0))

/-- The length byte of an extracted frame leaves room for its four other bytes
in `PacketBuffer`. -/
def ShortFrame : SerBuf × Pass × SerBuf → Prop
  | (_, .read _, _) => True
  | (s, .iterate offset, _) =>
      ∀ e ∈ assembleOnce s offset,
        (s.serBufIn (lengthCell e.sof)).toNat ≤ PACKET_BUFFER_MAX - 4

instance : DecidablePred ShortFrame
  | (_, .read _, _) => inferInstanceAs (Decidable True)
  | (s, .iterate offset, _) =>
      inferInstanceAs (Decidable (∀ e ∈ assembleOnce s offset,
        (s.serBufIn (lengthCell e.sof)).toNat ≤ PACKET_BUFFER_MAX - 4))

/-- The copies stay within the ring in any case, and within `PacketBuffer` as
far as the frame does. -/
theorem copies_within_iff {headTemp frameLen : Nat} (hh : headTemp < SERIAL_BUFFER_MAX)
    (hf : frameLen ≤ SERIAL_BUFFER_MAX) :
    (∀ c ∈ copies headTemp frameLen,
        c.src + c.len ≤ SERIAL_BUFFER_MAX ∧ c.dst + c.len ≤ PACKET_BUFFER_MAX) ↔
      frameLen ≤ PACKET_BUFFER_MAX := by
  rw [copies]
  split
  · simp only [List.mem_singleton, forall_eq]
    omega
  · simp only [List.mem_cons, List.not_mem_nil, or_false, forall_eq_or_imp, forall_eq]
    omega

/-- The copies of an extraction stay inside if and only if its length byte is at
most 252. -/
theorem Extracts.copiesInside_iff {s : SerBuf} {offset skip : Nat} {e : Extraction}
    (h : Extracts s offset e skip) :
    CopiesInside e ↔ (s.serBufIn (lengthCell e.sof)).toNat ≤ PACKET_BUFFER_MAX - 4 := by
  have hnext : lengthCell e.sof = cell SERIAL_BUFFER_MAX s.serBufInHead (skip + 1) := by
    rw [lengthCell, h.sof, ← cell_cell]
    exact mask_add _ 1
  have hshort : e.frameLen ≤ SERIAL_BUFFER_MAX := by
    have := h.frameLen_le
    rw [SERIAL_BUFFER_MAX]
    omega
  have hwithin := copies_within_iff
    (cell_lt serialBufferMax_pos s.serBufInHead (skip + 1)) hshort
  rw [← h.copied] at hwithin
  rw [CopiesInside, hwithin, hnext, h.len_byte, PACKET_BUFFER_MAX]
  omega

theorem Extracts.skipped_eq {s : SerBuf} {offset skip : Nat} {e : Extraction}
    (h : Extracts s offset e skip) (hs : Bounded s)
    (hlen : s.serBufInLen ≤ SERIAL_BUFFER_MAX) : skipped s e = skip := by
  have hc := h.complete
  have hskip := h.skip_le
  have hhead := hs.head_lt
  rw [skipped, h.sof, cell]
  simp only [SERIAL_BUFFER_MAX] at hlen hhead ⊢
  omega

/-- `Offset` is the number of skipped bytes unless it is a leftover. -/
theorem Extracts.offset_eq_iff {s : SerBuf} {offset skip : Nat} {e : Extraction}
    (h : Extracts s offset e skip) :
    e.offset = skip ↔ (s.serBufIn s.serBufInHead = MT_SOF → offset = 0) := by
  obtain ⟨hsof, rfl, hoff⟩ | ⟨hne, hskip, -⟩ := h.found
  · simp [hsof, hoff]
  · simp [hne, hskip]

theorem accounted_iff_aligned {s t : SerBuf} {p : Pass} (hs : Bounded s)
    (hlen : s.serBufInLen ≤ SERIAL_BUFFER_MAX) (h : Step s p t) :
    Accounted (s, p, t) ↔ Aligned (s, p, t) ∧ ShortFrame (s, p, t) := by
  cases h with
  | read _ => simp [Accounted, Aligned, ShortFrame]
  | @iterate offset e he =>
      obtain ⟨skip, hx⟩ := assembleOnce_extracts hs he
      simp only [Accounted, Aligned, ShortFrame, he, Option.mem_def, Option.some.injEq,
        forall_eq', hx.skipped_eq hs hlen, ← hx.offset_eq_iff, hx.copiesInside_iff]
      rw [hx.after]
      constructor
      · rintro ⟨hinside, -, hlen'⟩
        dsimp only at hlen'
        exact ⟨by omega, hinside⟩
      · rintro ⟨hoff, hinside⟩
        refine ⟨hinside, rfl, ?_⟩
        dsimp only
        omega

/-- With aligned iterations the assembler only drops bytes from the front. -/
theorem Assembling.unread_suffix {s last : SerBuf} {offset : Nat} {tr : Trace}
    (h : Assembling s offset tr last) (hs : Bounded s) (haligned : ∀ e ∈ tr, Aligned e) :
    unread last <:+ unread s := by
  induction h with
  | done => exact List.suffix_refl _
  | @frame s offset e tr last he rest ih =>
      obtain ⟨skip, hx⟩ := assembleOnce_extracts hs he
      have hoff := hx.offset_eq_iff.mpr (haligned (s, .iterate offset, e.after) (by simp))
      have hnext := ih hx.bounded fun x hmem => haligned x (by simp [hmem])
      rw [hx.unread_after hoff] at hnext
      exact hnext.trans (List.drop_suffix _ _)

/-- The unread bytes are the last ones received, as long as the ring holds them
and every iteration is aligned. -/
theorem run_unread_suffix {s : SerBuf} (hs : Bounded s) {before : List UInt8}
    (hbefore : unread s <:+ before) (events : List Event)
    (hfit : ∀ e ∈ (run s events).1, e.2.2.serBufInLen ≤ SERIAL_BUFFER_MAX)
    (haligned : ∀ e ∈ (run s events).1, Aligned e) :
    unread (run s events).2 <:+ before ++ received events := by
  induction events generalizing s before with
  | nil => simpa [run, received] using hbefore
  | cons event rest ih =>
      simp only [run, List.mem_append] at hfit haligned ⊢
      have hs' := Path.bounded (perform_path hs event) hs
      cases event with
      | serialRcv dev =>
          have hread := ((serialRcv_receiving s dev).unread_eq hs fun e he =>
            hfit e (Or.inl he)).1
          have hgrown : unread (perform s (.serialRcv dev)).2 <:+ before ++ delivered dev := by
            rw [perform, hread]
            obtain ⟨pre, rfl⟩ := hbefore
            exact ⟨pre, by simp⟩
          have hnext := ih hs' hgrown (fun e he => hfit e (Or.inr he))
            fun e he => haligned e (Or.inr he)
          simpa [received] using hnext
      | messageAssembler =>
          have hdrop := (messageAssembler_assembling hs).unread_suffix hs fun e he =>
            haligned e (Or.inl he)
          have hnext := ih hs' (hdrop.trans hbefore) (fun e he => hfit e (Or.inr he))
            fun e he => haligned e (Or.inr he)
          simpa [received] using hnext

theorem path_accounted_iff {s last : SerBuf} {tr : Trace} (path : Path Step s tr last)
    (hs : Bounded s) (hlen : s.serBufInLen ≤ SERIAL_BUFFER_MAX)
    (hfit : ∀ e ∈ tr, e.2.2.serBufInLen ≤ SERIAL_BUFFER_MAX) :
    (∀ e ∈ tr, Accounted e) ↔ ∀ e ∈ tr, Aligned e ∧ ShortFrame e := by
  induction path with
  | nil => simp
  | @cons s p t tr last h tail ih =>
      have hnext := hfit (s, p, t) (by simp)
      simp only [List.forall_mem_cons, accounted_iff_aligned hs hlen h,
        ih (h.bounded hs) hnext fun e he => hfit e (by simp [he])]

/-- The ring accounts for every byte exactly while no frame under the head is
extracted with a leftover `Offset` and no extracted frame announces more than
252 data bytes; then between complete runs it holds the last bytes received. -/
theorem ring_accounting (serBufIn : Nat → UInt8) (events : List Event)
    (hfit : ∀ e ∈ (run (mtIntfInit serBufIn) events).1,
      e.2.2.serBufInLen ≤ SERIAL_BUFFER_MAX) :
    ((∀ e ∈ (run (mtIntfInit serBufIn) events).1, Accounted e) ↔
        ∀ e ∈ (run (mtIntfInit serBufIn) events).1, Aligned e ∧ ShortFrame e) ∧
      ((∀ e ∈ (run (mtIntfInit serBufIn) events).1, Aligned e ∧ ShortFrame e) →
        ∀ past, past <+: events →
          unread (run (mtIntfInit serBufIn) past).2 <:+ received past) := by
  have hs := mtIntfInit_bounded serBufIn
  refine ⟨path_accounted_iff (run_path hs events) hs (Int.natCast_nonneg _) hfit, ?_⟩
  rintro hordered past ⟨later, rfl⟩
  rw [(run_append _ past later).1] at hfit hordered
  have hempty : unread (mtIntfInit serBufIn) <:+ [] := List.suffix_refl _
  exact run_unread_suffix hs hempty past (fun e he => hfit e (by simp [he])) fun e he =>
    (hordered e (by simp [he])).1

/-- A noise byte in front of a ping, read and assembled in one go. -/
theorem ring_accounting_ping :
    ((∀ e ∈ (run (mtIntfInit fun _ => 0) [.serialRcv [[7, 0xFE, 0, 0x21, 1, 0x20]],
        .messageAssembler]).1, Accounted e) ↔
      ∀ e ∈ (run (mtIntfInit fun _ => 0) [.serialRcv [[7, 0xFE, 0, 0x21, 1, 0x20]],
        .messageAssembler]).1, Aligned e ∧ ShortFrame e) ∧
    ((∀ e ∈ (run (mtIntfInit fun _ => 0) [.serialRcv [[7, 0xFE, 0, 0x21, 1, 0x20]],
        .messageAssembler]).1, Aligned e ∧ ShortFrame e) →
      ∀ past, past <+: [.serialRcv [[7, 0xFE, 0, 0x21, 1, 0x20]], .messageAssembler] →
        unread (run (mtIntfInit fun _ => 0) past).2 <:+ received past) :=
  ring_accounting (fun _ => 0) _ (by decide)

/-- One noise byte in front of three pings that arrive together. -/
def noisyPings : List Event :=
  [.serialRcv [[7, 0xFE, 0, 0x21, 1, 0x20, 0xFE, 0, 0x21, 1, 0x20, 0xFE, 0, 0x21, 1, 0x20]],
    .messageAssembler]

/-- The noise is charged to the second ping again: every frame is short, and one
byte of the third ping is lost. -/
theorem ring_accounting_noise :
    (∀ e ∈ (run (mtIntfInit fun _ => 0) noisyPings).1,
        e.2.2.serBufInLen ≤ SERIAL_BUFFER_MAX ∧ ShortFrame e) ∧
      ¬ (∀ e ∈ (run (mtIntfInit fun _ => 0) noisyPings).1, Accounted e) ∧
      ¬ (unread (run (mtIntfInit fun _ => 0) noisyPings).2 <:+ received noisyPings) := by
  have hshort : ∀ e ∈ (run (mtIntfInit fun _ => 0) noisyPings).1,
      e.2.2.serBufInLen ≤ SERIAL_BUFFER_MAX ∧ ShortFrame e := by decide
  have hs := mtIntfInit_bounded fun _ => 0
  refine ⟨hshort, fun hacc => ?_, by decide⟩
  have hordered := (path_accounted_iff (run_path hs noisyPings) hs (Int.natCast_nonneg _)
    fun e he => (hshort e he).1).mp hacc
  exact absurd hordered (by decide)

/-! ### Bounds -/

/-- The pass keeps to its buffers: the recorded length stays within the ring, a
read stores into free cells of the array only, and the copies of an iteration
stay within `SerBufIn` and `PacketBuffer`. -/
def Safe : SerBuf × Pass × SerBuf → Prop
  | (s, .read data, t) =>
      0 ≤ t.serBufInLen ∧ t.serBufInLen ≤ SERIAL_BUFFER_MAX ∧
        ∀ i < data.length, serTailPtr s + i < SERIAL_BUFFER_MAX ∧
          ¬ Unconsumed s (serTailPtr s + i)
  | (s, .iterate offset, t) =>
      0 ≤ t.serBufInLen ∧ t.serBufInLen ≤ SERIAL_BUFFER_MAX ∧
        ∀ e ∈ assembleOnce s offset, ∀ c ∈ e.copies,
          c.src + c.len ≤ SERIAL_BUFFER_MAX ∧ c.dst + c.len ≤ PACKET_BUFFER_MAX

/-- A read returns no more bytes than there are free cells, and the length byte
of a frame leaves room for its four other bytes in `PacketBuffer`. -/
def Fits : SerBuf × Pass × SerBuf → Prop
  | (s, .read data, _) => s.serBufInLen + data.length ≤ SERIAL_BUFFER_MAX
  | (s, .iterate offset, _) =>
      ∀ e ∈ assembleOnce s offset,
        (s.serBufIn (lengthCell e.sof)).toNat ≤ PACKET_BUFFER_MAX - 4

instance : DecidablePred Fits
  | (s, .read data, _) =>
      inferInstanceAs (Decidable (s.serBufInLen + data.length ≤ SERIAL_BUFFER_MAX))
  | (s, .iterate offset, _) =>
      inferInstanceAs (Decidable (∀ e ∈ assembleOnce s offset,
        (s.serBufIn (lengthCell e.sof)).toNat ≤ PACKET_BUFFER_MAX - 4))

/-- Up to the free space, the cells a read stores into hold no unread byte. -/
theorem not_unconsumed_of_fits {s : SerBuf} (hs : Bounded s) {data : List UInt8}
    (hread : data.length ≤ serBufAva s)
    (hfit : s.serBufInLen + data.length ≤ SERIAL_BUFFER_MAX) {i : Nat}
    (hi : i < data.length) : ¬ Unconsumed s (serTailPtr s + i) := by
  rintro ⟨j, hj, hcell⟩
  have hlen := hs.len_nonneg
  rw [serBufAva] at hread
  have hpos : serTailPtr s + i =
      cell SERIAL_BUFFER_MAX s.serBufInHead (s.serBufInLen.toNat + i) := by
    rw [serTailPtr_eq hs] at hread ⊢
    rw [← cell_cell]
    exact (Nat.mod_eq_of_lt (by omega)).symm
  have := cell_inj (by omega) (by omega) (hpos.symm.trans hcell)
  omega

theorem safe_iff_fits {s t : SerBuf} {p : Pass} (hs : Bounded s)
    (hlen : s.serBufInLen ≤ SERIAL_BUFFER_MAX) (h : Step s p t) :
    Safe (s, p, t) ↔ Fits (s, p, t) := by
  have ht := (h.bounded hs).len_nonneg
  cases h with
  | @read data hread =>
      constructor
      · exact fun hsafe => hsafe.2.1
      · intro hfit
        refine ⟨ht, hfit, fun i hi => ⟨?_, not_unconsumed_of_fits hs hread hfit hi⟩⟩
        rw [serBufAva] at hread
        omega
  | @iterate offset e he =>
      obtain ⟨skip, hx⟩ := assembleOnce_extracts hs he
      have hinside := hx.copiesInside_iff
      rw [CopiesInside] at hinside
      have hdec := hx.len_lt
      simp only [Safe, Fits, he, Option.mem_def, Option.some.injEq, forall_eq', hinside]
      constructor
      · exact fun hsafe => hsafe.2.2
      · exact fun hfit => ⟨ht, by omega, hfit⟩

theorem path_safe_iff {s last : SerBuf} {tr : Trace} (path : Path Step s tr last)
    (hs : Bounded s) (hlen : s.serBufInLen ≤ SERIAL_BUFFER_MAX) :
    (∀ e ∈ tr, Safe e) ↔ ∀ e ∈ tr, Fits e := by
  have each : ∀ s p t, Bounded s ∧ s.serBufInLen ≤ SERIAL_BUFFER_MAX → Step s p t →
      (Safe (s, p, t) ↔ Fits (s, p, t)) :=
    fun s p t hinv h => safe_iff_fits hinv.1 hinv.2 h
  refine path.forall_iff each (fun s p t hinv h hsafe => ?_) ⟨hs, hlen⟩
  refine ⟨h.bounded hinv.1, ?_⟩
  cases p with
  | read data => exact hsafe.2.1
  | iterate offset => exact hsafe.2.1

/-- Over any sequence of reads and assembler runs, no buffer of the receive path
is overrun if and only if every read fits into the free cells and no extracted
frame announces more than 252 data bytes. -/
theorem receive_buffers_safe (serBufIn : Nat → UInt8) (events : List Event) :
    (∀ e ∈ (run (mtIntfInit serBufIn) events).1, Safe e) ↔
      ∀ e ∈ (run (mtIntfInit serBufIn) events).1, Fits e :=
  path_safe_iff (run_path (mtIntfInit_bounded serBufIn) events) (mtIntfInit_bounded serBufIn)
    (Int.natCast_nonneg _)

/-- A driver that holds one byte more than the ring, and a frame that announces
255 data bytes: the first overruns the ring, the second `PacketBuffer`. -/
theorem receive_buffers_overrun :
    ¬ (∀ e ∈ (run (mtIntfInit fun _ => 0) [.serialRcv [List.replicate 513 0]]).1, Safe e) ∧
      ¬ (∀ e ∈ (run (mtIntfInit fun _ => 0)
          [.serialRcv [0xFE :: 0xFF :: List.replicate 258 0], .messageAssembler]).1, Safe e) := by
  have hs := mtIntfInit_bounded fun _ => 0
  constructor
  · rw [path_safe_iff (run_path hs _) hs (Int.natCast_nonneg _)]
    decide +kernel
  · rw [path_safe_iff (run_path hs _) hs (Int.natCast_nonneg _)]
    decide +kernel

end KappaGateway.Mtintf

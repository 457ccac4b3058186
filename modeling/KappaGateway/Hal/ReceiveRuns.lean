import KappaGateway.Hal.MtintfSpec

/-!
# Runs of the receive path

A read appends to the unread bytes while they fit, an extraction drops bytes
from their front while `Offset` agrees with the bytes skipped. Every sequence
of events makes a path of single passes.
-/

namespace KappaGateway.Mtintf

open CircularBuffer Mtproc Transition

@[simp] theorem unread_length (s : SerBuf) : (unread s).length = s.serBufInLen.toNat :=
  window_length ..

/-- The first unread byte is the one under `SerBufInHead`. -/
theorem unread_getElem_zero {s : SerBuf} (hs : Bounded s) (h : 0 < (unread s).length) :
    (unread s)[0] = s.serBufIn s.serBufInHead := by
  simp [unread, cell_zero hs.head_lt]

theorem serTailPtr_eq {s : SerBuf} (hs : Bounded s) :
    serTailPtr s = cell SERIAL_BUFFER_MAX s.serBufInHead s.serBufInLen.toNat := by
  rw [serTailPtr, ← mask_add, Int.toNat_of_nonneg hs.len_nonneg]

theorem storeRead_bounded {s : SerBuf} (hs : Bounded s) (data : List UInt8) :
    Bounded (storeRead s data) := by
  have := hs.len_nonneg
  exact ⟨hs.head_lt, by simp only [storeRead]; omega⟩

/-- A read that fits into the free cells appends to the unread bytes. -/
theorem unread_storeRead {s : SerBuf} (hs : Bounded s) {data : List UInt8}
    (hread : data.length ≤ serBufAva s)
    (hfit : s.serBufInLen + data.length ≤ SERIAL_BUFFER_MAX) :
    unread (storeRead s data) = unread s ++ data := by
  have hlen := hs.len_nonneg
  have htail := serTailPtr_eq hs
  have hcells := cell_lt serialBufferMax_pos s.serBufInHead s.serBufInLen.toNat
  rw [serBufAva, htail] at hread
  have htoNat : (s.serBufInLen + data.length).toNat = s.serBufInLen.toNat + data.length := by
    omega
  simp only [unread, storeRead, htail, htoNat]
  exact window_store s.serBufIn data (by omega) (by omega)

theorem Step.bounded {s t : SerBuf} {p : Pass} (h : Step s p t) (hs : Bounded s) :
    Bounded t := by
  cases h with
  | read _ => exact storeRead_bounded hs _
  | iterate he => exact (assembleOnce_extracts hs he).choose_spec.bounded

/-- An extraction whose `Offset` is the number of skipped bytes takes exactly
those bytes and the frame from the front of the unread bytes. -/
theorem Extracts.unread_after {s : SerBuf} {offset skip : Nat} {e : Extraction}
    (h : Extracts s offset e skip) (hoff : e.offset = skip) :
    unread e.after = (unread s).drop (skip + 1 + e.frameLen) := by
  have hc := h.complete
  have hle : skip + 1 + e.frameLen ≤ s.serBufInLen.toNat := by omega
  have hlen : (s.serBufInLen - (e.frameLen + 1 + e.offset)).toNat =
      s.serBufInLen.toNat - (skip + 1 + e.frameLen) := by omega
  calc unread e.after
      = window SERIAL_BUFFER_MAX s.serBufIn
          (cell SERIAL_BUFFER_MAX s.serBufInHead (skip + 1 + e.frameLen))
          (s.serBufInLen - (e.frameLen + 1 + e.offset)).toNat := by rw [unread, h.after]
    _ = (unread s).drop (skip + 1 + e.frameLen) := by rw [hlen, unread, window_drop _ _ _ hle]

/-- The packet is the part of the unread bytes behind the start byte. -/
theorem Extracts.packet_eq {s : SerBuf} {offset skip : Nat} {e : Extraction}
    (h : Extracts s offset e skip) :
    e.packet = ((unread s).drop (skip + 1)).take e.frameLen := by
  have hc := h.complete
  have hskip := h.skip_le
  have hle : skip + 1 ≤ s.serBufInLen.toNat := by omega
  calc e.packet
      = window SERIAL_BUFFER_MAX s.serBufIn
          (cell SERIAL_BUFFER_MAX s.serBufInHead (skip + 1)) e.frameLen := h.packet
    _ = (window SERIAL_BUFFER_MAX s.serBufIn
          (cell SERIAL_BUFFER_MAX s.serBufInHead (skip + 1))
          (s.serBufInLen.toNat - (skip + 1))).take e.frameLen :=
        (window_take _ _ _ (by omega)).symm
    _ = ((unread s).drop (skip + 1)).take e.frameLen := by rw [unread, window_drop _ _ _ hle]

/-! ### Paths -/

theorem Assembling.path {s last : SerBuf} {offset : Nat} {tr : Trace}
    (h : Assembling s offset tr last) : Path Step s tr last := by
  induction h with
  | done => exact .nil _
  | frame he rest ih => exact .cons (.iterate he) ih

theorem Receiving.path {s last : SerBuf} {dev : Driver} {tr : Trace}
    (h : Receiving s dev tr last) : Path Step s tr last := by
  induction h with
  | done => exact .nil _
  | @more s dev data dev' tr last hr hne rest ih =>
      exact .cons (.read (delivered_read (serBufAva_pos s) hr).2.2) ih

theorem perform_path {s : SerBuf} (hs : Bounded s) (event : Event) :
    Path Step s (perform s event).1 (perform s event).2 := by
  cases event with
  | serialRcv dev => exact (serialRcv_receiving s dev).path
  | messageAssembler => exact (messageAssembler_assembling hs).path

theorem Path.bounded {s last : SerBuf} {tr : Trace} (path : Path Step s tr last)
    (hs : Bounded s) : Bounded last := by
  have hok : ∀ e ∈ tr, True := fun _ _ => trivial
  exact (path.invariant (fun _ _ _ hb h _ => h.bounded hb) hs hok).1

theorem run_path {s : SerBuf} (hs : Bounded s) (events : List Event) :
    Path Step s (run s events).1 (run s events).2 := by
  induction events generalizing s with
  | nil => exact .nil s
  | cons event rest ih =>
      have hfirst := perform_path hs event
      exact hfirst.append (ih (Path.bounded hfirst hs))

theorem run_append (s : SerBuf) (events events' : List Event) :
    (run s (events ++ events')).1 =
        (run s events).1 ++ (run (run s events).2 events').1 ∧
      (run s (events ++ events')).2 = (run (run s events).2 events').2 := by
  induction events generalizing s with
  | nil => simp [run]
  | cons event rest ih =>
      simp only [List.cons_append, run, List.append_assoc]
      exact ⟨by rw [(ih _).1], (ih _).2⟩

/-! ### What `SerialRcv` appends -/

/-- While the ring never holds more than its size, `SerialRcv` appends what the
driver delivers, and dispatches nothing. -/
theorem Receiving.unread_eq {s last : SerBuf} {dev : Driver} {tr : Trace}
    (h : Receiving s dev tr last) (hs : Bounded s)
    (hfit : ∀ e ∈ tr, e.2.2.serBufInLen ≤ SERIAL_BUFFER_MAX) :
    unread last = unread s ++ delivered dev ∧ tr.filterMap dispatch = [] := by
  induction h with
  | @done s dev hr =>
      have hnone := (delivered_read (serBufAva_pos s) (Prod.eta _).symm).1 hr
      simp [hnone]
  | @more s dev data dev' tr last hr hne rest ih =>
      obtain ⟨-, hmore, hle⟩ := delivered_read (serBufAva_pos s) hr
      have hfirst : s.serBufInLen + data.length ≤ SERIAL_BUFFER_MAX :=
        hfit (s, .read data, storeRead s data) (by simp)
      obtain ⟨hlast, hdisp⟩ := ih (storeRead_bounded hs data) fun e he => hfit e (by simp [he])
      rw [hlast, unread_storeRead hs hle hfirst, hmore hne, List.append_assoc]
      exact ⟨rfl, by simpa [dispatch] using hdisp⟩

end KappaGateway.Mtintf

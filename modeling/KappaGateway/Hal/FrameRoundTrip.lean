import KappaGateway.Hal.ReceiveRuns

/-!
# Frames survive the serial line

A frame announces its own length right behind the start byte. On a stream of
such frames the ring always starts at a frame, so the assembler takes the
frames out one by one, however the stream was cut into reads, and start bytes
inside a frame are never looked at. The checksum then tells intact frames from
those with one changed byte.
-/

namespace KappaGateway.Mtintf

open CircularBuffer Mtproc Transition

/-- A frame whose length byte agrees with its length. -/
def WireFrame (f : List UInt8) : Prop :=
  ∃ len body, f = MT_SOF :: len :: body ∧ body.length = len.toNat + 3

theorem unread_getElem_one {s : SerBuf} (h : 1 < (unread s).length) :
    (unread s)[1] = s.serBufIn (cell SERIAL_BUFFER_MAX s.serBufInHead 1) := by
  simp [unread]

/-- A complete frame at the front is extracted, from a zero `Offset` that stays zero. -/
theorem assembleOnce_frame {s : SerBuf} (hs : Bounded s) {f w : List UInt8}
    (hf : WireFrame f) (hu : unread s = f ++ w) :
    ∃ e, assembleOnce s 0 = some e ∧ e.offset = 0 ∧ e.packet = f.tail ∧ unread e.after = w := by
  obtain ⟨len, body, rfl, hbody⟩ := hf
  have hlen := congrArg List.length hu
  simp only [unread_length, List.length_append, List.length_cons] at hlen
  have hstart : s.serBufIn s.serBufInHead = MT_SOF := by
    rw [← unread_getElem_zero hs (by simp; omega)]
    simp [hu]
  have hbyte : s.serBufIn (cell SERIAL_BUFFER_MAX s.serBufInHead 1) = len := by
    rw [← unread_getElem_one (by simp; omega)]
    simp [hu]
  have hnonneg := hs.len_nonneg
  have hmin : (MIN_PACKET_LEN : Int) ≤ s.serBufInLen := by
    rw [MIN_PACKET_LEN]
    omega
  obtain ⟨e, he⟩ : ∃ e, assembleOnce s 0 = some e :=
    (assembleOnce_of_start hmin hstart).mpr (by rw [hbyte]; omega)
  obtain ⟨skip, hx⟩ := assembleOnce_extracts hs he
  obtain ⟨-, rfl, hoff⟩ | ⟨hne, -⟩ := hx.found
  · have hframe : e.frameLen = body.length + 1 := by
      rw [hx.len_byte, hbyte]
      omega
    refine ⟨e, he, hoff, ?_, ?_⟩
    · rw [hx.packet_eq, hu, hframe]
      simp
    · rw [hx.unread_after hoff, hu, hframe]
      simp [Nat.add_comm 1]
  · exact absurd hstart hne

/-- The assembler waits for the rest of an incomplete frame. -/
theorem assembleOnce_incomplete {s : SerBuf} (hs : Bounded s) {f rest more : List UInt8}
    (hf : WireFrame f) (hu : unread s ++ rest = f ++ more)
    (hlt : (unread s).length < f.length) : assembleOnce s 0 = none := by
  by_cases hmin : s.serBufInLen < MIN_PACKET_LEN
  · rw [assembleOnce, if_pos hmin]
  · obtain ⟨len, body, rfl, hbody⟩ := hf
    have hpre : unread s <+: MT_SOF :: len :: body :=
      List.prefix_of_prefix_length_le ⟨rest, hu⟩ ⟨more, rfl⟩ hlt.le
    rw [MIN_PACKET_LEN] at hmin
    have hstart : s.serBufIn s.serBufInHead = MT_SOF := by
      rw [← unread_getElem_zero hs (by simp; omega)]
      exact hpre.getElem _
    have hbyte : s.serBufIn (cell SERIAL_BUFFER_MAX s.serBufInHead 1) = len := by
      rw [← unread_getElem_one (by simp; omega)]
      exact hpre.getElem _
    simp only [unread_length, List.length_cons] at hlt
    apply Option.eq_none_iff_forall_ne_some.mpr
    intro e he
    have hlong := (assembleOnce_of_start (by rw [MIN_PACKET_LEN]; omega) hstart).mp ⟨e, he⟩
    rw [hbyte] at hlong
    omega

/-- On a stream of frames an extraction takes the next one. -/
theorem assembleOnce_stream {s : SerBuf} (hs : Bounded s) {e : Extraction}
    (he : assembleOnce s 0 = some e) {frames : List (List UInt8)} {rest : List UInt8}
    (hf : ∀ f ∈ frames, WireFrame f) (hu : unread s ++ rest = frames.flatten) :
    ∃ f fs, frames = f :: fs ∧ e.offset = 0 ∧ e.packet = f.tail ∧
      unread e.after ++ rest = fs.flatten ∧ Bounded e.after := by
  obtain ⟨skip, hx⟩ := assembleOnce_extracts hs he
  cases frames with
  | nil =>
      have hlen := congrArg List.length hu
      have := hx.min_len
      simp only [MIN_PACKET_LEN, List.length_append, unread_length, List.flatten_nil,
        List.length_nil] at this hlen
      omega
  | cons f fs =>
      have hframe := hf f (by simp)
      rw [List.flatten_cons] at hu
      by_cases hlt : (unread s).length < f.length
      · simp [assembleOnce_incomplete hs hframe hu hlt] at he
      · obtain ⟨w, hw, hrest⟩ : ∃ w, unread s = f ++ w ∧ w ++ rest = fs.flatten := by
          rcases List.append_eq_append_iff.mp hu with ⟨w, hw, -⟩ | ⟨w, hw, hrest⟩
          · have hlen := congrArg List.length hw
            rw [List.length_append] at hlen
            obtain rfl : w = [] := List.length_eq_zero_iff.mp (by omega)
            rw [List.append_nil] at hw
            exact ⟨[], by simp [hw], List.append_cancel_left (hw ▸ hu)⟩
          · exact ⟨w, hw, hrest.symm⟩
        obtain ⟨e', he', hoff', hpacket, hafter⟩ := assembleOnce_frame hs hframe hw
        obtain rfl := Option.some.inj (he.symm.trans he')
        exact ⟨f, fs, rfl, hoff', hpacket, by rw [hafter, hrest], hx.bounded⟩

/-- On a stream of frames a run of the assembler takes out the complete ones,
dispatches those with a good checksum, and stops in front of the next one. -/
theorem Assembling.frames {s last : SerBuf} {offset : Nat} {tr : Trace}
    (h : Assembling s offset tr last) (hoff : offset = 0) (hs : Bounded s)
    {frames : List (List UInt8)} {rest : List UInt8} (hf : ∀ f ∈ frames, WireFrame f)
    (hu : unread s ++ rest = frames.flatten) :
    ∃ done todo, frames = done ++ todo ∧ unread last ++ rest = todo.flatten ∧
      tr.filterMap dispatch = (done.map List.tail).filter (xorBytes · = 0) ∧
      Bounded last ∧ assembleOnce last 0 = none := by
  induction h generalizing frames with
  | done hnone => exact ⟨[], frames, rfl, hu, rfl, hs, hoff ▸ hnone⟩
  | @frame s offset e tr last he _ ih =>
      subst hoff
      obtain ⟨f, fs, rfl, hoff', hpacket, hafter, hbounded⟩ := assembleOnce_stream hs he hf hu
      have hfs : ∀ g ∈ fs, WireFrame g := fun g hg => hf g (by simp [hg])
      obtain ⟨done, todo, rfl, hlast, hdisp, hb, hnone⟩ := ih hoff' hbounded hfs hafter
      refine ⟨f :: done, todo, rfl, hlast, ?_, hb, hnone⟩
      rw [List.filterMap_cons, hdisp, dispatch, he, Option.bind_some, hpacket, List.map_cons,
        List.filter_cons]
      by_cases hx0 : xorBytes f.tail = 0 <;> simp [hx0]

/-- A `MessageAssembler` run behind every `SerialRcv` call. -/
def assembleAfterEach (cut : List Driver) : List Event :=
  cut.flatMap fun dev => [.serialRcv dev, .messageAssembler]

/-- However a stream of frames is cut, all of them are taken out in order. -/
theorem run_frames {s : SerBuf} (hs : Bounded s) {frames : List (List UInt8)}
    (hf : ∀ f ∈ frames, WireFrame f) (cut : List Driver)
    (hu : unread s ++ cut.flatMap delivered = frames.flatten)
    (hstop : assembleOnce s 0 = none)
    (hfit : ∀ e ∈ (run s (assembleAfterEach cut)).1, e.2.2.serBufInLen ≤ SERIAL_BUFFER_MAX) :
    (run s (assembleAfterEach cut)).1.filterMap dispatch =
      (frames.map List.tail).filter (xorBytes · = 0) := by
  induction cut generalizing s frames with
  | nil =>
      cases frames with
      | nil => rfl
      | cons f fs =>
          have hw : unread s = f ++ fs.flatten := by simpa using hu
          obtain ⟨e, he, -⟩ := assembleOnce_frame hs (hf f (by simp)) hw
          simp [he] at hstop
  | cons dev cut ih =>
      have hrcv := serialRcv_receiving s dev
      have hs₁ := Path.bounded hrcv.path hs
      have hasm := messageAssembler_assembling hs₁
      simp only [assembleAfterEach, List.flatMap_cons, List.cons_append, List.nil_append, run,
        perform, List.mem_append] at hfit ⊢
      obtain ⟨hread, hquiet⟩ := hrcv.unread_eq hs fun e he => hfit e (Or.inl he)
      have hstream : unread (serialRcv s dev).2 ++ cut.flatMap delivered = frames.flatten := by
        rw [hread, ← hu]
        simp
      obtain ⟨done, todo, rfl, hlast, hdisp, hs₂, hnone⟩ := hasm.frames rfl hs₁ hf hstream
      have hrest := ih hs₂ (fun f hm => hf f (by simp [hm])) hlast hnone
        fun e he => hfit e (Or.inr (Or.inr he))
      rw [assembleAfterEach] at hrest
      simp only [List.filterMap_append, hquiet, hdisp, hrest, List.nil_append, List.map_append,
        List.filter_append]

/-- One command sent, the frame built for it, and what arrives at the other
end: the frame, or the frame with one byte behind the length byte changed. -/
structure Sent where
  cmdPtr : List UInt8
  cmdType : UInt8
  cmdId : UInt8
  data : List UInt8
  data_le : data.length ≤ MT_RPC_DATA_MAX
  frame : List UInt8
  built : mtBuildAndSendCmd (some cmdPtr) cmdType cmdId (UInt8.ofNat data.length) (some data) =
    some frame
  altered : Option (Nat × UInt8)
  altered_ok : ∀ p ∈ altered, 2 ≤ p.1 ∧ ∃ h : p.1 < frame.length, frame[p.1] ≠ p.2

namespace Sent

/-- The bytes that arrive. -/
def wire (c : Sent) : List UInt8 :=
  match c.altered with
  | none => c.frame
  | some (i, v) => c.frame.set i v

/-- Length, `cmd0`, `cmd1`, data and checksum. -/
def packet (c : Sent) : List UInt8 :=
  let msg := UInt8.ofNat c.data.length :: c.cmdType :: c.cmdId :: c.data
  msg ++ [xorBytes msg]

theorem frame_eq (c : Sent) : c.frame = MT_SOF :: c.packet := by
  have hmax := c.data_le
  rw [MT_RPC_DATA_MAX] at hmax
  have hlen : c.data.length = (UInt8.ofNat c.data.length).toNat := by
    rw [UInt8.toNat_ofNat']
    omega
  have hbuilt := c.built
  rw [mtBuildAndSendCmd_eq _ _ _ _ _ hlen c.data_le] at hbuilt
  exact (Option.some.inj hbuilt).symm

theorem wireFrame (c : Sent) : WireFrame c.wire := by
  have hmax := c.data_le
  rw [MT_RPC_DATA_MAX] at hmax
  have hlen : (UInt8.ofNat c.data.length).toNat = c.data.length := by
    rw [UInt8.toNat_ofNat']
    omega
  rw [wire]
  split
  · exact ⟨_, _, c.frame_eq, by simp [hlen]⟩
  · rename_i i v h
    obtain ⟨j, rfl⟩ : ∃ j, i = j + 2 := Nat.exists_eq_add_of_le' (c.altered_ok _ h).1
    rw [c.frame_eq, packet]
    exact ⟨_, _, rfl, by simp [hlen]⟩

/-- The checksum test passes exactly the unaltered frames. -/
theorem xorBytes_wire (c : Sent) : xorBytes c.wire.tail = 0 ↔ c.altered = none := by
  have hzero : xorBytes c.packet = 0 := xorBytes_append_self _
  rw [wire]
  split
  · simp [c.frame_eq, hzero, ‹c.altered = none›]
  · rename_i i v h
    obtain ⟨hpos, hlt, hne⟩ := c.altered_ok _ h
    obtain ⟨j, rfl⟩ : ∃ j, i = j + 1 := Nat.exists_eq_add_of_le' (by omega)
    simp only [c.frame_eq, List.set_cons_succ, List.tail_cons, h, reduceCtorEq, iff_false]
    simp only [c.frame_eq, List.length_cons] at hlt
    simp only [c.frame_eq, List.getElem_cons_succ] at hne
    have := xorBytes_set_ne (Nat.lt_of_succ_lt_succ hlt) hne
    rwa [hzero] at this

end Sent

/-- Whatever is sent and however the line is cut into reads, exactly the
unaltered frames reach `ProcessIncommingMessage`, in order. -/
theorem serial_round_trip (s : SerBuf) (hhead : s.serBufInHead < SERIAL_BUFFER_MAX)
    (hempty : s.serBufInLen = 0) (sent : List Sent) (cut : List Driver)
    (hcut : cut.flatMap delivered = sent.flatMap Sent.wire)
    (hfit : ∀ e ∈ (run s (assembleAfterEach cut)).1, e.2.2.serBufInLen ≤ SERIAL_BUFFER_MAX) :
    (run s (assembleAfterEach cut)).1.filterMap dispatch =
      (sent.filter (·.altered.isNone)).map Sent.packet := by
  have hs : Bounded s := ⟨hhead, hempty.ge⟩
  have hnone : assembleOnce s 0 = none := by
    rw [assembleOnce, if_pos (by rw [hempty]; decide)]
  have hu : unread s ++ cut.flatMap delivered = (sent.map Sent.wire).flatten := by
    simp [unread, hempty, hcut, List.flatMap_def]
  have hframes : ∀ f ∈ sent.map Sent.wire, WireFrame f := by
    intro f hf
    obtain ⟨c, -, rfl⟩ := List.mem_map.mp hf
    exact c.wireFrame
  rw [run_frames hs hframes cut hu hnone hfit, List.map_map, List.filter_map]
  have hsel : ∀ c ∈ sent, ((fun p => decide (xorBytes p = 0)) ∘ List.tail ∘ Sent.wire) c =
      c.altered.isNone := by
    intro c _
    simp only [Function.comp_apply, c.xorBytes_wire]
    cases c.altered <;> rfl
  rw [List.filter_congr hsel]
  apply List.map_congr_left
  intro c hc
  have hunaltered : c.altered = none := by simpa using (List.mem_filter.mp hc).2
  simp [Sent.wire, hunaltered, c.frame_eq]

/-- A ping, then an altered ping, received from the middle of the ring. -/
def pings : List Sent :=
  [ { cmdPtr := [], cmdType := 0x21, cmdId := 1, data := [], data_le := by decide,
      frame := [0xFE, 0, 0x21, 1, 0x20], built := by decide,
      altered := none, altered_ok := by simp },
    { cmdPtr := [], cmdType := 0x21, cmdId := 1, data := [0xFE], data_le := by decide,
      frame := [0xFE, 1, 0x21, 1, 0xFE, 0xDF], built := by decide,
      altered := some (3, 2), altered_ok := by simp } ]

/-- The round trip on two frames that wrap around the end of the ring. -/
theorem serial_round_trip_pings :
    (run ⟨fun _ => 0, 508, 0⟩ (assembleAfterEach
        [[[0xFE, 0, 0x21]], [[1, 0x20, 0xFE], [1, 0x21, 2, 0xFE, 0xDF]]])).1.filterMap dispatch =
      [[0, 0x21, 1, 0x20]] :=
  serial_round_trip ⟨fun _ => 0, 508, 0⟩ (by decide) rfl pings _ (by decide) (by decide)

end KappaGateway.Mtintf

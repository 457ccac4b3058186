import KappaGateway.Hal.AfFields
import KappaGateway.Hal.Mtaf

/-!
# AF requests on the wire

The sender for short addresses sends the image of a `kr_afmessage`, as long as the
length fits into a frame. The sender for extended addresses counts one byte more
than it writes.
-/

namespace KappaGateway.Mtaf

open Kutil Windows AfMessage Mtproc

/-- The header that `MT_AfDataRequest` writes. -/
def header (x : AFMessage) : List UInt8 :=
  memory 2 x.dstAddr.toNat ++ [x.dstEndpoint, x.srcEndpoint] ++ memory 2 x.clusterId.toNat ++
    [x.tranSeqNum, x.options, x.radius, x.asduLen]

/-- The header that `dataRequest` writes. -/
def header_EXT (x : AFMessage_EXT) : List UInt8 :=
  x.addrMode :: memory 8 x.dstAddr.toNat ++ x.dstEndpoint :: memory 2 x.dstPanId.toNat ++
    x.srcEndpoint :: memory 2 x.clusterId.toNat ++ [x.tranSeqNum, x.options, x.radius] ++
    memory 2 x.asduLen.toNat

section

variable {pData : Nat → UInt8}

@[simp] theorem pos_afDataRequest (x : AFMessage) :
    (afDataRequest pData x).pos = 10 + x.asduLen.toNat := by
  simp [afDataRequest]

@[simp] theorem pos_afDataRequest_EXT (x : AFMessage_EXT) :
    (afDataRequest_EXT pData x).pos = 20 + x.asduLen.toNat := by
  simp [afDataRequest_EXT]

theorem written_afDataRequest (x : AFMessage) :
    (afDataRequest pData x).written = header x ++ window x.asdu 0 x.asduLen.toNat := by
  simp [afDataRequest, header]

theorem written_afDataRequest_EXT (x : AFMessage_EXT) :
    (afDataRequest_EXT pData x).written = header_EXT x ++ window x.asdu 0 x.asduLen.toNat := by
  simp [afDataRequest_EXT, header_EXT]

/-- A frame with the first bytes of a memory. -/
def frame (cmdType cmdId len : UInt8) (mem : Nat → UInt8) : List UInt8 :=
  MT_SOF :: len :: cmdType :: cmdId :: window mem 0 len.toNat ++
    [cmdFCSCal (len :: cmdType :: cmdId :: window mem 0 len.toNat) (len + 3)]

/-- What lies between the command and the checksum of a frame. -/
def payload (bytes : List UInt8) : List UInt8 := (bytes.drop 4).dropLast

section

variable {cmdType cmdId len : UInt8} {mem : Nat → UInt8}

@[simp] theorem frame_length : (frame cmdType cmdId len mem)[1]? = some len := rfl

@[simp] theorem payload_frame : payload (frame cmdType cmdId len mem) = window mem 0 len.toNat := by
  simp [payload, frame]

theorem mtBuildAndSendCmd_window (old : List UInt8) :
    mtBuildAndSendCmd (some old) cmdType cmdId len (some (window mem 0 pDataSize)) =
      some (frame cmdType cmdId len mem) := by
  have htake : (window mem 0 pDataSize).take len.toNat = window mem 0 len.toNat :=
    window_take mem 0 (Nat.le_of_lt len.toNat_lt)
  simp only [mtBuildAndSendCmd, Option.map_some, htake]
  rfl

end

theorem MT_AfDataRequest_eq (old : List UInt8) (x : AFMessage) :
    MT_AfDataRequest (some old) pData x =
      some (frame 0x24 0x01 (UInt8.ofNat (10 + x.asduLen.toNat)) (afDataRequest pData x).mem) := by
  have hlen : ZBNWKADDRLEN + ZB_EP_LEN + ZB_EP_LEN + ZB_CLUSTERID_LEN + ZB_TRANSEQNUM_LEN + 1 + 1 +
      x.asduLen.toNat + 1 = 10 + x.asduLen.toNat := by
    simp only [ZBNWKADDRLEN, ZB_EP_LEN, ZB_CLUSTERID_LEN, ZB_TRANSEQNUM_LEN]
    omega
  rw [MT_AfDataRequest, hlen]
  exact mtBuildAndSendCmd_window old

theorem dataRequest_eq (old : List UInt8) (x : AFMessage_EXT) :
    dataRequest (some old) pData x =
      some (frame 0x24 0x02 (UInt8.ofNat (20 + x.asduLen.toNat + 1))
        (afDataRequest_EXT pData x).mem) :=
  mtBuildAndSendCmd_window old

end

/-! ### Lengths -/

/-- A message for one of the two senders. -/
inductive Request where
  | AF (x : AFMessage)
  | AF_EXT (x : AFMessage_EXT)

namespace Request

def send (cmdPtr : Option (List UInt8)) (pData : Nat → UInt8) : Request → Option (List UInt8)
  | .AF x => MT_AfDataRequest cmdPtr pData x
  | .AF_EXT x => dataRequest cmdPtr pData x

def asduLen : Request → Nat
  | .AF x => x.asduLen.toNat
  | .AF_EXT x => x.asduLen.toNat

/-- The header and ASDU bytes that the message has. -/
def size : Request → Nat
  | .AF x => 10 + x.asduLen.toNat
  | .AF_EXT x => 20 + x.asduLen.toNat

def room : Request → Nat
  | .AF x => x.room
  | .AF_EXT x => x.room

/-- The bytes of `pData` that the sender writes. -/
def written (pData : Nat → UInt8) : Request → Nat
  | .AF x => (afDataRequest pData x).pos
  | .AF_EXT x => (afDataRequest_EXT pData x).pos

/-- An ASDU that fits into a frame, and that the message has in its array. -/
def Fits : Request → Prop
  | .AF x => x.asduLen.toNat ≤ 240 ∧ x.asduLen.toNat ≤ x.room
  | .AF_EXT _ => False

end Request

/-- If there is a frame, its length byte is the size of the message and allowed, and
nothing was read or written out of bounds. -/
def Untruncated (pData : Nat → UInt8) (r : Request) (frame : Option (List UInt8)) : Prop :=
  ∀ bytes ∈ frame, bytes[1]?.map UInt8.toNat = some r.size ∧ r.size ≤ MT_RPC_DATA_MAX ∧
    r.asduLen ≤ r.room ∧ r.written pData ≤ pDataSize

theorem untruncated_AF_iff (old : List UInt8) (pData : Nat → UInt8) (x : AFMessage) :
    Untruncated pData (.AF x) ((Request.AF x).send (some old) pData) ↔ (Request.AF x).Fits := by
  rw [Request.send, MT_AfDataRequest_eq]
  simp only [Untruncated, Option.mem_def, Option.some.injEq, forall_eq', frame_length,
    Request.size, Request.asduLen, Request.room, Request.written, Request.Fits,
    pos_afDataRequest, MT_RPC_DATA_MAX, pDataSize, Option.map_some, UInt8.toNat_ofNat']
  omega

/-- The length byte is one more than the size, or has wrapped. -/
theorem not_untruncated_AF_EXT (old : List UInt8) (pData : Nat → UInt8) (x : AFMessage_EXT) :
    ¬ Untruncated pData (.AF_EXT x) ((Request.AF_EXT x).send (some old) pData) := by
  rw [Request.send, dataRequest_eq]
  simp only [Untruncated, Option.mem_def, Option.some.injEq, forall_eq', frame_length,
    Request.size, Option.map_some, UInt8.toNat_ofNat', MT_RPC_DATA_MAX]
  omega

/-- A request is sent whole exactly if there is no memory for a frame, or it is one
for short addresses whose ASDU fits. -/
theorem requests_untruncated (cmdPtr : Option (List UInt8)) (pData : Nat → UInt8) (r : Request) :
    Untruncated pData r (r.send cmdPtr pData) ↔ cmdPtr = none ∨ r.Fits := by
  cases cmdPtr with
  | none =>
      refine iff_of_true ?_ (Or.inl rfl)
      intro bytes hbytes
      cases r <;> cases hbytes
  | some old =>
      rw [or_iff_right (by simp)]
      cases r with
      | AF x => exact untruncated_AF_iff old pData x
      | AF_EXT x => exact iff_of_false (not_untruncated_AF_EXT old pData x) id

/-- With 246 bytes of ASDU, the length has wrapped to zero. -/
theorem request_truncated :
    ∃ x, x = kr_afmessage.view (kr_afmessage.set .asduLen 246 fun _ => 0) ∧
      ((Request.AF x).send (some []) fun _ => 0) = some [MT_SOF, 0, 0x24, 0x01, 0x25] ∧
      ¬ Untruncated (fun _ => 0) (.AF x) ((Request.AF x).send (some []) fun _ => 0) := by
  refine ⟨_, rfl, by decide, fun h => ?_⟩
  have hsize := (h _ (by rfl)).2.1
  revert hsize
  decide

/-! ### The image of a message -/

theorem memoryValue_lt (bytes : List UInt8) : memoryValue bytes < 256 ^ bytes.length := by
  induction bytes with
  | nil => simp [memoryValue]
  | cons b rest ih =>
      have hb := b.toNat_lt
      rw [memoryValue, List.length_cons, Nat.pow_succ]
      omega

theorem memory_memoryValue (bytes : List UInt8) :
    memory bytes.length (memoryValue bytes) = bytes := by
  induction bytes with
  | nil => rfl
  | cons b rest ih =>
      have hb := b.toNat_lt
      have hlow : UInt8.ofNat (b.toNat + 256 * memoryValue rest) = b := by
        apply UInt8.toNat.inj
        rw [UInt8.toNat_ofNat']
        omega
      have hhigh : (b.toNat + 256 * memoryValue rest) / 256 = memoryValue rest := by omega
      rw [List.length_cons, memoryValue, memory, hlow, hhigh, ih]

section

variable {data : Data} {i : Nat}

theorem memory_proxyRd (size : Nat) : memory size (proxyRd size data i) = window data i size := by
  have hmemory := memory_memoryValue (window data i size)
  rwa [window_length] at hmemory

theorem proxyRd_lt (size : Nat) : proxyRd size data i < 256 ^ size := by
  have hlt := memoryValue_lt (window data i size)
  rwa [window_length] at hlt

@[simp] theorem memory_ofNat_16 :
    memory 2 (UInt16.ofNat (proxyRd 2 data i)).toNat = window data i 2 := by
  rw [UInt16.toNat_ofNat_of_lt' (proxyRd_lt 2), memory_proxyRd]

@[simp] theorem memory_ofNat_64 :
    memory 8 (UInt64.ofNat (proxyRd 8 data i)).toNat = window data i 8 := by
  rw [UInt64.toNat_ofNat_of_lt' (proxyRd_lt 8), memory_proxyRd]

end

/-- The sender writes the fields in the order in which they lie in the message. -/
theorem header_view (data : Data) : header (kr_afmessage.view data) = window data 0 10 := by
  simp only [header, kr_afmessage.view, kr_afmessage.get, memory_ofNat_16, UInt8.ofNat_toNat]
  rfl

theorem header_EXT_view (data : Data) :
    header_EXT (kr_afmessage_EXT.view data) = window data 0 20 := by
  simp only [header_EXT, kr_afmessage_EXT.view, kr_afmessage_EXT.get, memory_ofNat_16,
    memory_ofNat_64, UInt8.ofNat_toNat]
  rfl

/-- A message of the gateway for one of the two senders. -/
inductive KrMessage where
  | kr_afmessage (data : Data)
  | kr_afmessage_EXT (data : Data)

namespace KrMessage

def data : KrMessage → Data
  | .kr_afmessage data => data
  | .kr_afmessage_EXT data => data

def request : KrMessage → Request
  | .kr_afmessage data => .AF (AfMessage.kr_afmessage.view data)
  | .kr_afmessage_EXT data => .AF_EXT (AfMessage.kr_afmessage_EXT.view data)

/-- The longest ASDU that is to be sent as an image. -/
def maxAsduLen : KrMessage → Nat
  | .kr_afmessage _ => 240
  | .kr_afmessage_EXT _ => 230

/-- Copied into a fresh message, the bytes give back every field and the ASDU. -/
def Recovered (bytes : List UInt8) : KrMessage → Prop
  | .kr_afmessage data => ∀ f fresh,
      (∀ i, f = .asdu i → i.val < (Request.AF (AfMessage.kr_afmessage.view data)).asduLen) →
        kr_afmessage.get f (patch 0 bytes fresh) = kr_afmessage.get f data
  | .kr_afmessage_EXT data => ∀ f fresh,
      (∀ i, f = .asdu i → i.val < (Request.AF_EXT (AfMessage.kr_afmessage_EXT.view data)).asduLen) →
        kr_afmessage_EXT.get f (patch 0 bytes fresh) = kr_afmessage_EXT.get f data

end KrMessage

/-- One frame is sent, with the image of the message. -/
def SentAsImage (m : KrMessage) (sent : Option (List UInt8)) : Prop :=
  ∃ bytes, sent = some bytes ∧ bytes[1]?.map UInt8.toNat = some m.request.size ∧
    payload bytes = window m.data 0 m.request.size ∧ m.Recovered (payload bytes)

section

variable {pData : Nat → UInt8} {data : Data}

theorem written_kr_afmessage :
    (afDataRequest pData (kr_afmessage.view data)).written =
      window data 0 (10 + (kr_afmessage.view data).asduLen.toNat) := by
  rw [written_afDataRequest, header_view, window_append]
  exact congrArg (window data 0 10 ++ ·) (window_shift data 10 _)

theorem written_kr_afmessage_EXT :
    (afDataRequest_EXT pData (kr_afmessage_EXT.view data)).written =
      window data 0 (20 + (kr_afmessage_EXT.view data).asduLen.toNat) := by
  rw [written_afDataRequest_EXT, header_EXT_view, window_append]
  exact congrArg (window data 0 20 ++ ·) (window_shift data 20 _)

/-- The frame of a message whose length fits has the image as payload. -/
theorem payload_kr_afmessage (h : (kr_afmessage.view data).asduLen.toNat ≤ 240) :
    window (afDataRequest pData (kr_afmessage.view data)).mem 0
        (UInt8.ofNat (10 + (kr_afmessage.view data).asduLen.toNat)).toNat =
      window data 0 (10 + (kr_afmessage.view data).asduLen.toNat) := by
  have himage : (afDataRequest pData (kr_afmessage.view data)).written =
      window data 0 (10 + (kr_afmessage.view data).asduLen.toNat) := written_kr_afmessage
  rw [Cursor.written, pos_afDataRequest] at himage
  rw [UInt8.toNat_ofNat_of_lt' (show _ < 256 by omega), himage]

/-- The frame of an extended message has one byte more, which was never written. -/
theorem payload_kr_afmessage_EXT (h : (kr_afmessage_EXT.view data).asduLen.toNat ≤ 230) :
    window (afDataRequest_EXT pData (kr_afmessage_EXT.view data)).mem 0
        (UInt8.ofNat (20 + (kr_afmessage_EXT.view data).asduLen.toNat + 1)).toNat =
      window data 0 (20 + (kr_afmessage_EXT.view data).asduLen.toNat) ++
        [pData (20 + (kr_afmessage_EXT.view data).asduLen.toNat)] := by
  have hbeyond : (afDataRequest_EXT pData (kr_afmessage_EXT.view data)).mem
      (20 + (kr_afmessage_EXT.view data).asduLen.toNat) =
        pData (20 + (kr_afmessage_EXT.view data).asduLen.toNat) := by
    simp (disch := (simp; try omega)) only [afDataRequest_EXT, Cursor.mem_put_of_le]
  have himage : (afDataRequest_EXT pData (kr_afmessage_EXT.view data)).written =
      window data 0 (20 + (kr_afmessage_EXT.view data).asduLen.toNat) := written_kr_afmessage_EXT
  rw [Cursor.written, pos_afDataRequest_EXT] at himage
  rw [UInt8.toNat_ofNat_of_lt' (show _ < 256 by omega), window_succ, Nat.zero_add, hbeyond, himage]

theorem recovered_kr_afmessage :
    (KrMessage.kr_afmessage data).Recovered
      (window data 0 (10 + (kr_afmessage.view data).asduLen.toNat)) := by
  intro f fresh hasdu
  have hend : kr_afmessage.start f + kr_afmessage.size f ≤
      10 + (kr_afmessage.view data).asduLen.toNat := by
    cases f with
    | asdu i =>
        have hi : i.val < (kr_afmessage.view data).asduLen.toNat := hasdu i rfl
        show 10 + i.val + 1 ≤ _
        omega
    | _ => exact Nat.le_add_right_of_le (by decide)
  have hwindow := window_patch_window (m := data) hend fresh
  have hget := kr_afmessage.spans.get_eq f
  calc kr_afmessage.get f _ = memoryValue (window _ (kr_afmessage.start f) (kr_afmessage.size f)) :=
        hget _
    _ = memoryValue (window data (kr_afmessage.start f) (kr_afmessage.size f)) :=
        congrArg memoryValue hwindow
    _ = kr_afmessage.get f data := (hget data).symm

end

/-- A request that fits into a frame is sent as the image of its message exactly if it
is one for short addresses. -/
theorem request_image (old : List UInt8) (pData : Nat → UInt8) (m : KrMessage)
    (h : m.request.asduLen ≤ m.maxAsduLen) :
    SentAsImage m (m.request.send (some old) pData) ↔ ∃ data, m = .kr_afmessage data := by
  cases m with
  | kr_afmessage data =>
      have hlen : (kr_afmessage.view data).asduLen.toNat ≤ 240 := h
      refine iff_of_true ⟨_, MT_AfDataRequest_eq old _, ?_, ?_, ?_⟩ ⟨data, rfl⟩
      · rw [frame_length, Option.map_some, UInt8.toNat_ofNat_of_lt' (show _ < 256 by omega)]
        rfl
      · rw [payload_frame, payload_kr_afmessage hlen]
        rfl
      · rw [payload_frame, payload_kr_afmessage hlen]
        exact recovered_kr_afmessage
  | kr_afmessage_EXT data =>
      have hlen : (kr_afmessage_EXT.view data).asduLen.toNat ≤ 230 := h
      refine iff_of_false ?_ (by rintro ⟨data', hdata⟩; cases hdata)
      rintro ⟨bytes, hsent, hsize, -⟩
      obtain rfl := Option.some.inj ((dataRequest_eq old _).symm.trans hsent)
      rw [frame_length, Option.map_some, UInt8.toNat_ofNat_of_lt' (show _ < 256 by omega)] at hsize
      have hsame : 20 + (kr_afmessage_EXT.view data).asduLen.toNat + 1 =
          20 + (kr_afmessage_EXT.view data).asduLen.toNat := Option.some.inj hsize
      omega

/-- A command of three bytes for endpoint 11 of the device 0x1234, to cluster 0x0106. -/
def switchOn : Nat → UInt8 :=
  patch 0 [0x34, 0x12, 11, 1, 0x06, 0x01, 7, 0x30, 15, 3, 0x11, 0x2A, 0x01] fun _ => 0

theorem request_image_switchOn :
    SentAsImage (.kr_afmessage switchOn)
      ((KrMessage.kr_afmessage switchOn).request.send (some [1, 2, 3]) fun _ => 0xFF) :=
  (request_image [1, 2, 3] (fun _ => 0xFF) (.kr_afmessage switchOn) (by decide)).mpr ⟨_, rfl⟩

/-- An extended message without ASDU is sent with 21 bytes, and the last one comes from
memory that was never written. -/
theorem request_image_EXT :
    ∃ bytes, ((KrMessage.kr_afmessage_EXT fun _ => 0).request.send (some []) fun _ => 0xFF) =
        some bytes ∧ payload bytes = List.replicate 20 0 ++ [0xFF] ∧
      ¬ SentAsImage (.kr_afmessage_EXT fun _ => 0) (some bytes) := by
  refine ⟨_, rfl, by decide, ?_⟩
  rintro ⟨bytes, hbytes, hsize, -⟩
  obtain rfl := Option.some.inj hbytes
  revert hsize
  decide

end KappaGateway.Mtaf

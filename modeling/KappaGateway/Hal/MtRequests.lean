import KappaGateway.Hal.AfRequests
import KappaGateway.Sbl.FlashVerified

/-!
# The data of the requests to the dongle

Every request is a command on the stack whose 256 bytes of data are not initialized.
The functions that build them write some bytes and set a length; what is sent depends
on the stack if the length covers more than was written. The senders of AF messages
copy an ASDU of any length, which need not lie in the message, or fit into the data.
-/

namespace KappaGateway.MtRequests

open AfMessage Kutil Mtaf Mtproc SerialBootload Windows

/-- `mtMessage_t`. -/
structure Command where
  cmdType : UInt8
  cmdId : UInt8
  dataLength : UInt8
  pData : Nat → UInt8

/-- `mtBuildAndSendCmd(mtMessage_t*)`: the bytes handed to `SerialSend`. -/
def Command.send (cmdPtr : Option (List UInt8)) (message : Command) : Option (List UInt8) :=
  mtBuildAndSendCmd cmdPtr message.cmdType message.cmdId message.dataLength
    (some (window message.pData 0 pDataSize))

/-- The first byte of data of a command that is not initialized. -/
def start (stack : Nat → UInt8) : Cursor UInt8 := ⟨stack, 0⟩

/-! ### System requests -/

def mt_sysping_req (stack : Nat → UInt8) : Command := ⟨0x21, 0x01, 0, stack⟩

def mt_sys_wdtkick_req (stack : Nat → UInt8) : Command := ⟨0x21, 0x44, 0, stack⟩

def mt_getextaddr_req (stack : Nat → UInt8) : Command := ⟨0x21, 0x04, 0, stack⟩

def mt_sysreset_req (stack : Nat → UInt8) : Command := ⟨0x21, 0x00, 0, stack⟩

/-- `NvItem_t`, as far as the requests read it. -/
structure NvItem where
  id : UInt16
  offset : UInt8
  len : UInt8
  value : Nat → UInt8

def osalNvRead (nvItem : NvItem) (stack : Nat → UInt8) : Command :=
  ⟨0x21, 0x08, 3, (start stack |>.put (memory 2 nvItem.id.toNat) |>.put [nvItem.offset]).mem⟩

/-- `OsalNvWrite`, which refuses an item that is empty or too long. -/
def osalNvWrite (nvItem : NvItem) (stack : Nat → UInt8) : Option Command :=
  if nvItem.len = 0 ∨ 246 < nvItem.len then none
  else
    let data := start stack
      |>.put (memory 2 nvItem.id.toNat)
      |>.put [nvItem.offset]
      |>.put [nvItem.len]
      |>.put (window nvItem.value 0 nvItem.len.toNat)
    some ⟨0x21, 0x09, 4 + nvItem.len, data.mem⟩

/-! ### Utility and ZDO requests -/

/-- `mtUtilAssocGetWithAddress` clears 32 bytes first. -/
def mtUtilAssocGetWithAddress (extAddr : UInt64) (stack : Nat → UInt8) : Command :=
  let cleared := (start stack |>.put (List.replicate 32 0)).mem
  ⟨0x27, 0x4a, 0x0a, (start cleared |>.put (memory 8 extAddr.toNat)).mem⟩

/-- `mtUtilGetAssocCount` writes the first and the third byte. -/
def mtUtilGetAssocCount (stack : Nat → UInt8) : Command :=
  ⟨0x27, 0x48, 2, patch 2 [6] (patch 0 [0] stack)⟩

def mtUtilAssocFindDevice (index : UInt8) (stack : Nat → UInt8) : Command :=
  ⟨0x27, 0x49, 1, (start stack |>.put [index]).mem⟩

def mtUtilGetDeviceInfo (stack : Nat → UInt8) : Command := ⟨0x27, 0, 0, stack⟩

def mtUtilAddrmgrNwkAddrLookup (nwkAddr : UInt16) (stack : Nat → UInt8) : Command :=
  ⟨0x27, 0x41, 2, (start stack |>.put (memory 2 nwkAddr.toNat)).mem⟩

def getNvInfo (stack : Nat → UInt8) : Command := ⟨0x27, 0x01, 0, stack⟩

def mt_ZDO_MGMT_PERMIT_JOIN_REQ_FUNC (permitDuration tC_Significance : UInt8)
    (stack : Nat → UInt8) : Command :=
  ⟨0x25, 0x36, 4,
    (start stack |>.put [0] |>.put [0] |>.put [permitDuration] |>.put [tC_Significance]).mem⟩

def mt_ZDO_STARTUP_FROM_APP_Req (stack : Nat → UInt8) : Command :=
  ⟨0x25, 0x40, 2, (start stack |>.put [0] |>.put [0]).mem⟩

/-- The command with which `StartSystem` leaves the boot loader. -/
def bootCommand (stack : Nat → UInt8) : Command := ⟨0x21, 0x4b, 0, stack⟩

/-! ### AF and inter-PAN requests -/

def MT_AfDataRequest (x : AFMessage) (stack : Nat → UInt8) : Command :=
  ⟨0x24, 0x01, UInt8.ofNat (10 + x.asduLen.toNat), (afDataRequest stack x).mem⟩

def dataRequest (x : AFMessage_EXT) (stack : Nat → UInt8) : Command :=
  ⟨0x24, 0x02, UInt8.ofNat (20 + x.asduLen.toNat + 1), (afDataRequest_EXT stack x).mem⟩

/-- `register_endpoint_TI`, whose buffer has 64 bytes. -/
def register_endpoint_TI (endpoint_id : UInt8) (profile_id device_id : UInt16) (device_ver : UInt8)
    (stack : Nat → UInt8) : Command :=
  let px := start stack
    |>.put [endpoint_id]
    |>.put (memory 2 profile_id.toNat)
    |>.put (memory 2 device_id.toNat)
    |>.put [device_ver]
    |>.put [0]
    |>.put [0]
    |>.put [0]
  ⟨0x24, 0x00, UInt8.ofNat px.pos, px.mem⟩

/-- The inter-PAN requests write behind the length that they have so far. -/
def interPanCommand (bytes : List UInt8) (stack : Nat → UInt8) : Command :=
  let msg := bytes.foldl (fun msg b => msg.put [b]) (start stack)
  ⟨0x24, 0x10, UInt8.ofNat msg.pos, msg.mem⟩

def register_interpan_cb_TI (ep : UInt8) : (Nat → UInt8) → Command := interPanCommand [0x02, ep]

def interPanSet (ch : UInt8) : (Nat → UInt8) → Command := interPanCommand [0x01, ch]

def intraPanSet : (Nat → UInt8) → Command := interPanCommand [0x00]

/-! ### Boot loader requests -/

def SB_RPC_SYS_BOOT : UInt8 := 0x4D
def SB_WRITE_CMD : UInt8 := 0x01
def SB_READ_CMD : UInt8 := 0x02
def SB_HANDSHAKE_CMD : UInt8 := 0x04

def sb_handshake (stack : Nat → UInt8) : Command := ⟨SB_RPC_SYS_BOOT, SB_HANDSHAKE_CMD, 0, stack⟩

/-- The two bytes of an address, and a length that is `n` more than a chunk. -/
def chunkCommand (cmdId : UInt8) (n : Nat) (addr : UInt16) (pData : Nat → UInt8) : Command :=
  ⟨SB_RPC_SYS_BOOT, cmdId, UInt8.ofNat (SB_RW_BUF_LEN + n),
    patch 1 [addrHigh addr] (patch 0 [addrLow addr] pData)⟩

/-- The read requests of `sb_image_read` and `sb_image_write`. -/
def rdReq (addr : UInt16) (stack : Nat → UInt8) : Command := chunkCommand SB_READ_CMD 3 addr stack

/-- What lies in the data of the write request before the first chunk is read. -/
def stackBlock (stack : Nat → UInt8) : Block := Vector.ofFn fun i => stack (2 + i)

/-- The write request of `sb_image_write` for a chunk that the file has. -/
def wrReq (file : List UInt8) (k : Nat) (stack : Nat → UInt8) : Option Command :=
  if SB_RW_BUF_LEN * k < file.length then
    some (chunkCommand SB_WRITE_CMD 2 (chunkAddr k)
      (patch 2 (sent (stackBlock stack) file k).toList stack))
  else none

/-! ### All requests -/

/-- A function that builds a request, with its arguments. -/
inductive MtRequest where
  | mt_sysping_req
  | mt_sys_wdtkick_req
  | mt_getextaddr_req
  | mt_sysreset_req
  | osalNvRead (nvItem : NvItem)
  | osalNvWrite (nvItem : NvItem)
  | mtUtilAssocGetWithAddress (extAddr : UInt64)
  | mtUtilGetAssocCount
  | mtUtilAssocFindDevice (index : UInt8)
  | mtUtilGetDeviceInfo
  | mtUtilAddrmgrNwkAddrLookup (nwkAddr : UInt16)
  | getNvInfo
  | mt_ZDO_MGMT_PERMIT_JOIN_REQ_FUNC (permitDuration tC_Significance : UInt8)
  | mt_ZDO_STARTUP_FROM_APP_Req
  | bootCommand
  | MT_AfDataRequest (x : AFMessage)
  | dataRequest (x : AFMessage_EXT)
  | register_endpoint_TI (endpoint_id : UInt8) (profile_id device_id : UInt16)
      (device_ver : UInt8)
  | register_interpan_cb_TI (ep : UInt8)
  | interPanSet (ch : UInt8)
  | intraPanSet
  | sb_handshake
  | sb_image_read (addr : UInt16)
  | sb_image_write_wrReq (file : List UInt8) (k : Nat)
  | sb_image_write_rdReq (addr : UInt16)

/-- The command that a function builds on the stack, if it builds one. -/
def MtRequest.build (stack : Nat → UInt8) : MtRequest → Option Command
  | mt_sysping_req => some (MtRequests.mt_sysping_req stack)
  | mt_sys_wdtkick_req => some (MtRequests.mt_sys_wdtkick_req stack)
  | mt_getextaddr_req => some (MtRequests.mt_getextaddr_req stack)
  | mt_sysreset_req => some (MtRequests.mt_sysreset_req stack)
  | osalNvRead nvItem => some (MtRequests.osalNvRead nvItem stack)
  | osalNvWrite nvItem => MtRequests.osalNvWrite nvItem stack
  | mtUtilAssocGetWithAddress extAddr => some (MtRequests.mtUtilAssocGetWithAddress extAddr stack)
  | mtUtilGetAssocCount => some (MtRequests.mtUtilGetAssocCount stack)
  | mtUtilAssocFindDevice index => some (MtRequests.mtUtilAssocFindDevice index stack)
  | mtUtilGetDeviceInfo => some (MtRequests.mtUtilGetDeviceInfo stack)
  | mtUtilAddrmgrNwkAddrLookup nwkAddr =>
      some (MtRequests.mtUtilAddrmgrNwkAddrLookup nwkAddr stack)
  | getNvInfo => some (MtRequests.getNvInfo stack)
  | mt_ZDO_MGMT_PERMIT_JOIN_REQ_FUNC permitDuration tC_Significance =>
      some (MtRequests.mt_ZDO_MGMT_PERMIT_JOIN_REQ_FUNC permitDuration tC_Significance stack)
  | mt_ZDO_STARTUP_FROM_APP_Req => some (MtRequests.mt_ZDO_STARTUP_FROM_APP_Req stack)
  | bootCommand => some (MtRequests.bootCommand stack)
  | MT_AfDataRequest x => some (MtRequests.MT_AfDataRequest x stack)
  | dataRequest x => some (MtRequests.dataRequest x stack)
  | register_endpoint_TI endpoint_id profile_id device_id device_ver =>
      some (MtRequests.register_endpoint_TI endpoint_id profile_id device_id device_ver stack)
  | register_interpan_cb_TI ep => some (MtRequests.register_interpan_cb_TI ep stack)
  | interPanSet ch => some (MtRequests.interPanSet ch stack)
  | intraPanSet => some (MtRequests.intraPanSet stack)
  | sb_handshake => some (MtRequests.sb_handshake stack)
  | sb_image_read addr | sb_image_write_rdReq addr => some (rdReq addr stack)
  | sb_image_write_wrReq file k => wrReq file k stack

/-- The frame that is sent. -/
def MtRequest.transmit (cmdPtr : Option (List UInt8)) (stack : Nat → UInt8) (r : MtRequest) :
    Option (List UInt8) :=
  (r.build stack).bind (Command.send cmdPtr)

/-- The senders of AF messages send these commands. -/
theorem send_AF (cmdPtr : Option (List UInt8)) (stack : Nat → UInt8) (x : AFMessage) :
    (MT_AfDataRequest x stack).send cmdPtr = Mtaf.MT_AfDataRequest cmdPtr stack x := by
  cases cmdPtr with
  | none => rfl
  | some old =>
      rw [MT_AfDataRequest_eq]
      exact mtBuildAndSendCmd_window old

theorem send_AF_EXT (cmdPtr : Option (List UInt8)) (stack : Nat → UInt8) (x : AFMessage_EXT) :
    (dataRequest x stack).send cmdPtr = Mtaf.dataRequest cmdPtr stack x := rfl

/-! ### What is read and written -/

/-- The ASDU that is copied lies in the message. -/
def MtRequest.ReadsInside : MtRequest → Prop
  | MT_AfDataRequest x => x.asduLen.toNat ≤ x.room
  | dataRequest x => x.asduLen.toNat ≤ x.room
  | _ => True

/-- The function leaves the memory behind `pData` as it was. -/
def WritesInside (r : MtRequest) : Prop :=
  ∀ stack, ∀ c ∈ r.build stack, ∀ i, pDataSize ≤ i → c.pData i = stack i

/-- Bytes that are written one behind the other stay inside if the last one does. -/
theorem writesInside_of_written {r : MtRequest} {cmdType cmdId : UInt8}
    {dataLength : (Nat → UInt8) → UInt8} {c : (Nat → UInt8) → Cursor UInt8}
    (hbuild : ∀ stack, r.build stack = some ⟨cmdType, cmdId, dataLength stack, (c stack).mem⟩)
    (hpos : ∀ stack, (c stack).pos ≤ pDataSize)
    (hbehind : ∀ stack i, (c stack).pos ≤ i → (c stack).mem i = stack i) : WritesInside r := by
  intro stack command hcommand i hi
  obtain rfl := Option.some.inj ((hbuild stack).symm.trans hcommand)
  exact hbehind stack i (Nat.le_trans (hpos stack) hi)

/-- A command without data. -/
theorem writesInside_of_empty {r : MtRequest} {cmdType cmdId : UInt8}
    (hbuild : ∀ stack, r.build stack = some ⟨cmdType, cmdId, 0, stack⟩) : WritesInside r :=
  writesInside_of_written (c := start) hbuild (fun _ => Nat.zero_le _) fun _ _ _ => rfl

section

variable {stack : Nat → UInt8} {i : Nat}

theorem afDataRequest_behind {x : AFMessage} (h : 10 + x.asduLen.toNat ≤ i) :
    (afDataRequest stack x).mem i = stack i := by
  simp (disch := (simp; try omega)) only [afDataRequest, Cursor.mem_put_of_le]

theorem afDataRequest_EXT_behind {x : AFMessage_EXT} (h : 20 + x.asduLen.toNat ≤ i) :
    (afDataRequest_EXT stack x).mem i = stack i := by
  simp (disch := (simp; try omega)) only [afDataRequest_EXT, Cursor.mem_put_of_le]

end

/-- A copy behind `pData` shows where the memory there was different. -/
theorem not_writesInside {r : MtRequest} {c : (Nat → UInt8) → Command} {b : UInt8}
    (hbuild : ∀ stack, r.build stack = some (c stack))
    (hbyte : ∀ stack, (c stack).pData pDataSize = b) : ¬ WritesInside r := by
  intro h
  have hkept := h (fun _ => b + 1) _ (hbuild _) pDataSize (Nat.le_refl _)
  rw [hbyte] at hkept
  have hne : b ≠ b + 1 := by grind
  exact hne hkept

theorem writesInside_MT_AfDataRequest_iff (x : AFMessage) :
    WritesInside (.MT_AfDataRequest x) ↔ x.asduLen.toNat ≤ 246 := by
  constructor
  · intro h
    by_contra hlong
    refine not_writesInside (b := x.asdu 246) (fun _ => rfl) (fun stack => ?_) h
    have hbyte : (window x.asdu 0 x.asduLen.toNat)[246]? = some (x.asdu (0 + 246)) :=
      window_getElem? (by omega)
    rw [Nat.zero_add] at hbyte
    show patch 10 (window x.asdu 0 x.asduLen.toNat) _ (10 + 246) = x.asdu 246
    exact patch_of_getElem? hbyte
  · intro h
    apply writesInside_of_written (fun _ => rfl)
    · intro stack
      rw [pos_afDataRequest, pDataSize]
      omega
    · intro stack i hi
      rw [pos_afDataRequest] at hi
      exact afDataRequest_behind hi

theorem writesInside_dataRequest_iff (x : AFMessage_EXT) :
    WritesInside (.dataRequest x) ↔ x.asduLen.toNat ≤ 236 := by
  constructor
  · intro h
    by_contra hlong
    refine not_writesInside (b := x.asdu 236) (fun _ => rfl) (fun stack => ?_) h
    have hbyte : (window x.asdu 0 x.asduLen.toNat)[236]? = some (x.asdu (0 + 236)) :=
      window_getElem? (by omega)
    rw [Nat.zero_add] at hbyte
    show patch 20 (window x.asdu 0 x.asduLen.toNat) _ (20 + 236) = x.asdu 236
    exact patch_of_getElem? hbyte
  · intro h
    apply writesInside_of_written (fun _ => rfl)
    · intro stack
      rw [pos_afDataRequest_EXT, pDataSize]
      omega
    · intro stack i hi
      rw [pos_afDataRequest_EXT] at hi
      exact afDataRequest_EXT_behind hi

theorem writesInside_osalNvWrite (nvItem : NvItem) : WritesInside (.osalNvWrite nvItem) := by
  by_cases h : nvItem.len = 0 ∨ 246 < nvItem.len
  · intro stack command hcommand
    simp only [MtRequest.build, osalNvWrite, if_pos h, Option.mem_def, reduceCtorEq] at hcommand
  · have hmax : nvItem.len.toNat ≤ 246 := by
      rw [not_or, UInt8.not_lt] at h
      exact h.2
    apply writesInside_of_written
    · intro stack
      exact if_neg h
    · intro stack
      simp only [start, Cursor.pos_put, memory_length, List.length_singleton, window_length,
        pDataSize]
      omega
    · intro stack i hi
      simp only [start, Cursor.pos_put, memory_length, List.length_singleton, window_length]
        at hi
      simp (disch := (simp [start]; try omega)) only [Cursor.mem_put_of_le]
      rfl

theorem chunkCommand_pData {cmdId : UInt8} {n i : Nat} {addr : UInt16} {pData : Nat → UInt8}
    (hi : 2 ≤ i) : (chunkCommand cmdId n addr pData).pData i = pData i := by
  have hhigh : 1 + [addrHigh addr].length ≤ i := hi
  have hlow : 0 + [addrLow addr].length ≤ i := Nat.le_of_succ_le hi
  calc (chunkCommand cmdId n addr pData).pData i
      = patch 0 [addrLow addr] pData i := patch_of_le hhigh
    _ = pData i := patch_of_le hlow

theorem writesInside_rdReq {r : MtRequest} {addr : UInt16}
    (hbuild : ∀ stack, r.build stack = some (rdReq addr stack)) : WritesInside r := by
  intro stack command hcommand i hi
  obtain rfl := Option.some.inj ((hbuild stack).symm.trans hcommand)
  rw [pDataSize] at hi
  exact chunkCommand_pData (by omega)

theorem writesInside_wrReq (file : List UInt8) (k : Nat) :
    WritesInside (.sb_image_write_wrReq file k) := by
  intro stack command hcommand i hi
  rw [pDataSize] at hi
  simp only [MtRequest.build, wrReq, Option.mem_def, Option.ite_none_right_eq_some,
    Option.some.injEq] at hcommand
  obtain ⟨-, rfl⟩ := hcommand
  rw [chunkCommand_pData (by omega)]
  apply patch_of_le
  rw [Vector.length_toList, SB_RW_BUF_LEN]
  omega

/-- All functions but the senders of AF messages write within the data. -/
theorem writesInside_of_fixed (r : MtRequest) (haf : ∀ x, r ≠ .MT_AfDataRequest x)
    (hext : ∀ x, r ≠ .dataRequest x) : WritesInside r := by
  cases r with
  | mt_sysping_req | mt_sys_wdtkick_req | mt_getextaddr_req | mt_sysreset_req
  | mtUtilGetDeviceInfo | getNvInfo | bootCommand | sb_handshake =>
      exact writesInside_of_empty fun _ => rfl
  | osalNvWrite nvItem => exact writesInside_osalNvWrite nvItem
  | mtUtilAssocGetWithAddress extAddr =>
      intro stack command hcommand i hi
      obtain rfl := Option.some.inj hcommand
      rw [pDataSize] at hi
      have hcleared : 0 + (List.replicate 32 (0 : UInt8)).length ≤ i := by
        rw [List.length_replicate]
        omega
      have haddr : 0 + (memory 8 extAddr.toNat).length ≤ i := by
        rw [memory_length]
        omega
      exact (patch_of_le haddr).trans (patch_of_le hcleared)
  | mtUtilGetAssocCount =>
      intro stack command hcommand i hi
      obtain rfl := Option.some.inj hcommand
      rw [pDataSize] at hi
      simp (disch := (simp; try omega)) only [mtUtilGetAssocCount, patch_of_le]
  | osalNvRead | mtUtilAssocFindDevice | mtUtilAddrmgrNwkAddrLookup
  | mt_ZDO_MGMT_PERMIT_JOIN_REQ_FUNC | mt_ZDO_STARTUP_FROM_APP_Req | register_endpoint_TI
  | register_interpan_cb_TI | interPanSet | intraPanSet =>
      apply writesInside_of_written fun _ => rfl
      · simp [start, pDataSize]
      · intro stack i hi
        simp [start] at hi
        simp (disch := (simp [start]; try omega)) only [Cursor.mem_put_of_le, List.foldl]
        rfl
  | MT_AfDataRequest x => exact absurd rfl (haf x)
  | dataRequest x => exact absurd rfl (hext x)
  | sb_image_read addr | sb_image_write_rdReq addr => exact writesInside_rdReq fun _ => rfl
  | sb_image_write_wrReq file k => exact writesInside_wrReq file k

/-! ### What is sent does not depend on the stack -/

/-- The frame is the same whatever was on the stack, and in the memory for the frame. -/
def Determined (r : MtRequest) : Prop :=
  ∀ old old' stack stack', r.transmit (some old) stack = r.transmit (some old') stack'

/-- The bytes that the length covers. -/
def Command.payload (c : Command) : List UInt8 := window c.pData 0 c.dataLength.toNat

section

variable {c c' : Command} {old old' : List UInt8}

theorem send_eq_iff (htype : c.cmdType = c'.cmdType) (hid : c.cmdId = c'.cmdId)
    (hlen : c.dataLength = c'.dataLength) :
    c.send (some old) = c'.send (some old') ↔ c.payload = c'.payload := by
  rw [Command.send, Command.send, mtBuildAndSendCmd_window, mtBuildAndSendCmd_window,
    Option.some.injEq]
  constructor
  · intro heq
    have hpayload := congrArg Mtaf.payload heq
    rwa [payload_frame, payload_frame] at hpayload
  · intro heq
    have hwindow : window c.pData 0 c.dataLength.toNat = window c'.pData 0 c.dataLength.toNat := by
      rw [← Command.payload, heq, Command.payload, hlen]
    rw [frame, frame, ← htype, ← hid, ← hlen, hwindow]

end

section

variable {r : MtRequest} {c : (Nat → UInt8) → Command}

/-- The frame is determined exactly if the covered bytes are. -/
theorem determined_iff (hbuild : ∀ stack, r.build stack = some (c stack))
    (hhead : ∀ stack stack', (c stack).cmdType = (c stack').cmdType ∧
      (c stack).cmdId = (c stack').cmdId ∧ (c stack).dataLength = (c stack').dataLength) :
    Determined r ↔ ∀ stack stack', (c stack).payload = (c stack').payload := by
  have hsend : ∀ old old' stack stack',
      r.transmit (some old) stack = r.transmit (some old') stack' ↔
        (c stack).payload = (c stack').payload := by
    intro old old' stack stack'
    obtain ⟨htype, hid, hlen⟩ := hhead stack stack'
    rw [MtRequest.transmit, MtRequest.transmit, hbuild, hbuild]
    exact send_eq_iff htype hid hlen
  constructor
  · intro h stack stack'
    exact (hsend [] [] stack stack').mp (h [] [] stack stack')
  · intro h old old' stack stack'
    exact (hsend old old' stack stack').mpr (h stack stack')

/-- A byte that the length covers and nobody writes. -/
theorem not_determined (hbuild : ∀ stack, r.build stack = some (c stack))
    (hhead : ∀ stack stack', (c stack).cmdType = (c stack').cmdType ∧
      (c stack).cmdId = (c stack').cmdId ∧ (c stack).dataLength = (c stack').dataLength)
    {i : Nat} (hi : ∀ stack, i < (c stack).dataLength.toNat)
    (hbyte : ∀ stack, (c stack).pData i = stack i) : ¬ Determined r := by
  rw [determined_iff hbuild hhead]
  intro h
  have hlen := (hhead (fun _ => 0) fun _ => 1).2.2
  have hwindow := h (fun _ => 0) fun _ => 1
  rw [Command.payload, Command.payload, ← hlen, window_eq_iff] at hwindow
  have hzero := hwindow i (hi _)
  rw [Nat.zero_add, hbyte, hbyte] at hzero
  exact absurd hzero (by decide)

end

/-- A command whose length covers no more than what was written one behind the other. -/
theorem determined_of_written {r : MtRequest} {cmdType cmdId dataLength : UInt8}
    {c : (Nat → UInt8) → Cursor UInt8}
    (hbuild : ∀ stack, r.build stack = some ⟨cmdType, cmdId, dataLength, (c stack).mem⟩)
    (hlen : ∀ stack, dataLength.toNat ≤ (c stack).pos)
    (hwritten : ∀ stack stack', (c stack).written = (c stack').written) : Determined r := by
  rw [determined_iff hbuild fun _ _ => ⟨rfl, rfl, rfl⟩]
  intro stack stack'
  exact Cursor.window_of_written (hwritten stack stack') (hlen stack)

/-- A command whose length is counted while the bytes are written. -/
theorem determined_of_counted {r : MtRequest} {cmdType cmdId : UInt8}
    {c : (Nat → UInt8) → Cursor UInt8}
    (hbuild : ∀ stack, r.build stack =
      some ⟨cmdType, cmdId, UInt8.ofNat (c stack).pos, (c stack).mem⟩)
    (hwritten : ∀ stack stack', (c stack).written = (c stack').written) : Determined r := by
  have hpos : ∀ stack stack', (c stack).pos = (c stack').pos := fun stack stack' =>
    Cursor.pos_of_written (hwritten stack stack')
  rw [determined_iff hbuild fun stack stack' =>
    ⟨rfl, rfl, congrArg UInt8.ofNat (hpos stack stack')⟩]
  intro stack stack'
  have hle : (UInt8.ofNat (c stack).pos).toNat ≤ (c stack).pos := by
    rw [UInt8.toNat_ofNat']
    exact Nat.mod_le _ _
  have hwindow := Cursor.window_of_written (hwritten stack stack') hle
  rw [Command.payload, Command.payload]
  show _ = window (c stack').mem 0 (UInt8.ofNat (c stack').pos).toNat
  rw [← hpos stack stack']
  exact hwindow

/-- A command without data. -/
theorem determined_of_empty {r : MtRequest} {cmdType cmdId : UInt8}
    (hbuild : ∀ stack, r.build stack = some ⟨cmdType, cmdId, 0, stack⟩) : Determined r :=
  determined_of_written (c := start) hbuild (fun _ => Nat.le_refl _) fun _ _ => rfl

theorem determined_osalNvWrite (nvItem : NvItem) : Determined (.osalNvWrite nvItem) := by
  by_cases h : nvItem.len = 0 ∨ 246 < nvItem.len
  · intro old old' stack stack'
    simp only [MtRequest.transmit, MtRequest.build, osalNvWrite, if_pos h, Option.bind_none]
  · apply determined_of_written
    · intro stack
      exact if_neg h
    · intro stack
      have hle : nvItem.len ≤ 246 := by
        rw [not_or, UInt8.not_lt] at h
        exact h.2
      rw [UInt8.le_iff_toNat_le] at hle
      have hmax : nvItem.len.toNat ≤ 246 := hle
      simp only [Cursor.pos_put, start, memory_length, window_length, List.length_singleton,
        UInt8.toNat_add]
      rw [Nat.mod_eq_of_lt (by simpa using by omega)]
      simp
    · intro stack stack'
      simp [start]

theorem determined_mtUtilAssocGetWithAddress (extAddr : UInt64) :
    Determined (.mtUtilAssocGetWithAddress extAddr) := by
  rw [determined_iff (fun _ => rfl) fun _ _ => ⟨rfl, rfl, rfl⟩]
  have hpayload : ∀ stack, (mtUtilAssocGetWithAddress extAddr stack).payload =
      memory 8 extAddr.toNat ++ [0, 0] := by
    intro stack
    let cleared := patch 0 (List.replicate 32 0) stack
    have hfirst : window (patch 0 (memory 8 extAddr.toNat) cleared) 0 8 =
        memory 8 extAddr.toNat := by
      simpa using window_patch_self 0 (memory 8 extAddr.toNat) cleared
    have hrest : window (patch 0 (memory 8 extAddr.toNat) cleared) 8 2 = window cleared 8 2 :=
      window_patch_of_disjoint (Or.inr (by simp))
    calc (mtUtilAssocGetWithAddress extAddr stack).payload
        = window (patch 0 (memory 8 extAddr.toNat) cleared) 0 (8 + 2) := rfl
      _ = memory 8 extAddr.toNat ++ window cleared 8 2 := by
          rw [window_append, hfirst, Nat.zero_add, hrest]
      _ = memory 8 extAddr.toNat ++ [0, 0] := rfl
  intro stack stack'
  rw [hpayload, hpayload]

theorem determined_MT_AfDataRequest (x : AFMessage) : Determined (.MT_AfDataRequest x) := by
  apply determined_of_written
  · intro stack
    rfl
  · intro stack
    rw [pos_afDataRequest, UInt8.toNat_ofNat']
    exact Nat.mod_le _ _
  · intro stack stack'
    rw [written_afDataRequest, written_afDataRequest]

/-- The length of an extended request covers one byte more than is written, unless it
has wrapped. -/
theorem determined_dataRequest_iff (x : AFMessage_EXT) :
    Determined (.dataRequest x) ↔ 235 ≤ x.asduLen.toNat := by
  have hlen : (UInt8.ofNat (20 + x.asduLen.toNat + 1)).toNat = (21 + x.asduLen.toNat) % 256 := by
    rw [UInt8.toNat_ofNat']
    congr 1
    omega
  constructor
  · intro h
    by_contra hlt
    apply not_determined (r := .dataRequest x) (i := 20 + x.asduLen.toNat) (fun _ => rfl)
      (fun _ _ => ⟨rfl, rfl, rfl⟩) _ _ h
    · intro stack
      show 20 + x.asduLen.toNat < (UInt8.ofNat (20 + x.asduLen.toNat + 1)).toNat
      rw [hlen]
      omega
    · intro stack
      exact afDataRequest_EXT_behind (Nat.le_refl _)
  · intro h
    apply determined_of_written
    · intro stack
      rfl
    · intro stack
      rw [pos_afDataRequest_EXT, hlen]
      omega
    · intro stack stack'
      rw [written_afDataRequest_EXT, written_afDataRequest_EXT]

/-! ### Requests of the boot loader -/

theorem chunkCommand_head {cmdId : UInt8} {n : Nat} {addr : UInt16} (pData pData' : Nat → UInt8) :
    (chunkCommand cmdId n addr pData).cmdType = (chunkCommand cmdId n addr pData').cmdType ∧
      (chunkCommand cmdId n addr pData).cmdId = (chunkCommand cmdId n addr pData').cmdId ∧
      (chunkCommand cmdId n addr pData).dataLength =
        (chunkCommand cmdId n addr pData').dataLength :=
  ⟨rfl, rfl, rfl⟩

theorem chunkCommand_window {cmdId : UInt8} {n : Nat} {addr : UInt16} {pData : Nat → UInt8}
    (size : Nat) :
    window (chunkCommand cmdId n addr pData).pData 0 (2 + size) =
      addrLow addr :: addrHigh addr :: window pData 2 size := by
  have hrest : window (chunkCommand cmdId n addr pData).pData 2 size = window pData 2 size := by
    apply window_congr
    intro i _
    exact chunkCommand_pData (Nat.le_add_right 2 i)
  rw [window_append, Nat.zero_add, hrest]
  rfl

/-- The three bytes behind the address are not written. -/
theorem not_determined_rdReq {r : MtRequest} {addr : UInt16}
    (hbuild : ∀ stack, r.build stack = some (rdReq addr stack)) : ¬ Determined r := by
  apply not_determined (i := 2) hbuild (fun _ _ => chunkCommand_head _ _)
  · intro stack
    show 2 < 67
    decide
  · intro stack
    exact chunkCommand_pData (Nat.le_refl 2)

/-- A byte behind the end of the only chunk is what was on the stack. -/
theorem sent_beyond (stack : Nat → UInt8) {file : List UInt8} (h : file.length < SB_RW_BUF_LEN) :
    (sent (stackBlock stack) file 0)[file.length] = stack (2 + file.length) := by
  have hchunk : ((file.drop (SB_RW_BUF_LEN * 0)).take SB_RW_BUF_LEN).length ≤ file.length := by
    rw [Nat.mul_zero, List.drop_zero]
    exact List.length_take_le' _ _
  calc (sent (stackBlock stack) file 0)[file.length]
      = (stackBlock stack)[file.length] := by
        rw [sent, wrBuf, fill_getElem _ _ h, List.getD_eq_default _ _ hchunk]
        rfl
    _ = stack (2 + file.length) := by simp [stackBlock]

/-- The data of the request for a chunk that the file has. -/
def chunkData (file : List UInt8) (k : Nat) (stack : Nat → UInt8) : Nat → UInt8 :=
  patch 2 (sent (stackBlock stack) file k).toList stack

theorem build_wrReq {file : List UInt8} {k : Nat} (h : SB_RW_BUF_LEN * k < file.length)
    (stack : Nat → UInt8) :
    (MtRequest.sb_image_write_wrReq file k).build stack =
      some (chunkCommand SB_WRITE_CMD 2 (chunkAddr k) (chunkData file k stack)) :=
  if_pos h

theorem determined_wrReq {file : List UInt8} {k : Nat} (hchunk : SB_RW_BUF_LEN * k < file.length)
    (h : SB_RW_BUF_LEN ≤ file.length) : Determined (.sb_image_write_wrReq file k) := by
  rw [determined_iff (build_wrReq hchunk) fun _ _ => chunkCommand_head _ _]
  have hdata : ∀ stack, window (chunkData file k stack) 2 SB_RW_BUF_LEN =
      (sent (stackBlock stack) file k).toList := by
    intro stack
    have hwindow := window_patch_self 2 (sent (stackBlock stack) file k).toList stack
    rwa [Vector.length_toList] at hwindow
  intro stack stack'
  calc (chunkCommand SB_WRITE_CMD 2 (chunkAddr k) (chunkData file k stack)).payload
      = addrLow (chunkAddr k) :: addrHigh (chunkAddr k) ::
          (sent (stackBlock stack) file k).toList := by
        rw [← hdata stack]
        exact chunkCommand_window SB_RW_BUF_LEN
    _ = addrLow (chunkAddr k) :: addrHigh (chunkAddr k) ::
          (sent (stackBlock stack') file k).toList := by rw [sent_of_full _ (stackBlock stack') h]
    _ = (chunkCommand SB_WRITE_CMD 2 (chunkAddr k) (chunkData file k stack')).payload := by
        rw [← hdata stack']
        exact (chunkCommand_window SB_RW_BUF_LEN).symm

theorem not_determined_wrReq {file : List UInt8} (hfile : 0 < file.length)
    (h : file.length < SB_RW_BUF_LEN) : ¬ Determined (.sb_image_write_wrReq file 0) := by
  apply not_determined (i := 2 + file.length) (build_wrReq hfile) (fun _ _ => chunkCommand_head _ _)
  · intro stack
    show 2 + file.length < 2 + SB_RW_BUF_LEN
    exact Nat.add_lt_add_left h 2
  · intro stack
    have hlist : (sent (stackBlock stack) file 0).toList[file.length]? =
        some (stack (2 + file.length)) := by
      rw [← sent_beyond stack h]
      simp
    rw [chunkCommand_pData (Nat.le_add_right 2 _)]
    exact patch_of_getElem? hlist

theorem determined_wrReq_iff (file : List UInt8) (k : Nat) :
    Determined (.sb_image_write_wrReq file k) ↔
      file.length ≤ SB_RW_BUF_LEN * k ∨ SB_RW_BUF_LEN ≤ file.length := by
  by_cases hchunk : SB_RW_BUF_LEN * k < file.length
  · rw [or_iff_right (Nat.not_le.mpr hchunk)]
    constructor
    · intro h
      by_contra hshort
      have hk : k = 0 := by
        rw [SB_RW_BUF_LEN] at hchunk hshort
        omega
      subst hk
      exact not_determined_wrReq hchunk (Nat.not_le.mp hshort) h
    · intro h
      exact determined_wrReq hchunk h
  · refine iff_of_true ?_ (Or.inl (Nat.not_lt.mp hchunk))
    intro old old' stack stack'
    simp only [MtRequest.transmit, MtRequest.build, wrReq, if_neg hchunk, Option.bind_none]

/-! ### Which requests are defined -/

/-- The requests all of whose bytes are assigned: not the count of the association table,
no read request of the boot loader, and no chunk of a file that is shorter than a chunk.
An ASDU lies in the message and fits behind the header; that of an extended request is
long enough for the length to wrap. -/
def MtRequest.Assigned : MtRequest → Prop
  | mtUtilGetAssocCount | sb_image_read _ | sb_image_write_rdReq _ => False
  | MT_AfDataRequest x => x.asduLen.toNat ≤ x.room ∧ x.asduLen.toNat ≤ 246
  | dataRequest x =>
      x.asduLen.toNat ≤ x.room ∧ 235 ≤ x.asduLen.toNat ∧ x.asduLen.toNat ≤ 236
  | sb_image_write_wrReq file k =>
      file.length ≤ SB_RW_BUF_LEN * k ∨ SB_RW_BUF_LEN ≤ file.length
  | _ => True

theorem determined_iff_of_fixed (r : MtRequest) (haf : ∀ x, r ≠ .MT_AfDataRequest x)
    (hext : ∀ x, r ≠ .dataRequest x) : Determined r ↔ r.Assigned := by
  cases r with
  | mt_sysping_req | mt_sys_wdtkick_req | mt_getextaddr_req | mt_sysreset_req
  | mtUtilGetDeviceInfo | getNvInfo | bootCommand | sb_handshake =>
      exact iff_of_true (determined_of_empty fun _ => rfl) trivial
  | osalNvRead nvItem =>
      exact iff_of_true (determined_of_written (fun _ => rfl) (by simp [start]) (by simp [start]))
        trivial
  | osalNvWrite nvItem => exact iff_of_true (determined_osalNvWrite nvItem) trivial
  | mtUtilAssocGetWithAddress extAddr =>
      exact iff_of_true (determined_mtUtilAssocGetWithAddress extAddr) trivial
  | mtUtilGetAssocCount =>
      refine iff_of_false (not_determined (i := 1) (fun _ => rfl) (fun _ _ => ⟨rfl, rfl, rfl⟩)
        ?_ ?_) id
      · intro stack
        show 1 < 2
        decide
      · intro stack
        rfl
  | mtUtilAssocFindDevice index =>
      exact iff_of_true (determined_of_written (fun _ => rfl) (by simp [start]) (by simp [start]))
        trivial
  | mtUtilAddrmgrNwkAddrLookup nwkAddr =>
      exact iff_of_true (determined_of_written (fun _ => rfl) (by simp [start]) (by simp [start]))
        trivial
  | mt_ZDO_MGMT_PERMIT_JOIN_REQ_FUNC permitDuration tC_Significance =>
      exact iff_of_true (determined_of_written (fun _ => rfl) (by simp [start]) (by simp [start]))
        trivial
  | mt_ZDO_STARTUP_FROM_APP_Req =>
      exact iff_of_true (determined_of_written (fun _ => rfl) (by simp [start]) (by simp [start]))
        trivial
  | MT_AfDataRequest x => exact absurd rfl (haf x)
  | dataRequest x => exact absurd rfl (hext x)
  | register_endpoint_TI endpoint_id profile_id device_id device_ver =>
      exact iff_of_true (determined_of_counted (fun _ => rfl) (by simp [start])) trivial
  | register_interpan_cb_TI ep | interPanSet ep =>
      exact iff_of_true (determined_of_counted (fun _ => rfl) (by simp [start])) trivial
  | intraPanSet =>
      exact iff_of_true (determined_of_counted (fun _ => rfl) (by simp [start])) trivial
  | sb_image_read addr | sb_image_write_rdReq addr =>
      exact iff_of_false (not_determined_rdReq fun _ => rfl) id
  | sb_image_write_wrReq file k => exact determined_wrReq_iff file k

/-- A request stays within its arguments and its data, and what it transmits depends on
the arguments alone, exactly if all of its bytes are assigned. -/
theorem mt_request_determined_iff (r : MtRequest) :
    r.ReadsInside ∧ WritesInside r ∧ Determined r ↔ r.Assigned := by
  by_cases haf : ∃ x, r = .MT_AfDataRequest x
  · obtain ⟨x, rfl⟩ := haf
    rw [writesInside_MT_AfDataRequest_iff, and_iff_left (determined_MT_AfDataRequest x)]
    rfl
  by_cases hext : ∃ x, r = .dataRequest x
  · obtain ⟨x, rfl⟩ := hext
    rw [writesInside_dataRequest_iff, determined_dataRequest_iff, and_comm (a := _ ≤ 236)]
    rfl
  · have haf : ∀ x, r ≠ .MT_AfDataRequest x := fun x hx => haf ⟨x, hx⟩
    have hext : ∀ x, r ≠ .dataRequest x := fun x hx => hext ⟨x, hx⟩
    have hreads : r.ReadsInside := by
      cases r with
      | MT_AfDataRequest x => exact absurd rfl (haf x)
      | dataRequest x => exact absurd rfl (hext x)
      | _ => trivial
    rw [and_iff_right hreads, and_iff_right (writesInside_of_fixed r haf hext)]
    exact determined_iff_of_fixed r haf hext

/-- The end of the range of association states comes from the stack. -/
theorem assocCount_from_stack :
    MtRequest.mtUtilGetAssocCount.transmit (some []) (fun _ => 0) =
        some [MT_SOF, 2, 0x27, 0x48, 0, 0, 0x6d] ∧
      MtRequest.mtUtilGetAssocCount.transmit (some []) (fun _ => 0xFF) =
        some [MT_SOF, 2, 0x27, 0x48, 0, 0xFF, 0x92] ∧
      ¬ Determined .mtUtilGetAssocCount := by
  refine ⟨by decide, by decide, fun h => ?_⟩
  have hsame := h [] [] (fun _ => 0) fun _ => 0xFF
  revert hsame
  decide

end KappaGateway.MtRequests

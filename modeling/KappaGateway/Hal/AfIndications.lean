import KappaGateway.Hal.AfFields
import KappaGateway.Hal.Mtaf

/-!
# Received bytes and what a handler sees

The payload of an indication is copied over whatever lies in the message object.
A handler sees nothing else than the payload exactly if the payload has the header
and as many bytes behind it as its length field says.
-/

namespace KappaGateway.Mtaf

open Kutil Windows AfMessage Mtproc

/-- The length byte of a frame. -/
def lengthByte (pBuf : Nat → UInt8) : Nat := (pBuf MT_RPC_POS_LEN).toNat

def payloadByte (pBuf : Nat → UInt8) (i : Nat) : Nat := (pBuf (MT_RPC_POS_DAT0 + i)).toNat

/-- An indication of an AF message that is not too long. -/
structure Incoming (pBuf : Nat → UInt8) : Prop where
  subsystem : pBuf MT_RPC_POS_CMD0 &&& MT_RPC_SUBSYSTEM_MASK = MT_RPC_SYS_AF
  command : pBuf MT_RPC_POS_CMD1 = AFMsg_Ind ∨ pBuf MT_RPC_POS_CMD1 = AFMsg_EXT_Ind
  length : lengthByte pBuf ≤ MT_RPC_DATA_MAX

/-- Frames of one command with the same payload. -/
structure SameFrame (pBuf pBuf' : Nat → UInt8) : Prop where
  command : pBuf MT_RPC_POS_CMD1 = pBuf' MT_RPC_POS_CMD1
  length : pBuf MT_RPC_POS_LEN = pBuf' MT_RPC_POS_LEN
  payload : window pBuf MT_RPC_POS_DAT0 (lengthByte pBuf) =
    window pBuf' MT_RPC_POS_DAT0 (lengthByte pBuf)

namespace Indication

/-- Where the ASDU ends in the data of the message. -/
def asduEnd : Indication → Nat
  | .AFMsg x => mt_afmessage.asduIdx + x.asduLen.toNat
  | .AFMsg_EXT x => mt_afmessage_EXT.asduIdx + x.asduLen.toNat

/-- Equal in all fields, and in the ASDU as far as its length goes. -/
def Same : Indication → Indication → Prop
  | .AFMsg x, .AFMsg y =>
      { x with asdu := y.asdu } = y ∧ ∀ i < x.asduLen.toNat, x.asdu i = y.asdu i
  | .AFMsg_EXT x, .AFMsg_EXT y =>
      { x with asdu := y.asdu } = y ∧ ∀ i < x.asduLen.toNat, x.asdu i = y.asdu i
  | _, _ => False

end Indication

/-- Whatever lies in the message object before, the handler gets a message within the
payload, and the same one from every frame with this payload. -/
def Determined (pBuf : Nat → UInt8) : Prop :=
  ∀ data, ∀ ind ∈ MT_ProcessIncoming data pBuf, ind.asduEnd ≤ lengthByte pBuf ∧
    ∀ data' pBuf', Incoming pBuf' → SameFrame pBuf pBuf' →
      ∃ ind' ∈ MT_ProcessIncoming data' pBuf', ind.Same ind'

/-- The payload has a header and the ASDU that it announces. -/
def Covered (pBuf : Nat → UInt8) : Prop :=
  if pBuf MT_RPC_POS_CMD1 = AFMsg_Ind then
    mt_afmessage.asduIdx ≤ lengthByte pBuf ∧
      mt_afmessage.asduIdx + payloadByte pBuf mt_afmessage.asduLenIdx ≤ lengthByte pBuf
  else
    mt_afmessage_EXT.asduLenIdx + 2 ≤ lengthByte pBuf ∧
      mt_afmessage_EXT.asduIdx + (payloadByte pBuf mt_afmessage_EXT.asduLenIdx +
        256 * payloadByte pBuf (mt_afmessage_EXT.asduLenIdx + 1)) ≤ lengthByte pBuf

section

variable {data data' : Data} {pBuf pBuf' : Nat → UInt8} {n : Nat}

/-- The data of the message object once the payload is copied. -/
def loaded (data : Data) (pBuf : Nat → UInt8) : Data :=
  loadStr pBuf MT_RPC_POS_DAT0 (lengthByte pBuf) data

theorem loaded_of_lt {i : Nat} (h : i < lengthByte pBuf) :
    loaded data pBuf i = pBuf (MT_RPC_POS_DAT0 + i) := by
  have hbyte : (window pBuf MT_RPC_POS_DAT0 (lengthByte pBuf))[i]? =
      some (pBuf (MT_RPC_POS_DAT0 + i)) := window_getElem? h
  have hread : patch 0 (window pBuf MT_RPC_POS_DAT0 (lengthByte pBuf)) data (0 + i) =
      pBuf (MT_RPC_POS_DAT0 + i) := patch_of_getElem? hbyte
  rwa [Nat.zero_add] at hread

theorem loaded_of_le {i : Nat} (h : lengthByte pBuf ≤ i) : loaded data pBuf i = data i := by
  have hlen := window_length pBuf MT_RPC_POS_DAT0 (lengthByte pBuf)
  have hend : 0 + (window pBuf MT_RPC_POS_DAT0 (lengthByte pBuf)).length ≤ i := by omega
  exact patch_of_le hend

theorem loaded_congr (h : SameFrame pBuf pBuf') {i : Nat} (hi : i < lengthByte pBuf) :
    loaded data pBuf i = loaded data' pBuf' i := by
  have hlen : lengthByte pBuf' = lengthByte pBuf := congrArg UInt8.toNat h.length.symm
  rw [loaded_of_lt hi, loaded_of_lt (by omega)]
  exact window_eq_iff.mp h.payload i hi

/-! ### The views -/

theorem mt_afmessage_view_same (h : ∀ i < n, data i = data' i) (hheader : mt_afmessage.asduIdx ≤ n)
    (hasdu : mt_afmessage.asduIdx + (mt_afmessage.view data).asduLen.toNat ≤ n) :
    (Indication.AFMsg (mt_afmessage.view data)).Same (.AFMsg (mt_afmessage.view data')) := by
  have hget (f) (hf : mt_afmessage.spans.start f + mt_afmessage.spans.length f ≤ 17) :
      mt_afmessage.get f data = mt_afmessage.get f data' :=
    mt_afmessage.spans.get_congr h (Nat.le_trans hf hheader)
  have hquality : data mt_afmessage.lnkQltIdx = data' mt_afmessage.lnkQltIdx :=
    h _ (Nat.lt_of_lt_of_le (by decide) hheader)
  constructor
  · simp only [mt_afmessage.view, AFMessage.mk.injEq]
    simp only [hget .dstEndpoint (by decide), hget .groupId (by decide),
      hget .clusterId (by decide), hget .srcEndpoint (by decide), hget .srcAddr (by decide),
      hget .timeStamp (by decide), hget .tranSeqNum (by decide), hget .asduLen (by decide),
      hquality, and_self]
  · intro i hi
    exact h _ (by omega)

theorem mt_afmessage_EXT_view_same (h : ∀ i < n, data i = data' i)
    (hheader : mt_afmessage_EXT.asduLenIdx + 2 ≤ n)
    (hasdu : mt_afmessage_EXT.asduIdx + (mt_afmessage_EXT.view data).asduLen.toNat ≤ n) :
    (Indication.AFMsg_EXT (mt_afmessage_EXT.view data)).Same
      (.AFMsg_EXT (mt_afmessage_EXT.view data')) := by
  have hget (f) (hf : mt_afmessage_EXT.spans.start f + mt_afmessage_EXT.spans.length f ≤ 28) :
      mt_afmessage_EXT.get f data = mt_afmessage_EXT.get f data' :=
    mt_afmessage_EXT.spans.get_congr h (Nat.le_trans hf hheader)
  have hquality : data mt_afmessage_EXT.lnkQltIdx = data' mt_afmessage_EXT.lnkQltIdx :=
    h _ (Nat.lt_of_lt_of_le (by decide) hheader)
  constructor
  · simp only [mt_afmessage_EXT.view, AFMessage_EXT.mk.injEq]
    simp only [hget .dstEndpoint (by decide), hget .addrMode (by decide),
      hget .srcPanId (by decide), hget .groupId (by decide), hget .clusterId (by decide),
      hget .srcEndpoint (by decide), hget .srcAddr (by decide), hget .timeStamp (by decide),
      hget .tranSeqNum (by decide), hget .asduLen (by decide), hquality, and_self]
  · intro i hi
    exact h _ (by omega)

theorem mt_afmessage_view_asduLen (data : Data) :
    (mt_afmessage.view data).asduLen = data mt_afmessage.asduLenIdx :=
  UInt8.ofNat_toNat

theorem mt_afmessage_EXT_view_asduLen (data : Data) :
    (mt_afmessage_EXT.view data).asduLen.toNat =
      (data mt_afmessage_EXT.asduLenIdx).toNat + 256 * (data mt_afmessage_EXT.asduIdx).toNat := by
  have hlow := (data mt_afmessage_EXT.asduLenIdx).toNat_lt
  have hhigh := (data mt_afmessage_EXT.asduIdx).toNat_lt
  show (UInt16.ofNat (mt_afmessage_EXT.get .asduLen data)).toNat = _
  rw [mt_afmessage_EXT.get_asduLen, UInt16.toNat_ofNat_of_lt' (show _ < 65536 by omega)]

/-! ### Incoming frames -/

/-- What the handler of an incoming frame gets. -/
def indication (data : Data) (pBuf : Nat → UInt8) : Indication :=
  if pBuf MT_RPC_POS_CMD1 = AFMsg_Ind then .AFMsg (mt_afmessage.view (loaded data pBuf))
  else .AFMsg_EXT (mt_afmessage_EXT.view (loaded data pBuf))

theorem MT_ProcessIncoming_of_incoming (h : Incoming pBuf) (data : Data) :
    MT_ProcessIncoming data pBuf = some (indication data pBuf) := by
  have hlength : ¬ MT_RPC_DATA_MAX < (pBuf MT_RPC_POS_LEN).toNat := Nat.not_lt.mpr h.length
  have hsubsystem : MT_RPC_SYS_AF < MT_RPC_SYS_MAX := by decide
  have hkick : pBuf MT_RPC_POS_CMD1 ≠ MT_SYS_WDT_KICK := by
    rcases h.command with hcmd | hcmd
    · rw [hcmd]; decide
    · rw [hcmd]; decide
  have hoob : mtOOBRecv pBuf = false := decide_eq_false fun h => hkick h.2
  simp only [MT_ProcessIncoming, if_neg hlength, h.subsystem, if_pos hsubsystem, hoob]
  simp only [Bool.false_eq_true, if_false, if_true, MT_AfCommandProcessing, indication]
  by_cases hcmd : pBuf MT_RPC_POS_CMD1 = AFMsg_Ind
  · rw [if_pos hcmd, if_pos hcmd]
    rfl
  · rw [if_neg hcmd, if_neg hcmd, if_pos (h.command.resolve_left hcmd)]
    rfl

theorem asduEnd_AFMsg (hcmd : pBuf MT_RPC_POS_CMD1 = AFMsg_Ind)
    (h : mt_afmessage.asduIdx ≤ lengthByte pBuf) :
    (indication data pBuf).asduEnd =
      mt_afmessage.asduIdx + payloadByte pBuf mt_afmessage.asduLenIdx := by
  rw [indication, if_pos hcmd, Indication.asduEnd, mt_afmessage_view_asduLen, loaded_of_lt h]
  rfl

theorem asduEnd_AFMsg_EXT (hcmd : pBuf MT_RPC_POS_CMD1 ≠ AFMsg_Ind)
    (h : mt_afmessage_EXT.asduLenIdx + 2 ≤ lengthByte pBuf) :
    (indication data pBuf).asduEnd =
      mt_afmessage_EXT.asduIdx + (payloadByte pBuf mt_afmessage_EXT.asduLenIdx +
        256 * payloadByte pBuf (mt_afmessage_EXT.asduLenIdx + 1)) := by
  rw [indication, if_neg hcmd, Indication.asduEnd, mt_afmessage_EXT_view_asduLen,
    show mt_afmessage_EXT.asduIdx = mt_afmessage_EXT.asduLenIdx + 1 from rfl,
    loaded_of_lt (Nat.lt_of_succ_lt h), loaded_of_lt h]
  rfl

/-- Enough of the payload: the indication lies within it. -/
theorem asduEnd_le_of_covered (h : Covered pBuf) :
    (indication data pBuf).asduEnd ≤ lengthByte pBuf := by
  by_cases hcmd : pBuf MT_RPC_POS_CMD1 = AFMsg_Ind
  · rw [Covered, if_pos hcmd] at h
    rw [asduEnd_AFMsg hcmd h.1]
    exact h.2
  · rw [Covered, if_neg hcmd] at h
    rw [asduEnd_AFMsg_EXT hcmd h.1]
    exact h.2

/-- Not enough of it: for some contents of the message object the indication does not
lie within the payload. -/
theorem covered_of_asduEnd_le
    (h : ∀ data, (indication data pBuf).asduEnd ≤ lengthByte pBuf) : Covered pBuf := by
  by_cases hcmd : pBuf MT_RPC_POS_CMD1 = AFMsg_Ind
  · rw [Covered, if_pos hcmd]
    have hend := h fun _ => 0
    have hheader : mt_afmessage.asduIdx ≤ lengthByte pBuf := by
      rw [indication, if_pos hcmd] at hend
      exact Nat.le_trans (Nat.le_add_right _ _) hend
    rw [asduEnd_AFMsg hcmd hheader] at hend
    exact ⟨hheader, hend⟩
  · rw [Covered, if_neg hcmd]
    have hheader : mt_afmessage_EXT.asduLenIdx + 2 ≤ lengthByte pBuf := by
      by_contra hshort
      -- the high byte of the length is what lay there before
      have hstale : loaded (fun _ => 1) pBuf mt_afmessage_EXT.asduIdx = 1 :=
        loaded_of_le (Nat.le_of_lt_succ (Nat.not_le.mp hshort))
      have hend := h fun _ => 1
      rw [indication, if_neg hcmd, Indication.asduEnd, mt_afmessage_EXT_view_asduLen, hstale]
        at hend
      have hbyte : (1 : UInt8).toNat = 1 := rfl
      have hidx : mt_afmessage_EXT.asduIdx = mt_afmessage_EXT.asduLenIdx + 1 := rfl
      omega
    have hend := h fun _ => 0
    rw [asduEnd_AFMsg_EXT hcmd hheader] at hend
    exact ⟨hheader, hend⟩

theorem indication_same (hsame : SameFrame pBuf pBuf') (h : Covered pBuf) :
    (indication data pBuf).Same (indication data' pBuf') := by
  have hbytes : ∀ i < lengthByte pBuf, loaded data pBuf i = loaded data' pBuf' i :=
    fun i => loaded_congr hsame
  have hend : (indication data pBuf).asduEnd ≤ lengthByte pBuf := asduEnd_le_of_covered h
  by_cases hcmd : pBuf MT_RPC_POS_CMD1 = AFMsg_Ind
  · rw [Covered, if_pos hcmd] at h
    rw [indication, if_pos hcmd] at hend
    rw [indication, indication, if_pos hcmd, if_pos (hsame.command.symm.trans hcmd)]
    exact mt_afmessage_view_same hbytes h.1 hend
  · rw [Covered, if_neg hcmd] at h
    rw [indication, if_neg hcmd] at hend
    rw [indication, indication, if_neg hcmd, if_neg (hsame.command ▸ hcmd)]
    exact mt_afmessage_EXT_view_same hbytes h.1 hend

end

/-- The handler of an incoming frame sees nothing but its payload exactly if the payload
has a header and the ASDU that it announces. -/
theorem handlers_see_received (pBuf : Nat → UInt8) (h : Incoming pBuf) :
    Determined pBuf ↔ Covered pBuf := by
  constructor
  · intro hdetermined
    apply covered_of_asduEnd_le
    intro data
    exact (hdetermined data _ (MT_ProcessIncoming_of_incoming h data)).1
  · intro hcovered data ind hind
    obtain rfl := Option.some.inj ((MT_ProcessIncoming_of_incoming h data).symm.trans hind)
    refine ⟨asduEnd_le_of_covered hcovered, fun data' pBuf' h' hsame => ?_⟩
    exact ⟨_, MT_ProcessIncoming_of_incoming h' data', indication_same hsame hcovered⟩

/-- An AF indication of cluster 0x0106 from endpoint 11 of the device 0x1234, with a
header of 17 bytes and three bytes of ASDU. -/
def reportIndication : Nat → UInt8 :=
  patch 0 [20, 0x44, 0x81, 0x02, 0x01, 0x06, 0x01, 0x34, 0x12, 11, 1, 1, 0x80, 1, 4, 3, 2, 1, 9,
    3, 0x18, 0x2A, 0x0A] fun _ => 0

theorem handlers_see_received_report : Determined reportIndication :=
  (handlers_see_received reportIndication ⟨by decide, by decide, by decide⟩).mpr
    (by rw [Covered]; decide)

/-- An indication without payload: the handler sees what lay in the message object. -/
theorem handler_sees_stale :
    Incoming (patch 0 [0, 0x44, 0x81] fun _ => 0) ∧
      ¬ Determined (patch 0 [0, 0x44, 0x81] fun _ => 0) := by
  refine ⟨⟨by decide, by decide, by decide⟩, ?_⟩
  intro h
  have hend := (h (fun _ => 0) _ rfl).1
  revert hend
  decide

end KappaGateway.Mtaf

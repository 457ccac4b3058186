import KappaGateway.Hal.AfMessage
import KappaGateway.Hal.Mtproc

/-!
# Sending and receiving AF messages

Both senders write the header and the ASDU into the data field of a command, which
is not initialized, and compute its length in 8 bits. An incoming message is copied
into an object that is not initialized either.
-/

namespace KappaGateway.Mtaf

open Kutil Windows AfMessage Mtproc

/-- The size of `mtMessage_t::pData`. -/
def pDataSize : Nat := 256

def ZBNWKADDRLEN : Nat := 2
def ZB_EP_LEN : Nat := 1
def ZB_CLUSTERID_LEN : Nat := 2
def ZB_TRANSEQNUM_LEN : Nat := 1

/-! ### Sending -/

/-- `MT_AfDataRequest` up to the command: `pData` behind the last byte written. The
memory goes on behind `pData`, where an ASDU that is too long ends up. -/
def afDataRequest (pData : Nat → UInt8) (x : AFMessage) : Cursor UInt8 :=
  (⟨pData, 0⟩ : Cursor UInt8)
    |>.put (memory 2 x.dstAddr.toNat)
    |>.put [x.dstEndpoint]
    |>.put [x.srcEndpoint]
    |>.put (memory 2 x.clusterId.toNat)
    |>.put [x.tranSeqNum]
    |>.put [x.options]
    |>.put [x.radius]
    |>.put [x.asduLen]
    |>.put (window x.asdu 0 x.asduLen.toNat)

/-- `MT_AfDataRequest`: the bytes handed to `SerialSend`. -/
def MT_AfDataRequest (cmdPtr : Option (List UInt8)) (pData : Nat → UInt8) (x : AFMessage) :
    Option (List UInt8) :=
  let dataLength := UInt8.ofNat (ZBNWKADDRLEN + ZB_EP_LEN + ZB_EP_LEN + ZB_CLUSTERID_LEN +
    ZB_TRANSEQNUM_LEN + 1 + 1 + x.asduLen.toNat + 1)
  mtBuildAndSendCmd cmdPtr 0x24 0x01 dataLength
    (some (window (afDataRequest pData x).mem 0 pDataSize))

/-- `kapi::mtaf::dataRequest` up to the command. -/
def afDataRequest_EXT (pData : Nat → UInt8) (x : AFMessage_EXT) : Cursor UInt8 :=
  (⟨pData, 0⟩ : Cursor UInt8)
    |>.put [x.addrMode]
    |>.put (memory 8 x.dstAddr.toNat)
    |>.put [x.dstEndpoint]
    |>.put (memory 2 x.dstPanId.toNat)
    |>.put [x.srcEndpoint]
    |>.put (memory 2 x.clusterId.toNat)
    |>.put [x.tranSeqNum]
    |>.put [x.options]
    |>.put [x.radius]
    |>.put (memory 2 x.asduLen.toNat)
    |>.put (window x.asdu 0 x.asduLen.toNat)

/-- `kapi::mtaf::dataRequest`: the bytes handed to `SerialSend`. -/
def dataRequest (cmdPtr : Option (List UInt8)) (pData : Nat → UInt8) (x : AFMessage_EXT) :
    Option (List UInt8) :=
  let dataLength := UInt8.ofNat (20 + x.asduLen.toNat + 1)
  mtBuildAndSendCmd cmdPtr 0x24 0x02 dataLength
    (some (window (afDataRequest_EXT pData x).mem 0 pDataSize))

/-! ### Receiving -/

def AFMsg_Ind : UInt8 := 0x81
def AFMsg_EXT_Ind : UInt8 := 0x82
def MT_RPC_POS_LEN : Nat := 0
def MT_RPC_POS_CMD0 : Nat := 1
def MT_RPC_POS_CMD1 : Nat := 2
def MT_RPC_POS_DAT0 : Nat := 3
def MT_RPC_SUBSYSTEM_MASK : UInt8 := 0x1F
def MT_RPC_SYS_AF : UInt8 := 4
def MT_RPC_SYS_MAX : UInt8 := 14
def MT_SYS_WDT_KICK : UInt8 := 0x44

/-- `loadStr` of `len` bytes behind an address. -/
def loadStr (in_ : Nat → UInt8) (start len : Nat) (data : Data) : Data :=
  patch 0 (window in_ start len) data

/-- What a registered handler gets. -/
inductive Indication where
  | AFMsg (message : AFMessage)
  | AFMsg_EXT (message : AFMessage_EXT)

/-- `MTAFIncomingMsgProc`: `data` is what lies in the local object before. -/
def MTAFIncomingMsgProc (data : Data) (pBuf : Nat → UInt8) : AFMessage :=
  mt_afmessage.view (loadStr pBuf MT_RPC_POS_DAT0 (pBuf MT_RPC_POS_LEN).toNat data)

/-- `MTAFIncomingMsgEXTProc`. -/
def MTAFIncomingMsgEXTProc (data : Data) (pBuf : Nat → UInt8) : AFMessage_EXT :=
  mt_afmessage_EXT.view (loadStr pBuf MT_RPC_POS_DAT0 (pBuf MT_RPC_POS_LEN).toNat data)

/-- `MT_AfCommandProcessing`, as far as a handler is called. -/
def MT_AfCommandProcessing (data : Data) (pBuf : Nat → UInt8) : Option Indication :=
  if pBuf MT_RPC_POS_CMD1 = AFMsg_Ind then some (.AFMsg (MTAFIncomingMsgProc data pBuf))
  else if pBuf MT_RPC_POS_CMD1 = AFMsg_EXT_Ind then
    some (.AFMsg_EXT (MTAFIncomingMsgEXTProc data pBuf))
  else none

/-- `mtOOBRecv`: whether it takes the message. -/
def mtOOBRecv (pBuf : Nat → UInt8) : Bool :=
  pBuf MT_RPC_POS_CMD0 = 0x61 ∧ pBuf MT_RPC_POS_CMD1 = MT_SYS_WDT_KICK

/-- `MT_ProcessIncoming`, as far as a handler of AF messages is called. -/
def MT_ProcessIncoming (data : Data) (pBuf : Nat → UInt8) : Option Indication :=
  let subsystem := pBuf MT_RPC_POS_CMD0 &&& MT_RPC_SUBSYSTEM_MASK
  if MT_RPC_DATA_MAX < (pBuf MT_RPC_POS_LEN).toNat then none
  else if subsystem < MT_RPC_SYS_MAX then
    if mtOOBRecv pBuf then none
    else if subsystem = MT_RPC_SYS_AF then MT_AfCommandProcessing data pBuf
    else none
  else none

end KappaGateway.Mtaf

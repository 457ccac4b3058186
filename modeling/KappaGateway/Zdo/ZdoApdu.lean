import KappaGateway.Aps.ObjectModels
import KappaGateway.Kapi.Kutil

/-!
# ZDP messages and their parsers

The parsers walk through memory from a pointer without a bound, so memory is a
function of the offset. The operands of `|` and `+=` take effect from left to
right.
-/

namespace KappaGateway.Zdo

open Aps Kutil FindOrCreate

/-- The fields of an incoming `AFMessage`; `asdu` goes on behind the ASDU. -/
structure AfMessage where
  clusterId : UInt16
  dstEndpoint : UInt8
  asduLen : UInt8
  asdu : Nat → UInt8

/-- Memory behind an offset. -/
def shift (apdu : Nat → UInt8) (offset : Nat) : Nat → UInt8 := fun i => apdu (offset + i)

/-- The first bytes from a pointer. -/
def bytesFrom (apdu : Nat → UInt8) (length : Nat) : List UInt8 := (List.range length).map apdu

/-- `ANSITohostInt` into a `uint16_t`. -/
def hostInt16 (apdu : Nat → UInt8) (i : Nat) : UInt16 :=
  UInt16.ofNat (memoryValue [apdu i, apdu (i + 1)])

/-- `ANSITohostInt` for every element of a cluster list. -/
def clusterList (apdu : Nat → UInt8) (i count : Nat) : List UInt16 :=
  (List.range count).map fun k => hostInt16 apdu (i + 2 * k)

def ZDP_SUCCESS : UInt8 := 0

def RSPSTAT : Nat := 1

def NADDROI : Nat := 2

def MSGBODY : Nat := 4

/-- `message_preprocess_`: `NWKAddrOfInterest` and the offset of what follows. -/
def message_preprocess_ (msg : AfMessage) (asduLen_exp : UInt8) : Option (UInt16 × Nat) :=
  if msg.asduLen ≠ asduLen_exp then none
  else if msg.clusterId &&& 0x8000 ≠ 0 then
    if msg.asdu RSPSTAT ≠ ZDP_SUCCESS then none else some (hostInt16 msg.asdu 2, 4)
  else some (hostInt16 msg.asdu 1, 3)

/-- `zdpPred` for a request with the sequence number and the cluster. -/
def zdpPred (zdpCount : UInt8) (clusterId : UInt16) (i : AfMessage) : Bool :=
  i.asdu 0 = zdpCount ∧ i.clusterId = 0x8000 ||| clusterId ∧ i.dstEndpoint = 0

/-- `node_desc_req_apdu_process` assigns every field. -/
def node_desc_req_apdu_process (apdu : Nat → UInt8) : NodeDescriptor where
  logicalType := apdu 0 &&& 0x07
  complexDescAvail := (apdu 0 &&& 0x08) >>> 3
  userDescAvail := (apdu 0 &&& 0x10) >>> 4
  reserved := (apdu 0 &&& 0xE0) >>> 5
  apsFlags := apdu 1 &&& 0x07
  frequencyBand := (apdu 1 &&& 0xF8) >>> 3
  capabilityFlags := apdu 2
  manufacturerCode := hostInt16 apdu 3
  maxBufferSize := apdu 5
  maxInTransferSize := hostInt16 apdu 6
  serverMask := hostInt16 apdu 8
  maxOutTransferSize := hostInt16 apdu 10
  descriptorCapability := apdu 12

/-- The endpoint ids behind `ActiveEPCount`. -/
def activeEPs (apdu : Nat → UInt8) : List UInt8 := bytesFrom (shift apdu 1) (apdu 0).toNat

/-- `active_ep_req_apdu_process`: every listed endpoint exists afterwards. -/
def active_ep_req_apdu_process (endpoints : List Endpoint) (apdu : Nat → UInt8) :
    List Endpoint :=
  (activeEPs apdu).foldl endpointPtr endpoints

/-- `simple_desc_req_apdu_process` resizes both lists and assigns every field. -/
def simple_desc_req_apdu_process (apdu : Nat → UInt8) : SimpleDescriptor where
  endpointAddr := apdu 0
  profileId := hostInt16 apdu 1
  deviceId := hostInt16 apdu 3
  deviceVersion := apdu 5
  inclusterList := clusterList apdu 7 (apdu 6).toNat
  outclusterList :=
    clusterList apdu (8 + 2 * (apdu 6).toNat) (apdu (7 + 2 * (apdu 6).toNat)).toNat

/-- The loop of `aps_newpeer_handle` over the endpoints of this device, with the
peer so far: the peer afterwards, and whether an out cluster of it is wanted. -/
def newpeer (remote : SimpleDescriptor) : List Endpoint → Option UInt8 → Option UInt8 × Bool
  | [], peer => (peer, false)
  | local_ :: rest, peer =>
      if remote.profileId = local_.simpleDescriptor.profileId then
        if local_.simpleDescriptor.outclusterList.any (remote.inclusterList.contains ·) then
          (some local_.id, true)
        else newpeer remote rest (some local_.id)
      else newpeer remote rest peer

/-- `aps_newpeer_handle`, as far as the endpoint itself is concerned. -/
def aps_newpeer_handle (locals : List Endpoint) (remote : Endpoint) : Endpoint :=
  { remote with
    localPeer := (newpeer remote.simpleDescriptor locals remote.localPeer).1 }

end KappaGateway.Zdo

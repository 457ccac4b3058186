import KappaGateway.Zdo.ZdoApdu
import KappaGateway.Zdo.ZdoArchive

/-!
# Discovery

The three requests that discover a device, with the callbacks for their
responses; the functions that change the table of associated devices; and the
recovery of all devices from the archive.
-/

namespace KappaGateway.Zdo

open Aps Kutil Kjson ZdoArchive FindOrCreate

/-! ### Responses -/

/-- The callback of `node_desc_req`, on the device and the archive file. -/
def node_desc_req (stack : Text) (s : Device × Option Doc) (x : AfMessage) :
    Device × Option Doc :=
  let msg_body := shift x.asdu MSGBODY
  ({ s.1 with nodeDescriptor := node_desc_req_apdu_process msg_body },
    saveDevApdu stack s.1 (cstr "NodeDescApduString") (bytesFrom msg_body 13) s.2)

/-- The callback of `active_ep_req`. -/
def active_ep_req (stack : Text) (s : Device × Option Doc) (x : AfMessage) :
    Device × Option Doc :=
  let msg_body := shift x.asdu MSGBODY
  let activeEPCount := (x.asdu 4).toNat
  ({ s.1 with endpoints := active_ep_req_apdu_process s.1.endpoints msg_body },
    saveDevApdu stack s.1 (cstr "ActiveEndpointApduString")
      (bytesFrom msg_body (activeEPCount + 1)) s.2)

/-- The callback of `simple_desc_req` for endpoint `ep` of the device. -/
def simple_desc_req (locals : List Endpoint) (ep : UInt8) (stack : Text)
    (s : Device × Option Doc) (x : AfMessage) : Device × Option Doc :=
  let msg_body := shift x.asdu (MSGBODY + 1)
  let simpleDescLength := (x.asdu 4).toNat
  ({ s.1 with
      endpoints := modifyFirst (·.id = ep)
        (fun e => aps_newpeer_handle locals
          { e with simpleDescriptor := simple_desc_req_apdu_process msg_body })
        s.1.endpoints },
    saveEndpointApdu stack s.1 ep (cstr "SimpleDescApdu")
      (bytesFrom msg_body simpleDescLength) s.2)

/-- The requests issued for a device; the last for one of its endpoints. -/
inductive Request where
  | node_desc_req
  | active_ep_req
  | simple_desc_req (ep : UInt8)
  deriving DecidableEq

def Request.clusterId : Request → UInt16
  | .node_desc_req => 0x0002
  | .active_ep_req => 0x0005
  | .simple_desc_req _ => 0x0004

/-- The callback of a request: none looks at the status or at `NWKAddrOfInterest`. -/
def Request.callback (locals : List Endpoint) (stack : Text) :
    Request → Device × Option Doc → AfMessage → Device × Option Doc
  | .node_desc_req => Zdo.node_desc_req stack
  | .active_ep_req => Zdo.active_ep_req stack
  | .simple_desc_req ep => Zdo.simple_desc_req locals ep stack

/-- The strings that the callback of a request archives. -/
def Request.archives (stack : Text) (d : Device) (x : AfMessage) : Request → List Assignment
  | .node_desc_req =>
      addresses d ++ [([ieeeAddrStr d.ieee_id, cstr "NodeDescApduString"],
        apduString stack (bytesFrom (shift x.asdu MSGBODY) 13))]
  | .active_ep_req =>
      addresses d ++ [([ieeeAddrStr d.ieee_id, cstr "ActiveEndpointApduString"],
        apduString stack (bytesFrom (shift x.asdu MSGBODY) ((x.asdu 4).toNat + 1)))]
  | .simple_desc_req ep =>
      addresses d ++ [(endpointPath d ep ++ [cstr "Id"], epStr ep),
        (endpointPath d ep ++ [cstr "SimpleDescApdu"],
          apduString stack (bytesFrom (shift x.asdu (MSGBODY + 1)) (x.asdu 4).toNat))]

theorem callback_archive (locals : List Endpoint) (stack : Text) (r : Request) (d : Device)
    (file : Option Doc) (x : AfMessage) :
    (r.callback locals stack (d, file) x).2 = rewrite (r.archives stack d x) file := by
  cases r with
  | node_desc_req => exact saveDevApdu_eq ..
  | active_ep_req => exact saveDevApdu_eq ..
  | simple_desc_req ep => exact saveEndpointApdu_eq ..

/-- A response changes no address. -/
theorem callback_keys (locals : List Endpoint) (stack : Text) (r : Request) (d : Device)
    (file : Option Doc) (x : AfMessage) :
    (r.callback locals stack (d, file) x).1.id = d.id ∧
      (r.callback locals stack (d, file) x).1.ieee_id = d.ieee_id := by
  cases r <;> exact ⟨rfl, rfl⟩

/-- `indicate`, while the request with the sequence number is the only one. -/
def Request.indicate (locals : List Endpoint) (stack : Text) (zdpCount : UInt8) (r : Request)
    (s : Device × Option Doc) (x : AfMessage) : Device × Option Doc :=
  if zdpPred zdpCount r.clusterId x then r.callback locals stack s x else s

/-! ### The table of associated devices -/

/-- `kMemToInt` of eight bytes. -/
def ieeeAddrAt (asdu : Nat → UInt8) (i : Nat) : UInt64 :=
  UInt64.ofNat (memoryValue (bytesFrom (shift asdu i) 8))

/-- `device_annce_proc` up to its requests. -/
def device_annce_proc (msg : AfMessage) (assocs : Devices) : Devices :=
  match message_preprocess_ msg 12 with
  | none => assocs
  | some (nwkAddrOfInterest, pasdu) =>
      let ieee_addr := ieeeAddrAt msg.asdu pasdu
      assocsByIeee ieee_addr
        (fun assoc =>
          { assoc with
            id := nwkAddrOfInterest
            ieee_id := ieee_addr
            capability := msg.asdu (pasdu + 8) })
        assocs

/-- `deviceQuery` up to its requests; `extAddr` is what `getAssocExtAddr` returns. -/
def deviceQuery (shortAddr : UInt16) (extAddr : UInt64) (assocs : Devices) : Devices :=
  assocsById shortAddr (fun assoc => { assoc with id := shortAddr, ieee_id := extAddr }) assocs

def refreshDevice (shortAddr : UInt16) (extAddr : UInt64) (assocs : Devices) : Devices :=
  deviceQuery shortAddr extAddr (removeAssoc shortAddr assocs)

/-- The table part of the `Mgmt_Leave_req` handler: the lookup that finds the
short address creates the device if it is not there. -/
def mgmt_Leave_req (ieeeAddr : UInt64) (assocs : Devices) : Devices :=
  let found := (assocs.find? (·.ieee_id = ieeeAddr)).getD (.new ieeeAddr.toUInt16)
  removeAssoc found.id (assocsByIeee ieeeAddr id assocs)

/-- The gateway as far as discovery changes it: the associated devices, and the
archive file. -/
structure Gateway where
  assocs : Devices
  archive : Option Doc

/-- The callback of a request for the device with the address, which holds the
pointer to it. -/
def serve (locals : List Endpoint) (stack : Text) (ieeeAddr : UInt64) (r : Request)
    (x : AfMessage) (s : Gateway) : Gateway :=
  match s.assocs.find? (·.ieee_id = ieeeAddr) with
  | none => s
  | some d =>
      let after := r.callback locals stack (d, s.archive) x
      ⟨modifyFirst (·.ieee_id = ieeeAddr) (fun _ => after.1) s.assocs, after.2⟩

/-! ### Recovery -/

/-- Memory that the decoders can reach behind a text and behind a vector. -/
structure Beyond where
  text : Nat → UInt8
  vector : Nat → UInt8

/-- `hexStrToByteVec(str).data()`. -/
def decoded (beyond : Beyond) (str : Text) : Nat → UInt8 :=
  fun i => (hexStrToByteVec str beyond.text).getD i (beyond.vector i)

/-- `dev["endpointList"][id]["SimpleDescApdu"]`. -/
def archivedSimpleDesc (dev : Doc) (ep : UInt8) : Option Doc :=
  ((elem (cstr "endpointList") dev).bind (elem (epStr ep))).bind
    (elem (cstr "SimpleDescApdu"))

/-- One endpoint of a recovered device. -/
def recoverSimpleDesc (locals : List Endpoint) (beyond : Text → Beyond) (dev : Doc)
    (ep : Endpoint) : Endpoint :=
  let str := toText (archivedSimpleDesc dev ep.id)
  if ep.id ≠ 0 ∧ 0 < str.length then
    aps_newpeer_handle locals
      { ep with
        simpleDescriptor := simple_desc_req_apdu_process (decoded (beyond (epStr ep.id)) str) }
  else ep

/-- What `recoverEndpoint` does to the device of an entry. -/
def recoverDevice (locals : List Endpoint) (beyond : Text → Beyond) (dev : Doc)
    (assoc : Device) : Device :=
  let nodeDesc := cstr "NodeDescApduString"
  let activeEp := cstr "ActiveEndpointApduString"
  let endpoints := active_ep_req_apdu_process assoc.endpoints
    (decoded (beyond activeEp) (toText (elem activeEp dev)))
  { assoc with
    ieee_id := toInteger (elem (cstr "ieeeAddr") dev)
    active := true
    nodeDescriptor := node_desc_req_apdu_process
      (decoded (beyond nodeDesc) (toText (elem nodeDesc dev)))
    endpoints := endpoints.map (recoverSimpleDesc locals beyond dev) }

/-- The body of the loop of `recoverEndpoint`. -/
def recoverEntry (locals : List Endpoint) (beyond : Text → Text → Beyond) (assocs : Devices)
    (entry : Text × Doc) : Devices :=
  assocsById (toInteger (elem (cstr "nwkAddr") entry.2)).toUInt16
    (recoverDevice locals (beyond entry.1) entry.2) assocs

/-- `recoverEndpoint`: `iterate` is the order in which Jansson visits the members
of an object. A file that is not good is cleared, and no device recovered. -/
def recoverEndpoint (locals : List Endpoint) (beyond : Text → Text → Beyond)
    (iterate : List (Text × Doc) → List (Text × Doc)) (file : Option Doc) (assocs : Devices) :
    Devices :=
  match file with
  | some (.object entries) => (iterate entries).foldl (recoverEntry locals beyond) assocs
  | _ => assocs

end KappaGateway.Zdo

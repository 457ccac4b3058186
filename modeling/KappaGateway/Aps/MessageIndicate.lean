import KappaGateway.Aps.DataService
import KappaGateway.Aps.ObjectLookups
import KappaGateway.Hal.AfMessage
import KappaGateway.Kapi.Kjson
import Mathlib.Data.List.Sort

/-!
# Incoming messages and the endpoints of this device

A message that no request waits for goes to its endpoint. `endpointPtr` creates the
endpoint if it is not there, so that a message changes the endpoints of this device
exactly if its destination is none of them.
-/

namespace KappaGateway.MessageIndicate

open Aps AfMessage DataService FindOrCreate KeyedList Kjson Kutil Transition

variable {H Cb Addr : Type*}

/-- An endpoint of this device; `H` are the message handlers that plug-ins set. -/
structure LocalEndpoint (H : Type*) extends Endpoint where
  clusters : List Cluster
  data : List (Text × Text)
  messageHandler : Option H

def JSON_CLUSTERS_FILE : Text := cstr "/usr/lib/kappaio/files/zclclusters.json"
def JSON_ZCL_DATATYPES : Text := cstr "/usr/lib/kappaio/files/zcldatatypes.json"

/-- `Endpoint::Endpoint`. -/
def LocalEndpoint.new (i : UInt8) : LocalEndpoint H where
  toEndpoint := .new i
  clusters := []
  data := [(cstr "ClusterLookupPath", JSON_CLUSTERS_FILE),
    (cstr "datatypeLookupPath", JSON_ZCL_DATATYPES)]
  messageHandler := none

/-- This device; the associated devices by their snapshots. -/
structure LocalDevice (H : Type*) where
  id : UInt16
  ieee_id : UInt64
  capability : UInt8
  assocs : List Doc
  endpoints : List (LocalEndpoint H)

/-! ### What plug-ins and REST calls see of the endpoints -/

def endpointExist (i : UInt8) (endpoints : List (LocalEndpoint H)) : Bool :=
  exist endpoints (·.id = i)

/-- `endpointPtr` and `endpoints(uint8_t)`: the place of the endpoint, and the list. -/
def endpointPtr (i : UInt8) (endpoints : List (LocalEndpoint H)) :
    Nat × List (LocalEndpoint H) :=
  lookup (·.id = i) (.new i) endpoints

def newEndpoint (i : UInt8) (endpoints : List (LocalEndpoint H)) :
    Nat × List (LocalEndpoint H) :=
  if endpointExist i endpoints then
    match ((List.range' 1 239).map UInt8.ofNat).find? fun j => !endpointExist j endpoints with
    | some j => endpointPtr j endpoints
    | none => endpointPtr 241 endpoints
  else endpointPtr i endpoints

def Attribute.nodeSnapshot (a : Attribute) : Doc :=
  .object [(cstr "id", .string (intToHexStr 2 a.id.toNat)),
    (cstr "value", .string (kIntToStr a.value.data))]

def Cluster.nodeSnapshot (c : Cluster) : Doc :=
  .object [(cstr "id", .string (intToHexStr 2 c.id.toNat)),
    (cstr "attributes", .array (c.attributes.map Attribute.nodeSnapshot))]

/-- The clusters of a list, as many as the 8-bit count says. -/
def clusterIds (clusters : List UInt16) : Doc :=
  .array ((clusters.take (clusters.length % 256)).map fun c => .string (intToHexStr 2 c.toNat))

/-- The out-cluster count is written from the in-cluster list. -/
def SimpleDescriptor.nodeSnapshot (d : SimpleDescriptor) : Doc :=
  .object [(cstr "endpoint", .string (intToHexStr 1 d.endpointAddr.toNat)),
    (cstr "profileId", .string (intToHexStr 2 d.profileId.toNat)),
    (cstr "deviceId", .string (intToHexStr 2 d.deviceId.toNat)),
    (cstr "deviceVersion", .string (intToHexStr 1 d.deviceVersion.toNat)),
    (cstr "inClusterCount", .string (intToHexStr 1 (d.inclusterList.length % 256))),
    (cstr "inClusterList", clusterIds d.inclusterList),
    (cstr "outClusterCount", .string (intToHexStr 1 (d.inclusterList.length % 256))),
    (cstr "outClusterList", clusterIds d.outclusterList)]

/-- `data()[key]` of a `std::map`: a key that is not there gets an empty string. -/
def dataAt (key : Text) (data : List (Text × Text)) : List (Text × Text) :=
  if data.any (·.1 = key) then data else data.orderedInsert (fun x y => x.1 ≤ y.1) (key, [])

/-- `nodeSnapshot(Endpoint&)`, which asks for two entries of `data` before it writes
them all. -/
def LocalEndpoint.nodeSnapshot (e : LocalEndpoint H) : Doc :=
  let data := dataAt (cstr "WidgetIndexFile") (dataAt (cstr "WidgetRoot") e.data)
  let value (key : String) : Doc := .string ((valueAt (cstr key) data).getD [])
  .object ([(cstr "id", .string (intToHexStr 1 e.id.toNat)),
      (cstr "paired", .bool e.localPeer.isSome)] ++
    (e.localPeer.toList.map fun p =>
      (cstr "localEndpointOfContact", .string (intToHexStr 1 p.toNat))) ++
    [(cstr "WidgetRoot", value "WidgetRoot"),
      (cstr "WidgetIndexFile", value "WidgetIndexFile"),
      (cstr "simpleDescriptor", SimpleDescriptor.nodeSnapshot e.simpleDescriptor),
      (cstr "data", .object (data.map fun x => (x.1, .string x.2))),
      (cstr "clusters", .array (e.clusters.map Cluster.nodeSnapshot))])

/-- `nodeSnapshot(Device&)`. -/
def LocalDevice.nodeSnapshot (d : LocalDevice H) : Doc :=
  .object [(cstr "id", .string (intToHexStr 2 d.id.toNat)),
    (cstr "ieee_id", .string (intToHexStr 8 d.ieee_id.toNat)),
    (cstr "capability", .string (intToHexStr 1 d.capability.toNat)),
    (cstr "assocs", .array d.assocs),
    (cstr "endpoints", .array (d.endpoints.map LocalEndpoint.nodeSnapshot))]

/-! ### The two dispatchers -/

/-- This device, and the registries of `data_service` and `data_service_EXT`. -/
structure State (H Cb Addr : Type*) where
  device : LocalDevice H
  service : DataService.State AFMessage Cb Addr
  service_EXT : DataService.State AFMessage_EXT Cb Addr

/-- The device once `endpointPtr` was asked for an endpoint. -/
def LocalDevice.reach (d : LocalDevice H) (i : UInt8) : LocalDevice H :=
  { d with endpoints := (endpointPtr i d.endpoints).2 }

/-- The message handler of the endpoint that `endpointPtr` returns. -/
def handlerAt (i : UInt8) (endpoints : List (LocalEndpoint H)) : Option H :=
  ((endpointPtr i endpoints).2[(endpointPtr i endpoints).1]?).bind LocalEndpoint.messageHandler

section

variable (run : H → AFMessage → LocalDevice H → LocalDevice H)

/-- `data_service::apsMessageIndicate`; `run` is what a message handler does to the
device. -/
def apsMessageIndicate (s : State H Cb Addr) (message : AFMessage) : State H Cb Addr :=
  if s.service.buffer.any (·.value.pred message) then
    { s with service := indicate s.service message }
  else
    match handlerAt message.dstEndpoint s.device.endpoints with
    | some handler =>
        { s with device := run handler message (s.device.reach message.dstEndpoint) }
    | none => { s with device := s.device.reach message.dstEndpoint }

/-- `data_service_EXT::apsMessageIndicate`, which calls no message handler. -/
def apsMessageIndicate_EXT (s : State H Cb Addr) (message : AFMessage_EXT) : State H Cb Addr :=
  if s.service_EXT.buffer.any (·.value.pred message) then
    { s with service_EXT := indicate s.service_EXT message }
  else { s with device := s.device.reach message.dstEndpoint }

/-- A step of a request or an incoming message, of either service. -/
inductive Action (Addr : Type*) where
  | AF (a : DataService.Action AFMessage Addr)
  | AF_EXT (a : DataService.Action AFMessage_EXT Addr)

def Enabled (s : State H Cb Addr) : Action Addr → Prop
  | .AF a => DataService.Enabled s.service a
  | .AF_EXT a => DataService.Enabled s.service_EXT a

variable [DecidableEq Addr] (handlers : Nat → Handlers AFMessage Cb)
  (handlers_EXT : Nat → Handlers AFMessage_EXT Cb)

def next (s : State H Cb Addr) : Action Addr → State H Cb Addr
  | .AF (.indicate message) => apsMessageIndicate run s message
  | .AF a => { s with service := DataService.next handlers s.service a }
  | .AF_EXT (.indicate message) => apsMessageIndicate_EXT s message
  | .AF_EXT a => { s with service_EXT := DataService.next handlers_EXT s.service_EXT a }

def Step (s : State H Cb Addr) (a : Action Addr) (t : State H Cb Addr) : Prop :=
  Enabled s a ∧ t = next run handlers handlers_EXT s a

end

/-! ### Messages that nobody waits for -/

/-- The endpoint that an incoming message is for. -/
def destination : Action Addr → Option UInt8
  | .AF (.indicate message) => some message.dstEndpoint
  | .AF_EXT (.indicate message) => some message.dstEndpoint
  | _ => none

/-- No predicate accepts the message, and its endpoint has no handler for it. -/
def Unknown : State H Cb Addr × Action Addr × State H Cb Addr → Prop
  | (s, .AF (.indicate message), _) =>
      ¬ s.service.buffer.any (·.value.pred message) ∧
        ∀ x ∈ s.device.endpoints, x.id = message.dstEndpoint → x.messageHandler = none
  | (s, .AF_EXT (.indicate message), _) => ¬ s.service_EXT.buffer.any (·.value.pred message)
  | _ => True

/-- The endpoints are what they were, and so is all that is answered about them. -/
structure Unaffected (d d' : LocalDevice H) : Prop where
  endpoints : d'.endpoints = d.endpoints
  endpointExist : ∀ i, endpointExist i d'.endpoints = endpointExist i d.endpoints
  newEndpoint : ∀ i, newEndpoint i d'.endpoints = newEndpoint i d.endpoints
  nodeSnapshot : d'.nodeSnapshot = d.nodeSnapshot

section

variable {run : H → AFMessage → LocalDevice H → LocalDevice H} [DecidableEq Addr]
  {handlers : Nat → Handlers AFMessage Cb} {handlers_EXT : Nat → Handlers AFMessage_EXT Cb}
  {s t u : State H Cb Addr} {a : Action Addr}
  {tr : List (State H Cb Addr × Action Addr × State H Cb Addr)}

theorem endpointExist_iff {i : UInt8} {endpoints : List (LocalEndpoint H)} :
    endpointExist i endpoints ↔ ∃ x ∈ endpoints, x.id = i :=
  any_key_iff (k := fun x : LocalEndpoint H => x.id)

/-- An endpoint that was created on the way has no handler. -/
theorem handlerAt_eq_none {i : UInt8} {endpoints : List (LocalEndpoint H)}
    (h : ∀ x ∈ endpoints, x.id = i → x.messageHandler = none) :
    handlerAt i endpoints = none := by
  by_cases hmem : ∃ x ∈ endpoints, x.id = i
  · have hlt : endpoints.findIdx (·.id = i) < endpoints.length :=
      List.findIdx_lt_length_of_exists (by simpa using hmem)
    have hfound : endpoints[endpoints.findIdx (·.id = i)].id = i := by
      simpa using List.findIdx_getElem (w := hlt)
    have hnone := h _ (List.getElem_mem hlt) hfound
    simp [handlerAt, endpointPtr, lookup_of_mem hmem, List.getElem?_eq_getElem hlt, hnone]
  · rw [handlerAt, endpointPtr, lookup_of_not_mem hmem]
    rfl

/-- All that such a message does to the device is to ask for its endpoint, and a request
does nothing to it. -/
theorem next_device (h : Unknown (s, a, t)) :
    (next run handlers handlers_EXT s a).device =
      (destination a).elim s.device s.device.reach := by
  cases a with
  | AF a =>
      cases a with
      | indicate message =>
          simp only [next, apsMessageIndicate, if_neg h.1, handlerAt_eq_none h.2]
          rfl
      | _ => rfl
  | AF_EXT a =>
      cases a with
      | indicate message =>
          simp only [next, apsMessageIndicate_EXT, if_neg (show ¬ _ from h)]
          rfl
      | _ => rfl

/-- The endpoints that the messages of a run are for. -/
def destinations (tr : List (State H Cb Addr × Action Addr × State H Cb Addr)) : List UInt8 :=
  tr.filterMap fun e => destination e.2.1

theorem path_device (path : Path (Step run handlers handlers_EXT) s tr u)
    (h : ∀ e ∈ tr, Unknown e) : u.device = (destinations tr).foldl LocalDevice.reach s.device := by
  induction path with
  | nil => rfl
  | @cons s a t tr u hstep tail ih =>
      rw [List.forall_mem_cons] at h
      obtain ⟨-, rfl⟩ := hstep
      rw [ih h.2, next_device h.1]
      cases hdest : destination a with
      | none => simp [destinations, hdest]
      | some i => simp [destinations, hdest]

theorem foldl_reach (d : LocalDevice H) (ids : List UInt8) :
    ids.foldl LocalDevice.reach d =
      { d with endpoints := ids.foldl (fun l i => (endpointPtr i l).2) d.endpoints } := by
  induction ids generalizing d with
  | nil => rfl
  | cons i rest ih => rw [List.foldl_cons, ih, List.foldl_cons]; rfl

end

/-- A run of messages that nobody waits for leaves the endpoints alone exactly if every
message is for an endpoint that is there. -/
theorem messages_create_no_endpoints [DecidableEq Addr]
    (run : H → AFMessage → LocalDevice H → LocalDevice H)
    (handlers : Nat → Handlers AFMessage Cb) (handlers_EXT : Nat → Handlers AFMessage_EXT Cb)
    {s u : State H Cb Addr} {tr : List (State H Cb Addr × Action Addr × State H Cb Addr)}
    (path : Path (Step run handlers handlers_EXT) s tr u) (hunknown : ∀ e ∈ tr, Unknown e) :
    Unaffected s.device u.device ↔
      ∀ e ∈ tr, ∀ i ∈ destination e.2.1, endpointExist i s.device.endpoints := by
  have hdevice : u.device = { s.device with
      endpoints := (destinations tr).foldl (fun l i => (endpointPtr i l).2) s.device.endpoints } :=
    (path_device path hunknown).trans (foldl_reach s.device _)
  have hsame : u.device.endpoints = s.device.endpoints ↔
      ∀ i ∈ destinations tr, ∃ x ∈ s.device.endpoints, x.id = i := by
    rw [hdevice]
    exact foldl_lookup_eq_self_iff LocalEndpoint.new s.device.endpoints (destinations tr)
  have hmem : (∀ e ∈ tr, ∀ i ∈ destination e.2.1, endpointExist i s.device.endpoints) ↔
      ∀ i ∈ destinations tr, ∃ x ∈ s.device.endpoints, x.id = i := by
    simp only [destinations, List.mem_filterMap, endpointExist_iff]
    constructor
    · rintro h i ⟨e, he, hi⟩
      exact h e he i hi
    · intro h e he i hi
      exact h i ⟨e, he, hi⟩
  rw [hmem, ← hsame]
  constructor
  · exact Unaffected.endpoints
  · intro hendpoints
    have heq : u.device = s.device := by
      rw [hdevice]
      rw [hdevice] at hendpoints
      exact congrArg (fun endpoints => { s.device with endpoints := endpoints }) hendpoints
    rw [heq]
    exact ⟨rfl, fun _ => rfl, fun _ => rfl, rfl⟩

/-! ### Messages for endpoints that are there, and for one that is not -/

/-- A message without content for an endpoint. -/
def messageFor (i : UInt8) : AFMessage_EXT :=
  kr_afmessage_EXT.view (kr_afmessage_EXT.set .dstEndpoint i.toNat fun _ => 0)

/-- A device with one endpoint, and no request under way. -/
def oneEndpoint : State Unit Unit Nat :=
  ⟨⟨0, 0, 0, [], [.new 1]⟩, DataService.initial, DataService.initial⟩

def indicateFor (i : UInt8) : Action Nat := .AF_EXT (.indicate (messageFor i))

/-- The device after a message for an endpoint. -/
def afterMessage (i : UInt8) : State Unit Unit Nat :=
  next (fun _ _ d => d) (fun _ => ⟨fun _ => false, ()⟩) (fun _ => ⟨fun _ => false, ()⟩) oneEndpoint
    (indicateFor i)

/-- A device with two endpoints, and a message of either kind. -/
def twoEndpoints : State Unit Unit Nat :=
  { oneEndpoint with device := { oneEndpoint.device with endpoints := [.new 1, .new 2] } }

def indicateBoth : List (Action Nat) :=
  [.AF (.indicate (mt_afmessage.view (mt_afmessage.set .dstEndpoint 2 fun _ => 0))), indicateFor 1]

theorem messages_create_no_endpoints_known : ∃ u : State Unit Unit Nat,
    Unaffected twoEndpoints.device u.device := by
  have hpath : Path (Step (fun _ _ d => d) (fun _ => ⟨fun _ => false, ()⟩)
      fun _ => ⟨fun _ => false, ()⟩) twoEndpoints _ _ :=
    play_path indicateBoth
      (List.forall_mem_cons.mpr ⟨trivial, List.forall_mem_singleton.mpr trivial⟩)
  refine ⟨_, (messages_create_no_endpoints _ _ _ hpath ?_).mpr ?_⟩
  · refine List.forall_mem_cons.mpr ⟨⟨by decide, by decide⟩, List.forall_mem_singleton.mpr ?_⟩
    exact show ¬ _ by decide
  · refine List.forall_mem_cons.mpr ⟨fun i hi => ?_, List.forall_mem_singleton.mpr fun i hi => ?_⟩
    · obtain rfl := Option.some.inj hi
      decide
    · obtain rfl := Option.some.inj hi
      decide

/-- After one message for endpoint 5 the endpoint exists, and a plug-in that asks for a
new endpoint 5 gets endpoint 2. -/
theorem message_creates_endpoint :
    Step (fun _ _ d => d) (fun _ => ⟨fun _ => false, ()⟩) (fun _ => ⟨fun _ => false, ()⟩)
        oneEndpoint (indicateFor 5) (afterMessage 5) ∧
      Unknown (oneEndpoint, indicateFor 5, afterMessage 5) ∧
      endpointExist 5 oneEndpoint.device.endpoints = false ∧
      endpointExist 5 (afterMessage 5).device.endpoints = true ∧
      ((newEndpoint 5 (afterMessage 5).device.endpoints).2.map (·.id)) = [2, 5, 1] := by
  refine ⟨⟨trivial, rfl⟩, ?_, by decide, by decide, by decide⟩
  simp [Unknown, indicateFor, oneEndpoint, DataService.initial]

end KappaGateway.MessageIndicate

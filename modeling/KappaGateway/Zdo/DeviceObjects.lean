import Mathlib.Logic.Function.Basic
import KappaGateway.Lib.ForwardList
import KappaGateway.Lib.Transition
import KappaGateway.Zdo.Zdo

/-!
# Device objects and their URI handlers

`aps_newpeer_handle` registers two `Application` handlers under the URI that the
device has at that moment, and both capture the pointer to the device. The
devices here are objects with an identity: they are numbered in the order of
their construction, and a number is not used twice. Apart from the numbers the
table is the one of the operations in `Zdo`. Discoveries and the callbacks of
their requests hold pointers too, and nothing stops them when the device is
removed.
-/

namespace KappaGateway.DeviceObjects

open Aps Zdo Kutil Kjson ZdoArchive FindOrCreate ForwardList Transition

/-- What an `Application` handler under a device URI reports: this device, or the
one that it has captured. -/
inductive Captured where
  | thisDevice
  | device (object : Nat)
  deriving DecidableEq

/-- `Device::uri`. -/
def deviceUri (id : UInt16) : Text := cstr "devices/" ++ nwkAddrStr id

def endpointsUri (id : UInt16) : Text := deviceUri id ++ cstr "/endpoints"

/-- The associated devices, how many were constructed, the handlers of the event
`Application`, and whether something ran on a device that had been destroyed: it
wrote to memory that is no longer the device's, and C++ leaves open what follows. -/
structure State where
  assocs : List (Node Nat Device)
  constructed : Nat
  handlers : Text → Option Captured
  dangled : Bool

/-- `notify::handler` for both URIs of the address. -/
def register (id : UInt16) (target : Captured) (handlers : Text → Option Captured) :
    Text → Option Captured :=
  Function.update (Function.update handlers (deviceUri id) (some target)) (endpointsUri id)
    (some target)

/-- `SelfInit` registers this device under the address zero. -/
def init : State := ⟨[], 0, register 0 .thisDevice fun _ => none, false⟩

namespace State

variable (s : State)

def devices : Devices := s.assocs.map Node.value

/-- `assocs(...)`, and what is done to the device. A new one gets the next number. -/
def upsertDevice (p : Device → Bool) (new : Device) (f : Device → Device) : State :=
  { s with
    assocs := upsert (fun n => p n.value) ⟨s.constructed, new⟩
      (fun n => { n with value := f n.value }) s.assocs
    constructed := if s.devices.any p then s.constructed else s.constructed + 1 }

def removeAssoc (id : UInt16) : State :=
  { s with assocs := s.assocs.filter (·.value.id ≠ id) }

/-- What runs with a pointer to a device: after `removeAssoc` has destroyed it,
the pointer dangles. -/
def onObject (object : Nat) (run : Node Nat Device → State) : State :=
  match s.assocs.find? (·.addr = object) with
  | none => { s with dangled := true }
  | some n => run n

/-- Changes the device that a pointer designates. -/
def modifyObject (object : Nat) (f : Device → Device) : State :=
  { s with
    assocs := modifyFirst (·.addr = object) (fun n => { n with value := f n.value }) s.assocs }

/-- Registers the handlers of the device with the address, if one of its
endpoints joins. -/
def registerJoined (id : UInt16) (joined : Bool) : State :=
  match s.assocs.find? (·.value.id = id) with
  | none => s
  | some n =>
      { s with handlers := if joined then register id (.device n.addr) s.handlers else s.handlers }

end State

/-- The endpoint that the response describes gets a peer whose out cluster it serves. -/
def joins (locals : List Endpoint) (r : Request) (x : AfMessage) : Bool :=
  match r with
  | .simple_desc_req _ =>
      (newpeer (simple_desc_req_apdu_process (shift x.asdu (MSGBODY + 1))) locals none).2
  | _ => false

/-- One of the endpoints that the archive entry describes does. -/
def recoverJoins (locals : List Endpoint) (beyond : Text → Beyond) (dev : Doc)
    (assoc : Device) : Bool :=
  let activeEp := cstr "ActiveEndpointApduString"
  let endpoints := active_ep_req_apdu_process assoc.endpoints
    (decoded (beyond activeEp) (toText (elem activeEp dev)))
  endpoints.any fun ep =>
    let str := toText (archivedSimpleDesc dev ep.id)
    ep.id ≠ 0 ∧ 0 < str.length ∧
      (newpeer (simple_desc_req_apdu_process (decoded (beyond (epStr ep.id)) str)) locals none).2

/-- The callback of a request for a device, the code between the requests of a
discovery, which reads the address of the device and in the end marks it active,
an announcement, the two ways to look a device up again, the recovery of an
entry, and the `Mgmt_Leave_req` handler. -/
inductive Action where
  | response (object : Nat) (r : Request) (x : AfMessage)
  | discovery (object : Nat) (finished : Bool)
  | device_annce_proc (msg : AfMessage)
  | deviceQuery (shortAddr : UInt16) (extAddr : UInt64)
  | refreshDevice (shortAddr : UInt16) (extAddr : UInt64)
  | recoverEntry (beyond : Text → Text → Beyond) (entry : Text × Doc)
  | mgmt_Leave_req (ieeeAddr : UInt64)

/-- A callback and a discovery hold the pointer to a device that was constructed;
it need not be there any more. -/
def Enabled (s : State) : Action → Prop
  | .response object _ _ | .discovery object _ => object < s.constructed
  | _ => True

instance (s : State) (a : Action) : Decidable (Enabled s a) := by
  cases a <;> dsimp only [Enabled] <;> infer_instance

def deviceQuery (s : State) (shortAddr : UInt16) (extAddr : UInt64) : State :=
  s.upsertDevice (·.id = shortAddr) (.new shortAddr) fun assoc =>
    { assoc with id := shortAddr, ieee_id := extAddr }

/-- The short address of the device that leaves. -/
def leavingId (s : State) (ieeeAddr : UInt64) : UInt16 :=
  ((s.devices.find? (·.ieee_id = ieeeAddr)).getD (.new ieeeAddr.toUInt16)).id

def next (locals : List Endpoint) (s : State) : Action → State
  | .response object r x =>
      s.onObject object fun n =>
        { s.modifyObject object fun d => (r.callback locals [] (d, none) x).1 with
          handlers :=
            if joins locals r x then register n.value.id (.device object) s.handlers
            else s.handlers }
  | .discovery object finished =>
      s.onObject object fun _ =>
        s.modifyObject object fun d => if finished then { d with active := true } else d
  | .device_annce_proc msg =>
      match message_preprocess_ msg 12 with
      | none => s
      | some (nwkAddrOfInterest, pasdu) =>
          let ieee_addr := ieeeAddrAt msg.asdu pasdu
          s.upsertDevice (·.ieee_id = ieee_addr) (.new ieee_addr.toUInt16) fun assoc =>
            { assoc with
              id := nwkAddrOfInterest
              ieee_id := ieee_addr
              capability := msg.asdu (pasdu + 8) }
  | .deviceQuery shortAddr extAddr => deviceQuery s shortAddr extAddr
  | .refreshDevice shortAddr extAddr => deviceQuery (s.removeAssoc shortAddr) shortAddr extAddr
  | .recoverEntry beyond entry =>
      let nwkAddr := (toInteger (elem (cstr "nwkAddr") entry.2)).toUInt16
      let found := (s.devices.find? (·.id = nwkAddr)).getD (.new nwkAddr)
      (s.upsertDevice (·.id = nwkAddr) (.new nwkAddr)
        (recoverDevice locals (beyond entry.1) entry.2)).registerJoined nwkAddr
          (recoverJoins locals (beyond entry.1) entry.2 found)
  | .mgmt_Leave_req ieeeAddr =>
      (s.upsertDevice (·.ieee_id = ieeeAddr) (.new ieeeAddr.toUInt16) id).removeAssoc
        (leavingId s ieeeAddr)

def Step (locals : List Endpoint) (s : State) (a : Action) (t : State) : Prop :=
  Enabled s a ∧ t = next locals s a

/-! ### The table without the numbers -/

@[simp] theorem devices_upsertDevice (s : State) (p : Device → Bool) (new : Device)
    (f : Device → Device) : (s.upsertDevice p new f).devices = upsert p new f s.devices := by
  have hvalue : ∀ n : Node Nat Device,
      ({ n with value := f n.value } : Node Nat Device).value = f n.value := fun n => rfl
  exact map_upsert (g := Node.value) (p := p) hvalue ⟨s.constructed, new⟩ s.assocs

@[simp] theorem devices_removeAssoc (s : State) (id : UInt16) :
    (s.removeAssoc id).devices = Aps.removeAssoc id s.devices := by
  simp [State.devices, State.removeAssoc, Aps.removeAssoc, List.filter_map, Function.comp_def]

@[simp] theorem devices_registerJoined (s : State) (id : UInt16) (joined : Bool) :
    (s.registerJoined id joined).devices = s.devices := by
  unfold State.registerJoined
  split <;> rfl

/-- The operations that change addresses are those on the table. -/
theorem devices_next (locals : List Endpoint) (s : State) :
    (∀ msg, (next locals s (.device_annce_proc msg)).devices =
        Zdo.device_annce_proc msg s.devices) ∧
      (∀ a i, (next locals s (.deviceQuery a i)).devices = Zdo.deviceQuery a i s.devices) ∧
      (∀ a i, (next locals s (.refreshDevice a i)).devices = Zdo.refreshDevice a i s.devices) ∧
      (∀ beyond entry, (next locals s (.recoverEntry beyond entry)).devices =
        Zdo.recoverEntry locals beyond s.devices entry) ∧
      ∀ i, (next locals s (.mgmt_Leave_req i)).devices = Zdo.mgmt_Leave_req i s.devices := by
  refine ⟨fun msg => ?_, fun a i => ?_, fun a i => ?_, fun beyond entry => ?_, fun i => ?_⟩
  · simp only [next, Zdo.device_annce_proc]
    cases message_preprocess_ msg 12 with
    | none => rfl
    | some m => exact devices_upsertDevice ..
  · exact devices_upsertDevice ..
  · simp [next, deviceQuery, Zdo.refreshDevice, Zdo.deviceQuery, assocsById]
  · simp [next, Zdo.recoverEntry, assocsById]
  · simp [next, leavingId, Zdo.mgmt_Leave_req, assocsByIeee]

end KappaGateway.DeviceObjects

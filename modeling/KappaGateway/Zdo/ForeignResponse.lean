import KappaGateway.Zdo.Zdo

/-!
# Failed and foreign responses

The callbacks treat every response that the predicate of the request accepts as
a good one. A response with an error status, or for another address, is harmless
only where it happens to repeat what the device and the archive already hold.
-/

namespace KappaGateway.Zdo

open Aps Kutil Kjson ZdoArchive FindOrCreate

/-- The response reports a failure, or speaks of another device. -/
def Foreign (d : Device) (x : AfMessage) : Prop :=
  x.asdu RSPSTAT ≠ ZDP_SUCCESS ∨ hostInt16 x.asdu NADDROI ≠ d.id

/-- The body of the response repeats what the device holds. -/
def Request.Known (locals : List Endpoint) (d : Device) (x : AfMessage) : Request → Prop
  | .node_desc_req => node_desc_req_apdu_process (shift x.asdu MSGBODY) = d.nodeDescriptor
  | .active_ep_req =>
      ∀ i ∈ activeEPs (shift x.asdu MSGBODY), ∃ e ∈ d.endpoints, e.id = i
  | .simple_desc_req ep =>
      ∀ e ∈ d.endpoints.find? (·.id = ep),
        simple_desc_req_apdu_process (shift x.asdu (MSGBODY + 1)) = e.simpleDescriptor ∧
          (newpeer e.simpleDescriptor locals e.localPeer).1 = e.localPeer

theorem archives_apart (stack : Text) (d : Device) (x : AfMessage) (r : Request) :
    (r.archives stack d x).Pairwise fun a b => Json.Apart a.1 b.1 := by
  cases r with
  | node_desc_req =>
      simp [Request.archives, addresses, Json.Apart]
      decide
  | active_ep_req =>
      simp [Request.archives, addresses, Json.Apart]
      decide
  | simple_desc_req ep =>
      simp [Request.archives, addresses, endpointPath, Json.Apart]
      decide

/-! ### What a callback leaves unchanged -/

theorem callback_device_eq_self_iff (locals : List Endpoint) (stack : Text) (r : Request)
    (d : Device) (file : Option Doc) (x : AfMessage) :
    (r.callback locals stack (d, file) x).1 = d ↔ r.Known locals d x := by
  cases r with
  | node_desc_req =>
      constructor
      · exact fun h => congrArg Device.nodeDescriptor h
      · intro h
        show { d with nodeDescriptor := _ } = d
        rw [h]
  | active_ep_req =>
      rw [Request.Known, ← foldl_endpointPtr_eq_self_iff]
      constructor
      · exact fun h => congrArg Device.endpoints h
      · intro h
        show { d with endpoints := active_ep_req_apdu_process _ _ } = d
        rw [active_ep_req_apdu_process, h]
  | simple_desc_req ep =>
      have hpeer : ∀ e : Endpoint, aps_newpeer_handle locals { e with
            simpleDescriptor := simple_desc_req_apdu_process (shift x.asdu (MSGBODY + 1)) } = e ↔
          simple_desc_req_apdu_process (shift x.asdu (MSGBODY + 1)) = e.simpleDescriptor ∧
            (newpeer e.simpleDescriptor locals e.localPeer).1 = e.localPeer := by
        rintro ⟨i, desc, peer⟩
        simp only [aps_newpeer_handle, Endpoint.mk.injEq, true_and]
        apply and_congr_right
        intro h
        rw [h]
      rw [Request.Known]
      simp only [← hpeer, ← modifyFirst_eq_self_iff]
      constructor
      · exact fun h => congrArg Device.endpoints h
      · intro h
        show { d with endpoints := modifyFirst _ _ _ } = d
        rw [h]

/-- A failed or foreign response leaves the device and the archive as they are
exactly if it is not accepted, or repeats what both of them hold. -/
theorem foreign_response (locals : List Endpoint) (stack : Text) (zdpCount : UInt8)
    (r : Request) (d : Device) (file : Option Doc) (x : AfMessage) :
    (Foreign d x → r.indicate locals stack zdpCount (d, file) x = (d, file)) ↔
      (zdpPred zdpCount r.clusterId x → Foreign d x →
        r.Known locals d x ∧ Archived (r.archives stack d x) file) := by
  have hiff : r.callback locals stack (d, file) x = (d, file) ↔
      r.Known locals d x ∧ Archived (r.archives stack d x) file := by
    rw [Prod.ext_iff, callback_device_eq_self_iff, callback_archive,
      rewrite_eq_self_iff (archives_apart stack d x r)]
  rw [Request.indicate]
  split
  · rename_i hacc
    simp only [hiff, hacc, true_imp_iff]
  · rename_i hacc
    simp [hacc]

/-- A device with a node descriptor, and the archive that its discovery left. -/
def knownDevice : Device :=
  { Device.new 0x1234 with
    ieee_id := 0x00124B0001020304
    nodeDescriptor := node_desc_req_apdu_process fun _ => 0x40 }

/-- `DEVICE_NOT_FOUND` for the node descriptor request with the sequence number 7. -/
def notFound : AfMessage := ⟨0x8002, 0, 4, fun i => [7, 0x81, 0x34, 0x12].getD i 0⟩

theorem foreign_response_not_found :
    Foreign knownDevice notFound ∧
      ∀ locals stack file,
        (Request.node_desc_req.indicate locals stack 7 (knownDevice, file) notFound).1 ≠
          knownDevice := by
  refine ⟨Or.inl (by decide), fun locals stack file => ?_⟩
  have hacc : zdpPred 7 Request.node_desc_req.clusterId notFound := by decide
  rw [Request.indicate, if_pos hacc]
  intro h
  have hdesc : node_desc_req_apdu_process (shift notFound.asdu MSGBODY) =
      knownDevice.nodeDescriptor := (callback_device_eq_self_iff locals stack _ _ file _).mp h
  exact absurd hdesc (by decide)

end KappaGateway.Zdo

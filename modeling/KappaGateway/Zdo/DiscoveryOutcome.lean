import KappaGateway.Aps.ObjectLookups
import KappaGateway.Zdo.Zdo

/-!
# Which discoveries end with an active device

Both ways to discover a device issue their requests one after the other and test what
each returns. A request returns 0 whether or not a response came while it waited, so
that every discovery marks its device active.
-/

namespace KappaGateway.Zdo

open Aps Kutil Kjson FindOrCreate

/-- What a request meets: its sequence number, and the messages that are indicated
while its handler is registered, each with the stack under the callback. -/
structure Window where
  zdpCount : UInt8
  arrivals : List (Text × AfMessage)

/-- A response to the request is among them. -/
def Request.Answered (r : Request) (w : Window) : Prop :=
  ∃ x ∈ w.arrivals, zdpPred w.zdpCount r.clusterId x.2

instance (r : Request) (w : Window) : Decidable (r.Answered w) :=
  inferInstanceAs (Decidable (∃ x ∈ w.arrivals, _))

/-- A discovery under way: the device and the archive, the requests whose callback ran,
and whether the device was marked active. -/
structure Progress where
  device : Device
  archive : Option Doc
  processed : List Request
  activated : Bool

/-- The callback of a request runs. -/
def process (locals : List Endpoint) (r : Request) (p : Progress) (x : Text × AfMessage) :
    Progress :=
  let after := r.callback locals x.1 (p.device, p.archive) x.2
  { p with device := after.1, archive := after.2, processed := r :: p.processed }

/-- `APDU::send`, that is `data_service::request`: it returns when `wait_for` does, and
what `wait_for` says is not used. -/
def send (locals : List Endpoint) (r : Request) (w : Window) (p : Progress) : Progress :=
  w.arrivals.foldl
    (fun p x => if zdpPred w.zdpCount r.clusterId x.2 then process locals r p x else p) p

/-- `node_desc_req`, `active_ep_req` and `simple_desc_req` with the value they return. -/
def Request.issue (locals : List Endpoint) (r : Request) (w : Window) (p : Progress) :
    Int × Progress :=
  (0, send locals r w p)

/-- `getAllEndpointSimpleDesc`, from request number `k` on: `windows` are the windows of
the requests in their order. -/
def getAllEndpointSimpleDesc (locals : List Endpoint) (windows : Nat → Window) (k : Nat) :
    List Endpoint → Int → Progress → Int × Progress
  | [], rtn, p => (rtn, p)
  | x :: rest, rtn, p =>
      if x.id ≠ 0 then
        let (code, p) := (Request.simple_desc_req x.id).issue locals (windows k) p
        getAllEndpointSimpleDesc locals windows (k + 1) rest (if code < 0 then -1 else rtn) p
      else getAllEndpointSimpleDesc locals windows k rest rtn p

/-- The requests of `device_annce_proc` and `deviceQuery`; `failed` is what these do
when one of them returns a negative number. -/
def discover (locals : List Endpoint) (failed : Progress → Progress) (windows : Nat → Window)
    (p : Progress) : Progress :=
  let (code, p) := Request.node_desc_req.issue locals (windows 0) p
  if code < 0 then failed p
  else
    let (code, p) := Request.active_ep_req.issue locals (windows 1) p
    if code < 0 then failed p
    else
      let (code, p) := getAllEndpointSimpleDesc locals windows 2 p.device.endpoints 0 p
      if code < 0 then failed p
      else { p with device := { p.device with active := true }, activated := true }

/-- The two discoveries. -/
inductive Discoverer where
  | device_annce_proc (msg : AfMessage)
  | deviceQuery (shortAddr : UInt16) (extAddr : UInt64)

namespace Discoverer

/-- The device with its addresses set, by its place in the table; none if the
announcement is not accepted. -/
def found (assocs : Devices) : Discoverer → Option (Nat × Devices)
  | .device_annce_proc msg =>
      (message_preprocess_ msg 12).map fun m =>
        let ieee_addr := ieeeAddrAt msg.asdu m.2
        let assoc := Device.assocs_ieee ieee_addr assocs
        (assoc.1, assoc.2.modify assoc.1 fun assoc =>
          { assoc with
            id := m.1
            ieee_id := ieee_addr
            capability := msg.asdu (m.2 + 8) })
  | .deviceQuery shortAddr extAddr =>
      let assoc := Device.assocs shortAddr assocs
      some (assoc.1, assoc.2.modify assoc.1 fun assoc =>
        { assoc with id := shortAddr, ieee_id := extAddr })

/-- The device that is discovered. -/
def device (assocs : Devices) (a : Discoverer) : Option Device :=
  (a.found assocs).bind fun f => f.2[f.1]?

/-- The table before the requests is the one of the operations on it. -/
theorem found_table (assocs : Devices) (a : Discoverer) :
    ((a.found assocs).map Prod.snd).getD assocs =
      match a with
      | .device_annce_proc msg => Zdo.device_annce_proc msg assocs
      | .deviceQuery shortAddr extAddr => Zdo.deviceQuery shortAddr extAddr assocs := by
  cases a with
  | device_annce_proc msg =>
      simp only [found, Zdo.device_annce_proc]
      cases message_preprocess_ msg 12 with
      | none => rfl
      | some m => exact (assocsByIeee_eq_modify _ _ assocs).symm
  | deviceQuery shortAddr extAddr => exact (assocsById_eq_modify _ _ assocs).symm

/-- A whole discovery: the gateway afterwards, and how it went. -/
def run (locals : List Endpoint) (failed : Progress → Progress) (windows : Nat → Window)
    (g : Gateway) (a : Discoverer) : Gateway × Option Progress :=
  match a.found g.assocs with
  | none => (g, none)
  | some (place, assocs) =>
      match assocs[place]? with
      | none => (⟨assocs, g.archive⟩, none)
      | some d =>
          let p := discover locals failed windows ⟨d, g.archive, [], false⟩
          (⟨assocs.set place p.device, p.archive⟩, some p)

end Discoverer

/-- The device was marked active only after the responses about it and about all its
endpoints but 0 were processed. -/
def Progress.ActiveOnlyDiscovered (p : Progress) : Prop :=
  p.activated → .node_desc_req ∈ p.processed ∧ .active_ep_req ∈ p.processed ∧
    ∀ e ∈ p.device.endpoints, e.id ≠ 0 → .simple_desc_req e.id ∈ p.processed

/-- The messages that the predicate of a request accepts. -/
def accepted (r : Request) (w : Window) : List (Text × AfMessage) :=
  w.arrivals.filter fun x => zdpPred w.zdpCount r.clusterId x.2

/-- The endpoints of the device once the responses to `active_ep_req` are in. -/
def listedEndpoints (w : Window) (d : Device) : List Endpoint :=
  (accepted .active_ep_req w).foldl
    (fun endpoints x => active_ep_req_apdu_process endpoints (shift x.2.asdu MSGBODY)) d.endpoints

/-- The requests for simple descriptors, by the ids of the endpoints. -/
def described (ids : List UInt8) : List Request :=
  (ids.filter (· ≠ 0)).map Request.simple_desc_req

/-- The requests of a discovery in their order. -/
def requests (windows : Nat → Window) (d : Device) : List Request :=
  .node_desc_req :: .active_ep_req ::
    described ((listedEndpoints (windows 1) d).map Endpoint.id)

/-- One of the times that the request is made, counted from `k` on, it is answered. -/
def AnsweredFrom (windows : Nat → Window) (k : Nat) (rs : List Request) (r : Request) : Prop :=
  ∃ j, rs[j]? = some r ∧ r.Answered (windows (k + j))

section

variable {locals : List Endpoint} {failed : Progress → Progress} {windows : Nat → Window}
  {w : Window} {p : Progress} {r : Request} {k : Nat} {rs : List Request}

/-! ### One request -/

theorem send_eq (locals : List Endpoint) (r : Request) (w : Window) (p : Progress) :
    send locals r w p = (accepted r w).foldl (process locals r) p :=
  List.foldl_filter.symm

theorem answered_iff : r.Answered w ↔ accepted r w ≠ [] := by
  simp [Request.Answered, accepted, List.filter_eq_nil_iff]

@[simp] theorem send_activated : (send locals r w p).activated = p.activated := by
  rw [send_eq]
  induction accepted r w generalizing p with
  | nil => rfl
  | cons x xs ih => exact ih

theorem mem_processed_foldl (xs : List (Text × AfMessage)) (r' : Request) :
    r' ∈ (xs.foldl (process locals r) p).processed ↔ r' ∈ p.processed ∨ r' = r ∧ xs ≠ [] := by
  induction xs generalizing p with
  | nil => simp
  | cons x xs ih =>
      rw [List.foldl_cons, ih]
      simp only [process, List.mem_cons]
      tauto

theorem mem_processed_send (r' : Request) :
    r' ∈ (send locals r w p).processed ↔ r' ∈ p.processed ∨ r' = r ∧ r.Answered w := by
  rw [send_eq, mem_processed_foldl, answered_iff]

theorem endpoints_send_node :
    (send locals .node_desc_req w p).device.endpoints = p.device.endpoints := by
  rw [send_eq]
  induction accepted .node_desc_req w generalizing p with
  | nil => rfl
  | cons x xs ih => exact ih

theorem endpoints_send_active :
    (send locals .active_ep_req w p).device.endpoints = listedEndpoints w p.device := by
  rw [send_eq, listedEndpoints]
  induction accepted .active_ep_req w generalizing p with
  | nil => rfl
  | cons x xs ih =>
      rw [List.foldl_cons, ih]
      rfl

theorem endpoints_send_simple (ep : UInt8) :
    (send locals (.simple_desc_req ep) w p).device.endpoints.map Endpoint.id =
      p.device.endpoints.map Endpoint.id := by
  rw [send_eq]
  induction accepted (.simple_desc_req ep) w generalizing p with
  | nil => rfl
  | cons x xs ih =>
      rw [List.foldl_cons, ih]
      apply map_modifyFirst_of_forall
      intro e
      rfl

/-! ### All endpoints -/

theorem answeredFrom_nil : ¬ AnsweredFrom windows k [] r := by
  rintro ⟨j, hj, -⟩
  cases hj

theorem answeredFrom_cons {r' : Request} :
    AnsweredFrom windows k (r' :: rs) r ↔
      r = r' ∧ r'.Answered (windows k) ∨ AnsweredFrom windows (k + 1) rs r := by
  constructor
  · rintro ⟨j, hj, hans⟩
    cases j with
    | zero =>
        obtain rfl : r' = r := Option.some.inj hj
        exact Or.inl ⟨rfl, hans⟩
    | succ j => exact Or.inr ⟨j, hj, by rwa [Nat.add_assoc, Nat.add_comm 1 j]⟩
  · rintro (⟨rfl, hans⟩ | ⟨j, hj, hans⟩)
    · exact ⟨0, rfl, hans⟩
    · exact ⟨j + 1, hj, by rwa [Nat.add_assoc, Nat.add_comm 1 j] at hans⟩

/-- What `getAllEndpointSimpleDesc` leaves when it has gone through some endpoints. -/
structure Visited (windows : Nat → Window) (k : Nat) (ids : List UInt8) (rtn : Int)
    (p : Progress) (after : Int × Progress) : Prop where
  code : after.1 = rtn
  activated : after.2.activated = p.activated
  processed : ∀ r, r ∈ after.2.processed ↔
    r ∈ p.processed ∨ AnsweredFrom windows k (described ids) r
  endpoints : after.2.device.endpoints.map Endpoint.id = p.device.endpoints.map Endpoint.id

theorem visited (locals : List Endpoint) (windows : Nat → Window) (k : Nat)
    (endpoints : List Endpoint) (rtn : Int) (p : Progress) :
    Visited windows k (endpoints.map Endpoint.id) rtn p
      (getAllEndpointSimpleDesc locals windows k endpoints rtn p) := by
  induction endpoints generalizing k p with
  | nil =>
      refine ⟨rfl, rfl, fun r => ?_, rfl⟩
      simp [described, getAllEndpointSimpleDesc, answeredFrom_nil]
  | cons x rest ih =>
      rw [getAllEndpointSimpleDesc]
      by_cases hx : x.id = 0
      · have hdescribed : described ((x :: rest).map Endpoint.id) =
            described (rest.map Endpoint.id) := by
          simp [described, hx]
        rw [if_neg (not_not.mpr hx)]
        obtain ⟨hcode, hactivated, hprocessed, hendpoints⟩ := ih k p
        exact ⟨hcode, hactivated, by rwa [hdescribed], hendpoints⟩
      · have hdescribed : described ((x :: rest).map Endpoint.id) =
            .simple_desc_req x.id :: described (rest.map Endpoint.id) := by
          simp [described, hx]
        rw [if_pos hx]
        obtain ⟨hcode, hactivated, hprocessed, hendpoints⟩ :=
          ih (k + 1) (send locals (.simple_desc_req x.id) (windows k) p)
        refine ⟨hcode, hactivated.trans send_activated, fun r => ?_, ?_⟩
        · refine (hprocessed r).trans ?_
          rw [mem_processed_send, hdescribed, answeredFrom_cons, or_assoc]
        · exact hendpoints.trans (endpoints_send_simple x.id)

theorem forall_described {ids : List UInt8} {P : Request → Prop} :
    (∀ r ∈ described ids, P r) ↔ ∀ ep ∈ ids, ep ≠ 0 → P (.simple_desc_req ep) := by
  simp only [described, List.forall_mem_map, List.mem_filter, decide_eq_true_eq, and_imp]

/-! ### The whole discovery -/

/-- Every discovery marks its device active, and has processed the requests that were
answered. -/
structure Discovered (windows : Nat → Window) (p p' : Progress) : Prop where
  activated : p'.activated = true
  processed : ∀ r, r ∈ p'.processed ↔
    r ∈ p.processed ∨ AnsweredFrom windows 0 (requests windows p.device) r
  endpoints : p'.device.endpoints.map Endpoint.id =
    (listedEndpoints (windows 1) p.device).map Endpoint.id

theorem discovered (locals : List Endpoint) (failed : Progress → Progress)
    (windows : Nat → Window) (p : Progress) :
    Discovered windows p (discover locals failed windows p) := by
  let p₁ := send locals .node_desc_req (windows 0) p
  let p₂ := send locals .active_ep_req (windows 1) p₁
  have hlisted : p₂.device.endpoints.map Endpoint.id =
      (listedEndpoints (windows 1) p.device).map Endpoint.id := by
    rw [endpoints_send_active, listedEndpoints, endpoints_send_node]
    rfl
  have hvisited := visited locals windows 2 p₂.device.endpoints 0 p₂
  rw [hlisted] at hvisited
  have hresult : discover locals failed windows p =
      let after := (getAllEndpointSimpleDesc locals windows 2 p₂.device.endpoints 0 p₂).2
      { after with device := { after.device with active := true }, activated := true } := by
    show (if (getAllEndpointSimpleDesc locals windows 2 p₂.device.endpoints 0 p₂).1 < 0 then _
      else _) = _
    rw [hvisited.code]
    rfl
  rw [hresult]
  refine ⟨rfl, fun r => (hvisited.processed r).trans ?_, hvisited.endpoints.trans hlisted⟩
  rw [mem_processed_send, mem_processed_send, requests, answeredFrom_cons, answeredFrom_cons,
    or_assoc, or_assoc]

end

/-- A device is marked active only when it is discovered exactly if each request that
its discovery makes is answered while it waits. -/
theorem active_after_discovery (locals : List Endpoint) (failed : Progress → Progress)
    (windows : Nat → Window) (g : Gateway) (a : Discoverer) :
    (∀ p ∈ (a.run locals failed windows g).2, p.ActiveOnlyDiscovered) ↔
      ∀ d ∈ a.device g.assocs, ∀ r ∈ requests windows d,
        AnsweredFrom windows 0 (requests windows d) r := by
  rw [Discoverer.run, Discoverer.device]
  cases a.found g.assocs with
  | none => simp
  | some f =>
      obtain ⟨place, assocs⟩ := f
      simp only [Option.bind_some]
      cases assocs[place]? with
      | none => simp
      | some d =>
          obtain ⟨hactivated, hprocessed, hendpoints⟩ :=
            discovered locals failed windows ⟨d, g.archive, [], false⟩
          have hmem (r : Request) : r ∈ (discover locals failed windows
              ⟨d, g.archive, [], false⟩).processed ↔
                AnsweredFrom windows 0 (requests windows d) r := by
            simpa using hprocessed r
          have hdescribed : (∀ r ∈ described ((listedEndpoints (windows 1) d).map Endpoint.id),
              AnsweredFrom windows 0 (requests windows d) r) ↔
                ∀ e ∈ (discover locals failed windows ⟨d, g.archive, [], false⟩).device.endpoints,
                  e.id ≠ 0 → AnsweredFrom windows 0 (requests windows d) (.simple_desc_req e.id) := by
            rw [forall_described, ← hendpoints, List.forall_mem_map]
          simp only [Option.mem_def, Option.some.injEq, forall_eq', Progress.ActiveOnlyDiscovered,
            hactivated, forall_const, hmem, ← hdescribed]
          rw [requests, List.forall_mem_cons, List.forall_mem_cons]

/-- A query in whose requests nothing arrives: the device is active, and nothing is
known about it. -/
theorem active_without_response :
    ∃ p, (Discoverer.run [] id (fun _ => ⟨0, []⟩) ⟨[], none⟩ (.deviceQuery 0x1234 1)).2 = some p ∧
      p.device.active = true ∧ p.processed = [] ∧ ¬ p.ActiveOnlyDiscovered := by
  refine ⟨_, rfl, rfl, rfl, ?_⟩
  intro h
  exact absurd (h rfl).1 List.not_mem_nil

end KappaGateway.Zdo

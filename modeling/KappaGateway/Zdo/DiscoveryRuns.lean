import KappaGateway.Zdo.Discovery

/-!
# Runs of a discovery

The responses of a discovery come in any order that the requests allow, from all
devices mixed, and some of them more than once. After any of them, the table and
the archive are determined by which requests have been answered.
-/

namespace KappaGateway.Zdo

open Aps Kutil Kjson ZdoArchive FindOrCreate

/-- A response to a request for a device, and the stack under its callback. -/
structure Response where
  ieeeAddr : UInt64
  request : Request
  message : AfMessage
  stack : Text

/-- Serves responses one after the other. -/
def serveAll (locals : List Endpoint) (s : Gateway) (responses : List Response) : Gateway :=
  responses.foldl (fun s e => serve locals e.stack e.ieeeAddr e.request e.message s) s

/-- The requests for a device that have been answered. -/
def answered (responses : List Response) (ieeeAddr : UInt64) : List Request :=
  (responses.filter (·.ieeeAddr = ieeeAddr)).map Response.request

/-- A response that can come after others: it answers a request that discovery
makes for one of the devices, with its body, and a simple descriptor is asked
for only when the endpoints are listed. -/
structure Response.Follows (devices : Devices) (D : UInt64 → Discovery)
    (before : List Response) (e : Response) : Prop where
  device : e.ieeeAddr ∈ devices.map Device.ieee_id
  asked : (D e.ieeeAddr).Asks e.request
  body : Holds (shift e.message.asdu MSGBODY) ((D e.ieeeAddr).body e.request)
  listed : ∀ ep, e.request = .simple_desc_req ep → .active_ep_req ∈ answered before e.ieeeAddr

/-- Each response can come after those before it. -/
def Orderly (devices : Devices) (D : UInt64 → Discovery) :
    List Response → List Response → Prop
  | _, [] => True
  | before, e :: rest => e.Follows devices D before ∧ Orderly devices D (before ++ [e]) rest

/-- What discovery finds out about an endpoint. -/
def endpointFound (e : Endpoint) : UInt8 × SimpleDescriptor := (e.id, e.simpleDescriptor)

theorem answered_append (responses : List Response) (e : Response) (i : UInt64) :
    answered (responses ++ [e]) i =
      answered responses i ++ if e.ieeeAddr = i then [e.request] else [] := by
  rw [answered, List.filter_append, List.map_append]
  by_cases h : e.ieeeAddr = i
  · simp [answered, h]
  · simp [answered, h]

/-! ### One device -/

/-- The endpoints of a device, as far as the answers describe them. -/
def Discovery.endpoints (D : Discovery) (done : List Request) :
    List (UInt8 × SimpleDescriptor) :=
  if .active_ep_req ∈ done then
    (D.activeEP.foldl endpointPtr []).map fun e =>
      (e.id, if .simple_desc_req e.id ∈ done then D.simpleDescriptor e.id
        else e.simpleDescriptor)
  else []

/-- The device holds what the answered requests have found out. -/
structure Discovery.Describes (D : Discovery) (done : List Request) (d : Device) : Prop where
  asked : ∀ r ∈ done, D.Asks r
  listed : ∀ ep, .simple_desc_req ep ∈ done → .active_ep_req ∈ done
  nodeDescriptor : .node_desc_req ∈ done → d.nodeDescriptor = D.nodeDescriptor
  endpoints : d.endpoints.map endpointFound = D.endpoints done

namespace Discovery

variable {D : Discovery} {done : List Request} {d : Device}

theorem endpoints_of_listed (h : .active_ep_req ∈ done) :
    D.endpoints done = (D.activeEP.foldl endpointPtr []).map fun e =>
      (e.id, if .simple_desc_req e.id ∈ done then D.simpleDescriptor e.id
        else e.simpleDescriptor) := if_pos h

/-- The endpoints that are listed, in the table and from the responses. -/
theorem Describes.ids (h : D.Describes done d) (hlisted : .active_ep_req ∈ done) :
    d.endpoints.map Endpoint.id = (D.activeEP.foldl endpointPtr []).map Endpoint.id := by
  have hids := congrArg (List.map Prod.fst) h.endpoints
  rw [endpoints_of_listed hlisted] at hids
  simpa [endpointFound, Function.comp_def] using hids

/-- Other answers change nothing in the endpoints. -/
theorem endpoints_append_node (D : Discovery) (done : List Request) :
    D.endpoints (done ++ [.node_desc_req]) = D.endpoints done := by
  simp [Discovery.endpoints]

/-- Listing the endpoints again changes nothing. -/
theorem Describes.list (h : D.Describes done d) :
    (D.activeEP.foldl endpointPtr d.endpoints).map endpointFound =
      D.endpoints (done ++ [.active_ep_req]) := by
  rw [endpoints_of_listed (by simp)]
  by_cases hlisted : .active_ep_req ∈ done
  · have hall : ∀ i ∈ D.activeEP, ∃ e ∈ d.endpoints, e.id = i := by
      intro i hi
      exact List.mem_map.mp (h.ids hlisted ▸ ((listed_ids D.activeEP).2 i).mpr hi)
    rw [(foldl_endpointPtr_eq_self_iff _ _).mpr hall, h.endpoints, endpoints_of_listed hlisted]
    simp
  · have hempty : d.endpoints = [] := by
      have hnone := h.endpoints
      rw [Discovery.endpoints, if_neg hlisted] at hnone
      exact List.map_eq_nil_iff.mp hnone
    have hsimple : ∀ ep, .simple_desc_req ep ∉ done := fun ep hep => hlisted (h.listed ep hep)
    simp [hempty, hsimple, endpointFound]

/-- A simple descriptor goes to the endpoint with its id. -/
theorem Describes.describe (h : D.Describes done d) (hlisted : .active_ep_req ∈ done)
    {ep : UInt8} {f : Endpoint → Endpoint}
    (hf : ∀ e, e.id = ep → endpointFound (f e) = (ep, D.simpleDescriptor ep)) :
    (modifyFirst (·.id = ep) f d.endpoints).map endpointFound =
      D.endpoints (done ++ [.simple_desc_req ep]) := by
  have hnodup : (d.endpoints.map Endpoint.id).Nodup := by
    rw [h.ids hlisted]
    exact (listed_ids D.activeEP).1
  let set : UInt8 × SimpleDescriptor → UInt8 × SimpleDescriptor :=
    fun v => if v.1 = ep then (ep, D.simpleDescriptor ep) else v
  have hset : ∀ e, endpointFound (if e.id = ep then f e else e) = set (endpointFound e) := by
    intro e
    by_cases he : e.id = ep
    · simp [set, endpointFound, he, ← hf e he]
    · simp [set, endpointFound, he]
  rw [modifyFirst_eq_map hnodup, List.map_map]
  calc d.endpoints.map (endpointFound ∘ fun e => if e.id = ep then f e else e)
      = (d.endpoints.map endpointFound).map set := by
        rw [List.map_map]
        apply List.map_congr_left
        intro e _
        exact hset e
    _ = (D.endpoints done).map set := by rw [h.endpoints]
    _ = D.endpoints (done ++ [.simple_desc_req ep]) := by
        rw [endpoints_of_listed hlisted, endpoints_of_listed (by simp [hlisted]), List.map_map]
        apply List.map_congr_left
        intro e _
        by_cases he : e.id = ep
        · simp [set, he]
        · simp [set, he]

/-- A response adds what it says. -/
theorem Describes.callback (h : D.Describes done d) {r : Request} (hr : D.Asks r)
    (hlisted : ∀ ep, r = .simple_desc_req ep → .active_ep_req ∈ done) {x : AfMessage}
    (hbody : Holds (shift x.asdu MSGBODY) (D.body r)) (locals : List Endpoint) (stack : Text)
    (file : Option Doc) :
    D.Describes (done ++ [r]) (r.callback locals stack (d, file) x).1 := by
  have hasked : ∀ q ∈ done ++ [r], D.Asks q := by
    simpa [or_imp, forall_and, hr] using h.asked
  have hlist : ∀ ep, .simple_desc_req ep ∈ done ++ [r] → .active_ep_req ∈ done ++ [r] := by
    intro ep hep
    rcases List.mem_append.mp hep with hep | hep
    · exact List.mem_append_left _ (h.listed ep hep)
    · exact List.mem_append_left _ (hlisted ep (List.mem_singleton.mp hep).symm)
  cases r with
  | node_desc_req =>
      refine ⟨hasked, hlist, fun _ => node_desc_eq hbody, ?_⟩
      rw [endpoints_append_node]
      exact h.endpoints
  | active_ep_req =>
      refine ⟨hasked, hlist, fun hnode => h.nodeDescriptor (by simpa using hnode), ?_⟩
      show (active_ep_req_apdu_process d.endpoints _).map _ = _
      rw [active_ep_req_apdu_process, activeEPs_body hbody]
      exact h.list
  | simple_desc_req ep =>
      refine ⟨hasked, hlist, fun hnode => h.nodeDescriptor (by simpa using hnode), ?_⟩
      apply h.describe (hlisted ep rfl)
      intro e he
      have hdesc := simple_desc_eq hr (tail_body hbody)
      simp [endpointFound, aps_newpeer_handle, he, hdesc]

end Discovery

/-! ### The table and the archive -/

/-- The two keys of a device. -/
def deviceKeys (d : Device) : UInt16 × UInt64 := (d.id, d.ieee_id)

theorem Discovery.assignment_congr (D : Discovery) {d d' : Device}
    (h : deviceKeys d = deviceKeys d') (field : Field) :
    D.assignment d field = D.assignment d' field := by
  obtain ⟨hid, hieee⟩ := Prod.mk.inj h
  cases field <;> simp only [assignment, text, hid, hieee]

/-- The assignments made for the answered requests. -/
def Written (devices : Devices) (D : UInt64 → Discovery) (responses : List Response)
    (w : Assignment) : Prop :=
  ∃ d ∈ devices, ∃ r ∈ answered responses d.ieee_id, ∃ field ∈ r.fields,
    w = (D d.ieee_id).assignment d field

/-- The table describes the devices, and the archive has the strings of the
answered requests, as far as the responses have come. -/
structure Discovering (devices : Devices) (D : UInt64 → Discovery) (file : Option Doc)
    (done : List Response) (s : Gateway) : Prop where
  keys : s.assocs.map deviceKeys = devices.map deviceKeys
  describes : ∀ d ∈ s.assocs, (D d.ieee_id).Describes (answered done d.ieee_id) d
  archive : ∃ writes, load s.archive = assignAll writes (load file) ∧
    ∀ w, w ∈ writes ↔ Written devices D done w

namespace Discovering

variable {devices : Devices} {D : UInt64 → Discovery} {file : Option Doc}
  {done : List Response} {s : Gateway}

theorem initial (hfresh : ∀ d ∈ devices, d.endpoints = []) :
    Discovering devices D file [] ⟨devices, file⟩ where
  keys := rfl
  describes := by
    intro d hd
    refine ⟨by simp [answered], by simp [answered], by simp [answered], ?_⟩
    rw [hfresh d hd]
    rfl
  archive := ⟨[], rfl, by simp [Written, answered]⟩

theorem ieee_ids (h : Discovering devices D file done s) :
    s.assocs.map Device.ieee_id = devices.map Device.ieee_id := by
  have hkeys := congrArg (List.map Prod.snd) h.keys
  simpa [deviceKeys, Function.comp_def] using hkeys

theorem written_append (e : Response) {d : Device} (hd : d ∈ devices)
    (hieee : d.ieee_id = e.ieeeAddr) (hunique : (devices.map Device.ieee_id).Nodup)
    (w : Assignment) :
    Written devices D (done ++ [e]) w ↔ Written devices D done w ∨
      w ∈ e.request.fields.map ((D e.ieeeAddr).assignment d) := by
  constructor
  · rintro ⟨d', hd', r, hr, field, hfield, rfl⟩
    rw [answered_append, List.mem_append] at hr
    rcases hr with hr | hr
    · exact Or.inl ⟨d', hd', r, hr, field, hfield, rfl⟩
    · right
      split at hr
      · rename_i hsame
        obtain rfl := List.mem_singleton.mp hr
        obtain rfl := List.inj_on_of_nodup_map hunique hd' hd (hsame.symm.trans hieee.symm)
        exact List.mem_map.mpr ⟨field, hfield, by rw [hieee]⟩
      · simp at hr
  · rintro (⟨d', hd', r, hr, field, hfield, rfl⟩ | hw)
    · refine ⟨d', hd', r, ?_, field, hfield, rfl⟩
      rw [answered_append]
      exact List.mem_append_left _ hr
    · obtain ⟨field, hfield, rfl⟩ := List.mem_map.mp hw
      refine ⟨d, hd, e.request, ?_, field, hfield, by rw [hieee]⟩
      rw [answered_append, if_pos hieee.symm]
      exact List.mem_append_right _ List.mem_cons_self

/-- Serving a response. -/
theorem step (h : Discovering devices D file done s)
    (hunique : (devices.map Device.ieee_id).Nodup) {e : Response}
    (he : e.Follows devices D done) (locals : List Endpoint) :
    Discovering devices D file (done ++ [e])
      (serve locals e.stack e.ieeeAddr e.request e.message s) := by
  have hnodup : (s.assocs.map Device.ieee_id).Nodup := h.ieee_ids ▸ hunique
  obtain ⟨d, hd, hieee⟩ := List.mem_map.mp (h.ieee_ids ▸ he.device)
  obtain ⟨d₀, hd₀, hkeys⟩ : ∃ d₀ ∈ devices, deviceKeys d₀ = deviceKeys d :=
    List.mem_map.mp (h.keys ▸ List.mem_map_of_mem hd)
  have hfind : s.assocs.find? (·.ieee_id = e.ieeeAddr) = some d := by
    cases hfind : s.assocs.find? (·.ieee_id = e.ieeeAddr) with
    | none => exact absurd hieee (by simpa using List.find?_eq_none.mp hfind d hd)
    | some d' =>
        have hd' : d'.ieee_id = e.ieeeAddr := by simpa using List.find?_some hfind
        rw [List.inj_on_of_nodup_map hnodup (List.mem_of_find?_eq_some hfind) hd
          (hd'.trans hieee.symm)]
  have hdesc := h.describes d hd
  rw [hieee] at hdesc
  have hcallback := hdesc.callback he.asked he.listed he.body locals e.stack s.archive
  have hkept := callback_keys locals e.stack e.request d s.archive e.message
  rw [serve, hfind]
  constructor
  · dsimp only
    rw [map_modifyFirst hfind (Prod.ext hkept.1 hkept.2), h.keys]
  · intro x hx
    dsimp only at hx
    rw [modifyFirst_eq_map hnodup] at hx
    obtain ⟨y, hy, rfl⟩ := List.mem_map.mp hx
    split
    · rw [hkept.2, hieee, answered_append, if_pos rfl]
      exact hcallback
    · rename_i hother
      rw [answered_append, if_neg (Ne.symm hother), List.append_nil]
      exact h.describes y hy
  · obtain ⟨writes, hload, hwrites⟩ := h.archive
    refine ⟨writes ++ e.request.fields.map ((D e.ieeeAddr).assignment d₀), ?_, fun w => ?_⟩
    · have hassign : (D e.ieeeAddr).assignment d = (D e.ieeeAddr).assignment d₀ :=
        funext ((D e.ieeeAddr).assignment_congr hkeys.symm)
      dsimp only
      rw [callback_archive, Discovery.archives_eq he.asked he.body, hassign, rewrite, load_some,
        hload, assignAll, assignAll, assignAll, List.map_append, Json.putAll_append]
    · have hieee₀ : d₀.ieee_id = e.ieeeAddr := (Prod.mk.inj hkeys).2.trans hieee
      rw [List.mem_append, hwrites, written_append e hd₀ hieee₀ hunique]

/-- Serving all responses that follow. -/
theorem run (h : Discovering devices D file done s)
    (hunique : (devices.map Device.ieee_id).Nodup) {rest : List Response}
    (hrest : Orderly devices D done rest) (locals : List Endpoint) :
    Discovering devices D file (done ++ rest) (serveAll locals s rest) := by
  induction rest generalizing done s with
  | nil => simpa [serveAll] using h
  | cons e rest ih =>
      have hnext := ih (h.step hunique hrest.1 locals) hrest.2
      rwa [List.append_assoc] at hnext

end Discovering

end KappaGateway.Zdo

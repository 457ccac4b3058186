import KappaGateway.Zdo.DiscoveryRuns

/-!
# Recovery from the archive

After a whole discovery the archive has one entry for each device, with every
string of its discovery in its place. Recovery in a fresh process reads the
entries in any order, and finds out what discovery has found out.
-/

namespace KappaGateway.Zdo

open Aps KeyedList Kutil Kjson ZdoArchive FindOrCreate

/-- A whole discovery of fresh devices with different addresses: responses in
order that answer every request. -/
structure Discovers (devices : Devices) (D : UInt64 → Discovery)
    (responses : List Response) : Prop where
  ids : (devices.map Device.id).Nodup
  ieee_ids : (devices.map Device.ieee_id).Nodup
  fresh : ∀ d ∈ devices, d.endpoints = []
  orderly : Orderly devices D [] responses
  complete : ∀ d ∈ devices, ∀ r, (D d.ieee_id).Asks r → r ∈ answered responses d.ieee_id

/-- What discovery finds out about a device: its addresses, its node descriptor,
and its endpoints in their order with their simple descriptors. -/
def deviceFound (d : Device) :
    (UInt16 × UInt64) × NodeDescriptor × List (UInt8 × SimpleDescriptor) :=
  (deviceKeys d, d.nodeDescriptor, d.endpoints.map endpointFound)

/-! ### One entry -/

/-- The entry has the string of every response for the device. -/
def Entry (D : Discovery) (d : Device) (dev : Doc) : Prop :=
  ∀ r, D.Asks r → ∀ field ∈ r.fields, dev.look field.path = some (.string (D.text d field))

theorem elem_of_look {key : Text} {j v : Doc} (h : j.look [key] = some v) :
    elem key j = some v := by
  obtain ⟨w, hw, hv⟩ := Option.bind_eq_some_iff.mp h
  cases hv
  exact elem_of_member hw

theorem archivedSimpleDesc_of_look {dev v : Doc} {ep : UInt8}
    (h : dev.look (Field.simpleDesc ep).path = some v) : archivedSimpleDesc dev ep = some v := by
  obtain ⟨endpointList, hlist, h⟩ := Option.bind_eq_some_iff.mp h
  obtain ⟨endpoint, hep, h⟩ := Option.bind_eq_some_iff.mp h
  rw [archivedSimpleDesc, elem_of_member hlist, Option.bind_some, elem_of_member hep,
    Option.bind_some]
  exact elem_of_look h

namespace Entry

variable {D : Discovery} {d : Device} {dev : Doc}

theorem ieeeAddr (h : Entry D d dev) : toInteger (elem (cstr "ieeeAddr") dev) = d.ieee_id := by
  have hlook := h .node_desc_req trivial .ieeeAddr (by simp [Request.fields])
  have hread := toInteger_intToHexStr (Nat.le_refl 8) d.ieee_id.toNat_lt
  rw [elem_of_look hlook]
  exact hread.trans (UInt64.ofNat_toNat)

theorem nwkAddr (h : Entry D d dev) :
    (toInteger (elem (cstr "nwkAddr") dev)).toUInt16 = d.id := by
  have hlook := h .node_desc_req trivial .nwkAddr (by simp [Request.fields])
  have hread := toInteger_intToHexStr (show 2 ≤ 8 by decide) d.id.toNat_lt
  rw [elem_of_look hlook]
  apply UInt16.toNat_inj.mp
  rw [Discovery.text, nwkAddrStr, hread]
  simp

/-- The endpoints are recovered in the order in which the device has listed them. -/
theorem activeEp (h : Entry D d dev) (beyond : Text → Beyond) :
    active_ep_req_apdu_process [] (decoded (beyond (cstr "ActiveEndpointApduString"))
      (toText (elem (cstr "ActiveEndpointApduString") dev))) =
      D.activeEP.foldl endpointPtr [] := by
  have hlook := h .active_ep_req trivial .activeEp (by simp [Request.fields])
  have hids := Discovery.activeEPs_body (D := D)
    (decoded_holds (beyond (cstr "ActiveEndpointApduString")) _)
  rw [elem_of_look hlook, active_ep_req_apdu_process]
  exact congrArg (List.foldl endpointPtr []) hids

/-- A recovered endpoint, if the device has listed it. -/
theorem simpleDesc (h : Entry D d dev) {done : List Request} (hdone : ∀ r, r ∈ done ↔ D.Asks r)
    (locals : List Endpoint) (beyond : Text → Beyond) {e : Endpoint} (he : e.id ∈ D.activeEP) :
    endpointFound (recoverSimpleDesc locals beyond dev e) =
      (e.id, if .simple_desc_req e.id ∈ done then D.simpleDescriptor e.id
        else e.simpleDescriptor) := by
  by_cases hzero : e.id = 0
  · have hnot : ¬ D.Asks (.simple_desc_req e.id) := fun hasks => hasks.2 hzero
    simp [recoverSimpleDesc, hzero, hdone, hzero ▸ hnot, endpointFound]
  · have hasks : D.Asks (.simple_desc_req e.id) := ⟨he, hzero⟩
    have hlook := h _ hasks (.simpleDesc e.id) (by simp [Request.fields])
    have htext : toText (archivedSimpleDesc dev e.id) = kByteToHexString (D.simpleDesc e.id) := by
      rw [archivedSimpleDesc_of_look hlook]
      rfl
    have hpos : 0 < (kByteToHexString (D.simpleDesc e.id)).length := by
      rw [kByteToHexString_length, (D.simpleDesc_length e.id he hzero).1, simpleDescSize]
      omega
    have hdesc := Discovery.simple_desc_eq hasks
      (decoded_holds (beyond (epStr e.id)) (D.simpleDesc e.id))
    rw [recoverSimpleDesc, htext, if_pos ⟨hzero, hpos⟩, hdesc, if_pos ((hdone _).mpr hasks)]
    rfl

/-- What recovery makes of an entry. -/
theorem recovered (h : Entry D d dev) {done : List Request} (hdone : ∀ r, r ∈ done ↔ D.Asks r)
    (locals : List Endpoint) (beyond : Text → Beyond) :
    deviceFound (recoverDevice locals beyond dev (.new d.id)) =
      (deviceKeys d, D.nodeDescriptor, D.endpoints done) := by
  have hnode := h .node_desc_req trivial .nodeDesc (by simp [Request.fields])
  refine Prod.ext ?_ (Prod.ext ?_ ?_)
  · exact Prod.ext rfl h.ieeeAddr
  · show node_desc_req_apdu_process _ = _
    rw [elem_of_look hnode]
    exact Discovery.node_desc_eq (decoded_holds _ _)
  · have heach : ∀ e ∈ D.activeEP.foldl endpointPtr [],
        endpointFound (recoverSimpleDesc locals beyond dev e) =
          (e.id, if .simple_desc_req e.id ∈ done then D.simpleDescriptor e.id
            else e.simpleDescriptor) := by
      intro e he
      apply h.simpleDesc hdone locals beyond
      exact ((listed_ids D.activeEP).2 e.id).mp (List.mem_map_of_mem he)
    calc (recoverDevice locals beyond dev (.new d.id)).endpoints.map endpointFound
        = ((D.activeEP.foldl endpointPtr []).map
            (recoverSimpleDesc locals beyond dev)).map endpointFound := by
          rw [← h.activeEp beyond]
          rfl
      _ = (D.activeEP.foldl endpointPtr []).map
            (endpointFound ∘ recoverSimpleDesc locals beyond dev) := List.map_map
      _ = (D.activeEP.foldl endpointPtr []).map fun e =>
            (e.id, if .simple_desc_req e.id ∈ done then D.simpleDescriptor e.id
              else e.simpleDescriptor) := List.map_congr_left heach
      _ = D.endpoints done := by
        rw [Discovery.endpoints_of_listed ((hdone .active_ep_req).mpr trivial)]

end Entry

/-! ### The whole archive -/

section

variable {devices : Devices} {D : UInt64 → Discovery} {responses : List Response}
  {writes : List Assignment}

/-- The assignments of all discoveries agree. -/
theorem written_consistent (hunique : (devices.map Device.ieee_id).Nodup)
    (hwrites : ∀ w, w ∈ writes ↔ Written devices D responses w) :
    Json.Consistent (writes.map fun a => (a.1, (.string a.2 : Doc))) := by
  intro a ha b hb
  obtain ⟨wa, hwa, rfl⟩ := List.mem_map.mp ha
  obtain ⟨wb, hwb, rfl⟩ := List.mem_map.mp hb
  obtain ⟨d, hd, r, hr, f, hf, rfl⟩ := (hwrites wa).mp hwa
  obtain ⟨d', hd', r', hr', g, hg, rfl⟩ := (hwrites wb).mp hwb
  by_cases hieee : d.ieee_id = d'.ieee_id
  · obtain rfl := List.inj_on_of_nodup_map hunique hd hd' hieee
    by_cases hfg : f = g
    · exact Or.inl (by rw [hfg])
    · exact Or.inr fun _ => Field.apart hfg
  · right
    intro heq
    exact absurd (ieeeAddrStr_injective heq) hieee

/-- The archive is an object with a key for each device. -/
theorem Discovers.keys (h : Discovers devices D responses)
    (hwrites : ∀ w, w ∈ writes ↔ Written devices D responses w) :
    ∃ entries, assignAll writes (.object []) = .object entries ∧ KeyedList.Unique entries ∧
      ∀ k, k ∈ entries.map Prod.fst ↔ k ∈ devices.map fun d => ieeeAddrStr d.ieee_id := by
  have hpaths : ∀ w ∈ writes.map fun a => (a.1, (.string a.2 : Doc)), w.1 ≠ [] := by
    intro w hw
    obtain ⟨a, ha, rfl⟩ := List.mem_map.mp hw
    obtain ⟨d, -, r, -, f, -, rfl⟩ := (hwrites a).mp ha
    exact List.cons_ne_nil _ _
  obtain ⟨entries, hput, hunique, hkeys⟩ := Json.putAll_object hpaths unique_nil
  refine ⟨entries, hput, hunique, fun k => ?_⟩
  rw [hkeys]
  constructor
  · rintro (hnil | ⟨w, hw, hk⟩)
    · simp at hnil
    · obtain ⟨a, ha, rfl⟩ := List.mem_map.mp hw
      obtain ⟨d, hd, r, -, f, -, rfl⟩ := (hwrites a).mp ha
      exact List.mem_map.mpr ⟨d, hd, Option.some.inj hk⟩
  · intro hk
    obtain ⟨d, hd, rfl⟩ := List.mem_map.mp hk
    have hmem : (D d.ieee_id).assignment d .ieeeAddr ∈ writes :=
      (hwrites _).mpr ⟨d, hd, .node_desc_req, h.complete d hd _ trivial, .ieeeAddr,
        by simp [Request.fields], rfl⟩
    exact Or.inr ⟨_, List.mem_map_of_mem hmem, rfl⟩

/-- The value at the key of a device has all its strings. -/
theorem Discovers.entry (h : Discovers devices D responses)
    (hwrites : ∀ w, w ∈ writes ↔ Written devices D responses w) {entries : List (Text × Doc)}
    (hput : assignAll writes (.object []) = .object entries) {d : Device} (hd : d ∈ devices) :
    Entry (D d.ieee_id) d ((valueAt (ieeeAddrStr d.ieee_id) entries).getD .null) := by
  intro r hr f hf
  have hmem : (D d.ieee_id).assignment d f ∈ writes :=
    (hwrites _).mpr ⟨d, hd, r, h.complete d hd r hr, f, hf, rfl⟩
  have hlook := Json.look_putAll_of_mem (written_consistent h.ieee_ids hwrites)
    (fun w _ => Json.open_object_nil w.1) (List.mem_map_of_mem hmem)
  rw [← assignAll, hput] at hlook
  obtain ⟨dev, hdev, hlook⟩ := Option.bind_eq_some_iff.mp hlook
  have hvalue : valueAt (ieeeAddrStr d.ieee_id) entries = some dev := hdev
  rw [hvalue]
  exact hlook

/-! ### Recovery -/

/-- The short address of an entry, under which recovery looks the device up. -/
def shortAddr (entry : Text × Doc) : UInt16 :=
  (toInteger (elem (cstr "nwkAddr") entry.2)).toUInt16

/-- Recovery visits the entries of the document; a missing file has none. -/
theorem recoverEndpoint_load {file : Option Doc} {entries : List (Text × Doc)}
    (hload : load file = .object entries) {iterate : List (Text × Doc) → List (Text × Doc)}
    (hiterate : ∀ m, (iterate m).Perm m) (locals : List Endpoint)
    (beyond : Text → Text → Beyond) (assocs : Devices) :
    recoverEndpoint locals beyond iterate file assocs =
      (iterate entries).foldl (recoverEntry locals beyond) assocs := by
  cases file with
  | none =>
      obtain rfl : entries = [] := (Json.object.inj hload).symm
      rw [(hiterate []).eq_nil]
      rfl
  | some zar =>
      rw [load_some] at hload
      rw [hload]
      rfl

/-- Entries with different short addresses are recovered as new devices. -/
theorem foldl_recoverEntry (locals : List Endpoint) (beyond : Text → Text → Beyond)
    {entries : List (Text × Doc)} (h : (entries.map shortAddr).Nodup) :
    entries.foldl (recoverEntry locals beyond) [] =
      (entries.map fun entry =>
        recoverDevice locals (beyond entry.1) entry.2 (.new (shortAddr entry))).reverse := by
  have hfold := foldl_upsert_fresh Device.id shortAddr (fun entry => .new (shortAddr entry))
    (fun entry => recoverDevice locals (beyond entry.1) entry.2) (fun _ => rfl) h
    (l := []) (by simp)
  rw [List.append_nil] at hfold
  exact hfold

/-- After a discovery the requests of a device have been answered, and no others. -/
theorem Discovers.answered_iff (h : Discovers devices D responses) {file : Option Doc}
    {s : Gateway} (hs : Discovering devices D file responses s) {d : Device} (hd : d ∈ devices)
    (r : Request) : r ∈ answered responses d.ieee_id ↔ (D d.ieee_id).Asks r := by
  constructor
  · obtain ⟨d', hd', hkeys⟩ := List.mem_map.mp (hs.keys ▸ List.mem_map_of_mem hd)
    have hieee : d'.ieee_id = d.ieee_id := (Prod.mk.inj hkeys).2
    exact hieee ▸ (hs.describes d' hd').asked r
  · exact h.complete d hd r

/-- What discovery has found out, device by device. -/
theorem Discovers.found (h : Discovers devices D responses) {file : Option Doc} {s : Gateway}
    (hs : Discovering devices D file responses s) :
    s.assocs.map deviceFound = devices.map fun d =>
      (deviceKeys d, (D d.ieee_id).nodeDescriptor,
        (D d.ieee_id).endpoints (answered responses d.ieee_id)) := by
  let found (keys : UInt16 × UInt64) :=
    (keys, (D keys.2).nodeDescriptor, (D keys.2).endpoints (answered responses keys.2))
  have hlive : ∀ d ∈ s.assocs, deviceFound d = found (deviceKeys d) := by
    intro d hd
    have hdesc := hs.describes d hd
    obtain ⟨d₀, hd₀, hkeys⟩ := List.mem_map.mp (hs.keys ▸ List.mem_map_of_mem hd)
    have hieee : d₀.ieee_id = d.ieee_id := (Prod.mk.inj hkeys).2
    have hnode := hdesc.nodeDescriptor (hieee ▸ h.complete d₀ hd₀ _ trivial)
    rw [deviceFound, hnode, hdesc.endpoints]
    rfl
  calc s.assocs.map deviceFound
      = (s.assocs.map deviceKeys).map found := by
        rw [List.map_map]
        exact List.map_congr_left hlive
    _ = (devices.map deviceKeys).map found := by rw [hs.keys]
    _ = devices.map (found ∘ deviceKeys) := List.map_map

/-- Recovery in a fresh process, from the archive that a whole discovery leaves,
finds out for each device what discovery has found out. -/
theorem archive_round_trip (h : Discovers devices D responses) {file : Option Doc}
    (hfile : load file = .object []) (locals locals' : List Endpoint)
    (beyond : Text → Text → Beyond) {iterate : List (Text × Doc) → List (Text × Doc)}
    (hiterate : ∀ m, (iterate m).Perm m) :
    let s := serveAll locals ⟨devices, file⟩ responses
    ((recoverEndpoint locals' beyond iterate s.archive []).map deviceFound).Perm
      (s.assocs.map deviceFound) := by
  intro s
  have hs : Discovering devices D file responses s :=
    (Discovering.initial h.fresh).run h.ieee_ids h.orderly locals
  obtain ⟨writes, hload, hwrites⟩ := hs.archive
  obtain ⟨entries, hput, hunique, hkeys⟩ := h.keys hwrites
  rw [hfile, hput] at hload
  let entry (d : Device) : Doc := (valueAt (ieeeAddrStr d.ieee_id) entries).getD .null
  have hentry : ∀ d ∈ devices, Entry (D d.ieee_id) d (entry d) :=
    fun d hd => h.entry hwrites hput hd
  have hnodup : (devices.map fun d => ieeeAddrStr d.ieee_id).Nodup := by
    have hmap := h.ieee_ids.map (fun _ _ => ieeeAddrStr_injective)
    rwa [List.map_map] at hmap
  have hperm : (iterate entries).Perm
      (devices.map fun d => (ieeeAddrStr d.ieee_id, entry d)) :=
    (hiterate entries).trans (hunique.perm_map hnodup hkeys .null)
  have hshort : ((iterate entries).map shortAddr).Nodup := by
    have hids : devices.map (fun d => shortAddr (ieeeAddrStr d.ieee_id, entry d)) =
        devices.map Device.id := List.map_congr_left fun d hd => (hentry d hd).nwkAddr
    rw [(hperm.map shortAddr).nodup_iff, List.map_map, Function.comp_def, hids]
    exact h.ids
  have hfound : ∀ d ∈ devices,
      deviceFound (recoverDevice locals' (beyond (ieeeAddrStr d.ieee_id)) (entry d)
        (.new (shortAddr (ieeeAddrStr d.ieee_id, entry d)))) =
      (deviceKeys d, (D d.ieee_id).nodeDescriptor,
        (D d.ieee_id).endpoints (answered responses d.ieee_id)) := by
    intro d hd
    have hrecovered := (hentry d hd).recovered (h.answered_iff hs hd) locals'
      (beyond (ieeeAddrStr d.ieee_id))
    rw [shortAddr, (hentry d hd).nwkAddr, hrecovered]
  rw [recoverEndpoint_load hload hiterate, foldl_recoverEntry locals' beyond hshort, h.found hs]
  rw [List.map_reverse, List.map_map]
  have hmapped := hperm.map (deviceFound ∘ fun entry =>
    recoverDevice locals' (beyond entry.1) entry.2 (.new (shortAddr entry)))
  rw [List.map_map] at hmapped
  refine (List.reverse_perm _).trans (hmapped.trans ?_)
  exact List.Perm.of_eq (List.map_congr_left hfound)

end

/-- A device with one endpoint, which has one in cluster. -/
def lamp : Discovery where
  nodeDesc := [0x02, 0x40, 0x8E, 0x6D, 0x11, 0x52, 0x80, 0, 0, 0, 0x80, 0, 0]
  activeEP := [1]
  simpleDesc _ := [1, 0x04, 0x01, 0x00, 0x01, 0, 1, 0x06, 0x00, 0]
  nodeDesc_length := rfl
  activeEP_length := by decide
  simpleDesc_length _ _ _ := ⟨rfl, by decide⟩

/-- A device with two endpoints, one with two in clusters and one with an out cluster. -/
def socket : Discovery where
  nodeDesc := [0x01, 0x40, 0x8E, 0x5E, 0x11, 0x50, 0x80, 0, 0, 0, 0x50, 0, 0]
  activeEP := [3, 2]
  simpleDesc ep :=
    if ep = 2 then [2, 0x04, 0x01, 0x51, 0x00, 0, 2, 0x06, 0x00, 0x02, 0x07, 0]
    else [3, 0x04, 0x01, 0x09, 0x00, 0, 0, 1, 0x06, 0x00]
  nodeDesc_length := rfl
  activeEP_length := by decide
  simpleDesc_length ep hep _ := by
    rcases List.mem_pair.mp hep with rfl | rfl
    · decide
    · decide

def lampDevice : Device := { Device.new 0x1234 with ieee_id := 0x00124B0001020304 }

def socketDevice : Device := { Device.new 0x5678 with ieee_id := 0x00124B0005060708 }

def lampAndSocket (ieeeAddr : UInt64) : Discovery :=
  if ieeeAddr = lampDevice.ieee_id then lamp else socket

/-- The response to a request for a device. -/
def responseOf (d : Device) (r : Request) : Response where
  ieeeAddr := d.ieee_id
  request := r
  message := ⟨0x8000 ||| r.clusterId, 0, 4,
    inMemory ([7, 0, d.id.toUInt8, (d.id >>> 8).toUInt8] ++ (lampAndSocket d.ieee_id).body r)⟩
  stack := []

/-- The responses of both devices, crossing. -/
def bothDiscovered : List Response :=
  [responseOf lampDevice .node_desc_req, responseOf socketDevice .active_ep_req,
    responseOf socketDevice .node_desc_req, responseOf lampDevice .active_ep_req,
    responseOf socketDevice (.simple_desc_req 2), responseOf lampDevice (.simple_desc_req 1),
    responseOf socketDevice (.simple_desc_req 3)]

theorem responseOf_follows {d : Device} (hd : d ∈ [lampDevice, socketDevice]) (r : Request)
    (hr : (lampAndSocket d.ieee_id).Asks r) {before : List Response}
    (hlisted : ∀ ep, r = .simple_desc_req ep → .active_ep_req ∈ answered before d.ieee_id) :
    (responseOf d r).Follows [lampDevice, socketDevice] lampAndSocket before where
  device := List.mem_map_of_mem hd
  asked := hr
  body := by
    apply holds_of_apply
    intro i hi
    rw [shift, Nat.add_comm]
    rfl
  listed := hlisted

theorem bothDiscovered_orderly :
    Orderly [lampDevice, socketDevice] lampAndSocket [] bothDiscovered := by
  have hlamp : lampDevice ∈ [lampDevice, socketDevice] := by decide
  have hsocket : socketDevice ∈ [lampDevice, socketDevice] := by decide
  refine ⟨responseOf_follows hlamp .node_desc_req trivial ?_,
    responseOf_follows hsocket .active_ep_req trivial ?_,
    responseOf_follows hsocket .node_desc_req trivial ?_,
    responseOf_follows hlamp .active_ep_req trivial ?_,
    responseOf_follows hsocket (.simple_desc_req 2) ⟨by decide, by decide⟩ ?_,
    responseOf_follows hlamp (.simple_desc_req 1) ⟨by decide, by decide⟩ ?_,
    responseOf_follows hsocket (.simple_desc_req 3) ⟨by decide, by decide⟩ ?_, trivial⟩
  · exact fun ep h => Request.noConfusion h
  · exact fun ep h => Request.noConfusion h
  · exact fun ep h => Request.noConfusion h
  · exact fun ep h => Request.noConfusion h
  · exact fun ep _ => by decide
  · exact fun ep _ => by decide
  · exact fun ep _ => by decide

/-- The discovery of two devices is recovered from an archive that was missing, whose entries
are visited in the reverse order. -/
theorem archive_round_trip_lampAndSocket :
    let s := serveAll [] ⟨[lampDevice, socketDevice], none⟩ bothDiscovered
    ((recoverEndpoint [] (fun _ _ => ⟨fun _ => 0, fun _ => 0⟩) List.reverse s.archive []).map
      deviceFound).Perm (s.assocs.map deviceFound) := by
  refine archive_round_trip (D := lampAndSocket) ?_ rfl [] [] _ List.reverse_perm
  constructor
  · decide
  · decide
  · decide
  · exact bothDiscovered_orderly
  · intro d hd r hr
    rcases List.mem_pair.mp hd with rfl | rfl
    · cases r with
      | node_desc_req | active_ep_req => decide
      | simple_desc_req ep =>
          obtain rfl : ep = 1 := List.mem_singleton.mp hr.1
          decide
    · cases r with
      | node_desc_req | active_ep_req => decide
      | simple_desc_req ep =>
          obtain rfl | rfl : ep = 3 ∨ ep = 2 := List.mem_pair.mp hr.1
          · decide
          · decide

end KappaGateway.Zdo

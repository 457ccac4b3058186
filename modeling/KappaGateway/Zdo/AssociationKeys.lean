import KappaGateway.Lib.Transition
import KappaGateway.Zdo.Zdo

/-!
# The two keys of the association table

Every operation on the table looks a device up by one of its addresses and then
sets both. The other address is never looked up, so that it may be the address
of another entry already.
-/

namespace KappaGateway.Zdo

open Aps Kutil Kjson ZdoArchive FindOrCreate Transition

/-- The operations on the table, and the responses that come in between. -/
inductive Action where
  | device_annce_proc (msg : AfMessage)
  | deviceQuery (shortAddr : UInt16) (extAddr : UInt64)
  | refreshDevice (shortAddr : UInt16) (extAddr : UInt64)
  | recoverEntry (beyond : Text → Text → Beyond) (entry : Text × Doc)
  | mgmt_Leave_req (ieeeAddr : UInt64)
  | response (stack : Text) (ieeeAddr : UInt64) (r : Request) (x : AfMessage)

def next (locals : List Endpoint) (s : Gateway) : Action → Gateway
  | .device_annce_proc msg => { s with assocs := device_annce_proc msg s.assocs }
  | .deviceQuery shortAddr extAddr =>
      { s with assocs := deviceQuery shortAddr extAddr s.assocs }
  | .refreshDevice shortAddr extAddr =>
      { s with assocs := refreshDevice shortAddr extAddr s.assocs }
  | .recoverEntry beyond entry =>
      { s with assocs := recoverEntry locals beyond s.assocs entry }
  | .mgmt_Leave_req ieeeAddr =>
      ⟨mgmt_Leave_req ieeeAddr s.assocs, removeDev ieeeAddr s.archive⟩
  | .response stack ieeeAddr r x => serve locals stack ieeeAddr r x s

/-- `recoverEndpoint` takes one step for each entry of the archive. -/
theorem recoverEndpoint_eq_play (locals : List Endpoint) (beyond : Text → Text → Beyond)
    (iterate : List (Text × Doc) → List (Text × Doc)) (entries : List (Text × Doc))
    (s : Gateway) :
    (play (next locals) s ((iterate entries).map (.recoverEntry beyond))).2.assocs =
      recoverEndpoint locals beyond iterate (some (.object entries)) s.assocs := by
  rw [recoverEndpoint]
  induction iterate entries generalizing s with
  | nil => rfl
  | cons entry rest ih =>
      simp only [List.map_cons, play, List.foldl_cons]
      exact ih _

/-- No two entries have the same short address, and no two the same IEEE address. -/
def KeysUnique (assocs : Devices) : Prop :=
  (assocs.map Device.id).Nodup ∧ (assocs.map Device.ieee_id).Nodup

instance (assocs : Devices) : Decidable (KeysUnique assocs) :=
  inferInstanceAs (Decidable (_ ∧ _))

/-- The addresses that the operation brings together belong to one device: no
other entry has the address that the operation does not look up. -/
def Free : Gateway × Action × Gateway → Prop
  | (s, .device_annce_proc msg, _) =>
      ∀ m ∈ message_preprocess_ msg 12, ∀ d ∈ s.assocs,
        d.id = m.1 → d.ieee_id = ieeeAddrAt msg.asdu m.2
  | (s, .deviceQuery shortAddr extAddr, _) =>
      ∀ d ∈ s.assocs, d.ieee_id = extAddr → d.id = shortAddr
  | (s, .refreshDevice shortAddr extAddr, _) =>
      ∀ d ∈ s.assocs, d.ieee_id = extAddr → d.id = shortAddr
  | (s, .recoverEntry _ entry, _) =>
      ∀ d ∈ s.assocs, d.ieee_id = toInteger (elem (cstr "ieeeAddr") entry.2) →
        d.id = (toInteger (elem (cstr "nwkAddr") entry.2)).toUInt16
  | (_, .mgmt_Leave_req _, _) => True
  | (_, .response _ _ _ _, _) => True

variable {assocs : Devices}

theorem KeysUnique.filter (h : KeysUnique assocs) (p : Device → Bool) :
    KeysUnique (assocs.filter p) :=
  ⟨h.1.sublist ((List.filter_sublist).map _), h.2.sublist ((List.filter_sublist).map _)⟩

/-- Setting both addresses of the device with an IEEE address. -/
theorem assocsByIeee_unique_iff (h : KeysUnique assocs) {a : UInt16} {i : UInt64}
    {f : Device → Device} (hf : ∀ d, (f d).id = a ∧ (f d).ieee_id = i) :
    KeysUnique (assocsByIeee i f assocs) ↔ ∀ d ∈ assocs, d.id = a → d.ieee_id = i := by
  rw [KeysUnique, and_comm]
  exact upsert_unique_iff (hf _).symm (fun d _ => (hf d).symm) h.2 h.1

/-- Setting both addresses of the device with a short address. -/
theorem assocsById_unique_iff (h : KeysUnique assocs) {a : UInt16} {i : UInt64}
    {f : Device → Device} (hf : ∀ d, d.id = a → (f d).id = a ∧ (f d).ieee_id = i) :
    KeysUnique (assocsById a f assocs) ↔ ∀ d ∈ assocs, d.ieee_id = i → d.id = a :=
  upsert_unique_iff (hf _ rfl) hf h.1 h.2

theorem device_annce_proc_unique_iff (h : KeysUnique assocs) (msg : AfMessage) :
    KeysUnique (device_annce_proc msg assocs) ↔
      ∀ m ∈ message_preprocess_ msg 12, ∀ d ∈ assocs,
        d.id = m.1 → d.ieee_id = ieeeAddrAt msg.asdu m.2 := by
  rw [device_annce_proc]
  cases message_preprocess_ msg 12 with
  | none => simpa using h
  | some m =>
      simp only [Option.mem_def, Option.some.injEq, forall_eq']
      exact assocsByIeee_unique_iff h fun _ => ⟨rfl, rfl⟩

theorem deviceQuery_unique_iff (h : KeysUnique assocs) (a : UInt16) (i : UInt64) :
    KeysUnique (deviceQuery a i assocs) ↔ ∀ d ∈ assocs, d.ieee_id = i → d.id = a := by
  rw [deviceQuery]
  exact assocsById_unique_iff h fun _ _ => ⟨rfl, rfl⟩

theorem recoverEntry_unique_iff (h : KeysUnique assocs) (locals : List Endpoint)
    (beyond : Text → Text → Beyond) (entry : Text × Doc) :
    KeysUnique (recoverEntry locals beyond assocs entry) ↔
      ∀ d ∈ assocs, d.ieee_id = toInteger (elem (cstr "ieeeAddr") entry.2) →
        d.id = (toInteger (elem (cstr "nwkAddr") entry.2)).toUInt16 := by
  rw [recoverEntry]
  exact assocsById_unique_iff h fun _ hid => ⟨hid, rfl⟩

theorem refreshDevice_unique_iff (h : KeysUnique assocs) (a : UInt16) (i : UInt64) :
    KeysUnique (refreshDevice a i assocs) ↔ ∀ d ∈ assocs, d.ieee_id = i → d.id = a := by
  have hremoved : KeysUnique (removeAssoc a assocs) := h.filter _
  rw [refreshDevice, deviceQuery_unique_iff hremoved]
  constructor
  · intro hfree d hd heq
    by_contra hne
    exact hne (hfree d (by simp [removeAssoc, hd, hne]) heq)
  · intro hfree d hd heq
    exact hfree d (List.mem_of_mem_filter hd) heq

/-- A device that is not in the table is created and removed again. -/
theorem mgmt_Leave_req_unique (h : KeysUnique assocs) (i : UInt64) :
    KeysUnique (mgmt_Leave_req i assocs) := by
  rw [mgmt_Leave_req, assocsByIeee]
  obtain ⟨habsent, hnew⟩ | ⟨before, d, after, rfl, -, -, hset⟩ :=
    upsert_cases (·.ieee_id = i) (Device.new i.toUInt16) assocs
  · have hfind : assocs.find? (·.ieee_id = i) = none := List.find?_eq_none.mpr habsent
    rw [hnew, hfind]
    have hfilter : removeAssoc (Device.new i.toUInt16).id (Device.new i.toUInt16 :: assocs) =
        removeAssoc (Device.new i.toUInt16).id assocs := by
      simp [removeAssoc]
    exact hfilter ▸ h.filter _
  · rw [hset]
    exact h.filter _

theorem serve_unique (h : KeysUnique assocs) (locals : List Endpoint) (stack : Text)
    (i : UInt64) (r : Request) (x : AfMessage) (file : Option Doc) :
    KeysUnique (serve locals stack i r x ⟨assocs, file⟩).assocs := by
  rw [serve]
  cases hfind : assocs.find? (·.ieee_id = i) with
  | none => exact h
  | some d =>
      obtain ⟨hid, hieee⟩ := callback_keys locals stack r d file x
      dsimp only
      constructor
      · rw [map_modifyFirst hfind (by exact hid)]
        exact h.1
      · rw [map_modifyFirst hfind (by exact hieee)]
        exact h.2

theorem keysUnique_iff_free (locals : List Endpoint) {s : Gateway} (h : KeysUnique s.assocs)
    (a : Action) : KeysUnique (next locals s a).assocs ↔ Free (s, a, next locals s a) := by
  cases a with
  | device_annce_proc msg => exact device_annce_proc_unique_iff h msg
  | deviceQuery shortAddr extAddr => exact deviceQuery_unique_iff h shortAddr extAddr
  | refreshDevice shortAddr extAddr => exact refreshDevice_unique_iff h shortAddr extAddr
  | recoverEntry beyond entry => exact recoverEntry_unique_iff h locals beyond entry
  | mgmt_Leave_req i => exact iff_of_true (mgmt_Leave_req_unique h i) trivial
  | response stack i r x => exact iff_of_true (serve_unique h locals stack i r x _) trivial

/-- From an empty table, the keys are unique after every step of any sequence of
operations exactly if no operation gives a device an address of another one. -/
theorem association_keys (locals : List Endpoint) (archive : Option Doc)
    (actions : List Action) :
    (∀ e ∈ (play (next locals) ⟨[], archive⟩ actions).1, KeysUnique e.2.2.assocs) ↔
      ∀ e ∈ (play (next locals) ⟨[], archive⟩ actions).1, Free e := by
  have path : Path (fun s a t => True ∧ t = next locals s a) ⟨[], archive⟩ _ _ :=
    play_path actions fun _ _ => trivial
  have each : ∀ s a t, KeysUnique s.assocs → True ∧ t = next locals s a →
      (KeysUnique t.assocs ↔ Free (s, a, t)) := by
    rintro s a t h ⟨-, rfl⟩
    exact keysUnique_iff_free locals h a
  exact path.forall_iff each (fun _ _ _ _ _ hgood => hgood) ⟨List.nodup_nil, List.nodup_nil⟩

/-- The announcement of a device with the short address 0x1234. -/
def announcement (ieeeAddr : UInt8) : AfMessage :=
  ⟨0x0013, 0, 12, fun i =>
    if i = 1 then 0x34 else if i = 2 then 0x12 else if i = 3 then ieeeAddr else 0⟩

/-- The network gives a short address to another device. -/
theorem association_keys_reassigned :
    ¬ ∀ e ∈ (play (next []) ⟨[], none⟩
        [.device_annce_proc (announcement 1), .device_annce_proc (announcement 2)]).1,
      KeysUnique e.2.2.assocs := by
  decide

/-! ### Leaving -/

/-- A device that is not in the table is removed again, and all devices with the
short address it was given. -/
theorem mgmt_Leave_req_of_unknown {i : UInt64} (h : ∀ d ∈ assocs, d.ieee_id ≠ i) :
    mgmt_Leave_req i assocs = assocs.filter (·.id ≠ i.toUInt16) := by
  have habsent : ∀ d ∈ assocs, ¬ decide (d.ieee_id = i) = true := by simpa using h
  have hfind : assocs.find? (·.ieee_id = i) = none := List.find?_eq_none.mpr habsent
  have hnew : assocsByIeee i id assocs = Device.new i.toUInt16 :: assocs :=
    upsert_of_none habsent _ _
  rw [mgmt_Leave_req, hfind, hnew]
  exact List.filter_cons_of_neg (by simp)

/-- With unique addresses, a device in the table is removed alone. -/
theorem mgmt_Leave_req_of_known (h : KeysUnique assocs) {i : UInt64} {d : Device}
    (hd : d ∈ assocs) (hieee : d.ieee_id = i) :
    mgmt_Leave_req i assocs = assocs.filter (·.ieee_id ≠ i) := by
  have hany : assocs.any (·.ieee_id = i) := List.any_eq_true.mpr ⟨d, hd, by simpa using hieee⟩
  have hsame : assocsByIeee i id assocs = assocs := by
    rw [assocsByIeee, upsert, if_pos hany, modifyFirst_eq_self_iff]
    exact fun _ _ => rfl
  obtain ⟨found, hfound⟩ : ∃ found, assocs.find? (·.ieee_id = i) = some found :=
    Option.isSome_iff_exists.mp (List.find?_isSome.mpr ⟨d, hd, by simpa using hieee⟩)
  have hfoundieee : found.ieee_id = i := by simpa using List.find?_some hfound
  have hmem : found ∈ assocs := List.mem_of_find?_eq_some hfound
  rw [mgmt_Leave_req, hsame, hfound, Option.getD_some, removeAssoc]
  apply List.filter_congr
  intro e he
  have hiff : e.id = found.id ↔ e.ieee_id = i := by
    constructor
    · intro hid
      rw [List.inj_on_of_nodup_map h.1 he hmem hid, hfoundieee]
    · intro heq
      rw [List.inj_on_of_nodup_map h.2 he hmem (heq.trans hfoundieee.symm)]
  simp [hiff]

/-- The named device leaves alone exactly if it is in the table, or no device has the
low 16 bits of its address as short address. -/
theorem leave_removes_named (h : KeysUnique assocs) (i : UInt64) :
    mgmt_Leave_req i assocs = assocs.filter (·.ieee_id ≠ i) ↔
      (∃ d ∈ assocs, d.ieee_id = i) ∨ ∀ d ∈ assocs, d.id ≠ i.toUInt16 := by
  by_cases hknown : ∃ d ∈ assocs, d.ieee_id = i
  · obtain ⟨d, hd, hieee⟩ := hknown
    exact iff_of_true (mgmt_Leave_req_of_known h hd hieee) (Or.inl ⟨d, hd, hieee⟩)
  · have hunknown : ∀ d ∈ assocs, d.ieee_id ≠ i := by simpa using hknown
    have hall : assocs.filter (·.ieee_id ≠ i) = assocs :=
      List.filter_eq_self.mpr (by simpa using hunknown)
    rw [mgmt_Leave_req_of_unknown hunknown, hall, List.filter_eq_self, or_iff_right hknown]
    simp

/-- Two devices of a table. -/
def twoDevices : Devices :=
  [{ Device.new 0x1234 with ieee_id := 0x00124B0001020304 },
    { Device.new 0x5678 with ieee_id := 0x00124B0005060708 }]

theorem leave_removes_named_known :
    mgmt_Leave_req 0x00124B0001020304 twoDevices =
      twoDevices.filter (·.ieee_id ≠ 0x00124B0001020304) :=
  (leave_removes_named (by decide) _).mpr (Or.inl ⟨_, List.mem_cons_self, rfl⟩)

/-- A device that is not in the table leaves, and takes another one with it. -/
theorem leave_removes_other :
    KeysUnique twoDevices ∧ (∀ d ∈ twoDevices, d.ieee_id ≠ 0x00124B00FFFF5678) ∧
      mgmt_Leave_req 0x00124B00FFFF5678 twoDevices ≠
        twoDevices.filter (·.ieee_id ≠ 0x00124B00FFFF5678) := by
  decide

end KappaGateway.Zdo

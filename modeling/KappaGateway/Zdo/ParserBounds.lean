import KappaGateway.Lib.Scan
import KappaGateway.Lib.Transition
import KappaGateway.Zdo.Discovery

/-!
# What the ZDP parsers read

Each parser reads what lies between the pointer that it gets and the one where it
stops, which only the counts in its input decide. It stays inside the input exactly
if it stops there; nothing compares the two.
-/

namespace KappaGateway.Zdo

open Aps Kutil Kjson ZdoArchive Scan Transition

/-! ### The parsers as walks -/

/-- `ANSITohostInt` into a `uint16_t`. -/
def ANSITohostInt : Scan UInt8 UInt16 := do
  let low ← readNext
  let high ← readNext
  pure (UInt16.ofNat (memoryValue [low, high]))

/-- `node_desc_req_apdu_process`. -/
def nodeDescWalk : Scan UInt8 NodeDescriptor := do
  let type ← readNext
  let flags ← readNext
  let capabilityFlags ← readNext
  let manufacturerCode ← ANSITohostInt
  let maxBufferSize ← readNext
  let maxInTransferSize ← ANSITohostInt
  let serverMask ← ANSITohostInt
  let maxOutTransferSize ← ANSITohostInt
  let descriptorCapability ← readNext
  pure {
    logicalType := type &&& 0x07
    complexDescAvail := (type &&& 0x08) >>> 3
    userDescAvail := (type &&& 0x10) >>> 4
    reserved := (type &&& 0xE0) >>> 5
    apsFlags := flags &&& 0x07
    frequencyBand := (flags &&& 0xF8) >>> 3
    capabilityFlags := capabilityFlags
    manufacturerCode := manufacturerCode
    maxBufferSize := maxBufferSize
    maxInTransferSize := maxInTransferSize
    serverMask := serverMask
    maxOutTransferSize := maxOutTransferSize
    descriptorCapability := descriptorCapability }

/-- `active_ep_req_apdu_process`, as far as it reads. -/
def activeEPsWalk : Scan UInt8 (List UInt8) := do
  let activeEPCount ← readNext
  times activeEPCount.toNat readNext

/-- `simple_desc_req_apdu_process`. -/
def simpleDescWalk : Scan UInt8 SimpleDescriptor := do
  let endpointAddr ← readNext
  let profileId ← ANSITohostInt
  let deviceId ← ANSITohostInt
  let deviceVersion ← readNext
  let inclusterCount ← readNext
  let inclusterList ← times inclusterCount.toNat ANSITohostInt
  let outclusterCount ← readNext
  let outclusterList ← times outclusterCount.toNat ANSITohostInt
  pure {
    outclusterList := outclusterList
    inclusterList := inclusterList
    endpointAddr := endpointAddr
    profileId := profileId
    deviceId := deviceId
    deviceVersion := deviceVersion }

section

variable (m : Nat → UInt8) (i : Nat)

theorem covers_ANSITohostInt : Covers ANSITohostInt m i (hostInt16 m i) (i + 2) :=
  (Covers.readNext m i).bind ((Covers.readNext m (i + 1)).bind (Covers.pure m (i + 2) _))

theorem covers_nodeDescWalk :
    Covers nodeDescWalk m i (node_desc_req_apdu_process (shift m i)) (i + 13) := by
  refine (Covers.readNext m i).bind ?_
  refine (Covers.readNext m (i + 1)).bind ?_
  refine (Covers.readNext m (i + 2)).bind ?_
  refine (covers_ANSITohostInt m (i + 3)).bind ?_
  refine (Covers.readNext m (i + 5)).bind ?_
  refine (covers_ANSITohostInt m (i + 6)).bind ?_
  refine (covers_ANSITohostInt m (i + 8)).bind ?_
  refine (covers_ANSITohostInt m (i + 10)).bind ?_
  refine (Covers.readNext m (i + 12)).bind ?_
  exact Covers.pure m (i + 13) _

theorem covers_activeEPsWalk :
    Covers activeEPsWalk m i (activeEPs (shift m i)) (i + (1 + (m i).toNat)) := by
  refine (Covers.readNext m i).bind ?_
  have htimes : Covers (times (m i).toNat readNext) m (i + 1)
      ((List.range (m i).toNat).map fun k => m (i + 1 + 1 * k)) (i + 1 + 1 * (m i).toNat) :=
    Covers.times (Covers.readNext m) (m i).toNat (i + 1)
  have hvalue : activeEPs (shift m i) =
      (List.range (m i).toNat).map fun k => m (i + 1 + 1 * k) := by
    simp [activeEPs, bytesFrom, shift, Nat.add_assoc]
  have hstop : i + (1 + (m i).toNat) = i + 1 + 1 * (m i).toNat := by omega
  rw [hvalue, hstop]
  exact htimes

theorem covers_clusterList (count : Nat) :
    Covers (times count ANSITohostInt) m i (clusterList m i count) (i + 2 * count) :=
  Covers.times (covers_ANSITohostInt m) count i

theorem covers_simpleDescWalk :
    Covers simpleDescWalk m i (simple_desc_req_apdu_process (shift m i))
      (i + simpleDescSize (shift m i)) := by
  have hstop : i + simpleDescSize (shift m i) =
      i + 8 + 2 * (m (i + 6)).toNat + 2 * (m (i + 7 + 2 * (m (i + 6)).toNat)).toNat := by
    simp only [simpleDescSize, shift, Nat.add_assoc]
    omega
  rw [hstop]
  refine (Covers.readNext m i).bind ?_
  refine (covers_ANSITohostInt m (i + 1)).bind ?_
  refine (covers_ANSITohostInt m (i + 3)).bind ?_
  refine (Covers.readNext m (i + 5)).bind ?_
  refine (Covers.readNext m (i + 6)).bind ?_
  refine (covers_clusterList m (i + 7) _).bind ?_
  refine (Covers.readNext m _).bind ?_
  refine (covers_clusterList m _ _).bind ?_
  have hpos : i + 7 + 2 * (m (i + 6)).toNat + 1 = i + 8 + 2 * (m (i + 6)).toNat := by omega
  have hvalue : simple_desc_req_apdu_process (shift m i) =
      ⟨clusterList m (i + 8 + 2 * (m (i + 6)).toNat) (m (i + 7 + 2 * (m (i + 6)).toNat)).toNat,
        clusterList m (i + 7) (m (i + 6)).toNat, m i, hostInt16 m (i + 1), hostInt16 m (i + 3),
        m (i + 5)⟩ := by
    simp only [simple_desc_req_apdu_process, clusterList, hostInt16, shift, Nat.add_assoc,
      Nat.add_zero]
  rw [hvalue, hpos]
  exact Covers.pure m _ _

end

/-! ### Responses -/

/-- The offsets of the ASDU that the callback of a request reads or hands on to
`saveDevApdu` or `saveEndpointApdu`. -/
def Request.touches (x : AfMessage) : Request → List Nat
  | .node_desc_req => List.range' MSGBODY 13 ++ (nodeDescWalk x.asdu MSGBODY).reads
  | .active_ep_req =>
      4 :: List.range' MSGBODY ((x.asdu 4).toNat + 1) ++ (activeEPsWalk x.asdu MSGBODY).reads
  | .simple_desc_req _ =>
      4 :: List.range' (MSGBODY + 1) (x.asdu 4).toNat ++
        (simpleDescWalk x.asdu (MSGBODY + 1)).reads

/-- Everything that the callback touches lies within the ASDU. -/
def Request.Inside (x : AfMessage) (r : Request) : Prop := ∀ k ∈ r.touches x, k < x.asduLen.toNat

/-- The ASDU is as long as the counts in it say. -/
def Request.Fits (x : AfMessage) : Request → Prop
  | .node_desc_req => MSGBODY + 13 ≤ x.asduLen.toNat
  | .active_ep_req => MSGBODY + (1 + (x.asdu 4).toNat) ≤ x.asduLen.toNat
  | .simple_desc_req _ =>
      MSGBODY + 1 + (x.asdu 4).toNat ≤ x.asduLen.toNat ∧
        MSGBODY + 1 + simpleDescSize (shift x.asdu (MSGBODY + 1)) ≤ x.asduLen.toNat

theorem range'_below {start count n : Nat} :
    (∀ k ∈ List.range' start count, k < n) ↔ count = 0 ∨ start + count ≤ n := by
  simp only [List.mem_range'_1]
  constructor
  · intro h
    by_cases hcount : count = 0
    · exact Or.inl hcount
    · have hlast := h (start + (count - 1)) (by omega)
      omega
  · intro h k hk
    omega

theorem request_inside_iff (x : AfMessage) (r : Request) : r.Inside x ↔ r.Fits x := by
  cases r with
  | node_desc_req =>
      have hwalk := (covers_nodeDescWalk x.asdu MSGBODY).within_iff (n := x.asduLen.toNat) (by omega)
      simp only [Request.Inside, Request.touches, Request.Fits, List.forall_mem_append, range'_below,
        hwalk]
      omega
  | active_ep_req =>
      have hwalk := (covers_activeEPsWalk x.asdu MSGBODY).within_iff (n := x.asduLen.toNat)
        (by omega)
      simp only [Request.Inside, Request.touches, Request.Fits, List.cons_append,
        List.forall_mem_cons, List.forall_mem_append, range'_below, hwalk]
      simp only [MSGBODY]
      omega
  | simple_desc_req ep =>
      have hsize : 8 ≤ simpleDescSize (shift x.asdu (MSGBODY + 1)) := Nat.le_add_right 8 _
      have hwalk := (covers_simpleDescWalk x.asdu (MSGBODY + 1)).within_iff (n := x.asduLen.toNat)
        (by omega)
      simp only [Request.Inside, Request.touches, Request.Fits, List.cons_append,
        List.forall_mem_cons, List.forall_mem_append, range'_below, hwalk]
      simp only [MSGBODY] at hsize ⊢
      omega

/-! ### The archive -/

/-- A vector of the archive that a parser walks through. -/
structure VectorWalk where
  size : Nat
  reads : List Nat

def VectorWalk.Inside (w : VectorWalk) : Prop := ∀ k ∈ w.reads, k < w.size

/-- A parser on the vector that a text is decoded to. -/
def vectorWalk {α : Type} (walk : Scan UInt8 α) (beyond : Beyond) (str : Text) : VectorWalk :=
  ⟨(hexStrToByteVec str beyond.text).length, (walk (decoded beyond str) 0).reads⟩

section

variable (beyond : Text → Beyond) (dev : Doc)

/-- The texts of an entry that `recoverEndpoint` decodes. -/
def nodeDescText : Text := toText (elem (cstr "NodeDescApduString") dev)

def activeEPText : Text := toText (elem (cstr "ActiveEndpointApduString") dev)

def simpleDescText (ep : UInt8) : Text := toText (archivedSimpleDesc dev ep)

/-- The endpoints of the device once the active ones are listed. -/
def recoveredEndpoints (assoc : Device) : List Endpoint :=
  active_ep_req_apdu_process assoc.endpoints
    (decoded (beyond (cstr "ActiveEndpointApduString")) (activeEPText dev))

/-- The endpoints whose simple descriptor is decoded. -/
def Described (ep : Endpoint) : Prop := ep.id ≠ 0 ∧ 0 < (simpleDescText dev ep.id).length

instance (ep : Endpoint) : Decidable (Described dev ep) := by
  unfold Described
  infer_instance

/-- The walks of `recoverEndpoint` for the device of an entry. -/
def recoverWalks (assoc : Device) : List VectorWalk :=
  vectorWalk nodeDescWalk (beyond (cstr "NodeDescApduString")) (nodeDescText dev) ::
    vectorWalk activeEPsWalk (beyond (cstr "ActiveEndpointApduString")) (activeEPText dev) ::
    ((recoveredEndpoints beyond dev assoc).filter (Described dev)).map fun ep =>
      vectorWalk simpleDescWalk (beyond (epStr ep.id)) (simpleDescText dev ep.id)

/-- Every vector is as long as the counts in it say. -/
structure EntryFits (assoc : Device) : Prop where
  node_desc : 13 ≤ (hexStrToByteVec (nodeDescText dev)
    (beyond (cstr "NodeDescApduString")).text).length
  active_ep : 1 + (decoded (beyond (cstr "ActiveEndpointApduString")) (activeEPText dev) 0).toNat ≤
    (hexStrToByteVec (activeEPText dev) (beyond (cstr "ActiveEndpointApduString")).text).length
  simple_desc : ∀ ep ∈ recoveredEndpoints beyond dev assoc, Described dev ep →
    simpleDescSize (decoded (beyond (epStr ep.id)) (simpleDescText dev ep.id)) ≤
      (hexStrToByteVec (simpleDescText dev ep.id) (beyond (epStr ep.id)).text).length

end

/-- A parser on a vector stays inside exactly if it stops there. -/
theorem vectorWalk_inside {α : Type} {walk : Scan UInt8 α} {beyond : Beyond} {str : Text}
    {a : α} {size : Nat} (h : Covers walk (decoded beyond str) 0 a (0 + size)) (hsize : 0 < size) :
    (vectorWalk walk beyond str).Inside ↔ size ≤ (hexStrToByteVec str beyond.text).length := by
  rw [Nat.zero_add] at h
  exact h.within_iff hsize

theorem shift_zero (m : Nat → UInt8) : shift m 0 = m := by
  ext i
  rw [shift, Nat.zero_add]

theorem entry_inside_iff (beyond : Text → Beyond) (dev : Doc) (assoc : Device) :
    (∀ w ∈ recoverWalks beyond dev assoc, w.Inside) ↔ EntryFits beyond dev assoc := by
  have hsimple (ep : Endpoint) :
      (vectorWalk simpleDescWalk (beyond (epStr ep.id)) (simpleDescText dev ep.id)).Inside ↔
        simpleDescSize (decoded (beyond (epStr ep.id)) (simpleDescText dev ep.id)) ≤
          (hexStrToByteVec (simpleDescText dev ep.id) (beyond (epStr ep.id)).text).length := by
    have hcovers := covers_simpleDescWalk
      (decoded (beyond (epStr ep.id)) (simpleDescText dev ep.id)) 0
    rw [shift_zero] at hcovers
    exact vectorWalk_inside hcovers (Nat.lt_of_lt_of_le (by decide) (Nat.le_add_right 8 _))
  have hnode := vectorWalk_inside (covers_nodeDescWalk
    (decoded (beyond (cstr "NodeDescApduString")) (nodeDescText dev)) 0) (by decide)
  have hactive := vectorWalk_inside (covers_activeEPsWalk
    (decoded (beyond (cstr "ActiveEndpointApduString")) (activeEPText dev)) 0)
    (Nat.lt_of_lt_of_le Nat.one_pos (Nat.le_add_right 1 _))
  simp only [recoverWalks, List.forall_mem_cons, List.forall_mem_map, List.mem_filter,
    decide_eq_true_eq, hnode, hactive, hsimple]
  constructor
  · rintro ⟨hnode, hactive, hdesc⟩
    exact ⟨hnode, hactive, fun ep hep hdescribed => hdesc ep ⟨hep, hdescribed⟩⟩
  · rintro ⟨hnode, hactive, hdesc⟩
    exact ⟨hnode, hactive, fun ep hep => hdesc ep hep.1 hep.2⟩

/-- The device that `recoverEndpoint` works on for an entry. -/
def assocOf (assocs : Devices) (dev : Doc) : Device :=
  let id := (toInteger (elem (cstr "nwkAddr") dev)).toUInt16
  (assocs.find? (·.id = id)).getD (.new id)

section

variable (locals : List Endpoint) (beyond : Text → Text → Beyond)
  (iterate : List (Text × Doc) → List (Text × Doc)) (file : Option Doc) (assocs : Devices)

/-- The steps of `recoverEndpoint`, each with the devices before and after it. -/
def recoverSteps : List (Devices × (Text × Doc) × Devices) :=
  match file with
  | some (.object entries) => (play (recoverEntry locals beyond) assocs (iterate entries)).1
  | _ => []

theorem play_snd {σ α : Type*} (step : σ → α → σ) (s : σ) (actions : List α) :
    (play step s actions).2 = actions.foldl step s := by
  induction actions generalizing s with
  | nil => rfl
  | cons a rest ih => exact ih (step s a)

/-- The step of an entry recovers the device whose vectors are walked through. -/
theorem recoverEntry_eq (entry : Text × Doc) :
    ∃ before after, recoverEntry locals beyond assocs entry =
      before ++ recoverDevice locals (beyond entry.1) entry.2 (assocOf assocs entry.2) :: after := by
  obtain ⟨hnone, hnew⟩ | ⟨before, x, after, rfl, hx, hbefore, hset⟩ :=
    FindOrCreate.upsert_cases
      (fun d : Device => d.id = (toInteger (elem (cstr "nwkAddr") entry.2)).toUInt16)
      (.new (toInteger (elem (cstr "nwkAddr") entry.2)).toUInt16) assocs
  · refine ⟨[], assocs, ?_⟩
    rw [assocOf, List.find?_eq_none.mpr hnone]
    exact hnew _
  · refine ⟨before, after, ?_⟩
    have hfind : (x :: after).find? (fun d : Device =>
        d.id = (toInteger (elem (cstr "nwkAddr") entry.2)).toUInt16) = some x :=
      List.find?_cons_of_pos hx
    rw [assocOf, List.find?_append, List.find?_eq_none.mpr hbefore, Option.none_or, hfind]
    exact hset _

/-- The last step ends with what `recoverEndpoint` leaves. -/
theorem recoverEndpoint_eq_recoverSteps {entries : List (Text × Doc)}
    (h : file = some (.object entries)) :
    recoverEndpoint locals beyond iterate file assocs =
      (play (recoverEntry locals beyond) assocs (iterate entries)).2 := by
  rw [h, play_snd]
  rfl

end

/-- A response that a callback gets, or an archive that `recoverEndpoint` reads. -/
inductive Input where
  | response (r : Request) (x : AfMessage)
  | archive (locals : List Endpoint) (beyond : Text → Text → Beyond)
      (iterate : List (Text × Doc) → List (Text × Doc)) (file : Option Doc) (assocs : Devices)

def Input.Inside : Input → Prop
  | .response r x => r.Inside x
  | .archive locals beyond iterate file assocs =>
      ∀ e ∈ recoverSteps locals beyond iterate file assocs,
        ∀ w ∈ recoverWalks (beyond e.2.1.1) e.2.1.2 (assocOf e.1 e.2.1.2), w.Inside

def Input.Fits : Input → Prop
  | .response r x => r.Fits x
  | .archive locals beyond iterate file assocs =>
      ∀ e ∈ recoverSteps locals beyond iterate file assocs,
        EntryFits (beyond e.2.1.1) e.2.1.2 (assocOf e.1 e.2.1.2)

/-- The parsers stay inside a response, or the vectors of an archive, exactly if these
are as long as the counts in them say. -/
theorem parsers_stay_inside (input : Input) : input.Inside ↔ input.Fits := by
  cases input with
  | response r x => exact request_inside_iff x r
  | archive locals beyond iterate file assocs =>
      apply forall₂_congr
      intro e he
      exact entry_inside_iff (beyond e.2.1.1) e.2.1.2 (assocOf e.1 e.2.1.2)

/-- A response of four bytes with status DEVICE_NOT_FOUND, for every request, and an
archive entry without texts. -/
theorem parsers_leave_input :
    (∀ r : Request, ¬ r.Inside ⟨0x8002, 0, 4, fun i => [7, 0x81, 0x34, 0x12].getD i 0⟩) ∧
      ¬ Input.Inside (.archive [] (fun _ _ => ⟨fun _ => 0, fun _ => 0⟩) id
        (some (.object [(cstr "00124b0001020304", .object [])])) []) := by
  constructor
  · intro r hinside
    have hfour : ∃ k ∈ r.touches ⟨0x8002, 0, 4, fun i => [7, 0x81, 0x34, 0x12].getD i 0⟩, 4 ≤ k := by
      cases r with
      | node_desc_req => exact ⟨4, by decide, by decide⟩
      | active_ep_req => exact ⟨4, by decide, by decide⟩
      | simple_desc_req ep => exact ⟨4, List.mem_cons_self, by decide⟩
    obtain ⟨k, hk, hle⟩ := hfour
    exact absurd (hinside k hk) (Nat.not_lt.mpr hle)
  · intro hinside
    have hfirst := hinside _ List.mem_cons_self _ List.mem_cons_self 0 (by decide)
    revert hfirst
    decide

end KappaGateway.Zdo

import KappaGateway.Lib.FindOrCreate

/-!
# Devices and endpoints

The object model of `apsdb`: devices with their descriptors and endpoints, kept
in singly linked lists that new entries join at the front.
-/

namespace KappaGateway.Aps

open FindOrCreate

/-- `NodeDescriptor_t`; the bit fields hold values of their width. -/
structure NodeDescriptor where
  logicalType : UInt8
  complexDescAvail : UInt8
  userDescAvail : UInt8
  reserved : UInt8
  apsFlags : UInt8
  frequencyBand : UInt8
  capabilityFlags : UInt8
  manufacturerCode : UInt16
  maxBufferSize : UInt8
  maxInTransferSize : UInt16
  serverMask : UInt16
  maxOutTransferSize : UInt16
  descriptorCapability : UInt8
  deriving DecidableEq

structure SimpleDescriptor where
  outclusterList : List UInt16
  inclusterList : List UInt16
  endpointAddr : UInt8
  profileId : UInt16
  deviceId : UInt16
  deviceVersion : UInt8
  deriving DecidableEq

/-- An endpoint; `localPeer` is the id of an endpoint of this device. -/
structure Endpoint where
  id : UInt8
  simpleDescriptor : SimpleDescriptor
  localPeer : Option UInt8
  deriving DecidableEq

/-- `Endpoint::Endpoint`. -/
def Endpoint.new (i : UInt8) : Endpoint := ⟨i, ⟨[], [], 0, 0, 0, 0⟩, none⟩

/-- A device associated with this one. -/
structure Device where
  id : UInt16
  ieee_id : UInt64
  capability : UInt8
  nodeDescriptor : NodeDescriptor
  endpoints : List Endpoint
  active : Bool
  deriving DecidableEq

/-- `Device::Device`. -/
def Device.new (i : UInt16) : Device :=
  ⟨i, 0, 0, ⟨0, 0, 0, 0, 0, 0, 0, 0, 0, 0, 0, 0, 0⟩, [], false⟩

abbrev Devices := List Device

/-- `assocs(uint16_t)`, and what is done to the device it returns. -/
def assocsById (i : UInt16) (f : Device → Device) (assocs : Devices) : Devices :=
  upsert (·.id = i) (.new i) f assocs

/-- `assocs(uint64_t)`, and what is done to the device it returns. A new device
is constructed from the low 16 bits of the address. -/
def assocsByIeee (i : UInt64) (f : Device → Device) (assocs : Devices) : Devices :=
  upsert (·.ieee_id = i) (.new i.toUInt16) f assocs

/-- `removeAssoc`. -/
def removeAssoc (i : UInt16) (assocs : Devices) : Devices := assocs.filter (·.id ≠ i)

/-- `endpointPtr`. -/
def endpointPtr (endpoints : List Endpoint) (i : UInt8) : List Endpoint :=
  upsert (·.id = i) (.new i) id endpoints

/-! ### Listing endpoints -/

theorem endpointPtr_of_mem {endpoints : List Endpoint} {i : UInt8}
    (h : ∃ e ∈ endpoints, e.id = i) : endpointPtr endpoints i = endpoints := by
  obtain ⟨e, he, hi⟩ := h
  have hany : endpoints.any (·.id = i) := List.any_eq_true.mpr ⟨e, he, by simpa using hi⟩
  rw [endpointPtr, upsert, if_pos hany, modifyFirst_eq_self_iff]
  exact fun _ _ => rfl

theorem endpointPtr_of_not_mem {endpoints : List Endpoint} {i : UInt8}
    (h : ¬ ∃ e ∈ endpoints, e.id = i) :
    endpointPtr endpoints i = Endpoint.new i :: endpoints := by
  have hany : ¬ endpoints.any (·.id = i) := by simpa using h
  rw [endpointPtr, upsert, if_neg hany]
  rfl

theorem foldl_endpointPtr_eq_self_iff (endpoints : List Endpoint) (ids : List UInt8) :
    ids.foldl endpointPtr endpoints = endpoints ↔
      ∀ i ∈ ids, ∃ e ∈ endpoints, e.id = i := by
  have hlookup : endpointPtr = fun list i => (lookup (·.id = i) (.new i) list).2 := by
    ext list i
    rw [endpointPtr, upsert_id]
  rw [hlookup]
  exact foldl_lookup_eq_self_iff Endpoint.new endpoints ids

theorem endpointPtr_ids (endpoints : List Endpoint) (i : UInt8) :
    (endpointPtr endpoints i).map Endpoint.id =
      if i ∈ endpoints.map Endpoint.id then endpoints.map Endpoint.id
      else i :: endpoints.map Endpoint.id := by
  by_cases h : ∃ e ∈ endpoints, e.id = i
  · rw [endpointPtr_of_mem h, if_pos (List.mem_map.mpr h)]
  · rw [endpointPtr_of_not_mem h, if_neg fun hmem => h (List.mem_map.mp hmem)]
    rfl

/-- Listing endpoints keeps their ids unique, and adds those that are listed. -/
theorem foldl_endpointPtr_ids {endpoints : List Endpoint} (ids : List UInt8)
    (h : (endpoints.map Endpoint.id).Nodup) :
    ((ids.foldl endpointPtr endpoints).map Endpoint.id).Nodup ∧
      ∀ i, i ∈ (ids.foldl endpointPtr endpoints).map Endpoint.id ↔
        i ∈ endpoints.map Endpoint.id ∨ i ∈ ids := by
  induction ids generalizing endpoints with
  | nil => exact ⟨h, by simp⟩
  | cons j rest ih =>
      have hnext : ((endpointPtr endpoints j).map Endpoint.id).Nodup := by
        rw [endpointPtr_ids]
        split
        · exact h
        · rename_i hj
          exact List.nodup_cons.mpr ⟨hj, h⟩
      obtain ⟨hnodup, hmem⟩ := ih hnext
      refine ⟨hnodup, fun i => ?_⟩
      rw [List.foldl_cons, hmem, endpointPtr_ids]
      split
      · rename_i hj
        constructor
        · exact Or.imp_right (List.mem_cons_of_mem j)
        · rintro (hi | hi)
          · exact Or.inl hi
          · rcases List.mem_cons.mp hi with rfl | hi
            · exact Or.inl hj
            · exact Or.inr hi
      · simp [or_assoc, or_left_comm]

/-- The endpoints that are listed on a device without any. -/
theorem listed_ids (ids : List UInt8) :
    ((ids.foldl endpointPtr []).map Endpoint.id).Nodup ∧
      ∀ i, i ∈ (ids.foldl endpointPtr []).map Endpoint.id ↔ i ∈ ids := by
  have hempty : (([] : List Endpoint).map Endpoint.id).Nodup := List.nodup_nil
  simpa using foldl_endpointPtr_ids ids hempty

end KappaGateway.Aps

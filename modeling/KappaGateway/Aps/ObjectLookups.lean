import KappaGateway.Aps.ObjectModels

/-!
# Lookups in the object model

`find_if` returns the first entry that its predicate accepts, or constructs one at
the front of the list. Predicate and constructor arguments are given separately,
so that the new entry need not be one that the predicate accepts: a device that is
looked up by its IEEE address is constructed with a short address.
-/

namespace KappaGateway.Aps

open FindOrCreate

/-- `exist`. -/
def exist {T : Type*} (list : List T) (pred : T → Bool) : Bool := list.any pred

/-- `AttributeValueDefault`. -/
structure AttributeValueDefault where
  data : List UInt8
  size : Nat
  typeId : UInt8
  deriving DecidableEq

structure Attribute where
  id : UInt16
  value : AttributeValueDefault
  deriving DecidableEq

/-- `Attribute::Attribute`: the byte of the value is not initialized. -/
def Attribute.new (data : UInt8) (i : UInt16) : Attribute := ⟨i, ⟨[data], 1, 0⟩⟩

structure Cluster where
  id : UInt16
  attributes : List Attribute
  deriving DecidableEq

/-- `Cluster::Cluster`. -/
def Cluster.new (i : UInt16) : Cluster := ⟨i, []⟩

namespace Device

/-- `assocs(uint16_t)`. -/
def assocs (i : UInt16) (list : Devices) : Nat × Devices := lookup (·.id = i) (.new i) list

/-- `assocs(uint64_t)`: the constructor takes the low 16 bits. -/
def assocs_ieee (i : UInt64) (list : Devices) : Nat × Devices :=
  lookup (·.ieee_id = i) (.new i.toUInt16) list

/-- `assocExist(uint16_t)`. -/
def assocExist (i : UInt16) (list : Devices) : Bool := exist list (·.id = i)

/-- `assocExist(uint64_t)`. -/
def assocExist_ieee (i : UInt64) (list : Devices) : Bool := exist list (·.ieee_id = i)

/-- `Device::endpoints(uint8_t)`. -/
def endpointAt (i : UInt8) (list : List Endpoint) : Nat × List Endpoint :=
  lookup (·.id = i) (.new i) list

/-- `Device::endpointPtr`. -/
def endpointPtr (i : UInt8) (list : List Endpoint) : Nat × List Endpoint :=
  lookup (·.id = i) (.new i) list

def endpointExist (i : UInt8) (list : List Endpoint) : Bool := exist list (·.id = i)

end Device

/-- `Endpoint::clusters(uint16_t)`. -/
def Endpoint.clusters (i : UInt16) (list : List Cluster) : Nat × List Cluster :=
  lookup (·.id = i) (.new i) list

/-- `Endpoint::clusterPtr`. -/
def Endpoint.clusterPtr (i : UInt16) (list : List Cluster) : Nat × List Cluster :=
  lookup (·.id = i) (.new i) list

/-- `Cluster::attributes(uint16_t)`. -/
def Cluster.attributesAt (data : UInt8) (i : UInt16) (list : List Attribute) :
    Nat × List Attribute :=
  lookup (·.id = i) (.new data i) list

/-- The operations on a device that was looked up change the entry that the lookup
returns. -/
theorem assocsById_eq_modify (i : UInt16) (f : Device → Device) (list : Devices) :
    assocsById i f list = (Device.assocs i list).2.modify (Device.assocs i list).1 f :=
  upsert_eq_modify_lookup _ _ _ _

theorem assocsByIeee_eq_modify (i : UInt64) (f : Device → Device) (list : Devices) :
    assocsByIeee i f list =
      (Device.assocs_ieee i list).2.modify (Device.assocs_ieee i list).1 f :=
  upsert_eq_modify_lookup _ _ _ _

theorem endpointPtr_eq_lookup (i : UInt8) (list : List Endpoint) :
    endpointPtr list i = (Device.endpointPtr i list).2 :=
  upsert_id _ _ _

/-- The find-or-create law, with the test for existence that goes with the lookup. -/
structure FindOrCreateLaw {T κ : Type*} (key : T → κ) (find : κ → List T → Nat × List T)
    (test : κ → List T → Bool) (k : κ) (list : List T) : Prop where
  lawful : Lawful key find k list
  exists_after : test k (find k list).2 = true

section

variable {list : Devices}

theorem assocs_lawful (h : (list.map Device.id).Nodup) (k : UInt16) :
    FindOrCreateLaw Device.id Device.assocs Device.assocExist k list := by
  have hlaw : Lawful Device.id Device.assocs k list := lawful (fun _ => rfl) h
  exact ⟨hlaw, hlaw.exists_key⟩

/-- A device that is not there is constructed without an IEEE address. -/
theorem assocs_ieee_lawful_iff (h : (list.map Device.ieee_id).Nodup) (k : UInt64) :
    FindOrCreateLaw Device.ieee_id Device.assocs_ieee Device.assocExist_ieee k list ↔
      k = 0 ∨ ∃ d ∈ list, d.ieee_id = k := by
  have hiff : Lawful Device.ieee_id Device.assocs_ieee k list ↔
      (Device.new k.toUInt16).ieee_id = k ∨ ∃ d ∈ list, d.ieee_id = k := lawful_iff h
  rw [show (Device.new k.toUInt16).ieee_id = 0 from rfl, eq_comm (a := 0)] at hiff
  rw [← hiff]
  exact ⟨fun hlaw => hlaw.lawful, fun hlaw => ⟨hlaw, hlaw.exists_key⟩⟩

end

theorem endpoints_lawful {list : List Endpoint} (h : (list.map Endpoint.id).Nodup) (k : UInt8) :
    FindOrCreateLaw Endpoint.id Device.endpointAt Device.endpointExist k list := by
  have hlaw : Lawful Endpoint.id Device.endpointAt k list := lawful (fun _ => rfl) h
  exact ⟨hlaw, hlaw.exists_key⟩

theorem clusters_lawful {list : List Cluster} (h : (list.map Cluster.id).Nodup) (k : UInt16) :
    Lawful Cluster.id Endpoint.clusters k list :=
  lawful (fun _ => rfl) h

theorem attributes_lawful {list : List Attribute} (data : UInt8)
    (h : (list.map Attribute.id).Nodup) (k : UInt16) :
    Lawful Attribute.id (Cluster.attributesAt data) k list :=
  lawful (fun _ => rfl) h

/-! ### All lookups -/

/-- A lookup with its list and its key. -/
inductive KeyedLookup where
  | assocs (list : Devices) (k : UInt16)
  | assocs_ieee (list : Devices) (k : UInt64)
  | endpoints (list : List Endpoint) (k : UInt8)
  | endpointPtr (list : List Endpoint) (k : UInt8)
  | clusters (list : List Cluster) (k : UInt16)
  | clusterPtr (list : List Cluster) (k : UInt16)
  | attributes (data : UInt8) (list : List Attribute) (k : UInt16)

namespace KeyedLookup

def UniqueKeys : KeyedLookup → Prop
  | .assocs list _ => (list.map Device.id).Nodup
  | .assocs_ieee list _ => (list.map Device.ieee_id).Nodup
  | .endpoints list _ | .endpointPtr list _ => (list.map Endpoint.id).Nodup
  | .clusters list _ | .clusterPtr list _ => (list.map Cluster.id).Nodup
  | .attributes _ list _ => (list.map Attribute.id).Nodup

/-- The law of the lookup; clusters and attributes have no test for existence. -/
def Law : KeyedLookup → Prop
  | .assocs list k => FindOrCreateLaw Device.id Device.assocs Device.assocExist k list
  | .assocs_ieee list k =>
      FindOrCreateLaw Device.ieee_id Device.assocs_ieee Device.assocExist_ieee k list
  | .endpoints list k => FindOrCreateLaw Endpoint.id Device.endpointAt Device.endpointExist k list
  | .endpointPtr list k =>
      FindOrCreateLaw Endpoint.id Device.endpointPtr Device.endpointExist k list
  | .clusters list k => Lawful Cluster.id Endpoint.clusters k list
  | .clusterPtr list k => Lawful Cluster.id Endpoint.clusterPtr k list
  | .attributes data list k => Lawful Attribute.id (Cluster.attributesAt data) k list

/-- What the lookup would create has the key, or nothing needs to be created. -/
def Creatable : KeyedLookup → Prop
  | .assocs_ieee list k => k = 0 ∨ ∃ d ∈ list, d.ieee_id = k
  | _ => True

end KeyedLookup

/-- Every lookup is lawful, except by an IEEE address other than 0 that no device
has. -/
theorem find_or_create (x : KeyedLookup) (h : x.UniqueKeys) : x.Law ↔ x.Creatable := by
  cases x with
  | assocs list k => exact iff_of_true (assocs_lawful h k) trivial
  | assocs_ieee list k => exact assocs_ieee_lawful_iff h k
  | endpoints list k => exact iff_of_true (endpoints_lawful h k) trivial
  | endpointPtr list k => exact iff_of_true (endpoints_lawful h k) trivial
  | clusters list k => exact iff_of_true (clusters_lawful h k) trivial
  | clusterPtr list k => exact iff_of_true (clusters_lawful h k) trivial
  | attributes data list k => exact iff_of_true (attributes_lawful data h k) trivial

/-- Two associated devices and the coordinator. -/
def threeDevices : Devices :=
  [{ Device.new 0x1234 with ieee_id := 0x00124B0001020304 },
    { Device.new 0x5678 with ieee_id := 0x00124B0005060708 }, Device.new 0]

/-- A short address that no device has, and the IEEE address of the second device. -/
theorem find_or_create_threeDevices :
    (KeyedLookup.assocs threeDevices 0x9ABC).Law ∧
      (KeyedLookup.assocs_ieee threeDevices 0x00124B0005060708).Law := by
  have hids : (threeDevices.map Device.id).Nodup := by decide
  have hieee_ids : (threeDevices.map Device.ieee_id).Nodup := by decide
  have hthere : ∃ d ∈ threeDevices, d.ieee_id = 0x00124B0005060708 := by decide
  constructor
  · exact (find_or_create (.assocs threeDevices 0x9ABC) hids).mpr trivial
  · exact (find_or_create (.assocs_ieee threeDevices 0x00124B0005060708) hieee_ids).mpr
      (Or.inr hthere)

/-- The device that a lookup by an IEEE address creates does not have the address. -/
theorem find_or_create_ieee :
    (Device.assocs_ieee 0x00124B0001020304 []).2 = [Device.new 0x0304] ∧
      Device.assocExist_ieee 0x00124B0001020304 (Device.assocs_ieee 0x00124B0001020304 []).2 =
        false ∧
      ¬ FindOrCreateLaw Device.ieee_id Device.assocs_ieee Device.assocExist_ieee
        0x00124B0001020304 [] := by
  refine ⟨by decide, by decide, fun hlaw => ?_⟩
  have hexists := hlaw.exists_after
  revert hexists
  decide

end KappaGateway.Aps

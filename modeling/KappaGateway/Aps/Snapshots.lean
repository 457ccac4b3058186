import KappaGateway.Aps.MessageIndicate
import KappaGateway.Lib.Branching

/-!
# Snapshots of device trees

`nodeSnapshot` renders a device with all devices associated with it. Its getters insert
into the `data` of an endpoint what they do not find there, and it writes one of the two
cluster counts from the other list.
-/

namespace KappaGateway.Snapshots

open Aps Branching Kjson Kutil MessageIndicate

variable {H : Type}

/-- A device, without those associated with it. -/
structure DeviceNode (H : Type) where
  id : UInt16
  ieee_id : UInt64
  capability : UInt8
  nodeDescriptor : NodeDescriptor
  active : Bool
  endpoints : List (LocalEndpoint H)

/-- A device with the devices associated with it, those associated with them, and so on. -/
abbrev Device (H : Type) := RoseTree (DeviceNode H)

/-- `nodeSnapshot(Endpoint&)`, with the endpoint afterwards. -/
def nodeSnapshotEndpoint (e : LocalEndpoint H) : Doc × LocalEndpoint H :=
  (e.nodeSnapshot,
    { e with data := dataAt (cstr "WidgetIndexFile") (dataAt (cstr "WidgetRoot") e.data) })

/-- The value of a device, from those of the devices associated with it. -/
def DeviceNode.render (d : DeviceNode H) (assocs : List Doc) : Doc :=
  LocalDevice.nodeSnapshot ⟨d.id, d.ieee_id, d.capability, assocs, d.endpoints⟩

/-- The device itself, once its endpoints were rendered. -/
def DeviceNode.asked (d : DeviceNode H) : DeviceNode H :=
  { d with endpoints := d.endpoints.map fun e => (nodeSnapshotEndpoint e).2 }

/-- `nodeSnapshot(Device&)`, with the device afterwards. -/
def nodeSnapshot : Device H → Doc × Device H :=
  RoseTree.fold fun d assocs =>
    (d.render (assocs.map Prod.fst), .node d.asked (assocs.map Prod.snd))

/-! ### What is to be recovered -/

/-- An endpoint with the ids of its clusters and their attributes, and the counts of its
simple descriptor. -/
structure EndpointOutline where
  endpoint : Endpoint
  clusters : List (UInt16 × List UInt16)
  inclusterCount : Nat
  outclusterCount : Nat

structure DeviceOutline where
  id : UInt16
  ieee_id : UInt64
  capability : UInt8
  endpoints : List EndpointOutline

def outlineCluster (c : Cluster) : UInt16 × List UInt16 := (c.id, c.attributes.map Attribute.id)

def outlineEndpoint (e : LocalEndpoint H) : EndpointOutline where
  endpoint := e.toEndpoint
  clusters := e.clusters.map outlineCluster
  inclusterCount := e.simpleDescriptor.inclusterList.length
  outclusterCount := e.simpleDescriptor.outclusterList.length

def outlineDevice (d : DeviceNode H) : DeviceOutline where
  id := d.id
  ieee_id := d.ieee_id
  capability := d.capability
  endpoints := d.endpoints.map outlineEndpoint

/-! ### Recovering it -/

def integerAt (key : String) (j : Doc) : UInt64 := toInteger (j.member (cstr key))

def elementsAt (key : String) (j : Doc) : List Doc := elements (j.member (cstr key))

def readCluster (j : Doc) : UInt16 × List UInt16 :=
  ((integerAt "id" j).toUInt16,
    (elementsAt "attributes" j).map fun a => (integerAt "id" a).toUInt16)

def readClusterIds (key : String) (j : Doc) : List UInt16 :=
  (elementsAt key j).map fun c => (toInteger (some c)).toUInt16

def readSimpleDescriptor (j : Doc) : SimpleDescriptor where
  outclusterList := readClusterIds "outClusterList" j
  inclusterList := readClusterIds "inClusterList" j
  endpointAddr := (integerAt "endpoint" j).toUInt8
  profileId := (integerAt "profileId" j).toUInt16
  deviceId := (integerAt "deviceId" j).toUInt16
  deviceVersion := (integerAt "deviceVersion" j).toUInt8

def readEndpoint (j : Doc) : EndpointOutline :=
  let simpleDesc := (j.member (cstr "simpleDescriptor")).getD .null
  { endpoint :=
      ⟨(integerAt "id" j).toUInt8, readSimpleDescriptor simpleDesc,
        (j.member (cstr "localEndpointOfContact")).map fun p => (toInteger (some p)).toUInt8⟩
    clusters := (elementsAt "clusters" j).map readCluster
    inclusterCount := (integerAt "inClusterCount" simpleDesc).toNat
    outclusterCount := (integerAt "outClusterCount" simpleDesc).toNat }

def readDevice (j : Doc) : DeviceOutline where
  id := (integerAt "id" j).toUInt16
  ieee_id := integerAt "ieee_id" j
  capability := (integerAt "capability" j).toUInt8
  endpoints := (elementsAt "endpoints" j).map readEndpoint

/-- The tree can be recovered from its snapshot, and is what it was. -/
structure Faithful (d : Device H) : Prop where
  recovered : treeAt (cstr "assocs") readDevice (nodeSnapshot d).1 = d.map outlineDevice
  unchanged : (nodeSnapshot d).2 = d

/-- The two lists are of one length, which a byte can hold, and the entries that are
asked for are there. -/
structure Plain (e : LocalEndpoint H) : Prop where
  bounded : e.simpleDescriptor.inclusterList.length < 256
  balanced : e.simpleDescriptor.outclusterList.length = e.simpleDescriptor.inclusterList.length
  widgetRoot : cstr "WidgetRoot" ∈ e.data.map Prod.fst
  widgetIndexFile : cstr "WidgetIndexFile" ∈ e.data.map Prod.fst

/-! ### Numbers -/

theorem toInteger_of_8 (v : UInt8) :
    (toInteger (some (.string (intToHexStr 1 v.toNat)))).toUInt8 = v := by
  rw [toInteger_intToHexStr (by decide) v.toNat_lt]
  simp

theorem toInteger_of_16 (v : UInt16) :
    (toInteger (some (.string (intToHexStr 2 v.toNat)))).toUInt16 = v := by
  rw [toInteger_intToHexStr (by decide) v.toNat_lt]
  simp

theorem toInteger_of_64 (v : UInt64) :
    toInteger (some (.string (intToHexStr 8 v.toNat))) = v := by
  rw [toInteger_intToHexStr (by decide) v.toNat_lt, UInt64.ofNat_toNat]

theorem toInteger_of_length (n : Nat) :
    (toInteger (some (.string (intToHexStr 1 (n % 256))))).toNat = n % 256 := by
  rw [toInteger_intToHexStr (by decide) (by omega), UInt64.toNat_ofNat']
  omega

/-! ### One node -/

theorem readCluster_nodeSnapshot (c : Cluster) :
    readCluster (Cluster.nodeSnapshot c) = outlineCluster c := by
  have hattributes : (fun a : Attribute => (integerAt "id" (Attribute.nodeSnapshot a)).toUInt16) =
      Attribute.id := by
    ext a
    exact congrArg UInt16.toNat (toInteger_of_16 a.id)
  calc
    readCluster (Cluster.nodeSnapshot c) =
        ((toInteger (some (.string (intToHexStr 2 c.id.toNat)))).toUInt16,
          (c.attributes.map Attribute.nodeSnapshot).map fun a =>
            (integerAt "id" a).toUInt16) := rfl
    _ = outlineCluster c := by
      rw [toInteger_of_16, List.map_map]
      exact congrArg (fun f => (c.id, c.attributes.map f)) hattributes

/-- A list is written as far as its 8-bit count goes. -/
theorem readClusterIds_clusterIds (l : List UInt16) :
    (elements (some (clusterIds l))).map (fun c => (toInteger (some c)).toUInt16) =
      l.take (l.length % 256) := by
  have hids : (fun c : Doc => (toInteger (some c)).toUInt16) ∘
      (fun c : UInt16 => .string (intToHexStr 2 c.toNat)) = id := by
    ext c
    exact congrArg UInt16.toNat (toInteger_of_16 c)
  rw [clusterIds, elements, List.map_map, hids, List.map_id]

theorem readSimpleDescriptor_nodeSnapshot (d : SimpleDescriptor) :
    readSimpleDescriptor (SimpleDescriptor.nodeSnapshot d) =
      { d with
        outclusterList := d.outclusterList.take (d.outclusterList.length % 256)
        inclusterList := d.inclusterList.take (d.inclusterList.length % 256) } := by
  calc
    readSimpleDescriptor (SimpleDescriptor.nodeSnapshot d) =
        ⟨(elements (some (clusterIds d.outclusterList))).map fun c =>
            (toInteger (some c)).toUInt16,
          (elements (some (clusterIds d.inclusterList))).map fun c =>
            (toInteger (some c)).toUInt16,
          (toInteger (some (.string (intToHexStr 1 d.endpointAddr.toNat)))).toUInt8,
          (toInteger (some (.string (intToHexStr 2 d.profileId.toNat)))).toUInt16,
          (toInteger (some (.string (intToHexStr 2 d.deviceId.toNat)))).toUInt16,
          (toInteger (some (.string (intToHexStr 1 d.deviceVersion.toNat)))).toUInt8⟩ := rfl
    _ = _ := by
      rw [readClusterIds_clusterIds, readClusterIds_clusterIds, toInteger_of_8, toInteger_of_16,
        toInteger_of_16, toInteger_of_8]

/-- What is read of an endpoint: all of it, but the clusters that were written and the
count of one list for both. -/
theorem readEndpoint_nodeSnapshot (e : LocalEndpoint H) :
    readEndpoint e.nodeSnapshot =
      { endpoint :=
          ⟨e.id, readSimpleDescriptor (SimpleDescriptor.nodeSnapshot e.simpleDescriptor),
            e.localPeer⟩
        clusters := e.clusters.map outlineCluster
        inclusterCount := e.simpleDescriptor.inclusterList.length % 256
        outclusterCount := e.simpleDescriptor.inclusterList.length % 256 } := by
  have hclusters : e.clusters.map (readCluster ∘ Cluster.nodeSnapshot) =
      e.clusters.map outlineCluster :=
    List.map_congr_left fun c _ => readCluster_nodeSnapshot c
  obtain ⟨⟨i, simpleDesc, peer⟩, clusters, data, handler⟩ := e
  have hlocalPeer : (peer.map fun p => Json.string (intToHexStr 1 p.toNat)).map
      (fun p : Doc => (toInteger (some p)).toUInt8) = peer := by
    cases peer with
    | none => rfl
    | some p => exact congrArg some (toInteger_of_8 p)
  have hread : readEndpoint
      (LocalEndpoint.nodeSnapshot ⟨⟨i, simpleDesc, peer⟩, clusters, data, handler⟩) =
      { endpoint :=
          ⟨(toInteger (some (.string (intToHexStr 1 i.toNat)))).toUInt8,
            readSimpleDescriptor (SimpleDescriptor.nodeSnapshot simpleDesc),
            (peer.map fun p => Json.string (intToHexStr 1 p.toNat)).map
              fun p : Doc => (toInteger (some p)).toUInt8⟩
        clusters := (clusters.map Cluster.nodeSnapshot).map readCluster
        inclusterCount := (toInteger (some (.string
          (intToHexStr 1 (simpleDesc.inclusterList.length % 256))))).toNat
        outclusterCount := (toInteger (some (.string
          (intToHexStr 1 (simpleDesc.inclusterList.length % 256))))).toNat } := by
    cases peer with
    | none => rfl
    | some p => rfl
  rw [hread, toInteger_of_8, hlocalPeer, toInteger_of_length, List.map_map, hclusters]

theorem readEndpoint_eq_outline_iff (e : LocalEndpoint H) :
    readEndpoint e.nodeSnapshot = outlineEndpoint e ↔
      e.simpleDescriptor.inclusterList.length < 256 ∧
        e.simpleDescriptor.outclusterList.length = e.simpleDescriptor.inclusterList.length := by
  rw [readEndpoint_nodeSnapshot]
  constructor
  · intro h
    have hin : e.simpleDescriptor.inclusterList.length % 256 =
        e.simpleDescriptor.inclusterList.length := congrArg EndpointOutline.inclusterCount h
    have hout : e.simpleDescriptor.inclusterList.length % 256 =
        e.simpleDescriptor.outclusterList.length := congrArg EndpointOutline.outclusterCount h
    omega
  · rintro ⟨hbounded, hbalanced⟩
    rw [readSimpleDescriptor_nodeSnapshot, hbalanced, Nat.mod_eq_of_lt hbounded,
      List.take_length, ← hbalanced, List.take_length]
    rw [outlineEndpoint, hbalanced]

/-- An entry that is asked for and missing is inserted. -/
theorem dataAt_length (key : Text) (data : List (Text × Text)) :
    (dataAt key data).length = data.length + if key ∈ data.map Prod.fst then 0 else 1 := by
  have hany : data.any (·.1 = key) ↔ key ∈ data.map Prod.fst := by simp
  rw [dataAt]
  split
  · next h => rw [if_pos (hany.mp h), Nat.add_zero]
  · next h => rw [if_neg fun hmem => h (hany.mpr hmem), List.orderedInsert_length]

theorem dataAt_of_mem {key : Text} {data : List (Text × Text)} (h : key ∈ data.map Prod.fst) :
    dataAt key data = data := by
  have hany : data.any (·.1 = key) := by simpa using h
  rw [dataAt, if_pos hany]

theorem nodeSnapshotEndpoint_eq_self_iff (e : LocalEndpoint H) :
    (nodeSnapshotEndpoint e).2 = e ↔
      cstr "WidgetRoot" ∈ e.data.map Prod.fst ∧ cstr "WidgetIndexFile" ∈ e.data.map Prod.fst := by
  constructor
  · intro h
    have hdata : dataAt (cstr "WidgetIndexFile") (dataAt (cstr "WidgetRoot") e.data) = e.data :=
      congrArg LocalEndpoint.data h
    have hlength := congrArg List.length hdata
    rw [dataAt_length, dataAt_length] at hlength
    have hroot : cstr "WidgetRoot" ∈ e.data.map Prod.fst := by
      by_contra hmissing
      rw [if_neg hmissing] at hlength
      omega
    rw [dataAt_of_mem hroot, if_pos hroot] at hlength
    refine ⟨hroot, ?_⟩
    by_contra hmissing
    rw [if_neg hmissing] at hlength
    omega
  · rintro ⟨hroot, hindex⟩
    rw [nodeSnapshotEndpoint, dataAt_of_mem hroot, dataAt_of_mem hindex]

/-! ### Whole trees -/

/-- The snapshot is one fold and the tree afterwards another. -/
theorem nodeSnapshot_eq (d : Device H) :
    nodeSnapshot d = (d.fold DeviceNode.render, d.map DeviceNode.asked) :=
  RoseTree.fold_pair DeviceNode.render (fun d assocs => RoseTree.node d.asked assocs) d

/-- What can be read of the snapshot of a device without those associated with it. -/
def DeviceNode.shown (d : DeviceNode H) : DeviceOutline :=
  ⟨d.id, d.ieee_id, d.capability, d.endpoints.map fun e => readEndpoint e.nodeSnapshot⟩

theorem readDevice_render (d : DeviceNode H) (assocs : List Doc) :
    readDevice (d.render assocs) = d.shown := by
  calc
    readDevice (d.render assocs) =
        ⟨(toInteger (some (.string (intToHexStr 2 d.id.toNat)))).toUInt16,
          toInteger (some (.string (intToHexStr 8 d.ieee_id.toNat))),
          (toInteger (some (.string (intToHexStr 1 d.capability.toNat)))).toUInt8,
          (d.endpoints.map LocalEndpoint.nodeSnapshot).map readEndpoint⟩ := rfl
    _ = d.shown := by
      rw [toInteger_of_16, toInteger_of_64, toInteger_of_8, List.map_map]
      rfl

/-- What can be read of the snapshot of any tree. -/
theorem treeAt_nodeSnapshot (d : Device H) :
    treeAt (cstr "assocs") readDevice (nodeSnapshot d).1 = d.map DeviceNode.shown := by
  rw [nodeSnapshot_eq]
  apply treeAt_fold
  · intro d assocs
    rfl
  · exact readDevice_render

theorem shown_eq_outline_iff (d : DeviceNode H) :
    d.shown = outlineDevice d ↔
      ∀ e ∈ d.endpoints, readEndpoint e.nodeSnapshot = outlineEndpoint e := by
  simp [DeviceNode.shown, outlineDevice]

theorem asked_eq_self_iff (d : DeviceNode H) :
    d.asked = d ↔ ∀ e ∈ d.endpoints, (nodeSnapshotEndpoint e).2 = e := by
  have hendpoints : d.asked = d ↔
      d.endpoints.map (fun e => (nodeSnapshotEndpoint e).2) = d.endpoints.map id := by
    rw [List.map_id]
    constructor
    · exact congrArg DeviceNode.endpoints
    · intro h
      rw [DeviceNode.asked, h]
  rw [hendpoints]
  exact List.map_inj_left

theorem plain_iff (e : LocalEndpoint H) :
    Plain e ↔
      readEndpoint e.nodeSnapshot = outlineEndpoint e ∧ (nodeSnapshotEndpoint e).2 = e := by
  rw [readEndpoint_eq_outline_iff, nodeSnapshotEndpoint_eq_self_iff]
  constructor
  · exact fun h => ⟨⟨h.bounded, h.balanced⟩, h.widgetRoot, h.widgetIndexFile⟩
  · rintro ⟨⟨hbounded, hbalanced⟩, hroot, hindex⟩
    exact ⟨hbounded, hbalanced, hroot, hindex⟩

/-- A lamp with two in-clusters and one out-cluster. -/
def lamp : LocalEndpoint Unit :=
  { LocalEndpoint.new 1 with
    simpleDescriptor := ⟨[0x0019], [0x0000, 0x0006], 1, 0x0104, 0x0100, 0⟩ }

end KappaGateway.Snapshots

import KappaGateway.Aps.MessageIndicate
import KappaGateway.Zdo.DeviceObjects

/-!
# Pairing a remote endpoint with a local one

`aps_newpeer_handle` looks for the first endpoint of this device with the profile
of the remote endpoint and an out cluster that the remote endpoint serves. It
assigns the peer when the profile agrees, before it compares the clusters.
-/

namespace KappaGateway.Pairing

open Aps Zdo DeviceObjects Kjson Kutil KeyedList MessageIndicate ZdoArchive

variable {H : Type*}

/-! ### What pairing does -/

/-- What the attribute tables depend on: the constructor of `JSON` from a text or a
file name, and the memory that `new` returns. -/
structure Environment where
  json : Text → Option Doc
  memory : Nat → UInt8

/-- The remote endpoint, the handlers of the event `Application`, and the `NewJoin`
events so far, newest first, each with its URI and the endpoint it is for. -/
structure Site (H : Type*) where
  remote : LocalEndpoint H
  handlers : Text → Option Captured
  newJoins : List (Text × LocalEndpoint H)

/-- The position of the device that the remote endpoint belongs to, its address, and
the address of this device. -/
structure Parent where
  object : Nat
  id : UInt16
  thisDevice : UInt16

/-- `local_.uri()`. -/
def Parent.localUri (parent : Parent) (local_ : LocalEndpoint H) : Text :=
  endpointsUri parent.thisDevice ++ cstr "/" ++ epStr local_.id

/-- `cluster.attributes(id)`, with the value that replaces the one it has. -/
def setAttribute (env : Environment) (cluster : Cluster) (id : UInt16) (typeId : UInt8)
    (size : Nat) : Cluster :=
  let attr := Cluster.attributesAt (env.memory 0) id cluster.attributes
  { cluster with
    attributes := attr.2.modify attr.1 fun a =>
      { a with value := ⟨bytesFrom env.memory size, size, typeId⟩ } }

/-- The body of `attrList.forEachInArr`. -/
def attributeFrom (env : Environment) (dtLib : Option Doc) (cluster : Cluster) (el : Doc) :
    Cluster :=
  match dtLib.bind (Json.member (toText (elemAt 2 (some el)))) with
  | none => cluster
  | some dataType =>
      setAttribute env cluster (toInteger (elemAt 0 (some el))).toUInt16
        (toInteger (elemAt 0 (some dataType))).toUInt8
        (toInteger (elemAt 1 (some dataType))).toNat

/-- The body of the loop of `establish_profile`. -/
def profileCluster (env : Environment) (clusLib dtLib : Option Doc) (clusters : List Cluster)
    (cId : UInt16) : List Cluster :=
  match clusLib.bind (Json.member (intToHexStr 2 cId.toNat)) with
  | none => clusters
  | some entry =>
      let cluster := Endpoint.clusters cId clusters
      cluster.2.modify cluster.1 fun c =>
        (elements (elemAt 2 (some entry))).foldl (attributeFrom env dtLib) c

/-- `localPeer(Endpoint*)` of the remote endpoint. -/
def Site.setPeer (s : Site H) (peer : Option UInt8) : Site H :=
  { s with remote := { s.remote with localPeer := peer } }

/-- `establish_profile`; the peer is the endpoint that `localPeer` points to. The
constructor has set both paths of the peer. -/
def establish_profile (env : Environment) (peer : Option (LocalEndpoint H))
    (e_ : LocalEndpoint H) : Int × LocalEndpoint H :=
  match peer with
  | none => (-1, e_)
  | some peer =>
      let path (key : String) : Text := (valueAt (cstr key) peer.data).getD []
      let clusLib := env.json (path "ClusterLookupPath")
      let dtLib := env.json (path "datatypeLookupPath")
      (0, { e_ with
        clusters :=
          e_.simpleDescriptor.inclusterList.foldl (profileCluster env clusLib dtLib) e_.clusters })

/-- The two loops over the clusters: the result is set, and never set back. -/
def matchClusters (outclusterList inclusterList : List UInt16) (rtn : Int) : Int :=
  outclusterList.foldl
    (fun rtn local_cId =>
      inclusterList.foldl (fun rtn remote_cId => if local_cId = remote_cId then 0 else rtn) rtn)
    rtn

/-- What follows a match. -/
def join (env : Environment) (parent : Parent) (local_ : LocalEndpoint H) (s : Site H) : Site H :=
  let remote := (establish_profile env (some local_) s.remote).2
  { remote := remote
    handlers := register parent.id (.device parent.object) s.handlers
    newJoins := (parent.localUri local_, remote) :: s.newJoins }

/-- The loop of `aps_newpeer_handle` over the endpoints of this device. -/
def newpeerLoop (env : Environment) (parent : Parent) :
    List (LocalEndpoint H) → Int → Site H → Int × Site H
  | [], rtn, s => (rtn, s)
  | local_ :: rest, rtn, s =>
      if s.remote.simpleDescriptor.profileId = local_.simpleDescriptor.profileId then
        let s' := s.setPeer (some local_.id)
        let rtn' := matchClusters local_.simpleDescriptor.outclusterList
          s.remote.simpleDescriptor.inclusterList rtn
        if rtn' = 0 then (rtn', join env parent local_ s')
        else newpeerLoop env parent rest rtn' s'
      else newpeerLoop env parent rest rtn s

def aps_newpeer_handle (env : Environment) (parent : Parent) (locals : List (LocalEndpoint H))
    (s : Site H) : Int × Site H :=
  newpeerLoop env parent locals (-1) s

/-! ### Which endpoint is found -/

/-- The local endpoint has the profile of the remote one. -/
def sameProfile (remote : SimpleDescriptor) (local_ : LocalEndpoint H) : Bool :=
  remote.profileId = local_.simpleDescriptor.profileId

/-- One of its out clusters is among the in clusters of the remote one, too. -/
def serves (remote : SimpleDescriptor) (local_ : LocalEndpoint H) : Bool :=
  sameProfile remote local_ &&
    local_.simpleDescriptor.outclusterList.any (remote.inclusterList.contains ·)

theorem serves_of_sameProfile {remote : SimpleDescriptor} {local_ : LocalEndpoint H}
    (h : sameProfile remote local_ = true) :
    serves remote local_ =
      local_.simpleDescriptor.outclusterList.any (remote.inclusterList.contains ·) := by
  rw [serves, h, Bool.true_and]

theorem not_serves {remote : SimpleDescriptor} {local_ : LocalEndpoint H}
    (h : ¬ remote.profileId = local_.simpleDescriptor.profileId) :
    ¬ serves remote local_ = true := by
  simp [serves, sameProfile, h]

theorem matchCluster_eq (local_cId : UInt16) (inclusterList : List UInt16) (rtn : Int) :
    inclusterList.foldl (fun rtn remote_cId => if local_cId = remote_cId then 0 else rtn) rtn =
      if inclusterList.contains local_cId then 0 else rtn := by
  induction inclusterList generalizing rtn with
  | nil => rfl
  | cons remote_cId rest ih =>
      rw [List.foldl_cons, ih]
      by_cases h : local_cId = remote_cId <;> simp [h]

theorem matchClusters_eq (outclusterList inclusterList : List UInt16) (rtn : Int) :
    matchClusters outclusterList inclusterList rtn =
      if outclusterList.any (inclusterList.contains ·) then 0 else rtn := by
  unfold matchClusters
  induction outclusterList generalizing rtn with
  | nil => rfl
  | cons local_cId rest ih =>
      rw [List.foldl_cons, ih, matchCluster_eq]
      by_cases h : inclusterList.contains local_cId
      · simp only [List.any_cons, h, Bool.true_or, if_true, ite_self]
      · simp only [List.any_cons, h, Bool.false_or, Bool.false_eq_true, if_false]

/-- The peer of the remote endpoint after local endpoints none of which serves it. -/
def lastPeer (remote : SimpleDescriptor) (locals : List (LocalEndpoint H)) (peer : Option UInt8) :
    Option UInt8 :=
  match (locals.filter (sameProfile remote)).getLast? with
  | some local_ => some local_.id
  | none => peer

theorem lastPeer_cons (remote : SimpleDescriptor) (local_ : LocalEndpoint H)
    (rest : List (LocalEndpoint H)) (peer : Option UInt8) :
    lastPeer remote (local_ :: rest) peer =
      lastPeer remote rest (if sameProfile remote local_ then some local_.id else peer) := by
  unfold lastPeer
  by_cases h : sameProfile remote local_
  · cases hrest : (rest.filter (sameProfile remote)).getLast? with
    | none => simp [h, List.getLast?_cons, hrest]
    | some last => simp [h, List.getLast?_cons, hrest]
  · simp [h]

/-- The loop, with the result it has while nothing was found: the first endpoint that
serves the remote one joins, and otherwise the last one with the profile is the peer. -/
theorem newpeerLoop_eq (env : Environment) (parent : Parent) (locals : List (LocalEndpoint H))
    (s : Site H) :
    newpeerLoop env parent locals (-1) s =
      match locals.find? (serves s.remote.simpleDescriptor) with
      | some local_ =>
          (0, join env parent local_ (s.setPeer (some local_.id)))
      | none =>
          (-1, s.setPeer (lastPeer s.remote.simpleDescriptor locals s.remote.localPeer)) := by
  induction locals generalizing s with
  | nil => rfl
  | cons local_ rest ih =>
      rw [newpeerLoop, lastPeer_cons]
      by_cases hprofile :
          s.remote.simpleDescriptor.profileId = local_.simpleDescriptor.profileId
      · have hsame : sameProfile s.remote.simpleDescriptor local_ = true := by
          simpa [sameProfile] using hprofile
        rw [if_pos hprofile, if_pos hsame, matchClusters_eq, ← serves_of_sameProfile hsame]
        by_cases hserves : serves s.remote.simpleDescriptor local_
        · simp only [hserves, if_true, List.find?_cons_of_pos hserves]
        · simp only [hserves, Bool.false_eq_true, if_false, List.find?_cons_of_neg hserves]
          exact ih (s.setPeer (some local_.id))
      · have hsame : ¬ sameProfile s.remote.simpleDescriptor local_ = true := by
          simpa [sameProfile] using hprofile
        rw [if_neg hprofile, ih, List.find?_cons_of_neg (not_serves hprofile), if_neg hsame]

theorem aps_newpeer_handle_some (env : Environment) (parent : Parent)
    {locals : List (LocalEndpoint H)} {s : Site H} {local_ : LocalEndpoint H}
    (h : locals.find? (serves s.remote.simpleDescriptor) = some local_) :
    aps_newpeer_handle env parent locals s =
      (0, join env parent local_ (s.setPeer (some local_.id))) := by
  rw [aps_newpeer_handle, newpeerLoop_eq, h]

theorem aps_newpeer_handle_none (env : Environment) (parent : Parent)
    {locals : List (LocalEndpoint H)} {s : Site H}
    (h : locals.find? (serves s.remote.simpleDescriptor) = none) :
    aps_newpeer_handle env parent locals s =
      (-1, s.setPeer (lastPeer s.remote.simpleDescriptor locals s.remote.localPeer)) := by
  rw [aps_newpeer_handle, newpeerLoop_eq, h]

/-- Whatever the endpoints, at most one event is triggered. -/
theorem aps_newpeer_handle_newJoins (env : Environment) (parent : Parent)
    (locals : List (LocalEndpoint H)) (s : Site H) :
    (aps_newpeer_handle env parent locals s).2.newJoins.length ≤ s.newJoins.length + 1 := by
  cases h : locals.find? (serves s.remote.simpleDescriptor) with
  | some local_ =>
      rw [aps_newpeer_handle_some env parent h]
      exact Nat.le_refl _
  | none =>
      rw [aps_newpeer_handle_none env parent h]
      exact Nat.le_succ _

/-! ### The descriptors alone -/

theorem newpeer_eq (remote : SimpleDescriptor) (locals : List (LocalEndpoint H))
    (peer : Option UInt8) :
    newpeer remote (locals.map LocalEndpoint.toEndpoint) peer =
      match locals.find? (serves remote) with
      | some local_ => (some local_.id, true)
      | none => (lastPeer remote locals peer, false) := by
  induction locals generalizing peer with
  | nil => rfl
  | cons local_ rest ih =>
      rw [List.map_cons, newpeer, lastPeer_cons]
      by_cases hprofile : remote.profileId = local_.simpleDescriptor.profileId
      · have hsame : sameProfile remote local_ = true := by simpa [sameProfile] using hprofile
        rw [if_pos hprofile, if_pos hsame, ← serves_of_sameProfile hsame]
        by_cases hserves : serves remote local_
        · simp only [hserves, if_true, List.find?_cons_of_pos hserves]
        · simp only [hserves, Bool.false_eq_true, if_false, List.find?_cons_of_neg hserves]
          exact ih (some local_.id)
      · have hsame : ¬ sameProfile remote local_ = true := by
          simpa [sameProfile] using hprofile
        rw [if_neg hprofile, ih, List.find?_cons_of_neg (not_serves hprofile), if_neg hsame]

/-- What discovery takes from pairing: the peer of the endpoint, and whether the handlers
of its device are registered. -/
theorem aps_newpeer_handle_discovery (env : Environment) (parent : Parent)
    (locals : List (LocalEndpoint H)) (s : Site H) :
    (aps_newpeer_handle env parent locals s).2.remote.toEndpoint =
        Zdo.aps_newpeer_handle (locals.map LocalEndpoint.toEndpoint) s.remote.toEndpoint ∧
      (aps_newpeer_handle env parent locals s).2.handlers =
        if (newpeer s.remote.simpleDescriptor (locals.map LocalEndpoint.toEndpoint) none).2
        then register parent.id (.device parent.object) s.handlers else s.handlers := by
  rw [Zdo.aps_newpeer_handle, newpeer_eq, newpeer_eq]
  cases h : locals.find? (serves s.remote.simpleDescriptor) with
  | some local_ =>
      rw [aps_newpeer_handle_some env parent h]
      exact ⟨rfl, rfl⟩
  | none =>
      rw [aps_newpeer_handle_none env parent h]
      exact ⟨rfl, rfl⟩

/-! ### All or nothing -/

/-- The local endpoint has the profile of the remote one, and an out cluster among its
in clusters. -/
def Fits (remote : SimpleDescriptor) (local_ : LocalEndpoint H) : Prop :=
  remote.profileId = local_.simpleDescriptor.profileId ∧
    ∃ cId ∈ local_.simpleDescriptor.outclusterList, cId ∈ remote.inclusterList

theorem serves_iff {remote : SimpleDescriptor} {local_ : LocalEndpoint H} :
    serves remote local_ = true ↔ Fits remote local_ := by
  simp [serves, sameProfile, Fits]

/-- The first local endpoint that fits. -/
def FirstFit (remote : SimpleDescriptor) (locals : List (LocalEndpoint H))
    (local_ : LocalEndpoint H) : Prop :=
  ∃ before after, locals = before ++ local_ :: after ∧ Fits remote local_ ∧
    ∀ l ∈ before, ¬ Fits remote l

theorem find?_serves_iff {remote : SimpleDescriptor} {locals : List (LocalEndpoint H)}
    {local_ : LocalEndpoint H} :
    locals.find? (serves remote) = some local_ ↔ FirstFit remote locals local_ := by
  rw [List.find?_eq_some_iff_append]
  simp only [serves_iff, FirstFit, Bool.not_eq_true', ← Bool.not_eq_true]
  constructor
  · rintro ⟨hfits, before, after, heq, hbefore⟩
    exact ⟨before, after, heq, hfits, hbefore⟩
  · rintro ⟨before, after, heq, hfits, hbefore⟩
    exact ⟨hfits, before, after, heq, hbefore⟩

/-- What pairing should do, from the site before to the result and the site after. -/
structure AllOrNothing (parent : Parent) (locals : List (LocalEndpoint H)) (s : Site H)
    (rtn : Int) (t : Site H) : Prop where
  zero_iff : rtn = 0 ↔ ∃ local_ ∈ locals, Fits s.remote.simpleDescriptor local_
  joined : rtn = 0 → ∃ local_, FirstFit s.remote.simpleDescriptor locals local_ ∧
    t.remote.localPeer = some local_.id ∧
      t.newJoins = (parent.localUri local_, t.remote) :: s.newJoins
  untouched : rtn = -1 → t.remote.localPeer = s.remote.localPeer ∧
    t.remote.nodeSnapshot = s.remote.nodeSnapshot ∧ t.remote.clusters = s.remote.clusters ∧
      t.handlers = s.handlers ∧ t.newJoins = s.newJoins

/-- A local endpoint fits, or the last one with the profile is the peer already. -/
def Settled (locals : List (LocalEndpoint H)) (remote : LocalEndpoint H) : Prop :=
  (∃ local_ ∈ locals, Fits remote.simpleDescriptor local_) ∨
    ∀ last ∈ (locals.filter (sameProfile remote.simpleDescriptor)).getLast?,
      remote.localPeer = some last.id

theorem lastPeer_eq_iff {remote : SimpleDescriptor} {locals : List (LocalEndpoint H)}
    {peer : Option UInt8} :
    lastPeer remote locals peer = peer ↔
      ∀ last ∈ (locals.filter (sameProfile remote)).getLast?, peer = some last.id := by
  unfold lastPeer
  cases (locals.filter (sameProfile remote)).getLast? with
  | none => simp
  | some last => simp [eq_comm]

/-- Pairing is all or nothing exactly if a local endpoint fits, or the last one with the
profile is the peer already: otherwise an endpoint with the profile but without the
clusters becomes the peer, and nothing joins. -/
theorem aps_newpeer_handle_iff (env : Environment) (parent : Parent)
    (locals : List (LocalEndpoint H)) (s : Site H) :
    AllOrNothing parent locals s (aps_newpeer_handle env parent locals s).1
        (aps_newpeer_handle env parent locals s).2 ↔
      Settled locals s.remote := by
  cases h : locals.find? (serves s.remote.simpleDescriptor) with
  | some local_ =>
      have hfirst := find?_serves_iff.mp h
      have hfits : ∃ l ∈ locals, Fits s.remote.simpleDescriptor l := by
        obtain ⟨before, after, heq, hfits, -⟩ := hfirst
        exact ⟨local_, by simp [heq], hfits⟩
      rw [aps_newpeer_handle_some env parent h]
      constructor
      · intro _
        exact Or.inl hfits
      · intro _
        constructor
        · exact iff_of_true rfl hfits
        · intro _
          exact ⟨local_, hfirst, rfl, rfl⟩
        · intro hrtn
          cases hrtn
  | none =>
      have hnone : ¬ ∃ l ∈ locals, Fits s.remote.simpleDescriptor l := by
        rintro ⟨l, hl, hfits⟩
        exact List.find?_eq_none.mp h l hl (serves_iff.mpr hfits)
      rw [aps_newpeer_handle_none env parent h]
      constructor
      · intro hall
        exact Or.inr (lastPeer_eq_iff.mp (hall.untouched rfl).1)
      · rintro (hfits | hlast)
        · exact absurd hfits hnone
        · have hsame : s.setPeer (lastPeer s.remote.simpleDescriptor locals s.remote.localPeer) =
              s := by
            rw [lastPeer_eq_iff.mpr hlast]
            rfl
          constructor
          · exact iff_of_false (by simp) hnone
          · intro hrtn
            cases hrtn
          · intro _
            rw [hsame]
            exact ⟨rfl, rfl, rfl, rfl, rfl⟩

/-- No libraries, and a device at address 1 beside this one. -/
def bareEnvironment : Environment := ⟨fun _ => none, fun _ => 0⟩

def bareParent : Parent := ⟨0, 1, 0⟩

/-- An endpoint with a profile and clusters. -/
def endpointWith (i : UInt8) (profileId : UInt16) (inclusterList outclusterList : List UInt16) :
    LocalEndpoint Unit :=
  { LocalEndpoint.new i with
    simpleDescriptor := ⟨outclusterList, inclusterList, i, profileId, 0, 0⟩ }

/-- The local endpoint wants the on/off cluster, and the remote one has the profile but
only the basic cluster. -/
theorem pairing_without_clusters :
    let locals := [endpointWith 1 0x0104 [] [0x0006]]
    let s : Site Unit := ⟨endpointWith 8 0x0104 [0x0000] [], fun _ => none, []⟩
    let after := aps_newpeer_handle bareEnvironment bareParent locals s
    after.1 = -1 ∧ s.remote.localPeer = none ∧ after.2.remote.localPeer = some 1 ∧
      ¬ AllOrNothing bareParent locals s after.1 after.2 := by
  refine ⟨by decide, rfl, by decide, fun hall => ?_⟩
  have hpeer := (hall.untouched (by decide)).1
  revert hpeer
  decide

end KappaGateway.Pairing

import KappaGateway.Lib.LoadStore
import KappaGateway.Zdo.Discovery

/-!
# Concurrent updates of the archive

Every function of the archive loads the file and stores it again, those that
save an APDU several times. The callbacks of discovery run one after the other,
but `Mgmt_Leave_req` removes devices at the same time, without a lock. An update
is lost where the file has changed between the load and the store of another.
-/

namespace KappaGateway.Zdo

open Aps Kutil Kjson ZdoArchive LoadStore Transition

/-- What is done to the archive between a load and a store. -/
inductive Operation where
  | save (d : Device) (strings : List (Field × Text))
  | removeDev (ieeeAddr : UInt64)

namespace Operation

def saveDevAddresses (d : Device) : Operation :=
  .save d [(.ieeeAddr, ieeeAddrStr d.ieee_id), (.nwkAddr, nwkAddrStr d.id)]

/-- `saveIds(Device&)`. -/
def saveIds (d : Device) : Operation :=
  .save d [(.ieeeAddr, ieeeAddrStr d.ieee_id), (.nwkAddr, nwkAddrStr d.id)]

/-- The last cycle of `saveIds(Endpoint&)`. -/
def saveEndpointIds (d : Device) (ep : UInt8) : Operation := .save d [(.epId ep, epStr ep)]

/-- The last cycle of `saveEndpointApdu`. -/
def saveEndpointApdu (stack : Text) (d : Device) (ep : UInt8) (apdu : List UInt8) : Operation :=
  .save d [(.simpleDesc ep, apduString stack apdu)]

/-- The last cycle of `saveDevApdu`. -/
def saveDevApdu (stack : Text) (d : Device) (label : Field) (apdu : List UInt8) : Operation :=
  .save d [(label, apduString stack apdu)]

/-- What is stored after a load; `removeDev` returns where the file is not good. -/
def result : Operation → Option Doc → Option (Option Doc)
  | .save d strings, zar =>
      some (rewrite (strings.map fun s => (ieeeAddrStr d.ieee_id :: s.1.path, s.2)) zar)
  | .removeDev ieeeAddr, zar => zar.map fun j => some (j.erase (ieeeAddrStr ieeeAddr))

end Operation

/-- The cycles of the callback of a request. -/
def Request.operations (stack : Text) (d : Device) (x : AfMessage) : Request → List Operation
  | .node_desc_req =>
      [.saveDevAddresses d,
        .saveDevApdu stack d .nodeDesc (bytesFrom (shift x.asdu MSGBODY) 13)]
  | .active_ep_req =>
      [.saveDevAddresses d,
        .saveDevApdu stack d .activeEp
          (bytesFrom (shift x.asdu MSGBODY) ((x.asdu 4).toNat + 1))]
  | .simple_desc_req ep =>
      [.saveIds d, .saveEndpointIds d ep,
        .saveEndpointApdu stack d ep
          (bytesFrom (shift x.asdu (MSGBODY + 1)) (x.asdu 4).toNat)]

/-- Uninterrupted cycles do what the callback does to the archive. -/
theorem execute_operations (locals : List Endpoint) (stack : Text) (r : Request) (d : Device)
    (file : Option Doc) (x : AfMessage) :
    execute Operation.result (r.operations stack d x) file =
      (r.callback locals stack (d, file) x).2 := by
  rw [callback_archive]
  cases r with
  | node_desc_req | active_ep_req =>
      exact rewrite_rewrite _ _ _
  | simple_desc_req ep =>
      show rewrite _ (rewrite _ (rewrite _ file)) = _
      rw [rewrite_rewrite, rewrite_rewrite]
      rfl

theorem apply_removeDev (ieeeAddr : UInt64) (file : Option Doc) :
    apply Operation.result (.removeDev ieeeAddr) file = removeDev ieeeAddr file := by
  cases file <;> rfl

/-! ### What operations keep -/

/-- Where a string of the entry of a device is. -/
def stringPath (ieeeAddr : UInt64) (field : Field) : List Text :=
  ieeeAddrStr ieeeAddr :: field.path

/-- The archive has the string. -/
def Saved (ieeeAddr : UInt64) (field : Field) (file : Option Doc) : Prop :=
  ∃ text, (load file).look (stringPath ieeeAddr field) = some (.string text)

/-- The archive has no entry of the device. -/
def Removed (ieeeAddr : UInt64) (file : Option Doc) : Prop :=
  (load file).member (ieeeAddrStr ieeeAddr) = none

/-- No other value is in the way of the string. -/
def Storable (ieeeAddr : UInt64) (field : Field) (file : Option Doc) : Prop :=
  (load file).Open (stringPath ieeeAddr field)

/-- The operation saves the string. -/
def Operation.Saves (ieeeAddr : UInt64) (field : Field) : Operation → Prop
  | .save d strings => d.ieee_id = ieeeAddr ∧ field ∈ strings.map Prod.fst
  | .removeDev _ => False

section

variable {ieeeAddr : UInt64} {field : Field} {file : Option Doc}

theorem stringPath_apart (i : UInt64) (f : Field) :
    stringPath i f = stringPath ieeeAddr field ∧ i = ieeeAddr ∧ f = field ∨
      Json.Apart (stringPath i f) (stringPath ieeeAddr field) := by
  by_cases hi : i = ieeeAddr
  · by_cases hf : f = field
    · exact Or.inl ⟨by rw [hi, hf], hi, hf⟩
    · exact Or.inr fun _ => Field.apart hf
  · right
    intro heq
    exact absurd (ieeeAddrStr_injective heq) hi

/-- Saving keeps a string storable and saved, and saves its own. -/
theorem save_keeps (d : Device) (strings : List (Field × Text))
    (h : Storable ieeeAddr field file) :
    Storable ieeeAddr field (apply Operation.result (.save d strings) file) ∧
      (Saved ieeeAddr field file ∨ (Operation.save d strings).Saves ieeeAddr field →
        Saved ieeeAddr field (apply Operation.result (.save d strings) file)) := by
  let isText (v : Doc) : Prop := ∃ text, v = .string text
  have hwrites : ∀ w ∈ (strings.map fun s => (stringPath d.ieee_id s.1, s.2)).map
      fun a => (a.1, (.string a.2 : Doc)),
      (w.1 = stringPath ieeeAddr field ∧ isText w.2) ∨
        Json.Apart w.1 (stringPath ieeeAddr field) := by
    intro w hw
    obtain ⟨a, ha, rfl⟩ := List.mem_map.mp hw
    obtain ⟨s, -, rfl⟩ := List.mem_map.mp ha
    exact (stringPath_apart d.ieee_id s.1).imp (fun heq => ⟨heq.1, s.2, rfl⟩) id
  obtain ⟨hopen, hlook⟩ := Json.putAll_keeps hwrites h
  refine ⟨hopen, ?_⟩
  rintro (⟨text, htext⟩ | ⟨rfl, hfield⟩)
  · obtain ⟨v, hv, text', rfl⟩ := hlook (Or.inl ⟨_, htext, text, rfl⟩)
    exact ⟨text', hv⟩
  · obtain ⟨s, hs, rfl⟩ := List.mem_map.mp hfield
    obtain ⟨v, hv, text, rfl⟩ :=
      hlook (Or.inr ⟨_, List.mem_map_of_mem (List.mem_map_of_mem hs), rfl⟩)
    exact ⟨text, hv⟩

theorem removeDev_keeps {i : UInt64} (h : Storable ieeeAddr field file) :
    Storable ieeeAddr field (apply Operation.result (.removeDev i) file) ∧
      (i ≠ ieeeAddr → Saved ieeeAddr field file →
        Saved ieeeAddr field (apply Operation.result (.removeDev i) file)) := by
  rw [apply_removeDev]
  cases file with
  | none => exact ⟨h, fun _ hsaved => hsaved⟩
  | some zar =>
      refine ⟨Json.open_erase h _, ?_⟩
      rintro hne ⟨text, htext⟩
      have hkey : ieeeAddrStr ieeeAddr ≠ ieeeAddrStr i := fun heq =>
        hne (ieeeAddrStr_injective heq).symm
      refine ⟨text, ?_⟩
      show (Json.member _ (Json.erase _ zar)).bind _ = _
      rw [Json.member_erase_of_ne hkey]
      exact htext

/-- Operations other than the removal of the device. -/
theorem execute_keeps {ops : List Operation} (h : Storable ieeeAddr field file)
    (hops : .removeDev ieeeAddr ∉ ops) (hsaved : Saved ieeeAddr field file) :
    Saved ieeeAddr field (execute Operation.result ops file) := by
  induction ops generalizing file with
  | nil => exact hsaved
  | cons op ops ih =>
      obtain ⟨hop, hrest⟩ := not_or.mp (List.mem_cons.not.mp hops)
      cases op with
      | save d strings =>
          obtain ⟨hopen, hkept⟩ := save_keeps d strings h
          exact ih hopen hrest (hkept (Or.inl hsaved))
      | removeDev i =>
          obtain ⟨hopen, hkept⟩ := removeDev_keeps (i := i) h
          exact ih hopen hrest (hkept (fun heq => hop (by rw [heq])) hsaved)

theorem execute_storable (ops : List Operation) (h : Storable ieeeAddr field file) :
    Storable ieeeAddr field (execute Operation.result ops file) := by
  induction ops generalizing file with
  | nil => exact h
  | cons op ops ih =>
      cases op with
      | save d strings => exact ih (save_keeps d strings h).1
      | removeDev i => exact ih (removeDev_keeps h).1

/-- A string that is saved, and whose device is not removed later, is there. -/
theorem execute_saves {before after : List Operation} {op : Operation}
    (h : Storable ieeeAddr field file) (hop : op.Saves ieeeAddr field)
    (hafter : .removeDev ieeeAddr ∉ after) :
    Saved ieeeAddr field (execute Operation.result (before ++ op :: after) file) := by
  rw [execute_append, execute_cons]
  have hstorable := execute_storable before h
  cases op with
  | save d strings =>
      obtain ⟨hopen, hsaves⟩ := save_keeps d strings hstorable
      exact execute_keeps hopen hafter (hsaves (Or.inr hop))
  | removeDev i => exact absurd hop id

theorem apply_removed {op : Operation} (hop : ∀ f, ¬ op.Saves ieeeAddr f)
    (h : Removed ieeeAddr file) : Removed ieeeAddr (apply Operation.result op file) := by
  cases op with
  | save d strings =>
      refine (Json.member_putAll_of_ne ?_ _).trans h
      intro w hw
      obtain ⟨a, ha, rfl⟩ := List.mem_map.mp hw
      obtain ⟨s, hs, rfl⟩ := List.mem_map.mp ha
      refine ⟨_, _, rfl, fun heq => ?_⟩
      exact hop s.1 ⟨(ieeeAddrStr_injective heq).symm, List.mem_map_of_mem hs⟩
  | removeDev i =>
      rw [apply_removeDev]
      cases file with
      | none => exact h
      | some zar =>
          by_cases hi : i = ieeeAddr
          · rw [hi]
            exact Json.member_erase_self _ zar
          · have hkey : ieeeAddrStr ieeeAddr ≠ ieeeAddrStr i := fun heq =>
              hi (ieeeAddrStr_injective heq).symm
            exact (Json.member_erase_of_ne hkey zar).trans h

/-- A device that is removed, and of which nothing is saved later, is not there. -/
theorem execute_removes {before after : List Operation}
    (hafter : ∀ op ∈ after, ∀ f, ¬ op.Saves ieeeAddr f) :
    Removed ieeeAddr
      (execute Operation.result (before ++ .removeDev ieeeAddr :: after) file) := by
  rw [execute_append, execute_cons]
  have hremoved : ∀ file, Removed ieeeAddr
      (apply Operation.result (.removeDev ieeeAddr) file) := by
    intro file
    rw [apply_removeDev]
    cases file with
    | none => rfl
    | some zar => exact Json.member_erase_self _ zar
  have hkeep : ∀ {ops : List Operation} {file}, (∀ op ∈ ops, ∀ f, ¬ op.Saves ieeeAddr f) →
      Removed ieeeAddr file → Removed ieeeAddr (execute Operation.result ops file) := by
    intro ops
    induction ops with
    | nil => exact fun _ h => h
    | cons op ops ih =>
        intro file hops h
        rw [List.forall_mem_cons] at hops
        exact ih hops.2 (apply_removed hops.1 h)
  exact hkeep hafter (hremoved _)

end

/-! ### Runs -/

/-- A callback of discovery, with the device and the message it gets. -/
structure Callback where
  request : Request
  device : Device
  message : AfMessage
  stack : Text

/-- The cycles of the callbacks, which a mutex keeps apart, and those of each
thread that handles `Mgmt_Leave_req`. -/
def programs {κ : Type*} (callbacks : List Callback) (removals : κ → List UInt64) :
    Option κ → List Operation
  | none => callbacks.flatMap fun c => c.request.operations c.stack c.device c.message
  | some k => (removals k).map .removeDev

/-- A run of the callbacks of discovery and of any number of threads that remove
devices, one step after the other. -/
def runArchive {κ : Type*} [DecidableEq κ] (callbacks : List Callback)
    (removals : κ → List UInt64) (file : Option Doc) (schedule : List (Option κ)) :=
  play (LoadStore.next Operation.result) (.initial (programs callbacks removals) file) schedule

/-- After the operations no string that is saved has disappeared unless its
device is removed later, and no device that is removed has reappeared unless
something of it is saved later. -/
def Kept (file : Option Doc) (ops : List Operation) (archive : Option Doc) : Prop :=
  ∀ before op after, ops = before ++ op :: after →
    (∀ i field, op.Saves i field → Storable i field file → .removeDev i ∉ after →
      Saved i field archive) ∧
    ∀ i, op = .removeDev i → (∀ o ∈ after, ∀ field, ¬ o.Saves i field) → Removed i archive

theorem execute_kept (ops : List Operation) (file : Option Doc) :
    Kept file ops (execute Operation.result ops file) := by
  rintro before op after rfl
  constructor
  · intro i field hop hstorable hafter
    exact execute_saves hstorable hop hafter
  · rintro i rfl hafter
    exact execute_removes hafter

/-- While every store finds the file that its operation has loaded, the archive
is what the finished operations make of it one after the other. -/
theorem archive_updates {κ : Type*} [DecidableEq κ] (callbacks : List Callback)
    (removals : κ → List UInt64) (file : Option Doc) (schedule : List (Option κ))
    (h : ∀ e ∈ (runArchive callbacks removals file schedule).1, Undisturbed e) :
    let s := (runArchive callbacks removals file schedule).2
    ∃ order, Serial Operation.result (programs callbacks removals) file order s ∧
      Kept file (order.map Prod.snd) s.file := by
  intro s
  obtain ⟨order, hserial⟩ := serial_of_undisturbed Operation.result _ file schedule h
  have hfile : s.file = execute Operation.result (order.map Prod.snd) file := hserial.file
  refine ⟨order, hserial, ?_⟩
  rw [hfile]
  exact execute_kept _ file

/-- A device in the archive. -/
def oldArchive : Option Doc := some (.object [(ieeeAddrStr 1, .object [])])

/-- The node descriptor of another device. -/
def newCallback : Callback :=
  ⟨.node_desc_req, { Device.new 0x1234 with ieee_id := 2 }, ⟨0x8002, 0, 17, fun _ => 0⟩, []⟩

theorem archive_updates_apart :
    let s := (runArchive [newCallback] (fun _ : Unit => [1]) oldArchive
      [none, none, none, none, some (), some ()]).2
    ∃ order, Serial Operation.result (programs [newCallback] fun _ : Unit => [1]) oldArchive
        order s ∧ Kept oldArchive (order.map Prod.snd) s.file := by
  apply archive_updates
  simp only [runArchive, play, List.forall_mem_cons]
  exact ⟨undisturbed_load rfl, undisturbed_store _ rfl, undisturbed_load rfl,
    undisturbed_store _ rfl, undisturbed_load rfl, undisturbed_store _ rfl,
    List.forall_mem_nil _⟩

/-- `removeDev` loads before a callback saves, and stores after it. -/
theorem archive_updates_lost :
    let s := (runArchive [newCallback] (fun _ : Unit => [1]) oldArchive
      [some (), none, none, none, none, some ()]).2
    (∀ t, (s.worker t).remaining = []) ∧
      ∀ order : List (Option Unit × Operation),
        (∀ t, (worked t order).Perm (programs [newCallback] (fun _ : Unit => [1]) t)) →
          s.file ≠ execute Operation.result (order.map Prod.snd) oldArchive := by
  intro s
  refine ⟨fun t => by cases t <;> rfl, fun order hprograms heq => ?_⟩
  have hmem : ∀ t op, (t, op) ∈ order ↔
      op ∈ programs [newCallback] (fun _ : Unit => [1]) t := by
    intro t op
    rw [← (hprograms t).mem_iff]
    simp [worked]
  have hsave := (hmem none (.saveDevAddresses newCallback.device)).mpr List.mem_cons_self
  obtain ⟨before, after, horder⟩ := List.append_of_mem (List.mem_map_of_mem hsave)
  have hafter : Operation.removeDev 2 ∉ after := by
    intro hremove
    have hremove' : Operation.removeDev 2 ∈ order.map Prod.snd := by
      rw [horder]
      exact List.mem_append_right _ (List.mem_cons_of_mem _ hremove)
    obtain ⟨⟨t, op⟩, ht, rfl⟩ := List.mem_map.mp hremove'
    have hop := (hmem t _).mp ht
    cases t with
    | none => simp [programs, newCallback, Request.operations, Operation.saveDevAddresses,
        Operation.saveDevApdu] at hop
    | some u => simp [programs] at hop
  have hother : oldArchive.map (Json.member (ieeeAddrStr 2)) = some none := rfl
  have hstorable : Storable 2 .ieeeAddr oldArchive :=
    ⟨id, fun v hv => absurd (hv.symm.trans (Option.some.inj hother)) (Option.some_ne_none v)⟩
  have hsaves : (Operation.saveDevAddresses newCallback.device).Saves 2 .ieeeAddr :=
    ⟨rfl, List.mem_cons_self⟩
  have hsaved : Saved 2 .ieeeAddr (execute Operation.result
      (before ++ .saveDevAddresses newCallback.device :: after) oldArchive) :=
    execute_saves hstorable hsaves hafter
  obtain ⟨text, htext⟩ := hsaved
  rw [← horder, ← heq] at htext
  have hempty : s.file = some (.object []) := rfl
  rw [hempty] at htext
  cases htext

end KappaGateway.Zdo

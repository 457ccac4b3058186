import KappaGateway.Zdo.DeviceObjects

/-!
# Device URIs and the devices that they name

A registered handler keeps designating the device that had the address when it
was registered. Nothing that gives a device another address, or removes it,
touches the handlers, or waits for the discoveries that still hold the device.
-/

namespace KappaGateway.DeviceObjects

open Aps Zdo Kutil ZdoArchive FindOrCreate ForwardList Transition

/-- A handler under one of the two URIs of the address captures the object. -/
def Names (handlers : Text → Option Captured) (id : UInt16) (object : Nat) : Prop :=
  handlers (deviceUri id) = some (.device object) ∨
    handlers (endpointsUri id) = some (.device object)

/-- Whatever is captured is an associated device that has the address. -/
def Answer (handlers : Text → Option Captured) (assocs : List (Node Nat Device)) : Prop :=
  ∀ id object, Names handlers id object → ∃ n ∈ assocs, n.addr = object ∧ n.value.id = id

def HandlersAnswer (s : State) : Prop := Answer s.handlers s.assocs

/-- Nothing has run on a destroyed device, and the handlers answer. -/
def UrisAnswer (s : State) : Prop := s.dangled = false ∧ HandlersAnswer s

/-- The step takes no address from a device that is captured under it, does not
remove such a device, and runs nothing on a device that has been removed. -/
def KeepsCaptured : State × Action × State → Prop
  | (s, .response object _ _, _) | (s, .discovery object _, _) =>
      object ∈ s.assocs.map Node.addr
  | (s, .device_annce_proc msg, _) =>
      ∀ m ∈ message_preprocess_ msg 12,
        ∀ n ∈ s.assocs.find? (·.value.ieee_id = ieeeAddrAt msg.asdu m.2),
          Names s.handlers n.value.id n.addr → m.1 = n.value.id
  | (s, .refreshDevice shortAddr _, _) => ∀ object, ¬ Names s.handlers shortAddr object
  | (s, .mgmt_Leave_req ieeeAddr, _) =>
      ∀ object, ¬ Names s.handlers (leavingId s ieeeAddr) object
  | _ => True

instance (handlers : Text → Option Captured) (id : UInt16) (object : Nat) :
    Decidable (Names handlers id object) := by
  unfold Names
  infer_instance

theorem captures_none_iff {c : Option Captured} :
    (∀ object, ¬ c = some (.device object)) ↔ c = none ∨ c = some .thisDevice := by
  rcases c with _ | _ | object <;> simp

instance (handlers : Text → Option Captured) (id : UInt16) :
    Decidable (∀ object, ¬ Names handlers id object) :=
  decidable_of_iff ((handlers (deviceUri id) = none ∨ handlers (deviceUri id) = some .thisDevice) ∧
    (handlers (endpointsUri id) = none ∨ handlers (endpointsUri id) = some .thisDevice)) (by
      simp only [Names, not_or, forall_and, captures_none_iff])

instance : (e : State × Action × State) → Decidable (KeepsCaptured e)
  | (s, .device_annce_proc msg, _) =>
      inferInstanceAs (Decidable (∀ m ∈ message_preprocess_ msg 12,
        ∀ n ∈ s.assocs.find? (·.value.ieee_id = ieeeAddrAt msg.asdu m.2),
          Names s.handlers n.value.id n.addr → m.1 = n.value.id))
  | (s, .refreshDevice shortAddr _, _) =>
      inferInstanceAs (Decidable (∀ object, ¬ Names s.handlers shortAddr object))
  | (s, .mgmt_Leave_req ieeeAddr, _) =>
      inferInstanceAs (Decidable (∀ object, ¬ Names s.handlers (leavingId s ieeeAddr) object))
  | (s, .response object _ _, _) | (s, .discovery object _, _) =>
      inferInstanceAs (Decidable (object ∈ s.assocs.map Node.addr))
  | (_, .deviceQuery _ _, _) | (_, .recoverEntry _ _, _) => isTrue trivial

/-! ### The URIs of an address -/

theorem nwkAddrStr_length (id : UInt16) : (nwkAddrStr id).length = 4 := by
  simp [nwkAddrStr]

theorem deviceUri_injective {a b : UInt16} (h : deviceUri a = deviceUri b) : a = b := by
  have htext : nwkAddrStr a = nwkAddrStr b := List.append_cancel_left h
  exact UInt16.toNat_inj.mp (intToHexStr_injective a.toNat_lt b.toNat_lt htext)

theorem endpointsUri_injective {a b : UInt16} (h : endpointsUri a = endpointsUri b) : a = b :=
  deviceUri_injective (List.append_cancel_right h)

theorem deviceUri_ne_endpointsUri (a b : UInt16) : deviceUri a ≠ endpointsUri b := by
  intro h
  have hlength := congrArg List.length h
  simp [deviceUri, endpointsUri, nwkAddrStr_length, cstr] at hlength

/-- Registering for an address replaces what is captured under that address. -/
theorem names_register {handlers : Text → Option Captured} {id i : UInt16} {target : Captured}
    {object : Nat} :
    Names (register id target handlers) i object ↔
      if i = id then target = .device object else Names handlers i object := by
  by_cases h : i = id
  · subst h
    simp [Names, register, deviceUri_ne_endpointsUri]
  · have hdevice : deviceUri i ≠ deviceUri id := fun heq => h (deviceUri_injective heq)
    have hendpoints : endpointsUri i ≠ endpointsUri id := fun heq => h (endpointsUri_injective heq)
    have hcross := (deviceUri_ne_endpointsUri id i).symm
    simp [Names, register, h, hdevice, hendpoints, hcross, deviceUri_ne_endpointsUri]

namespace Answer

variable {handlers : Text → Option Captured} {assocs : List (Node Nat Device)}

theorem register (h : Answer handlers assocs) {n : Node Nat Device} (hn : n ∈ assocs) :
    Answer (register n.value.id (.device n.addr) handlers) assocs := by
  intro id object hnames
  rw [names_register] at hnames
  split at hnames
  · next heq =>
      obtain rfl := Captured.device.inj hnames
      exact ⟨n, hn, rfl, heq.symm⟩
  · exact h id object hnames

theorem cons (h : Answer handlers assocs) (n : Node Nat Device) :
    Answer handlers (n :: assocs) := by
  intro id object hnames
  obtain ⟨m, hm, hmem⟩ := h id object hnames
  exact ⟨m, by simp [hm], hmem⟩

/-- Changing a device keeps the answers exactly if it keeps the address under
which the device is captured. -/
theorem set_iff {before after : List (Node Nat Device)} {x y : Node Nat Device}
    (h : Answer handlers (before ++ x :: after)) (hdistinct : Distinct (before ++ x :: after))
    (hxy : y.addr = x.addr) :
    Answer handlers (before ++ y :: after) ↔
      (Names handlers x.value.id x.addr → y.value.id = x.value.id) := by
  have hother : x.addr ∉ (before ++ after).map Node.addr :=
    ((nodup_map_middle Node.addr before after x).mp hdistinct).1
  constructor
  · intro hset hnames
    obtain ⟨n, hn, haddr, hid⟩ := hset _ _ hnames
    rcases (List.perm_middle.mem_iff.trans List.mem_cons).mp hn with rfl | hn
    · exact hid
    · exact absurd (haddr ▸ List.mem_map_of_mem hn) hother
  · intro hkeep id object hnames
    obtain ⟨n, hn, rfl, rfl⟩ := h id object hnames
    rcases (List.perm_middle.mem_iff.trans List.mem_cons).mp hn with rfl | hn
    · exact ⟨y, by simp, hxy, hkeep hnames⟩
    · exact ⟨n, List.perm_middle.mem_iff.mpr (List.mem_cons_of_mem y hn), rfl, rfl⟩

/-- Removing the devices with an address keeps the answers exactly if nothing is
captured under it. -/
theorem filter_iff (h : Answer handlers assocs) (a : UInt16) :
    Answer handlers (assocs.filter (·.value.id ≠ a)) ↔ ∀ object, ¬ Names handlers a object := by
  constructor
  · intro hfilter object hnames
    obtain ⟨n, hn, -, hid⟩ := hfilter a object hnames
    exact absurd hid (by simpa using (List.mem_filter.mp hn).2)
  · intro hnone id object hnames
    obtain ⟨n, hn, rfl, rfl⟩ := h id object hnames
    refine ⟨n, List.mem_filter.mpr ⟨hn, ?_⟩, rfl, rfl⟩
    have hne : n.value.id ≠ a := fun heq => hnone _ (heq ▸ hnames)
    simpa using hne

end Answer

/-! ### Steps and runs -/

/-- Different devices have different numbers, and all numbers are taken. -/
structure Numbered (s : State) : Prop where
  distinct : Distinct s.assocs
  taken : ∀ n ∈ s.assocs, n.addr < s.constructed

theorem init_numbered : Numbered init := ⟨by simp [init, Distinct], by simp [init]⟩

theorem Numbered.congr {s t : State} (h : Numbered s)
    (haddr : t.assocs.map Node.addr = s.assocs.map Node.addr)
    (hconstructed : s.constructed ≤ t.constructed) : Numbered t := by
  refine ⟨?_, ?_⟩
  · rw [Distinct, haddr]
    exact h.distinct
  · intro n hn
    have hmem : n.addr ∈ s.assocs.map Node.addr := haddr ▸ List.mem_map_of_mem hn
    obtain ⟨m, hm, heq⟩ := List.mem_map.mp hmem
    have := h.taken m hm
    omega

theorem Numbered.registerJoined {s : State} (h : Numbered s) (id : UInt16) (joined : Bool) :
    Numbered (s.registerJoined id joined) := by
  unfold State.registerJoined
  split
  · exact h
  · exact ⟨h.distinct, h.taken⟩

theorem Numbered.removeAssoc {s : State} (h : Numbered s) (id : UInt16) :
    Numbered (s.removeAssoc id) := by
  refine ⟨?_, fun n hn => h.taken n (List.mem_filter.mp hn).1⟩
  exact List.Nodup.sublist (List.filter_sublist.map Node.addr) h.distinct

theorem find?_append_of_none {T : Type*} {p : T → Bool} {before : List T} {x : T}
    (hbefore : ∀ y ∈ before, ¬ p y) (hx : p x) (after : List T) :
    (before ++ x :: after).find? p = some x := by
  rw [List.find?_append, List.find?_eq_none.mpr hbefore]
  simp [hx]

section Upsert

variable {s : State} {p : Device → Bool} {new : Device} {f : Device → Device}

theorem Numbered.upsertDevice (h : Numbered s) : Numbered (s.upsertDevice p new f) := by
  obtain ⟨hnone, hset⟩ | ⟨before, x, after, hl, -, -, hset⟩ :=
    upsert_cases (fun n : Node Nat Device => p n.value) ⟨s.constructed, new⟩ s.assocs
  · have hfresh : s.constructed ∉ s.assocs.map Node.addr := by
      intro hmem
      obtain ⟨n, hn, heq⟩ := List.mem_map.mp hmem
      have := h.taken n hn
      omega
    have hany : s.devices.any p = false := by simpa [State.devices] using hnone
    refine ⟨?_, fun n hn => ?_⟩
    · rw [State.upsertDevice, hset, Distinct, List.map_cons, List.nodup_cons]
      exact ⟨hfresh, h.distinct⟩
    · simp only [State.upsertDevice, hset, hany, List.mem_cons] at hn ⊢
      rcases hn with rfl | hn
      · simp
      · have := h.taken n hn
        simp only [Bool.false_eq_true, if_false]
        omega
  · apply h.congr
    · rw [State.upsertDevice, hset, hl]
      simp
    · dsimp only [State.upsertDevice]
      split <;> omega

/-- What is done to the device that is found keeps the answers exactly if it
keeps the address under which the device is captured. -/
theorem handlersAnswer_upsertDevice (h : HandlersAnswer s) (hs : Numbered s) :
    HandlersAnswer (s.upsertDevice p new f) ↔
      ∀ n ∈ s.assocs.find? (p ·.value),
        Names s.handlers n.value.id n.addr → (f n.value).id = n.value.id := by
  obtain ⟨hnone, hset⟩ | ⟨before, x, after, hl, hx, hbefore, hset⟩ :=
    upsert_cases (fun n : Node Nat Device => p n.value) ⟨s.constructed, new⟩ s.assocs
  · have hanswer : HandlersAnswer (s.upsertDevice p new f) := by
      rw [HandlersAnswer, State.upsertDevice, hset]
      exact h.cons _
    have hfind : s.assocs.find? (p ·.value) = none := List.find?_eq_none.mpr hnone
    simp [hanswer, hfind]
  · have hfind : s.assocs.find? (p ·.value) = some x := hl ▸ find?_append_of_none hbefore hx _
    have hanswer : Answer s.handlers (before ++ x :: after) := hl ▸ h
    have hdistinct : Distinct (before ++ x :: after) := hl ▸ hs.distinct
    rw [hfind, HandlersAnswer, State.upsertDevice, hset]
    simp only [Option.mem_def, Option.some.injEq, forall_eq']
    exact hanswer.set_iff hdistinct rfl

end Upsert

theorem modifyObject_eq (s : State) {object : Nat} (f : Device → Device) {n : Node Nat Device}
    (h : s.assocs.find? (·.addr = object) = some n) :
    n.addr = object ∧ ∃ before after, s.assocs = before ++ n :: after ∧
      (s.modifyObject object f).assocs = before ++ { n with value := f n.value } :: after := by
  have hobject : n.addr = object := by simpa using List.find?_some h
  have hany : s.assocs.any (·.addr = object) :=
    List.any_eq_true.mpr ⟨n, List.mem_of_find?_eq_some h, by simpa using hobject⟩
  obtain ⟨before, x, after, hl, hx, hbefore, hset⟩ := exists_split hany
  have hfind := find?_append_of_none hbefore hx after
  rw [← hl, h] at hfind
  obtain rfl := Option.some.inj hfind
  exact ⟨hobject, before, after, hl, hset _⟩

/-- What runs with a pointer to a device leaves the numbers alone if it does so
where the device is there. -/
theorem Numbered.onObject {s : State} (h : Numbered s) {object : Nat}
    {run : Node Nat Device → State}
    (hrun : ∀ n, s.assocs.find? (·.addr = object) = some n → Numbered (run n)) :
    Numbered (s.onObject object run) := by
  unfold State.onObject
  split
  · exact ⟨h.distinct, h.taken⟩
  · next n hn => exact hrun n hn

theorem Numbered.modifyObject {s : State} (h : Numbered s) {object : Nat} {n : Node Nat Device}
    (hn : s.assocs.find? (·.addr = object) = some n) (f : Device → Device) :
    Numbered (s.modifyObject object f) := by
  obtain ⟨-, before, after, hl, hset⟩ := modifyObject_eq s f hn
  apply h.congr
  · simp only [hset, hl, List.map_append, List.map_cons]
  · exact Nat.le_refl _

theorem Numbered.next {s : State} (h : Numbered s) (locals : List Endpoint) (a : Action) :
    Numbered (next locals s a) := by
  cases a with
  | response object r x =>
      apply h.onObject
      intro n hn
      have hnew := h.modifyObject hn fun d => (r.callback locals [] (d, none) x).1
      exact ⟨hnew.distinct, hnew.taken⟩
  | discovery object finished =>
      apply h.onObject
      intro n hn
      exact h.modifyObject hn _
  | device_annce_proc msg =>
      simp only [DeviceObjects.next]
      split
      · exact h
      · exact h.upsertDevice
  | deviceQuery shortAddr extAddr =>
      simp only [DeviceObjects.next, DeviceObjects.deviceQuery]
      exact h.upsertDevice
  | refreshDevice shortAddr extAddr =>
      simp only [DeviceObjects.next, DeviceObjects.deviceQuery]
      exact (h.removeAssoc shortAddr).upsertDevice
  | recoverEntry beyond entry =>
      simp only [DeviceObjects.next]
      exact h.upsertDevice.registerJoined _ _
  | mgmt_Leave_req ieeeAddr => exact h.upsertDevice.removeAssoc _

theorem init_handlersAnswer : HandlersAnswer init := by
  intro id object hnames
  have hnames : Names (register 0 .thisDevice fun _ => none) id object := hnames
  rw [names_register] at hnames
  split at hnames <;> simp [Names] at hnames

section Answers

variable {s : State}

theorem handlersAnswer_deviceQuery (h : HandlersAnswer s) (hs : Numbered s) (shortAddr : UInt16)
    (extAddr : UInt64) : HandlersAnswer (deviceQuery s shortAddr extAddr) := by
  apply (handlersAnswer_upsertDevice h hs).mpr
  intro n hn _
  have hid : n.value.id = shortAddr := by simpa using List.find?_some hn
  exact hid.symm

/-- The device that `refreshDevice` puts in the place of a removed one is another
object. -/
theorem handlersAnswer_refreshDevice (h : HandlersAnswer s) (hs : Numbered s) (shortAddr : UInt16)
    (extAddr : UInt64) :
    HandlersAnswer (deviceQuery (s.removeAssoc shortAddr) shortAddr extAddr) ↔
      ∀ object, ¬ Names s.handlers shortAddr object := by
  have hremoved : HandlersAnswer (s.removeAssoc shortAddr) ↔ _ := Answer.filter_iff h shortAddr
  constructor
  · intro hanswer object hnames
    obtain ⟨m, hm, rfl, -⟩ := h _ _ hnames
    have htaken := hs.taken m hm
    obtain ⟨n, hn, haddr, hid⟩ := hanswer shortAddr m.addr hnames
    have hnone : ∀ y ∈ (s.removeAssoc shortAddr).assocs, ¬ (y.value.id = shortAddr) := by
      simp [State.removeAssoc]
    have hnone' : ∀ y ∈ (s.removeAssoc shortAddr).assocs,
        ¬ (fun n : Node Nat Device => decide (n.value.id = shortAddr)) y = true := by
      simpa using hnone
    rw [deviceQuery, State.upsertDevice, upsert_of_none hnone', List.mem_cons] at hn
    rcases hn with rfl | hn
    · simp only [State.removeAssoc] at haddr
      omega
    · exact hnone n hn hid
  · intro hnone
    exact handlersAnswer_deviceQuery (hremoved.mpr hnone) (hs.removeAssoc shortAddr) _ _

/-- Changing the device that a pointer designates, without its address, keeps the
answers. -/
theorem handlersAnswer_modifyObject (h : HandlersAnswer s) (hs : Numbered s) {object : Nat}
    {n : Node Nat Device} (hn : s.assocs.find? (·.addr = object) = some n)
    {f : Device → Device} (hf : (f n.value).id = n.value.id) :
    HandlersAnswer (s.modifyObject object f) := by
  obtain ⟨-, before, after, hl, hset⟩ := modifyObject_eq s f hn
  have hold : Answer s.handlers (before ++ n :: after) := hl ▸ h
  rw [HandlersAnswer, hset]
  exact (hold.set_iff (y := { n with value := f n.value }) (hl ▸ hs.distinct) rfl).mpr
    fun _ => hf

theorem handlersAnswer_response (h : HandlersAnswer s) (hs : Numbered s)
    (locals : List Endpoint) (object : Nat) (r : Request) (x : AfMessage) :
    HandlersAnswer (next locals s (.response object r x)) := by
  simp only [next, State.onObject]
  split
  · exact h
  · next n hn =>
      have hkeys := (callback_keys locals [] r n.value none x).1
      have hnew := handlersAnswer_modifyObject h hs hn
        (f := fun d => (r.callback locals [] (d, none) x).1) hkeys
      obtain ⟨rfl, before, after, -, hset⟩ := modifyObject_eq s
        (fun d => (r.callback locals [] (d, none) x).1) hn
      have hnew : Answer s.handlers (before ++
          { n with value := (r.callback locals [] (n.value, none) x).1 } :: after) := by
        rw [HandlersAnswer, hset] at hnew
        exact hnew
      simp only [HandlersAnswer, hset]
      split
      · have hregistered := hnew.register (List.mem_append_right before List.mem_cons_self)
        simpa only [hkeys] using hregistered
      · exact hnew

theorem handlersAnswer_discovery (h : HandlersAnswer s) (hs : Numbered s)
    (locals : List Endpoint) (object : Nat) (finished : Bool) :
    HandlersAnswer (next locals s (.discovery object finished)) := by
  simp only [next, State.onObject]
  split
  · exact h
  · next n hn =>
      apply handlersAnswer_modifyObject h hs hn
      split <;> rfl

theorem handlersAnswer_registerJoined (h : HandlersAnswer s) (id : UInt16) (joined : Bool) :
    HandlersAnswer (s.registerJoined id joined) := by
  unfold State.registerJoined
  split
  · exact h
  · next n hn =>
      have hid : n.value.id = id := by simpa using List.find?_some hn
      subst hid
      rw [HandlersAnswer]
      dsimp only
      split
      · exact h.register (List.mem_of_find?_eq_some hn)
      · exact h

/-- What runs with a pointer leaves a dangling one behind exactly if the device is
gone. -/
theorem dangled_onObject (h : s.dangled = false) {object : Nat} {run : Node Nat Device → State}
    (hrun : ∀ n, (run n).dangled = s.dangled) :
    (s.onObject object run).dangled = false ↔ object ∈ s.assocs.map Node.addr := by
  unfold State.onObject
  split
  · next hnone =>
      have habsent : object ∉ s.assocs.map Node.addr := by
        simpa [eq_comm] using List.find?_eq_none.mp hnone
      simp [habsent]
  · next n hn =>
      have hmem : object ∈ s.assocs.map Node.addr := by
        have haddr : n.addr = object := by simpa using List.find?_some hn
        exact haddr ▸ List.mem_map_of_mem (List.mem_of_find?_eq_some hn)
      simp [hmem, hrun, h]

@[simp] theorem dangled_registerJoined (id : UInt16) (joined : Bool) :
    (s.registerJoined id joined).dangled = s.dangled := by
  unfold State.registerJoined
  split <;> rfl

/-- A step from a state whose URIs answer leads to another one exactly if it
keeps the captured devices and runs on no removed one. -/
theorem urisAnswer_next (h : UrisAnswer s) (hs : Numbered s) (locals : List Endpoint)
    (a : Action) (t : State) : UrisAnswer (next locals s a) ↔ KeepsCaptured (s, a, t) := by
  obtain ⟨hd, h⟩ := h
  cases a with
  | response object r x =>
      have hanswer := handlersAnswer_response h hs locals object r x
      simp only [UrisAnswer, hanswer, and_true, KeepsCaptured]
      exact dangled_onObject hd fun _ => rfl
  | discovery object finished =>
      have hanswer := handlersAnswer_discovery h hs locals object finished
      simp only [UrisAnswer, hanswer, and_true, KeepsCaptured]
      exact dangled_onObject hd fun _ => rfl
  | device_annce_proc msg =>
      simp only [next, KeepsCaptured]
      cases message_preprocess_ msg 12 with
      | none => simpa using ⟨hd, h⟩
      | some m =>
          simp only [Option.mem_def, Option.some.injEq, forall_eq']
          exact (and_iff_right hd).trans (handlersAnswer_upsertDevice h hs)
  | deviceQuery shortAddr extAddr =>
      have hanswer : UrisAnswer (next locals s (.deviceQuery shortAddr extAddr)) :=
        ⟨hd, handlersAnswer_deviceQuery h hs shortAddr extAddr⟩
      simpa [KeepsCaptured] using hanswer
  | refreshDevice shortAddr extAddr =>
      exact (and_iff_right hd).trans (handlersAnswer_refreshDevice h hs shortAddr extAddr)
  | recoverEntry beyond entry =>
      have hanswer : UrisAnswer (next locals s (.recoverEntry beyond entry)) := by
        refine ⟨(dangled_registerJoined _ _).trans hd, handlersAnswer_registerJoined ?_ _ _⟩
        exact (handlersAnswer_upsertDevice h hs).mpr fun n _ _ => rfl
      simpa [KeepsCaptured] using hanswer
  | mgmt_Leave_req ieeeAddr =>
      have hupsert : HandlersAnswer (s.upsertDevice (·.ieee_id = ieeeAddr)
          (.new ieeeAddr.toUInt16) id) :=
        (handlersAnswer_upsertDevice h hs).mpr fun n _ _ => rfl
      exact (and_iff_right hd).trans (hupsert.filter_iff (leavingId s ieeeAddr))

end Answers

/-- In every run of joins, announcements, queries, recoveries and removals, the
URIs answer for the devices they name in all states exactly if no step gives a
captured device another address, removes it, or runs on a removed device. -/
theorem device_uris_answer (locals : List Endpoint)
    {tr : List (State × Action × State)} {s : State} (path : Path (Step locals) init tr s) :
    (∀ e ∈ tr, UrisAnswer e.2.2) ↔ ∀ e ∈ tr, KeepsCaptured e := by
  have each : ∀ s a t, UrisAnswer s ∧ Numbered s → Step locals s a t →
      (UrisAnswer t ↔ KeepsCaptured (s, a, t)) := by
    rintro s a t ⟨h, hs⟩ ⟨-, rfl⟩
    exact urisAnswer_next h hs locals a _
  have preserved : ∀ s a t, UrisAnswer s ∧ Numbered s → Step locals s a t → UrisAnswer t →
      UrisAnswer t ∧ Numbered t := by
    rintro s a t ⟨h, hs⟩ ⟨-, rfl⟩ hgood
    exact ⟨hgood, hs.next locals a⟩
  exact path.forall_iff each preserved ⟨⟨rfl, init_handlersAnswer⟩, init_numbered⟩

theorem not_urisAnswer {s : State} (id : UInt16) (object : Nat)
    (h : s.handlers (deviceUri id) = some (.device object))
    (hstale : ∀ n ∈ s.assocs, n.addr = object → n.value.id ≠ id) : ¬ UrisAnswer s := by
  rintro ⟨-, hanswer⟩
  obtain ⟨n, hn, haddr, hid⟩ := hanswer id object (Or.inl h)
  exact hstale n hn haddr hid

/-- An endpoint of this device that switches lights. -/
def switch : Endpoint := ⟨1, ⟨[6], [], 1, 0x0104, 0, 0⟩, none⟩

/-- The device with extended address 1 announces a short address. -/
def announcement (id : UInt8) : AfMessage := ⟨0x0013, 0, 12, fun i => [0, id, 0, 1].getD i 0⟩

/-- An endpoint with the cluster that the switch serves. -/
def light : AfMessage :=
  ⟨0x8004, 0, 15, fun i => [0, 0, 5, 0, 10, 1, 4, 1, 0, 0, 0, 1, 6, 0, 0].getD i 0⟩

/-- A device announces itself, and joins with one endpoint. -/
def join : List Action :=
  [.device_annce_proc (announcement 5), .response 0 (.simple_desc_req 1) light]

/-- Its discovery ends, it announces the address that it has, and another device
comes and leaves. -/
def staying : List Action :=
  join ++ [.discovery 0 true, .device_annce_proc (announcement 5), .deviceQuery 7 2,
    .discovery 1 false, .mgmt_Leave_req 2]

theorem device_uris_answer_staying :
    ∃ tr s, Path (Step [switch]) init tr s ∧ s.handlers (deviceUri 5) = some (.device 0) ∧
      (deref s.assocs 0).map Device.id = some 5 ∧ ∀ e ∈ tr, UrisAnswer e.2.2 := by
  have hpath : Path (Step [switch]) init (play (next [switch]) init staying).1 _ :=
    play_path staying (by decide)
  exact ⟨_, _, hpath, by decide, by decide, (device_uris_answer [switch] hpath).mpr (by decide)⟩

/-- After the device has announced another address, the URI of the old one
reports it still; after a refresh or a removal, it reports a device that is gone. -/
theorem device_uris_stale :
    (∃ tr s, Path (Step [switch]) init tr s ∧ s.handlers (deviceUri 5) = some (.device 0) ∧
      (deref s.assocs 0).map Device.id = some 6 ∧ ¬ ∀ e ∈ tr, UrisAnswer e.2.2) ∧
    (∃ tr s, Path (Step [switch]) init tr s ∧ s.handlers (deviceUri 5) = some (.device 0) ∧
      deref s.assocs 0 = none ∧ ¬ ∀ e ∈ tr, UrisAnswer e.2.2) ∧
    ∃ tr s, Path (Step [switch]) init tr s ∧ s.handlers (deviceUri 5) = some (.device 0) ∧
      s.assocs = [] ∧ ¬ ∀ e ∈ tr, UrisAnswer e.2.2 := by
  refine ⟨⟨_, _, play_path (join ++ [.device_annce_proc (announcement 6)]) (by decide),
      by decide, by decide, fun hall => ?_⟩,
    ⟨_, _, play_path (join ++ [.refreshDevice 5 1]) (by decide), by decide, by decide,
      fun hall => ?_⟩,
    ⟨_, _, play_path (join ++ [.mgmt_Leave_req 1]) (by decide), by decide, by decide,
      fun hall => ?_⟩⟩
  all_goals
    have hlast := hall _ (List.getLast_mem (by decide))
    exact not_urisAnswer 5 0 (by decide) (by decide) hlast

end KappaGateway.DeviceObjects

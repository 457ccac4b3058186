import KappaGateway.Aps.DataService

/-!
# Which entry a handle designates

As long as requests finish in the reverse order of their registration, the list
is the stack of the registered requests and every handle designates its own
entry. Removing any other handle swaps its entry with the newest one and frees
the cell to which the newest handle still points.
-/

namespace KappaGateway.DataService

open ForwardList Transition

variable {Msg Cb Addr : Type*} {handlers : Nat → Handlers Msg Cb} {s t : State Msg Cb Addr}

/-- The triple that request `i` registers. -/
def entry (handlers : Nat → Handlers Msg Cb) (i : Nat) : MsgRcvr Msg Cb :=
  ⟨(handlers i).pred, (handlers i).cb, i⟩

/-- A request that finishes is the newest one registered. -/
def LastFirst : State Msg Cb Addr × Action Msg Addr × State Msg Cb Addr → Prop
  | (s, .remove i, _) => s.registered.head? = some i
  | _ => True

/-- The cell of a request: where its handle points, with its own triple. -/
def cellOf (handlers : Nat → Handlers Msg Cb) (it : Nat → Option Addr) (i : Nat) :
    Option (Node Addr (MsgRcvr Msg Cb)) :=
  (it i).map fun a => ⟨a, entry handlers i⟩

/-- The list is the stack of the registered requests. -/
structure Stacked (handlers : Nat → Handlers Msg Cb) (s : State Msg Cb Addr) : Prop where
  buffer : s.buffer = s.registered.filterMap (cellOf handlers s.it)
  placed : ∀ i ∈ s.registered, ∃ a, s.it i = some a
  distinct : Distinct s.buffer

theorem initial_stacked : Stacked handlers (initial : State Msg Cb Addr) := by
  constructor <;> simp [initial, Distinct]

theorem Stacked.mem_buffer (h : Stacked handlers s) {i : Nat} {a : Addr}
    (hi : i ∈ s.registered) (ha : s.it i = some a) : ⟨a, entry handlers i⟩ ∈ s.buffer := by
  rw [h.buffer]
  exact List.mem_filterMap.mpr ⟨i, hi, by simp [cellOf, ha]⟩

variable [DecidableEq Addr]

/-- Every registered handle designates a live cell with its own triple. -/
def Designates (handlers : Nat → Handlers Msg Cb) (s : State Msg Cb Addr) : Prop :=
  ∀ i ∈ s.registered, s.target i = some (entry handlers i)

/-- After the step every registered handle designates its own triple; a removal
deletes the triple of its handle and no other. -/
def Intact (handlers : Nat → Handlers Msg Cb) :
    State Msg Cb Addr × Action Msg Addr × State Msg Cb Addr → Prop
  | (s, a, t) =>
      Designates handlers t ∧
        ∀ i, a = .remove i →
          (entry handlers i :: t.buffer.map Node.value).Perm (s.buffer.map Node.value)

theorem Stacked.target_eq (h : Stacked handlers s) {i : Nat} (hi : i ∈ s.registered) :
    s.target i = some (entry handlers i) := by
  obtain ⟨a, ha⟩ := h.placed i hi
  rw [State.target, ha]
  exact deref_of_mem h.distinct (h.mem_buffer hi ha)

theorem Stacked.designates (h : Stacked handlers s) : Designates handlers s :=
  fun _ hi => h.target_eq hi

theorem Stacked.construct (h : Stacked handlers s) {i : Nat} {addr : Addr}
    (hen : Enabled s (.construct i addr)) :
    Stacked handlers (next handlers s (.construct i addr)) := by
  obtain ⟨hfresh, haddr⟩ := hen
  have hne : ∀ k ∈ s.registered, k ≠ i := by
    rintro k hk rfl
    obtain ⟨a, ha⟩ := h.placed k hk
    simp [hfresh] at ha
  have hcells : s.registered.filterMap (cellOf handlers (Function.update s.it i (some addr))) =
      s.registered.filterMap (cellOf handlers s.it) := by
    apply List.filterMap_congr
    intro k hk
    simp [cellOf, hne k hk]
  constructor
  · simp only [next]
    rw [List.filterMap_cons_some (b := ⟨addr, entry handlers i⟩) (by simp [cellOf]), hcells,
      ← h.buffer]
    rfl
  · intro k hk
    rcases List.mem_cons.mp hk with rfl | hmem
    · exact ⟨addr, by simp [next]⟩
    · obtain ⟨a, ha⟩ := h.placed k hmem
      exact ⟨a, by simpa [next, hne k hmem] using ha⟩
  · exact List.nodup_cons.mpr ⟨haddr, h.distinct⟩

/-- A step other than a removal. -/
theorem Stacked.step (h : Stacked handlers s) {a : Action Msg Addr}
    (hstep : Step handlers s a t) (ha : ∀ i, a ≠ .remove i) : Stacked handlers t := by
  obtain ⟨hen, rfl⟩ := hstep
  cases a with
  | construct i addr => exact h.construct hen
  | arm i =>
      simp only [next]
      split
      · exact ⟨h.buffer, h.placed, h.distinct⟩
      · exact h
  | remove i => exact absurd rfl (ha i)
  | indicate msg =>
      simp only [next, indicate]
      split
      · exact ⟨h.buffer, h.placed, h.distinct⟩
      · exact h

/-- Whatever the order, `remove` deletes the triple that its handle designates. -/
theorem remove_perm (hs : Distinct s.buffer) {i : Nat} {y : MsgRcvr Msg Cb}
    (h : s.target i = some y) :
    (y :: (remove s i).buffer.map Node.value).Perm (s.buffer.map Node.value) := by
  obtain ⟨it, hit, hy⟩ := Option.bind_eq_some_iff.mp h
  simp only [remove, hit]
  exact swapFront_tail_perm hs hy

/-- The newest request finishes: its cell is the front. -/
theorem Stacked.remove_newest (h : Stacked handlers s) {i : Nat} {rest : List Nat}
    (hi : s.registered = i :: rest) : Stacked handlers (remove s i) := by
  obtain ⟨a, ha⟩ := h.placed i (by simp [hi])
  have hbuffer : s.buffer =
      ⟨a, entry handlers i⟩ :: rest.filterMap (cellOf handlers s.it) := by
    rw [h.buffer, hi]
    exact List.filterMap_cons_some (by simp [cellOf, ha])
  have hdistinct := h.distinct
  rw [hbuffer] at hdistinct
  have htail : (swapFront s.buffer a).tail = rest.filterMap (cellOf handlers s.it) := by
    rw [hbuffer]
    exact congrArg List.tail (swapFront_front hdistinct)
  constructor
  · simp [remove, ha, htail, hi]
  · intro k hk
    have hmem : k ∈ rest := by simpa [remove, hi] using hk
    exact h.placed k (by simp [hi, hmem])
  · simp only [remove, ha, htail]
    exact (List.nodup_cons.mp hdistinct).2

/-- Another request finishes: the newest handle is left dangling. -/
theorem Stacked.remove_older (h : Stacked handlers s) {i k : Nat} {rest : List Nat}
    (hk : s.registered = k :: rest) (hi : i ∈ rest) :
    (remove s i).target k = none := by
  obtain ⟨a, ha⟩ := h.placed k (by simp [hk])
  obtain ⟨b, hb⟩ := h.placed i (by simp [hk, hi])
  have hbuffer : s.buffer =
      ⟨a, entry handlers k⟩ :: rest.filterMap (cellOf handlers s.it) := by
    rw [h.buffer, hk]
    exact List.filterMap_cons_some (by simp [cellOf, ha])
  have hdistinct := h.distinct
  rw [hbuffer] at hdistinct
  have hmem : ⟨b, entry handlers i⟩ ∈ rest.filterMap (cellOf handlers s.it) :=
    List.mem_filterMap.mpr ⟨i, hi, by simp [cellOf, hb]⟩
  obtain ⟨hfront, hrest⟩ := List.nodup_cons.mp hdistinct
  have hab : a ≠ b := by
    rintro rfl
    exact hfront (List.mem_map.mpr ⟨_, hmem, rfl⟩)
  have hit : (remove s i).it k = some a := ha
  rw [State.target, hit, Option.bind_some, deref_eq_none_iff]
  simp only [remove, hb, hbuffer]
  rw [swapFront_other hdistinct hab (deref_of_mem hrest hmem), List.tail_cons, assign_addr]
  exact hfront

theorem intact_iff_lastFirst (h : Stacked handlers s) {a : Action Msg Addr}
    (hstep : Step handlers s a t) : Intact handlers (s, a, t) ↔ LastFirst (s, a, t) := by
  by_cases ha : ∃ i, a = .remove i
  · obtain ⟨i, rfl⟩ := ha
    obtain ⟨hen, rfl⟩ := hstep
    have hi : i ∈ s.registered := hen
    cases hreg : s.registered with
    | nil => simp [hreg] at hi
    | cons k rest =>
        constructor
        · rintro ⟨hdes, -⟩
          by_contra hne
          have hki : k ≠ i := by simpa [LastFirst, hreg] using hne
          have hrest : i ∈ rest := by simpa [hreg, Ne.symm hki] using hi
          have hk : k ∈ (remove s i).registered := by simp [remove, hreg, hki]
          have hgone : (remove s i).target k = some (entry handlers k) := hdes k hk
          rw [h.remove_older hreg hrest] at hgone
          exact absurd hgone (by simp)
        · intro hlast
          obtain rfl : k = i := by simpa [LastFirst, hreg] using hlast
          refine ⟨(h.remove_newest hreg).designates, ?_⟩
          rintro j hj
          obtain rfl : k = j := by simpa using hj
          exact remove_perm h.distinct (h.target_eq hi)
  · have ha : ∀ i, a ≠ .remove i := fun i hi => ha ⟨i, hi⟩
    have hlast : LastFirst (s, a, t) := by
      cases a with
      | remove i => exact absurd rfl (ha i)
      | _ => trivial
    exact ⟨fun _ => hlast, fun _ => ⟨(h.step hstep ha).designates, fun i hi => absurd hi (ha i)⟩⟩

theorem Stacked.of_lastFirst (h : Stacked handlers s) {a : Action Msg Addr}
    (hstep : Step handlers s a t) (hlast : LastFirst (s, a, t)) : Stacked handlers t := by
  by_cases ha : ∃ i, a = .remove i
  · obtain ⟨i, rfl⟩ := ha
    obtain ⟨-, rfl⟩ := hstep
    obtain ⟨rest, hreg⟩ := List.head?_eq_some_iff.mp hlast
    exact h.remove_newest hreg
  · exact h.step hstep fun i hi => ha ⟨i, hi⟩

/-- In every run of any number of requests and incoming messages, all handles
keep their own entries, and removals delete nothing else, if and only if every
request that finishes is the newest one registered. -/
theorem handler_registry {tr : List (State Msg Cb Addr × Action Msg Addr × State Msg Cb Addr)}
    (path : Path (Step handlers) initial tr s) :
    (∀ e ∈ tr, Intact handlers e) ↔ ∀ e ∈ tr, LastFirst e :=
  path.forall_iff (fun _ _ _ hinv hstep => intact_iff_lastFirst hinv hstep)
    (fun _ _ _ hinv hstep hgood =>
      hinv.of_lastFirst hstep ((intact_iff_lastFirst hinv hstep).mp hgood))
    initial_stacked

/-- Two nested requests over messages that are plain numbers. -/
def nestedRequests : List (Action Nat Nat) :=
  [.construct 0 100, .arm 0, .construct 1 101, .arm 1, .indicate 7, .remove 1, .remove 0]

theorem handler_registry_nested :
    (∀ e ∈ (play (next fun i => ⟨(· == i), i⟩) initial nestedRequests).1,
        Intact (fun i => ⟨(· == i), i⟩) e) ↔
      ∀ e ∈ (play (next fun i => ⟨(· == i), i⟩) initial nestedRequests).1, LastFirst e :=
  handler_registry (play_path nestedRequests (by decide))

/-- The older of two requests finishes first. -/
def crossedRequests : List (Action Nat Nat) :=
  [.construct 0 100, .arm 0, .construct 1 101, .arm 1, .remove 0]

/-- The request that is still registered points to a freed cell. -/
theorem handler_registry_crossed :
    ∃ tr s, Path (Step fun i => ⟨(· == i), i⟩) (initial : State Nat Nat Nat) tr s ∧
      1 ∈ s.registered ∧ s.target 1 = none ∧ ¬ ∀ e ∈ tr, Intact (fun i => ⟨(· == i), i⟩) e := by
  refine ⟨_, _, play_path crossedRequests (by decide), by decide, rfl, fun hintact => ?_⟩
  have hlast := hintact _ (List.getLast_mem (by decide))
  have hgone : none = some (entry (fun i => ⟨(· == i), i⟩) 1) := hlast.1 1 (by decide)
  exact absurd hgone (by simp)

end KappaGateway.DataService

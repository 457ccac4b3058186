import Mathlib.Data.Finset.Card
import KappaGateway.Aps.HandlerRegistry
import KappaGateway.Zdo.ZdoApdu

/-!
# Correlation of ZDP responses

Every ZDP frame starts with a value of `aps::cntr()`, an 8-bit counter that all
frame builders and the APS share, and `APDU::send` registers a `zdpPred` with
that value. Beside the counter the state counts the values drawn, so that a
window of draws can be measured. The window is that of the handlers in the list:
a removal through an iterator that dangles takes another handler out, and leaves
its own one in, without making two of them wait for the same value.
-/

namespace KappaGateway.Zdo

open DataService ForwardList Transition

variable {Cb Addr : Type*}

namespace Correlation

/-- The counter, the number of values drawn from it, the sequence number in the
frame of each request with the number of values drawn before it, and the
registry of handlers. -/
structure State (Cb Addr : Type*) where
  cntr_ : UInt8
  drawn : Nat
  zdpCount : Nat → Option UInt8
  drawnAt : Nat → Nat
  service : DataService.State AfMessage Cb Addr

def initial : State Cb Addr := ⟨0, 0, fun _ => none, fun _ => 0, DataService.initial⟩

/-- The frame functor of a request draws its sequence number, anybody else draws
a value, or a request or an incoming message takes a step in the registry. -/
inductive Action (Addr : Type*) where
  | frame (i : Nat)
  | cntr
  | service (a : DataService.Action AfMessage Addr)

/-- A request builds its frame once, and registers after that. -/
def Enabled (s : State Cb Addr) : Action Addr → Prop
  | .frame i => s.zdpCount i = none
  | .cntr => True
  | .service (.construct i addr) =>
      s.zdpCount i ≠ none ∧ DataService.Enabled s.service (.construct i addr)
  | .service a => DataService.Enabled s.service a

/-- `aps::cntr` with the value it returns. -/
def cntr (s : State Cb Addr) : UInt8 × State Cb Addr :=
  (s.cntr_, { s with cntr_ := s.cntr_ + 1, drawn := s.drawn + 1 })

/-- What `APDU::send` registers for request `i`. -/
def handlers (clusterId : Nat → UInt16) (cb : Nat → Cb) (s : State Cb Addr) (i : Nat) :
    Handlers AfMessage Cb :=
  ⟨zdpPred ((s.zdpCount i).getD 0) (clusterId i), cb i⟩

section

variable [DecidableEq Addr]

instance (s : State Cb Addr) (a : Action Addr) : Decidable (Enabled s a) := by
  rcases a with i | _ | (⟨i, addr⟩ | _ | _ | _) <;> dsimp only [Enabled] <;> infer_instance

def next (clusterId : Nat → UInt16) (cb : Nat → Cb) (s : State Cb Addr) :
    Action Addr → State Cb Addr
  | .frame i =>
      { (cntr s).2 with
        zdpCount := Function.update s.zdpCount i (some (cntr s).1)
        drawnAt := Function.update s.drawnAt i s.drawn }
  | .cntr => (cntr s).2
  | .service a =>
      { s with service := DataService.next (handlers clusterId cb s) s.service a }

/-- One step of one of the requests, of another user of the counter, or of the
thread that indicates. -/
def Step (clusterId : Nat → UInt16) (cb : Nat → Cb) (s : State Cb Addr) (a : Action Addr)
    (t : State Cb Addr) : Prop :=
  Enabled s a ∧ t = next clusterId cb s a

end

/-- The requests whose handlers are in the list. -/
def owners (s : State Cb Addr) : List Nat := s.service.buffer.map (·.value.syncInfo)

/-- Since a request whose handler is in the list drew its sequence number, fewer
than 256 further values were drawn. -/
def InWindow (s : State Cb Addr) : Prop :=
  ∀ i ∈ owners s, s.drawn - (s.drawnAt i + 1) < 256

instance (s : State Cb Addr) : Decidable (InWindow s) :=
  inferInstanceAs (Decidable (∀ i ∈ owners s, _))

/-- The registered predicates that accept the message. -/
def accepting (s : State Cb Addr) (msg : AfMessage) :
    List (Node Addr (MsgRcvr AfMessage Cb)) :=
  s.service.buffer.filter (·.value.pred msg)

/-- At most one registered predicate accepts a message, and in whatever order
the same entries stood, `indicate` would find the same one first. -/
def Unambiguous (s : State Cb Addr) : Prop :=
  ∀ msg, (accepting s msg).length ≤ 1 ∧
    ∀ entries : List (Node Addr (MsgRcvr AfMessage Cb)), entries.Perm s.service.buffer →
      entries.find? (·.value.pred msg) = s.service.buffer.find? (·.value.pred msg)

/-- Two values drawn less than a full turn of the counter apart differ. -/
theorem ofNat_ne_of_window {a b : Nat} (hlt : a < b) (hwindow : b - a < 256) :
    UInt8.ofNat a ≠ UInt8.ofNat b := by
  intro heq
  have hmod : a % 256 = b % 256 := by
    simpa [UInt8.toNat_ofNat'] using congrArg UInt8.toNat heq
  omega

/-- Where at most one element is wanted, every order of the elements finds it. -/
theorem find?_eq_of_perm {α : Type*} {p : α → Bool} {l l' : List α} (hperm : l'.Perm l)
    (hone : (l.filter p).length ≤ 1) : l'.find? p = l.find? p := by
  have hfilter := hperm.filter p
  rw [← List.head?_filter, ← List.head?_filter]
  cases hl : l.filter p with
  | nil =>
      rw [hl] at hfilter
      rw [List.perm_nil.mp hfilter]
  | cons a rest =>
      have hrest : rest = [] := by
        simpa [hl] using hone
      rw [hl, hrest] at hfilter
      rw [List.perm_singleton.mp hfilter, hrest]

variable {clusterId : Nat → UInt16} {cb : Nat → Cb} {s t : State Cb Addr}

/-- Requests have drawn at different times, and the list holds at most one
predicate of each, the one of its own sequence number. -/
structure Correlated (clusterId : Nat → UInt16) (cb : Nat → Cb) (s : State Cb Addr) : Prop where
  counter : s.cntr_ = UInt8.ofNat s.drawn
  frame : ∀ i b, s.zdpCount i = some b → b = UInt8.ofNat (s.drawnAt i) ∧ s.drawnAt i < s.drawn
  apart : ∀ i k, s.zdpCount i ≠ none → s.zdpCount k ≠ none → s.drawnAt i = s.drawnAt k → i = k
  built : ∀ i ∈ owners s, s.zdpCount i ≠ none ∧ s.service.it i ≠ none
  listed : ∀ v ∈ s.service.buffer.map Node.value,
    v = entry (handlers clusterId cb s) v.syncInfo
  once : (owners s).Nodup
  distinct : Distinct s.service.buffer

theorem initial_correlated : Correlated clusterId cb (initial : State Cb Addr) := by
  constructor <;> simp [initial, DataService.initial, owners, Distinct]

theorem Correlated.counter_succ (h : Correlated clusterId cb s) :
    s.cntr_ + 1 = UInt8.ofNat (s.drawn + 1) := by
  rw [h.counter, UInt8.ofNat_add]
  rfl

theorem owners_eq (s : State Cb Addr) :
    owners s = (s.service.buffer.map Node.value).map MsgRcvr.syncInfo := by
  simp [owners]

theorem Correlated.pred_of_mem (h : Correlated clusterId cb s)
    {n : Node Addr (MsgRcvr AfMessage Cb)} (hn : n ∈ s.service.buffer) :
    n.value.pred = (handlers clusterId cb s n.value.syncInfo).pred :=
  congrArg MsgRcvr.pred (h.listed n.value (List.mem_map_of_mem hn))

/-- Two requests with a handler in the list never wait for the same sequence
number. -/
theorem Correlated.pred_unique (h : Correlated clusterId cb s) (hwindow : InWindow s) {i k : Nat}
    (hi : i ∈ owners s) (hk : k ∈ owners s) {msg : AfMessage}
    (hacci : (handlers clusterId cb s i).pred msg = true)
    (hacck : (handlers clusterId cb s k).pred msg = true) : i = k := by
  obtain ⟨b, hb⟩ := Option.ne_none_iff_exists'.mp (h.built i hi).1
  obtain ⟨c, hc⟩ := Option.ne_none_iff_exists'.mp (h.built k hk).1
  obtain ⟨hbval, hblt⟩ := h.frame i b hb
  obtain ⟨hcval, hclt⟩ := h.frame k c hc
  have hbc : b = c := by
    simp only [handlers, zdpPred, hb, hc, Option.getD_some, decide_eq_true_eq] at hacci hacck
    exact hacci.1.symm.trans hacck.1
  have hiw := hwindow i hi
  have hkw := hwindow k hk
  apply h.apart i k (h.built i hi).1 (h.built k hk).1
  rw [hbval, hcval] at hbc
  obtain hlt | heq | hgt := lt_trichotomy (s.drawnAt i) (s.drawnAt k)
  · exact absurd hbc (ofNat_ne_of_window hlt (by omega))
  · exact heq
  · exact absurd hbc.symm (ofNat_ne_of_window hgt (by omega))

theorem Correlated.accepting_length (h : Correlated clusterId cb s) (hwindow : InWindow s)
    (msg : AfMessage) : (accepting s msg).length ≤ 1 := by
  have hnodup : ((accepting s msg).map (·.value.syncInfo)).Nodup :=
    h.once.sublist (List.filter_sublist.map _)
  have hlength : (accepting s msg).length =
      ((accepting s msg).map (·.value.syncInfo)).toFinset.card := by
    rw [List.toFinset_card_of_nodup hnodup, List.length_map]
  rw [hlength]
  apply Finset.card_le_one.mpr
  intro i hi k hk
  simp only [accepting, List.mem_toFinset, List.mem_map, List.mem_filter] at hi hk
  obtain ⟨n, ⟨hn, haccn⟩, rfl⟩ := hi
  obtain ⟨m, ⟨hm, haccm⟩, rfl⟩ := hk
  rw [h.pred_of_mem hn] at haccn
  rw [h.pred_of_mem hm] at haccm
  exact h.pred_unique hwindow (List.mem_map_of_mem hn) (List.mem_map_of_mem hm) haccn haccm

theorem Correlated.unambiguous (h : Correlated clusterId cb s) (hwindow : InWindow s) :
    Unambiguous s := by
  intro msg
  refine ⟨h.accepting_length hwindow msg, fun entries hperm => ?_⟩
  exact find?_eq_of_perm hperm (h.accepting_length hwindow msg)

variable [DecidableEq Addr]

/-- Drawing the sequence number of a request. -/
theorem Correlated.frame_step (h : Correlated clusterId cb s) {i : Nat}
    (hi : s.zdpCount i = none) : Correlated clusterId cb (next clusterId cb s (.frame i)) := by
  have hother : ∀ k, s.zdpCount k ≠ none → k ≠ i := by
    rintro k hk rfl
    exact hk hi
  constructor
  · exact h.counter_succ
  · intro k b hk
    by_cases hki : k = i
    · subst hki
      simp only [next, cntr, Function.update_self, Option.some.injEq] at hk ⊢
      exact ⟨hk ▸ h.counter, Nat.lt_succ_self _⟩
    · simp only [next, cntr, Function.update_of_ne hki] at hk ⊢
      exact ⟨(h.frame k b hk).1, Nat.lt_succ_of_lt (h.frame k b hk).2⟩
  · intro k l hk hl heq
    by_cases hki : k = i <;> by_cases hli : l = i
    · rw [hki, hli]
    · subst hki
      simp only [next, cntr, Function.update_self, Function.update_of_ne hli] at hl heq
      obtain ⟨b, hb⟩ := Option.ne_none_iff_exists'.mp hl
      exact absurd (h.frame l b hb).2 (by omega)
    · subst hli
      simp only [next, cntr, Function.update_self, Function.update_of_ne hki] at hk heq
      obtain ⟨b, hb⟩ := Option.ne_none_iff_exists'.mp hk
      exact absurd (h.frame k b hb).2 (by omega)
    · simp only [next, cntr, Function.update_of_ne hki, Function.update_of_ne hli] at hk hl heq
      exact h.apart k l hk hl heq
  · intro k hk
    have hbuilt := h.built k hk
    simpa [next, cntr, Function.update_of_ne (hother k hbuilt.1)] using hbuilt
  · intro v hv
    have howner : v.syncInfo ∈ owners s := by
      rw [owners_eq]
      exact List.mem_map_of_mem hv
    have hsame : handlers clusterId cb (next clusterId cb s (.frame i)) v.syncInfo =
        handlers clusterId cb s v.syncInfo := by
      simp [handlers, next, cntr, Function.update_of_ne (hother _ (h.built _ howner).1)]
    rw [entry, hsame]
    exact h.listed v hv
  · exact h.once
  · exact h.distinct

omit [DecidableEq Addr] in
/-- A step of the registry that registers nothing leaves part of the list. -/
theorem Correlated.of_subperm (h : Correlated clusterId cb s)
    (service : DataService.State AfMessage Cb Addr) (hit : service.it = s.service.it)
    (hpart : (service.buffer.map Node.value).Subperm (s.service.buffer.map Node.value))
    (hdistinct : Distinct service.buffer) :
    Correlated clusterId cb { s with service := service } := by
  have howners : (owners { s with service := service }).Subperm (owners s) := by
    obtain ⟨l, hperm, hsub⟩ := hpart
    rw [owners_eq, owners_eq]
    exact ⟨l.map MsgRcvr.syncInfo, hperm.map _, hsub.map _⟩
  refine ⟨h.counter, h.frame, h.apart, fun i hi => ?_, fun v hv => ?_, ?_, hdistinct⟩
  · rw [hit]
    exact h.built i (howners.subset hi)
  · exact h.listed v (hpart.subset hv)
  · obtain ⟨l, hperm, hsub⟩ := howners
    exact hperm.nodup_iff.mp (h.once.sublist hsub)

/-- The handler that a request registers is its first one. -/
theorem Correlated.construct_step (h : Correlated clusterId cb s) {i : Nat} {addr : Addr}
    (hframe : s.zdpCount i ≠ none) (hen : DataService.Enabled s.service (.construct i addr)) :
    Correlated clusterId cb (next clusterId cb s (.service (.construct i addr))) := by
  obtain ⟨hfresh, haddr⟩ := hen
  have hnew : i ∉ owners s := fun hi => (h.built i hi).2 hfresh
  refine ⟨h.counter, h.frame, h.apart, fun k hk => ?_, fun v hv => ?_,
    List.nodup_cons.mpr ⟨hnew, h.once⟩, List.nodup_cons.mpr ⟨haddr, h.distinct⟩⟩
  · rcases List.mem_cons.mp hk with rfl | hmem
    · exact ⟨hframe, by simp [next, DataService.next]⟩
    · have hne : k ≠ i := fun heq => hnew (heq ▸ hmem)
      simpa [next, DataService.next, hne] using h.built k hmem
  · rcases List.mem_cons.mp hv with rfl | hmem
    · rfl
    · exact h.listed v hmem

/-- Whatever its iterator designates, a removal takes one handler out of the
list, or none from the empty one. -/
theorem Correlated.remove_step (h : Correlated clusterId cb s) (i : Nat) :
    Correlated clusterId cb (next clusterId cb s (.service (.remove i))) := by
  apply h.of_subperm (remove s.service i) rfl
  · simp only [remove]
    split
    · exact swapFront_tail_subperm h.distinct _
    · exact ((List.tail_sublist _).map _).subperm
  · simp only [remove, Distinct]
    split
    · next it _ =>
        have hswapped : ((swapFront s.service.buffer it).map Node.addr).Nodup := by
          rw [swapFront_addr]
          exact h.distinct
        exact hswapped.sublist ((List.tail_sublist _).map Node.addr)
    · exact List.Nodup.sublist ((List.tail_sublist _).map Node.addr) h.distinct

theorem Correlated.step (h : Correlated clusterId cb s) {a : Action Addr}
    (hstep : Step clusterId cb s a t) : Correlated clusterId cb t := by
  obtain ⟨hen, rfl⟩ := hstep
  cases a with
  | frame i => exact h.frame_step hen
  | cntr =>
      refine ⟨h.counter_succ, fun k b hk => ⟨(h.frame k b hk).1, ?_⟩, h.apart, h.built,
        h.listed, h.once, h.distinct⟩
      exact Nat.lt_succ_of_lt (h.frame k b hk).2
  | service a =>
      cases a with
      | construct i addr => exact h.construct_step hen.1 hen.2
      | arm i =>
          simp only [next, DataService.next]
          split
          · exact h.of_subperm _ rfl (List.Subperm.refl _) h.distinct
          · exact h
      | remove i => exact h.remove_step i
      | indicate msg =>
          simp only [next, DataService.next, indicate]
          split
          · exact h.of_subperm _ rfl (List.Subperm.refl _) h.distinct
          · exact h

/-- In every run in which fewer than 256 values are drawn between the sequence
number of a request and the removal of its handler, no message is accepted by two
registered predicates. -/
theorem zdp_correlation {tr : List (State Cb Addr × Action Addr × State Cb Addr)}
    (path : Path (Step clusterId cb) initial tr s) (hwindow : ∀ e ∈ tr, InWindow e.2.2) :
    ∀ e ∈ tr, Unambiguous e.2.2 := by
  have hok : ∀ e ∈ tr, True := fun _ _ => trivial
  obtain ⟨-, hstates⟩ := path.invariant (fun _ _ _ hinv hstep _ => hinv.step hstep)
    initial_correlated hok
  intro e he
  exact (hstates e he).2.unambiguous (hwindow e he)

/-- Requests of one cluster overlap. The older of the first two finishes first, its
cell is used again by request 2, and request 1 removes what its iterator
designates now: its own handler stays. -/
def overlapping : List (Action Nat) :=
  [.frame 0, .frame 1, .service (.construct 1 100), .service (.construct 0 101), .cntr,
    .service (.remove 1), .frame 2, .service (.construct 2 101), .service (.remove 0),
    .frame 3, .service (.construct 3 102)]

theorem zdp_correlation_overlapping :
    ∃ tr s, Path (Step (fun _ => 2) id) (initial : State Nat Nat) tr s ∧
      owners s = [3, 0] ∧ s.zdpCount 0 = some 0 ∧ s.zdpCount 3 = some 4 ∧
      ∀ e ∈ tr, Unambiguous e.2.2 := by
  have hpath : Path (Step (fun _ => 2) id) initial
      (play (next (fun _ => 2) id) (initial : State Nat Nat) overlapping).1 _ :=
    play_path overlapping (by decide)
  exact ⟨_, _, hpath, by decide, by decide, by decide, zdp_correlation hpath (by decide)⟩

end Correlation

end KappaGateway.Zdo

import KappaGateway.Aps.DataService
import KappaGateway.Aps.Pairing

/-!
# How often a request is called back

`indicate` calls the callback of the first entry that accepts a message without a
look at its `SyncInfo`, which only says whether the request still waits. An entry
that was served stays in the list until the thread of its request takes it out.
-/

namespace KappaGateway.OneShot

open Aps DataService ForwardList MessageIndicate Pairing Transition Zdo

variable {Msg Cb Addr H : Type*}

/-- Where a call of `request` is: before, between the two steps that make it wait,
waiting for its message, and after it has removed its handler. -/
inductive Phase where
  | idle
  | registered
  | waiting
  | removed
  deriving DecidableEq

/-- The registry, whose callbacks carry the number of their request, and the phases. -/
structure State (Msg Cb Addr : Type*) where
  registry : DataService.State Msg (Nat × Cb) Addr
  phase : Nat → Phase

def initial : State Msg Cb Addr := ⟨DataService.initial, fun _ => .idle⟩

/-- The order of the steps of one request. -/
def InOrder (phase : Nat → Phase) : Action Msg Addr → Prop
  | .construct i _ => phase i = .idle
  | .arm i => phase i = .registered
  | .remove i => phase i = .waiting
  | .indicate _ => True

instance (phase : Nat → Phase) : (a : Action Msg Addr) → Decidable (InOrder phase a)
  | .construct _ _ | .arm _ | .remove _ => inferInstanceAs (Decidable (_ = _))
  | .indicate _ => isTrue trivial

/-- The phases after a step. -/
def phaseAfter (phase : Nat → Phase) : Action Msg Addr → Nat → Phase
  | .construct i _ => Function.update phase i .registered
  | .arm i => Function.update phase i .waiting
  | .remove i => Function.update phase i .removed
  | .indicate _ => phase

/-- The handlers of a request, under its number. -/
def numbered (handlers : Nat → Handlers Msg Cb) (i : Nat) : Handlers Msg (Nat × Cb) :=
  ⟨(handlers i).pred, i, (handlers i).cb⟩

/-- The messages with which the callback of a request was called, newest first. -/
def State.answers (s : State Msg Cb Addr) (i : Nat) : List Msg :=
  (s.registry.called.filter (·.1.1 = i)).map Prod.snd

section

variable [DecidableEq Addr] (handlers : Nat → Handlers Msg Cb)

def Enabled (s : State Msg Cb Addr) (a : Action Msg Addr) : Prop :=
  DataService.Enabled s.registry a ∧ InOrder s.phase a

instance (s : State Msg Cb Addr) (a : Action Msg Addr) : Decidable (Enabled s a) :=
  inferInstanceAs (Decidable (_ ∧ _))

def next (s : State Msg Cb Addr) (a : Action Msg Addr) : State Msg Cb Addr :=
  ⟨DataService.next (numbered handlers) s.registry a, phaseAfter s.phase a⟩

def Step (s : State Msg Cb Addr) (a : Action Msg Addr) (t : State Msg Cb Addr) : Prop :=
  Enabled s a ∧ t = next handlers s a

end

/-- The entry that a message is for. -/
def State.found (s : State Msg Cb Addr) (msg : Msg) : Option (MsgRcvr Msg (Nat × Cb)) :=
  (s.registry.buffer.find? (·.value.pred msg)).map Node.value

/-- A message reaches an entry while its request waits, and a request that begins to
wait arms its own `SyncInfo`. -/
def Awaited [DecidableEq Addr] :
    State Msg Cb Addr × Action Msg Addr × State Msg Cb Addr → Prop
  | (s, .indicate msg, _) =>
      ∀ y ∈ s.found msg, (s.registry.syncInfo y.syncInfo).sync = true
  | (s, .arm i, _) => (s.registry.target i).map MsgRcvr.syncInfo = some i
  | _ => True

/-- A message reaches an entry that was disarmed. -/
def Repeated : State Msg Cb Addr × Action Msg Addr × State Msg Cb Addr → Prop
  | (s, .indicate msg, _) =>
      ∃ y ∈ s.found msg, (s.registry.syncInfo y.syncInfo).rdy = true
  | _ => False

/-! ### What a step does to the answers -/

variable {handlers : Nat → Handlers Msg Cb} {s t : State Msg Cb Addr} {a : Action Msg Addr}
  {i : Nat}

theorem indicate_of_found {msg : Msg} {y : MsgRcvr Msg (Nat × Cb)} (h : s.found msg = some y) :
    indicate s.registry msg =
      { s.registry with
        called := (y.cb, msg) :: s.registry.called
        syncInfo := Function.update s.registry.syncInfo y.syncInfo
          (s.registry.syncInfo y.syncInfo).disarm } := by
  obtain ⟨n, hn, rfl⟩ := Option.map_eq_some_iff.mp h
  rw [indicate, hn]

theorem indicate_of_not_found {msg : Msg} (h : s.found msg = none) :
    indicate s.registry msg = s.registry := by
  rw [indicate, Option.map_eq_none_iff.mp h]

/-- The callback of an entry carries the number of its `SyncInfo`. -/
def Numbered (s : State Msg Cb Addr) : Prop :=
  ∀ n ∈ s.registry.buffer, n.value.cb.1 = n.value.syncInfo

theorem Numbered.found (h : Numbered s) {msg : Msg} {y : MsgRcvr Msg (Nat × Cb)}
    (hy : s.found msg = some y) : y.cb.1 = y.syncInfo := by
  obtain ⟨n, hn, rfl⟩ := Option.map_eq_some_iff.mp hy
  exact h n (List.mem_of_find?_eq_some hn)

section

variable [DecidableEq Addr]

theorem Numbered.next (h : Numbered s) : Numbered (next handlers s a) := by
  cases a with
  | construct i addr =>
      intro n hn
      rcases List.mem_cons.mp hn with rfl | hn
      · rfl
      · exact h n hn
  | arm i =>
      simp only [Numbered, OneShot.next, DataService.next]
      split
      · exact h
      · exact h
  | remove i =>
      intro n hn
      have hvalue : n.value ∈ s.registry.buffer.map Node.value := by
        simp only [OneShot.next, DataService.next, remove] at hn
        split at hn
        · exact value_of_mem_swapFront (List.mem_of_mem_tail hn)
        · exact List.mem_map_of_mem (List.mem_of_mem_tail hn)
      obtain ⟨m, hm, heq⟩ := List.mem_map.mp hvalue
      rw [← heq]
      exact h m hm
  | indicate msg =>
      cases hfound : s.found msg with
      | none => simpa [Numbered, OneShot.next, DataService.next, indicate_of_not_found hfound]
          using h
      | some y => simpa [Numbered, OneShot.next, DataService.next, indicate_of_found hfound] using h

theorem answers_of_found {msg : Msg} {y : MsgRcvr Msg (Nat × Cb)} (h : s.found msg = some y)
    (i : Nat) :
    (next handlers s (.indicate msg)).answers i =
      if y.cb.1 = i then msg :: s.answers i else s.answers i := by
  simp only [next, DataService.next, indicate_of_found h, State.answers]
  by_cases hi : y.cb.1 = i <;> simp [hi]

/-- Only an incoming message can be an answer. -/
theorem answers_of_not_indicate (h : ∀ msg, a ≠ .indicate msg) (i : Nat) :
    (next handlers s a).answers i = s.answers i := by
  cases a with
  | construct j addr => rfl
  | arm j =>
      simp only [next, DataService.next, State.answers]
      split <;> rfl
  | remove j => rfl
  | indicate msg => exact absurd rfl (h msg)

theorem next_of_not_found {msg : Msg} (h : s.found msg = none) :
    next handlers s (.indicate msg) = s := by
  simp only [next, DataService.next, indicate_of_not_found h, phaseAfter]

/-! ### Requests that are answered while they wait -/

/-- A request that does not wait yet was not armed or answered, one whose `SyncInfo`
is armed was not answered, and none was answered twice. -/
structure Once (s : State Msg Cb Addr) : Prop where
  numbered : Numbered s
  early : ∀ i, s.phase i = .idle ∨ s.phase i = .registered →
    (s.registry.syncInfo i).sync = false ∧ s.answers i = []
  armed : ∀ i, (s.registry.syncInfo i).sync = true → s.answers i = []
  once : ∀ i, (s.answers i).length ≤ 1

omit [DecidableEq Addr] in
theorem initial_once : Once (initial : State Msg Cb Addr) := by
  constructor <;> simp [Numbered, initial, DataService.initial, State.answers]

theorem Once.construct (h : Once s) {i : Nat} {addr : Addr}
    (hen : Enabled s (.construct i addr)) : Once (next handlers s (.construct i addr)) := by
  have hidle : s.phase i = .idle := hen.2
  have hsync : ∀ k, k ≠ i → ((next handlers s (.construct i addr)).registry.syncInfo k) =
      s.registry.syncInfo k := fun k hk => Function.update_of_ne hk _ _
  have hself : (next handlers s (.construct i addr)).registry.syncInfo i = ⟨false, false⟩ :=
    Function.update_self _ _ _
  constructor
  · exact h.numbered.next
  · intro k hk
    by_cases hki : k = i
    · subst hki
      exact ⟨by rw [hself], (h.early k (Or.inl hidle)).2⟩
    · rw [hsync k hki]
      exact h.early k (by simpa [next, phaseAfter, hki] using hk)
  · intro k hk
    by_cases hki : k = i
    · subst hki
      rw [hself] at hk
      cases hk
    · rw [hsync k hki] at hk
      exact h.armed k hk
  · exact h.once

theorem Once.arm (h : Once s) {i : Nat} (hen : Enabled s (.arm i : Action Msg Addr))
    (hown : (s.registry.target i).map MsgRcvr.syncInfo = some i) :
    Once (next handlers s (.arm i)) := by
  obtain ⟨y, hy, hyi⟩ := Option.map_eq_some_iff.mp hown
  have hphase : s.phase i = .registered := hen.2
  have hsync : (next handlers s (.arm i)).registry.syncInfo =
      Function.update s.registry.syncInfo i (s.registry.syncInfo i).arm := by
    simp only [next, DataService.next, hy, hyi]
  have hanswers : ∀ k, (next handlers s (.arm i)).answers k = s.answers k := fun k =>
    answers_of_not_indicate (by simp) k
  constructor
  · exact h.numbered.next
  · intro k hk
    have hki : k ≠ i := by
      rintro rfl
      simp [next, phaseAfter] at hk
    rw [hsync, hanswers, Function.update_of_ne hki]
    exact h.early k (by simpa [next, phaseAfter, hki] using hk)
  · intro k hk
    rw [hanswers]
    by_cases hki : k = i
    · rw [hki]
      exact (h.early i (Or.inr hphase)).2
    · rw [hsync, Function.update_of_ne hki] at hk
      exact h.armed k hk
  · intro k
    rw [hanswers]
    exact h.once k

theorem Once.remove (h : Once s) {i : Nat} (hen : Enabled s (.remove i : Action Msg Addr)) :
    Once (next handlers s (.remove i)) := by
  have hphase : s.phase i = .waiting := hen.2
  constructor
  · exact h.numbered.next
  · intro k hk
    have hki : k ≠ i := by
      rintro rfl
      simp [next, phaseAfter] at hk
    exact h.early k (by simpa [next, phaseAfter, hki] using hk)
  · exact h.armed
  · exact h.once

/-- A message for a request that waits: it is its first answer, and disarms it. -/
theorem Once.indicate (h : Once s) {msg : Msg}
    (hawaited : ∀ y ∈ s.found msg, (s.registry.syncInfo y.syncInfo).sync = true) :
    Once (next handlers s (.indicate msg)) := by
  cases hfound : s.found msg with
  | none =>
      rw [next_of_not_found hfound]
      exact h
  | some y =>
      have hcb : y.cb.1 = y.syncInfo := h.numbered.found hfound
      have harmed := hawaited y hfound
      have hsync : (next handlers s (.indicate msg)).registry.syncInfo =
          Function.update s.registry.syncInfo y.syncInfo
            (s.registry.syncInfo y.syncInfo).disarm := by
        simp only [next, DataService.next, indicate_of_found hfound]
      constructor
      · exact h.numbered.next
      · intro k hk
        obtain ⟨hfalse, hanswers⟩ := h.early k hk
        have hki : k ≠ y.syncInfo := by
          rintro rfl
          simp [hfalse] at harmed
        rw [hsync, answers_of_found hfound, if_neg (by rw [hcb]; exact Ne.symm hki),
          Function.update_of_ne hki]
        exact ⟨hfalse, hanswers⟩
      · intro k hk
        have hki : k ≠ y.syncInfo := by
          rintro rfl
          rw [hsync] at hk
          simp [SyncInfo.disarm, harmed] at hk
        rw [hsync, Function.update_of_ne hki] at hk
        rw [answers_of_found hfound, if_neg (by rw [hcb]; exact Ne.symm hki)]
        exact h.armed k hk
      · intro k
        rw [answers_of_found hfound]
        split
        · rename_i hk
          have hnone : s.answers k = [] := by
            rw [← hk, hcb]
            exact h.armed _ harmed
          simp [hnone]
        · exact h.once k

theorem Once.step (h : Once s) (hstep : Step handlers s a t) (hok : Awaited (s, a, t)) :
    Once t := by
  obtain ⟨hen, rfl⟩ := hstep
  cases a with
  | construct i addr => exact h.construct hen
  | arm i => exact h.arm hen hok
  | remove i => exact h.remove hen
  | indicate msg => exact h.indicate hok

/-! ### Entries that were disarmed -/

/-- A `SyncInfo` that is ready has been disarmed by an answer. -/
structure Disarmed (s : State Msg Cb Addr) : Prop where
  numbered : Numbered s
  answered : ∀ i, (s.registry.syncInfo i).rdy = true → s.answers i ≠ []

omit [DecidableEq Addr] in
theorem initial_disarmed : Disarmed (initial : State Msg Cb Addr) := by
  constructor <;> simp [Numbered, initial, DataService.initial]

theorem Disarmed.step (h : Disarmed s) (hstep : Step handlers s a t) : Disarmed t := by
  obtain ⟨-, rfl⟩ := hstep
  refine ⟨h.numbered.next, fun k hk => ?_⟩
  cases a with
  | construct i addr =>
      rw [answers_of_not_indicate (by simp)]
      by_cases hki : k = i
      · subst hki
        simp [next, DataService.next] at hk
      · exact h.answered k (by simpa [next, DataService.next, hki] using hk)
  | arm i =>
      rw [answers_of_not_indicate (by simp)]
      simp only [next, DataService.next] at hk
      split at hk
      · rename_i y hy
        by_cases hki : k = y.syncInfo
        · subst hki
          simp [SyncInfo.arm] at hk
        · exact h.answered k (by simpa [hki] using hk)
      · exact h.answered k hk
  | remove i => exact h.answered k hk
  | indicate msg =>
      cases hfound : s.found msg with
      | none =>
          rw [next_of_not_found hfound] at hk ⊢
          exact h.answered k hk
      | some y =>
          rw [answers_of_found hfound, h.numbered.found hfound]
          by_cases hki : y.syncInfo = k
          · simp [hki]
          · rw [if_neg hki]
            apply h.answered k
            simpa [next, DataService.next, indicate_of_found hfound, Ne.symm hki] using hk

/-- A message for such an entry is another answer. -/
theorem Disarmed.repeated (h : Disarmed s) (hstep : Step handlers s a t)
    (hrep : Repeated (s, a, t)) : ∃ i, 2 ≤ (t.answers i).length := by
  obtain ⟨-, rfl⟩ := hstep
  cases a with
  | indicate msg =>
      obtain ⟨y, hy, hrdy⟩ := hrep
      refine ⟨y.syncInfo, ?_⟩
      rw [answers_of_found hy, if_pos (h.numbered.found hy)]
      have hpos := List.length_pos_iff.mpr (h.answered y.syncInfo hrdy)
      exact Nat.succ_le_succ hpos
  | _ => exact absurd hrep id

end

/-! ### The callback of a simple descriptor request -/

/-- The callback of `simple_desc_req`, on the endpoint and the events. -/
def simple_desc_req (env : Environment) (parent : Parent) (locals : List (LocalEndpoint H))
    (asdu : Nat → UInt8) (site : Site H) : Site H :=
  let msg_body := shift asdu (MSGBODY + 1)
  let remote := { site.remote with simpleDescriptor := simple_desc_req_apdu_process msg_body }
  (Pairing.aps_newpeer_handle env parent locals { site with remote := remote }).2

theorem simple_desc_req_newJoins (env : Environment) (parent : Parent)
    (locals : List (LocalEndpoint H)) (asdu : Nat → UInt8) (site : Site H) :
    (simple_desc_req env parent locals asdu site).newJoins.length ≤ site.newJoins.length + 1 :=
  aps_newpeer_handle_newJoins env parent locals _

/-- The site after the calls of the callback, where `asdu` is that of a message. -/
def siteAfter (env : Environment) (parent : Parent) (locals : List (LocalEndpoint H))
    (asdu : Msg → Nat → UInt8) (msgs : List Msg) (site : Site H) : Site H :=
  msgs.foldl (fun site x => simple_desc_req env parent locals (asdu x) site) site

theorem siteAfter_newJoins (env : Environment) (parent : Parent)
    (locals : List (LocalEndpoint H)) (asdu : Msg → Nat → UInt8) (msgs : List Msg)
    (site : Site H) :
    (siteAfter env parent locals asdu msgs site).newJoins.length ≤
      site.newJoins.length + msgs.length := by
  induction msgs generalizing site with
  | nil => exact Nat.le_refl _
  | cons x rest ih =>
      calc (siteAfter env parent locals asdu (x :: rest) site).newJoins.length
          ≤ (simple_desc_req env parent locals (asdu x) site).newJoins.length + rest.length :=
            ih _
        _ ≤ site.newJoins.length + 1 + rest.length :=
            Nat.add_le_add_right (simple_desc_req_newJoins env parent locals (asdu x) site) _
        _ = site.newJoins.length + (x :: rest).length := by
            rw [List.length_cons]
            omega

/-- The request was called back at most once; if it asks for a simple descriptor, it has
triggered at most one event. -/
def AtMostOnce (H : Type*) (s : State Msg Cb Addr) (i : Nat) : Prop :=
  (s.answers i).length ≤ 1 ∧
    ∀ env parent (locals : List (LocalEndpoint H)) (asdu : Msg → Nat → UInt8) (site : Site H),
      (siteAfter env parent locals asdu (s.answers i).reverse site).newJoins.length ≤
        site.newJoins.length + 1

theorem atMostOnce_of_length (h : (s.answers i).length ≤ 1) : AtMostOnce H s i := by
  refine ⟨h, fun env parent locals asdu site => ?_⟩
  have hcalls := siteAfter_newJoins env parent locals asdu (s.answers i).reverse site
  rw [List.length_reverse] at hcalls
  omega

/-- In every run of any number of requests in which messages reach only requests that wait,
no request is called back twice; and a message that reaches an entry once it was disarmed
makes a second call. -/
theorem one_request_one_callback [DecidableEq Addr] (H : Type*)
    {tr : List (State Msg Cb Addr × Action Msg Addr × State Msg Cb Addr)}
    (path : Path (Step handlers) initial tr s) :
    ((∀ e ∈ tr, Awaited e) → ∀ e ∈ tr, ∀ i, AtMostOnce H e.2.2 i) ∧
      ∀ e ∈ tr, Repeated e → ∃ i, ¬ AtMostOnce H e.2.2 i := by
  constructor
  · intro hok e he i
    obtain ⟨-, hstates⟩ := path.invariant (fun _ _ _ hinv hstep hok => hinv.step hstep hok)
      initial_once hok
    exact atMostOnce_of_length ((hstates e he).2.once i)
  · intro e he hrep
    have hany : ∀ e ∈ tr, True := fun _ _ => trivial
    obtain ⟨-, hstates⟩ := path.invariant (fun _ _ _ hinv hstep _ => hinv.step hstep)
      initial_disarmed hany
    obtain ⟨i, htwo⟩ := (hstates e he).1.repeated (path.step_of_mem e he) hrep
    exact ⟨i, fun honce => absurd honce.1 (by omega)⟩

/-! ### A response that arrives twice -/

/-- A response that describes endpoint 8: profile 0x0104, in cluster 6. -/
def simpleDescRsp (i : Nat) : UInt8 :=
  [7, 0, 1, 0, 11, 8, 0x04, 0x01, 0, 0, 0, 1, 6, 0, 0].getD i 0

def responseMsg : AfMessage := ⟨0x8004, 0, 15, simpleDescRsp⟩

def simpleDescHandlers (_ : Nat) : Handlers AfMessage Unit := ⟨zdpPred 7 4, ()⟩

/-- One request and its response. -/
def answeredOnce : List (Action AfMessage Nat) :=
  [.construct 0 100, .arm 0, .indicate responseMsg, .remove 0]

/-- The response is received twice before the request is removed. -/
def answeredTwice : List (Action AfMessage Nat) :=
  [.construct 0 100, .arm 0, .indicate responseMsg, .indicate responseMsg, .remove 0]

theorem one_request_one_callback_answered :
    ∃ tr s, Path (Step simpleDescHandlers) (initial : State AfMessage Unit Nat) tr s ∧
      (s.answers 0).length = 1 ∧ ∀ e ∈ tr, ∀ i, AtMostOnce Unit e.2.2 i := by
  have hpath : Path (Step simpleDescHandlers) (initial : State AfMessage Unit Nat)
      (play (next simpleDescHandlers) initial answeredOnce).1
      (play (next simpleDescHandlers) initial answeredOnce).2 :=
    play_path answeredOnce (by decide)
  refine ⟨_, _, hpath, by decide, (one_request_one_callback Unit hpath).1 ?_⟩
  simp [answeredOnce, play, Awaited]
  decide

/-- The callback runs twice, and twice the endpoint joins. -/
theorem one_request_answered_twice :
    ∃ tr s, Path (Step simpleDescHandlers) (initial : State AfMessage Unit Nat) tr s ∧
      (s.answers 0).length = 2 ∧
      (siteAfter bareEnvironment bareParent [endpointWith 1 0x0104 [] [0x0006]] AfMessage.asdu
        (s.answers 0).reverse ⟨endpointWith 8 0 [] [], fun _ => none, []⟩).newJoins.length = 2 ∧
      ¬ ∀ e ∈ tr, ∀ i, AtMostOnce Unit e.2.2 i := by
  refine ⟨_, _, play_path answeredTwice (by decide), by decide, by decide, fun hall => ?_⟩
  have hlast := (hall _ (List.getLast_mem (by decide)) 0).1
  exact absurd hlast (by decide)

end KappaGateway.OneShot

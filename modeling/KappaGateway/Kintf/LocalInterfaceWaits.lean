import KappaGateway.Kintf.LocalInterfaceRuns
import KappaGateway.Lib.Line
import Mathlib.Algebra.Order.Group.Nat

/-!
# Clients that wait

A client that has waited for five seconds closes its end, and the thread still has its request
handled and sends the response: that signal ends the gateway, and nothing else does as long as
no call fails. Nobody gives up if connections are served fast enough for those that may be in
line at a time. But a client that connects and sends nothing holds up all others.
-/

namespace KappaGateway.LocalInterface

open Kutil RecvStr RequestText Transition Line

variable {ι W : Type*} {Openable : Text → Prop} {call : ι → Text}

/-! ### Clients that give up -/

/-- A client that has a connection and whose `select` runs out of time. -/
def gaveUp : State ι W × Action ι W × State ι W → Option ι
  | (s, .timeout i, _) =>
      match (s.clients i).phase with
      | .waiting _ => some i
      | _ => none
  | _ => none

def gaveUpIn (tr : Trace ι W) : List ι := tr.filterMap gaveUp

/-- The client has no connection. -/
def Client.Unconnected (c : Client) : Prop := ∃ since, c.phase = .unconnected since

/-- No call fails, unless it is that of a client that has no connection. -/
def Undisturbed : State ι W × Action ι W × State ι W → Prop
  | (s, .selectFails i, _) => (s.clients i).Unconnected
  | (s, .recv i r, _) => r.block ≠ none ∨ (s.clients i).Unconnected
  | (_, .svrRecv r, _) => r.block ≠ none
  | _ => True

/-- The connection of which the thread has not sent anything yet. -/
def Server.unanswered : Server ι → List ι
  | .receiving i _ | .received i _ | .answering i _ => [i]
  | _ => []

def State.unanswered (s : State ι W) : List ι := s.server.unanswered ++ s.queue

/-- Nothing has come from the gateway. -/
def Client.Untouched (c : Client) : Prop := c.toClient = [] ∧ c.serverClosed = false

/-- The client waits, unless it has given up. -/
structure Client.Waits (gaveUp : Prop) (c : Client) : Prop where
  untouched : c.Untouched
  phase : c.phase = .connected ∨ (∃ since, c.phase = .waiting since) ∨
    c.phase = .returned [] ∧ gaveUp

/-- All clients that the thread has not sent anything to wait, or have given up. -/
structure Waiting (tr : Trace ι W) (s : State ι W) : Prop where
  called : ∀ i, (s.clients i).phase = .called → (s.clients i).Untouched
  waits : ∀ i ∈ s.unanswered, (s.clients i).Waits (i ∈ gaveUpIn tr)

section

variable [DecidableEq ι] {G : Gateway Openable W} {s t : State ι W} {a : Action ι W}
  {tr : Trace ι W}

theorem Client.Waits.mono {p q : Prop} {c : Client} (h : c.Waits p) (himp : p → q) :
    c.Waits q := ⟨h.untouched, h.phase.imp_right (Or.imp_right (And.imp_right himp))⟩

omit [DecidableEq ι] in
theorem gaveUpIn_append (tr : Trace ι W) (e : State ι W × Action ι W × State ι W) :
    gaveUpIn (tr ++ [e]) = gaveUpIn tr ++ (gaveUp e).toList := by
  cases h : gaveUp e <;> simp [gaveUpIn, h]

/-- A client that waits has nothing to receive. -/
theorem Client.Waits.not_receives {p : Prop} {c : Client} (h : c.Waits p) {r : remote.Round}
    (hblock : r.block ≠ none) : ¬ c.Receives r := by
  intro hreceives
  obtain ⟨b, hb⟩ := Option.ne_none_iff_exists'.mp hblock
  obtain ⟨-, hbegin, hend⟩ := hreceives.block hb
  rw [h.untouched.1] at hbegin
  have hclosed := (hend (List.prefix_nil.mp hbegin)).2
  rw [h.untouched.2] at hclosed
  cases hclosed

theorem Client.Waits.not_unconnected {p : Prop} {c : Client} (h : c.Waits p) :
    ¬ c.Unconnected := by
  rintro ⟨since, hphase⟩
  rcases h.phase with h | ⟨_, h⟩ | ⟨h, -⟩ <;> simp [hphase] at h

/-- A transition that changes one client, and adds no other connection. -/
theorem Waiting.one {e : State ι W × Action ι W × State ι W} (h : Waiting tr s) {i : ι}
    {c : Client} (hclients : t.clients = Function.update s.clients i c)
    (hunanswered : ∀ j ∈ t.unanswered, j ≠ i → j ∈ s.unanswered)
    (hcalled : c.phase = .called → c.Untouched)
    (hwaits : i ∈ t.unanswered → c.Waits (i ∈ gaveUpIn (tr ++ [e]))) :
    Waiting (tr ++ [e]) t := by
  constructor
  · intro j hj
    by_cases hji : j = i
    · subst hji
      rw [hclients, Function.update_self] at hj ⊢
      exact hcalled hj
    · rw [hclients, Function.update_of_ne hji] at hj ⊢
      exact h.called j hj
  · intro j hj
    by_cases hji : j = i
    · subst hji
      rw [hclients, Function.update_self]
      exact hwaits hj
    · rw [hclients, Function.update_of_ne hji]
      refine (h.waits j (hunanswered j hj hji)).mono fun hgave => ?_
      rw [gaveUpIn_append]
      exact List.mem_append_left _ hgave

omit [DecidableEq ι] in
theorem Waiting.keep {e : State ι W × Action ι W × State ι W} (h : Waiting tr s)
    (hclients : t.clients = s.clients) (hunanswered : ∀ j ∈ t.unanswered, j ∈ s.unanswered) :
    Waiting (tr ++ [e]) t where
  called j hj := by
    rw [hclients] at hj ⊢
    exact h.called j hj
  waits j hj := by
    rw [hclients]
    refine (h.waits j (hunanswered j hj)).mono fun hgave => ?_
    rw [gaveUpIn_append]
    exact List.mem_append_left _ hgave

omit [DecidableEq ι] in
theorem InOrder.not_called {i : ι} (h : InOrder G tr s) (hserver : s.server ≠ .killed)
    (hi : i ∈ s.unanswered ∨ i ∈ s.server.answered) : (s.clients i).phase ≠ .called := by
  have hhandled : i ∈ s.server.answered → i ∈ connectedIn tr := fun hmem =>
    h.handled.subset (h.answered i hmem)
  have hunhandled : i ∈ s.unhandled → i ∈ connectedIn tr := fun hmem =>
    h.order hserver ▸ List.mem_append_right _ hmem
  refine fun hcalled => h.called i hcalled ?_
  rcases hi with hi | hi
  · rcases List.mem_append.mp hi with hi | hi
    · cases hstate : s.server with
      | receiving | received =>
          rw [hstate] at hi
          exact hunhandled (List.mem_append_left _ (by rwa [hstate]))
      | answering =>
          rw [hstate] at hi
          exact hhandled (by rwa [hstate])
      | _ =>
          rw [hstate] at hi
          cases hi
    · exact hunhandled (List.mem_append_right _ hi)
  · exact hhandled hi

omit [DecidableEq ι] in
theorem InOrder.not_queued {i : ι} (h : InOrder G tr s) (hserver : s.server ≠ .killed)
    (hi : i ∈ s.server.answered) : i ∉ s.queue := by
  have hnodup := h.nodup
  rw [← h.order hserver] at hnodup
  intro hqueue
  exact List.disjoint_of_nodup_append hnodup (h.answered i hi) (List.mem_append_right _ hqueue)

theorem Waiting.step (h : Waiting tr s) (horder : InOrder G tr s) (hstep : Step call G s a t)
    (hundisturbed : Undisturbed (s, a, t)) : Waiting (tr ++ [(s, a, t)]) t := by
  have halive : s.server ≠ .killed := hstep.1.1
  cases hstep.moves with
  | elapsed | elsewhere => exact h.keep rfl fun _ => id
  | @refused i hphase | @unconnected i hphase =>
      refine h.one rfl (fun _ hj _ => hj) nofun fun hi => ?_
      exact absurd hphase (horder.not_called halive (.inl hi))
  | @connected i hphase =>
      refine h.one rfl (fun j hj hji => ?_) nofun fun _ => ⟨h.called i hphase, .inl rfl⟩
      simpa [State.unanswered, hji] using hj
  | @sent i n hphase =>
      refine h.one rfl (fun _ hj _ => hj) nofun fun hi => ?_
      exact ⟨(h.waits i hi).untouched, .inr (.inl ⟨s.now, rfl⟩)⟩
  | @timedOut i since hsince hlate hnone =>
      refine h.one rfl (fun _ hj _ => hj) nofun fun hi => ?_
      have hwaits := h.waits i hi
      refine ⟨hwaits.untouched, .inr (.inr ⟨rfl, ?_⟩)⟩
      rcases hwaits.phase with hphase | ⟨since', hphase⟩ | ⟨hphase, -⟩
      · simp [hphase, Phase.since] at hsince
      · simp [gaveUpIn_append, gaveUp, hphase]
      · simp [hphase, Phase.since] at hsince
  | @selectFailed i since hsince =>
      refine h.one rfl (fun _ hj _ => hj) nofun fun hi => ?_
      exact absurd hundisturbed (h.waits i hi).not_unconnected
  | @received i r hreceives =>
      refine h.one rfl (fun _ hj _ => hj)
        (fun hphase => absurd hphase (recv_phase_ne_called _ _)) fun hi => ?_
      have hwaits := h.waits i hi
      rcases hundisturbed with hblock | hunconnected
      · exact absurd hreceives (hwaits.not_receives hblock)
      · exact absurd hunconnected hwaits.not_unconnected
  | accepted hserver hqueue =>
      refine h.keep rfl ?_
      simp [State.unanswered, Server.unanswered, hserver, hqueue]
  | svrFailed | killed =>
      refine h.keep rfl fun j hj => List.mem_append_right _ ?_
      simpa [State.unanswered, Server.unanswered] using hj
  | @svrReceived i out b r hserver hblock hreads =>
      have hi : i ∈ s.unanswered := by simp [State.unanswered, hserver, Server.unanswered]
      have hwaits := h.waits i hi
      refine h.one rfl (fun j hj hji => List.mem_append_right _ ?_)
        (fun hphase => h.called i hphase) fun _ => ?_
      · rw [State.unanswered, serve_server] at hj
        split at hj <;> simpa [Server.unanswered, hji] using hj
      · refine Client.Waits.mono ⟨hwaits.untouched, hwaits.phase⟩ fun hgave => ?_
        rw [gaveUpIn_append]
        exact List.mem_append_left _ hgave
  | @handled i text hserver =>
      refine h.keep rfl fun j hj => ?_
      rw [State.unanswered, hserver]
      rw [State.unanswered, serve_server] at hj
      cases hrsp : (G.callback text s.world).1 with
      | none =>
          rw [hrsp] at hj
          exact List.mem_cons_of_mem _ hj
      | some rsp => simpa [hrsp, Server.unanswered] using hj
  | @answered i rsp n hserver | @sentOn i rsp n hserver | @closed i rsp hserver =>
      have hi : i ∈ s.server.answered := by simp [hserver, Server.answered]
      refine h.one rfl (fun j hj _ => List.mem_append_right _ ?_)
        (fun hphase => ?_) fun hqueue => ?_
      · simpa [State.unanswered, Server.unanswered] using hj
      · exact absurd hphase (horder.not_called halive (.inr hi))
      · refine absurd ?_ (horder.not_queued halive hi)
        simpa [State.unanswered, Server.unanswered] using hqueue

/-- A client that has closed its end does not do anything any more. -/
theorem closed_of_moves {i : ι} (hmoves : Moves call G s a t) (hi : (s.clients i).closed) :
    (t.clients i).closed := by
  have hclient := hmoves.client i
  generalize t.clients i = d at hclient ⊢
  cases hclient with
  | same | taken | pushed | closed => exact hi
  | refused | gaveUp => rfl
  | unconnected hphase | connected _ hphase | sent _ _ hphase =>
      simp [Client.closed, hphase] at hi
  | received hreceives =>
      cases hphase : (s.clients i).phase <;>
        simp [Client.closed, Client.Receives, hphase] at hi hreceives

theorem closed_of_gaveUp {i : ι} (hmoves : Moves call G s a t)
    (hi : i ∈ gaveUp (s, a, t)) : (t.clients i).closed := by
  cases hmoves with
  | timedOut =>
      simp only [gaveUp] at hi
      split at hi
      · cases hi
        simp [Client.closed]
      · cases hi
  | _ => simp [gaveUp] at hi

/-- What is known about a run in which no call fails. -/
structure Settled (G : Gateway Openable W) (tr : Trace ι W) (s : State ι W) : Prop where
  order : InOrder G tr s
  waiting : Waiting tr s
  gaveUp : ∀ i ∈ gaveUpIn tr, (s.clients i).closed

theorem Settled.step (h : Settled G tr s) (hstep : Step call G s a t)
    (hundisturbed : Undisturbed (s, a, t)) : Settled G (tr ++ [(s, a, t)]) t where
  order := h.order.step hstep
  waiting := h.waiting.step h.order hstep hundisturbed
  gaveUp i hi := by
    rw [gaveUpIn_append] at hi
    rcases List.mem_append.mp hi with hi | hi
    · exact closed_of_moves hstep.moves (h.gaveUp i hi)
    · exact closed_of_gaveUp hstep.moves (Option.mem_toList.mp hi)

omit [DecidableEq ι] in
theorem Settled.init (w : W) : Settled G [] (init w : State ι W) where
  order := .init w
  waiting := ⟨fun _ _ => ⟨rfl, rfl⟩, fun _ hi => absurd hi List.not_mem_nil⟩
  gaveUp _ hi := absurd hi List.not_mem_nil

theorem settled {w : W} (path : Path (Step call G) (init w) tr s)
    (hundisturbed : ∀ e ∈ tr, Undisturbed e) : Settled G tr s := by
  refine path.history (P := fun tr s => (∀ e ∈ tr, Undisturbed e) → Settled G tr s)
    (fun tr s a t hpast hstep hall => ?_) (fun _ => .init w) hundisturbed
  rw [List.forall_mem_append] at hall
  exact (hpast hall.1).step hstep (hall.2 _ (List.mem_singleton_self _))

theorem Settled.killed_iff (h : Settled G tr s) (hstep : Step call G s a t)
    (hundisturbed : Undisturbed (s, a, t)) : t.server = .killed ↔
      ∃ n i rsp, a = .svrSend n ∧ s.server = .answering i rsp ∧ i ∈ gaveUpIn tr := by
  have halive : s.server ≠ .killed := hstep.1.1
  constructor
  · intro hkilled
    cases hstep.moves with
    | svrFailed hserver hblock => exact absurd hblock hundisturbed
    | @killed i rsp n hserver hclosed =>
        refine ⟨n, i, rsp, rfl, hserver, ?_⟩
        have hwaits := h.waiting.waits i (by simp [State.unanswered, hserver, Server.unanswered])
        rcases hwaits.phase with hphase | ⟨since, hphase⟩ | ⟨-, hgave⟩
        · simp [Client.closed, hphase] at hclosed
        · simp [Client.closed, hphase] at hclosed
        · exact hgave
    | svrReceived =>
        rw [serve_server] at hkilled
        split at hkilled <;> cases hkilled
    | @handled i text hserver =>
        rw [serve_server] at hkilled
        cases hrsp : (G.callback text s.world).1 <;> rw [hrsp] at hkilled <;> cases hkilled
    | accepted | answered | sentOn | closed => cases hkilled
    | _ => exact absurd hkilled halive
  · rintro ⟨n, i, rsp, rfl, hserver, hgave⟩
    rw [hstep.2]
    simp [next, hserver, h.gaveUp i hgave]

end

/-- A client is accepted and gives up, and the thread answers it. -/
def lateAnswer : List (Action Bool Unit) :=
  [.openUnixClientSock false .connected, .accept, .send false 3, .tick 5, .timeout false,
    .svrRecv requestBlock, .handle, .svrSend 2]

/-- The connection in turn. -/
def Server.current : Server ι → List ι
  | .receiving i _ | .received i _ | .answering i _ | .finishing i _ => [i]
  | _ => []

/-- The connections that were not closed yet. -/
def State.pending (s : State ι W) : List ι := s.server.current ++ s.queue

/-- Since when a client waits; one that does not may begin to now. -/
def Client.stamp (now : Nat) (c : Client) : Nat :=
  match c.phase with
  | .waiting since => since
  | _ => now

def State.stamp (s : State ι W) (i : ι) : Nat := (s.clients i).stamp s.now

/-- The client has a connection, on which it has not received anything. -/
def Client.Attends (c : Client) : Prop := c.phase = .connected ∨ ∃ since, c.phase = .waiting since

/-- When the connection in turn got its turn: it was opened when there was no other, or the
one before it was closed. -/
def turn (σ : Nat) : State ι W × Action ι W × State ι W → Nat
  | (s, .openUnixClientSock _ .connected, _) => if s.pending = [] then s.now else σ
  | (s, .close, _) => s.now
  | _ => σ

def turnAfter (tr : Trace ι W) : Nat := tr.foldl turn 0

/-- At each moment, the connection in turn had its turn for no longer than `service`. -/
def Prompt (service : Nat) (tr : Trace ι W) : Prop :=
  ∀ past e, past ++ [e] <+: tr → e.2.2.pending ≠ [] →
    e.2.2.now ≤ turnAfter (past ++ [e]) + service

/-- Who connects finds at most `crowd` other connections. -/
def Few (crowd : Nat) : State ι W × Action ι W × State ι W → Prop
  | (s, .openUnixClientSock _ .connected, _) => s.pending.length ≤ crowd
  | _ => True

instance (crowd : Nat) (e : State ι W × Action ι W × State ι W) : Decidable (Few crowd e) := by
  unfold Few
  split <;> infer_instance

/-- The connections are in line, and nobody has given up. -/
structure Timely (service crowd : Nat) (tr : Trace ι W) (s : State ι W) : Prop where
  turn_le : turnAfter tr ≤ s.now
  prompt : s.pending ≠ [] → s.now ≤ turnAfter tr + service
  stamp_le : ∀ i, s.stamp i ≤ s.now
  line : InLine service crowd (turnAfter tr) s.stamp s.pending
  attended : ∀ i, (s.clients i).Attends → i ∈ s.pending ∨ (s.clients i).serverClosed
  patient : gaveUpIn tr = []
  alive : s.server ≠ .killed

section

variable [DecidableEq ι] {G : Gateway Openable W} {s t : State ι W} {a : Action ι W}
  {tr : Trace ι W} {service crowd : Nat}

omit [DecidableEq ι] in
theorem turnAfter_append (tr : Trace ι W) (e : State ι W × Action ι W × State ι W) :
    turnAfter (tr ++ [e]) = turn (turnAfter tr) e := by
  simp [turnAfter]

/-- What becomes of the line: it stays, somebody joins at its end, or the first leaves. -/
theorem pending_of_moves (hmoves : Moves call G s a t) (halive : t.server ≠ .killed) :
    (t.pending = s.pending ∧ ∀ σ, turn σ (s, a, t) = σ) ∨
      (∃ i, a = .openUnixClientSock i .connected ∧ t.pending = s.pending ++ [i] ∧
        s.stamp i = s.now) ∨
      ∃ i, a = .close ∧ s.pending = i :: t.pending ∧ (t.clients i).serverClosed := by
  cases hmoves with
  | elapsed | elsewhere | refused | unconnected | sent | timedOut | selectFailed | received =>
      exact .inl ⟨rfl, fun _ => rfl⟩
  | @connected i hphase =>
      refine .inr (.inl ⟨i, rfl, ?_, ?_⟩)
      · simp [State.pending]
      · simp [State.stamp, Client.stamp, hphase]
  | accepted hserver hqueue =>
      refine .inl ⟨?_, fun _ => rfl⟩
      simp [State.pending, Server.current, hserver, hqueue]
  | svrFailed | killed => exact absurd rfl halive
  | svrReceived hserver =>
      refine .inl ⟨?_, fun _ => rfl⟩
      rw [State.pending, State.pending, hserver, serve_server]
      split <;> rfl
  | @handled i text hserver =>
      refine .inl ⟨?_, fun _ => rfl⟩
      rw [State.pending, State.pending, hserver, serve_server]
      cases (G.callback text s.world).1 <;> rfl
  | answered n hserver | sentOn n hserver =>
      refine .inl ⟨?_, fun _ => rfl⟩
      simp [State.pending, Server.current, hserver]
  | @closed i rest hserver =>
      refine .inr (.inr ⟨i, rfl, ?_, ?_⟩)
      · simp [State.pending, Server.current, hserver]
      · simp

/-- A client that has a connection had it before, or joins the line. -/
theorem attends_of_moves {i : ι} (hmoves : Moves call G s a t) (hi : (t.clients i).Attends) :
    a = .openUnixClientSock i .connected ∨
      (s.clients i).Attends ∧ ((s.clients i).serverClosed → (t.clients i).serverClosed) := by
  have hclient := hmoves.client i
  generalize t.clients i = d at hi hclient ⊢
  cases hclient with
  | same | taken | pushed => exact .inr ⟨hi, id⟩
  | closed => exact .inr ⟨hi, fun _ => rfl⟩
  | refused | unconnected | gaveUp => simp [Client.Attends] at hi
  | connected ha => exact .inl ha
  | sent n _ hphase => exact .inr ⟨.inl hphase, id⟩
  | received =>
      rw [Client.recv] at hi
      split at hi <;> simp [Client.Attends] at hi

theorem now_of_moves (hmoves : Moves call G s a t) : s.now ≤ t.now := by
  cases hmoves with
  | elapsed d => exact Nat.le_add_right _ _
  | _ => exact le_rfl

theorem Client.stamp_mono (c : Client) {now now' : Nat} (h : now ≤ now')
    (hle : c.stamp now ≤ now) : c.stamp now ≤ c.stamp now' ∧ c.stamp now' ≤ now' := by
  rw [Client.stamp, Client.stamp]
  rw [Client.stamp] at hle
  split <;> simp_all
  omega

/-- A client waits since no earlier time than before. -/
theorem stamp_of_moves (hmoves : Moves call G s a t) {i : ι} (hle : s.stamp i ≤ s.now) :
    s.stamp i ≤ t.stamp i ∧ t.stamp i ≤ t.now := by
  have hnow := now_of_moves hmoves
  have hclient := hmoves.client i
  have hmono : s.stamp i ≤ (s.clients i).stamp t.now ∧ (s.clients i).stamp t.now ≤ t.now :=
    (s.clients i).stamp_mono hnow hle
  rw [State.stamp] at hle
  rw [State.stamp, State.stamp]
  generalize t.clients i = d at hclient ⊢
  cases hclient with
  | same | taken | pushed | closed => exact hmono
  | refused | unconnected | connected | gaveUp => exact ⟨hle.trans hnow, le_rfl⟩
  | sent => exact ⟨hle, hnow⟩
  | received =>
      rw [Client.recv]
      split <;> exact ⟨hle.trans hnow, le_rfl⟩

omit [DecidableEq ι] in
theorem Timely.init (w : W) : Timely service crowd [] (init w : State ι W) where
  turn_le := le_rfl
  prompt hpending := absurd rfl hpending
  stamp_le _ := le_rfl
  line := .nil
  attended _ hi := by simp [Client.Attends, LocalInterface.init, Client.new] at hi
  patient := rfl
  alive := nofun

omit [DecidableEq ι] in
/-- A client that waits in line does so for a short time. -/
theorem Timely.waits (h : Timely service crowd tr s) {i : ι} (hi : i ∈ s.pending) :
    s.now ≤ s.stamp i + (crowd + 1) * service := by
  have hnow : s.now ≤ turnAfter tr + service := h.prompt (List.ne_nil_of_mem hi)
  simpa using h.line.waits (Nat.zero_le _) hnow hi

theorem Timely.gaveUp (h : Timely service crowd tr s) (hmoves : Moves call G s a t)
    (hfast : (crowd + 1) * service < 5) : gaveUp (s, a, t) = none := by
  cases hmoves with
  | @timedOut i since hsince hlate hnone =>
      cases hphase : (s.clients i).phase with
      | waiting since' =>
          have hattends : (s.clients i).Attends := .inr ⟨since', hphase⟩
          have hpending : i ∈ s.pending := by
            refine (h.attended i hattends).resolve_right fun hclosed => ?_
            exact hnone (.inr hclosed)
          have hwaits := h.waits hpending
          simp only [State.stamp, Client.stamp, hphase] at hwaits
          simp only [hphase, Phase.since, Option.some.injEq] at hsince
          omega
      | _ => simp [LocalInterface.gaveUp, hphase]
  | _ => rfl

theorem Timely.line_step (h : Timely service crowd tr s) (hmoves : Moves call G s a t)
    (halive : t.server ≠ .killed) (hfew : Few crowd (s, a, t)) :
    turnAfter (tr ++ [(s, a, t)]) ≤ s.now ∧
      InLine service crowd (turnAfter (tr ++ [(s, a, t)])) t.stamp t.pending := by
  have hlater : InLine service crowd (turnAfter tr) t.stamp s.pending :=
    h.line.later fun j _ => (stamp_of_moves hmoves (h.stamp_le j)).1
  rw [turnAfter_append]
  rcases pending_of_moves hmoves halive with ⟨hpending, hturn⟩ | ⟨i, rfl, hpending, hstamp⟩ |
    ⟨i, rfl, hpending, -⟩
  · rw [hpending, hturn]
    exact ⟨h.turn_le, hlater⟩
  · have hjoins : s.now ≤ t.stamp i := hstamp ▸ (stamp_of_moves hmoves (h.stamp_le i)).1
    rw [hpending, turn]
    by_cases hfirst : s.pending = []
    · rw [if_pos hfirst, hfirst]
      exact ⟨le_rfl, InLine.nil.join (Nat.zero_le _) (Nat.zero_le _) hjoins⟩
    · rw [if_neg hfirst]
      exact ⟨h.turn_le, hlater.join (Nat.zero_le _) hfew (h.turn_le.trans hjoins)⟩
  · rw [hpending] at hlater
    have hserved : s.now ≤ turnAfter tr + service := h.prompt (by simp [hpending])
    exact ⟨le_rfl, hlater.served hserved⟩

theorem Timely.attended_step (h : Timely service crowd tr s) (hmoves : Moves call G s a t)
    (halive : t.server ≠ .killed) {i : ι} (hi : (t.clients i).Attends) :
    i ∈ t.pending ∨ (t.clients i).serverClosed := by
  rcases attends_of_moves hmoves hi with rfl | ⟨hbefore, hstays⟩
  · cases hmoves with
    | connected hphase => exact .inl (by simp [State.pending])
  · rcases h.attended i hbefore with hpending | hclosed
    · rcases pending_of_moves hmoves halive with ⟨hsame, -⟩ | ⟨j, -, hjoins, -⟩ |
        ⟨j, -, hleaves, hclosed⟩
      · exact .inl (hsame ▸ hpending)
      · exact .inl (hjoins ▸ List.mem_append_left _ hpending)
      · rw [hleaves] at hpending
        rcases List.mem_cons.mp hpending with rfl | hpending
        · exact .inr hclosed
        · exact .inl hpending
    · exact .inr (hstays hclosed)

theorem Timely.step (h : Timely service crowd tr s) (hsettled : Settled G tr s)
    (hstep : Step call G s a t) (hundisturbed : Undisturbed (s, a, t))
    (hfew : Few crowd (s, a, t)) (hfast : (crowd + 1) * service < 5)
    (hprompt : t.pending ≠ [] → t.now ≤ turnAfter (tr ++ [(s, a, t)]) + service) :
    Timely service crowd (tr ++ [(s, a, t)]) t := by
  have hmoves := hstep.moves
  have halive : t.server ≠ .killed := by
    intro hkilled
    obtain ⟨_, i, _, -, -, hgave⟩ := (hsettled.killed_iff hstep hundisturbed).mp hkilled
    rw [h.patient] at hgave
    cases hgave
  obtain ⟨hturn, hline⟩ := h.line_step hmoves halive hfew
  constructor
  · exact hturn.trans (now_of_moves hmoves)
  · exact hprompt
  · exact fun i => (stamp_of_moves hmoves (h.stamp_le i)).2
  · exact hline
  · exact fun i hi => h.attended_step hmoves halive hi
  · rw [gaveUpIn_append, h.patient, h.gaveUp hmoves hfast]
    rfl
  · exact halive

end

/-- The client that acts. -/
def Action.client : Action ι W → Option ι
  | .openUnixClientSock i _ | .send i _ | .timeout i | .selectFails i | .recv i _ => some i
  | _ => none

/-- The thread receives from a client that has sent nothing more, and has not closed its end. -/
structure Held (i : ι) (out : Text) (s : State ι W) : Prop where
  server : s.server = .receiving i out
  silent : (s.clients i).toServer = []
  opened : (s.clients i).closed = false

section

variable [DecidableEq ι] {G : Gateway Openable W} {s t : State ι W} {a : Action ι W} {i : ι}
  {out : Text}

omit [DecidableEq ι] in
theorem Held.keep (h : Held i out s) (hserver : t.server = s.server)
    (hclient : t.clients i = s.clients i) : Held i out t where
  server := hserver.trans h.server
  silent := by rw [hclient, h.silent]
  opened := by rw [hclient, h.opened]

theorem Held.step (h : Held i out s) (hstep : Step call G s a t) (hsilent : a.client ≠ some i) :
    handledBy G (s, a, t) = none ∧ (Held i out t ∨ t.server = .killed) := by
  have hserver := h.server
  have hother : ∀ {j : ι} {c : Client}, some j ≠ some i →
      Function.update s.clients j c i = s.clients i := by
    intro j c hj
    exact Function.update_of_ne (fun heq => hj (congrArg some heq.symm)) _ _
  cases hstep.moves with
  | elapsed | elsewhere => exact ⟨rfl, .inl ⟨h.server, h.silent, h.opened⟩⟩
  | refused | unconnected | connected | sent | timedOut | selectFailed | received =>
      exact ⟨rfl, .inl (h.keep rfl (hother hsilent))⟩
  | svrFailed => exact ⟨rfl, .inr rfl⟩
  | @svrReceived j out' b r hserver' hblock hreads =>
      obtain ⟨rfl, rfl⟩ : i = j ∧ out = out' := by simpa [hserver] using hserver'
      rw [h.silent, h.opened] at hreads
      obtain ⟨hbegin, hend, -⟩ := hreads b hblock
      exact absurd (hend (List.prefix_nil.mp hbegin)).2 Bool.false_ne_true
  | accepted hserver' | handled hserver' | killed _ hserver' | answered _ hserver'
  | sentOn _ hserver' | closed hserver' =>
      rw [hserver] at hserver'
      cases hserver'

theorem held_run {tr : Trace ι W} (path : Path (Step call G) s tr t) (h : Held i out s)
    (hsilent : ∀ e ∈ tr, e.2.1.client ≠ some i) :
    handledIn G tr = [] ∧ (Held i out t ∨ t.server = .killed) := by
  induction path with
  | nil => exact ⟨rfl, .inl h⟩
  | @cons s a t tr u hstep htail ih =>
      rw [List.forall_mem_cons] at hsilent
      obtain ⟨hnone, hnext⟩ := h.step hstep hsilent.1
      rcases hnext with hheld | hkilled
      · obtain ⟨hrest, hlast⟩ := ih hheld hsilent.2
        exact ⟨by rwa [handledIn, List.filterMap_cons_none hnone], hlast⟩
      · cases htail with
        | nil => exact ⟨by rw [handledIn, List.filterMap_cons_none hnone]; rfl, .inr hkilled⟩
        | cons hstep' => exact absurd hkilled hstep'.1.1

end

/-- While a client that was accepted sends nothing, no text is handled, and every other client
that returns, and was not handled before, got no socket or nothing. -/
theorem silent_client_blocks [DecidableEq ι] {G : Gateway Openable W} {s t : State ι W} {w : W}
    {tr tr' : Trace ι W} {i : ι} {out : Text} (before : Path (Step call G) (init w) tr s)
    (during : Path (Step call G) s tr' t) (hheld : Held i out s)
    (hsilent : ∀ e ∈ tr', e.2.1.client ≠ some i) :
    handledIn G tr' = [] ∧ (t.server = .receiving i out ∨ t.server = .killed) ∧
      ∀ j rsp, (t.clients j).phase = .returned rsp →
        j ∉ (handledIn G tr).map Handled.client →
          rsp = cstr "failed to open kappaio-usock" ∨ rsp = [] := by
  obtain ⟨hnone, hlast⟩ := held_run during hheld hsilent
  refine ⟨hnone, hlast.imp_left Held.server, fun j rsp hreturned hnew => ?_⟩
  have hanswers := (answers (before.append during)).2
  have hunhandled : j ∉ (handledIn G (tr ++ tr')).map Handled.client := by
    rwa [handledIn, List.filterMap_append, ← handledIn, ← handledIn, hnone, List.append_nil]
  rcases (hanswers j).returned rsp hreturned with hfailed | hbegin
  · exact .inl hfailed
  · rw [responseIn_of_unhandled hunhandled] at hbegin
    exact .inr (List.prefix_nil.mp hbegin)

/-- A client is accepted, and another one waits. -/
def accepted : List (Action Bool Unit) := [.openUnixClientSock false .connected, .accept]

def heldUp : List (Action Bool Unit) :=
  [.openUnixClientSock true .connected, .send true 3, .tick 5, .timeout true]

theorem silent_client_blocks_two : ∃ s t : State Bool Unit, Held false [] s ∧
    (t.clients true).phase = .returned [] ∧ t.server = .receiving false [] := by
  let s : State Bool Unit := (played accepted).2
  have before : Path (Step (fun _ => cstr "GET") echo) (init ()) (played accepted).1 s :=
    play_path accepted (by decide)
  have during : Path (Step (fun _ => cstr "GET") echo) s _ _ := play_path heldUp (by decide)
  have hheld : Held false [] s := ⟨by decide, by decide, by decide⟩
  obtain ⟨-, hserver, -⟩ := silent_client_blocks before during hheld
    (by simp [play, heldUp, Action.client])
  exact ⟨s, _, hheld, by decide, hserver.resolve_right (by decide)⟩

end KappaGateway.LocalInterface

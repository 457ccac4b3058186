import KappaGateway.Kintf.LocalInterface

/-!
# Runs of the local interface

The connections are handled in the order in which they were opened, each at most once, and
what is handled is a beginning of what its client sent. A client that gets an answer gets a
beginning of the response to its own request.
-/

namespace KappaGateway.LocalInterface

open Kutil RecvStr RequestText Transition

variable {ι W : Type*} {Openable : Text → Prop} [DecidableEq ι] {call : ι → Text}
  {G : Gateway Openable W} {s t : State ι W} {a : Action ι W}

/-! ### What a step can do -/

/-- The steps, each with what it needs. -/
inductive Moves (call : ι → Text) (G : Gateway Openable W) (s : State ι W) :
    Action ι W → State ι W → Prop
  | elapsed (d : Nat) : Moves call G s (.tick d) { s with now := s.now + d }
  | elsewhere (w : W) : Moves call G s (.elsewhere w) { s with world := w }
  | refused {i : ι} (hphase : (s.clients i).phase = .called) :
      Moves call G s (.openUnixClientSock i .failed)
        (s.goto i (.returned (cstr "failed to open kappaio-usock")))
  | unconnected {i : ι} (hphase : (s.clients i).phase = .called) :
      Moves call G s (.openUnixClientSock i .unconnected) (s.goto i (.unconnected s.now))
  | connected {i : ι} (hphase : (s.clients i).phase = .called) :
      Moves call G s (.openUnixClientSock i .connected)
        ({ s with queue := s.queue ++ [i] }.goto i .connected)
  | sent {i : ι} (n : Nat) (hphase : (s.clients i).phase = .connected) :
      Moves call G s (.send i n)
        (s.modify i fun c => { c with phase := .waiting s.now, toServer := (call i).take n })
  | timedOut {i : ι} {since : Nat} (hsince : (s.clients i).phase.since = some since)
      (hlate : since + 5 ≤ s.now) (hnone : ¬ (s.clients i).readable) :
      Moves call G s (.timeout i) (s.goto i (.returned []))
  | selectFailed {i : ι} {since : Nat} (hsince : (s.clients i).phase.since = some since) :
      Moves call G s (.selectFails i) (s.goto i (.returned []))
  | received {i : ι} {r : remote.Round} (hreads : (s.clients i).Receives r) :
      Moves call G s (.recv i r) (s.modify i (Client.recv r))
  | accepted {i : ι} {rest : List ι} (hserver : s.server = .listening)
      (hqueue : s.queue = i :: rest) :
      Moves call G s .accept ({ s with queue := rest }.serve (.receiving i []))
  | svrFailed {i : ι} {out : Text} {r : remote.Round} (hserver : s.server = .receiving i out)
      (hblock : r.block = none) :
      Moves call G s (.svrRecv r) (s.serve .killed)
  | svrReceived {i : ι} {out b : Text} {r : remote.Round} (hserver : s.server = .receiving i out)
      (hblock : r.block = some b)
      (hreads : Reads (s.clients i).toServer (s.clients i).closed r) :
      Moves call G s (.svrRecv r)
        ((s.modify i (Client.taken r)).serve
          (if remote.pred r then .receiving i (out ++ b) else .received i (out ++ b)))
  | handled {i : ι} {text : Text} (hserver : s.server = .received i text) :
      Moves call G s .handle
        ({ s with world := (G.callback text s.world).2 }.serve
          ((G.callback text s.world).1.elim (.finishing i []) (.answering i)))
  | killed {i : ι} {rsp : Text} (n : Nat) (hserver : s.server = .answering i rsp)
      (hclosed : (s.clients i).closed) :
      Moves call G s (.svrSend n) (s.serve .killed)
  | answered {i : ι} {rsp : Text} (n : Nat) (hserver : s.server = .answering i rsp)
      (hopen : (s.clients i).closed = false) :
      Moves call G s (.svrSend n)
        ((s.modify i (Client.pushed (rsp.take n))).serve (.finishing i (rsp.drop n)))
  | sentOn {i : ι} {rest : Text} (n : Nat) (hserver : s.server = .finishing i rest)
      (hopen : (s.clients i).closed = false) :
      Moves call G s (.svrSendOn n)
        ((s.modify i (Client.pushed (rest.take n))).serve (.finishing i (rest.drop n)))
  | closed {i : ι} {rest : Text} (hserver : s.server = .finishing i rest)
      (hdone : rest = [] ∨ (s.clients i).closed) :
      Moves call G s .close
        ((s.modify i fun c => { c with serverClosed := true }).serve .listening)

theorem Step.moves (h : Step call G s a t) : Moves call G s a t := by
  obtain ⟨⟨halive, henabled⟩, rfl⟩ := h
  cases a with
  | tick d => exact .elapsed d
  | elsewhere w => exact .elsewhere w
  | openUnixClientSock i opening =>
      cases opening with
      | failed => exact .refused henabled
      | unconnected => exact .unconnected henabled
      | connected => exact .connected henabled
  | send i n => exact .sent n henabled.1
  | timeout i =>
      obtain ⟨⟨since, hsince, hlate⟩, hnone⟩ := henabled
      exact .timedOut hsince hlate hnone
  | selectFails i =>
      obtain ⟨since, hsince⟩ := Option.isSome_iff_exists.mp henabled
      exact .selectFailed hsince
  | recv i r => exact .received henabled
  | accept =>
      obtain ⟨hserver, hqueue⟩ := henabled
      obtain ⟨i, rest, hcons⟩ := List.exists_cons_of_ne_nil hqueue
      simp only [next, hcons]
      exact .accepted hserver hcons
  | svrRecv r =>
      cases hserver : s.server with
      | receiving i out =>
          simp only [hserver] at henabled
          cases hblock : r.block with
          | none =>
              simp only [next, hserver, recvRound, hblock]
              exact .svrFailed hserver hblock
          | some b =>
              have hmoves : Moves call G s (.svrRecv r) _ :=
                .svrReceived hserver hblock henabled
              simp only [next, hserver, recvRound, hblock]
              by_cases hpred : remote.pred r
              · simpa [hpred] using hmoves
              · simpa [hpred] using hmoves
      | _ => simp [hserver] at henabled
  | handle =>
      cases hserver : s.server with
      | received i text =>
          simp only [next, hserver]
          exact .handled hserver
      | _ => simp [hserver] at henabled
  | svrSend n =>
      cases hserver : s.server with
      | answering i rsp =>
          simp only [next, hserver]
          by_cases hclosed : (s.clients i).closed
          · rw [if_pos hclosed]
            exact .killed n hserver hclosed
          · rw [if_neg hclosed]
            exact .answered n hserver (Bool.eq_false_iff.mpr hclosed)
      | _ => simp [hserver] at henabled
  | svrSendOn n =>
      cases hserver : s.server with
      | finishing i rest =>
          simp only [hserver] at henabled
          simp only [next, hserver]
          exact .sentOn n hserver (Bool.eq_false_iff.mpr henabled.1)
      | _ => simp [hserver] at henabled
  | close =>
      cases hserver : s.server with
      | finishing i rest =>
          simp only [hserver] at henabled
          simp only [next, hserver]
          exact .closed hserver henabled
      | _ => simp [hserver] at henabled

/-- What a step can do to a client. -/
inductive ClientMoves (text : Text) (now : Nat) (i : ι) (a : Action ι W) (c : Client) :
    Client → Prop
  | same : ClientMoves text now i a c c
  | refused (hphase : c.phase = .called) : ClientMoves text now i a c
      { c with phase := .returned (cstr "failed to open kappaio-usock") }
  | unconnected (hphase : c.phase = .called) :
      ClientMoves text now i a c { c with phase := .unconnected now }
  | connected (ha : a = .openUnixClientSock i .connected) (hphase : c.phase = .called) :
      ClientMoves text now i a c { c with phase := .connected }
  | sent (n : Nat) (ha : a = .send i n) (hphase : c.phase = .connected) :
      ClientMoves text now i a c { c with phase := .waiting now, toServer := text.take n }
  | gaveUp {since : Nat} (hsince : c.phase.since = some since) :
      ClientMoves text now i a c { c with phase := .returned [] }
  | received {r : remote.Round} (hreceives : c.Receives r) : ClientMoves text now i a c (c.recv r)
  | taken (r : remote.Round) (ha : a = .svrRecv r) : ClientMoves text now i a c (c.taken r)
  | pushed (piece : Text) : ClientMoves text now i a c (c.pushed piece)
  | closed : ClientMoves text now i a c { c with serverClosed := true }

theorem ClientMoves.update {i : ι} {c : Client}
    (h : ClientMoves (call i) s.now i a (s.clients i) c) (j : ι) :
    ClientMoves (call j) s.now j a (s.clients j) (Function.update s.clients i c j) := by
  by_cases hj : j = i
  · subst hj
    rwa [Function.update_self]
  · rw [Function.update_of_ne hj]
    exact .same

theorem Moves.client (h : Moves call G s a t) :
    ∀ i, ClientMoves (call i) s.now i a (s.clients i) (t.clients i) := by
  cases h with
  | elapsed | elsewhere | accepted | svrFailed | handled | killed => exact fun _ => .same
  | refused hphase => exact ClientMoves.update (.refused hphase)
  | unconnected hphase => exact ClientMoves.update (.unconnected hphase)
  | connected hphase => exact ClientMoves.update (.connected rfl hphase)
  | sent n hphase => exact ClientMoves.update (.sent n rfl hphase)
  | timedOut hsince | selectFailed hsince => exact ClientMoves.update (.gaveUp hsince)
  | received hreceives => exact ClientMoves.update (.received hreceives)
  | svrReceived => exact ClientMoves.update (.taken _ rfl)
  | answered | sentOn => exact ClientMoves.update (.pushed _)
  | closed => exact ClientMoves.update .closed

theorem recv_phase_ne_called (c : Client) (r : remote.Round) : (c.recv r).phase ≠ .called := by
  rw [Client.recv]
  split <;> simp

theorem called_of_moves {i : ι} (hmoves : Moves call G s a t)
    (hi : (t.clients i).phase = .called) : (s.clients i).phase = .called := by
  have hclient := hmoves.client i
  generalize t.clients i = d at hi hclient
  cases hclient with
  | same | taken | pushed | closed => exact hi
  | received => exact absurd hi (recv_phase_ne_called _ _)
  | _ => cases hi

/-! ### The order of the connections -/

/-- The transitions of a run. -/
abbrev Trace (ι W : Type*) := List (State ι W × Action ι W × State ι W)

/-- The client whose connection a transition opens. -/
def opened : State ι W × Action ι W × State ι W → Option ι
  | (_, .openUnixClientSock i .connected, _) => some i
  | _ => none

/-- A text that the thread had handled, with its response. -/
structure Handled (ι : Type*) where
  client : ι
  text : Text
  rsp : Option Text

def handledBy (G : Gateway Openable W) : State ι W × Action ι W × State ι W → Option (Handled ι)
  | (s, .handle, _) =>
      match s.server with
      | .received i text => some ⟨i, text, (G.callback text s.world).1⟩
      | _ => none
  | _ => none

def connectedIn (tr : Trace ι W) : List ι := tr.filterMap opened

def handledIn (G : Gateway Openable W) (tr : Trace ι W) : List (Handled ι) :=
  tr.filterMap (handledBy G)

/-- The connection that was accepted and not handled yet. -/
def Server.unhandled : Server ι → List ι
  | .receiving i _ | .received i _ => [i]
  | _ => []

/-- The connection that was handled and not closed yet. -/
def Server.answered : Server ι → List ι
  | .answering i _ | .finishing i _ => [i]
  | _ => []

def State.unhandled (s : State ι W) : List ι := s.server.unhandled ++ s.queue

/-- What was handled and what is going to be are the connections in their order. -/
structure InOrder (G : Gateway Openable W) (tr : Trace ι W) (s : State ι W) : Prop where
  order : s.server ≠ .killed →
    (handledIn G tr).map Handled.client ++ s.unhandled = connectedIn tr
  handled : (handledIn G tr).map Handled.client <+: connectedIn tr
  answered : ∀ i ∈ s.server.answered, i ∈ (handledIn G tr).map Handled.client
  called : ∀ i, (s.clients i).phase = .called → i ∉ connectedIn tr
  nodup : (connectedIn tr).Nodup

section

variable {tr : Trace ι W}

omit [DecidableEq ι] in
theorem InOrder.init (w : W) : InOrder G [] (init w : State ι W) :=
  ⟨fun _ => rfl, List.prefix_rfl, fun _ hi => absurd hi List.not_mem_nil,
    fun _ _ => List.not_mem_nil, List.nodup_nil⟩

/-- A transition that opens no connection and has nothing handled. -/
theorem InOrder.keep (h : InOrder G tr s) (hmoves : Moves call G s a t)
    (hopened : opened (s, a, t) = none) (hhandled : handledBy G (s, a, t) = none)
    (horder : t.server ≠ .killed → s.server ≠ .killed ∧ t.unhandled = s.unhandled)
    (hanswered : ∀ i ∈ t.server.answered, i ∈ s.server.answered) :
    InOrder G (tr ++ [(s, a, t)]) t := by
  have hconnected : connectedIn (tr ++ [(s, a, t)]) = connectedIn tr := by
    simp [connectedIn, hopened]
  have hsame : handledIn G (tr ++ [(s, a, t)]) = handledIn G tr := by
    simp [handledIn, hhandled]
  constructor
  · intro halive
    obtain ⟨hbefore, hunhandled⟩ := horder halive
    rw [hconnected, hsame, hunhandled]
    exact h.order hbefore
  · rw [hconnected, hsame]
    exact h.handled
  · rw [hsame]
    exact fun i hi => h.answered i (hanswered i hi)
  · rw [hconnected]
    exact fun i hi => h.called i (called_of_moves hmoves hi)
  · rw [hconnected]
    exact h.nodup

theorem InOrder.step (h : InOrder G tr s) (hstep : Step call G s a t) :
    InOrder G (tr ++ [(s, a, t)]) t := by
  have halive : s.server ≠ .killed := hstep.1.1
  have hmoves := hstep.moves
  cases hmoves with
  | elapsed | elsewhere | refused | unconnected | sent | timedOut | selectFailed | received =>
      exact h.keep hstep.moves rfl rfl (fun _ => ⟨halive, rfl⟩) fun _ => id
  | @connected i hphase =>
      have hnew : i ∉ connectedIn tr := h.called i hphase
      have hconnected : ∀ t, connectedIn
          (tr ++ [(s, .openUnixClientSock i .connected, t)]) = connectedIn tr ++ [i] := by
        simp [connectedIn, opened]
      constructor
      · intro _
        rw [hconnected, ← h.order halive]
        simp [handledIn, handledBy, State.unhandled, State.goto, State.modify]
      · have hsame : ∀ t, handledIn G (tr ++ [(s, .openUnixClientSock i .connected, t)]) =
            handledIn G tr := by
          simp [handledIn, handledBy]
        rw [hconnected, hsame]
        exact h.handled.trans (List.prefix_append _ _)
      · simpa [handledIn, handledBy] using h.answered
      · intro j hj
        rw [hconnected]
        have hother : j ≠ i := by
          rintro rfl
          simp [State.goto] at hj
        have hphase' : (s.clients j).phase = .called := called_of_moves hstep.moves hj
        simpa [hother] using h.called j hphase'
      · rw [hconnected]
        exact h.nodup.append (List.nodup_singleton i) (by simpa using hnew)
  | accepted hserver hqueue =>
      refine h.keep hstep.moves rfl rfl (fun _ => ⟨halive, ?_⟩) (by simp [Server.answered])
      simp [State.unhandled, Server.unhandled, hserver, hqueue]
  | svrFailed | killed =>
      exact h.keep hstep.moves rfl rfl (fun hdead => absurd rfl hdead) (by simp [Server.answered])
  | @svrReceived i out b r hserver hblock hreads =>
      refine h.keep hstep.moves rfl rfl (fun _ => ⟨halive, ?_⟩) ?_
      · rw [State.unhandled, State.unhandled, hserver, serve_server]
        split <;> rfl
      · rw [serve_server]
        split <;> simp [Server.answered]
  | @handled i text hserver =>
      have hhandled : ∀ t, handledIn G (tr ++ [(s, .handle, t)]) =
          handledIn G tr ++ [⟨i, text, (G.callback text s.world).1⟩] := by
        simp [handledIn, handledBy, hserver]
      have horder := h.order halive
      simp only [State.unhandled, hserver, Server.unhandled, List.singleton_append] at horder
      have hconnected : ∀ t, connectedIn (tr ++ [(s, .handle, t)]) = connectedIn tr := by
        simp [connectedIn, opened]
      constructor
      · intro _
        rw [hconnected, hhandled, ← horder]
        cases hrsp : (G.callback text s.world).1 with
        | none => simp [State.unhandled, State.serve, Server.unhandled]
        | some rsp => simp [State.unhandled, State.serve, Server.unhandled]
      · rw [hconnected, hhandled, ← horder]
        simp
      · rw [hhandled]
        cases hrsp : (G.callback text s.world).1 with
        | none => simp [Server.answered]
        | some rsp => simp [Server.answered]
      · rw [hconnected]
        exact fun j hj => h.called j (called_of_moves hstep.moves hj)
      · rw [hconnected]
        exact h.nodup
  | answered n hserver | sentOn n hserver | closed hserver =>
      refine h.keep hstep.moves rfl rfl (fun _ => ⟨halive, ?_⟩) (by simp [Server.answered, hserver])
      simp [State.unhandled, Server.unhandled, hserver]

/-! ### What is handled -/

/-- What the thread has received from a client. -/
def Server.heard (server : Server ι) (i : ι) : Text :=
  match server with
  | .receiving j out | .received j out => if j = i then out else []
  | _ => []

/-- The client has not sent anything yet, but may. -/
def Phase.Unsent (phase : Phase) : Prop := phase = .called ∨ phase = .connected

theorem Phase.Unsent.closed {c : Client} (h : c.phase.Unsent) : c.closed = false := by
  rcases h with h | h <;> simp [Client.closed, h]

/-- What the thread has received from a client, and what is under way, is a beginning of what
the client is going to send. -/
structure Requests (call : ι → Text) (s : State ι W) : Prop where
  unsent : ∀ i, (s.clients i).phase.Unsent →
    (s.clients i).toServer = [] ∧ s.server.heard i = []
  sent : ∀ i ∈ s.unhandled, s.server.heard i ++ (s.clients i).toServer <+: call i

/-- A client that has sent no more. -/
def Client.Keeps (c d : Client) : Prop :=
  d.toServer = c.toServer ∧ (d.phase.Unsent → c.phase.Unsent)

theorem Client.Keeps.refl (c : Client) : c.Keeps c := ⟨rfl, id⟩

theorem Client.Keeps.of_phase (c : Client) {phase : Phase} (hphase : ¬ phase.Unsent) :
    c.Keeps { c with phase := phase } := ⟨rfl, fun hunsent => absurd hunsent hphase⟩

theorem Client.keeps_recv (c : Client) (r : remote.Round) : c.Keeps (c.recv r) := by
  rw [Client.recv]
  split <;> exact ⟨rfl, fun hunsent => by simp [Phase.Unsent] at hunsent⟩

/-- Only a client that connects or sends, or from which the thread takes, may change. -/
theorem keeps_of_moves {i : ι} (hmoves : Moves call G s a t)
    (hconnects : a ≠ .openUnixClientSock i .connected) (hsends : ∀ n, a ≠ .send i n)
    (htakes : ∀ r, a ≠ .svrRecv r) : (s.clients i).Keeps (t.clients i) := by
  have hclient := hmoves.client i
  generalize t.clients i = d at hclient
  cases hclient with
  | same => exact .refl _
  | refused | unconnected | gaveUp => exact .of_phase _ (by simp [Phase.Unsent])
  | connected ha => exact absurd ha hconnects
  | sent n ha => exact absurd ha (hsends n)
  | received => exact Client.keeps_recv _ _
  | taken r ha => exact absurd ha (htakes r)
  | pushed | closed => exact ⟨rfl, id⟩

theorem Requests.keep (h : Requests call s)
    (hunhandled : ∀ i ∈ t.unhandled, i ∈ s.unhandled)
    (hheard : ∀ i, t.server.heard i = s.server.heard i)
    (hclient : ∀ i, (s.clients i).Keeps (t.clients i)) : Requests call t where
  unsent i hi := by
    obtain ⟨hnone, hempty⟩ := h.unsent i ((hclient i).2 hi)
    exact ⟨(hclient i).1.trans hnone, (hheard i).trans hempty⟩
  sent i hi := by
    rw [hheard i, (hclient i).1]
    exact h.sent i (hunhandled i hi)

theorem Requests.step (h : Requests call s) (horder : InOrder G tr s)
    (hstep : Step call G s a t) (halive : t.server ≠ .killed) : Requests call t := by
  have hbefore : s.server ≠ .killed := hstep.1.1
  cases hstep.moves with
  | elapsed | elsewhere => exact h.keep (fun _ => id) (fun _ => rfl) fun _ => .refl _
  | refused | unconnected | timedOut | selectFailed | received =>
      exact h.keep (fun _ => id) (fun _ => rfl)
        fun j => keeps_of_moves hstep.moves nofun nofun nofun
  | svrFailed | killed => exact absurd rfl halive
  | accepted hserver hqueue =>
      refine h.keep ?_ ?_ fun _ => .refl _
      · simp [State.unhandled, Server.unhandled, hserver, hqueue]
      · simp [Server.heard, hserver]
  | answered n hserver | sentOn n hserver | closed hserver =>
      refine h.keep ?_ ?_ fun j => keeps_of_moves hstep.moves nofun nofun nofun
      · simp [State.unhandled, Server.unhandled, hserver]
      · simp [Server.heard, hserver]
  | @connected i hphase =>
      obtain ⟨hnone, hempty⟩ := h.unsent i (.inl hphase)
      constructor
      · intro j hj
        by_cases hji : j = i
        · subst hji
          simpa using ⟨hnone, hempty⟩
        · simp only [goto_clients, Function.update_of_ne hji] at hj ⊢
          exact h.unsent j hj
      · intro j hj
        by_cases hji : j = i
        · subst hji
          simp [hnone, hempty]
        · simp only [goto_clients, Function.update_of_ne hji]
          apply h.sent
          simpa [State.unhandled, hji, or_assoc] using hj
  | @sent i n hphase =>
      obtain ⟨-, hempty⟩ := h.unsent i (.inr hphase)
      constructor
      · intro j hj
        by_cases hji : j = i
        · subst hji
          simp [Phase.Unsent] at hj
        · simp only [modify_clients, Function.update_of_ne hji] at hj ⊢
          exact h.unsent j hj
      · intro j hj
        by_cases hji : j = i
        · subst hji
          simpa [hempty] using List.take_prefix n (call j)
        · simp only [modify_clients, Function.update_of_ne hji]
          exact h.sent j hj
  | @svrReceived i out b r hserver hblock hreads =>
      obtain ⟨⟨rest, hrest⟩, hend, -⟩ := hreads b hblock
      have htaken : ((s.clients i).taken r).toServer = rest := by
        simp [Client.taken, hblock, ← hrest]
      have hheard : ∀ j, (if remote.pred r then Server.receiving i (out ++ b)
          else .received i (out ++ b)).heard j = if i = j then out ++ b else [] := by
        intro j
        split <;> rfl
      constructor
      · intro j hj
        by_cases hji : j = i
        · subst hji
          have hphase : (s.clients j).phase.Unsent := by simpa [Client.taken] using hj
          obtain ⟨hnone, -⟩ := h.unsent j hphase
          have hb : b = [] := (List.append_eq_nil_iff.mp (hrest.trans hnone)).1
          exact absurd (hend hb).2 (Bool.eq_false_iff.mp hphase.closed)
        · simp only [serve_clients, modify_clients, Function.update_of_ne hji] at hj ⊢
          refine ⟨(h.unsent j hj).1, ?_⟩
          rw [serve_server, hheard, if_neg (Ne.symm hji)]
      · intro j hj
        rw [serve_server, hheard]
        by_cases hji : j = i
        · subst hji
          have hsent := h.sent j (by simp [State.unhandled, hserver, Server.unhandled])
          simpa [hserver, Server.heard, htaken, ← hrest] using hsent
        · rw [serve_clients, modify_clients, Function.update_of_ne hji, if_neg (Ne.symm hji)]
          have hqueue : j ∈ s.queue := by
            rw [State.unhandled, serve_server] at hj
            split at hj <;> simpa [Server.unhandled, hji] using hj
          have hsent := h.sent j (List.mem_append_right _ hqueue)
          simpa [hserver, Server.heard, Ne.symm hji] using hsent
  | @handled i text hserver =>
      have hnodup : (i :: s.queue).Nodup := by
        have hconnected := horder.nodup
        rw [← horder.order hbefore, State.unhandled, hserver] at hconnected
        exact hconnected.of_append_right
      have hserver' : ∀ rsp : Option Text, ∀ j,
          (rsp.elim (Server.finishing i []) (.answering i)).heard j = [] ∧
            (rsp.elim (Server.finishing i []) (.answering i)).unhandled = [] := by
        rintro (_ | rsp) j <;> exact ⟨rfl, rfl⟩
      constructor
      · intro j hj
        exact ⟨(h.unsent j hj).1, (hserver' _ j).1⟩
      · intro j hj
        rw [State.unhandled, serve_server, (hserver' _ j).2] at hj
        have hother : i ≠ j := fun heq => (List.nodup_cons.mp hnodup).1 (heq ▸ hj)
        have hsent := h.sent j (List.mem_append_right _ hj)
        rw [serve_server, (hserver' _ j).1]
        simpa [hserver, Server.heard, hother] using hsent

omit [DecidableEq ι] in
theorem handledIn_append (tr : Trace ι W) (e : State ι W × Action ι W × State ι W) :
    handledIn G (tr ++ [e]) = handledIn G tr ++ (handledBy G e).toList := by
  cases h : handledBy G e <;> simp [handledIn, h]

omit [DecidableEq ι] in
theorem handledBy_eq_some {h : Handled ι} (hhandled : handledBy G (s, a, t) = some h) :
    a = .handle ∧ s.server = .received h.client h.text ∧
      h.rsp = (G.callback h.text s.world).1 := by
  cases a with
  | handle =>
      simp only [handledBy] at hhandled
      split at hhandled
      · next hserver =>
          cases hhandled
          exact ⟨rfl, hserver, rfl⟩
      · cases hhandled
  | _ => simp [handledBy] at hhandled

/-- What was handled is a beginning of what its client was called with. -/
structure History (call : ι → Text) (G : Gateway Openable W) (tr : Trace ι W)
    (s : State ι W) : Prop where
  order : InOrder G tr s
  requests : s.server ≠ .killed → Requests call s
  texts : ∀ h ∈ handledIn G tr, h.text <+: call h.client

theorem History.init (w : W) : History call G [] (init w) where
  order := .init w
  requests _ := ⟨fun _ _ => ⟨rfl, rfl⟩, fun _ hi => absurd hi List.not_mem_nil⟩
  texts := by simp [handledIn]

theorem History.step (h : History call G tr s) (hstep : Step call G s a t) :
    History call G (tr ++ [(s, a, t)]) t := by
  have hrequests := h.requests hstep.1.1
  refine ⟨h.order.step hstep, hrequests.step h.order hstep, fun e he => ?_⟩
  rw [handledIn_append] at he
  rcases List.mem_append.mp he with he | he
  · exact h.texts e he
  · obtain ⟨-, hserver, -⟩ := handledBy_eq_some (Option.mem_toList.mp he)
    have hsent := hrequests.sent e.client
      (by simp [State.unhandled, hserver, Server.unhandled])
    rw [hserver] at hsent
    simp only [Server.heard, if_true] at hsent
    exact (List.prefix_append _ _).trans hsent

end

/-- In every run, the clients are handled in the order in which they connected, each at most
once, and what is handled is a beginning of what the client was called with. -/
theorem served_in_order {w : W} {tr : Trace ι W} (path : Path (Step call G) (init w) tr s) :
    (handledIn G tr).map Handled.client <+: connectedIn tr ∧ (connectedIn tr).Nodup ∧
      ∀ h ∈ handledIn G tr, h.text <+: call h.client := by
  have h := path.history (fun _ _ _ _ hpast hstep => History.step hpast hstep) (.init w)
  exact ⟨h.order.handled, h.order.nodup, h.texts⟩

/-- A gateway that knows one request. -/
def echo : Gateway (fun _ => False) Unit where
  jansson :=
    { json_loads := fun text =>
        if text = cstr "GET" then some (.object [(cstr "ver", .string (cstr "0001"))]) else none
      json_loadf := fun _ => none
      json_dumps := fun _ => none }
  files _ := noFiles _
  response _ w := (cstr "OK", w)

/-- The request and the response, each in one block. -/
def requestBlock : remote.Round := ⟨some (cstr "GET"), false, by decide⟩

def responseBlock : remote.Round := ⟨some (cstr "OK"), false, by decide⟩

/-- Two clients connect, and the first is served. -/
def twoClients : List (Action Bool Unit) :=
  [.openUnixClientSock false .connected, .openUnixClientSock true .connected, .send true 3,
    .accept, .send false 3, .tick 1, .svrRecv requestBlock, .handle, .svrSend 2,
    .recv false responseBlock, .close, .accept]

/-- A run of the clients that send the request. -/
abbrev played (actions : List (Action Bool Unit)) : Trace Bool Unit × State Bool Unit :=
  play (next (fun _ => cstr "GET") echo) (init ()) actions

theorem served_in_order_two :
    (handledIn echo (played twoClients).1).map Handled.client = [false] ∧
      (handledIn echo (played twoClients).1).map Handled.client <+:
        connectedIn (played twoClients).1 ∧
      ∀ h ∈ handledIn echo (played twoClients).1, h.text <+: cstr "GET" := by
  have path : Path (Step (fun _ => cstr "GET") echo) (init ()) (played twoClients).1 _ :=
    play_path twoClients (by decide)
  obtain ⟨horder, -, htexts⟩ := served_in_order path
  exact ⟨by decide, horder, htexts⟩

/-! ### What is answered -/

/-- What the thread has left to send to a client. -/
def Server.left (server : Server ι) (i : ι) : Text :=
  match server with
  | .answering j rest | .finishing j rest => if j = i then rest else []
  | _ => []

/-- The response to a client, and nothing if it had none. -/
def responseIn (G : Gateway Openable W) (tr : Trace ι W) (i : ι) : Text :=
  (((handledIn G tr).find? (·.client = i)).bind Handled.rsp).getD []

/-- What a client has received, what is under way and what is left to send are the response;
what it returned is a beginning of it, unless it got no socket. -/
structure Client.Gets (rsp left : Text) (c : Client) : Prop where
  stream : c.closed = false → c.phase.out ++ c.toClient ++ left = rsp
  returned : ∀ out, c.phase = .returned out →
    out = cstr "failed to open kappaio-usock" ∨ out <+: rsp

def Answers (G : Gateway Openable W) (tr : Trace ι W) (s : State ι W) : Prop :=
  ∀ i, (s.clients i).Gets (responseIn G tr i) (s.server.left i)

section

variable {tr : Trace ι W} {rsp left : Text}

theorem gets_update {i : ι} {c : Client} {rsp left left' : ι → Text}
    (h : ∀ j, (s.clients j).Gets (rsp j) (left j)) (hleft : ∀ j, j ≠ i → left' j = left j)
    (hc : c.Gets (rsp i) (left' i)) (j : ι) :
    (Function.update s.clients i c j).Gets (rsp j) (left' j) := by
  by_cases hj : j = i
  · subst hj
    rwa [Function.update_self]
  · rw [Function.update_of_ne hj, hleft j hj]
    exact h j

theorem Client.Gets.goto {c : Client} (h : c.Gets rsp left) {phase : Phase}
    (hout : phase.out = c.phase.out) (hopen : c.closed = false)
    (hgoes : ∀ out, phase ≠ .returned out) : Client.Gets rsp left { c with phase := phase } where
  stream _ := by simpa [hout] using h.stream hopen
  returned out hreturned := absurd hreturned (hgoes out)

theorem Client.Gets.gaveUp {c : Client} {out : Text}
    (hout : out = cstr "failed to open kappaio-usock" ∨ out = []) :
    Client.Gets rsp left { c with phase := .returned out } where
  stream hopen := by simp [Client.closed] at hopen
  returned out' hreturned := by
    cases hreturned
    rcases hout with rfl | rfl
    · exact .inl rfl
    · exact .inr List.nil_prefix

/-- A client that receives a block takes it from what is under way. -/
theorem Client.Receives.block {c : Client} {r : remote.Round} {b : Text} (h : c.Receives r)
    (hblock : r.block = some b) :
    c.closed = false ∧ b <+: c.toClient ∧ (b = [] → c.toClient = [] ∧ c.serverClosed) := by
  rw [Client.Receives] at h
  split at h
  · rw [hblock] at h
    cases h
  · next hphase =>
      obtain ⟨hbegin, hend, -⟩ := h b hblock
      exact ⟨by simp [Client.closed, hphase], hbegin, hend⟩
  · next hphase =>
      obtain ⟨hbegin, hend, -⟩ := h b hblock
      exact ⟨by simp [Client.closed, hphase], hbegin, hend⟩
  · cases h

theorem Client.Gets.recv {c : Client} (h : c.Gets rsp left) {r : remote.Round}
    (hreceives : c.Receives r) : (c.recv r).Gets rsp left := by
  rw [Client.recv, recvRound]
  cases hblock : r.block with
  | none => exact ⟨fun hopen => by simp [Client.closed] at hopen, nofun⟩
  | some b =>
      obtain ⟨hopen, ⟨rest, hrest⟩, -⟩ := hreceives.block hblock
      have hstream : c.phase.out ++ b ++ rest ++ left = rsp := by
        simpa [← hrest] using h.stream hopen
      have hdrop : c.toClient.drop b.length = rest := by simp [← hrest]
      by_cases hpred : remote.pred r
      · simp only [if_pos hpred, Option.getD_some, hdrop]
        exact ⟨fun _ => hstream, nofun⟩
      · simp only [if_neg hpred, Option.getD_some, hdrop]
        refine ⟨fun hopen => by simp [Client.closed] at hopen, fun out hout => .inr ?_⟩
        cases hout
        rw [← hstream, List.append_assoc]
        exact List.prefix_append _ _

theorem Answers.all {e : State ι W × Action ι W × State ι W} (hhandled : handledBy G e = none)
    (h : ∀ j, (t.clients j).Gets (responseIn G tr j) (t.server.left j)) :
    Answers G (tr ++ [e]) t := by
  intro j
  have hsame : responseIn G (tr ++ [e]) j = responseIn G tr j := by
    rw [responseIn, handledIn_append, hhandled, Option.toList_none, List.append_nil, responseIn]
  rw [hsame]
  exact h j

/-- A transition that changes one client and has nothing handled. -/
theorem Answers.one {e : State ι W × Action ι W × State ι W} (h : Answers G tr s)
    (hhandled : handledBy G e = none) {i : ι} {c : Client}
    (hclients : t.clients = Function.update s.clients i c)
    (hleft : ∀ j, j ≠ i → t.server.left j = s.server.left j)
    (hc : c.Gets (responseIn G tr i) (t.server.left i)) : Answers G (tr ++ [e]) t :=
  .all hhandled (hclients ▸ gets_update h hleft hc)

theorem Client.Gets.left_nil {c : Client} (h : c.Gets rsp left) (hleft : left = [] ∨ c.closed) :
    c.Gets rsp [] where
  stream hopen := by
    rcases hleft with rfl | hclosed
    · exact h.stream hopen
    · exact absurd hclosed (Bool.eq_false_iff.mp hopen)
  returned := h.returned

theorem Client.Gets.pushed {c : Client} (h : c.Gets rsp left) (hopen : c.closed = false) (n : Nat) :
    (c.pushed (left.take n)).Gets rsp (left.drop n) where
  stream _ := by
    have hstream := h.stream hopen
    rw [← List.take_append_drop n left] at hstream
    simpa [Client.pushed] using hstream
  returned := h.returned

/-- A client that has got nothing yet gets a response. -/
theorem Client.Gets.answered {c : Client} (h : c.Gets [] left) (rsp : Text) : c.Gets rsp rsp where
  stream hopen := by
    have hempty := h.stream hopen
    simp only [List.append_eq_nil_iff] at hempty
    simp [hempty]
  returned out hout := by
    rcases h.returned out hout with hfailed | hnil
    · exact .inl hfailed
    · exact .inr (List.prefix_nil.mp hnil ▸ List.nil_prefix)

theorem responseIn_of_unhandled {i : ι} (h : i ∉ (handledIn G tr).map Handled.client) :
    responseIn G tr i = [] := by
  have hnone : (handledIn G tr).find? (·.client = i) = none := by
    simpa using h
  rw [responseIn, hnone]
  rfl

theorem responseIn_handled {e : State ι W × Action ι W × State ι W} {entry : Handled ι}
    (hnew : entry.client ∉ (handledIn G tr).map Handled.client)
    (hhandled : handledBy G e = some entry) (j : ι) : responseIn G (tr ++ [e]) j =
      if entry.client = j then entry.rsp.getD [] else responseIn G tr j := by
  rw [responseIn, handledIn_append, hhandled, List.find?_append]
  by_cases hj : entry.client = j
  · have hnone : (handledIn G tr).find? (·.client = j) = none := by
      simpa [hj] using hnew
    simp [hnone, hj]
  · simp [hj, responseIn]

theorem Answers.step (h : Answers G tr s) (horder : InOrder G tr s)
    (hstep : Step call G s a t) : Answers G (tr ++ [(s, a, t)]) t := by
  cases hstep.moves with
  | elapsed | elsewhere => exact .all rfl h
  | @refused i hphase => exact h.one rfl rfl (fun _ _ => rfl) (.gaveUp (.inl rfl))
  | @timedOut i since hsince | @selectFailed i since hsince =>
      exact h.one rfl rfl (fun _ _ => rfl) (.gaveUp (.inr rfl))
  | @unconnected i hphase | @connected i hphase =>
      refine h.one rfl rfl (fun _ _ => rfl) ((h i).goto ?_ ?_ nofun)
      · simp [Phase.out, hphase]
      · simp [Client.closed, hphase]
  | @sent i n hphase =>
      refine h.one rfl rfl (fun _ _ => rfl) ⟨fun _ => ?_, nofun⟩
      simpa [Phase.out, hphase] using (h i).stream (by simp [Client.closed, hphase])
  | @received i r hreceives => exact h.one rfl rfl (fun _ _ => rfl) ((h i).recv hreceives)
  | accepted hserver hqueue =>
      refine .all rfl fun j => (h j).left_nil (.inl ?_)
      simp [Server.left, hserver]
  | svrFailed hserver hblock =>
      refine .all rfl fun j => (h j).left_nil (.inl ?_)
      simp [Server.left, hserver]
  | @killed i rsp n hserver hclosed =>
      refine .all rfl fun j => (h j).left_nil ?_
      by_cases hij : i = j
      · exact .inr (hij ▸ hclosed)
      · simp [Server.left, hserver, hij]
  | @svrReceived i out b r hserver hblock hreads =>
      have hleft : ∀ j, (if remote.pred r then Server.receiving i (out ++ b)
          else .received i (out ++ b)).left j = s.server.left j := by
        intro j
        rw [hserver]
        split <;> rfl
      refine h.one rfl rfl (fun j _ => hleft j) ?_
      rw [serve_server, hleft]
      exact ⟨(h i).stream, (h i).returned⟩
  | @answered i rsp n hserver hopen | @sentOn i rsp n hserver hopen =>
      have hgets : ((s.clients i).pushed (rsp.take n)).Gets (responseIn G tr i) (rsp.drop n) := by
        refine Client.Gets.pushed ?_ hopen n
        simpa [Server.left, hserver] using h i
      refine h.one rfl rfl (fun j hj => ?_) ?_
      · simp [Server.left, hserver, Ne.symm hj]
      · simpa [Server.left] using hgets
  | @closed i rest hserver hdone =>
      have hgets : (s.clients i).Gets (responseIn G tr i) [] := by
        refine (h i).left_nil ?_
        simpa [Server.left, hserver] using hdone
      refine h.one rfl rfl (fun j hj => ?_) ⟨hgets.stream, hgets.returned⟩
      simp [Server.left, hserver, Ne.symm hj]
  | @handled i text hserver =>
      have hconnected := horder.nodup
      rw [← horder.order hstep.1.1, State.unhandled, hserver] at hconnected
      have hnew : i ∉ (handledIn G tr).map Handled.client := by
        intro hi
        refine List.disjoint_of_nodup_append hconnected hi ?_
        simp [Server.unhandled]
      have hhandled : ∀ t, handledBy G (s, .handle, t) =
          some ⟨i, text, (G.callback text s.world).1⟩ := by
        simp [handledBy, hserver]
      have hleft : ∀ rsp : Option Text, ∀ j,
          (rsp.elim (Server.finishing i []) (.answering i)).left j =
            if i = j then rsp.getD [] else [] := by
        rintro (_ | rsp) j <;> simp [Server.left]
      intro j
      have hbefore := h j
      rw [serve_clients, serve_server, hleft, responseIn_handled hnew (hhandled _)]
      by_cases hj : i = j
      · subst hj
        rw [responseIn_of_unhandled hnew] at hbefore
        simpa using hbefore.answered ((G.callback text s.world).1.getD [])
      · rw [if_neg hj, if_neg hj]
        simpa [Server.left, hserver] using hbefore

theorem Answers.init (w : W) : Answers G [] (init w : State ι W) :=
  fun _ => ⟨fun _ => rfl, nofun⟩

theorem answers {w : W} (path : Path (Step call G) (init w) tr s) :
    History call G tr s ∧ Answers G tr s :=
  path.history (P := fun tr s => History call G tr s ∧ Answers G tr s)
    (fun _ _ _ _ hpast hstep =>
      ⟨hpast.1.step hstep, hpast.2.step hpast.1.order hstep⟩) ⟨.init w, .init w⟩

end

/-- A client that has returned got no socket, or nothing, or a beginning of the response to
what the thread received of its own request. -/
theorem answered_own_request {w : W} {tr : Trace ι W} (path : Path (Step call G) (init w) tr s)
    {i : ι} {out : Text} (hreturned : (s.clients i).phase = .returned out) :
    out = cstr "failed to open kappaio-usock" ∨ out = [] ∨
      ∃ h ∈ handledIn G tr, h.client = i ∧ h.text <+: call i ∧ ∃ rsp ∈ h.rsp, out <+: rsp := by
  obtain ⟨hhistory, hanswers⟩ := answers path
  rcases (hanswers i).returned out hreturned with hfailed | hbegin
  · exact .inl hfailed
  · rw [responseIn] at hbegin
    cases hfind : (handledIn G tr).find? (·.client = i) with
    | none =>
        rw [hfind] at hbegin
        exact .inr (.inl (List.prefix_nil.mp hbegin))
    | some h =>
        have hmem : h ∈ handledIn G tr := List.mem_of_find?_eq_some hfind
        have hclient : h.client = i := by simpa using List.find?_some hfind
        rw [hfind, Option.bind_some] at hbegin
        cases hrsp : h.rsp with
        | none =>
            rw [hrsp] at hbegin
            exact .inr (.inl (List.prefix_nil.mp hbegin))
        | some rsp =>
            rw [hrsp] at hbegin
            exact .inr (.inr ⟨h, hmem, hclient, hclient ▸ hhistory.texts h hmem, rsp, hrsp,
              hbegin⟩)

theorem answered_own_request_two : ∃ h ∈ handledIn echo (played twoClients).1,
    h.client = false ∧ h.text <+: cstr "GET" ∧ ∃ rsp ∈ h.rsp, cstr "OK" <+: rsp := by
  have path : Path (Step (fun _ => cstr "GET") echo) (init ()) (played twoClients).1 _ :=
    play_path twoClients (by decide)
  have hreturned : ((played twoClients).2.clients false).phase = .returned (cstr "OK") := by decide
  have h := answered_own_request path hreturned
  exact (h.resolve_left (by decide)).resolve_left (by decide)

end KappaGateway.LocalInterface

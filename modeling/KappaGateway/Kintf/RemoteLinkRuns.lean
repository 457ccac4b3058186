import KappaGateway.Kapi.ConnectionRuns
import KappaGateway.Kintf.RemoteLink

/-!
# Runs of the link

What holds of the pings, the socket and the answers, in every run and whatever the other
threads do: pings are apart, the socket that is watched is the open one, and a link with a
server that answers in time is never taken for broken. A broken link is only repaired by an
answer that comes in the turn of its ping.
-/

namespace KappaGateway.RemoteLink

open Transition Kutil Kjson RequestText RemoteAccess Connections

section

variable {Openable : Text → Prop} {J : Jansson} {hwAddr : Text} {s s' : State}
  {tr : List (State × Action Openable × State)}

theorem foldl_idempotent {σ ι : Type*} {f : σ → σ} (hf : ∀ s, f (f s) = f s) (l : List ι) (s : σ) :
    l.foldl (fun s _ => f s) s = if l = [] then s else f s := by
  induction l generalizing s with
  | nil => rfl
  | cons x l ih =>
      rw [List.foldl_cons, ih, if_neg (List.cons_ne_nil x l), hf, ite_self]

/-- What a call of `listenOnce` does. -/
theorem listen_cases (time : Int) (outcomes : List Selects.Outcome) (datagram : Option Text)
    (s : State) :
    s.listen time outcomes datagram = { s with now := time, phase := .enable } ∨
      s.callbacks outcomes ≠ [] ∧ datagram = some (cstr "ping/rsp") ∧
        s.listen time outcomes datagram =
          { s with
            now := time
            phase := .enable
            onePing := { s.onePing with lastRsp_ := time }
            asked := none } := by
  have hidem : ∀ s : State, (s.receive time datagram).receive time datagram =
      s.receive time datagram := by
    intro s
    unfold State.receive
    by_cases hrsp : datagram = some (cstr "ping/rsp")
    · simp [hrsp]
    · simp [hrsp]
  rw [State.listen, foldl_idempotent hidem]
  by_cases hnone : s.callbacks outcomes = []
  · rw [if_pos hnone]
    exact Or.inl rfl
  · rw [if_neg hnone, State.receive]
    by_cases hrsp : datagram = some (cstr "ping/rsp")
    · rw [if_pos hrsp]
      exact Or.inr ⟨hnone, hrsp, rfl⟩
    · rw [if_neg hrsp]
      exact Or.inl rfl

/-! ### What the actions leave alone -/

section

variable (J hwAddr)

theorem next_brokenLink (time : Int) (a : Acquisition) (s : State) :
    ∃ server host S bound, next J hwAddr s (.brokenLink time a : Action Openable) =
      { s with
        now := time
        server := server
        host := host
        S := S
        phase := .deviceToken
        bound := bound } := by
  rw [next]
  split
  · exact ⟨_, _, _, _, rfl⟩
  · exact ⟨_, _, _, _, rfl⟩

theorem next_onePing (due tod want stamp : Int) (s : State) :
    ∃ now lastReq_ sent bound asked,
      next J hwAddr s (.onePing due tod want stamp : Action Openable) =
        { s with
          now := now
          onePing := { s.onePing with lastReq_ := lastReq_ }
          phase := .listenOnce
          sent := sent
          bound := bound
          asked := asked } := by
  rw [next, State.ping]
  split
  · exact ⟨_, _, _, _, _, rfl⟩
  · exact ⟨_, _, _, _, _, rfl⟩

theorem next_listenOnce (time : Int) (outcomes : List Selects.Outcome) (datagram : Option Text)
    (s : State) : ∃ lastRsp_ asked,
      next J hwAddr s (.listenOnce time outcomes datagram : Action Openable) =
        { s with
          now := time
          phase := .enable
          onePing := { s.onePing with lastRsp_ := lastRsp_ }
          asked := asked } := by
  rcases listen_cases time outcomes datagram s with heq | ⟨-, -, heq⟩
  · exact ⟨_, _, heq⟩
  · exact ⟨_, _, heq⟩

end

/-! ### Pings -/

/-- The pings are apart, and the last of them is remembered. -/
structure Paced (s : State) : Prop where
  last : ∀ p ∈ s.sent, p.stamp ≤ s.onePing.lastReq_
  apart : s.sent.Pairwise fun p q => p.stamp + minReqIntv_ ≤ q.due

theorem Paced.step {a : Action Openable} (hpaced : Paced s) (hstep : Step J hwAddr s a s') :
    Paced s' := by
  obtain ⟨henabled, rfl⟩ := hstep
  cases a with
  | truncated | sign | deviceToken => exact ⟨hpaced.last, hpaced.apart⟩
  | enabled => exact ⟨hpaced.last, hpaced.apart⟩
  | disabled time => exact ⟨hpaced.last, hpaced.apart⟩
  | brokenLink time a =>
      obtain ⟨_, _, _, _, heq⟩ := next_brokenLink J hwAddr time a s
      rw [heq]
      exact ⟨hpaced.last, hpaced.apart⟩
  | onePing due tod want stamp =>
      obtain ⟨-, -, htod, hwant, hstamp⟩ := henabled
      simp only [next, State.ping]
      split
      · exact ⟨hpaced.last, hpaced.apart⟩
      · next hdue =>
          unfold minReqIntv_ at hdue
          constructor
          · intro p hp
            rcases List.mem_append.mp hp with hp | hp
            · have hlast := hpaced.last p hp
              dsimp only
              omega
            · rw [List.mem_singleton.mp hp]
          · apply List.pairwise_append.mpr
            refine ⟨hpaced.apart, List.pairwise_singleton _ _, fun p hp q hq => ?_⟩
            have hlast := hpaced.last p hp
            rw [List.mem_singleton.mp hq]
            unfold minReqIntv_
            dsimp only
            omega
  | listenOnce time outcomes datagram =>
      obtain ⟨_, _, heq⟩ := next_listenOnce J hwAddr time outcomes datagram s
      rw [heq]
      exact ⟨hpaced.last, hpaced.apart⟩

/-- In every run, a ping is due no sooner than 45 seconds after the ping before. -/
theorem pings_apart {now : Int} {device_data : Option Doc} {a : Acquisition}
    (path : Path (Step J hwAddr) (init now device_data a) tr s) :
    s.sent.Pairwise fun p q => p.stamp + 45 ≤ q.due := by
  have hstart : Paced (init now device_data a) := ⟨by simp [init], List.Pairwise.nil⟩
  exact (path.preserves (fun _ _ _ hpaced hstep => hpaced.step hstep) hstart).apart

/-- The file of a device that is signed in, and a parser that parses nothing. -/
def signedIn : Option Doc := some (.object [(cstr "connect", .integer 1)])

def noJansson : Jansson := ⟨fun _ => none, fun _ => none, fun _ => none⟩

theorem pings_apart_turns : ∃ s : State, s.sent.map Ping.due = [5000, 5045] ∧
    s.sent.Pairwise fun p q => p.stamp + 45 ≤ q.due := by
  have path : Path (Step noJansson []) (init 4990 signedIn ⟨[], 4⟩) _ _ :=
    play_path (firstTurn 5000 5 ++ laterTurn 5045) (by decide)
  exact ⟨_, by decide, pings_apart path⟩

/-! ### The socket -/

/-- The clock is read for the link, and shows more than an hour and a quarter. -/
def Late : State × Action Openable × State → Prop
  | (_, .brokenLink time _, _) => time > 4500
  | _ => False

/-- Nothing is watched yet. -/
structure Deaf (s : State) : Prop where
  S : s.S = Selects.init
  lastRsp_ : s.onePing.lastRsp_ = 0

/-- The socket is watched. -/
def Hears (s : State) : Prop := s.S = Selects.rFD_SET s.server.fd_.toNat () Selects.init

theorem Hears.step {a : Action Openable} (hhears : Hears s) (hstep : Step J hwAddr s a s') :
    Hears s' := by
  obtain ⟨-, rfl⟩ := hstep
  cases a with
  | truncated | sign | deviceToken => exact hhears
  | enabled => exact hhears
  | disabled time => exact hhears
  | brokenLink time a =>
      unfold next
      dsimp only
      split
      · rfl
      · exact hhears
  | onePing due tod want stamp =>
      obtain ⟨_, _, _, _, _, heq⟩ := next_onePing J hwAddr due tod want stamp s
      rw [heq]
      exact hhears
  | listenOnce time outcomes datagram =>
      obtain ⟨_, _, heq⟩ := next_listenOnce J hwAddr time outcomes datagram s
      rw [heq]
      exact hhears

theorem Deaf.callbacks (hdeaf : Deaf s) (outcomes : List Selects.Outcome) :
    s.callbacks outcomes = [] := by
  rw [State.callbacks, hdeaf.S, Selects.listenOnce]
  cases Selects.listenLoop ((Selects.init : Selects.State Unit).fdMax + 1) outcomes
      (Selects.init : Selects.State Unit).rdset with
  | none => rfl
  | some result => simp [Selects.init]

/-- Before the first late reading, nothing is watched, and nothing is received. -/
theorem Deaf.step {a : Action Openable} (hdeaf : Deaf s) (hstep : Step J hwAddr s a s') :
    (Late (s, a, s') → Hears s') ∧ (¬ Late (s, a, s') → Deaf s') := by
  obtain ⟨-, rfl⟩ := hstep
  cases a with
  | truncated | sign | deviceToken => exact ⟨False.elim, fun _ => ⟨hdeaf.S, hdeaf.lastRsp_⟩⟩
  | enabled => exact ⟨False.elim, fun _ => ⟨hdeaf.S, hdeaf.lastRsp_⟩⟩
  | disabled time => exact ⟨False.elim, fun _ => ⟨hdeaf.S, hdeaf.lastRsp_⟩⟩
  | brokenLink time a =>
      have hbroken : s.onePing.brokenLink time ↔ time > 4500 := by
        rw [OnePing.brokenLink, hdeaf.lastRsp_, minRspIntv_, bii_]
        omega
      by_cases hlate : time > 4500
      · refine ⟨fun _ => ?_, fun hnot => absurd hlate hnot⟩
        rw [next, if_pos (hbroken.mpr hlate)]
        rfl
      · refine ⟨fun h => absurd h hlate, fun _ => ?_⟩
        rw [next, if_neg (fun h => hlate (hbroken.mp h))]
        exact ⟨hdeaf.S, hdeaf.lastRsp_⟩
  | onePing due tod want stamp =>
      obtain ⟨_, _, _, _, _, heq⟩ := next_onePing J hwAddr due tod want stamp s
      rw [heq]
      exact ⟨False.elim, fun _ => ⟨hdeaf.S, hdeaf.lastRsp_⟩⟩
  | listenOnce time outcomes datagram =>
      refine ⟨False.elim, fun _ => ?_⟩
      rcases listen_cases time outcomes datagram s with heq | ⟨hsome, -, -⟩
      · rw [next, heq]
        exact ⟨hdeaf.S, hdeaf.lastRsp_⟩
      · exact absurd (hdeaf.callbacks outcomes) hsome

theorem Deaf.path (path : Path (Step J hwAddr) s tr s') (hdeaf : Deaf s) :
    ((∃ e ∈ tr, Late e) → Hears s') ∧ ((¬ ∃ e ∈ tr, Late e) → Deaf s') := by
  induction path with
  | nil => exact ⟨by simp, fun _ => hdeaf⟩
  | @cons s a t tr u hstep tail ih =>
      obtain ⟨hlate, hearly⟩ := hdeaf.step hstep
      by_cases hfirst : Late (s, a, t)
      · have hhears : Hears u := tail.preserves (fun _ _ _ h hstep => h.step hstep) (hlate hfirst)
        exact ⟨fun _ => hhears, fun hnone => absurd ⟨_, List.mem_cons_self, hfirst⟩ hnone⟩
      · obtain ⟨hrest, hnone⟩ := ih (hearly hfirst)
        simp only [List.mem_cons, exists_eq_or_imp, hfirst, false_or]
        exact ⟨hrest, hnone⟩

/-- The socket is open, and its address list is not freed. -/
theorem keeps_step {a : Action Openable} (hstep : Step J hwAddr s a s')
    (hkeeps : ∃ acquisitions, Keeps acquisitions (s.server, s.host)) :
    ∃ acquisitions, Keeps acquisitions (s'.server, s'.host) := by
  obtain ⟨henabled, rfl⟩ := hstep
  cases a with
  | truncated | sign | deviceToken => exact hkeeps
  | enabled => exact hkeeps
  | disabled time => exact hkeeps
  | brokenLink time a =>
      obtain ⟨-, -, hfresh⟩ := henabled
      unfold next
      dsimp only
      split
      · next hbroken =>
          obtain ⟨acquisitions, hkeeps⟩ := hkeeps
          have hrt : (0 : Int) < 10 := by decide
          exact ⟨_, hkeeps.reset hrt ⟨hfresh hbroken, rfl⟩⟩
      · exact hkeeps
  | onePing due tod want stamp =>
      obtain ⟨_, _, _, _, _, heq⟩ := next_onePing J hwAddr due tod want stamp s
      rw [heq]
      exact hkeeps
  | listenOnce time outcomes datagram =>
      obtain ⟨_, _, heq⟩ := next_listenOnce J hwAddr time outcomes datagram s
      rw [heq]
      exact hkeeps

/-- In every run, the socket of the link is open, and it is what `select` is given, with one
callback, once the clock showed more than an hour and a quarter in some turn; until then
`select` is given nothing, and no answer is received. -/
theorem watched {now : Int} {device_data : Option Doc} {a : Acquisition}
    (path : Path (Step J hwAddr) (init now device_data a) tr s) :
    ∃ fd : Nat, s.server.fd_ = fd ∧ fd ∈ s.host.fds ∧
      ((∃ e ∈ tr, Late e) → s.S.rdset = {fd} ∧ s.S.conns = [(fd, ())]) ∧
      ((¬ ∃ e ∈ tr, Late e) → s.S.rdset = ∅ ∧ s.S.conns = [] ∧ s.onePing.lastRsp_ = 0) := by
  obtain ⟨acquisitions, hkeeps⟩ : ∃ acquisitions, Keeps acquisitions (s.server, s.host) :=
    path.preserves (fun _ _ _ hkeeps hstep => keeps_step hstep hkeeps) ⟨_, keeps_new (by decide) a⟩
  obtain ⟨fd, hfd, -, hfds⟩ := hkeeps.fd
  have hdeaf : Deaf (init now device_data a) := ⟨rfl, rfl⟩
  obtain ⟨hhears, hnone⟩ := hdeaf.path path
  refine ⟨fd, hfd, (hfds fd).mpr (Or.inl rfl), fun hlate => ?_, fun hearly => ?_⟩
  · have hnat : s.server.fd_.toNat = fd := by
      have hint : s.server.fd_ = fd := hfd
      omega
    rw [hhears hlate, hnat]
    exact ⟨rfl, rfl⟩
  · obtain ⟨hS, hlast⟩ := hnone hearly
    rw [hS]
    exact ⟨rfl, rfl, hlast⟩

theorem watched_turn : ∃ s : State, s.S.rdset = {5} ∧ 5 ∈ s.host.fds := by
  have path : Path (Step noJansson []) (init 4990 signedIn ⟨[], 4⟩) _ _ :=
    play_path (firstTurn 5000 5) (by decide)
  obtain ⟨fd, hfd, hopen, hlate, -⟩ := watched path
  have hfive : (5 : Int) = fd := hfd
  obtain rfl : fd = 5 := by omega
  have hread : (5000 : Int) > 4500 := by decide
  exact ⟨_, (hlate ⟨_, List.mem_cons_of_mem _ List.mem_cons_self, hread⟩).1, hopen⟩

/-! ### Answers -/

/-- A socket has no port before it sends. -/
theorem unbound_step {a : Action Openable} (hstep : Step J hwAddr s a s')
    (hunbound : s.bound = false) (hsilent : ¬ Sends (s, a, s')) : s'.bound = false := by
  obtain ⟨-, rfl⟩ := hstep
  cases a with
  | truncated | sign | deviceToken => exact hunbound
  | enabled => exact hunbound
  | disabled time => exact hunbound
  | brokenLink time a =>
      unfold next
      dsimp only
      split
      · rfl
      · exact hunbound
  | onePing due tod want stamp =>
      rw [next, State.ping, if_pos (not_not.mp hsilent)]
      exact hunbound
  | listenOnce time outcomes datagram =>
      obtain ⟨_, _, heq⟩ := next_listenOnce J hwAddr time outcomes datagram s
      rw [heq]
      exact hunbound

theorem sends_of_receives {mid : List (State × Action Openable × State)}
    {e : State × Action Openable × State} (path : Path (Step J hwAddr) s (mid ++ [e]) s')
    (hunbound : s.bound = false) (hreceives : Receives e) : ∃ d ∈ mid, Sends d := by
  induction mid generalizing s with
  | nil =>
      cases path with
      | cons hstep tail =>
          cases tail
          obtain ⟨henabled, -⟩ := hstep
          rename_i a
          cases a with
          | listenOnce time outcomes datagram =>
              obtain ⟨hcallbacks, hsome⟩ := hreceives
              obtain ⟨-, -, -, hport⟩ := henabled
              rw [hport hcallbacks hsome] at hunbound
              cases hunbound
          | _ => exact absurd hreceives id
  | cons d mid ih =>
      cases path with
      | @cons _ a t _ _ hstep tail =>
          by_cases hsends : Sends (s, a, t)
          · exact ⟨_, List.mem_cons_self, hsends⟩
          · obtain ⟨d', hd', hsends'⟩ := ih tail (unbound_step hstep hunbound hsends)
            exact ⟨d', List.mem_cons_of_mem _ hd', hsends'⟩

/-- After a turn has found the link broken, a datagram is only received once a ping is sent:
since every turn with a broken link opens another socket, an answer counts only in the turn
of its ping. -/
theorem answered_in_turn {mid : List (State × Action Openable × State)}
    {first last : State × Action Openable × State}
    (path : Path (Step J hwAddr) s (first :: (mid ++ [last])) s') (hresets : Resets first)
    (hreceives : Receives last) : ∃ e ∈ mid, Sends e := by
  cases path with
  | @cons _ a t _ _ hstep tail =>
      cases a with
      | brokenLink time a =>
          have hbroken : s.onePing.brokenLink time := hresets
          have hunbound : t.bound = false := by
            rw [hstep.2, next, if_pos hbroken]
            rfl
          exact sends_of_receives tail hunbound hreceives
      | _ => exact absurd hresets id

theorem answered_in_turn_first : ∃ e : State × Action (fun _ => False) × State, Sends e := by
  let s := next noJansson [] (init 4990 signedIn ⟨[], 4⟩) (.enabled : Action fun _ => False)
  have path : Path (Step noJansson []) s (_ :: ([_, _] ++ [_])) _ :=
    play_path (firstTurn 5000 5).tail (by decide)
  have hbroken : s.onePing.brokenLink 5000 := by decide
  obtain ⟨e, -, he⟩ := answered_in_turn path hbroken ⟨by decide, rfl⟩
  exact ⟨e, he⟩

/-! ### A link that is up -/

/-- The server answers within some time once it is asked. -/
def Prompt (D : Nat) (s : State) : Prop := ∀ p ∈ s.asked, s.now ≤ p + D

/-- An action takes no more than some time. -/
def Steady (G : Nat) (e : State × Action Openable × State) : Prop := e.2.2.now ≤ e.1.now + G

instance (D : Nat) (s : State) : Decidable (Prompt D s) :=
  inferInstanceAs (Decidable (∀ p ∈ s.asked, _))

instance (G : Nat) (e : State × Action Openable × State) : Decidable (Steady G e) :=
  inferInstanceAs (Decidable (_ ≤ _))

/-- There was an answer just now. -/
structure Answered (s : State) : Prop where
  phase : s.phase = .enable
  lastRsp_ : s.onePing.lastRsp_ = s.now
  lastReq_ : s.onePing.lastReq_ ≤ s.now
  asked : s.asked = none

/-- How many actions there were since the interval of the pings was looked at. -/
def Phase.since : Phase → Nat
  | .listenOnce => 1
  | .enable => 2
  | .brokenLink => 2
  | .deviceToken => 3
  | .onePing => 3

/-- Until the server is asked, the last ping and the clock are not far from the hour. -/
structure Up (G : Nat) (s : State) : Prop where
  lastReq_ : s.onePing.lastReq_ ≤ s.now
  quiet : s.asked = none → s.onePing.lastReq_ ≤ s.onePing.lastRsp_ + 3600 + G ∧
    s.now ≤ s.onePing.lastRsp_ + 3645 + s.phase.since * G
  asked : ∀ p ∈ s.asked, p ≤ s.onePing.lastRsp_ + 3645 + 4 * G

theorem Answered.up (hanswered : Answered s) (G : Nat) : Up G s where
  lastReq_ := hanswered.lastReq_
  quiet _ := by
    have hlastReq := hanswered.lastReq_
    rw [hanswered.lastRsp_, hanswered.phase, Phase.since]
    omega
  asked p hp := by
    rw [hanswered.asked] at hp
    cases hp

theorem Up.not_broken {G D : Nat} {time : Int} (hup : Up G s) (hsum : 4 * G + D ≤ 855)
    (hphase : s.phase = .brokenLink) (hsteady : time ≤ s.now + G)
    (hprompt : ∀ p ∈ s.asked, time ≤ p + D) : ¬ s.onePing.brokenLink time := by
  rw [OnePing.brokenLink, minRspIntv_, bii_]
  cases hasked : s.asked with
  | none =>
      have hnow := (hup.quiet hasked).2
      rw [hphase, Phase.since] at hnow
      omega
  | some p =>
      have hp := hup.asked p hasked
      have htime := hprompt p hasked
      omega

/-- An action that sends and receives nothing may take its time in the turn. -/
theorem Up.later {G k : Nat} {phase : Phase} (hup : Up G s) (hphase : s.phase = phase)
    (honePing : s'.onePing = s.onePing) (hasked : s'.asked = s.asked) (hnow : s.now ≤ s'.now)
    (hsteady : s'.now ≤ s.now + k * G) (hsince : phase.since + k ≤ s'.phase.since) :
    Up G s' where
  lastReq_ := honePing ▸ Int.le_trans hup.lastReq_ hnow
  quiet hnone := by
    obtain ⟨hlast, hclock⟩ := hup.quiet (hasked ▸ hnone)
    have hmul : ((phase.since : Int) + k) * G ≤ s'.phase.since * G := by
      exact_mod_cast Nat.mul_le_mul_right G hsince
    rw [Int.add_mul] at hmul
    rw [hphase] at hclock
    rw [honePing]
    exact ⟨hlast, by omega⟩
  asked p hp := honePing ▸ hup.asked p (hasked ▸ hp)

/-- A ping that is not due comes soon after the last one. -/
theorem Up.early {G : Nat} {due : Int} (hup : Up G s) (hnow : s.now ≤ due)
    (hearly : due - s.onePing.lastReq_ < minReqIntv_) :
    Up G { s with now := due, phase := .listenOnce } := by
  unfold minReqIntv_ at hearly
  refine ⟨Int.le_trans hup.lastReq_ hnow, fun hasked => ?_, hup.asked⟩
  obtain ⟨hlast, -⟩ := hup.quiet hasked
  refine ⟨hlast, ?_⟩
  dsimp only [Phase.since]
  omega

/-- When it is asked for an answer, the hour is over by no more than some turns. -/
theorem Up.asked_or {G : Nat} {stamp p : Int} (hup : Up G s) (hphase : s.phase = .onePing)
    (hsteady : stamp ≤ s.now + G) (hp : s.asked.or (some stamp) = some p) :
    p ≤ s.onePing.lastRsp_ + 3645 + 4 * G := by
  cases hold : s.asked with
  | none =>
      obtain ⟨-, hclock⟩ := hup.quiet hold
      rw [hphase, Phase.since] at hclock
      rw [hold] at hp
      obtain rfl : stamp = p := by simpa using hp
      omega
  | some q =>
      rw [hold] at hp
      obtain rfl : q = p := Option.some.inj hp
      exact hup.asked q hold

theorem Up.ping {G : Nat} {due tod want stamp : Int} (hup : Up G s) (hphase : s.phase = .onePing)
    (hnow : s.now ≤ due) (hdue : due ≤ tod) (htod : tod ≤ want)
    (hsteady : (s.ping due tod want stamp).now ≤ s.now + G) :
    Up G (s.ping due tod want stamp) := by
  rw [State.ping] at hsteady ⊢
  split at hsteady
  · next hearly =>
      rw [if_pos hearly]
      exact hup.early hnow hearly
  · next hlate =>
      rw [if_neg hlate]
      have htime : stamp ≤ s.now + G := hsteady
      refine ⟨Int.le_refl _, fun hasked => ?_, fun p hp => ?_⟩
      · dsimp only [Phase.since] at hasked ⊢
        split at hasked
        · cases hold : s.asked <;> simp [hold] at hasked
        · next hwants =>
            have hle : want - s.onePing.lastRsp_ ≤ 3600 := by
              simpa [minRspIntv_] using hwants
            omega
      · dsimp only at hp ⊢
        split at hp
        · exact hup.asked_or hphase htime hp
        · exact hup.asked p hp

theorem Up.step {G D : Nat} {a : Action Openable} (hup : Up G s) (hsum : 4 * G + D ≤ 855)
    (hstep : Step J hwAddr s a s') (henabled : remoteAccessIsEnabled s.device_data)
    (hsteady : Steady G (s, a, s')) (hprompt : Prompt D s') :
    Up G s' ∧ ¬ Resets (s, a, s') := by
  obtain ⟨hen, rfl⟩ := hstep
  cases a with
  | truncated | sign => exact ⟨⟨hup.lastReq_, hup.quiet, hup.asked⟩, id⟩
  | enabled =>
      obtain ⟨hphase, -⟩ := hen
      have hnow : s.now ≤ s.now + (0 : Nat) * G := by omega
      exact ⟨hup.later hphase rfl rfl (Int.le_refl _) hnow (Nat.le_refl _), id⟩
  | disabled time => exact absurd henabled hen.2.1
  | brokenLink time a =>
      obtain ⟨hphase, hnow, -⟩ := hen
      obtain ⟨_, _, _, _, heq⟩ := next_brokenLink J hwAddr time a s
      have htime : time ≤ s.now + G := by
        rw [heq] at hsteady
        exact hsteady
      have hbroken : ¬ s.onePing.brokenLink time := by
        rw [heq] at hprompt
        exact hup.not_broken hsum hphase htime hprompt
      have hone : time ≤ s.now + (1 : Nat) * G := by omega
      rw [heq]
      exact ⟨hup.later hphase rfl rfl hnow hone (Nat.le_refl _), hbroken⟩
  | deviceToken =>
      have hphase : s.phase = .deviceToken := hen
      have hnow : s.now ≤ s.now + (0 : Nat) * G := by omega
      exact ⟨hup.later hphase rfl rfl (Int.le_refl _) hnow (Nat.le_refl _), id⟩
  | onePing due tod want stamp =>
      obtain ⟨hphase, hnow, hdue, htod, -⟩ := hen
      exact ⟨hup.ping hphase hnow hdue htod hsteady, id⟩
  | listenOnce time outcomes datagram =>
      obtain ⟨hphase, hnow, -⟩ := hen
      refine ⟨?_, id⟩
      rcases listen_cases time outcomes datagram s with heq | ⟨-, -, heq⟩
      · rw [next, heq] at hsteady ⊢
        have htime : time ≤ s.now + G := hsteady
        have hone : time ≤ s.now + (1 : Nat) * G := by omega
        exact hup.later hphase rfl rfl hnow hone (Nat.le_refl _)
      · rw [next, heq]
        apply Answered.up
        exact ⟨rfl, rfl, Int.le_trans hup.lastReq_ hnow, rfl⟩

/-- Once there was an answer, and as long as remote access is enabled, no action takes more
than `G` seconds and the server answers within `D` seconds when it is asked, the link is
never taken for broken, if four times `G` and `D` make no more than 855 seconds. -/
theorem stays_up {G D : Nat} (hsum : 4 * G + D ≤ 855) (hanswered : Answered s)
    (path : Path (Step J hwAddr) s tr s')
    (henabled : ∀ e ∈ tr, remoteAccessIsEnabled e.1.device_data)
    (hsteady : ∀ e ∈ tr, Steady G e) (hprompt : ∀ e ∈ tr, Prompt D e.2.2) :
    ∀ e ∈ tr, ¬ Resets e := by
  have hrun : ∀ {s s' : State} {tr : List (State × Action Openable × State)}, Up G s →
      Path (Step J hwAddr) s tr s' → (∀ e ∈ tr, remoteAccessIsEnabled e.1.device_data) →
      (∀ e ∈ tr, Steady G e) → (∀ e ∈ tr, Prompt D e.2.2) → ∀ e ∈ tr, ¬ Resets e := by
    intro s s' tr hup path
    induction path with
    | nil => simp
    | cons hstep tail ih =>
        intro henabled hsteady hprompt
        rw [List.forall_mem_cons] at henabled hsteady hprompt ⊢
        obtain ⟨hnext, hreset⟩ := hup.step hsum hstep henabled.1 hsteady.1 hprompt.1
        exact ⟨hreset, ih hnext henabled.2 hsteady.2 hprompt.2⟩
  exact hrun (hanswered.up G) path henabled hsteady hprompt

theorem stays_up_turn : ∃ tr : List (State × Action (fun _ => False) × State),
    tr.length = 5 ∧ ∀ e ∈ tr, ¬ Resets e := by
  let s := (play (next noJansson []) (init 4990 signedIn ⟨[], 4⟩) (firstTurn 5000 5)).2
  have hanswered : Answered s := ⟨rfl, rfl, by decide, rfl⟩
  have path : Path (Step noJansson []) s _ _ := play_path (laterTurn 5046) (by decide)
  have hsum : 4 * 60 + 10 ≤ 855 := by decide
  exact ⟨_, rfl, stays_up hsum hanswered path (by decide) (by decide) (by decide)⟩

/-! ### Tokens -/

/-- The tokens that the changes of the file left to read, in their order: none in a file that
is being written or was removed. -/
def tokensLeft (J : Jansson) (hwAddr : Text) (tr : List (State × Action Openable × State)) :
    List Text :=
  tr.filterMap fun e => match e.2.1 with
    | .truncated => some []
    | .sign x => (x.change J hwAddr).map Change.token
    | _ => none

/-- The token in the file after a run that began with another one. -/
def tokenAfter (J : Jansson) (hwAddr : Text) (tr : List (State × Action Openable × State))
    (token : Text) : Text :=
  (tokensLeft J hwAddr tr).getLast?.getD token

/-- The step is a request of another thread, or a part of it. -/
def Foreign : State × Action Openable × State → Prop
  | (_, .truncated, _) => True
  | (_, .sign _, _) => True
  | _ => False

theorem tokenAfter_concat (tr : List (State × Action Openable × State))
    (e : State × Action Openable × State) (token : Text) :
    tokenAfter J hwAddr (tr ++ [e]) token =
      tokenAfter J hwAddr [e] (tokenAfter J hwAddr tr token) := by
  rw [tokenAfter, tokensLeft, List.filterMap_append, List.getLast?_append, Option.getD_or]
  rfl

/-- Only the requests change what can be read. -/
theorem deviceToken_step {a : Action Openable} (hstep : Step J hwAddr s a s') :
    deviceToken s'.device_data =
      tokenAfter J hwAddr [(s, a, s')] (deviceToken s.device_data) := by
  obtain ⟨-, rfl⟩ := hstep
  cases a with
  | truncated => rfl
  | sign x =>
      rw [next, device_data_handle, tokenAfter, tokensLeft]
      cases hchange : x.change J hwAddr with
      | none => simp [hchange]
      | some change => simpa [hchange] using (read_change change).2.1
  | enabled | disabled | deviceToken => rfl
  | brokenLink time a =>
      obtain ⟨_, _, _, _, heq⟩ := next_brokenLink J hwAddr time a s
      rw [heq]
      rfl
  | onePing due tod want stamp =>
      obtain ⟨_, _, _, _, _, heq⟩ := next_onePing J hwAddr due tod want stamp s
      rw [heq]
      rfl
  | listenOnce time outcomes datagram =>
      obtain ⟨_, _, heq⟩ := next_listenOnce J hwAddr time outcomes datagram s
      rw [heq]
      rfl

/-- The ping on hand has read its token, and only requests of other threads came since. -/
def HasRead (J : Jansson) (hwAddr token : Text) (tr : List (State × Action Openable × State))
    (s : State) : Prop :=
  ∃ before reading between, tr = before ++ reading :: between ∧ reading.2.1 = .deviceToken ∧
    (∀ e ∈ between, Foreign e) ∧ s.token = tokenAfter J hwAddr before token

theorem HasRead.concat {token : Text} (h : HasRead J hwAddr token tr s)
    {e : State × Action Openable × State} (hforeign : Foreign e) (htoken : s'.token = s.token) :
    HasRead J hwAddr token (tr ++ [e]) s' := by
  obtain ⟨before, reading, between, rfl, hreading, hbetween, htaken⟩ := h
  refine ⟨before, reading, between ++ [e], by simp, hreading, fun x hx => ?_, htoken.trans htaken⟩
  rcases List.mem_append.mp hx with hx | hx
  · exact hbetween x hx
  · rw [List.mem_singleton.mp hx]
    exact hforeign

/-- The file has the token of the last change, and a ping on hand that of the last change
before it was read. -/
structure Tracks (J : Jansson) (hwAddr token : Text)
    (tr : List (State × Action Openable × State)) (s : State) : Prop where
  file : deviceToken s.device_data = tokenAfter J hwAddr tr token
  ping : s.phase = .onePing → HasRead J hwAddr token tr s

theorem Tracks.step {token : Text} {a : Action Openable} (h : Tracks J hwAddr token tr s)
    (hstep : Step J hwAddr s a s') : Tracks J hwAddr token (tr ++ [(s, a, s')]) s' := by
  refine ⟨?_, fun hphase => ?_⟩
  · rw [tokenAfter_concat, ← h.file]
    exact deviceToken_step hstep
  · obtain ⟨henabled, rfl⟩ := hstep
    cases a with
    | truncated => exact (h.ping hphase).concat trivial rfl
    | sign x => exact (h.ping hphase).concat trivial rfl
    | enabled => cases hphase
    | disabled time => cases henabled.1.symm.trans hphase
    | brokenLink time a =>
        obtain ⟨_, _, _, _, heq⟩ := next_brokenLink J hwAddr time a s
        rw [heq] at hphase
        cases hphase
    | deviceToken => exact ⟨tr, _, [], rfl, rfl, List.forall_mem_nil _, h.file⟩
    | onePing due tod want stamp =>
        obtain ⟨_, _, _, _, _, heq⟩ := next_onePing J hwAddr due tod want stamp s
        rw [heq] at hphase
        cases hphase
    | listenOnce time outcomes datagram =>
        obtain ⟨_, _, heq⟩ := next_listenOnce J hwAddr time outcomes datagram s
        rw [heq] at hphase
        cases hphase

/-- In every run, a ping has the token that the last change of the file before its reading
left, and nothing but requests of other threads comes between its reading and its sending. -/
theorem token_of_ping {now : Int} {device_data : Option Doc} {a : Acquisition}
    {e : State × Action Openable × State}
    (path : Path (Step J hwAddr) (init now device_data a) (tr ++ [e]) s') (hsends : Sends e) :
    ∃ before reading between p, tr = before ++ reading :: between ∧
      reading.2.1 = .deviceToken ∧ (∀ e ∈ between, Foreign e) ∧ s'.sent = e.1.sent ++ [p] ∧
      p.token = tokenAfter J hwAddr before (deviceToken device_data) := by
  obtain ⟨t, hpath, hlast⟩ := path.of_append
  have hstart : Tracks J hwAddr (deviceToken device_data) ([] : List (_ × Action Openable × _))
      (init now device_data a) := by
    refine ⟨rfl, fun hphase => ?_⟩
    cases hphase
  have htracks := hpath.history (fun _ _ _ _ h hstep => h.step hstep) hstart
  cases hlast with
  | @cons _ a u _ _ hstep tail =>
      cases tail
      cases a with
      | onePing due tod want stamp =>
          have hdue : ¬ due - t.onePing.lastReq_ < minReqIntv_ := hsends
          obtain ⟨henabled, rfl⟩ := hstep
          obtain ⟨before, reading, between, htr, hreading, hbetween, htoken⟩ :=
            htracks.ping henabled.1
          let p : Ping :=
            ⟨due, tod, t.token, decide (want - t.onePing.lastRsp_ > minRspIntv_), stamp⟩
          have hsent : (t.ping due tod want stamp).sent = t.sent ++ [p] := by
            rw [State.ping, if_neg hdue]
          exact ⟨before, reading, between, p, htr, hreading, hbetween, hsent, htoken⟩
      | _ => exact absurd hsends id

/-- A request to sign in and its reply, and a parser that parses them. -/
def posted : Request fun _ => False :=
  ⟨noFiles _, cstr "post", cstr "user", some (cstr "reply")⟩

def postJansson : Jansson where
  json_loads s :=
    if s = cstr "post" then some (.object [(cstr "method", .string (cstr "POST"))])
    else if s = cstr "reply" then some (.object [(cstr "arg", .string (cstr "rsp"))])
    else if s = cstr "rsp" then some (.object [(cstr "deviceToken", .string (cstr "T"))])
    else none
  json_loadf _ := none
  json_dumps _ := none

/-- Somebody signs in; a ping reads the token, and another request opens the file before it
is sent. -/
def crossing : List (Action fun _ => False) :=
  [.truncated, .sign posted, .enabled, .brokenLink 5000 ⟨[], 5⟩, .deviceToken, .truncated]

theorem token_of_ping_posted : ∃ (s : State) (p : Ping), s.device_data = none ∧ s.sent = [p] ∧
    p.token = cstr "T" := by
  have path : Path (Step postJansson []) (init 4990 none ⟨[], 4⟩)
      ([_, _, _, _, _, _] ++ [_]) _ :=
    play_path (crossing ++ [.onePing 5000 5000 5000 5000]) (by decide)
  have hdue : ¬ (5000 : Int) - 0 < minReqIntv_ := by decide
  obtain ⟨before, reading, between, p, htr, hreading, hbetween, hsent, htoken⟩ :=
    token_of_ping path hdue
  have hp : ([p] : List Ping) = [⟨5000, 5000, cstr "T", true, 5000⟩] := by
    rw [← List.nil_append [p]]
    exact hsent.symm.trans (by decide)
  refine ⟨_, p, ?_, hsent, ?_⟩
  · decide
  · rw [List.singleton_inj.mp hp]

/-! ### Signing out -/

/-- The step is no request that signs in. -/
def KeepsOut (J : Jansson) (hwAddr : Text) : State × Action Openable × State → Prop
  | (_, .sign x, _) => x.change J hwAddr = none ∨ x.change J hwAddr = some .signedOut
  | _ => True

/-- Signed out, with the pings that were there before and at most one more, which is still to
come only if the turn began before. Only a ping that had read its token before has one. -/
structure Out (start s : State) : Prop where
  device_data : s.device_data = none
  token : s.phase = .onePing → s.token = [] ∨ start.phase = .onePing ∧ s.token = start.token
  sent : s.sent = start.sent ∨
    (∃ p, s.sent = start.sent ++ [p] ∧
      (p.token = [] ∨ start.phase = .onePing ∧ p.token = start.token)) ∧
      (s.phase = .listenOnce ∨ s.phase = .enable)

theorem Out.sent_eq {start : State} (hout : Out start s) (hlisten : s.phase ≠ .listenOnce)
    (henable : s.phase ≠ .enable) : s.sent = start.sent := by
  rcases hout.sent with hsent | ⟨-, hlate | hlate⟩
  · exact hsent
  · exact absurd hlate hlisten
  · exact absurd hlate henable

theorem Out.step {start : State} {a : Action Openable} (hout : Out start s)
    (hstep : Step J hwAddr s a s') (hkeepsOut : KeepsOut J hwAddr (s, a, s')) : Out start s' := by
  obtain ⟨henabled, rfl⟩ := hstep
  cases a with
  | truncated => exact ⟨rfl, hout.token, hout.sent⟩
  | sign x =>
      refine ⟨?_, hout.token, hout.sent⟩
      rw [next, device_data_handle, hout.device_data]
      rcases hkeepsOut with hnone | hsome
      · rw [hnone]
        rfl
      · rw [hsome]
        rfl
  | enabled =>
      have hdisabled : ¬ remoteAccessIsEnabled s.device_data := by
        rw [hout.device_data]
        decide
      exact absurd henabled.2 hdisabled
  | disabled time => exact ⟨hout.device_data, hout.token, hout.sent⟩
  | brokenLink time a =>
      obtain ⟨hphase, -⟩ := henabled
      have hsent := hout.sent_eq (by simp [hphase]) (by simp [hphase])
      obtain ⟨_, _, _, _, heq⟩ := next_brokenLink J hwAddr time a s
      rw [heq]
      exact ⟨hout.device_data, fun h => (by cases h), Or.inl hsent⟩
  | deviceToken =>
      have hphase : s.phase = .deviceToken := henabled
      have hsent := hout.sent_eq (by simp [hphase]) (by simp [hphase])
      refine ⟨hout.device_data, fun _ => Or.inl ?_, Or.inl hsent⟩
      rw [next, hout.device_data]
      rfl
  | onePing due tod want stamp =>
      obtain ⟨hphase, -⟩ := henabled
      have hsent := hout.sent_eq (by simp [hphase]) (by simp [hphase])
      simp only [next, State.ping]
      split
      · exact ⟨hout.device_data, fun h => (by cases h), Or.inl hsent⟩
      · refine ⟨hout.device_data, fun h => (by cases h), Or.inr ⟨⟨_, congrArg (· ++ _) hsent, ?_⟩,
          Or.inl rfl⟩⟩
        exact hout.token hphase
  | listenOnce time outcomes datagram =>
      obtain ⟨_, _, heq⟩ := next_listenOnce J hwAddr time outcomes datagram s
      rw [heq]
      exact ⟨hout.device_data, fun h => (by cases h),
        hout.sent.imp id fun h => ⟨h.1, Or.inr rfl⟩⟩

/-- After signing out, and until somebody signs in, at most one more ping is sent, and it has
an empty token unless it had read its token before. -/
theorem one_ping_after_signing_out (hout : s.device_data = none)
    (path : Path (Step J hwAddr) s tr s') (hkeepsOut : ∀ e ∈ tr, KeepsOut J hwAddr e) :
    s'.sent = s.sent ∨ ∃ p, s'.sent = s.sent ++ [p] ∧
      (p.token = [] ∨ s.phase = .onePing ∧ p.token = s.token) := by
  have hstart : Out s s := ⟨hout, fun hphase => Or.inr ⟨hphase, rfl⟩, Or.inl rfl⟩
  obtain ⟨hend, -⟩ := path.invariant
    (fun _ _ _ (h : Out s _) hstep hkeeps => h.step hstep hkeeps) hstart hkeepsOut
  exact hend.sent.imp id fun h => h.1

end

theorem one_ping_after_signing_out_turn : ∃ s s' : State, s'.sent ≠ s.sent ∧
    ∃ p, s'.sent = s.sent ++ [p] ∧ p.token = [] := by
  let s : State := { init 4990 none ⟨[], 4⟩ with phase := .brokenLink }
  have path : Path (Step noJansson []) s _ _ := play_path (firstTurn 5000 5).tail (by decide)
  have hsent := one_ping_after_signing_out rfl path (by simp [play, firstTurn, KeepsOut])
  obtain ⟨p, hp, hempty | ⟨hphase, -⟩⟩ := hsent.resolve_left (by decide)
  · exact ⟨s, _, by decide, p, hp, hempty⟩
  · cases hphase

end KappaGateway.RemoteLink

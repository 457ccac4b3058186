import Mathlib.Data.List.Count
import KappaGateway.Hal.Mtproc
import KappaGateway.Lib.Transition

/-!
# The watchdog and the out-of-band semaphore

`WatchDogThread` takes `OutOfBandSem` before every kick and has no timeout;
only a kick response that reaches `mtOOBRecv` posts it again. The permit
therefore travels with the kick and its response, and is lost with either.
-/

namespace KappaGateway.Watchdog

open Mtproc Transition

def MT_SYS_WDT_KICK : UInt8 := 0x44

def MT_RPC_SUBSYSTEM_MASK : UInt8 := 0x1F

def MT_RPC_SYS_MAX : UInt8 := 14

/-- `mt_sys_wdtkick_req` through `mtOOBSend`: the frame without data, or nothing
where `malloc` fails. -/
def mt_sys_wdtkick_req (cmdPtr : Option (List UInt8)) : Option (List UInt8) :=
  mtBuildAndSendCmd cmdPtr 0x21 MT_SYS_WDT_KICK 0 (some [])

/-- The frame of a kick. -/
def wdtKick : List UInt8 := [MT_SOF, 0, 0x21, MT_SYS_WDT_KICK, 0x65]

theorem mt_sys_wdtkick_req_some (old : List UInt8) :
    mt_sys_wdtkick_req (some old) = some wdtKick := by
  rfl

/-- `mtOOBRecv`: its return value. It posts the semaphore where that is zero. -/
def mtOOBRecv (incoming : List UInt8) : Int :=
  if incoming.getD 1 0 = 0x61 ∧ incoming.getD 2 0 = MT_SYS_WDT_KICK then 0 else -1

/-- `MT_ProcessIncoming` hands the packet to `mtOOBRecv`. -/
def reachesOOB (pBuf : List UInt8) : Bool :=
  (pBuf.getD 0 0).toNat ≤ MT_RPC_DATA_MAX ∧
    pBuf.getD 1 0 &&& MT_RPC_SUBSYSTEM_MASK < MT_RPC_SYS_MAX

/-- A frame that posts the semaphore: it passes the checksum test of
`MessageAssembler`, the length and subsystem tests, and `mtOOBRecv` takes it. -/
def kickResponse (f : List UInt8) : Bool :=
  xorBytes f.tail = 0 ∧ reachesOOB f.tail = true ∧ mtOOBRecv f.tail = 0

/-- Where `WatchDogThread` is: in front of `sem_wait`, behind it, or in `kNanosleep`. -/
inductive Phase where
  | waiting
  | transmitting
  | sleeping
  deriving DecidableEq

/-- The semaphore, the thread, the frames on their way in both directions, and
the kicks that the dongle has received and not answered yet. -/
structure State where
  outOfBandSem : Nat
  watchDog : Phase
  toDongle : List (List UInt8)
  accepted : Nat
  fromDongle : List (List UInt8)

/-- `mtHelperInit` and the start of the thread. -/
def init : State := ⟨1, .waiting, [], 0, []⟩

/-- The three steps of the thread with the result of its `malloc`, frames of
other threads, the dongle taking a kick, answering one and sending anything
else, a frame reaching `MT_ProcessIncoming`, losses, and bytes changed on the
way. A frame that `resetInterface` flushes or the ring drops is lost. -/
inductive Action where
  | semWait
  | transmit (cmdPtr : Option (List UInt8))
  | wake
  | send (f : List UInt8)
  | accept
  | answer (f : List UInt8)
  | indicate (f : List UInt8)
  | arrive (f : List UInt8)
  | loseToDongle (f : List UInt8)
  | loseFromDongle (f : List UInt8)
  | alter (f g : List UInt8)

/-- Only `WatchDogThread` sends kicks; the dongle answers each kick it received. -/
def Enabled (s : State) : Action → Prop
  | .semWait => s.watchDog = .waiting ∧ 0 < s.outOfBandSem
  | .transmit _ => s.watchDog = .transmitting
  | .wake => s.watchDog = .sleeping
  | .send f => f ≠ wdtKick
  | .accept => wdtKick ∈ s.toDongle
  | .answer f => 0 < s.accepted ∧ kickResponse f = true
  | .indicate _ => True
  | .arrive f => f ∈ s.fromDongle
  | .loseToDongle f => f ∈ s.toDongle
  | .loseFromDongle f => f ∈ s.fromDongle
  | .alter f _ => f ∈ s.fromDongle

instance (s : State) : (a : Action) → Decidable (Enabled s a)
  | .semWait | .answer _ => inferInstanceAs (Decidable (_ ∧ _))
  | .transmit _ | .wake => inferInstanceAs (Decidable (_ = _))
  | .send _ => inferInstanceAs (Decidable (_ ≠ _))
  | .accept | .loseToDongle _ => inferInstanceAs (Decidable (_ ∈ s.toDongle))
  | .arrive _ | .loseFromDongle _ | .alter _ _ => inferInstanceAs (Decidable (_ ∈ s.fromDongle))
  | .indicate _ => isTrue trivial

def next (s : State) : Action → State
  | .semWait => { s with outOfBandSem := s.outOfBandSem - 1, watchDog := .transmitting }
  | .transmit cmdPtr =>
      { s with
        watchDog := .sleeping
        toDongle := s.toDongle ++ (mt_sys_wdtkick_req cmdPtr).toList }
  | .wake => { s with watchDog := .waiting }
  | .send f => { s with toDongle := s.toDongle ++ [f] }
  | .accept =>
      { s with toDongle := s.toDongle.erase wdtKick, accepted := s.accepted + 1 }
  | .answer f =>
      { s with accepted := s.accepted - 1, fromDongle := s.fromDongle ++ [f] }
  | .indicate f => { s with fromDongle := s.fromDongle ++ [f] }
  | .arrive f =>
      { s with
        fromDongle := s.fromDongle.erase f
        outOfBandSem := if kickResponse f then s.outOfBandSem + 1 else s.outOfBandSem }
  | .loseToDongle f => { s with toDongle := s.toDongle.erase f }
  | .loseFromDongle f => { s with fromDongle := s.fromDongle.erase f }
  | .alter f g => { s with fromDongle := s.fromDongle.erase f ++ [g] }

def Step (s : State) (a : Action) (t : State) : Prop := Enabled s a ∧ t = next s a

/-- No kick and no kick response is on its way, nor one that the dongle owes. -/
def Idle (s : State) : Prop :=
  s.toDongle.count wdtKick = 0 ∧ s.accepted = 0 ∧ s.fromDongle.countP kickResponse = 0

instance (s : State) : Decidable (Idle s) :=
  inferInstanceAs (Decidable (_ ∧ _ ∧ _))

/-- `WatchDogThread` will not block before its next kick. -/
def AbleToKick (s : State) : Prop := s.watchDog = .transmitting ∨ 0 < s.outOfBandSem

instance (s : State) : Decidable (AbleToKick s) :=
  inferInstanceAs (Decidable (_ ∨ _))

/-- The steps of `WatchDogThread`. -/
def Action.ofWatchDog : Action → Bool
  | .semWait | .transmit _ | .wake => true
  | _ => false

/-- A thread that is able to kick does so by its own steps. -/
theorem AbleToKick.kicks {s : State} (h : AbleToKick s) :
    ∃ tr t, Path Step s tr t ∧ (∀ e ∈ tr, e.2.1.ofWatchDog = true) ∧
      t.toDongle = s.toDongle ++ [wdtKick] := by
  have htransmit : ∀ u : State, u.watchDog = .transmitting → Step u (.transmit (some []))
      { u with watchDog := .sleeping, toDongle := u.toDongle ++ [wdtKick] } :=
    fun u hu => ⟨hu, rfl⟩
  have hwait : ∀ u : State, u.watchDog = .waiting → 0 < u.outOfBandSem → Step u .semWait
      { u with outOfBandSem := u.outOfBandSem - 1, watchDog := .transmitting } :=
    fun u hu hsem => ⟨⟨hu, hsem⟩, rfl⟩
  have hwake : ∀ u : State, u.watchDog = .sleeping → Step u .wake { u with watchDog := .waiting } :=
    fun u hu => ⟨hu, rfl⟩
  cases hphase : s.watchDog with
  | transmitting =>
      exact ⟨_, _, .cons (htransmit s hphase) (.nil _), by simp [Action.ofWatchDog], rfl⟩
  | waiting =>
      have hsem : 0 < s.outOfBandSem := by simpa [AbleToKick, hphase] using h
      exact ⟨_, _, .cons (hwait s hphase hsem) (.cons (htransmit _ rfl) (.nil _)),
        by simp [Action.ofWatchDog], rfl⟩
  | sleeping =>
      have hsem : 0 < s.outOfBandSem := by simpa [AbleToKick, hphase] using h
      exact ⟨_, _, .cons (hwake s hphase) (.cons (hwait _ rfl hsem)
        (.cons (htransmit _ rfl) (.nil _))), by simp [Action.ofWatchDog], rfl⟩

/-- With nothing on its way the watchdog can kick, and the semaphore is at most one. -/
def NotBlocked (s : State) : Prop := (Idle s → AbleToKick s) ∧ s.outOfBandSem ≤ 1

instance (s : State) : Decidable (NotBlocked s) :=
  inferInstanceAs (Decidable ((Idle s → AbleToKick s) ∧ _))

/-- No kick and no kick response is lost or made unreadable, none is made up. -/
def Faithful : State × Action × State → Prop
  | (_, .transmit cmdPtr, _) => cmdPtr ≠ none
  | (_, .indicate f, _) => kickResponse f = false
  | (_, .loseToDongle f, _) => f ≠ wdtKick
  | (_, .loseFromDongle f, _) => kickResponse f = false
  | (_, .alter f g, _) => kickResponse f = kickResponse g
  | _ => True

instance : (e : State × Action × State) → Decidable (Faithful e)
  | (_, .transmit _, _) | (_, .loseToDongle _, _) => inferInstanceAs (Decidable (_ ≠ _))
  | (_, .indicate _, _) | (_, .loseFromDongle _, _) | (_, .alter _ _, _) =>
      inferInstanceAs (Decidable (_ = _))
  | (_, .semWait, _) | (_, .wake, _) | (_, .send _, _) | (_, .accept, _) | (_, .answer _, _)
  | (_, .arrive _, _) => isTrue trivial

/-- The thread holds the permit between `sem_wait` and the transmission. -/
def Phase.permits : Phase → Nat
  | .transmitting => 1
  | _ => 0

/-- Where the one permit is. -/
def Conserved (s : State) : Prop :=
  s.outOfBandSem + s.watchDog.permits + s.toDongle.count wdtKick + s.accepted +
    s.fromDongle.countP kickResponse = 1

theorem countP_erase_add {p : List UInt8 → Bool} {f : List UInt8} {l : List (List UInt8)}
    (h : f ∈ l) : (l.erase f).countP p + (if p f then 1 else 0) = l.countP p := by
  rw [(List.perm_cons_erase h).countP_eq p, List.countP_cons]

theorem count_erase_add {f : List UInt8} {l : List (List UInt8)} (h : f ∈ l) :
    (l.erase f).count wdtKick + (if f = wdtKick then 1 else 0) = l.count wdtKick := by
  simpa [List.count] using countP_erase_add (p := (· == wdtKick)) h

/-- On a faithful line every step moves the permit or leaves it where it is. -/
theorem Conserved.step {s t : State} (h : Conserved s) {a : Action} (hstep : Step s a t)
    (hok : Faithful (s, a, t)) : Conserved t := by
  obtain ⟨hen, rfl⟩ := hstep
  unfold Conserved at h ⊢
  cases a with
  | semWait =>
      obtain ⟨hphase, hsem⟩ := hen
      simp only [next, hphase, Phase.permits] at h ⊢
      omega
  | transmit cmdPtr =>
      obtain ⟨old, rfl⟩ := Option.ne_none_iff_exists'.mp hok
      have hphase : s.watchDog = .transmitting := hen
      simp only [next, hphase, Phase.permits, mt_sys_wdtkick_req_some, Option.toList_some,
        List.count_append, List.count_singleton_self] at h ⊢
      omega
  | wake =>
      have hphase : s.watchDog = .sleeping := hen
      simpa only [next, hphase, Phase.permits] using h
  | send f =>
      have hother : f ≠ wdtKick := hen
      simpa [next, List.count_append, hother] using h
  | accept =>
      have hcount := count_erase_add hen
      simp only [next, if_true] at hcount ⊢
      omega
  | answer f =>
      obtain ⟨haccepted, hresponse⟩ := hen
      simp only [next, List.countP_append, List.countP_singleton, hresponse, if_true]
      omega
  | indicate f =>
      have hother : kickResponse f = false := hok
      simpa [next, List.countP_append, hother] using h
  | arrive f =>
      have hcount := countP_erase_add (p := kickResponse) hen
      cases hresponse : kickResponse f with
      | true =>
          simp only [next, hresponse, if_true] at hcount ⊢
          omega
      | false =>
          simp only [next, hresponse, Bool.false_eq_true, if_false] at hcount ⊢
          omega
  | loseToDongle f =>
      have hother : f ≠ wdtKick := hok
      have hcount := count_erase_add hen
      simp only [next, hother, if_false] at hcount ⊢
      omega
  | loseFromDongle f =>
      have hother : kickResponse f = false := hok
      have hcount := countP_erase_add (p := kickResponse) hen
      simp only [next, hother, Bool.false_eq_true, if_false] at hcount ⊢
      omega
  | alter f g =>
      have hsame : kickResponse f = kickResponse g := hok
      have hcount := countP_erase_add (p := kickResponse) hen
      simp only [next, List.countP_append, List.countP_singleton, ← hsame]
      omega

theorem Conserved.notBlocked {s : State} (h : Conserved s) : NotBlocked s := by
  unfold Conserved at h
  refine ⟨fun hidle => ?_, by omega⟩
  obtain ⟨hkicks, haccepted, hresponses⟩ := hidle
  cases hphase : s.watchDog with
  | transmitting => exact Or.inl hphase
  | waiting | sleeping =>
      simp only [hphase, Phase.permits] at h
      exact Or.inr (by omega)

/-- In every run in which no kick and no kick response is lost or made up, the
watchdog is never left blocked, and the semaphore stays below two. -/
theorem watchdog_not_blocked {s : State} {tr : List (State × Action × State)}
    (path : Path Step init tr s) (hok : ∀ e ∈ tr, Faithful e) :
    ∀ e ∈ tr, NotBlocked e.2.2 := by
  have hinit : Conserved init := rfl
  obtain ⟨-, hstates⟩ := path.invariant (fun _ _ _ hinv hstep hok => hinv.step hstep hok) hinit hok
  exact fun e he => (hstates e he).2.notBlocked

/-- The dongle's answer to a kick. -/
def kickAnswer : List UInt8 := [MT_SOF, 0, 0x61, MT_SYS_WDT_KICK, 0x25]

/-- One round, beside a ping of another thread that is lost. -/
def rounds : List Action :=
  [.semWait, .transmit (some []), .send [MT_SOF, 0, 0x21, 1, 0x20], .accept, .wake,
    .loseToDongle [MT_SOF, 0, 0x21, 1, 0x20], .answer kickAnswer, .arrive kickAnswer, .semWait]

theorem watchdog_not_blocked_rounds :
    ∃ tr s, Path Step init tr s ∧ s.watchDog = .transmitting ∧ ∀ e ∈ tr, NotBlocked e.2.2 := by
  have hpath : Path Step init (play next init rounds).1 _ := play_path rounds (by decide)
  exact ⟨_, _, hpath, by decide, watchdog_not_blocked hpath (by decide)⟩

/-- The response to the first kick is lost. -/
def lostResponse : List Action :=
  [.semWait, .transmit (some []), .accept, .answer kickAnswer, .loseFromDongle kickAnswer, .wake]

/-- Nothing is on its way, and the watchdog waits for a permit that is gone. -/
theorem watchdog_blocked_lostResponse :
    ∃ tr s, Path Step init tr s ∧ Idle s ∧ s.watchDog = .waiting ∧ s.outOfBandSem = 0 ∧
      ¬ ∀ e ∈ tr, NotBlocked e.2.2 := by
  exact ⟨_, _, play_path lostResponse (by decide), by decide, by decide, by decide, by decide⟩

end KappaGateway.Watchdog

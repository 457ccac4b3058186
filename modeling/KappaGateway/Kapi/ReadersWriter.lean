import KappaGateway.Kapi.Klock
import KappaGateway.Lib.Tokens

/-!
# `klock_c` is a readers-writer lock

Each semaphore is conserved together with the tokens that its takers hold, and
`shLockCnt` counts the readers between the update on their way in and the update
on their way out. While it is positive the readers as a group own the token of
`exLock`, whichever of them took it.
-/

namespace KappaGateway.Klock

open Transition Tokens

variable {T : Type*}

/-- Tokens of `shLockPriv`. -/
def Thread.privTokens (th : Thread) : Nat :=
  match th.pc with
  | .acquireTryEx | .acquireWaitSh | .acquireTest | .acquireCount | .acquirePostSh | .slowPostSh
  | .slowWaitEx | .ownerWaitSh | .ownerCount | .ownerPostSh | .acquirePostPriv => 1
  | _ => 0

/-- Tokens of `shLock`. -/
def Thread.shTokens (th : Thread) : Nat :=
  match th.pc with
  | .acquireTest | .acquireCount | .acquirePostSh | .slowPostSh | .ownerCount | .ownerPostSh
  | .releaseTestOne | .releaseClear | .releasePostEx | .releaseTestMany | .releaseDecrement
  | .releasePostSh | .exReleaseTest | .exReleasePostEx | .exReleasePostSh => 1
  | _ => 0

/-- Tokens of `exLock` that the thread holds for itself. -/
def Thread.exTokens (th : Thread) : Nat :=
  th.exclusive +
    match th.pc with
    | .ownerWaitSh | .ownerCount | .releasePostEx | .exReleaseWaitSh | .exReleaseTest
    | .exReleasePostEx => 1
    | _ => 0

/-- What the thread contributes to `shLockCnt`. -/
def Thread.counted (th : Thread) : Nat :=
  th.shared +
    match th.pc with
    | .acquirePostSh | .ownerPostSh | .acquirePostPriv | .releaseWaitSh | .releaseTestOne
    | .releaseClear | .releaseDecrement => 1
    | .releaseTestMany => if th.rtn = 0 then 0 else 1
    | _ => 0

/-- What the tests that a thread has passed say about the counter and `rtn`. -/
def Thread.Asserts (cnt : Int) (th : Thread) : Prop :=
  match th.pc with
  | .acquireCount => 0 < cnt
  | .releaseWaitSh | .releaseTestOne => th.rtn ≠ 0
  | .releaseClear => cnt = 1
  | .releasePostEx => cnt = 0
  | .releaseTestMany => th.rtn = 0 ∧ cnt = 0 ∨ th.rtn ≠ 0 ∧ cnt ≠ 1
  | .releaseDecrement => 1 < cnt
  | .releasePostSh | .exReleasePostSh => th.rtn = 0
  | _ => True

theorem Thread.Asserts.of_not_holding {cnt cnt' : Int} {th : Thread} (h : th.Asserts cnt)
    (hfree : th.shTokens = 0) : th.Asserts cnt' := by
  unfold Thread.Asserts Thread.shTokens at *
  cases hpc : th.pc <;> simp_all

/-- One token of `exLock` belongs to the readers while they are counted. -/
def groupTokens (cnt : Int) : Nat := if 0 < cnt then 1 else 0

theorem groupTokens_of_pos {cnt : Int} (h : 0 < cnt) : groupTokens cnt = 1 := by
  simp [groupTokens, h]

theorem groupTokens_of_nonpos {cnt : Int} (h : cnt ≤ 0) : groupTokens cnt = 0 := by
  simp [groupTokens, h]

section Ready

variable {s : State T}

/-- No statement waits while it holds `shLock`. -/
theorem ready_of_shTokens {t : T} (h : 0 < (s.threads t).shTokens) :
    (s.threads t).pc.ready s := by
  unfold Thread.shTokens at h
  cases hpc : (s.threads t).pc <;> simp_all [Pc.ready]

/-- With `shLock` free, a thread that owns `exLock` inside a call can go on. -/
theorem ready_of_exTokens {t : T} (hsh : 0 < s.shLock) (hnone : (s.threads t).exclusive = 0)
    (h : 0 < (s.threads t).exTokens) : (s.threads t).pc.ready s := by
  unfold Thread.exTokens at h
  cases hpc : (s.threads t).pc <;> simp_all [Pc.ready]

/-- With `shLock` free, a reader that is counted inside a call can go on. -/
theorem ready_of_counted {t : T} (hsh : 0 < s.shLock) (hnone : (s.threads t).shared = 0)
    (h : 0 < (s.threads t).counted) : (s.threads t).pc.ready s := by
  unfold Thread.counted at h
  cases hpc : (s.threads t).pc <;> simp_all [Pc.ready]

/-- With the two other semaphores free, the acquiring reader can go on. -/
theorem ready_of_privTokens {t : T} (hsh : 0 < s.shLock) (hex : 0 < s.exLock)
    (h : 0 < (s.threads t).privTokens) : (s.threads t).pc.ready s := by
  unfold Thread.privTokens at h
  cases hpc : (s.threads t).pc <;> simp_all [Pc.ready]

theorem ready_of_free {t : T} (hpriv : 0 < s.shLockPriv) (hsh : 0 < s.shLock)
    (hex : 0 < s.exLock) (h : (s.threads t).pc.inAcquire = true) : (s.threads t).pc.ready s := by
  cases hpc : (s.threads t).pc <;> simp_all [Pc.ready, Pc.inAcquire, Pc.inShAcquire]

end Ready

variable [Fintype T]

structure Invariant (s : State T) : Prop where
  priv : s.shLockPriv + total Thread.privTokens s.threads = 1
  sh : s.shLock + total Thread.shTokens s.threads = 1
  ex : s.exLock + total Thread.exTokens s.threads + groupTokens s.shLockCnt = 1
  count : s.shLockCnt = total Thread.counted s.threads
  asserts : ∀ t, (s.threads t).Asserts s.shLockCnt
  returned : ∀ t, ∀ v ∈ (s.threads t).returned, v = 0

theorem init_invariant : Invariant (init : State T) where
  priv := by simp [init, total, Thread.privTokens]
  sh := by simp [init, total, Thread.shTokens]
  ex := by simp [init, total, Thread.exTokens, groupTokens]
  count := by simp [init, total, Thread.counted]
  asserts := by simp [init, Thread.Asserts]
  returned := by simp [init]

/-- The tokens of one thread, as bounds on the shared state. -/
theorem Invariant.local_bounds {s : State T} (hinv : Invariant s) {t : T} {th : Thread}
    (hth : s.threads t = th) :
    s.shLockPriv + th.privTokens ≤ 1 ∧ s.shLock + th.shTokens ≤ 1 ∧
      s.exLock + th.exTokens + groupTokens s.shLockCnt ≤ 1 ∧ th.counted ≤ s.shLockCnt := by
  subst hth
  have hpriv := le_total Thread.privTokens s.threads t
  have hsh := le_total Thread.shTokens s.threads t
  have hex := le_total Thread.exTokens s.threads t
  have hcount := le_total Thread.counted s.threads t
  obtain ⟨ipriv, ish, iex, icount, -, -⟩ := hinv
  omega

/-- Between calls of the readers, the counter is the number of shared holds. -/
theorem Invariant.count_outside {s : State T} (hinv : Invariant s)
    (h : ∀ t, (s.threads t).pc.inShAcquire = false ∧ (s.threads t).pc.inShRelease = false) :
    s.shLockCnt = total Thread.shared s.threads := by
  rw [hinv.count]
  congr 1
  apply Finset.sum_congr rfl
  intro t _
  obtain ⟨hacquire, hrelease⟩ := h t
  unfold Thread.counted
  cases hpc : (s.threads t).pc <;> simp_all [Pc.inShAcquire, Pc.inShRelease]

/-- Where nobody holds the lock, follow the tokens: the holder of `shLock`, else
the owner of `exLock` or a counted reader, else the acquiring reader can go on. -/
theorem Invariant.progress {s : State T} (hinv : Invariant s)
    (hfree : ∀ t, (s.threads t).shared = 0 ∧ (s.threads t).exclusive = 0)
    {t : T} (ht : (s.threads t).pc.inAcquire = true) : ∃ u, (s.threads u).pc.ready s := by
  obtain hsh | hsh := Nat.eq_zero_or_pos s.shLock
  · have hheld : 0 < total Thread.shTokens s.threads := by
      have := hinv.sh
      omega
    obtain ⟨u, hu⟩ := exists_holder hheld
    exact ⟨u, ready_of_shTokens hu⟩
  obtain hex | hex := Nat.eq_zero_or_pos s.exLock
  · obtain hnone | hown := Nat.eq_zero_or_pos (total Thread.exTokens s.threads)
    · have hcnt : 0 < s.shLockCnt := by
        by_contra hcnt
        have hgroup := groupTokens_of_nonpos (not_lt.mp hcnt)
        have := hinv.ex
        omega
      have hcounted : 0 < total Thread.counted s.threads := by
        have := hinv.count
        omega
      obtain ⟨u, hu⟩ := exists_holder hcounted
      exact ⟨u, ready_of_counted hsh (hfree u).1 hu⟩
    · obtain ⟨u, hu⟩ := exists_holder hown
      exact ⟨u, ready_of_exTokens hsh (hfree u).2 hu⟩
  obtain hpriv | hpriv := Nat.eq_zero_or_pos s.shLockPriv
  · have hheld : 0 < total Thread.privTokens s.threads := by
      have := hinv.priv
      omega
    obtain ⟨u, hu⟩ := exists_holder hheld
    exact ⟨u, ready_of_privTokens hsh hex hu⟩
  · exact ⟨t, ready_of_free hpriv hsh hex ht⟩

variable [DecidableEq T]

theorem Invariant.exclusive_hold {s : State T} (hinv : Invariant s) {t : T}
    (ht : 0 < (s.threads t).exclusive) :
    (s.threads t).exclusive = 1 ∧ (s.threads t).shared = 0 ∧
      ∀ u, u ≠ t → (s.threads u).exclusive = 0 ∧ (s.threads u).shared = 0 := by
  have hexclusive : ∀ u, (s.threads u).exclusive ≤ (s.threads u).exTokens := by
    intro u
    exact Nat.le_add_right _ _
  have hnogroup : groupTokens s.shLockCnt = 0 := by
    have := hinv.local_bounds (t := t) rfl
    have := hexclusive t
    omega
  have hshared : ∀ u, (s.threads u).shared = 0 := by
    intro u
    by_contra hpos
    have hcnt : 0 < s.shLockCnt := by
      have hle := (hinv.local_bounds (t := u) rfl).2.2.2
      have : (s.threads u).shared ≤ (s.threads u).counted := Nat.le_add_right _ _
      omega
    have := groupTokens_of_pos hcnt
    omega
  refine ⟨?_, hshared t, fun u hu => ⟨?_, hshared u⟩⟩
  · have := hinv.local_bounds (t := t) rfl
    have := hexclusive t
    omega
  · have hpair := add_le_total Thread.exTokens s.threads hu
    have := hinv.ex
    have := hexclusive t
    have := hexclusive u
    omega

/-- A step of one thread keeps the invariant if it moves tokens between the
semaphores and the thread, and changes the counter only under `shLock`. -/
theorem Invariant.put {s : State T} (hinv : Invariant s) {t : T} {old th : Thread}
    (hth : s.threads t = old) {p h e : Nat} {c : Int}
    (hp : p + th.privTokens = s.shLockPriv + old.privTokens)
    (hh : h + th.shTokens = s.shLock + old.shTokens)
    (he : e + th.exTokens + groupTokens c = s.exLock + old.exTokens + groupTokens s.shLockCnt)
    (hc : c + old.counted = s.shLockCnt + th.counted)
    (hguard : c = s.shLockCnt ∨ old.shTokens = 1)
    (hasserts : th.Asserts c) (hreturned : ∀ v ∈ th.returned, v = 0) :
    Invariant ((⟨p, h, e, c, s.threads⟩ : State T).put t th) := by
  subst hth
  have hpriv := total_update Thread.privTokens s.threads t th
  have hsh := total_update Thread.shTokens s.threads t th
  have hex := total_update Thread.exTokens s.threads t th
  have hcount := total_update Thread.counted s.threads t th
  obtain ⟨ipriv, ish, iex, icount, iasserts, ireturned⟩ := hinv
  constructor
  · simp only [State.put]
    omega
  · simp only [State.put]
    omega
  · simp only [State.put]
    omega
  · simp only [State.put]
    omega
  · intro u
    obtain rfl | hne := eq_or_ne u t
    · simpa [State.put] using hasserts
    · simp only [State.put, Function.update_of_ne hne]
      obtain rfl | hholds := hguard
      · exact iasserts u
      · have hpair := add_le_total Thread.shTokens s.threads hne
        exact (iasserts u).of_not_holding (by omega)
  · intro u
    obtain rfl | hne := eq_or_ne u t
    · simpa [State.put] using hreturned
    · simpa [State.put, Function.update_of_ne hne] using ireturned u

theorem invoke_invariant {s : State T} (hinv : Invariant s) {t : T} {op : Op}
    (houtside : (s.threads t).pc = .outside) (hallowed : op.allowed (s.threads t)) :
    Invariant (s.put t ((s.threads t).enter op)) := by
  have hret := hinv.returned t
  rcases hth : s.threads t with ⟨pc, rtn, shared, exclusive, returned⟩
  simp only [hth] at houtside hallowed hret
  subst houtside
  cases op <;> refine hinv.put hth ?_ ?_ ?_ ?_ (Or.inl rfl) ?_ hret <;>
    dsimp only [Op.allowed, Thread.enter, Op.entry, Thread.privTokens, Thread.shTokens,
      Thread.exTokens, Thread.counted, Thread.Asserts] at * <;> omega

theorem proceed_invariant {s : State T} (hinv : Invariant s) {t : T}
    (hready : (s.threads t).pc.ready s) : Invariant (proceed s t) := by
  have hret := hinv.returned t
  have hasserts := hinv.asserts t
  unfold proceed
  rcases hth : s.threads t with ⟨pc, rtn, shared, exclusive, returned⟩
  obtain ⟨hpriv, hsh, hex, hcount⟩ := hinv.local_bounds hth
  simp only [hth] at hready hret hasserts
  cases pc <;> dsimp only [Thread.goto, Thread.returnRtn, Thread.privTokens, Thread.shTokens,
    Thread.exTokens, Thread.counted, Thread.Asserts, Pc.ready] at *
  case acquireCount =>
    have hbefore := groupTokens_of_pos hasserts
    have hafter : groupTokens (s.shLockCnt + 1) = 1 := groupTokens_of_pos (by omega)
    refine hinv.put hth ?_ ?_ ?_ ?_ (Or.inr rfl) trivial hret <;>
      dsimp only [Thread.privTokens, Thread.shTokens, Thread.exTokens, Thread.counted] <;> omega
  case ownerCount =>
    have hbefore : ¬ 0 < s.shLockCnt := by
      intro hpos
      have := groupTokens_of_pos hpos
      omega
    have hzero := groupTokens_of_nonpos (not_lt.mp hbefore)
    have hafter : groupTokens (s.shLockCnt + 1) = 1 := groupTokens_of_pos (by omega)
    refine hinv.put hth ?_ ?_ ?_ ?_ (Or.inr rfl) trivial hret <;>
      dsimp only [Thread.privTokens, Thread.shTokens, Thread.exTokens, Thread.counted] <;> omega
  case releaseTestOne =>
    split
    case isTrue hone =>
      refine hinv.put hth ?_ ?_ ?_ ?_ (Or.inl rfl) hone hret <;>
        dsimp only [Thread.privTokens, Thread.shTokens, Thread.exTokens, Thread.counted]
    case isFalse hone =>
      refine hinv.put hth ?_ ?_ ?_ ?_ (Or.inl rfl) (Or.inr ⟨hasserts, hone⟩) hret <;>
        simp [Thread.privTokens, Thread.shTokens, Thread.exTokens, Thread.counted, hasserts]
  case releaseClear =>
    have hbefore : groupTokens s.shLockCnt = 1 := groupTokens_of_pos (by omega)
    have hafter : groupTokens 0 = 0 := groupTokens_of_nonpos le_rfl
    refine hinv.put hth ?_ ?_ ?_ ?_ (Or.inr rfl) rfl hret <;>
      dsimp only [Thread.privTokens, Thread.shTokens, Thread.exTokens, Thread.counted] <;> omega
  case releasePostEx =>
    refine hinv.put hth ?_ ?_ ?_ ?_ (Or.inl rfl) (Or.inl ⟨rfl, hasserts⟩) hret <;>
      simp [Thread.privTokens, Thread.shTokens, Thread.exTokens, Thread.counted]
    omega
  case releaseTestMany =>
    split
    case isTrue hmany =>
      obtain ⟨-, hzero⟩ | ⟨hrtn, -⟩ := hasserts
      · omega
      · refine hinv.put hth ?_ ?_ ?_ ?_ (Or.inl rfl) hmany hret <;>
          simp [Thread.privTokens, Thread.shTokens, Thread.exTokens, Thread.counted, hrtn]
    case isFalse hmany =>
      obtain ⟨hrtn, -⟩ | ⟨hrtn, hone⟩ := hasserts
      · refine hinv.put hth ?_ ?_ ?_ ?_ (Or.inl rfl) hrtn hret <;>
          simp [Thread.privTokens, Thread.shTokens, Thread.exTokens, Thread.counted, hrtn]
      · simp only [hrtn, if_false] at hcount
        omega
  case releaseDecrement =>
    have hbefore : groupTokens s.shLockCnt = 1 := groupTokens_of_pos (by omega)
    have hafter : groupTokens (s.shLockCnt - 1) = 1 := groupTokens_of_pos (by omega)
    refine hinv.put hth ?_ ?_ ?_ ?_ (Or.inr rfl) rfl hret <;>
      dsimp only [Thread.privTokens, Thread.shTokens, Thread.exTokens, Thread.counted] <;> omega
  case exReleaseTest =>
    split
    case isTrue hzero =>
      refine hinv.put hth ?_ ?_ ?_ ?_ (Or.inl rfl) trivial hret <;>
        dsimp only [Thread.privTokens, Thread.shTokens, Thread.exTokens, Thread.counted]
    case isFalse hzero =>
      have hgroup : groupTokens s.shLockCnt = 1 := groupTokens_of_pos (by omega)
      omega
  case releasePostSh | exReleasePostSh =>
    have hlog : ∀ v ∈ returned ++ [rtn], v = 0 := by
      simp only [List.mem_append, List.mem_singleton]
      rintro v (hv | rfl)
      · exact hret v hv
      · exact hasserts
    refine hinv.put hth ?_ ?_ ?_ ?_ (Or.inl rfl) trivial hlog <;>
      dsimp only [Thread.privTokens, Thread.shTokens, Thread.exTokens, Thread.counted]
  all_goals
    try split
    all_goals
      refine hinv.put hth ?_ ?_ ?_ ?_ (Or.inl rfl) ?_ hret <;>
        dsimp only [Thread.privTokens, Thread.shTokens, Thread.exTokens, Thread.counted,
          Thread.Asserts] <;> omega

theorem step_invariant {s s' : State T} {a : Action T} (hinv : Invariant s) (h : Step s a s') :
    Invariant s' := by
  obtain ⟨henabled, rfl⟩ := h
  cases a with
  | invoke t op => exact invoke_invariant hinv henabled.1 henabled.2
  | proceed t => exact proceed_invariant hinv henabled

theorem run_invariant {s : State T} {tr} (path : Path Step init tr s) : Invariant s := by
  exact path.preserves (fun _ _ _ hinv h => step_invariant hinv h) init_invariant

/-- What the lock promises in one state. A thread that has acquired twice holds
the lock twice; where every thread holds it at most once, the holds are the
holders. -/
structure ReadersWriterLock (s : State T) : Prop where
  exclusive : ∀ t, 0 < (s.threads t).exclusive →
    (s.threads t).exclusive = 1 ∧ (s.threads t).shared = 0 ∧
      ∀ u, u ≠ t → (s.threads u).exclusive = 0 ∧ (s.threads u).shared = 0
  counter : (∀ t, (s.threads t).pc.inShAcquire = false ∧ (s.threads t).pc.inShRelease = false) →
    s.shLockCnt = total Thread.shared s.threads ∧
      ((∀ t, (s.threads t).shared ≤ 1) →
        s.shLockCnt = (Finset.univ.filter fun t => 0 < (s.threads t).shared).card)
  returned : ∀ t, ∀ v ∈ (s.threads t).returned, v = 0
  exLock : s.exLock ≤ 1
  progress : (∀ t, (s.threads t).shared = 0 ∧ (s.threads t).exclusive = 0) →
    (∃ t, (s.threads t).pc.inAcquire = true) → ∃ u s', Step s (.proceed u) s'

/-- In every state that any number of threads reach, the lock keeps its promises. -/
theorem reachable_readersWriterLock {s : State T} {tr} (path : Path Step init tr s) :
    ReadersWriterLock s := by
  have hinv := run_invariant path
  constructor
  · exact fun t ht => hinv.exclusive_hold ht
  · intro houtside
    have hcount := hinv.count_outside houtside
    refine ⟨hcount, fun hone => ?_⟩
    rw [hcount, total_eq_card hone]
  · exact hinv.returned
  · have := hinv.ex
    omega
  · rintro hfree ⟨t, ht⟩
    obtain ⟨u, hu⟩ := hinv.progress hfree ht
    exact ⟨u, next s (.proceed u), hu, rfl⟩

/-- Two readers share the lock, a writer waits, and the first reader leaves. -/
theorem reachable_readersWriterLock_contended :
    ReadersWriterLock (play next (init : State (Fin 3))
      (.invoke 0 .shLockAcquire :: List.replicate 6 (.proceed 0) ++
        .invoke 1 .shLockAcquire :: List.replicate 7 (.proceed 1) ++
        .invoke 2 .exLockAcquire :: .invoke 0 .shLockRelease ::
          List.replicate 5 (.proceed 0))).2 := by
  exact reachable_readersWriterLock (play_path _ (by decide))

end KappaGateway.Klock

import Mathlib.Data.List.Chain
import KappaGateway.Kintf.WidgetRegistry
import KappaGateway.Watch.KappaioWatch

/-!
# The gateway and its supervisor

The gateway writes a counter of 16 bits over what the file has, and cuts nothing off; the
supervisor reads the first number of the file. A gateway that is running is therefore only
restarted when the counter is not increased between two polls, or comes round, and that
twice in a row. But the counter is increased once before the gateway initializes itself, and
not again before that is done: a gateway that needs more than two polls for it is restarted
at every second poll.
-/

namespace KappaGateway.Supervision

open Kutil WidgetManager KappaioWatch

/-! ### The file -/

def isdigit (c : UInt8) : Bool := 0x30 ≤ c ∧ c ≤ 0x39

def isspace (c : UInt8) : Bool := c = 0x20 ∨ 0x09 ≤ c ∧ c ≤ 0x0d

/-- The value of decimal digits. -/
def digitsValue (digits : Text) : Nat :=
  digits.foldl (fun n c => 10 * n + (c.toNat - '0'.toNat)) 0

/-- `fscanf(file, "%d", &n)`: what is stored, if anything is. -/
def fscanfInt (text : Text) : Option Int :=
  match text.dropWhile isspace with
  | [] => none
  | c :: rest =>
      let digits := (if c = 0x2b ∨ c = 0x2d then rest else c :: rest).takeWhile isdigit
      if digits = [] then none
      else some (if c = 0x2d then -(digitsValue digits : Int) else digitsValue digits)

/-- What `sprintf` makes of the counter. -/
def line (n : Nat) : Text := decimalText n ++ [0x0a]

/-- `write` at the start of a file that is not truncated. -/
def overwrite (text old : Text) : Text := text ++ old.drop text.length

/-! ### The two programs -/

/-- The variables of the supervisor, the file, and the counter of the gateway that runs. -/
structure State where
  watch : KappaioWatch.State
  file : Option Text
  keepAliveCount : UInt16

/-- A gateway is started, whatever the file has. -/
def start (file : Option Text) : State := ⟨⟨0, 0⟩, file, 1⟩

def klaIncr (s : State) : State :=
  { s with
    file := some (overwrite (line s.keepAliveCount.toNat) (s.file.getD []))
    keepAliveCount := s.keepAliveCount + 1 }

/-- What a poll finds of a gateway that is running. Where `fscanf` stores nothing, `kla` is
what was in the variable before. -/
def found (kla : Int) (s : State) : Poll where
  pidFile := some 1
  proc _ := .found
  countFile := s.file.map fun text => (fscanfInt text).getD kla

/-- A poll, and the restart of the gateway if there is one. -/
def poll (kla : Int) (s : State) : State × Option Restart :=
  let (watch, restart) := watchRound s.watch (found kla s)
  match restart with
  | none => ({ s with watch := watch }, none)
  | some reason => ({ s with watch := watch, keepAliveCount := 1 }, some reason)

/-- The restarts at some polls, with the number of increments before each of them. -/
def restarts (kla : Int) : List Nat → State → List (Option Restart)
  | [], _ => []
  | n :: ns, s => (poll kla (klaIncr^[n] s)).2 :: restarts kla ns (poll kla (klaIncr^[n] s)).1

/-- A poll of a gateway that does nothing but its first increment. -/
def pollInitializing (kla : Int) (s : State) : State × Option Restart :=
  match poll kla s with
  | (s', none) => (s', none)
  | (s', some reason) => (klaIncr s', some reason)

/-- The restarts at some polls of gateways that never get past their initialization. -/
def restartsInitializing (kla : Int) : Nat → State → List (Option Restart)
  | 0, _ => []
  | n + 1, s =>
      (pollInitializing kla s).2 :: restartsInitializing kla n (pollInitializing kla s).1

/-! ### Numbers in the file -/

section

variable {kla : Int} {s : State}

theorem isdigit_of_mem_decimalText {n : Nat} : ∀ c ∈ decimalText n, isdigit c := by
  intro c hc
  obtain ⟨d, hd, rfl⟩ := List.mem_map.mp hc
  have hdigit := Nat.isDigit_of_mem_toDigits (by decide) (by decide) hd
  simp only [Char.isDigit, Bool.and_eq_true, decide_eq_true_eq] at hdigit
  have hge : 48 ≤ d.toNat := hdigit.1
  have hle : d.toNat ≤ 57 := hdigit.2
  simp only [isdigit, UInt8.le_iff_toNat_le, UInt8.toNat_ofNat', decide_eq_true_eq]
  have hmod : d.toNat % 2 ^ 8 = d.toNat := Nat.mod_eq_of_lt (by omega)
  rw [hmod]
  exact ⟨hge, hle⟩

theorem digitsValue_decimalText (n : Nat) : digitsValue (decimalText n) = n := by
  have hread := decimalNumber_decimalText n
  simp only [decimalNumber] at hread
  split at hread
  · exact Option.some.inj hread
  · cases hread

/-- Whatever the file had, its first number is the counter that was written last. -/
theorem fscanfInt_overwrite (n : Nat) (old : Text) :
    fscanfInt (overwrite (line n) old) = some (n : Int) := by
  have htake : ∀ rest : Text, (decimalText n ++ 0x0a :: rest).takeWhile isdigit =
      decimalText n := by
    intro rest
    rw [List.takeWhile_append_of_pos isdigit_of_mem_decimalText,
      List.takeWhile_cons_of_neg (by decide), List.append_nil]
  have hdigits := @isdigit_of_mem_decimalText n
  rw [overwrite, line, List.append_assoc, List.singleton_append]
  generalize old.drop (decimalText n ++ [0x0a]).length = rest
  cases htext : decimalText n with
  | nil =>
      have hvalue := digitsValue_decimalText n
      have hten : decimalText 0 ≠ [] := by decide
      rw [htext] at hvalue
      obtain rfl : n = 0 := hvalue.symm
      exact absurd htext hten
  | cons c digits =>
      have hc : isdigit c := hdigits c (htext ▸ List.mem_cons_self)
      simp only [isdigit, decide_eq_true_eq] at hc
      have hspace : ¬ isspace c = true := by
        simp only [isspace, decide_eq_true_eq, UInt8.le_iff_toNat_le]
        rintro (rfl | ⟨-, hle⟩)
        · exact absurd hc.1 (by decide)
        · have hge := UInt8.le_iff_toNat_le.mp hc.1
          have hbound : (0x30 : UInt8).toNat ≤ (0x0d : UInt8).toNat := Nat.le_trans hge hle
          exact absurd hbound (by decide)
      have hplus : c ≠ 0x2b := by
        rintro rfl
        exact absurd hc.1 (by decide)
      have hminus : c ≠ 0x2d := by
        rintro rfl
        exact absurd hc.1 (by decide)
      have hwhole := htake rest
      rw [htext, List.cons_append] at hwhole
      rw [fscanfInt, List.cons_append, List.dropWhile_cons_of_neg hspace]
      simp only [hplus, hminus, or_self, if_false, hwhole, List.cons_ne_nil]
      rw [← htext, digitsValue_decimalText]

/-- The file has a counter, which is one less than the next one. -/
def Shows (v : UInt16) (s : State) : Prop :=
  s.keepAliveCount = v + 1 ∧ ∃ text, s.file = some text ∧ fscanfInt text = some v.toNat

theorem shows_klaIncr (s : State) : Shows s.keepAliveCount (klaIncr s) :=
  ⟨rfl, _, rfl, fscanfInt_overwrite _ _⟩

theorem Shows.after_watch {v : UInt16} (hshows : Shows v s) (watch : KappaioWatch.State) :
    Shows v { s with watch := watch } := hshows

theorem watch_iterate (n : Nat) (s : State) : (klaIncr^[n] s).watch = s.watch := by
  induction n generalizing s with
  | zero => rfl
  | succ n ih => exact ih (klaIncr s)

theorem Shows.iterate {v : UInt16} (hshows : Shows v s) (n : Nat) :
    Shows (v + UInt16.ofNat n) (klaIncr^[n] s) := by
  induction n generalizing s v with
  | zero => simpa using hshows
  | succ n ih =>
      have hnext : Shows (v + 1) (klaIncr s) := hshows.1 ▸ shows_klaIncr s
      have hsum : v + UInt16.ofNat (n + 1) = v + 1 + UInt16.ofNat n := by
        rw [UInt16.ofNat_add, UInt16.add_comm (UInt16.ofNat n), UInt16.add_assoc]
        rfl
      rw [Function.iterate_succ_apply, hsum]
      exact ih hnext

theorem Shows.counter {v : UInt16} (hshows : Shows v s) :
    (found kla s).counter = some (v.toNat : Int) := by
  obtain ⟨-, text, hfile, hscan⟩ := hshows
  have hread : readKLA (found kla s) = v.toNat := by
    simp [readKLA, found, hfile, hscan]
  have hrunning : ¬ (checkByPIDFile (found kla s) < 0 ∨ readKLA (found kla s) < 0) := by
    rw [hread]
    simp [checkByPIDFile, found]
  rw [Poll.counter, if_neg hrunning, hread]

/-- What a poll does when the file has a counter. -/
theorem Shows.poll (kla : Int) {v : UInt16} (hshows : Shows v s) :
    poll kla s =
      if (v.toNat : Int) ≠ s.watch.keepAliveCountRef then
        ({ s with watch := ⟨v.toNat, 0⟩ }, none)
      else if s.watch.tolerance > 0 then
        ({ s with watch := { s.watch with tolerance := 0 }, keepAliveCount := 1 },
          some .unchanged)
      else ({ s with watch := { s.watch with tolerance := s.watch.tolerance + 1 } }, none) := by
  rw [Supervision.poll, watchRound_of_some hshows.counter]
  by_cases hchanged : (v.toNat : Int) ≠ s.watch.keepAliveCountRef
  · simp [hchanged]
  · by_cases htolerance : s.watch.tolerance > 0
    · simp [hchanged, htolerance]
    · simp [hchanged, htolerance]

/-! ### A gateway that runs -/

/-- Whether two successive polls, with so many increments before each of them, may pass. -/
def Passes (a b : Nat) : Prop := ¬ (65536 ∣ a ∧ 65536 ∣ b)

instance (a b : Nat) : Decidable (Passes a b) := inferInstanceAs (Decidable (¬ _))

theorem same_iff (v : UInt16) (n : Nat) :
    ((v + UInt16.ofNat n).toNat : Int) = v.toNat ↔ 65536 ∣ n := by
  have hlt := v.toNat_lt
  rw [UInt16.toNat_add, UInt16.toNat_ofNat']
  omega

theorem restarts_none_iff {v : UInt16} (ns : List Nat) (m : Nat) (hshows : Shows v s)
    (href : s.watch.keepAliveCountRef = v.toNat)
    (htolerance : s.watch.tolerance > 0 ↔ 65536 ∣ m) :
    (∀ r ∈ restarts kla ns s, r = none) ↔ (m :: ns).IsChain Passes := by
  induction ns generalizing s v m with
  | nil => simp [restarts]
  | cons n ns ih =>
      have hnext := hshows.iterate n
      have hpoll := hnext.poll kla
      rw [watch_iterate, href] at hpoll
      rw [restarts, List.forall_mem_cons, List.isChain_cons_cons]
      by_cases hsame : 65536 ∣ n
      · rw [if_neg (not_not.mpr ((same_iff v n).mpr hsame))] at hpoll
        by_cases hused : s.watch.tolerance > 0
        · rw [if_pos hused] at hpoll
          simp [hpoll, Passes, hsame, htolerance.mp hused]
        · rw [if_neg hused] at hpoll
          have hm : ¬ 65536 ∣ m := fun h => hused (htolerance.mpr h)
          rw [hpoll]
          simp only [Passes, hm, false_and, not_false_eq_true, true_and]
          apply ih n (hnext.after_watch _)
          · exact href.trans ((same_iff v n).mpr hsame).symm
          · simp [hsame]
      · rw [if_pos (fun h => hsame ((same_iff v n).mp h))] at hpoll
        rw [hpoll]
        simp only [Passes, hsame, and_false, not_false_eq_true, true_and]
        apply ih n (hnext.after_watch _) rfl
        simp [hsame]

/-- A gateway that is running, and writes its counter before the first poll, is never
restarted if and only if there are no two successive polls that both come after a number of
increments divisible by 65536, none above all; whatever the file had before. -/
theorem never_restarted_iff (kla : Int) (file : Option Text) {n : Nat} (hn : 0 < n)
    (ns : List Nat) :
    (∀ r ∈ restarts kla (n :: ns) (start file), r = none) ↔ (n :: ns).IsChain Passes := by
  obtain ⟨n, rfl⟩ := Nat.exists_eq_succ_of_ne_zero (Nat.ne_of_gt hn)
  have hfirst : Shows 1 (klaIncr (start file)) := shows_klaIncr (start file)
  have hnext := hfirst.iterate n
  have hpoll := hnext.poll kla
  have hzero : ((1 + UInt16.ofNat n).toNat : Int) = 0 ↔ 65536 ∣ n + 1 := by
    rw [UInt16.toNat_add, UInt16.toNat_ofNat']
    have hone : (1 : UInt16).toNat = 1 := rfl
    omega
  have hwatch : (klaIncr^[n] (klaIncr (start file))).watch = ⟨0, 0⟩ := watch_iterate _ _
  rw [hwatch] at hpoll
  rw [restarts, List.forall_mem_cons, Function.iterate_succ_apply]
  by_cases hround : 65536 ∣ n + 1
  · rw [if_neg (not_not.mpr (hzero.mpr hround)), if_neg (Nat.lt_irrefl 0)] at hpoll
    rw [hpoll]
    simp only [true_and]
    apply restarts_none_iff ns (n + 1) (hnext.after_watch _)
    · exact (hzero.mpr hround).symm
    · simp [hround]
  · rw [if_pos (fun h => hround (hzero.mp h))] at hpoll
    rw [hpoll]
    simp only [true_and]
    apply restarts_none_iff ns (n + 1) (hnext.after_watch _) rfl
    simp [hround]

theorem never_restarted_iff_late :
    (∀ r ∈ restarts 0 [2, 0, 2, 0] (start none), r = none) ∧
      ¬ ∀ r ∈ restarts 0 [2, 0, 0] (start none), r = none :=
  ⟨(never_restarted_iff 0 none (by decide) _).mpr (by decide),
    fun hnone => absurd ((never_restarted_iff 0 none (by decide) _).mp hnone) (by decide)⟩

/-! ### A gateway that initializes itself -/

theorem restartsInitializing_getElem (n : Nat) (hshows : Shows 1 s)
    (href : s.watch.keepAliveCountRef = 1) (htolerance : s.watch.tolerance ≤ 1) {i : Nat}
    (hi : i < n) :
    (restartsInitializing kla n s)[i]? =
      some (if (i + s.watch.tolerance) % 2 = 1 then some .unchanged else none) := by
  induction n generalizing s i with
  | zero => cases hi
  | succ n ih =>
      have hpoll := hshows.poll kla
      have hsame : ¬ ((1 : UInt16).toNat : Int) ≠ s.watch.keepAliveCountRef :=
        not_not.mpr href.symm
      rw [if_neg hsame] at hpoll
      rw [restartsInitializing, pollInitializing]
      by_cases hused : s.watch.tolerance > 0
      · have hone : s.watch.tolerance = 1 := by omega
        rw [if_pos hused] at hpoll
        simp only [hpoll, hone]
        cases i with
        | zero => rfl
        | succ i =>
            let started : State :=
              { s with watch := { s.watch with tolerance := 0 }, keepAliveCount := 1 }
            have hstarted : Shows 1 (klaIncr started) := shows_klaIncr started
            rw [List.getElem?_cons_succ, ih hstarted href (Nat.zero_le 1)
              (Nat.lt_of_succ_lt_succ hi)]
            have hparity : (i + 1 + 1) % 2 = (i + 0) % 2 := by omega
            rw [hparity]
            rfl
      · have hzero : s.watch.tolerance = 0 := by omega
        rw [if_neg hused] at hpoll
        simp only [hpoll, hzero]
        cases i with
        | zero => rfl
        | succ i =>
            have hnext := hshows.after_watch { s.watch with tolerance := 0 + 1 }
            rw [List.getElem?_cons_succ, ih hnext href (Nat.le_refl 1)
              (Nat.lt_of_succ_lt_succ hi)]
            rfl

/-- As long as every gateway is still initializing itself when it is polled, the third poll
restarts it, and every second poll from then on. -/
theorem restarted_at_every_second_poll (kla : Int) (file : Option Text) (n : Nat) {i : Nat}
    (hi : i < n) :
    (restartsInitializing kla n (klaIncr (start file)))[i]? =
      some (if 2 ≤ i ∧ i % 2 = 0 then some .unchanged else none) := by
  obtain ⟨n, rfl⟩ := Nat.exists_eq_succ_of_ne_zero (Nat.ne_of_gt (Nat.zero_lt_of_lt hi))
  have hfirst : Shows 1 (klaIncr (start file)) := shows_klaIncr (start file)
  have hpoll := hfirst.poll kla
  have hchanged : ((1 : UInt16).toNat : Int) ≠ (klaIncr (start file)).watch.keepAliveCountRef := by
    show (1 : Int) ≠ 0
    decide
  rw [if_pos hchanged] at hpoll
  rw [restartsInitializing, pollInitializing]
  simp only [hpoll]
  cases i with
  | zero => rfl
  | succ i =>
      rw [List.getElem?_cons_succ, restartsInitializing_getElem n (hfirst.after_watch _) rfl
        (Nat.zero_le 1) (Nat.lt_of_succ_lt_succ hi)]
      have hparity : (i + 0) % 2 = 1 ↔ 2 ≤ i + 1 ∧ (i + 1) % 2 = 0 := by omega
      simp only [hparity]

theorem restarted_at_every_second_poll_third :
    (restartsInitializing 0 5 (klaIncr (start none)))[2]? = some (some .unchanged) :=
  restarted_at_every_second_poll 0 none 5 (by decide)

end

end KappaGateway.Supervision

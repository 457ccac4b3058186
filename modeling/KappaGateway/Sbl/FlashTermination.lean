import KappaGateway.Sbl.FlashVerified

/-!
# When flashing terminates

The loop that writes counts the writes that are refused, but not those that are not
answered. A dongle that stays silent keeps it going.
-/

namespace KappaGateway.SerialBootload

open Loop

/-! ### Calls and program points -/

/-- The calls of `mtSend` so far. -/
def calls (s : Vars Observed) : Nat := s.world.log.length

/-- The state after some more calls in the transfer of a chunk. -/
structure Later (s t : Vars Observed) (n : Nat) : Prop where
  file : t.file = s.file
  fileBufLen : t.fileBufLen = s.fileBufLen
  rwRetry : t.rwRetry = s.rwRetry
  calls : SerialBootload.calls t = SerialBootload.calls s + n

def Accepted (o : Option MtRsp) : Prop := ∃ r ∈ o, r.status = SB_SUCCESS

def Refused (o : Option MtRsp) : Prop := ∃ r ∈ o, r.status ≠ SB_SUCCESS

/-- One of the next three calls is accepted, or all of them are refused. -/
def Acknowledged (outcome : Nat → Option MtRsp) (m : Nat) : Prop :=
  (∃ j < 3, Accepted (outcome (m + j))) ∨ ∀ j < 3, Refused (outcome (m + j))

/-- The states at the top of the loop that writes and reads, by their round. -/
inductive RoundTop (outcome : Nat → Option MtRsp) (s₀ : Vars Observed) :
    Nat → Vars Observed → Prop
  | first : RoundTop outcome s₀ 0 s₀
  | next {fuel n s t} (top : RoundTop outcome s₀ n s) (again : Unverified s)
      (round : verifyRound (observed outcome) fuel s = .goesOn t) :
      RoundTop outcome s₀ (n + 1) t

/-- The variables before the first chunk. -/
def flashStart (image : List UInt8) (stack : Vars Observed) : Vars Observed :=
  { stack with
    world := ⟨[], stack.rdRsp.data⟩
    file := image
    addr := 0
    rtnval := 0 }

/-- The states at the top of the loop over the file. -/
inductive ChunkTop (outcome : Nat → Option MtRsp) (image : List UInt8) (stack : Vars Observed) :
    Vars Observed → Prop
  | first : ChunkTop outcome image stack (flashStart image stack)
  | next {fuel s t} (top : ChunkTop outcome image stack s)
      (round : chunkRound (observed outcome) fuel s = .goesOn t) (more : 0 < t.fileBufLen) :
      ChunkTop outcome image stack t

/-- A round of writing and reading begins. -/
def RoundBegins (outcome : Nat → Option MtRsp) (image : List UInt8)
    (stack s : Vars Observed) : Prop :=
  ∃ c n, ChunkTop outcome image stack c ∧ 0 < (readChunk c).fileBufLen ∧
    RoundTop outcome (readChunk c) n s ∧ Unverified s

section

variable {outcome : Nat → Option MtRsp} {s t u : Vars Observed} {m n k fuel : Nat}

theorem Later.refl (s : Vars Observed) : Later s s 0 := ⟨rfl, rfl, rfl, rfl⟩

theorem Later.trans (h : Later s t m) (h' : Later t u n) : Later s u (m + n) := by
  constructor
  · exact h'.file.trans h.file
  · exact h'.fileBufLen.trans h.fileBufLen
  · exact h'.rwRetry.trans h.rwRetry
  · rw [h'.calls, h.calls, Nat.add_assoc]

/-! ### The loop that writes -/

/-- What a write does, by its outcome. -/
structure Wrote (outcome : Nat → Option MtRsp) (s t : Vars Observed) : Prop where
  later : Later s t 1
  rdRetry : t.rdRetry = s.rdRetry
  silent : outcome (calls s) = none → t.returnStatus = s.returnStatus ∧ t.wrRetry = s.wrRetry
  accepted : Accepted (outcome (calls s)) → t.returnStatus = SB_SUCCESS
  refused : Refused (outcome (calls s)) →
    t.returnStatus ≠ SB_SUCCESS ∧ t.wrRetry = s.wrRetry + 1

theorem writeRound_wrote (outcome : Nat → Option MtRsp) (s : Vars Observed) :
    ∃ t, writeRound (observed outcome) s = .goesOn t ∧ Wrote outcome s t := by
  simp only [writeRound, observed]
  cases hout : outcome s.world.log.length with
  | none =>
      refine ⟨_, rfl, ⟨rfl, rfl, rfl, by simp [calls]⟩, rfl, fun _ => ⟨rfl, rfl⟩, ?_, ?_⟩
      · rintro ⟨r, hr, -⟩
        rw [calls, hout] at hr
        cases hr
      · rintro ⟨r, hr, -⟩
        rw [calls, hout] at hr
        cases hr
  | some r =>
      refine ⟨_, rfl, ⟨rfl, rfl, rfl, by simp [calls]⟩, rfl, ?_, ?_, ?_⟩
      · intro hnone
        rw [calls, hout] at hnone
        cases hnone
      · rintro ⟨r', hr, hstatus⟩
        rw [calls, hout] at hr
        cases hr
        exact hstatus
      · rintro ⟨r', hr, hstatus⟩
        rw [calls, hout] at hr
        cases hr
        exact ⟨hstatus, if_pos hstatus⟩

/-- What the loop that writes leaves as it is. -/
theorem writeLoop_later
    (h : loop Unwritten (writeRound (observed outcome)) fuel s = .goesOn t) :
    ∃ n, Later s t n ∧ t.rdRetry = s.rdRetry := by
  have hbody : ∀ u v, (∃ n, Later s u n ∧ u.rdRetry = s.rdRetry) → Unwritten u →
      writeRound (observed outcome) u = .goesOn v ∨ writeRound (observed outcome) u = .breaks v →
      ∃ n, Later s v n ∧ v.rdRetry = s.rdRetry := by
    rintro u v ⟨n, hlater, hretry⟩ - hround
    obtain ⟨w, hw, hwrote⟩ := writeRound_wrote outcome u
    rw [hw] at hround
    rcases hround with heq | heq
    · cases heq
      exact ⟨n + 1, hlater.trans hwrote.later, hwrote.rdRetry.trans hretry⟩
    · cases heq
  exact loop_keeps hbody ⟨0, Later.refl s, rfl⟩ h

/-- The loop ends with the first write that is accepted, or before. -/
theorem writeLoop_accepted {j : Nat} (h : Accepted (outcome (calls s + j))) (hfuel : j + 1 < fuel) :
    ∃ t, loop Unwritten (writeRound (observed outcome)) fuel s = .goesOn t ∧
      calls t ≤ calls s + (j + 1) := by
  induction j generalizing s fuel with
  | zero =>
      obtain ⟨fuel, rfl⟩ : ∃ f, fuel = f + 2 := ⟨fuel - 2, by omega⟩
      by_cases hcond : Unwritten s
      · obtain ⟨t, ht, hwrote⟩ := writeRound_wrote outcome s
        have hdone : ¬ Unwritten t := fun hagain => hagain.1 (hwrote.accepted h)
        rw [loop_goesOn hcond ht]
        exact ⟨t, loop_done hdone, Nat.le_of_eq hwrote.later.calls⟩
      · exact ⟨s, loop_done hcond, Nat.le_add_right _ _⟩
  | succ j ih =>
      obtain ⟨fuel, rfl⟩ : ∃ f, fuel = f + 1 := ⟨fuel - 1, by omega⟩
      by_cases hcond : Unwritten s
      · obtain ⟨t, ht, hwrote⟩ := writeRound_wrote outcome s
        have hcalls : calls t = calls s + 1 := hwrote.later.calls
        have hnext : Accepted (outcome (calls t + j)) := by
          rw [hcalls, Nat.add_assoc, Nat.add_comm 1 j]
          exact h
        obtain ⟨u, hu, hle⟩ := ih hnext (by omega : j + 1 < fuel)
        rw [loop_goesOn hcond ht]
        exact ⟨u, hu, by omega⟩
      · exact ⟨s, loop_done hcond, Nat.le_add_right _ _⟩

/-- The loop ends when the third write is refused, or before. -/
theorem writeLoop_refused (h : ∀ j < k, Refused (outcome (calls s + j)))
    (hretry : 3 ≤ s.wrRetry + k) (hfuel : k < fuel) :
    ∃ t, loop Unwritten (writeRound (observed outcome)) fuel s = .goesOn t ∧
      calls t ≤ calls s + k := by
  obtain ⟨fuel, rfl⟩ : ∃ f, fuel = f + 1 := ⟨fuel - 1, by omega⟩
  induction k generalizing s fuel with
  | zero =>
      have hdone : ¬ Unwritten s := fun hagain => absurd hagain.2 (by omega)
      exact ⟨s, loop_done hdone, Nat.le_refl _⟩
  | succ k ih =>
      by_cases hcond : Unwritten s
      · obtain ⟨fuel, rfl⟩ : ∃ f, fuel = f + 1 := ⟨fuel - 1, by omega⟩
        obtain ⟨t, ht, hwrote⟩ := writeRound_wrote outcome s
        have hcalls : calls t = calls s + 1 := hwrote.later.calls
        have hcount := (hwrote.refused (h 0 (Nat.zero_lt_succ k))).2
        have hnext : ∀ j < k, Refused (outcome (calls t + j)) := by
          intro j hj
          rw [hcalls, Nat.add_assoc, Nat.add_comm 1 j]
          exact h (j + 1) (by omega)
        obtain ⟨u, hu, hle⟩ := ih hnext (by omega) fuel (by omega)
        rw [loop_goesOn hcond ht]
        exact ⟨u, hu, by omega⟩
      · exact ⟨s, loop_done hcond, Nat.le_add_right _ _⟩

/-- While no write is accepted and fewer than three are refused, the loop goes on. -/
theorem writeLoop_longer (hstatus : s.returnStatus ≠ SB_SUCCESS)
    (h : ∀ j < k, ¬ Accepted (outcome (calls s + j)))
    (hretry : s.wrRetry + k < 3 ∨
      s.wrRetry + k = 3 ∧ ∃ j < k, ¬ Refused (outcome (calls s + j)))
    (hloop : loop Unwritten (writeRound (observed outcome)) fuel s = .goesOn t) :
    calls s + k < calls t := by
  induction k generalizing s fuel with
  | zero =>
      have hcond : Unwritten s := by
        refine ⟨hstatus, ?_⟩
        rcases hretry with hlt | ⟨-, j, hj, -⟩
        · exact hlt
        · exact absurd hj (Nat.not_lt_zero j)
      cases fuel with
      | zero => cases hloop
      | succ fuel =>
          obtain ⟨u, hu, hwrote⟩ := writeRound_wrote outcome s
          rw [loop_goesOn hcond hu] at hloop
          obtain ⟨n, hlater, -⟩ := writeLoop_later hloop
          rw [hlater.calls, hwrote.later.calls]
          omega
  | succ k ih =>
      have hcond : Unwritten s := ⟨hstatus, by omega⟩
      cases fuel with
      | zero => cases hloop
      | succ fuel =>
          obtain ⟨u, hu, hwrote⟩ := writeRound_wrote outcome s
          have hcalls : calls u = calls s + 1 := hwrote.later.calls
          have hshift : ∀ j, calls u + j = calls s + (j + 1) := by
            intro j
            rw [hcalls, Nat.add_assoc, Nat.add_comm 1 j]
          rw [loop_goesOn hcond hu] at hloop
          have hnext : ∀ j < k, ¬ Accepted (outcome (calls u + j)) := by
            intro j hj
            rw [hshift]
            exact h (j + 1) (by omega)
          have hcount : u.returnStatus ≠ SB_SUCCESS ∧ (u.wrRetry + k < 3 ∨
              u.wrRetry + k = 3 ∧ ∃ j < k, ¬ Refused (outcome (calls u + j))) := by
            cases hout : outcome (calls s) with
            | none =>
                obtain ⟨hsame, hretries⟩ := hwrote.silent hout
                exact ⟨hsame ▸ hstatus, Or.inl (by omega)⟩
            | some r =>
                have hrefused : Refused (outcome (calls s)) :=
                  ⟨r, hout, fun haccepted => h 0 (Nat.zero_lt_succ k) ⟨r, hout, haccepted⟩⟩
                obtain ⟨hbad, hretries⟩ := hwrote.refused hrefused
                refine ⟨hbad, ?_⟩
                rcases hretry with hlt | ⟨heq, j, hj, hnot⟩
                · exact Or.inl (by omega)
                · cases j with
                  | zero => exact absurd hrefused hnot
                  | succ j =>
                      refine Or.inr ⟨by omega, j, by omega, ?_⟩
                      rwa [hshift]
          have hlt := ih hcount.1 hnext hcount.2 hloop
          omega

/-- The loop that writes makes at most three calls exactly if they are acknowledged. -/
theorem writeLoop_iff (hstatus : s.returnStatus ≠ SB_SUCCESS) (hretry : s.wrRetry = 0) :
    (∃ fuel t, loop Unwritten (writeRound (observed outcome)) fuel s = .goesOn t ∧
        calls t ≤ calls s + 3) ↔ Acknowledged outcome (calls s) := by
  constructor
  · rintro ⟨fuel, t, hloop, hle⟩
    by_contra hnot
    rw [Acknowledged, not_or] at hnot
    obtain ⟨hnone, hrefused⟩ := hnot
    push Not at hnone hrefused
    have hlt := writeLoop_longer hstatus (k := 3) hnone
      (Or.inr ⟨by rw [hretry], hrefused⟩) hloop
    omega
  · rintro (⟨j, hj, haccepted⟩ | hrefused)
    · obtain ⟨t, ht, hle⟩ := writeLoop_accepted haccepted (Nat.lt_succ_self (j + 1))
      exact ⟨_, t, ht, by omega⟩
    · obtain ⟨t, ht, hle⟩ := writeLoop_refused hrefused (by omega) (Nat.lt_succ_self 3)
      exact ⟨_, t, ht, hle⟩

/-- With more than three rounds to go, the loop ends if the next calls are acknowledged. -/
theorem writeLoop_ends (h : s.returnStatus ≠ SB_SUCCESS → Acknowledged outcome (calls s))
    (hretry : s.wrRetry = 0) (hfuel : 3 < fuel) :
    ∃ t, loop Unwritten (writeRound (observed outcome)) fuel s = .goesOn t ∧
      calls t ≤ calls s + 3 := by
  by_cases hstatus : s.returnStatus = SB_SUCCESS
  · obtain ⟨fuel, rfl⟩ : ∃ f, fuel = f + 1 := ⟨fuel - 1, by omega⟩
    exact ⟨s, loop_done fun hcond => hcond.1 hstatus, Nat.le_add_right _ _⟩
  · rcases h hstatus with ⟨j, hj, haccepted⟩ | hrefused
    · obtain ⟨t, ht, hle⟩ := writeLoop_accepted haccepted (by omega : j + 1 < fuel)
      exact ⟨t, ht, by omega⟩
    · exact writeLoop_refused hrefused (by omega) hfuel

/-! ### The loop that reads -/

theorem compareBack_later (s : Vars Observed) :
    ∃ t, Later s t 0 ∧
      (compareBack s = .breaks t ∨ compareBack s = .goesOn t ∧ t.readbackStatus = 0) := by
  by_cases h : s.wrReq = s.rdRsp.data
  · exact ⟨{ s with readbackStatus := 0 }, ⟨rfl, rfl, rfl, rfl⟩,
      Or.inr ⟨if_neg (not_not.mpr h), rfl⟩⟩
  · exact ⟨{ s with rtnval := -1 }, ⟨rfl, rfl, rfl, rfl⟩, Or.inl (if_pos h)⟩

/-- A read ends the loop or is counted. -/
theorem readRound_later (outcome : Nat → Option MtRsp) (s : Vars Observed) :
    ∃ t, Later s t 1 ∧ (readRound (observed outcome) s = .breaks t ∨
      readRound (observed outcome) s = .goesOn t ∧
        (t.readbackStatus = 0 ∨ t.rdRetry = s.rdRetry + 1)) := by
  have hcompare : ∀ u, Later s u 1 → ∃ t, Later s t 1 ∧ (compareBack u = .breaks t ∨
      compareBack u = .goesOn t ∧ (t.readbackStatus = 0 ∨ t.rdRetry = s.rdRetry + 1)) := by
    intro u hu
    obtain ⟨t, ht, hbreaks | ⟨hgoes, hdone⟩⟩ := compareBack_later u
    · exact ⟨t, hu.trans ht, Or.inl hbreaks⟩
    · exact ⟨t, hu.trans ht, Or.inr ⟨hgoes, Or.inl hdone⟩⟩
  simp only [readRound, observed]
  cases outcome s.world.log.length with
  | none => exact hcompare _ ⟨rfl, rfl, rfl, by simp [calls]⟩
  | some r =>
      by_cases hstatus : r.status = SB_SUCCESS
      · simp only [if_neg (not_not.mpr hstatus)]
        exact hcompare _ ⟨rfl, rfl, rfl, by simp [calls]⟩
      · simp only [if_pos hstatus]
        refine ⟨_, ?_, Or.inr ⟨rfl, Or.inr rfl⟩⟩
        exact ⟨rfl, rfl, rfl, by simp [calls]⟩

/-- The loop ends when the third read fails, or before. -/
theorem readLoop_ends (hretry : 3 ≤ s.rdRetry + k) (hfuel : k < fuel) :
    ∃ t n, loop Unread (readRound (observed outcome)) fuel s = .goesOn t ∧ Later s t n ∧
      n ≤ k := by
  obtain ⟨fuel, rfl⟩ : ∃ f, fuel = f + 1 := ⟨fuel - 1, by omega⟩
  induction k generalizing s fuel with
  | zero =>
      have hdone : ¬ Unread s := fun hagain => absurd hagain.2 (by omega)
      exact ⟨s, 0, loop_done hdone, Later.refl s, Nat.le_refl _⟩
  | succ k ih =>
      by_cases hcond : Unread s
      · obtain ⟨t, hlater, ht | ⟨ht, hdone | hcount⟩⟩ := readRound_later outcome s
        · exact ⟨t, 1, loop_breaks hcond ht, hlater, by omega⟩
        · obtain ⟨fuel, rfl⟩ : ∃ f, fuel = f + 1 := ⟨fuel - 1, by omega⟩
          rw [loop_goesOn hcond ht]
          exact ⟨t, 1, loop_done fun hagain => hagain.1 hdone, hlater, by omega⟩
        · obtain ⟨fuel, rfl⟩ : ∃ f, fuel = f + 1 := ⟨fuel - 1, by omega⟩
          obtain ⟨u, n, hu, hrest, hle⟩ := ih (s := t) (by omega) fuel (by omega)
          rw [loop_goesOn hcond ht]
          exact ⟨u, 1 + n, hu, hlater.trans hrest, by omega⟩
      · exact ⟨s, 0, loop_done hcond, Later.refl s, Nat.zero_le _⟩

/-- What the loop that reads leaves as it is. -/
theorem readLoop_later
    (h : loop Unread (readRound (observed outcome)) fuel s = .goesOn t) : ∃ n, Later s t n := by
  have hbody : ∀ u v, (∃ n, Later s u n) → Unread u →
      readRound (observed outcome) u = .goesOn v ∨ readRound (observed outcome) u = .breaks v →
      ∃ n, Later s v n := by
    rintro u v ⟨n, hlater⟩ - hround
    obtain ⟨w, hw, hbreaks | ⟨hgoes, -⟩⟩ := readRound_later outcome u
    · rw [hbreaks] at hround
      rcases hround with heq | heq
      · cases heq
      · cases heq
        exact ⟨n + 1, hlater.trans hw⟩
    · rw [hgoes] at hround
      rcases hround with heq | heq
      · cases heq
        exact ⟨n + 1, hlater.trans hw⟩
      · cases heq
  exact loop_keeps hbody ⟨0, Later.refl s⟩ h

/-! ### The rounds of a chunk -/

/-- A round that goes on has been counted. -/
theorem verifyRound_later (h : verifyRound (observed outcome) fuel s = .goesOn t) :
    ∃ n, Later { s with rwRetry := s.rwRetry + 1 } t n := by
  rw [verifyRound] at h
  cases hwrite : loop Unwritten (writeRound (observed outcome)) fuel
      { s with wrRetry := 0, rdRetry := 0 } with
  | goesOn u =>
      obtain ⟨n, hu, -⟩ := writeLoop_later hwrite
      have hcount : u.rwRetry = s.rwRetry := hu.rwRetry
      rw [hwrite, Flow.goesOn_andThen] at h
      split at h
      · cases h
        exact ⟨n, hu.file, hu.fileBufLen, congrArg (· + 1) hcount, hu.calls⟩
      · cases hread : loop Unread (readRound (observed outcome)) fuel
            { u with readbackStatus := -1 } with
        | goesOn v =>
            obtain ⟨m, hv⟩ := readLoop_later hread
            rw [hread, Flow.goesOn_andThen] at h
            cases h
            exact ⟨n + m, hv.file.trans hu.file, hv.fileBufLen.trans hu.fileBufLen,
              congrArg (· + 1) (hv.rwRetry.trans hcount), by
                rw [← Nat.add_assoc]
                exact hv.calls.trans (congrArg (· + m) hu.calls)⟩
        | breaks v | exits v | runs v =>
            rw [hread] at h
            cases h
  | breaks u | exits u | runs u =>
      rw [hwrite] at h
      cases h

/-- A round whose writes are acknowledged makes at most six calls. -/
theorem verifyRound_bounded (h : s.returnStatus ≠ SB_SUCCESS → Acknowledged outcome (calls s))
    (hfuel : 3 < fuel) :
    ∃ t, verifyRound (observed outcome) fuel s = .goesOn t ∧ calls t ≤ calls s + 6 := by
  obtain ⟨u, hu, hwrites⟩ := writeLoop_ends (s := { s with wrRetry := 0, rdRetry := 0 }) h rfl hfuel
  have hwrites : calls u ≤ calls s + 3 := hwrites
  obtain ⟨-, -, hretry⟩ := writeLoop_later hu
  rw [verifyRound, hu, Flow.goesOn_andThen]
  split
  · exact ⟨_, rfl, Nat.le_trans hwrites (by omega)⟩
  · have hzero : u.rdRetry = 0 := hretry
    have hthree : 3 ≤ ({ u with readbackStatus := -1 } : Vars Observed).rdRetry + 3 := by
      show 3 ≤ u.rdRetry + 3
      omega
    have hends := @readLoop_ends outcome _ 3 fuel hthree hfuel
    obtain ⟨v, n, hv, hlater, hreads⟩ := hends
    have hcalls : calls v = calls u + n := hlater.calls
    rw [hv, Flow.goesOn_andThen]
    exact ⟨_, rfl, show calls v ≤ _ by omega⟩

theorem RoundTop.frame {s₀ : Vars Observed} (top : RoundTop outcome s₀ n s) :
    s.file = s₀.file ∧ s.fileBufLen = s₀.fileBufLen ∧ s.rwRetry = s₀.rwRetry + n := by
  induction top with
  | first => exact ⟨rfl, rfl, rfl⟩
  | next top again round ih =>
      obtain ⟨hfile, hlen, hretry⟩ := ih
      obtain ⟨m, hlater⟩ := verifyRound_later round
      refine ⟨hlater.file.trans hfile, hlater.fileBufLen.trans hlen, ?_⟩
      rw [hlater.rwRetry, ← Nat.add_assoc, ← hretry]

/-- If the writes of every round are acknowledged, the rounds make at most six calls each
and there are at most three. -/
theorem verifyLoop_bounded {s₀ : Vars Observed} (hstart : s₀.rwRetry = 0)
    (hack : ∀ n s, RoundTop outcome s₀ n s → Unverified s → s.returnStatus ≠ SB_SUCCESS →
      Acknowledged outcome (calls s))
    (hfuel : 3 < fuel) (top : RoundTop outcome s₀ n s) {bound : Nat} (hk : 3 ≤ n + k)
    (hbound : k < bound) :
    ∃ t n, loop Unverified (verifyRound (observed outcome) fuel) bound s = .goesOn t ∧
      RoundTop outcome s₀ n t ∧ calls t ≤ calls s + 6 * k := by
  obtain ⟨bound, rfl⟩ : ∃ b, bound = b + 1 := ⟨bound - 1, by omega⟩
  induction k generalizing n s bound with
  | zero =>
      have hdone : ¬ Unverified s := by
        intro hagain
        have hretry := top.frame.2.2
        exact absurd hagain.2 (by omega)
      exact ⟨s, n, loop_done hdone, top, Nat.le_refl _⟩
  | succ k ih =>
      by_cases hcond : Unverified s
      · obtain ⟨bound, rfl⟩ : ∃ b, bound = b + 1 := ⟨bound - 1, by omega⟩
        obtain ⟨t, ht, hcalls⟩ := verifyRound_bounded (hack n s top hcond) hfuel
        obtain ⟨u, m, hu, htop, hle⟩ := ih (.next top hcond ht) (by omega) bound (by omega)
        rw [loop_goesOn hcond ht]
        exact ⟨u, m, hu, htop, by omega⟩
      · exact ⟨s, n, loop_done hcond, top, Nat.le_add_right _ _⟩

/-! ### The chunks of a file -/

/-- A chunk is transferred, or the program exits, after at most 18 calls. -/
theorem chunkRound_bounded {image : List UInt8} {stack : Vars Observed}
    (hack : ∀ s, RoundBegins outcome image stack s → s.returnStatus ≠ SB_SUCCESS →
      Acknowledged outcome (calls s))
    (top : ChunkTop outcome image stack s) (hfile : s.file ≠ []) (hfuel : 3 < fuel) :
    ∃ t, (chunkRound (observed outcome) fuel s = .goesOn t ∨
        chunkRound (observed outcome) fuel s = .exits t) ∧
      calls t ≤ calls s + 18 ∧ t.file = s.file.drop SB_RW_BUF_LEN ∧ 0 < t.fileBufLen := by
  have hlen := readChunk_pos hfile
  have hrounds : ∀ n u, RoundTop outcome (readChunk s) n u → Unverified u →
      u.returnStatus ≠ SB_SUCCESS → Acknowledged outcome (calls u) :=
    fun n u hround hcond => hack u ⟨s, n, top, hlen, hround, hcond⟩
  obtain ⟨t, n, ht, htop, hcalls⟩ :=
    verifyLoop_bounded rfl hrounds hfuel .first (Nat.le_refl 3) hfuel
  obtain ⟨hrest, hcount, -⟩ := htop.frame
  have hpos : 0 < t.fileBufLen := hcount ▸ hlen
  rw [chunkRound, if_pos hlen, ht, Flow.goesOn_andThen]
  split
  · exact ⟨t, Or.inr rfl, hcalls, hrest, hpos⟩
  · exact ⟨_, Or.inl rfl, hcalls, hrest, hpos⟩

theorem chunkCount_drop {file : List UInt8} (h : file ≠ []) :
    chunkCount file = chunkCount (file.drop SB_RW_BUF_LEN) + 1 := by
  have hpos := List.length_pos_of_ne_nil h
  simp only [chunkCount, List.length_drop, SB_RW_BUF_LEN]
  omega

/-- From the top of the loop over the file, the program ends. -/
theorem flash_ends {image : List UInt8} {stack : Vars Observed}
    (hack : ∀ s, RoundBegins outcome image stack s → s.returnStatus ≠ SB_SUCCESS →
      Acknowledged outcome (calls s))
    (top : ChunkTop outcome image stack s) (hfuel : 3 < fuel) {bound : Nat}
    (hbound : chunkCount s.file < bound) :
    ∃ t, (doLoop (0 < ·.fileBufLen) (chunkRound (observed outcome) fuel) bound s = .goesOn t ∨
        doLoop (0 < ·.fileBufLen) (chunkRound (observed outcome) fuel) bound s = .exits t) ∧
      calls t ≤ calls s + 18 * chunkCount s.file := by
  obtain ⟨bound, rfl⟩ : ∃ b, bound = b + 1 := ⟨bound - 1, by omega⟩
  induction bound generalizing s with
  | zero =>
      have hend : s.file = [] := by
        by_contra hfile
        have hcount := chunkCount_drop hfile
        omega
      obtain ⟨t, hround, hworld, hlen, -⟩ := chunkRound_end (observed outcome) fuel hend
      refine ⟨t, Or.inl (doLoop_done hround (by rw [hlen]; exact Nat.lt_irrefl 0)), ?_⟩
      rw [calls, hworld]
      exact Nat.le_add_right _ _
  | succ bound ih =>
      by_cases hfile : s.file = []
      · obtain ⟨t, hround, hworld, hlen, -⟩ := chunkRound_end (observed outcome) fuel hfile
        refine ⟨t, Or.inl (doLoop_done hround (by rw [hlen]; exact Nat.lt_irrefl 0)), ?_⟩
        rw [calls, hworld]
        exact Nat.le_add_right _ _
      · have hcount := chunkCount_drop hfile
        obtain ⟨t, hround | hround, hcalls, hrest, hlen⟩ :=
          chunkRound_bounded hack top hfile hfuel
        · obtain ⟨u, hu, hle⟩ := ih (.next top hround hlen) (by rw [hrest]; omega)
          rw [doLoop_goesOn hround hlen]
          rw [hrest] at hle
          exact ⟨u, hu, by omega⟩
        · exact ⟨t, Or.inr (doLoop_exits hround), by omega⟩

end

/-! ### Exactly when it terminates -/

/-- The bounds of a transfer: at most three rounds for a chunk, each with at most three
writes and three reads, and an end. -/
structure Bounded (outcome : Nat → Option MtRsp) (image : List UInt8) (stack : Vars Observed) :
    Prop where
  rounds : ∀ c n s, ChunkTop outcome image stack c → RoundTop outcome (readChunk c) n s →
    Unverified s → n < 3
  writes : ∀ s, RoundBegins outcome image stack s →
    ∃ fuel t, loop Unwritten (writeRound (observed outcome)) fuel
        { s with wrRetry := 0, rdRetry := 0 } = .goesOn t ∧
      calls t ≤ calls s + 3
  reads : ∀ s, RoundBegins outcome image stack s → ∀ fuel t,
    loop Unwritten (writeRound (observed outcome)) fuel { s with wrRetry := 0, rdRetry := 0 } =
        .goesOn t →
      ∃ fuel u, loop Unread (readRound (observed outcome)) fuel { t with readbackStatus := -1 } =
          .goesOn u ∧ calls u ≤ calls t + 3
  ends : ∃ fuel t, (flash outcome fuel image stack = .goesOn t ∨
      flash outcome fuel image stack = .exits t) ∧ calls t ≤ 18 * chunkCount image

/-- Whenever a round begins to write, its next calls are acknowledged. -/
def WritesAcknowledged (outcome : Nat → Option MtRsp) (image : List UInt8)
    (stack : Vars Observed) : Prop :=
  ∀ s, RoundBegins outcome image stack s → s.returnStatus ≠ SB_SUCCESS →
    Acknowledged outcome (calls s)

/-- For any outcomes, image and stack, flashing keeps its bounds exactly if whenever a round
begins to write, one of the next three calls is accepted or all of them are refused. -/
theorem flash_bounded_iff (outcome : Nat → Option MtRsp) (image : List UInt8)
    (stack : Vars Observed) :
    Bounded outcome image stack ↔ WritesAcknowledged outcome image stack := by
  constructor
  · intro h s hbegins hstatus
    exact (writeLoop_iff (s := { s with wrRetry := 0, rdRetry := 0 }) hstatus rfl).mp
      (h.writes s hbegins)
  · intro hack
    constructor
    · intro c n s _ htop hcond
      have hretry : s.rwRetry = 0 + n := htop.frame.2.2
      have hlt := hcond.2
      omega
    · intro s hbegins
      obtain ⟨t, ht, hle⟩ := writeLoop_ends (s := { s with wrRetry := 0, rdRetry := 0 })
        (hack s hbegins) rfl (Nat.lt_succ_self 3)
      exact ⟨_, t, ht, hle⟩
    · intro s _ fuel t hwrite
      obtain ⟨-, -, hretry⟩ := writeLoop_later hwrite
      have hthree : 3 ≤ ({ t with readbackStatus := -1 } : Vars Observed).rdRetry + 3 :=
        Nat.le_add_left _ _
      obtain ⟨u, n, hu, hlater, hle⟩ := @readLoop_ends outcome _ 3 4 hthree (Nat.lt_succ_self 3)
      have hcalls : calls u = calls t + n := hlater.calls
      exact ⟨_, u, hu, by omega⟩
    · obtain ⟨t, ht, hle⟩ := flash_ends hack .first
        (show 3 < chunkCount image + 4 by omega)
        (show chunkCount image < chunkCount image + 4 by omega)
      have hle : calls t ≤ 0 + 18 * chunkCount image := hle
      exact ⟨_, t, ht, by omega⟩

/-! ### A dongle that never answers -/

/-- Without answers the loop that writes does not end. -/
theorem writeLoop_silent (fuel : Nat) {s : Vars Observed} (h : Unwritten s) :
    ∃ t, loop Unwritten (writeRound (observed fun _ => none)) fuel s = .runs t := by
  induction fuel generalizing s with
  | zero => exact ⟨s, rfl⟩
  | succ fuel ih =>
      obtain ⟨t, ht, hwrote⟩ := writeRound_wrote (fun _ => none) s
      obtain ⟨hstatus, hretry⟩ := hwrote.silent rfl
      have hagain : Unwritten t := ⟨hstatus ▸ h.1, hretry ▸ h.2⟩
      rw [loop_goesOn h ht]
      exact ih hagain

/-- Whatever the bound on the loops, the program is still writing the first chunk of any
file that is not empty. -/
theorem flash_silent_runs {image : List UInt8} (himage : image ≠ []) (stack : Vars Observed)
    (fuel : Nat) : ∃ t, flash (fun _ => none) fuel image stack = .runs t := by
  have hlen := readChunk_pos (s := flashStart image stack) himage
  have hcond : Unverified (readChunk (flashStart image stack)) :=
    ⟨show (-1 : Int) ≠ 0 by decide, Nat.zero_lt_succ 2⟩
  obtain ⟨t, ht⟩ : ∃ t, chunkRound (observed fun _ => none) fuel (flashStart image stack) =
      .runs t := by
    rw [chunkRound, if_pos hlen]
    cases fuel with
    | zero => exact ⟨_, rfl⟩
    | succ fuel =>
        have hunwritten : Unwritten
            { readChunk (flashStart image stack) with wrRetry := 0, rdRetry := 0 } :=
          ⟨show (0xff : UInt8) ≠ SB_SUCCESS by decide, Nat.zero_lt_succ 2⟩
        obtain ⟨t, ht⟩ := writeLoop_silent (fuel + 1) hunwritten
        refine ⟨t, ?_⟩
        rw [loop, if_pos hcond, verifyRound, ht]
        rfl
  exact ⟨t, doLoop_runs ht⟩

theorem flash_silent :
    (∀ fuel, ∃ t, flash (fun _ => none) fuel [0] zeroStack = .runs t) ∧
      ¬ Bounded (fun _ => none) [0] zeroStack := by
  have hruns := flash_silent_runs (List.cons_ne_nil 0 []) zeroStack
  refine ⟨hruns, fun hbounded => ?_⟩
  obtain ⟨fuel, t, hend, -⟩ := hbounded.ends
  obtain ⟨u, hu⟩ := hruns fuel
  rw [hu] at hend
  rcases hend with hgoes | hexits
  · cases hgoes
  · cases hexits

end KappaGateway.SerialBootload

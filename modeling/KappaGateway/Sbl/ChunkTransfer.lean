import KappaGateway.Sbl.SerialBootload
import Mathlib.Data.List.Basic
import Mathlib.Logic.Function.Basic

/-!
# The transfer of a chunk

A boot loader as a flash memory that refuses some writes and corrupts others. A
refused write is repeated, but an acknowledged one is not: `returnStatus` keeps
its value while the chunk is read back again, so that a corrupted write is
compared three times and never repaired.
-/

namespace KappaGateway.SerialBootload

open Loop

/-! ### The boot loader -/

/-- What can be wrong with a write: it is answered with an error, whatever it
stores, or acknowledged with other bytes stored. -/
inductive Fault where
  | refused (status : UInt8) (stored : Option Block)
  | corrupted (stored : Block)

/-- The chunks by their word addresses, and for each of them what happens to the
writes to come. Later writes are obeyed. -/
structure BootLoader where
  flash : UInt16 → Block
  plan : UInt16 → List (Option Fault)

/-- The word address in a request. -/
def wordAddr (low high : UInt8) : UInt16 := UInt16.ofNat (low.toNat + 256 * high.toNat)

namespace BootLoader

/-- Writes a chunk: the status of the response, and the memory afterwards. -/
def write (d : BootLoader) (a : UInt16) (data : Block) : UInt8 × BootLoader :=
  let plan := Function.update d.plan a (d.plan a).tail
  match (d.plan a).head?.join with
  | none => (SB_SUCCESS, ⟨Function.update d.flash a data, plan⟩)
  | some (.corrupted stored) => (SB_SUCCESS, ⟨Function.update d.flash a stored, plan⟩)
  | some (.refused status stored) =>
      (status, ⟨Function.update d.flash a (stored.getD (d.flash a)), plan⟩)

/-- The boot loader answers every request. -/
def mtSend : MtSend BootLoader
  | .write low high data, d =>
      let (status, d) := d.write (wordAddr low high) data
      (some ⟨status, low, high, data⟩, d)
  | .read low high, d => (some ⟨SB_SUCCESS, low, high, d.flash (wordAddr low high)⟩, d)

/-- The memory from the beginning. -/
def content (d : BootLoader) (chunks : Nat) : List UInt8 :=
  (List.range chunks).flatMap fun i => (d.flash (UInt16.ofNat (16 * i))).toList

end BootLoader

/-! ### What becomes of a chunk -/

/-- The refused writes before the first that is acknowledged. -/
def refusals : List (Option Fault) → Nat
  | some (.refused _ _) :: rest => refusals rest + 1
  | _ => 0

/-- The plan after the first acknowledged write. -/
def afterAck : List (Option Fault) → List (Option Fault)
  | some (.refused _ _) :: rest => afterAck rest
  | _ :: rest => rest
  | [] => []

/-- The bytes that the first acknowledged write stores. -/
def settled (data : Block) : List (Option Fault) → Block
  | some (.refused _ _) :: rest => settled data rest
  | some (.corrupted stored) :: _ => stored
  | _ => data

/-- The first write that is acknowledged is not a corrupted one. -/
def AckClean : List (Option Fault) → Prop
  | some (.refused _ _) :: rest => AckClean rest
  | some (.corrupted _) :: _ => False
  | _ => True

/-- At most two faults, which are real ones: a refusal with a bad status, and
other bytes than those of the chunk. -/
structure Transient (data : Block) (plan : List (Option Fault)) : Prop where
  count : plan.countP Option.isSome ≤ 2
  refused : ∀ status stored, some (.refused status stored) ∈ plan → status ≠ SB_SUCCESS
  corrupted : ∀ stored, some (.corrupted stored) ∈ plan → stored ≠ data

theorem refusals_le (plan : List (Option Fault)) :
    refusals plan ≤ plan.countP Option.isSome := by
  induction plan with
  | nil => exact Nat.le_refl 0
  | cons fault rest ih =>
      match fault with
      | none | some (.corrupted _) => exact Nat.zero_le _
      | some (.refused _ _) =>
          rw [refusals, List.countP_cons_of_pos (by rfl)]
          exact Nat.succ_le_succ ih

theorem exists_refused {plan : List (Option Fault)} {n : Nat} (h : refusals plan = n + 1) :
    ∃ status stored rest, plan = some (.refused status stored) :: rest := by
  match plan with
  | some (.refused status stored) :: rest => exact ⟨status, stored, rest, rfl⟩
  | [] | none :: _ | some (.corrupted _) :: _ => exact absurd h (Nat.zero_ne_add_one n)

theorem settled_eq_iff {data : Block} {plan : List (Option Fault)}
    (h : ∀ stored, some (.corrupted stored) ∈ plan → stored ≠ data) :
    settled data plan = data ↔ AckClean plan := by
  induction plan with
  | nil => exact iff_of_true rfl trivial
  | cons fault rest ih =>
      match fault with
      | none => exact iff_of_true rfl trivial
      | some (.corrupted stored) => exact iff_of_false (h stored List.mem_cons_self) id
      | some (.refused _ _) =>
          apply ih
          intro stored hmem
          exact h stored (List.mem_cons_of_mem _ hmem)

/-- The boot loader after the first acknowledged write of a chunk. -/
def BootLoader.acknowledge (d : BootLoader) (a : UInt16) (data : Block) : BootLoader :=
  ⟨Function.update d.flash a (settled data (d.plan a)),
    Function.update d.plan a (afterAck (d.plan a))⟩

theorem wordAddr_split (a : UInt16) : wordAddr (addrLow a) (addrHigh a) = a := by
  have hlow : (addrLow a).toNat = a.toNat % 256 := by
    rw [addrLow, UInt16.toNat_toUInt8, UInt16.toNat_and]
    have hmask : a.toNat &&& 255 = a.toNat % 256 := Nat.and_two_pow_sub_one_eq_mod a.toNat 8
    exact (congrArg (· % 2 ^ 8) hmask).trans (Nat.mod_mod _ _)
  have hhigh : (addrHigh a).toNat = a.toNat / 256 := by
    have hlt := a.toNat_lt
    rw [addrHigh, UInt16.toNat_toUInt8, UInt16.toNat_shiftRight, Nat.shiftRight_eq_div_pow]
    apply Nat.mod_eq_of_lt
    show a.toNat / 256 < 256
    omega
  calc wordAddr (addrLow a) (addrHigh a)
      = UInt16.ofNat (a.toNat % 256 + 256 * (a.toNat / 256)) := by rw [wordAddr, hlow, hhigh]
    _ = UInt16.ofNat a.toNat := by rw [Nat.mod_add_div]
    _ = a := UInt16.ofNat_toNat

/-! ### Writing -/

theorem write_of_ack {d : BootLoader} {a : UInt16} (data : Block)
    (h : refusals (d.plan a) = 0) : d.write a data = (SB_SUCCESS, d.acknowledge a data) := by
  rw [BootLoader.write, BootLoader.acknowledge]
  match hplan : d.plan a with
  | [] => rfl
  | none :: rest => rfl
  | some (.corrupted stored) :: rest => rfl
  | some (.refused _ _) :: rest =>
      rw [hplan] at h
      exact absurd h (Nat.succ_ne_zero _)

/-- A refusal leaves the rest of the plan, and does not matter in the end. -/
theorem write_of_refused {d : BootLoader} {a : UInt16} {status : UInt8} {stored : Option Block}
    {rest : List (Option Fault)} (h : d.plan a = some (.refused status stored) :: rest)
    (data : Block) :
    (d.write a data).1 = status ∧ (d.write a data).2.plan a = rest ∧
      (d.write a data).2.acknowledge a data = d.acknowledge a data := by
  have hwrite : d.write a data = (status,
      ⟨Function.update d.flash a (stored.getD (d.flash a)), Function.update d.plan a rest⟩) := by
    rw [BootLoader.write, h]
    rfl
  rw [hwrite]
  refine ⟨rfl, Function.update_self .., ?_⟩
  simp only [BootLoader.acknowledge, Function.update_self, Function.update_idem, h]
  rfl

theorem writeRound_eq (s : Vars BootLoader) :
    writeRound BootLoader.mtSend s =
      let (status, world) := s.world.write s.addr s.wrReq
      .goesOn { s with
        world
        returnStatus := status
        wrRetry := if status ≠ SB_SUCCESS then s.wrRetry + 1 else s.wrRetry } := by
  rw [writeRound, BootLoader.mtSend, wordAddr_split]

/-- Writing is repeated until a write is acknowledged. -/
theorem loop_writeRound {s : Vars BootLoader} (fuel : Nat) (hstatus : s.returnStatus ≠ SB_SUCCESS)
    (hrefused : ∀ status stored, some (.refused status stored) ∈ s.world.plan s.addr →
      status ≠ SB_SUCCESS)
    (hretry : s.wrRetry + refusals (s.world.plan s.addr) < 3)
    (hfuel : refusals (s.world.plan s.addr) + 1 < fuel) :
    loop Unwritten (writeRound BootLoader.mtSend) fuel s =
      .goesOn { s with
        world := s.world.acknowledge s.addr s.wrReq
        returnStatus := SB_SUCCESS
        wrRetry := s.wrRetry + refusals (s.world.plan s.addr) } := by
  generalize hn : refusals (s.world.plan s.addr) = n at hretry hfuel ⊢
  induction n generalizing s fuel with
  | zero =>
      obtain ⟨fuel, rfl⟩ : ∃ k, fuel = k + 2 := ⟨fuel - 2, by omega⟩
      have hround := writeRound_eq s
      rw [write_of_ack s.wrReq hn] at hround
      rw [loop_goesOn ⟨hstatus, hretry⟩ hround, loop_done fun h => h.1 rfl]
      rfl
  | succ n ih =>
      obtain ⟨fuel, rfl⟩ : ∃ k, fuel = k + 1 := ⟨fuel - 1, by omega⟩
      obtain ⟨status, stored, rest, hplan⟩ := exists_refused hn
      obtain ⟨hrefusal, hrest, hsame⟩ := write_of_refused hplan s.wrReq
      have hbad : status ≠ SB_SUCCESS := hrefused status stored (hplan ▸ List.mem_cons_self)
      have hround := writeRound_eq s
      dsimp only at hround
      rw [hrefusal, if_pos hbad] at hround
      have hcount : refusals ((s.world.write s.addr s.wrReq).2.plan s.addr) = n := by
        rw [hrest]
        rw [hplan] at hn
        exact Nat.succ.inj hn
      have hlater : ∀ status' stored',
          some (.refused status' stored') ∈ (s.world.write s.addr s.wrReq).2.plan s.addr →
            status' ≠ SB_SUCCESS := by
        intro status' stored' hmem
        rw [hrest] at hmem
        exact hrefused status' stored' (hplan ▸ List.mem_cons_of_mem _ hmem)
      rw [loop_goesOn ⟨hstatus, by omega⟩ hround]
      rw [ih fuel hbad hlater hcount (by dsimp only; omega) (by omega)]
      rw [hsame, Nat.add_assoc, Nat.add_comm 1]

/-! ### Reading back -/

theorem readRound_eq (s : Vars BootLoader) :
    ∃ rdRsp, readRound BootLoader.mtSend s =
      if s.wrReq ≠ s.world.flash s.addr then .breaks { s with rdRsp, rtnval := -1 }
      else .goesOn { s with rdRsp, readbackStatus := 0 } := by
  refine ⟨⟨SB_SUCCESS, addrLow s.addr, addrHigh s.addr, s.world.flash s.addr⟩, ?_⟩
  rw [readRound, BootLoader.mtSend, wordAddr_split]
  exact if_neg (fun h => h rfl)

/-- One comparison decides. -/
theorem loop_readRound {s : Vars BootLoader} {fuel : Nat} (hread : s.readbackStatus = -1)
    (hretry : s.rdRetry = 0) (hfuel : 1 < fuel) :
    ∃ rdRsp, loop Unread (readRound BootLoader.mtSend) fuel s =
      if s.wrReq = s.world.flash s.addr then .goesOn { s with rdRsp, readbackStatus := 0 }
      else .goesOn { s with rdRsp, rtnval := -1 } := by
  obtain ⟨fuel, rfl⟩ : ∃ k, fuel = k + 2 := ⟨fuel - 2, by omega⟩
  obtain ⟨rdRsp, hround⟩ := readRound_eq s
  have hunread : Unread s := ⟨by rw [hread]; decide, by omega⟩
  refine ⟨rdRsp, ?_⟩
  by_cases h : s.wrReq = s.world.flash s.addr
  · rw [if_neg (not_not.mpr h)] at hround
    rw [if_pos h, loop_goesOn hunread hround, loop_done fun h => h.1 rfl]
  · rw [if_pos h] at hround
    rw [if_neg h, loop_breaks hunread hround]

/-! ### One chunk -/

/-- A round of writing and reading, once the chunk is written. -/
theorem verifyRound_of_written {s u : Vars BootLoader} {fuel : Nat}
    (hwrite : loop Unwritten (writeRound BootLoader.mtSend) fuel
      { s with wrRetry := 0, rdRetry := 0 } = .goesOn u)
    (hstatus : u.returnStatus = SB_SUCCESS) (hretry : u.rdRetry = 0) (hfuel : 1 < fuel) :
    ∃ rdRsp, verifyRound BootLoader.mtSend fuel s =
      if u.wrReq = u.world.flash u.addr then
        .goesOn { u with rdRsp, readbackStatus := 0, rwRetry := u.rwRetry + 1 }
      else
        .goesOn { u with
          rdRsp
          readbackStatus := -1
          rtnval := -1
          rwRetry := u.rwRetry + 1 } := by
  obtain ⟨rdRsp, hread⟩ := loop_readRound (s := { u with readbackStatus := -1 }) rfl hretry hfuel
  refine ⟨rdRsp, ?_⟩
  rw [verifyRound, hwrite, Flow.goesOn_andThen, if_neg (not_not.mpr hstatus), hread]
  by_cases h : u.wrReq = u.world.flash u.addr
  · simp only [if_pos h, Flow.goesOn_andThen]
  · simp only [if_neg h, Flow.goesOn_andThen]

/-- The variables after the first round, but for the result of the comparison. -/
def afterWrite (s : Vars BootLoader) (rdRsp : MtRsp) : Vars BootLoader :=
  { s with
    world := s.world.acknowledge s.addr s.wrReq
    returnStatus := SB_SUCCESS
    wrRetry := refusals (s.world.plan s.addr)
    rdRetry := 0
    rwRetry := s.rwRetry + 1
    rdRsp }

/-- The first round writes the chunk. -/
theorem verifyRound_first {s : Vars BootLoader} {fuel : Nat}
    (hstatus : s.returnStatus ≠ SB_SUCCESS) (hplan : Transient s.wrReq (s.world.plan s.addr))
    (hfuel : 3 < fuel) :
    ∃ rdRsp, verifyRound BootLoader.mtSend fuel s =
      if s.wrReq = settled s.wrReq (s.world.plan s.addr) then
        .goesOn { afterWrite s rdRsp with readbackStatus := 0 }
      else .goesOn { afterWrite s rdRsp with readbackStatus := -1, rtnval := -1 } := by
  have hcount := Nat.le_trans (refusals_le (s.world.plan s.addr)) hplan.count
  have hwrite := loop_writeRound (s := { s with wrRetry := 0, rdRetry := 0 }) fuel
    hstatus hplan.refused (by dsimp only; omega) (by dsimp only; omega)
  obtain ⟨rdRsp, hround⟩ := verifyRound_of_written hwrite rfl rfl (by omega)
  refine ⟨rdRsp, ?_⟩
  have hflash : (s.world.acknowledge s.addr s.wrReq).flash s.addr =
      settled s.wrReq (s.world.plan s.addr) := Function.update_self ..
  rw [hround]
  simp only [hflash, Nat.zero_add]
  rfl

/-- The chunk is written, but not as it should be. -/
structure Stuck (s : Vars BootLoader) : Prop where
  written : s.returnStatus = SB_SUCCESS
  readback : s.readbackStatus = -1
  differs : s.wrReq ≠ s.world.flash s.addr

/-- Reading again does not help. -/
theorem Stuck.round {s : Vars BootLoader} (h : Stuck s) {fuel : Nat} (hfuel : 1 < fuel) :
    ∃ t, verifyRound BootLoader.mtSend fuel s = .goesOn t ∧ Stuck t ∧
      t.rwRetry = s.rwRetry + 1 := by
  obtain ⟨fuel, rfl⟩ : ∃ k, fuel = k + 1 := ⟨fuel - 1, by omega⟩
  have hwrite : loop Unwritten (writeRound BootLoader.mtSend) (fuel + 1)
      { s with wrRetry := 0, rdRetry := 0 } = .goesOn { s with wrRetry := 0, rdRetry := 0 } :=
    loop_done fun hunwritten => hunwritten.1 h.written
  obtain ⟨rdRsp, hround⟩ := verifyRound_of_written hwrite h.written rfl hfuel
  rw [if_neg h.differs] at hround
  exact ⟨_, hround, ⟨h.written, rfl, h.differs⟩, rfl⟩

theorem Stuck.rounds {s : Vars BootLoader} (h : Stuck s) {n bound : Nat} (fuel : Nat)
    (hn : s.rwRetry + n = 3) (hbound : n < bound) (hfuel : 1 < fuel) :
    ∃ t, loop Unverified (verifyRound BootLoader.mtSend fuel) bound s = .goesOn t ∧
      t.readbackStatus = -1 := by
  induction n generalizing s bound with
  | zero =>
      obtain ⟨bound, rfl⟩ : ∃ k, bound = k + 1 := ⟨bound - 1, by omega⟩
      refine ⟨s, loop_done fun hunverified => ?_, h.readback⟩
      have hlt := hunverified.2
      omega
  | succ n ih =>
      obtain ⟨bound, rfl⟩ : ∃ k, bound = k + 1 := ⟨bound - 1, by omega⟩
      obtain ⟨t, hround, ht, hretry⟩ := h.round hfuel
      have hunverified : Unverified s := ⟨by rw [h.readback]; decide, by omega⟩
      rw [loop_goesOn hunverified hround]
      exact ih ht (by omega) (by omega)

section

variable {s : Vars BootLoader} {fuel : Nat}

/-- The chunk that is written. -/
def Vars.data (s : Vars BootLoader) : Block := (readChunk s).wrReq

theorem readChunk_length (h : SB_RW_BUF_LEN ≤ s.file.length) :
    (readChunk s).fileBufLen = SB_RW_BUF_LEN := by
  rw [readChunk, List.length_take, Nat.min_eq_left h]

theorem readChunk_unverified (s : Vars BootLoader) : Unverified (readChunk s) :=
  ⟨show (-1 : Int) ≠ 0 by decide, Nat.zero_lt_succ 2⟩

theorem readChunk_status (s : Vars BootLoader) : (readChunk s).returnStatus ≠ SB_SUCCESS :=
  show (0xff : UInt8) ≠ 0 by decide

/-- A chunk whose first acknowledged write is clean. -/
theorem chunkRound_clean (hlength : SB_RW_BUF_LEN ≤ s.file.length)
    (hplan : Transient s.data (s.world.plan s.addr)) (hclean : AckClean (s.world.plan s.addr))
    (hfuel : 3 < fuel) :
    ∃ t, chunkRound BootLoader.mtSend fuel s = .goesOn t ∧
      t.world = s.world.acknowledge s.addr s.data ∧ t.file = s.file.drop SB_RW_BUF_LEN ∧
      t.fileBufLen = SB_RW_BUF_LEN ∧ t.addr = s.addr + 16 ∧ t.rtnval = s.rtnval := by
  have hlen := readChunk_length hlength
  have hsettled : s.data = settled s.data (s.world.plan s.addr) :=
    ((settled_eq_iff hplan.corrupted).mpr hclean).symm
  obtain ⟨rdRsp, hround⟩ := verifyRound_first (readChunk_status s) hplan hfuel
  have hfirst := hround.trans (if_pos hsettled)
  obtain ⟨bound, rfl⟩ : ∃ k, fuel = k + 2 := ⟨fuel - 2, by omega⟩
  rw [chunkRound, if_pos (by rw [hlen]; decide), loop_goesOn (readChunk_unverified s) hfirst,
    loop_done fun h => h.1 rfl, Flow.goesOn_andThen, if_neg fun h => h rfl]
  exact ⟨_, rfl, rfl, rfl, hlen, rfl, rfl⟩

/-- A chunk whose first acknowledged write is corrupted. -/
theorem chunkRound_corrupted (hlength : SB_RW_BUF_LEN ≤ s.file.length)
    (hplan : Transient s.data (s.world.plan s.addr)) (hbad : ¬ AckClean (s.world.plan s.addr))
    (hfuel : 3 < fuel) : ∃ t, chunkRound BootLoader.mtSend fuel s = .exits t := by
  have hlen := readChunk_length hlength
  have hsettled : s.data ≠ settled s.data (s.world.plan s.addr) := fun h =>
    hbad ((settled_eq_iff hplan.corrupted).mp h.symm)
  obtain ⟨rdRsp, hround⟩ := verifyRound_first (readChunk_status s) hplan hfuel
  have hfirst := hround.trans (if_neg hsettled)
  have hstuck : Stuck { afterWrite (readChunk s) rdRsp with readbackStatus := -1, rtnval := -1 } :=
    ⟨rfl, rfl, fun heq => hsettled (heq.trans (Function.update_self ..))⟩
  obtain ⟨bound, rfl⟩ : ∃ k, fuel = k + 1 := ⟨fuel - 1, by omega⟩
  obtain ⟨t, hrounds, hread⟩ := hstuck.rounds (n := 2) (bound + 1) rfl
    (show 2 < bound by omega) (by omega)
  have hexit : t.readbackStatus ≠ 0 := by
    rw [hread]
    decide
  refine ⟨t, ?_⟩
  rw [chunkRound, if_pos (by rw [hlen]; decide), loop_goesOn (readChunk_unverified s) hfirst,
    hrounds, Flow.goesOn_andThen, if_pos hexit]

/-- The end of the file. -/
theorem chunkRound_end {W : Type*} (mtSend : MtSend W) {s : Vars W} (fuel : Nat)
    (hfile : s.file = []) :
    ∃ t, chunkRound mtSend fuel s = .goesOn t ∧ t.world = s.world ∧
      t.fileBufLen = 0 ∧ t.rtnval = s.rtnval := by
  refine ⟨readChunk s, ?_, rfl, ?_, rfl⟩
  · rw [chunkRound]
    exact if_neg (by simp [readChunk, hfile])
  · simp [readChunk, hfile]

end

end KappaGateway.SerialBootload

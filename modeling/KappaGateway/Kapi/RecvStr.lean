import KappaGateway.Kapi.Kutil
import Mathlib.Data.List.TakeWhile

/-!
# Receiving strings

`remote::recvStr` appends as many bytes as `recv` returned, and `sslCliConn::recvStr`
what is a C string in its array, once a terminator was put behind the block. Both go on
after a full block.
-/

namespace KappaGateway.RecvStr

open Kutil

/-- How a call ends. -/
inductive Ending where
  | returned (out : Text)
  | length_error
  | waits
  deriving DecidableEq

/-- How a call ends, the places of its local array that were written, and the counts it
used as lengths. -/
structure Trace where
  ending : Ending
  written : List Nat
  lengths : List Int

/-- The results that a loop takes: up to the first one after which it ends. -/
def taken {ρ : Type*} (again : ρ → Bool) : List ρ → List ρ
  | [] => []
  | r :: rest => r :: if again r then taken again rest else []

/-! ### `remote::recvStr` -/

namespace remote

def maxlen : Nat := 4096

/-- What `recv` returns in a round, and whether `recv` with `MSG_PEEK` finds more. -/
structure Round where
  block : Option Text
  peek : Bool
  bounded : ∀ b ∈ block, b.length ≤ maxlen

/-- The result of `recv`. -/
def Round.l (r : Round) : Int := r.block.elim (-1) fun b => b.length

def pred (r : Round) : Bool := if r.l ≤ 0 ∨ r.l < maxlen then false else r.peek

/-- `recvStr`, with what it has received so far. A string of -1 characters is too long. -/
def recvStr : List Round → Text → Trace
  | [], _ => ⟨.waits, [], []⟩
  | r :: rest, out =>
      if r.l < 0 then ⟨.length_error, [], [r.l]⟩
      else
        let out := out ++ r.block.getD []
        let t := if pred r then recvStr rest out else ⟨.returned out, [], []⟩
        { t with written := List.range r.l.toNat ++ t.written, lengths := r.l :: t.lengths }

end remote

/-! ### `sslCliConn::recvStr` -/

namespace sslCliConn

def maxLen : Nat := 16384

inductive SSL_ERROR where
  | WANT_READ
  | WANT_WRITE
  | other (err_code : Int)
  deriving DecidableEq

/-- What `SSL_read` returns: a block, or no positive count and what `SSL_get_error` makes
of it. -/
inductive Read where
  | block (b : Text) (size : 0 < b.length ∧ b.length ≤ maxLen)
  | failed (blkLen : Int) (size : blkLen ≤ 0) (err_code : SSL_ERROR)

def again : Read → Bool
  | .block b _ => b.length = maxLen
  | .failed _ _ err_code => err_code = .WANT_READ ∨ err_code = .WANT_WRITE

def Read.received : Read → Option Text
  | .block b _ => some b
  | .failed .. => none

/-- `recvStr`, with `buf_`. -/
def recvStr : List Read → Text → Trace
  | [], _ => ⟨.waits, [], []⟩
  | .block b size :: rest, buf_ =>
      let buf_ := buf_ ++ b.takeWhile (· ≠ 0)
      let t := if again (.block b size) then recvStr rest buf_ else ⟨.returned buf_, [], []⟩
      { t with written := List.range b.length ++ [b.length] ++ t.written }
  | .failed blkLen size err_code :: rest, buf_ =>
      if again (.failed blkLen size err_code) then recvStr rest buf_
      else ⟨.returned buf_, [], []⟩

end sslCliConn

/-! ### Both -/

/-- A call, with the results that it would get. -/
inductive Call where
  | remote (rounds : List remote.Round)
  | sslCliConn (buf_ : Text) (reads : List sslCliConn.Read)

def Call.run : Call → Trace
  | .remote rounds => RecvStr.remote.recvStr rounds []
  | .sslCliConn buf_ reads => RecvStr.sslCliConn.recvStr reads buf_

/-- The size of the local array. -/
def Call.size : Call → Nat
  | .remote _ => RecvStr.remote.maxlen
  | .sslCliConn .. => RecvStr.sslCliConn.maxLen

/-- The text already held. -/
def Call.held : Call → Text
  | .remote _ => []
  | .sslCliConn buf_ _ => buf_

/-- The blocks that are received. -/
def Call.blocks : Call → List Text
  | .remote rounds => (taken RecvStr.remote.pred rounds).filterMap RecvStr.remote.Round.block
  | .sslCliConn _ reads =>
      (taken RecvStr.sslCliConn.again reads).filterMap RecvStr.sslCliConn.Read.received

/-- What is returned is what was held and received, the array is not left, and no length
is negative. -/
structure Call.Exact (c : Call) : Prop where
  returned : ∀ out, c.run.ending = .returned out → out = c.held ++ c.blocks.flatten
  inside : ∀ i ∈ c.run.written, i < c.size
  lengths : ∀ n ∈ c.run.lengths, 0 ≤ n

/-- No `recv` fails; no block of `SSL_read` is full or has a zero byte. -/
def Call.Clean : Call → Prop
  | .remote rounds => ∀ r ∈ taken RecvStr.remote.pred rounds, r.block ≠ none
  | .sslCliConn buf_ reads => ∀ b ∈ (Call.sslCliConn buf_ reads).blocks,
      b.length < RecvStr.sslCliConn.maxLen ∧ 0 ∉ b

/-! ### Plain sockets -/

namespace remote

variable {r : Round} {b : Text} {rest : List Round}

theorem l_of_none (h : r.block = none) : r.l = -1 := by rw [Round.l, h, Option.elim_none]

theorem l_of_some (h : r.block = some b) : r.l = b.length := by
  rw [Round.l, h, Option.elim_some]

theorem recvStr_of_none (h : r.block = none) (rest : List Round) (out : Text) :
    recvStr (r :: rest) out = ⟨.length_error, [], [-1]⟩ := by
  rw [recvStr, l_of_none h]
  exact if_pos (by decide)

theorem recvStr_of_some (h : r.block = some b) (rest : List Round) (out : Text) :
    recvStr (r :: rest) out =
      let t := if pred r then recvStr rest (out ++ b) else ⟨.returned (out ++ b), [], []⟩
      { t with written := List.range b.length ++ t.written, lengths := b.length :: t.lengths } := by
  have hcount : ¬ (b.length : Int) < 0 := by omega
  rw [recvStr, l_of_some h, if_neg hcount, h]
  rfl

theorem recvStr_returned {rounds : List Round} {held out : Text}
    (h : (recvStr rounds held).ending = .returned out) :
    out = held ++ ((taken pred rounds).filterMap Round.block).flatten := by
  induction rounds generalizing held with
  | nil => cases h
  | cons r rest ih =>
      cases hblock : r.block with
      | none =>
          rw [recvStr_of_none hblock] at h
          cases h
      | some b =>
          rw [recvStr_of_some hblock] at h
          rw [taken, List.filterMap_cons_some hblock, List.flatten_cons, ← List.append_assoc]
          by_cases hmore : pred r
          · simp only [hmore, if_true] at h ⊢
            exact ih h
          · simp only [hmore] at h ⊢
            cases h
            simp

theorem recvStr_inside (rounds : List Round) (held : Text) :
    ∀ i ∈ (recvStr rounds held).written, i < maxlen := by
  induction rounds generalizing held with
  | nil => simp [recvStr]
  | cons r rest ih =>
      cases hblock : r.block with
      | none => simp [recvStr_of_none hblock]
      | some b =>
          have hbound := r.bounded b hblock
          intro i hi
          rw [recvStr_of_some hblock] at hi
          rcases List.mem_append.mp hi with hi | hi
          · exact Nat.lt_of_lt_of_le (List.mem_range.mp hi) hbound
          · split at hi
            · exact ih _ i hi
            · cases hi

theorem recvStr_lengths (rounds : List Round) (held : Text) :
    (∀ n ∈ (recvStr rounds held).lengths, 0 ≤ n) ↔ ∀ r ∈ taken pred rounds, r.block ≠ none := by
  induction rounds generalizing held with
  | nil => simp [recvStr, taken]
  | cons r rest ih =>
      cases hblock : r.block with
      | none =>
          rw [recvStr_of_none hblock, taken, List.forall_mem_cons, List.forall_mem_cons]
          exact iff_of_false (fun h => absurd h.1 (by decide)) fun h => h.1 hblock
      | some b =>
          rw [recvStr_of_some hblock, taken, List.forall_mem_cons, List.forall_mem_cons]
          apply and_congr
          · exact iff_of_true (Int.natCast_nonneg _) (by simp [hblock])
          · split
            · exact ih _
            · simp

end remote

/-! ### SSL connections -/

namespace sslCliConn

variable {held : Text} {reads : List Read}

/-- The blocks that are received. -/
def blocks (reads : List Read) : List Text := (taken again reads).filterMap Read.received

theorem blocks_block (b : Text) (size : 0 < b.length ∧ b.length ≤ maxLen) (rest : List Read) :
    blocks (.block b size :: rest) = b :: if b.length = maxLen then blocks rest else [] := by
  rw [blocks, taken, List.filterMap_cons_some (show (Read.block b size).received = some b from rfl)]
  by_cases hfull : b.length = maxLen
  · simp [again, hfull, blocks]
  · simp [again, hfull]

theorem blocks_failed (blkLen : Int) (size : blkLen ≤ 0) (err_code : SSL_ERROR)
    (rest : List Read) :
    blocks (.failed blkLen size err_code :: rest) =
      if again (.failed blkLen size err_code) then blocks rest else [] := by
  rw [blocks, taken, List.filterMap_cons_none rfl]
  split
  · rfl
  · rfl

theorem recvStr_block (b : Text) (size : 0 < b.length ∧ b.length ≤ maxLen) (rest : List Read)
    (held : Text) :
    recvStr (.block b size :: rest) held =
      let t := if b.length = maxLen then recvStr rest (held ++ b.takeWhile (· ≠ 0))
        else ⟨.returned (held ++ b.takeWhile (· ≠ 0)), [], []⟩
      { t with written := List.range b.length ++ [b.length] ++ t.written } := by
  rw [recvStr]
  simp [again]

theorem recvStr_failed (blkLen : Int) (size : blkLen ≤ 0) (err_code : SSL_ERROR)
    (rest : List Read) (held : Text) :
    recvStr (.failed blkLen size err_code :: rest) held =
      if again (.failed blkLen size err_code) then recvStr rest held
      else ⟨.returned held, [], []⟩ := rfl

theorem recvStr_lengths (reads : List Read) (held : Text) : (recvStr reads held).lengths = [] := by
  induction reads generalizing held with
  | nil => rfl
  | cons r rest ih =>
      cases r with
      | block b size =>
          rw [recvStr_block]
          dsimp only
          split
          · exact ih _
          · rfl
      | failed blkLen size err_code =>
          rw [recvStr_failed]
          split
          · exact ih _
          · rfl

/-- All of a block is appended exactly if no byte of it ends a C string. -/
theorem takeWhile_eq_self_iff (b : Text) : b.takeWhile (· ≠ 0) = b ↔ 0 ∉ b := by
  rw [List.takeWhile_eq_self_iff]
  constructor
  · exact fun h hmem => of_decide_eq_true (h 0 hmem) rfl
  · intro h c hc
    exact decide_eq_true fun hzero => h (hzero ▸ hc)

/-- The terminator of a full block is written behind the array. -/
theorem recvStr_inside_iff (reads : List Read) (held : Text) :
    (∀ i ∈ (recvStr reads held).written, i < maxLen) ↔ ∀ b ∈ blocks reads, b.length < maxLen := by
  induction reads generalizing held with
  | nil => simp [recvStr, blocks, taken]
  | cons r rest ih =>
      cases r with
      | block b size =>
          have hread : ∀ i ∈ List.range b.length, i < maxLen := fun i hi =>
            Nat.lt_of_lt_of_le (List.mem_range.mp hi) size.2
          rw [recvStr_block, blocks_block, List.forall_mem_cons, List.forall_mem_append,
            List.forall_mem_append, List.forall_mem_singleton]
          apply and_congr
          · exact and_iff_right hread
          · split
            · exact ih _
            · simp
      | failed blkLen size err_code =>
          rw [recvStr_failed, blocks_failed]
          split
          · exact ih _
          · simp

/-- Up to the first block, nothing is appended; then it is appended as far as its first
zero byte. -/
theorem recvStr_returned_iff (h : ∀ b ∈ blocks reads, b.length < maxLen) :
    (∀ out, (recvStr reads held).ending = .returned out → out = held ++ (blocks reads).flatten) ↔
      ∀ b ∈ blocks reads, 0 ∉ b := by
  induction reads with
  | nil => simp [recvStr, blocks, taken]
  | cons r rest ih =>
      cases r with
      | block b size =>
          rw [blocks_block, List.forall_mem_cons] at h
          have hnotFull : b.length ≠ maxLen := Nat.ne_of_lt h.1
          rw [recvStr_block, blocks_block, if_neg hnotFull, if_neg hnotFull]
          rw [List.forall_mem_singleton, ← takeWhile_eq_self_iff]
          constructor
          · intro hreturned
            have hsame := List.append_cancel_left (hreturned _ rfl)
            rw [List.flatten_singleton] at hsame
            exact hsame
          · intro hsame out hout
            cases hout
            rw [hsame, List.flatten_singleton]
      | failed blkLen size err_code =>
          rw [blocks_failed] at h
          rw [recvStr_failed, blocks_failed]
          split
          · next hagain =>
              rw [if_pos hagain] at h
              exact ih h
          · simp [eq_comm]

end sslCliConn

/-! ### Any call -/

/-- Exactly the bytes received are returned, exactly if the results of the call are clean. -/
theorem recvStr_exact_iff (c : Call) : c.Exact ↔ c.Clean := by
  cases c with
  | remote rounds =>
      constructor
      · intro h
        exact (remote.recvStr_lengths rounds []).mp h.lengths
      · intro h
        constructor
        · exact fun out => remote.recvStr_returned
        · exact remote.recvStr_inside rounds []
        · exact (remote.recvStr_lengths rounds []).mpr h
  | sslCliConn buf_ reads =>
      constructor
      · intro h
        have hsize := (sslCliConn.recvStr_inside_iff reads buf_).mp h.inside
        have hzero := (sslCliConn.recvStr_returned_iff hsize).mp h.returned
        exact fun b hb => ⟨hsize b hb, hzero b hb⟩
      · intro h
        have hsize : ∀ b ∈ sslCliConn.blocks reads, b.length < sslCliConn.maxLen :=
          fun b hb => (h b hb).1
        constructor
        · exact (sslCliConn.recvStr_returned_iff hsize).mpr fun b hb => (h b hb).2
        · exact (sslCliConn.recvStr_inside_iff reads buf_).mpr hsize
        · intro n hn
          rw [Call.run, sslCliConn.recvStr_lengths] at hn
          cases hn

/-- A block that fills the array. -/
theorem full_size : 0 < (List.replicate sslCliConn.maxLen (0x61 : UInt8)).length ∧
    (List.replicate sslCliConn.maxLen (0x61 : UInt8)).length ≤ sslCliConn.maxLen := by
  rw [List.length_replicate]
  exact ⟨by decide, Nat.le_refl _⟩

/-- A failed `recv`, a block with a zero byte, and a full block. -/
theorem recvStr_of_unclean_results :
    (¬ (Call.remote [⟨none, false, by simp⟩]).Exact ∧
      (Call.remote [⟨none, false, by simp⟩]).run.lengths = [-1]) ∧
    (¬ (Call.sslCliConn [] [.block [0x61, 0x00, 0x62] (by decide)]).Exact ∧
      (Call.sslCliConn [] [.block [0x61, 0x00, 0x62] (by decide)]).run.ending =
        .returned [0x61]) ∧
    ¬ (Call.sslCliConn [] [.block (List.replicate sslCliConn.maxLen 0x61) full_size]).Exact := by
  refine ⟨⟨?_, by decide⟩, ⟨?_, by decide⟩, ?_⟩
  · rw [recvStr_exact_iff]
    intro hclean
    exact hclean _ List.mem_cons_self rfl
  · rw [recvStr_exact_iff]
    intro hclean
    exact absurd (hclean [0x61, 0x00, 0x62] (by decide)).2 (by decide)
  · rw [recvStr_exact_iff]
    intro hclean
    have hlt := (hclean _ List.mem_cons_self).1
    rw [List.length_replicate] at hlt
    exact absurd hlt (Nat.lt_irrefl _)

end KappaGateway.RecvStr

import Mathlib.Data.List.GetD
import Mathlib.Data.List.SplitBy
import KappaGateway.Sbl.FlashFaults

/-!
# What a successful transfer has verified

`mtSend` may have any outcome: it fails, or returns a response with any status,
address and data. The calls are recorded together with what the buffer for read
responses held before them, since a failed read leaves that to the comparison.
-/

namespace KappaGateway.SerialBootload

open Loop

/-! ### The calls of `mtSend` -/

/-- A call: the request, the response if there was one, and the data of the last
read response before it. -/
structure Exchange where
  req : MtReq
  rsp : Option MtRsp
  leftover : Block

/-- The calls so far, and the data of the last read response. -/
structure Observed where
  log : List Exchange
  rdData : Block

namespace Exchange

def isWrite (e : Exchange) : Bool :=
  match e.req with
  | .write _ _ _ => true
  | .read _ _ => false

/-- The word address of the request. -/
def addr (e : Exchange) : UInt16 :=
  match e.req with
  | .write low high _ | .read low high => wordAddr low high

/-- The data of the last read response after it. -/
def rdData (e : Exchange) : Block :=
  match e.req, e.rsp with
  | .write _ _ _, _ | .read _ _, none => e.leftover
  | .read _ _, some r => r.data

/-- The data that `sb_image_write` compares with the chunk afterwards, if it does. -/
def compared (e : Exchange) : Option Block :=
  match e.req, e.rsp with
  | .write _ _ _, _ => none
  | .read _ _, none => some e.leftover
  | .read _ _, some r => if r.status = SB_SUCCESS then some r.data else none

/-- A successful read of the chunk at the address. -/
def ReadBack (addr : UInt16) (chunk : Block) (e : Exchange) : Prop :=
  e.isWrite = false ∧ e.addr = addr ∧
    ∃ r, e.rsp = some r ∧ r.status = SB_SUCCESS ∧ r.data = chunk

theorem ReadBack.compared {addr : UInt16} {chunk : Block} {e : Exchange}
    (h : ReadBack addr chunk e) : e.compared = some chunk := by
  obtain ⟨hread, -, r, hrsp, hstatus, rfl⟩ := h
  rcases e with ⟨_ | _, rsp, leftover⟩
  · simp [isWrite] at hread
  · obtain rfl : rsp = some r := hrsp
    simp [Exchange.compared, hstatus]

/-- A comparison that finds the chunk after a response is a successful read. -/
theorem readBack_of_compared {chunk : Block} {e : Exchange} (h : e.compared = some chunk)
    (hrsp : e.rsp ≠ none) : ReadBack e.addr chunk e := by
  rcases e with ⟨_ | _, _ | r, leftover⟩
  · simp [Exchange.compared] at h
  · simp [Exchange.compared] at h
  · simp at hrsp
  · simp only [Exchange.compared, Option.ite_none_right_eq_some, Option.some.injEq] at h
    exact ⟨rfl, rfl, r, rfl, h⟩

end Exchange

/-- `mtSend` with a sequence of outcomes. -/
def observed (outcome : Nat → Option MtRsp) : MtSend Observed := fun req w =>
  let e : Exchange := ⟨req, outcome w.log.length, w.rdData⟩
  (e.rsp, ⟨w.log ++ [e], e.rdData⟩)

/-- Consecutive chunks have different addresses: the exchanges of chunk `k` are
the `k`-th group of consecutive exchanges with the same address. -/
def chunkExchanges (log : List Exchange) (k : Nat) : List Exchange :=
  (log.splitBy fun d e => d.addr = e.addr).getD k []

/-- The write buffer before chunk `k`. A shorter last chunk does not overwrite
the end of it. -/
def wrBuf (buf : Block) (image : List UInt8) : Nat → Block
  | 0 => buf
  | k + 1 => fill (wrBuf buf image k) ((image.drop (SB_RW_BUF_LEN * k)).take SB_RW_BUF_LEN)

/-- The data that is sent as chunk `k`. -/
def sent (buf : Block) (image : List UInt8) (k : Nat) : Block := wrBuf buf image (k + 1)

def chunkCount (image : List UInt8) : Nat := (image.length + (SB_RW_BUF_LEN - 1)) / SB_RW_BUF_LEN

/-- There was a successful read of the chunk after its last write. -/
def Verified (addr : UInt16) (chunk : Block) (es : List Exchange) : Prop :=
  ∃ before e after, es = before ++ e :: after ∧ e.ReadBack addr chunk ∧
    ∀ d ∈ after, d.isWrite = false

/-- The last exchange is one after which the comparison finds the chunk. -/
def FoundAtEnd (chunk : Block) (es : List Exchange) : Prop :=
  ∃ e ∈ es.getLast?, e.compared = some chunk

/-- The last exchange had no response. -/
def LastFailed (es : List Exchange) : Prop := ∃ e ∈ es.getLast?, e.rsp = none

/-- Some comparison finds something else. -/
def Mismatch (chunk : Block) (es : List Exchange) : Prop :=
  ∃ e ∈ es, ∃ found ∈ e.compared, found ≠ chunk

instance (es : List Exchange) : Decidable (LastFailed es) :=
  inferInstanceAs (Decidable (∃ e ∈ es.getLast?, e.rsp = none))

instance (chunk : Block) (es : List Exchange) : Decidable (Mismatch chunk es) :=
  inferInstanceAs (Decidable (∃ e ∈ es, ∃ found ∈ e.compared, found ≠ chunk))

/-! ### The write buffer -/

theorem fill_getElem (buf : Block) (bytes : List UInt8) {i : Nat} (hi : i < SB_RW_BUF_LEN) :
    (fill buf bytes)[i] = bytes.getD i buf[i] := by
  simp [fill]

/-- A chunk that is full replaces the whole buffer. -/
theorem fill_of_full (buf buf' : Block) {bytes : List UInt8} (h : SB_RW_BUF_LEN ≤ bytes.length) :
    fill buf bytes = fill buf' bytes := by
  ext i hi
  have hlt : i < bytes.length := Nat.lt_of_lt_of_le hi h
  rw [fill_getElem buf bytes hi, fill_getElem buf' bytes hi]
  simp [List.getElem?_eq_getElem hlt]

/-- Once a full chunk was read, nothing is left of what was in the buffer. -/
theorem sent_of_full (buf buf' : Block) {file : List UInt8} (h : SB_RW_BUF_LEN ≤ file.length)
    (k : Nat) : sent buf file k = sent buf' file k := by
  induction k with
  | zero =>
      apply fill_of_full
      rw [Nat.mul_zero, List.drop_zero, List.length_take]
      exact Nat.le_min.mpr ⟨Nat.le_refl _, h⟩
  | succ k ih => exact congrArg (fill · _) ih

/-- A chunk that the file has whole. -/
theorem sent_eq_block (buf : Block) {image : List UInt8} {k : Nat}
    (h : SB_RW_BUF_LEN * (k + 1) ≤ image.length) : sent buf image k = block image k := by
  rw [Nat.mul_succ] at h
  ext i hi
  have hlt : SB_RW_BUF_LEN * k + i < image.length := by omega
  have hbyte : ((image.drop (SB_RW_BUF_LEN * k)).take SB_RW_BUF_LEN)[i]? =
      some image[SB_RW_BUF_LEN * k + i] := by
    rw [List.getElem?_take_of_lt hi, List.getElem?_drop, List.getElem?_eq_getElem hlt]
  rw [sent, wrBuf, fill_getElem _ _ hi, block_getElem image k hi, List.getD_eq_getElem?_getD,
    hbyte, List.getD_eq_getElem?_getD, List.getElem?_eq_getElem hlt]
  rfl

/-! ### Groups of exchanges -/

section

variable {log es : List Exchange} {addr : UInt16}

theorem splitBy_append_exchanges (hlog : ∀ e ∈ log.getLast?, e.addr ≠ addr)
    (hes : ∀ e ∈ es, e.addr = addr) (hne : es ≠ []) :
    (log ++ es).splitBy (fun d e => d.addr = e.addr) =
      log.splitBy (fun d e => d.addr = e.addr) ++ [es] := by
  have hsplit : ∀ d ∈ log.getLast?, ∀ e ∈ es.head?, decide (d.addr = e.addr) = false := by
    intro d hd e he
    have haddr := hes e (List.mem_of_mem_head? he)
    simpa [haddr] using hlog d hd
  have hchain : es.IsChain fun d e => decide (d.addr = e.addr) = true := by
    apply List.Pairwise.isChain
    apply List.pairwise_of_forall_mem_list
    intro d hd e he
    simp [hes d hd, hes e he]
  rw [List.splitBy_append hsplit, List.splitBy_of_isChain hne hchain]

/-- New exchanges with a new address are those of the next chunk. -/
theorem chunkExchanges_append {k : Nat}
    (hlength : (log.splitBy fun d e => d.addr = e.addr).length = k)
    (hlog : ∀ e ∈ log.getLast?, e.addr ≠ addr) (hes : ∀ e ∈ es, e.addr = addr) :
    chunkExchanges (log ++ es) k = es ∧
      ∀ i < k, chunkExchanges (log ++ es) i = chunkExchanges log i := by
  by_cases hne : es = []
  · subst hne
    refine ⟨?_, fun i _ => by rw [List.append_nil]⟩
    rw [List.append_nil, chunkExchanges, List.getD_eq_default _ _ (Nat.le_of_eq hlength)]
  · rw [chunkExchanges, splitBy_append_exchanges hlog hes hne]
    refine ⟨?_, fun i hi => ?_⟩
    · rw [← hlength]
      simp
    · rw [chunkExchanges, splitBy_append_exchanges hlog hes hne, chunkExchanges]
      exact List.getD_append _ _ _ _ (hlength ▸ hi)

end

/-! ### The transfer of one chunk -/

/-- The state after some exchanges in the transfer of the chunk that began with
the first state, in round `n`. -/
structure Transfer (s₀ : Vars Observed) (n : Nat) (es : List Exchange) (s : Vars Observed) :
    Prop where
  rwRetry : s.rwRetry = n
  log : s.world.log = s₀.world.log ++ es
  data : s.rdRsp.data = s.world.rdData
  file : s.file = s₀.file
  fileBufLen : s.fileBufLen = s₀.fileBufLen
  addr : s.addr = s₀.addr
  wrReq : s.wrReq = s₀.wrReq
  here : ∀ e ∈ es, e.addr = s₀.addr
  rtnval : s.rtnval = 0 ↔ s₀.rtnval = 0 ∧ ¬ Mismatch s₀.wrReq es

/-- No comparison has found the chunk. -/
def Pending (s₀ : Vars Observed) (n : Nat) (s : Vars Observed) : Prop :=
  ∃ es, Transfer s₀ n es s ∧ s.readbackStatus ≠ 0 ∧ ∀ e ∈ es, e.compared ≠ some s₀.wrReq

/-- The last comparison, and no other, has found the chunk. -/
def Finished (s₀ : Vars Observed) (n : Nat) (s : Vars Observed) : Prop :=
  ∃ es e, Transfer s₀ n (es ++ [e]) s ∧ s.readbackStatus = 0 ∧ e.compared = some s₀.wrReq ∧
    ∀ d ∈ es, d.compared ≠ some s₀.wrReq

theorem mismatch_append {chunk : Block} {es : List Exchange} {e : Exchange} :
    Mismatch chunk (es ++ [e]) ↔ Mismatch chunk es ∨ ∃ found ∈ e.compared, found ≠ chunk := by
  simp only [Mismatch, List.mem_append, List.mem_singleton, or_and_right, exists_or,
    exists_eq_left]

section

variable {outcome : Nat → Option MtRsp} {s₀ s : Vars Observed} {n : Nat}
  {es : List Exchange}

theorem Pending.unfound (h : Pending s₀ n s) : s.readbackStatus ≠ 0 := by
  obtain ⟨-, -, hread, -⟩ := h
  exact hread

theorem Finished.found (h : Finished s₀ n s) : s.readbackStatus = 0 := by
  obtain ⟨-, -, -, hread, -⟩ := h
  exact hread

theorem Pending.rwRetry (h : Pending s₀ n s) : s.rwRetry = n := by
  obtain ⟨_, hs, -⟩ := h
  exact hs.rwRetry

/-- One more exchange. -/
theorem Transfer.append (h : Transfer s₀ n es s) {e : Exchange} {t : Vars Observed}
    (hlog : t.world.log = s.world.log ++ [e]) (hdata : t.rdRsp.data = t.world.rdData)
    (hframe : t.rwRetry = s.rwRetry ∧ t.file = s.file ∧ t.fileBufLen = s.fileBufLen ∧
      t.addr = s.addr ∧ t.wrReq = s.wrReq)
    (haddr : e.addr = s.addr)
    (hrtnval : t.rtnval = 0 ↔ s.rtnval = 0 ∧ ∀ found ∈ e.compared, found = s₀.wrReq) :
    Transfer s₀ n (es ++ [e]) t := by
  obtain ⟨hretry, hfile, hlen, haddr', hwrReq⟩ := hframe
  refine ⟨hretry.trans h.rwRetry, ?_, hdata, hfile.trans h.file, hlen.trans h.fileBufLen,
    haddr'.trans h.addr, hwrReq.trans h.wrReq, ?_, ?_⟩
  · rw [hlog, h.log, List.append_assoc]
  · intro d hd
    rcases List.mem_append.mp hd with hd | hd
    · exact h.here d hd
    · rw [List.mem_singleton.mp hd, haddr, h.addr]
  · rw [hrtnval, h.rtnval, mismatch_append]
    push Not
    exact and_assoc

theorem Pending.append {e : Exchange} (h : Transfer s₀ n (es ++ [e]) s)
    (hes : ∀ d ∈ es, d.compared ≠ some s₀.wrReq) (hread : s.readbackStatus ≠ 0)
    (hcompared : e.compared ≠ some s₀.wrReq) : Pending s₀ n s := by
  refine ⟨es ++ [e], h, hread, ?_⟩
  intro d hd
  rcases List.mem_append.mp hd with hd | hd
  · exact hes d hd
  · rwa [List.mem_singleton.mp hd]

/-- A write changes nothing else than the world and its own variables. -/
theorem writeRound_goesOn {W : Type*} (mtSend : MtSend W) (s : Vars W) :
    ∃ returnStatus wrRetry, writeRound mtSend s = .goesOn { s with
      world := (mtSend (.write (addrLow s.addr) (addrHigh s.addr) s.wrReq) s.world).2
      returnStatus
      wrRetry } := by
  rw [writeRound]
  rcases mtSend (.write (addrLow s.addr) (addrHigh s.addr) s.wrReq) s.world with ⟨_ | r, world⟩
  · exact ⟨_, _, rfl⟩
  · exact ⟨_, _, rfl⟩

theorem Pending.writeRound (h : Pending s₀ n s) :
    ∃ t, writeRound (observed outcome) s = .goesOn t ∧ Pending s₀ n t ∧
      t.rdRetry = s.rdRetry := by
  obtain ⟨es, hs, hread, hes⟩ := h
  obtain ⟨returnStatus, wrRetry, hround⟩ := writeRound_goesOn (observed outcome) s
  let e : Exchange := ⟨.write (addrLow s.addr) (addrHigh s.addr) s.wrReq,
    outcome s.world.log.length, s.world.rdData⟩
  have hcompared : e.compared = none := rfl
  refine ⟨_, hround, Pending.append (e := e) (hs.append rfl hs.data ⟨rfl, rfl, rfl, rfl, rfl⟩
    (wordAddr_split _) ?_) hes hread ?_, rfl⟩
  · simp [hcompared]
  · simp [hcompared]

/-- The comparison after a read whose data is in the buffer. -/
theorem Transfer.compareBack (h : Transfer s₀ n es s) (e : Exchange) (rdRsp : MtRsp)
    (world : Observed) (hes : ∀ d ∈ es, d.compared ≠ some s₀.wrReq) (hread : s.readbackStatus ≠ 0)
    (haddr : e.addr = s.addr) (hlog : world.log = s.world.log ++ [e])
    (hdata : rdRsp.data = world.rdData)
    (hcompared : e.compared = some rdRsp.data) :
    (∃ t, compareBack { s with world, rdRsp } = .goesOn t ∧ Finished s₀ n t) ∨
      ∃ t, compareBack { s with world, rdRsp } = .breaks t ∧ Pending s₀ n t := by
  rw [SerialBootload.compareBack]
  by_cases heq : s.wrReq = rdRsp.data
  · refine Or.inl ⟨_, if_neg (not_not.mpr heq), es, e,
      h.append hlog hdata ⟨rfl, rfl, rfl, rfl, rfl⟩ haddr ?_, rfl, ?_, hes⟩
    · simp [hcompared, ← heq, h.wrReq]
    · rw [hcompared, ← heq, h.wrReq]
  · have hne : rdRsp.data ≠ s₀.wrReq := fun hsame => heq (h.wrReq.trans hsame.symm)
    refine Or.inr ⟨_, if_pos heq, Pending.append (e := e)
      (h.append hlog hdata ⟨rfl, rfl, rfl, rfl, rfl⟩ haddr ?_) hes hread ?_⟩
    · simp [hcompared, hne]
    · simp [hcompared, hne]

/-- A read finds the chunk, finds something else, or is repeated. -/
theorem Pending.readRound (h : Pending s₀ n s) :
    (∃ t, readRound (observed outcome) s = .goesOn t ∧ Finished s₀ n t) ∨
      (∃ t, readRound (observed outcome) s = .breaks t ∧ Pending s₀ n t) ∨
        ∃ t, readRound (observed outcome) s = .goesOn t ∧ Pending s₀ n t ∧
          t.rdRetry = s.rdRetry + 1 := by
  obtain ⟨es, hs, hread, hes⟩ := h
  simp only [SerialBootload.readRound, observed]
  cases outcome s.world.log.length with
  | none =>
      let e : Exchange := ⟨.read (addrLow s.addr) (addrHigh s.addr), none, s.world.rdData⟩
      have hcompare := hs.compareBack e s.rdRsp ⟨s.world.log ++ [e], s.world.rdData⟩ hes hread
        (wordAddr_split _) rfl hs.data (congrArg some hs.data.symm)
      rcases hcompare with hfinished | hmismatch
      · exact Or.inl hfinished
      · exact Or.inr (Or.inl hmismatch)
  | some r =>
      let e : Exchange := ⟨.read (addrLow s.addr) (addrHigh s.addr), some r, s.world.rdData⟩
      by_cases hstatus : r.status = SB_SUCCESS
      · have hcompare := hs.compareBack e r ⟨s.world.log ++ [e], r.data⟩ hes hread
          (wordAddr_split _) rfl rfl (if_pos hstatus)
        simp only [if_neg (not_not.mpr hstatus)]
        rcases hcompare with hfinished | hmismatch
        · exact Or.inl hfinished
        · exact Or.inr (Or.inl hmismatch)
      · have hnone : e.compared = none := if_neg hstatus
        simp only [if_pos hstatus]
        refine Or.inr (Or.inr ⟨_, rfl, Pending.append (e := e) (hs.append rfl rfl
          ⟨rfl, rfl, rfl, rfl, rfl⟩ (wordAddr_split _) ?_) hes hread ?_, rfl⟩)
        · simp [hnone]
        · simp [hnone]

theorem Pending.next (h : Pending s₀ n s) :
    Pending s₀ (n + 1) { s with rwRetry := s.rwRetry + 1 } := by
  obtain ⟨es, hs, hread, hes⟩ := h
  exact ⟨es, { hs with rwRetry := congrArg (· + 1) hs.rwRetry }, hread, hes⟩

theorem Finished.next (h : Finished s₀ n s) :
    Finished s₀ (n + 1) { s with rwRetry := s.rwRetry + 1 } := by
  obtain ⟨es, e, hs, hread, he, hes⟩ := h
  exact ⟨es, e, { hs with rwRetry := congrArg (· + 1) hs.rwRetry }, hread, he, hes⟩

/-- The loop that reads ends. -/
theorem Pending.loop_read (h : Pending s₀ n s) {fuel : Nat} (hfuel : 3 - s.rdRetry < fuel) :
    ∃ t, loop Unread (SerialBootload.readRound (observed outcome)) fuel s = .goesOn t ∧
      (Pending s₀ n t ∨ Finished s₀ n t) := by
  let left (s : Vars Observed) : Nat := if s.readbackStatus = 0 then 0 else 3 - s.rdRetry
  have hbody : ∀ s, Pending s₀ n s ∨ Finished s₀ n s → Unread s →
      (∃ t, SerialBootload.readRound (observed outcome) s = .goesOn t ∧
        (Pending s₀ n t ∨ Finished s₀ n t) ∧ left t < left s) ∨
      (∃ t, SerialBootload.readRound (observed outcome) s = .breaks t ∧
        (Pending s₀ n t ∨ Finished s₀ n t)) ∨
      ∃ t, SerialBootload.readRound (observed outcome) s = .runs t ∧ False := by
    rintro s (hs | hs) hunread
    · have hleft : left s = 3 - s.rdRetry := if_neg hunread.1
      have hretry := hunread.2
      obtain ⟨t, ht, hfinished⟩ | ⟨t, ht, hpending⟩ | ⟨t, ht, hpending, hnext⟩ :=
        hs.readRound
      · have hzero : left t = 0 := if_pos hfinished.found
        exact Or.inl ⟨t, ht, Or.inr hfinished, by omega⟩
      · exact Or.inr (Or.inl ⟨t, ht, Or.inl hpending⟩)
      · have hsmaller : left t = 3 - t.rdRetry := if_neg hpending.unfound
        exact Or.inl ⟨t, ht, Or.inl hpending, by omega⟩
    · exact absurd hs.found hunread.1
  have hleft : left s = 3 - s.rdRetry := if_neg h.unfound
  obtain hends | ⟨-, -, hfalse⟩ := loop_ends left (fun s hs _ => hs) hbody (Or.inl h)
    (hleft ▸ hfuel)
  · exact hends
  · exact hfalse.elim

/-- A round of writing and reading, unless it is still writing. -/
theorem Pending.verifyRound (h : Pending s₀ n s) {fuel : Nat} (hfuel : 3 < fuel) :
    (∃ t, verifyRound (observed outcome) fuel s = .goesOn t ∧
      (Pending s₀ (n + 1) t ∨ Finished s₀ (n + 1) t)) ∨
      ∃ t, verifyRound (observed outcome) fuel s = .runs t ∧ Pending s₀ n t := by
  have hreset : Pending s₀ n { s with wrRetry := 0, rdRetry := 0 } := by
    obtain ⟨es, hs, hes⟩ := h
    exact ⟨es, { hs with }, hes⟩
  have hbody : ∀ s, Pending s₀ n s ∧ s.rdRetry = 0 → Unwritten s →
      ∃ t, SerialBootload.writeRound (observed outcome) s = .goesOn t ∧
        Pending s₀ n t ∧ t.rdRetry = 0 := by
    rintro s ⟨hs, hretry⟩ -
    obtain ⟨t, ht, hpending, hsame⟩ := hs.writeRound
    exact ⟨t, ht, hpending, hsame.trans hretry⟩
  obtain ⟨t, ht | ht, hpending, hretry⟩ := loop_invariant hbody fuel ⟨hreset, rfl⟩
  · rw [SerialBootload.verifyRound, ht, Flow.goesOn_andThen]
    split
    · exact Or.inl ⟨_, rfl, Or.inl hpending.next⟩
    · have hunread : Pending s₀ n { t with readbackStatus := -1 } := by
        obtain ⟨es, hs, -, hes⟩ := hpending
        exact ⟨es, { hs with }, show (-1 : Int) ≠ 0 by decide, hes⟩
      obtain ⟨u, hu, hresult⟩ := hunread.loop_read
        (show 3 - t.rdRetry < fuel by omega)
      rw [hu, Flow.goesOn_andThen]
      refine Or.inl ⟨_, rfl, ?_⟩
      rcases hresult with hpending | hfinished
      · exact Or.inl hpending.next
      · exact Or.inr hfinished.next
  · rw [SerialBootload.verifyRound, ht]
    exact Or.inr ⟨t, rfl, hpending⟩

/-- The transfer of a chunk ends, found or not, unless it is still writing. -/
theorem Pending.loop_verify (h : Pending s₀ n s) {fuel : Nat} (hfuel : 3 < fuel) :
    (∃ t, loop Unverified (SerialBootload.verifyRound (observed outcome) fuel) fuel s =
      .goesOn t ∧ ∃ n, Pending s₀ n t ∨ Finished s₀ n t) ∨
      ∃ t, loop Unverified (SerialBootload.verifyRound (observed outcome) fuel) fuel s =
        .runs t ∧ ∃ n, Pending s₀ n t := by
  let left (s : Vars Observed) : Nat := if s.readbackStatus = 0 then 0 else 3 - s.rwRetry
  have hbody : ∀ s, (∃ n, Pending s₀ n s ∨ Finished s₀ n s) → Unverified s →
      (∃ t, SerialBootload.verifyRound (observed outcome) fuel s = .goesOn t ∧
        (∃ n, Pending s₀ n t ∨ Finished s₀ n t) ∧ left t < left s) ∨
      (∃ t, SerialBootload.verifyRound (observed outcome) fuel s = .breaks t ∧
        ∃ n, Pending s₀ n t ∨ Finished s₀ n t) ∨
      ∃ t, SerialBootload.verifyRound (observed outcome) fuel s = .runs t ∧
        ∃ n, Pending s₀ n t := by
    rintro s ⟨n, hs | hs⟩ hunverified
    · have hleft : left s = 3 - s.rwRetry := if_neg hunverified.1
      have hretry := hunverified.2
      have hround := hs.rwRetry
      obtain ⟨t, ht, hpending | hfinished⟩ | ⟨t, ht, hpending⟩ :=
        hs.verifyRound hfuel
      · have hsmaller : left t = 3 - t.rwRetry := if_neg hpending.unfound
        have hnext := hpending.rwRetry
        exact Or.inl ⟨t, ht, ⟨n + 1, Or.inl hpending⟩, by omega⟩
      · have hzero : left t = 0 := if_pos hfinished.found
        exact Or.inl ⟨t, ht, ⟨n + 1, Or.inr hfinished⟩, by omega⟩
      · exact Or.inr (Or.inr ⟨t, ht, n, hpending⟩)
    · exact absurd hs.found hunverified.1
  have hleft : left s ≤ 3 := by
    have hcases : left s = if s.readbackStatus = 0 then 0 else 3 - s.rwRetry := rfl
    split at hcases <;> omega
  exact loop_ends left (fun s hs _ => hs) hbody ⟨n, Or.inl h⟩ (Nat.lt_of_le_of_lt hleft hfuel)

theorem readChunk_pos {W : Type*} {s : Vars W} (hfile : s.file ≠ []) :
    0 < (readChunk s).fileBufLen := by
  have hpos := List.length_pos_of_ne_nil hfile
  simp only [readChunk, List.length_take]
  exact Nat.lt_min.mpr ⟨by decide, hpos⟩

variable (outcome) in
/-- A round of the loop over the file, when a chunk is left. -/
theorem chunkRound_ends {fuel : Nat} (hfuel : 3 < fuel) (hdata : s.rdRsp.data = s.world.rdData)
    (hfile : s.file ≠ []) :
    (∃ t n, chunkRound (observed outcome) fuel s = .goesOn { t with addr := t.addr + 16 } ∧
      Finished (readChunk s) n t) ∨
    ∃ t n, (chunkRound (observed outcome) fuel s = .exits t ∨
      chunkRound (observed outcome) fuel s = .runs t) ∧ Pending (readChunk s) n t := by
  have hlen := readChunk_pos hfile
  have hstart : Pending (readChunk s) 0 (readChunk s) := by
    refine ⟨[], ⟨rfl, (List.append_nil _).symm, hdata, rfl, rfl, rfl, rfl, by simp, ?_⟩,
      show (-1 : Int) ≠ 0 by decide, by simp⟩
    simp [Mismatch]
  rw [chunkRound, if_pos hlen]
  obtain ⟨t, ht, n, hpending | hfinished⟩ | ⟨t, ht, n, hpending⟩ :=
    hstart.loop_verify hfuel
  · rw [ht, Flow.goesOn_andThen, if_pos hpending.unfound]
    exact Or.inr ⟨t, n, Or.inl rfl, hpending⟩
  · rw [ht, Flow.goesOn_andThen, if_neg (not_not.mpr hfinished.found)]
    exact Or.inl ⟨t, n, rfl, hfinished⟩
  · rw [ht]
    exact Or.inr ⟨t, n, Or.inr rfl, hpending⟩

end

/-! ### The whole transfer -/

/-- The exchanges of a chunk that the program goes on from. -/
def Ended (addr : UInt16) (chunk : Block) (es : List Exchange) : Prop :=
  ∃ before e, es = before ++ [e] ∧ e.addr = addr ∧ e.compared = some chunk ∧
    ∀ d ∈ before, d.compared ≠ some chunk

theorem Ended.foundAtEnd {addr : UInt16} {chunk : Block} {es : List Exchange}
    (h : Ended addr chunk es) : FoundAtEnd chunk es := by
  obtain ⟨before, e, rfl, -, he, -⟩ := h
  exact ⟨e, by simp, he⟩

/-- The only exchange that may verify such a chunk is the last. -/
theorem Ended.verified_iff {addr : UInt16} {chunk : Block} {es : List Exchange}
    (h : Ended addr chunk es) : Verified addr chunk es ↔ ¬ LastFailed es := by
  obtain ⟨before, e, rfl, haddr, he, hbefore⟩ := h
  have hlast : LastFailed (before ++ [e]) ↔ e.rsp = none := by simp [LastFailed]
  rw [hlast]
  constructor
  · rintro ⟨before', d, after, heq, hd, -⟩ hnone
    have hmem : d ∈ before ++ [e] := heq ▸ by simp
    rcases List.mem_append.mp hmem with hmem | hmem
    · exact hbefore d hmem hd.compared
    · obtain rfl := List.mem_singleton.mp hmem
      obtain ⟨-, -, r, hrsp, -⟩ := hd
      rw [hrsp] at hnone
      cases hnone
  · intro hrsp
    exact ⟨before, e, [], rfl, haddr ▸ Exchange.readBack_of_compared he hrsp, by simp⟩

/-- The state before chunk `k`. -/
structure Reached (buf : Block) (image : List UInt8) (k : Nat) (s : Vars Observed) : Prop where
  data : s.rdRsp.data = s.world.rdData
  file : s.file = image.drop (SB_RW_BUF_LEN * k)
  addr : s.addr = chunkAddr k
  wrReq : s.wrReq = wrBuf buf image k
  split : (s.world.log.splitBy fun d e => d.addr = e.addr).length = k
  last : ∀ e ∈ s.world.log.getLast?, e.addr ≠ s.addr
  ended : ∀ i < k, Ended (chunkAddr i) (sent buf image i) (chunkExchanges s.world.log i)
  rtnval : s.rtnval = 0 ↔ ∀ i < k, ¬ Mismatch (sent buf image i) (chunkExchanges s.world.log i)

section

variable {outcome : Nat → Option MtRsp} {buf : Block} {image : List UInt8} {k fuel : Nat}
  {s : Vars Observed}

theorem lt_chunkCount : k < chunkCount image ↔ image.drop (SB_RW_BUF_LEN * k) ≠ [] := by
  rw [Ne, List.drop_eq_nil_iff, chunkCount, Nat.lt_div_iff_mul_lt (by decide)]
  simp only [SB_RW_BUF_LEN]
  omega

theorem Reached.sent_eq (h : Reached buf image k s) : (readChunk s).wrReq = sent buf image k := by
  simp only [readChunk, h.file, h.wrReq]
  rfl

theorem addr_ne_next (a : UInt16) : a ≠ a + 16 := by simp

/-- A chunk that is found leads to the next one. -/
theorem Reached.next (h : Reached buf image k s) {n : Nat} {t : Vars Observed}
    (ht : Finished (readChunk s) n t) :
    Reached buf image (k + 1) { t with addr := t.addr + 16 } := by
  obtain ⟨es, e, ht, -, he, hes⟩ := ht
  have hhere : ∀ d ∈ es ++ [e], d.addr = s.addr := ht.here
  have hlog : t.world.log = s.world.log ++ (es ++ [e]) := ht.log
  obtain ⟨hnew, hold⟩ := chunkExchanges_append h.split h.last hhere
  rw [← hlog] at hnew hold
  have hchunk : (readChunk s).wrReq = sent buf image k := h.sent_eq
  refine ⟨ht.data, ?_, ?_, ?_, ?_, ?_, ?_, ?_⟩
  · rw [ht.file]
    simp only [readChunk, h.file, List.drop_drop, Nat.mul_succ]
  · show t.addr + 16 = chunkAddr (k + 1)
    rw [ht.addr, ← chunkAddr_succ, ← h.addr]
    rfl
  · exact ht.wrReq.trans hchunk
  · show (t.world.log.splitBy fun d e => d.addr = e.addr).length = k + 1
    rw [hlog, splitBy_append_exchanges h.last hhere (by simp), List.length_append, h.split]
    rfl
  · intro d hd
    have hde : d = e := by simpa [hlog] using hd.symm
    rw [hde, hhere e (by simp), ht.addr]
    exact addr_ne_next s.addr
  · rw [Nat.forall_lt_succ_right]
    refine ⟨fun i hi => ?_, es, e, hnew, ?_, ?_, ?_⟩
    · rw [hold i hi]
      exact h.ended i hi
    · rw [hhere e (by simp), h.addr]
    · rw [he, hchunk]
    · rwa [← hchunk]
  · rw [Nat.forall_lt_succ_right, hnew, ← hchunk]
    refine ht.rtnval.trans (and_congr_left fun _ => h.rtnval.trans ?_)
    apply forall₂_congr
    intro i hi
    rw [hold i hi]

variable (outcome) in
/-- The file is transferred, or the program ends or runs on in a chunk that no
comparison has found. -/
theorem Reached.run {left bound : Nat} (h : Reached buf image k s)
    (hleft : k + left = chunkCount image) (hfuel : 3 < fuel) (hbound : left < bound) :
    (∃ t u, doLoop (0 < ·.fileBufLen) (chunkRound (observed outcome) fuel) bound s = .goesOn t ∧
      Reached buf image (chunkCount image) u ∧ t.world = u.world ∧ t.rtnval = u.rtnval) ∨
    ∃ t, (doLoop (0 < ·.fileBufLen) (chunkRound (observed outcome) fuel) bound s = .exits t ∨
      doLoop (0 < ·.fileBufLen) (chunkRound (observed outcome) fuel) bound s = .runs t) ∧
      ∃ k < chunkCount image, ∀ e ∈ chunkExchanges t.world.log k,
        e.compared ≠ some (sent buf image k) := by
  induction left generalizing k s bound with
  | zero =>
      obtain ⟨bound, rfl⟩ : ∃ b, bound = b + 1 := ⟨bound - 1, by omega⟩
      have hend : s.file = [] := by
        rw [h.file]
        by_contra hfile
        have hlt := lt_chunkCount.mpr hfile
        omega
      obtain ⟨t, hround, hworld, hlen, hrtn⟩ := chunkRound_end (observed outcome) fuel hend
      refine Or.inl ⟨t, s, doLoop_done hround (by rw [hlen]; exact Nat.lt_irrefl 0), ?_, hworld,
        hrtn⟩
      rwa [← hleft]
  | succ left ih =>
      obtain ⟨bound, rfl⟩ : ∃ b, bound = b + 1 := ⟨bound - 1, by omega⟩
      have hk : k < chunkCount image := by omega
      have hfile : s.file ≠ [] := by
        rw [h.file]
        exact lt_chunkCount.mp hk
      obtain ⟨t, n, hround, hfinished⟩ | ⟨t, n, hround, hpending⟩ :=
        chunkRound_ends outcome hfuel h.data hfile
      · have hlen : 0 < t.fileBufLen := by
          obtain ⟨es, e, ht, -⟩ := hfinished
          rw [ht.fileBufLen]
          exact readChunk_pos hfile
        rw [doLoop_goesOn hround hlen]
        exact ih (h.next hfinished) (by omega) (by omega)
      · right
        refine ⟨t, ?_, k, hk, ?_⟩
        · rcases hround with hround | hround
          · exact Or.inl (doLoop_exits hround)
          · exact Or.inr (doLoop_runs hround)
        · obtain ⟨es, ht, -, hes⟩ := hpending
          have hlog : t.world.log = s.world.log ++ es := ht.log
          rw [hlog, (chunkExchanges_append h.split h.last ht.here).1, ← h.sent_eq]
          exact hes

end

/-- A run of `sb_image_write` with the outcomes of `mtSend`. -/
def flash (outcome : Nat → Option MtRsp) (fuel : Nat) (image : List UInt8)
    (stack : Vars Observed) : Flow (Vars Observed) :=
  sb_image_write (observed outcome) fuel (some image)
    { stack with world := ⟨[], stack.rdRsp.data⟩ }

/-- It returns 0. -/
def Succeeds (run : Flow (Vars Observed)) : Prop := ∃ t, run = .goesOn t ∧ t.rtnval = 0

instance : (run : Flow (Vars Observed)) → Decidable (Succeeds run)
  | .goesOn t => decidable_of_iff (t.rtnval = 0) (by simp [Succeeds])
  | .breaks _ | .exits _ | .runs _ => isFalse (by simp [Succeeds])

/-- Every chunk was read back after its last write. -/
def AllVerified (buf : Block) (image : List UInt8) (log : List Exchange) : Prop :=
  ∀ k < chunkCount image, Verified (chunkAddr k) (sent buf image k) (chunkExchanges log k)

/-- If every chunk is in the buffer after its last exchange, then the last
exchange of some chunk has failed exactly if some comparison has. -/
def FaultsCancel (buf : Block) (image : List UInt8) (log : List Exchange) : Prop :=
  (∀ k < chunkCount image, FoundAtEnd (sent buf image k) (chunkExchanges log k)) →
    ((∃ k < chunkCount image, LastFailed (chunkExchanges log k)) ↔
      ∃ k < chunkCount image, Mismatch (sent buf image k) (chunkExchanges log k))

theorem reached_start (image : List UInt8) (stack : Vars Observed) :
    Reached stack.wrReq image 0 { stack with
      world := ⟨[], stack.rdRsp.data⟩
      file := image
      addr := 0
      rtnval := 0 } :=
  ⟨rfl, rfl, rfl, rfl, rfl, by simp, by simp, by simp⟩

/-- For any image and any outcomes, as far as the run goes: success means that
every chunk was verified exactly if the faults cancel out. -/
theorem flash_verified (outcome : Nat → Option MtRsp) (image : List UInt8) (stack : Vars Observed)
    {fuel : Nat} (hfuel : image.length + 3 < fuel) :
    (Succeeds (flash outcome fuel image stack) ↔
      AllVerified stack.wrReq image (flash outcome fuel image stack).vars.world.log) ↔
      FaultsCancel stack.wrReq image (flash outcome fuel image stack).vars.world.log := by
  have hcount : chunkCount image < fuel := by
    simp only [chunkCount, SB_RW_BUF_LEN]
    omega
  obtain ⟨t, u, hrun, hreached, hworld, hrtn⟩ | ⟨t, hrun, k, hk, hnone⟩ :=
    (reached_start image stack).run outcome (Nat.zero_add _)
      (show 3 < fuel by omega) hcount
  · have hresult : flash outcome fuel image stack = .goesOn t := hrun
    have hsucceeds : Succeeds (flash outcome fuel image stack) ↔ ¬ ∃ k < chunkCount image,
        Mismatch (sent stack.wrReq image k) (chunkExchanges u.world.log k) := by
      push Not
      rw [← hreached.rtnval, ← hrtn, hresult, Succeeds]
      simp
    have hverified : AllVerified stack.wrReq image u.world.log ↔
        ¬ ∃ k < chunkCount image, LastFailed (chunkExchanges u.world.log k) := by
      push Not
      exact forall₂_congr fun k hk => (hreached.ended k hk).verified_iff
    have hfound : ∀ k < chunkCount image,
        FoundAtEnd (sent stack.wrReq image k) (chunkExchanges u.world.log k) :=
      fun k hk => (hreached.ended k hk).foundAtEnd
    have hlog : (flash outcome fuel image stack).vars.world.log = u.world.log := by
      rw [hresult, ← hworld]
      rfl
    rw [hlog, hsucceeds, hverified, FaultsCancel, not_iff_not, imp_iff_right hfound]
    exact Iff.comm
  · have hlog : (flash outcome fuel image stack).vars.world.log = t.world.log ∧
        ¬ Succeeds (flash outcome fuel image stack) := by
      rcases hrun with hrun | hrun
      · have hresult : flash outcome fuel image stack = .exits t := hrun
        simp [hresult, Flow.vars, Succeeds]
      · have hresult : flash outcome fuel image stack = .runs t := hrun
        simp [hresult, Flow.vars, Succeeds]
    have hunverified : ¬ AllVerified stack.wrReq image t.world.log := by
      intro hall
      obtain ⟨before, e, after, heq, he, -⟩ := hall k hk
      exact hnone e (by simp [heq]) he.compared
    have hfaults : FaultsCancel stack.wrReq image t.world.log := by
      intro hfound
      obtain ⟨e, he, hcompared⟩ := hfound k hk
      exact absurd hcompared (hnone e (List.mem_of_getLast? he))
    rw [hlog.1]
    exact iff_of_true (iff_of_false hlog.2 hunverified) hfaults

/-! ### Failures that mislead -/

def zeros : Block := Vector.replicate SB_RW_BUF_LEN 0

/-- What may have been on the stack. -/
def zeroStack : Vars Observed :=
  ⟨⟨[], otherBlock⟩, [], 0, 0, 0, 0, 0, 0, 0, 0, otherBlock, ⟨0, 0, 0, otherBlock⟩⟩

def answer (status : UInt8) (data : Block) : Option MtRsp := some ⟨status, 0, 0, data⟩

/-- The outcomes of the first calls; the others fail. -/
def outcomes (first : List (Option MtRsp)) (i : Nat) : Option MtRsp := first.getD i none

/-- A write fails, one is refused, a read is refused. -/
def repeated : List (Option MtRsp) :=
  [none, answer 1 otherBlock, answer SB_SUCCESS otherBlock, answer 1 otherBlock,
    answer SB_SUCCESS zeros]

theorem flash_verified_repeated :
    Succeeds (flash (outcomes repeated) 68 zeros.toList zeroStack) ↔
      AllVerified zeroStack.wrReq zeros.toList
        (flash (outcomes repeated) 68 zeros.toList zeroStack).vars.world.log := by
  apply (flash_verified (outcomes repeated) zeros.toList zeroStack (by decide)).mpr
  intro _
  exact iff_of_false (by decide +kernel) (by decide +kernel)

/-- The second of two equal chunks is written, and reading it fails. -/
def lostRead : List (Option MtRsp) :=
  [answer SB_SUCCESS zeros, answer SB_SUCCESS zeros, answer SB_SUCCESS zeros, none]

/-- The first read returns something else, the second one the chunk. -/
def corruptedRead : List (Option MtRsp) :=
  [answer SB_SUCCESS zeros, answer SB_SUCCESS otherBlock, answer SB_SUCCESS zeros]

/-- A chunk that was never read back passes for verified because the one before
is the same; and a chunk that is verified in the second round counts as failed. -/
theorem flash_misled :
    (Succeeds (flash (outcomes lostRead) 200 (zeros.toList ++ zeros.toList) zeroStack) ∧
      ¬ AllVerified zeroStack.wrReq (zeros.toList ++ zeros.toList)
        (flash (outcomes lostRead) 200 (zeros.toList ++ zeros.toList) zeroStack).vars.world.log) ∧
    ¬ Succeeds (flash (outcomes corruptedRead) 200 zeros.toList zeroStack) ∧
      AllVerified zeroStack.wrReq zeros.toList
        (flash (outcomes corruptedRead) 200 zeros.toList zeroStack).vars.world.log := by
  refine ⟨⟨by decide +kernel, fun hall => ?_⟩, by decide +kernel, fun k hk => ?_⟩
  · have hfailed : ∀ e ∈ chunkExchanges (flash (outcomes lostRead) 200
        (zeros.toList ++ zeros.toList) zeroStack).vars.world.log 1,
        e.isWrite = true ∨ e.rsp = none := by decide +kernel
    obtain ⟨before, e, after, heq, ⟨hread, -, r, hrsp, -⟩, -⟩ := hall 1 (by decide +kernel)
    rcases hfailed e (by simp [heq]) with hwrite | hnone
    · rw [hread] at hwrite
      cases hwrite
    · rw [hrsp] at hnone
      cases hnone
  · have hlast : ∀ k < chunkCount zeros.toList,
        ∃ e ∈ (chunkExchanges (flash (outcomes corruptedRead) 200 zeros.toList
          zeroStack).vars.world.log k).getLast?,
        e.compared = some (sent zeroStack.wrReq zeros.toList k) ∧ e.rsp ≠ none ∧
          e.addr = chunkAddr k := by decide +kernel
    obtain ⟨e, he, hcompared, hrsp, haddr⟩ := hlast k hk
    exact ⟨_, e, [], (List.dropLast_append_getLast? e he).symm,
      haddr ▸ Exchange.readBack_of_compared hcompared hrsp, by simp⟩

end KappaGateway.SerialBootload

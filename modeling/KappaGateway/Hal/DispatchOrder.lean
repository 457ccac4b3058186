import KappaGateway.Hal.Assemblers

/-!
# The order in which frames are dispatched

Extraction under the lock follows the stream, and whoever sees bytes last looks
for a frame again, so that no frame stays behind. Between the release of the
lock and the call of `ProcessIncommingMessage` threads can overtake each other.
-/

namespace KappaGateway.Assemblers

open Mtproc Mtintf Transition

/-- A frame of the MT protocol with a good checksum. -/
def ValidFrame (f : List UInt8) : Prop :=
  WireFrame f ∧ xorBytes f.tail = 0 ∧ f.length ≤ MT_RPC_DATA_MAX + 5

/-- No byte is left to arrive, every call has started its thread, and every
thread has returned. -/
def Quiescent (s : State) : Prop :=
  s.line = [] ∧ s.starting = 0 ∧ ∀ i, s.threads i = .absent ∨ s.threads i = .returned

/-- The calls so far follow the stream, and in the end all frames were passed on. -/
def StreamOrder (frames : List (List UInt8)) (s : State) : Prop :=
  s.processed <+: frames.map List.tail ∧ (Quiescent s → s.processed = frames.map List.tail)

/-- The bytes fit into the ring. -/
def FitsRing (s : State) : Prop := s.serBuf.serBufInLen ≤ SERIAL_BUFFER_MAX

instance (s : State) : Decidable (FitsRing s) :=
  inferInstanceAs (Decidable (_ ≤ _))

/-- The thread that calls `ProcessIncommingMessage` holds the frame that was
extracted first of those not passed on yet. -/
def OldestFirst : State × Action × State → Prop
  | (s, .process i, _) => s.held.head?.map Prod.fst = some i
  | _ => True

instance (e : State × Action × State) : Decidable (OldestFirst e) := by
  obtain ⟨s, a, t⟩ := e
  cases a <;> dsimp only [OldestFirst] <;> infer_instance

/-- Every `Offset` is zero. -/
def Thread.AtFrame : Thread → Prop
  | .guard offset | .entering offset | .holding _ offset => offset = 0
  | .absent | .returned => True

/-- The thread will look at the ring again. -/
def Thread.live : Thread → Bool
  | .guard _ | .entering _ | .holding _ _ => true
  | .absent | .returned => false

/-- The frames are those passed on, those held, and those still in the ring or
on the line; a complete frame in the ring has somebody who will look for it. -/
structure Ordered (frames : List (List UInt8)) (s : State) : Prop where
  bounded : Bounded s.serBuf
  atFrame : ∀ i, (s.threads i).AtFrame
  stream : ∃ taken todo, frames = taken ++ todo ∧ unread s.serBuf ++ s.line = todo.flatten ∧
    taken.map List.tail = s.processed ++ s.held.map Prod.snd
  holders : ∀ i packet, (i, packet) ∈ s.held ↔ s.threads i = .holding packet 0
  distinct : (s.held.map Prod.fst).Nodup
  watched : assembleOnce s.serBuf 0 = none ∨ 0 < s.starting ∨ ∃ i, (s.threads i).live = true

theorem init_ordered (serBufIn : Nat → UInt8) (frames : List (List UInt8)) :
    Ordered frames (init serBufIn frames.flatten) where
  bounded := mtIntfInit_bounded serBufIn
  atFrame := fun _ => trivial
  stream := ⟨[], frames, rfl, by simp [init, unread, mtIntfInit], rfl⟩
  holders := by simp [init]
  distinct := List.nodup_nil
  watched := Or.inl (if_pos (show (0 : Int) < MIN_PACKET_LEN by decide))

variable {frames : List (List UInt8)} {s t : State}

/-- While a call receives, the ring only grows. -/
theorem receiving_len_le {s last : SerBuf} {dev : Driver} {tr : Trace}
    (h : Receiving s dev tr last) :
    s.serBufInLen ≤ last.serBufInLen ∧ ∀ e ∈ tr, e.2.2.serBufInLen ≤ last.serBufInLen := by
  induction h with
  | done => simp
  | @more s dev data dev' tr last hr hne rest ih =>
      have hgrow : s.serBufInLen ≤ (storeRead s data).serBufInLen := by
        simp only [storeRead]
        omega
      refine ⟨hgrow.trans ih.1, ?_⟩
      simpa using ih

theorem receive_unread (hs : Bounded s.serBuf) {dev : Driver}
    (hfit : (serialRcv s.serBuf dev).2.serBufInLen ≤ SERIAL_BUFFER_MAX) :
    unread (serialRcv s.serBuf dev).2 = unread s.serBuf ++ delivered dev := by
  have hrcv := serialRcv_receiving s.serBuf dev
  exact (hrcv.unread_eq hs fun e he => ((receiving_len_le hrcv).2 e he).trans hfit).1

theorem Ordered.receive (h : Ordered frames s) {dev : Driver} (hdev : delivered dev <+: s.line)
    (hfit : FitsRing (next s (.receive dev))) : Ordered frames (next s (.receive dev)) := by
  obtain ⟨taken, todo, hframes, hu, htaken⟩ := h.stream
  obtain ⟨rest, hrest⟩ := hdev
  refine ⟨Path.bounded (serialRcv_receiving s.serBuf dev).path h.bounded, h.atFrame,
    ⟨taken, todo, hframes, ?_, htaken⟩, h.holders, h.distinct,
    Or.inr (Or.inl (Nat.succ_pos _))⟩
  rw [next, receive_unread h.bounded hfit, ← hrest, List.drop_left, List.append_assoc, hrest, hu]

theorem Ordered.create (h : Ordered frames s) {i : Nat} (hi : s.threads i = .absent) :
    Ordered frames (next s (.create i)) := by
  refine ⟨h.bounded, fun k => ?_, h.stream, fun k packet => ?_, h.distinct,
    Or.inr (Or.inr ⟨i, by simp [next, State.goto, Thread.live]⟩)⟩
  · by_cases hk : k = i
    · simp [next, State.goto, hk, Thread.AtFrame]
    · simpa [next, State.goto, hk] using h.atFrame k
  · by_cases hk : k = i
    · simp [next, State.goto, hk, h.holders, hi]
    · simpa [next, State.goto, hk] using h.holders k packet

/-- A thread that holds no frame moves on without touching the ring. -/
theorem Ordered.goto (h : Ordered frames s) {i : Nat} {thread : Thread}
    (hi : ∀ packet, s.threads i ≠ .holding packet 0) (hat : thread.AtFrame)
    (hnew : ∀ packet, thread ≠ .holding packet 0)
    (hwatch : assembleOnce s.serBuf 0 = none ∨ thread.live = true) :
    Ordered frames (s.goto i thread) := by
  refine ⟨h.bounded, fun k => ?_, h.stream, fun k packet => ?_, h.distinct, ?_⟩
  · by_cases hk : k = i
    · simpa [State.goto, hk] using hat
    · simpa [State.goto, hk] using h.atFrame k
  · by_cases hk : k = i
    · simp [State.goto, hk, h.holders, hi, hnew]
    · simpa [State.goto, hk] using h.holders k packet
  · obtain hnone | hlive := hwatch
    · exact Or.inl hnone
    · exact Or.inr (Or.inr ⟨i, by simpa [State.goto] using hlive⟩)

theorem Ordered.test (h : Ordered frames s) {i offset : Nat}
    (hi : s.threads i = .guard offset) : Ordered frames (next s (.test i)) := by
  have hzero : offset = 0 := by
    simpa [hi, Thread.AtFrame] using h.atFrame i
  simp only [next, hi]
  split
  case isTrue =>
    exact h.goto (by simp [hi]) hzero (by simp) (Or.inr rfl)
  case isFalse hmin =>
    refine h.goto (by simp [hi]) trivial (by simp) (Or.inl ?_)
    exact if_pos (not_le.mp hmin)

theorem Ordered.extract (h : Ordered frames s) (hvalid : ∀ f ∈ frames, ValidFrame f)
    {i offset : Nat} (hi : s.threads i = .entering offset) :
    Ordered frames (next s (.extract i)) := by
  obtain rfl : offset = 0 := by
    simpa [hi, Thread.AtFrame] using h.atFrame i
  simp only [next, hi, lockedSection_eq]
  cases hex : assembleOnce s.serBuf 0 with
  | none => exact h.goto (by simp [hi]) trivial (by simp) (Or.inl hex)
  | some e =>
      obtain ⟨taken, todo, rfl, hu, htaken⟩ := h.stream
      have hwire : ∀ f ∈ todo, WireFrame f := fun f hf => (hvalid f (by simp [hf])).1
      obtain ⟨f, fs, rfl, hoff, hpacket, hafter, hbounded⟩ :=
        assembleOnce_stream h.bounded hex hwire hu
      have hfree : ∀ packet, (i, packet) ∉ s.held := by
        intro packet hmem
        simp [(h.holders i packet).mp hmem] at hi
      refine ⟨hbounded, fun k => ?_, ⟨taken ++ [f], fs, by simp, hafter, ?_⟩,
        fun k packet => ?_, ?_, Or.inr (Or.inr ⟨i, by simp [State.goto, Thread.live]⟩)⟩
      · by_cases hk : k = i
        · simpa [State.goto, hk, Thread.AtFrame] using hoff
        · simpa [State.goto, hk] using h.atFrame k
      · simp [State.goto, htaken, hpacket]
      · by_cases hk : k = i
        · subst hk
          simp [State.goto, hfree, hoff, eq_comm]
        · simpa [State.goto, hk] using h.holders k packet
      · rw [List.map_append, List.nodup_append]
        refine ⟨h.distinct, by simp, ?_⟩
        rintro k hk l hl rfl
        obtain ⟨⟨k, packet⟩, hmem, rfl⟩ := List.mem_map.mp hk
        obtain rfl : k = i := by simpa using hl
        exact hfree packet hmem

theorem Ordered.process (h : Ordered frames s) (hvalid : ∀ f ∈ frames, ValidFrame f)
    {i offset : Nat} {packet : List UInt8} (hi : s.threads i = .holding packet offset)
    (hfirst : s.held.head?.map Prod.fst = some i) : Ordered frames (next s (.process i)) := by
  obtain rfl : offset = 0 := by
    simpa [hi, Thread.AtFrame] using h.atFrame i
  obtain ⟨⟨k, packet'⟩, hhead, rfl⟩ := Option.map_eq_some_iff.mp hfirst
  obtain ⟨rest, hheld⟩ := List.head?_eq_some_iff.mp hhead
  obtain rfl : packet' = packet := by
    have hmem := (h.holders k packet').mp (by simp [hheld])
    simpa [hi, eq_comm] using hmem
  obtain ⟨taken, todo, rfl, hu, htaken⟩ := h.stream
  have hgood : xorBytes packet' = 0 := by
    have hmem : packet' ∈ taken.map List.tail := by simp [htaken, hheld]
    obtain ⟨f, hf, rfl⟩ := List.mem_map.mp hmem
    exact (hvalid f (by simp [hf])).2.1
  have hdistinct := h.distinct
  rw [hheld, List.map_cons, List.nodup_cons] at hdistinct
  simp only [next, hi, hgood, if_true]
  refine ⟨h.bounded, fun l => ?_, ⟨taken, todo, rfl, hu, ?_⟩, fun l packet => ?_, ?_,
    Or.inr (Or.inr ⟨k, by simp [State.goto, Thread.live]⟩)⟩
  · by_cases hl : l = k
    · simp [State.goto, hl, Thread.AtFrame]
    · simpa [State.goto, hl] using h.atFrame l
  · simp [htaken, hheld]
  · have hhold := h.holders l packet
    by_cases hl : l = k
    · subst hl
      have hgone : (l, packet) ∉ rest := fun hmem => hdistinct.1 (List.mem_map.mpr ⟨_, hmem, rfl⟩)
      simp [State.goto, hheld, hgone]
    · simpa [State.goto, hheld, hl] using hhold
  · simpa [hheld] using hdistinct.2

theorem Ordered.step (h : Ordered frames s) (hvalid : ∀ f ∈ frames, ValidFrame f) {a : Action}
    (hstep : Step s a t) (hok : FitsRing t ∧ OldestFirst (s, a, t)) : Ordered frames t := by
  obtain ⟨hen, rfl⟩ := hstep
  obtain ⟨hfit, hfirst⟩ := hok
  cases a with
  | receive dev => exact h.receive hen hfit
  | create i => exact h.create hen.2
  | test i =>
      obtain ⟨offset, hi⟩ := hen
      exact h.test hi
  | extract i =>
      obtain ⟨offset, hi⟩ := hen
      exact h.extract hvalid hi
  | process i =>
      obtain ⟨packet, offset, hi⟩ := hen
      exact h.process hvalid hi hfirst

/-- Nobody is left to hold a frame or to look for one. -/
theorem Ordered.streamOrder (h : Ordered frames s) (hvalid : ∀ f ∈ frames, ValidFrame f) :
    StreamOrder frames s := by
  obtain ⟨taken, todo, rfl, hu, htaken⟩ := h.stream
  refine ⟨⟨s.held.map Prod.snd ++ todo.map List.tail, by simp [htaken]⟩, ?_⟩
  rintro ⟨hline, hstarting, hidle⟩
  have hheld : s.held = [] := by
    apply List.eq_nil_iff_forall_not_mem.mpr
    rintro ⟨i, packet⟩ hmem
    have hi := (h.holders i packet).mp hmem
    rcases hidle i with habsent | hreturned <;> simp_all
  have hnone : assembleOnce s.serBuf 0 = none := by
    obtain hnone | hpos | ⟨i, hlive⟩ := h.watched
    · exact hnone
    · omega
    · rcases hidle i with habsent | hreturned <;> simp_all [Thread.live]
  cases todo with
  | nil => simp [htaken, hheld]
  | cons f fs =>
      have hw : unread s.serBuf = f ++ fs.flatten := by simpa [hline] using hu
      obtain ⟨e, he, -⟩ := assembleOnce_frame h.bounded (hvalid f (by simp)).1 hw
      simp [hnone] at he

/-- In every run over a clean stream that fits the ring and in which threads
pass their frames on in the order of extraction, the frames are dispatched in
stream order, each exactly once. -/
theorem dispatch_order {serBufIn : Nat → UInt8} {tr : List (State × Action × State)}
    (hvalid : ∀ f ∈ frames, ValidFrame f)
    (path : Path Step (init serBufIn frames.flatten) tr s)
    (hfit : ∀ e ∈ tr, FitsRing e.2.2) (hfirst : ∀ e ∈ tr, OldestFirst e) :
    ∀ e ∈ tr, StreamOrder frames e.2.2 := by
  have hok : ∀ e ∈ tr, FitsRing e.2.2 ∧ OldestFirst e := fun e he => ⟨hfit e he, hfirst e he⟩
  obtain ⟨-, hstates⟩ := path.invariant (fun _ _ _ hinv hstep hok => hinv.step hvalid hstep hok)
    (init_ordered serBufIn frames) hok
  intro e he
  exact (hstates e he).2.streamOrder hvalid

/-- Two responses without data. -/
def responses : List (List UInt8) := [[0xFE, 0, 0x61, 1, 0x60], [0xFE, 0, 0x61, 2, 0x63]]

theorem responses_valid : ∀ f ∈ responses, ValidFrame f := by
  simp only [responses, List.forall_mem_cons]
  refine ⟨⟨⟨0, _, rfl, rfl⟩, by decide, by decide⟩, ⟨⟨0, _, rfl, rfl⟩, by decide, by decide⟩, ?_⟩
  simp

/-- Two calls and two threads; the second thread finds nothing left. -/
def orderlyActions : List Action :=
  [.receive [[0xFE, 0, 0x61]], .receive [[1, 0x60, 0xFE, 0, 0x61, 2, 0x63]], .create 0, .create 1,
    .test 0, .test 1, .extract 0, .process 0, .test 0, .extract 0, .process 0, .extract 1, .test 0]

theorem dispatch_order_orderly :
    ∃ tr s, Path Step (init (fun _ => 0) responses.flatten) tr s ∧
      s.processed = responses.map List.tail ∧ ∀ e ∈ tr, StreamOrder responses e.2.2 := by
  have hpath : Path Step (init (fun _ => 0) responses.flatten)
      (play next (init (fun _ => 0) responses.flatten) orderlyActions).1 _ :=
    play_path orderlyActions (by decide)
  exact ⟨_, _, hpath, by decide, dispatch_order responses_valid hpath (by decide) (by decide)⟩

/-- Each response has a call and a thread of its own; the thread that extracted
the first one is overtaken. -/
def overtakingActions : List Action :=
  [.receive [[0xFE, 0, 0x61, 1, 0x60]], .create 0, .test 0, .extract 0,
    .receive [[0xFE, 0, 0x61, 2, 0x63]], .create 1, .test 1, .extract 1,
    .process 1, .process 0, .test 0, .test 1]

/-- All threads have returned, and the responses were dispatched in reverse. -/
theorem dispatch_order_overtaken :
    ∃ tr s, Path Step (init (fun _ => 0) responses.flatten) tr s ∧
      (∀ f ∈ responses, ValidFrame f) ∧ (∀ e ∈ tr, FitsRing e.2.2) ∧
      s.processed = [[0, 0x61, 2, 0x63], [0, 0x61, 1, 0x60]] ∧
      ¬ ∀ e ∈ tr, StreamOrder responses e.2.2 := by
  have hlast : ∃ e ∈ (play next (init (fun _ => 0) responses.flatten) overtakingActions).1,
      ¬ e.2.2.processed <+: responses.map List.tail := by decide
  obtain ⟨e, he, hbad⟩ := hlast
  refine ⟨_, _, play_path overtakingActions (by decide), responses_valid, by decide, by decide, ?_⟩
  exact fun hall => hbad (hall e he).1

end KappaGateway.Assemblers

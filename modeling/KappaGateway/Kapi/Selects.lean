import Mathlib.Data.Finset.Card

/-!
# Waiting for descriptors

`selects` keeps the registered descriptors three times: as a set for `select`, as a list
with their callbacks, and by their maximum. `listenOnce` gives `select` a copy of the set
to overwrite, and looks at the set itself afterwards.
-/

namespace KappaGateway.Selects

variable {Cb : Type*}

/-- `class selects`, without the timeout it starts with. Descriptors are not negative, and below
`FD_SETSIZE`. -/
structure State (Cb : Type*) where
  rdset : Finset Nat
  conns : List (Nat × Cb)
  fdMax : Nat

/-- A new `selects`. -/
def init : State Cb := ⟨∅, [], 0⟩

def reset (_ : State Cb) : State Cb := ⟨∅, [], 0⟩

def rFD_SET (fd : Nat) (cb : Cb) (s : State Cb) : State Cb where
  rdset := insert fd s.rdset
  conns := s.conns ++ [(fd, cb)]
  fdMax := if fd > s.fdMax then fd else s.fdMax

/-- How a call of `select` ends: with the descriptors that were ready, or with an error
and the time that is left. -/
inductive Outcome where
  | ready (fds : Finset Nat)
  | failed (EINTR : Bool) (tv_sec tv_usec : Nat)

/-- What `select` leaves of the set it is given. -/
def select (nfds : Nat) (fds rdset : Finset Nat) : Finset Nat :=
  rdset.filter fun fd => fd < nfds ∧ fd ∈ fds

/-- The loop of `listenOnce`: `retVal` and the copy of the set, once `select` is not
called again. -/
def listenLoop (nfds : Nat) : List Outcome → Finset Nat → Option (Int × Finset Nat)
  | [], _ => none
  | .ready fds :: _, rdset =>
      some ((select nfds fds rdset).card, select nfds fds rdset)
  | .failed EINTR tv_sec tv_usec :: rest, rdset =>
      if EINTR ∧ tv_usec ≠ 0 ∧ tv_sec ≠ 0 then listenLoop nfds rest rdset
      else some (-1, rdset)

/-- The callbacks that `listenOnce` invokes, once it does not wait any more. -/
def listenOnce (s : State Cb) (outcomes : List Outcome) : Option (List Cb) :=
  (listenLoop (s.fdMax + 1) outcomes s.rdset).map fun (retVal, _) =>
    if retVal > 0 then (s.conns.filter fun x => x.1 ∈ s.rdset).map Prod.snd else []

inductive Op (Cb : Type*) where
  | reset
  | rFD_SET (fd : Nat) (cb : Cb)
  | listenOnce (outcomes : List Outcome)

/-- Callbacks do not register descriptors, so that listening leaves the state alone. -/
def next (s : State Cb) : Op Cb → State Cb
  | .reset => reset s
  | .rFD_SET fd cb => rFD_SET fd cb s
  | .listenOnce _ => s

def after (ops : List (Op Cb)) : State Cb := ops.foldl next init

/-! ### What it is for -/

def register (l : List (Nat × Cb)) : Op Cb → List (Nat × Cb)
  | .reset => []
  | .rFD_SET fd cb => l ++ [(fd, cb)]
  | .listenOnce _ => l

/-- The descriptors and callbacks that were registered since the last reset. -/
def registered (ops : List (Op Cb)) : List (Nat × Cb) := ops.foldl register []

/-- The descriptors that `select` reports in the end; none after an error. -/
def reported : List Outcome → Option (Finset Nat)
  | [] => none
  | .ready fds :: _ => some fds
  | .failed EINTR tv_sec tv_usec :: rest =>
      if EINTR ∧ tv_usec ≠ 0 ∧ tv_sec ≠ 0 then reported rest else some ∅

/-- After a run, the callbacks of the ready descriptors are invoked and no other. -/
def Exact (ops : List (Op Cb)) (outcomes : List Outcome) : Prop :=
  listenOnce (after ops) outcomes =
    (reported outcomes).map fun fds =>
      ((registered ops).filter fun x => x.1 ∈ fds).map Prod.snd

/-- None of the registered descriptors is ready, or all of them are. -/
def AllOrNone (ops : List (Op Cb)) (outcomes : List Outcome) : Prop :=
  ∀ fds ∈ reported outcomes,
    (∀ x ∈ registered ops, x.1 ∉ fds) ∨ ∀ x ∈ registered ops, x.1 ∈ fds

/-! ### Registering -/

section

variable {s : State Cb} {l : List (Nat × Cb)}

/-- The three ways of keeping descriptors agree. -/
structure Kept (s : State Cb) (l : List (Nat × Cb)) : Prop where
  conns : s.conns = l
  rdset : ∀ fd, fd ∈ s.rdset ↔ ∃ x ∈ l, x.1 = fd
  fdMax : ∀ x ∈ l, x.1 ≤ s.fdMax

theorem init_kept : Kept (init : State Cb) [] where
  conns := rfl
  rdset := by simp [init]
  fdMax := by simp

theorem rFD_SET_kept (h : Kept s l) (fd : Nat) (cb : Cb) :
    Kept (rFD_SET fd cb s) (l ++ [(fd, cb)]) := by
  have hmax : s.fdMax ≤ (rFD_SET fd cb s).fdMax ∧ fd ≤ (rFD_SET fd cb s).fdMax := by
    dsimp only [rFD_SET]
    split
    · omega
    · omega
  constructor
  · rw [rFD_SET, h.conns]
  · intro fd'
    rw [rFD_SET, Finset.mem_insert, h.rdset]
    simp [or_comm, eq_comm]
  · intro x hx
    rcases List.mem_append.mp hx with hx | hx
    · exact (h.fdMax x hx).trans hmax.1
    · rw [List.mem_singleton.mp hx]
      exact hmax.2

theorem next_kept (h : Kept s l) (op : Op Cb) : Kept (next s op) (register l op) := by
  cases op with
  | reset => exact init_kept
  | rFD_SET fd cb => exact rFD_SET_kept h fd cb
  | listenOnce outcomes => exact h

/-- After any run, what is kept are the descriptors since the last reset. -/
theorem after_kept (ops : List (Op Cb)) : Kept (after ops) (registered ops) := by
  induction ops using List.reverseRecOn with
  | nil => exact init_kept
  | append_singleton ops op ih =>
      rw [after, registered, List.foldl_concat, List.foldl_concat]
      exact next_kept ih op

/-! ### Listening -/

/-- `select` counts a descriptor exactly if a registered one is ready. -/
theorem card_select_pos_iff (h : Kept s l) (fds : Finset Nat) :
    0 < (select (s.fdMax + 1) fds s.rdset).card ↔ ∃ x ∈ l, x.1 ∈ fds := by
  rw [Finset.card_pos]
  constructor
  · rintro ⟨fd, hfd⟩
    obtain ⟨hset, -, hready⟩ := Finset.mem_filter.mp hfd
    obtain ⟨x, hx, rfl⟩ := (h.rdset fd).mp hset
    exact ⟨x, hx, hready⟩
  · rintro ⟨x, hx, hready⟩
    refine ⟨x.1, Finset.mem_filter.mpr ⟨(h.rdset x.1).mpr ⟨x, hx, rfl⟩, ?_, hready⟩⟩
    exact Nat.lt_succ_of_le (h.fdMax x hx)

/-- Every descriptor with a callback is in the set that is looked at. -/
theorem filter_conns (h : Kept s l) : s.conns.filter (fun x => x.1 ∈ s.rdset) = l := by
  rw [h.conns, List.filter_eq_self]
  intro x hx
  exact decide_eq_true ((h.rdset x.1).mpr ⟨x, hx, rfl⟩)

/-- If one registered descriptor is ready, all callbacks are invoked. -/
theorem listenOnce_eq (h : Kept s l) (outcomes : List Outcome) :
    listenOnce s outcomes =
      (reported outcomes).map fun fds =>
        if ∃ x ∈ l, x.1 ∈ fds then l.map Prod.snd else [] := by
  induction outcomes with
  | nil => rfl
  | cons outcome rest ih =>
      cases outcome with
      | ready fds =>
          simp only [listenOnce, listenLoop, reported, Option.map_some, filter_conns h]
          have hpos : ((select (s.fdMax + 1) fds s.rdset).card : Int) > 0 ↔
              ∃ x ∈ l, x.1 ∈ fds := Int.natCast_pos.trans (card_select_pos_iff h fds)
          simp only [hpos]
      | failed EINTR tv_sec tv_usec =>
          by_cases hagain : EINTR ∧ tv_usec ≠ 0 ∧ tv_sec ≠ 0
          · rw [listenOnce, listenLoop, if_pos hagain, reported, if_pos hagain]
            exact ih
          · rw [listenOnce, listenLoop, if_neg hagain, reported, if_neg hagain]
            simp

/-- A list is what its filter leaves exactly if none or all is left. -/
theorem invoked_eq_filter_iff (fds : Finset Nat) :
    (if ∃ x ∈ l, x.1 ∈ fds then l.map Prod.snd else []) =
        (l.filter fun x => x.1 ∈ fds).map Prod.snd ↔
      (∀ x ∈ l, x.1 ∉ fds) ∨ ∀ x ∈ l, x.1 ∈ fds := by
  by_cases hready : ∃ x ∈ l, x.1 ∈ fds
  · rw [if_pos hready]
    obtain ⟨y, hy, hfd⟩ := hready
    constructor
    · intro heq
      have hlength := congrArg List.length heq
      rw [List.length_map, List.length_map] at hlength
      have hall := List.length_filter_eq_length_iff.mp hlength.symm
      exact Or.inr fun x hx => of_decide_eq_true (hall x hx)
    · rintro (hnone | hall)
      · exact absurd hfd (hnone y hy)
      · rw [List.filter_eq_self.mpr fun x hx => decide_eq_true (hall x hx)]
  · have hnone : ∀ x ∈ l, x.1 ∉ fds := fun x hx hfd => hready ⟨x, hx, hfd⟩
    rw [if_neg hready, List.filter_eq_nil_iff.mpr fun x hx => by simpa using hnone x hx]
    exact iff_of_true rfl (Or.inl hnone)

end

/-- Listening is exact exactly if none or all of the registered descriptors are ready. -/
theorem listenOnce_exact_iff (ops : List (Op Cb)) (outcomes : List Outcome) :
    Exact ops outcomes ↔ AllOrNone ops outcomes := by
  rw [Exact, listenOnce_eq (after_kept ops), AllOrNone]
  cases reported outcomes with
  | none => simp
  | some fds =>
      simp only [Option.map_some, Option.some_inj, Option.mem_some_iff, forall_eq']
      exact invoked_eq_filter_iff fds

/-- Of two descriptors one is ready, and both callbacks are invoked. -/
theorem listenOnce_of_two_descriptors :
    ¬ Exact [.rFD_SET 3 "first", .rFD_SET 4 "second"] [.ready {3}] ∧
      listenOnce (after [.rFD_SET 3 "first", .rFD_SET 4 "second"]) [.ready {3}] =
        some ["first", "second"] := by
  have hboth : listenOnce (after [.rFD_SET 3 "first", .rFD_SET 4 "second"]) [.ready {3}] =
      some ["first", "second"] := by decide
  refine ⟨?_, hboth⟩
  rw [Exact, hboth]
  decide

end KappaGateway.Selects

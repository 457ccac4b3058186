import Mathlib.Logic.Function.Basic
import KappaGateway.Lib.Transition

/-!
# Critical sections

Threads execute sections of instructions on what they share, each section between a wait
and a post of one semaphore. The instructions of different threads are interleaved as the
semaphore allows. Whatever the interleaving, the shared value is what the sections make
of it one after the other, in the order in which they got the semaphore, less what the
section that has it now has not executed yet.
-/

namespace KappaGateway.CriticalSection

open Transition

variable {σ T S : Type*}

/-- The semaphore, what it guards, and the section that each thread is in with the
instructions that are left of it. -/
structure State (σ T S : Type*) where
  sem : Nat
  shared : σ
  inside : T → Option (S × List (σ → σ))

/-- The semaphore has its permit, and no thread is in a section. -/
def init (shared : σ) : State σ T S := ⟨1, shared, fun _ => none⟩

inductive Action (T S : Type*) where
  | wait (t : T) (section_ : S)
  | execute (t : T)
  | post (t : T)

/-- A wait returns once the semaphore is positive; a post follows the last instruction. -/
def Enabled (s : State σ T S) : Action T S → Prop
  | .wait t _ => s.inside t = none ∧ 0 < s.sem
  | .execute t => ∃ section_ instruction rest,
      s.inside t = some (section_, instruction :: rest)
  | .post t => ∃ section_, s.inside t = some (section_, [])

/-- What the instructions make of the shared value. -/
def perform (instructions : List (σ → σ)) (shared : σ) : σ :=
  instructions.foldl (fun x instruction => instruction x) shared

/-- The sections one after the other. -/
def performAll (body : S → List (σ → σ)) (sections : List S) (shared : σ) : σ :=
  sections.foldl (fun x section_ => perform (body section_) x) shared

/-- The section that an action begins. -/
def Action.begun : Action T S → Option S
  | .wait _ section_ => some section_
  | _ => none

/-- The sections of a run, in the order in which they got the semaphore. -/
def begun (tr : List (State σ T S × Action T S × State σ T S)) : List S :=
  tr.filterMap fun e => e.2.1.begun

variable [DecidableEq T]

def next (body : S → List (σ → σ)) (s : State σ T S) : Action T S → State σ T S
  | .wait t section_ =>
      { s with
        sem := s.sem - 1
        inside := Function.update s.inside t (some (section_, body section_)) }
  | .execute t =>
      match s.inside t with
      | some (section_, instruction :: rest) =>
          { s with
            shared := instruction s.shared
            inside := Function.update s.inside t (some (section_, rest)) }
      | _ => s
  | .post t => { s with sem := s.sem + 1, inside := Function.update s.inside t none }

def Step (body : S → List (σ → σ)) (s : State σ T S) (a : Action T S) (s' : State σ T S) : Prop :=
  Enabled s a ∧ s' = next body s a

/-- No thread is in a section. -/
def State.Quiet (s : State σ T S) : Prop := ∀ t, s.inside t = none

/-- What the state is after some sections, from an initial value. -/
inductive Serial (body : S → List (σ → σ)) (x : σ) : List S → State σ T S → Prop
  | quiet {sections s} (hsem : s.sem = 1) (hinside : s.Quiet)
      (hshared : s.shared = performAll body sections x) : Serial body x sections s
  | held {sections s} (t : T) (section_ : S) (executed left : List (σ → σ)) (hsem : s.sem = 0)
      (hinside : s.inside = Function.update (fun _ => none) t (some (section_, left)))
      (hbody : body section_ = executed ++ left)
      (hshared : s.shared = perform executed (performAll body sections x)) :
      Serial body x (sections ++ [section_]) s

section

variable {body : S → List (σ → σ)} {x : σ} {sections : List S} {s s' : State σ T S}

omit [DecidableEq T] in
theorem performAll_append (sections more : List S) (x : σ) :
    performAll body (sections ++ more) x = performAll body more (performAll body sections x) :=
  List.foldl_append

omit [DecidableEq T] in
theorem perform_append (first second : List (σ → σ)) (x : σ) :
    perform (first ++ second) x = perform second (perform first x) :=
  List.foldl_append

theorem serial_init (body : S → List (σ → σ)) (x : σ) :
    Serial body x [] (init x : State σ T S) :=
  .quiet rfl (fun _ => rfl) rfl

/-- What one action does to the serial execution. -/
theorem Serial.step {a : Action T S} (h : Serial body x sections s)
    (hstep : Step body s a s') : Serial body x (sections ++ a.begun.toList) s' := by
  obtain ⟨henabled, rfl⟩ := hstep
  cases h with
  | quiet hsem hinside hshared =>
      cases a with
      | wait t section_ =>
          apply Serial.held t section_ [] (body section_)
          · show s.sem - 1 = 0
            omega
          · have hnone : s.inside = fun _ => none := funext hinside
            simp only [next, hnone]
          · rfl
          · exact hshared
      | execute t =>
          obtain ⟨section_, instruction, rest, hin⟩ := henabled
          rw [hinside t] at hin
          cases hin
      | post t =>
          obtain ⟨section_, hin⟩ := henabled
          rw [hinside t] at hin
          cases hin
  | @held before _ u section_ executed left hsem hinside hbody hshared =>
      have hother : ∀ t v, s.inside t = some v → t = u ∧ v = (section_, left) := by
        intro t v hin
        rw [hinside] at hin
        by_cases ht : t = u
        · subst ht
          rw [Function.update_self] at hin
          exact ⟨rfl, (Option.some.inj hin).symm⟩
        · rw [Function.update_of_ne ht] at hin
          cases hin
      cases a with
      | wait t section' =>
          have hpos : 0 < s.sem := henabled.2
          omega
      | execute t =>
          obtain ⟨section', instruction, rest, hin⟩ := henabled
          obtain ⟨rfl, heq⟩ := hother t _ hin
          obtain ⟨rfl, rfl⟩ := Prod.mk.inj heq
          simp only [next, hin, Action.begun, Option.toList_none, List.append_nil]
          apply Serial.held t section' (executed ++ [instruction]) rest
          · exact hsem
          · simp only [hinside, Function.update_idem]
          · rw [hbody, List.append_assoc, List.singleton_append]
          · rw [perform_append, hshared]
            rfl
      | post t =>
          obtain ⟨section', hin⟩ := henabled
          obtain ⟨rfl, heq⟩ := hother t _ hin
          obtain ⟨rfl, rfl⟩ := Prod.mk.inj heq
          simp only [Action.begun, Option.toList_none, List.append_nil]
          apply Serial.quiet
          · show s.sem + 1 = 1
            omega
          · intro v
            show Function.update s.inside t none v = none
            rw [hinside, Function.update_idem]
            by_cases hv : v = t
            · rw [hv, Function.update_self]
            · rw [Function.update_of_ne hv]
          · rw [performAll_append]
            rw [List.append_nil] at hbody
            show s.shared = perform (body section') (performAll body before x)
            rw [hbody, hshared]

/-- Every run is serial. -/
theorem Serial.path {tr : List (State σ T S × Action T S × State σ T S)}
    (h : Serial body x sections s) (path : Path (Step body) s tr s') :
    Serial body x (sections ++ begun tr) s' := by
  induction path generalizing sections with
  | nil =>
      rw [begun, List.filterMap_nil, List.append_nil]
      exact h
  | @cons s a s₁ tr u hstep tail ih =>
      have hnext := ih (h.step hstep)
      rw [List.append_assoc] at hnext
      have hbegun : begun ((s, a, s₁) :: tr) = a.begun.toList ++ begun tr := by
        rw [begun, List.filterMap_cons]
        cases a.begun <;> rfl
      rw [hbegun]
      exact hnext

/-- Between sections, what is shared is what the sections of the run have made of it. -/
theorem shared_of_quiet {tr : List (State σ T S × Action T S × State σ T S)}
    (path : Path (Step body) (init x) tr s') (hquiet : s'.Quiet) :
    s'.shared = performAll body (begun tr) x := by
  have hserial := (serial_init body x).path path
  rw [List.nil_append] at hserial
  generalize hsections : begun tr = sections at hserial
  cases hserial with
  | quiet hsem hinside hshared => exact hshared
  | held t section_ executed left hsem hinside hbody hshared =>
      have hin := hquiet t
      rw [hinside, Function.update_self] at hin
      cases hin

omit [DecidableEq T] in
theorem begun_append (tr tr' : List (State σ T S × Action T S × State σ T S)) :
    begun (tr ++ tr') = begun tr ++ begun tr' :=
  List.filterMap_append

/-- A thread can execute what is left of its section. -/
theorem exists_execute (body : S → List (σ → σ)) {t : T} {section_ : S} (left : List (σ → σ))
    (hin : s.inside t = some (section_, left)) :
    ∃ tr s', Path (Step body) s tr s' ∧ begun tr = [] ∧ s'.sem = s.sem ∧
      s'.inside = Function.update s.inside t (some (section_, [])) := by
  induction left generalizing s with
  | nil => exact ⟨[], s, .nil s, rfl, rfl, (Function.update_eq_self_iff.mpr hin.symm).symm⟩
  | cons instruction rest ih =>
      have hstep : Step body s (.execute t) (next body s (.execute t)) :=
        ⟨⟨section_, instruction, rest, hin⟩, rfl⟩
      have hnext : next body s (.execute t) =
          { s with
            shared := instruction s.shared
            inside := Function.update s.inside t (some (section_, rest)) } := by
        simp only [next, hin]
      obtain ⟨tr, s', path, hbegun, hsem, hinside⟩ :=
        ih (s := next body s (.execute t)) (by rw [hnext]; exact Function.update_self ..)
      refine ⟨_, s', .cons hstep path, hbegun, ?_, ?_⟩
      · rw [hsem, hnext]
      · rw [hinside, hnext, Function.update_idem]

/-- A thread can execute a section when no thread is in one. -/
theorem exists_section (body : S → List (σ → σ)) (t : T) (section_ : S) (hsem : s.sem = 1)
    (hquiet : s.Quiet) :
    ∃ tr s', Path (Step body) s tr s' ∧ begun tr = [section_] ∧ s'.sem = 1 ∧ s'.Quiet := by
  have hwait : Step body s (.wait t section_) (next body s (.wait t section_)) :=
    ⟨⟨hquiet t, by omega⟩, rfl⟩
  have hentered : (next body s (.wait t section_)).inside t = some (section_, body section_) :=
    Function.update_self ..
  obtain ⟨tr, s', path, hbegun, hsem', hinside⟩ :=
    exists_execute body (body section_) hentered
  have hpost : Step body s' (.post t) (next body s' (.post t)) := by
    refine ⟨⟨section_, ?_⟩, rfl⟩
    rw [hinside, Function.update_self]
  refine ⟨_, _, .cons hwait (path.append (.cons hpost (.nil _))), ?_, ?_, ?_⟩
  · show section_ :: begun (tr ++ _) = [section_]
    rw [begun_append, hbegun]
    rfl
  · show s'.sem + 1 = 1
    rw [hsem']
    show s.sem - 1 + 1 = 1
    omega
  · intro u
    show Function.update s'.inside t none u = none
    rw [hinside, Function.update_idem]
    by_cases hu : u = t
    · rw [hu, Function.update_self]
    · rw [Function.update_of_ne hu]
      show Function.update s.inside t _ u = none
      rw [Function.update_of_ne hu, hquiet u]

/-- Sections can get the semaphore in any order. -/
theorem exists_run (body : S → List (σ → σ)) (x : σ) (sections : List (T × S)) :
    ∃ tr s', Path (Step body) (init x : State σ T S) tr s' ∧ begun tr = sections.map Prod.snd ∧
      s'.Quiet := by
  have hfrom : ∀ (sections : List (T × S)) (s : State σ T S), s.sem = 1 → s.Quiet →
      ∃ tr s', Path (Step body) s tr s' ∧ begun tr = sections.map Prod.snd ∧ s'.Quiet := by
    intro sections
    induction sections with
    | nil => exact fun s _ hquiet => ⟨[], s, .nil s, rfl, hquiet⟩
    | cons first sections ih =>
        intro s hsem hquiet
        obtain ⟨tr, s', path, hbegun, hsem', hquiet'⟩ :=
          exists_section body first.1 first.2 hsem hquiet
        obtain ⟨tr', s'', path', hbegun', hquiet''⟩ := ih s' hsem' hquiet'
        refine ⟨tr ++ tr', s'', path.append path', ?_, hquiet''⟩
        rw [begun_append, hbegun, hbegun']
        rfl
  exact hfrom sections (init x) rfl fun _ => rfl

end

/-! ### Invariants of the instructions -/

omit [DecidableEq T] in
theorem perform_keeps {Inv : σ → Prop} {instructions : List (σ → σ)}
    (preserved : ∀ instruction ∈ instructions, ∀ y, Inv y → Inv (instruction y)) {x : σ}
    (start : Inv x) : Inv (perform instructions x) := by
  induction instructions generalizing x with
  | nil => exact start
  | cons instruction rest ih =>
      rw [List.forall_mem_cons] at preserved
      exact ih preserved.2 (preserved.1 x start)

omit [DecidableEq T] in
theorem performAll_keeps {body : S → List (σ → σ)} {Inv : σ → Prop}
    (preserved : ∀ section_, ∀ instruction ∈ body section_, ∀ y, Inv y → Inv (instruction y))
    (sections : List S) {x : σ} (start : Inv x) : Inv (performAll body sections x) := by
  induction sections generalizing x with
  | nil => exact start
  | cons section_ rest ih => exact ih (perform_keeps (preserved section_) start)

/-- What every instruction keeps holds at every moment, also within a section. -/
theorem keeps {body : S → List (σ → σ)} {Inv : σ → Prop} {x : σ}
    {s' : State σ T S} {tr : List (State σ T S × Action T S × State σ T S)}
    (preserved : ∀ section_, ∀ instruction ∈ body section_, ∀ y, Inv y → Inv (instruction y))
    (path : Path (Step body) (init x) tr s') (start : Inv x) : Inv s'.shared := by
  have hserial := (serial_init body x).path path
  rw [List.nil_append] at hserial
  generalize begun tr = sections at hserial
  cases hserial with
  | quiet hsem hinside hshared =>
      rw [hshared]
      exact performAll_keeps preserved sections start
  | @held before _ t section_ executed left hsem hinside hbody hshared =>
      rw [hshared]
      apply perform_keeps
      · intro instruction hmem
        apply preserved section_
        rw [hbody]
        exact List.mem_append_left left hmem
      · exact performAll_keeps preserved before start

end KappaGateway.CriticalSection

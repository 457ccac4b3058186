import KappaGateway.Lib.Transition
import Mathlib.Logic.Function.Basic

/-!
# Concurrent cycles of load and store

Workers that share one file change it by operations of two steps: the first
loads the whole file, the second stores what the operation makes of it. While
each store finds the file that its operation has loaded, the file is at any time
what the finished operations make of it one after the other.
-/

namespace KappaGateway.LoadStore

open Transition

variable {ι σ Op : Type*}

/-- The operations that a worker has still to finish, and the file that the
first of them has loaded. -/
structure Worker (σ Op : Type*) where
  remaining : List Op
  loaded : Option σ

structure System (ι σ Op : Type*) where
  file : σ
  worker : ι → Worker σ Op

/-- All workers at the beginning of their programs. -/
def System.initial (programs : ι → List Op) (file : σ) : System ι σ Op :=
  ⟨file, fun i => ⟨programs i, none⟩⟩

variable (result : Op → σ → Option σ)

/-- What becomes of the file in an operation that is not interrupted. One that
has no result stores nothing. -/
def apply (op : Op) (file : σ) : σ := (result op file).getD file

/-- Operations one after the other. -/
def execute (ops : List Op) (file : σ) : σ := ops.foldl (fun file op => apply result op file) file

theorem execute_cons (op : Op) (ops : List Op) (file : σ) :
    execute result (op :: ops) file = execute result ops (apply result op file) := rfl

theorem execute_append (first second : List Op) (file : σ) :
    execute result (first ++ second) file = execute result second (execute result first file) :=
  List.foldl_append

/-- A store finds the file that its operation has loaded. -/
def Undisturbed : System ι σ Op × ι × System ι σ Op → Prop
  | (s, i, _) => ∀ loaded ∈ (s.worker i).loaded, loaded = s.file

theorem undisturbed_load {s t : System ι σ Op} {i : ι} (h : (s.worker i).loaded = none) :
    Undisturbed (s, i, t) := by
  intro loaded hloaded
  rw [h] at hloaded
  cases hloaded

variable [DecidableEq ι]

/-- The next step of a worker: it loads, or stores. One whose operation has no
result for the file it loads is finished with it. -/
def next (s : System ι σ Op) (i : ι) : System ι σ Op :=
  match s.worker i with
  | ⟨[], _⟩ => s
  | ⟨op :: rest, none⟩ =>
      { s with
        worker := Function.update s.worker i
          (if (result op s.file).isSome then ⟨op :: rest, some s.file⟩ else ⟨rest, none⟩) }
  | ⟨op :: rest, some loaded⟩ =>
      ⟨(result op loaded).getD s.file, Function.update s.worker i ⟨rest, none⟩⟩

/-- The operations of one worker. -/
def worked (i : ι) (order : List (ι × Op)) : List Op :=
  (order.filter (·.1 = i)).map Prod.snd

/-- The finished operations in an order that each worker keeps, and the file as
they make it one after the other. -/
structure Serial (programs : ι → List Op) (file : σ) (order : List (ι × Op))
    (s : System ι σ Op) : Prop where
  worked : ∀ i, worked i order ++ (s.worker i).remaining = programs i
  file : s.file = execute result (order.map Prod.snd) file

/-- An undisturbed step either finishes an operation, as if it were executed
now, or changes neither the file nor what is left to do. -/
theorem next_cases {s : System ι σ Op} {i : ι} (h : Undisturbed (s, i, next result s i)) :
    (∃ op rest, (s.worker i).remaining = op :: rest ∧
      next result s i = ⟨apply result op s.file, Function.update s.worker i ⟨rest, none⟩⟩) ∨
    (next result s i).file = s.file ∧
      ∀ j, ((next result s i).worker j).remaining = (s.worker j).remaining := by
  rw [next]
  split
  · exact Or.inr ⟨rfl, fun _ => rfl⟩
  · rename_i op rest hworker
    by_cases hresult : (result op s.file).isSome
    · right
      refine ⟨rfl, fun j => ?_⟩
      simp only [if_pos hresult]
      by_cases hj : j = i
      · simp [hj, hworker]
      · simp [hj]
    · left
      refine ⟨op, rest, by rw [hworker], ?_⟩
      rw [if_neg hresult, apply, Option.not_isSome_iff_eq_none.mp hresult, Option.getD_none]
  · rename_i op rest loaded hworker
    have hloaded : loaded = s.file := h loaded (by rw [hworker]; rfl)
    exact Or.inl ⟨op, rest, by rw [hworker], by rw [hloaded, apply]⟩

/-- A worker stores undisturbed right after it has loaded. -/
theorem undisturbed_store {s t : System ι σ Op} {i : ι} (h : (s.worker i).loaded = none) :
    Undisturbed (next result s i, i, t) := by
  rw [next]
  split
  · exact undisturbed_load h
  · rename_i op rest hworker
    by_cases hresult : (result op s.file).isSome
    · intro loaded hloaded
      simp only [if_pos hresult, Function.update_self] at hloaded
      exact (Option.some.inj hloaded).symm
    · apply undisturbed_load
      simp only [if_neg hresult, Function.update_self]
  · rename_i op rest loaded hworker
    rw [hworker] at h
    cases h

theorem worked_append (i j : ι) (order : List (ι × Op)) (op : Op) :
    worked j (order ++ [(i, op)]) = worked j order ++ if i = j then [op] else [] := by
  by_cases h : i = j
  · simp [worked, h]
  · simp [worked, h]

/-- An undisturbed step keeps a serial order. -/
theorem Serial.step {programs : ι → List Op} {file : σ} {order : List (ι × Op)}
    {s : System ι σ Op} (h : Serial result programs file order s) {i : ι}
    (hi : Undisturbed (s, i, next result s i)) :
    ∃ order', Serial result programs file order' (next result s i) := by
  obtain ⟨op, rest, hremaining, hnext⟩ | ⟨hfile, hremaining⟩ := next_cases result hi
  · refine ⟨order ++ [(i, op)], ?_, ?_⟩
    · intro j
      rw [hnext, worked_append, ← h.worked j]
      by_cases hj : i = j
      · subst hj
        simp [hremaining]
      · simp [hj, Function.update_of_ne (Ne.symm hj)]
    · rw [hnext, List.map_append, execute_append, ← h.file]
      rfl
  · refine ⟨order, ?_, ?_⟩
    · intro j
      rw [hremaining, h.worked j]
    · rw [hfile, h.file]

/-- A run in which no store is disturbed leaves the file as the operations make
it one after the other. -/
theorem serial_of_undisturbed (programs : ι → List Op) (file : σ) (schedule : List ι)
    (h : ∀ e ∈ (play (next result) (.initial programs file) schedule).1, Undisturbed e) :
    ∃ order, Serial result programs file order
      (play (next result) (.initial programs file) schedule).2 := by
  have path : Path (fun s i t => True ∧ t = next result s i) (.initial programs file) _ _ :=
    play_path schedule fun _ _ => trivial
  have start : ∃ order, Serial result programs file order (.initial programs file) :=
    ⟨[], fun _ => rfl, rfl⟩
  have preserved : ∀ s i t, (∃ order, Serial result programs file order s) →
      True ∧ t = next result s i → Undisturbed (s, i, t) →
      ∃ order, Serial result programs file order t := by
    rintro s i t ⟨order, hserial⟩ ⟨-, rfl⟩ hundisturbed
    exact hserial.step result hundisturbed
  exact (Path.invariant preserved path start h).1

end KappaGateway.LoadStore

import Mathlib.Logic.Function.Basic
import KappaGateway.Lib.Transition

/-!
# `klock_c`

Three semaphores and a counter. `shLockPriv` serialises the readers that
acquire, `shLock` guards the counter, `exLock` belongs to the writer or to the
readers together. One step of a thread is one semaphore operation, one test of
`shLockCnt` or one update of it.
-/

namespace KappaGateway.Klock

open Transition

/-- The member functions; `lockAcquire` and `lockRelease` are the exclusive ones. -/
inductive Op where
  | shLockAcquire
  | shLockRelease
  | exLockAcquire
  | exLockRelease
  deriving DecidableEq

/-- The statement a thread executes next. -/
inductive Pc where
  | outside
  | acquireWaitPriv
  | acquireTryEx
  | acquireWaitSh
  | acquireTest
  | acquireCount
  | acquirePostSh
  | slowPostSh
  | slowWaitEx
  | ownerWaitSh
  | ownerCount
  | ownerPostSh
  | acquirePostPriv
  | releaseWaitSh
  | releaseTestOne
  | releaseClear
  | releasePostEx
  | releaseTestMany
  | releaseDecrement
  | releasePostSh
  | exAcquireWait
  | exReleaseWaitSh
  | exReleaseTest
  | exReleasePostEx
  | exReleasePostSh
  deriving DecidableEq

/-- The first statement of a call. -/
def Op.entry : Op → Pc
  | .shLockAcquire => .acquireWaitPriv
  | .shLockRelease => .releaseWaitSh
  | .exLockAcquire => .exAcquireWait
  | .exLockRelease => .exReleaseWaitSh

/-- A thread: its next statement, the local `rtn`, how many shared and exclusive
acquires of its own it has not begun to release, and what its release calls
have returned. -/
structure Thread where
  pc : Pc
  rtn : Int
  shared : Nat
  exclusive : Nat
  returned : List Int

/-- The thread is inside `shLockAcquire`. -/
def Pc.inShAcquire : Pc → Bool
  | .acquireWaitPriv | .acquireTryEx | .acquireWaitSh | .acquireTest | .acquireCount
  | .acquirePostSh | .slowPostSh | .slowWaitEx | .ownerWaitSh | .ownerCount | .ownerPostSh
  | .acquirePostPriv => true
  | _ => false

/-- The thread is inside `shLockRelease`. -/
def Pc.inShRelease : Pc → Bool
  | .releaseWaitSh | .releaseTestOne | .releaseClear | .releasePostEx | .releaseTestMany
  | .releaseDecrement | .releasePostSh => true
  | _ => false

/-- The thread is inside one of the two acquires. -/
def Pc.inAcquire (pc : Pc) : Bool := pc.inShAcquire || pc == .exAcquireWait

/-- The object and the threads that use it. The counter does not overflow. -/
structure State (T : Type*) where
  shLockPriv : Nat
  shLock : Nat
  exLock : Nat
  shLockCnt : Int
  threads : T → Thread

variable {T : Type*}

/-- The constructor. -/
def init : State T where
  shLockPriv := 1
  shLock := 1
  exLock := 1
  shLockCnt := 0
  threads := fun _ => ⟨.outside, -1, 0, 0, []⟩

inductive Action (T : Type*) where
  | invoke (t : T) (op : Op)
  | proceed (t : T)

/-- A thread releases only what it holds. -/
def Op.allowed : Op → Thread → Prop
  | .shLockRelease, th => 0 < th.shared
  | .exLockRelease, th => 0 < th.exclusive
  | _, _ => True

instance (op : Op) (th : Thread) : Decidable (op.allowed th) := by
  cases op <;> dsimp only [Op.allowed] <;> infer_instance

/-- The thread as the call finds it: a release gives up the hold, and both
release functions start with `rtn = -1`. -/
def Thread.enter (th : Thread) (op : Op) : Thread :=
  match op with
  | .shLockRelease => { th with pc := op.entry, rtn := -1, shared := th.shared - 1 }
  | .exLockRelease => { th with pc := op.entry, rtn := -1, exclusive := th.exclusive - 1 }
  | _ => { th with pc := op.entry }

def Thread.goto (th : Thread) (pc : Pc) : Thread := { th with pc := pc }

/-- The return from a release. -/
def Thread.returnRtn (th : Thread) : Thread :=
  { th with pc := .outside, returned := th.returned ++ [th.rtn] }

/-- A `sem_wait` returns once the semaphore is positive; `sem_trywait` always does. -/
def Pc.ready (s : State T) : Pc → Prop
  | .outside => False
  | .acquireWaitPriv => 0 < s.shLockPriv
  | .acquireWaitSh | .ownerWaitSh | .releaseWaitSh | .exReleaseWaitSh => 0 < s.shLock
  | .slowWaitEx | .exAcquireWait => 0 < s.exLock
  | _ => True

instance (s : State T) (pc : Pc) : Decidable (pc.ready s) := by
  cases pc <;> dsimp only [Pc.ready] <;> infer_instance

/-- The call may begin, or the statement may complete. -/
def Enabled (s : State T) : Action T → Prop
  | .invoke t op => (s.threads t).pc = .outside ∧ op.allowed (s.threads t)
  | .proceed t => (s.threads t).pc.ready s

instance (s : State T) (a : Action T) : Decidable (Enabled s a) := by
  cases a <;> dsimp only [Enabled] <;> infer_instance

variable [DecidableEq T]

/-- The state after thread `t` changed to `th`. -/
def State.put (s : State T) (t : T) (th : Thread) : State T :=
  { s with threads := Function.update s.threads t th }

/-- The statement at the program counter of `t`. The statements that take
`shLock`, count and post it again are the same for a reader that got `exLock`
at once and for one that waited for it. -/
def proceed (s : State T) (t : T) : State T :=
  let th := s.threads t
  match th.pc with
  | .outside => s
  | .acquireWaitPriv => { s with shLockPriv := s.shLockPriv - 1 }.put t (th.goto .acquireTryEx)
  | .acquireTryEx =>
      if 0 < s.exLock then { s with exLock := s.exLock - 1 }.put t (th.goto .ownerWaitSh)
      else s.put t (th.goto .acquireWaitSh)
  | .acquireWaitSh => { s with shLock := s.shLock - 1 }.put t (th.goto .acquireTest)
  | .acquireTest =>
      if s.shLockCnt ≤ 0 then s.put t (th.goto .slowPostSh)
      else s.put t (th.goto .acquireCount)
  | .slowPostSh => { s with shLock := s.shLock + 1 }.put t (th.goto .slowWaitEx)
  | .slowWaitEx => { s with exLock := s.exLock - 1 }.put t (th.goto .ownerWaitSh)
  | .ownerWaitSh => { s with shLock := s.shLock - 1 }.put t (th.goto .ownerCount)
  | .ownerCount => { s with shLockCnt := s.shLockCnt + 1 }.put t (th.goto .ownerPostSh)
  | .ownerPostSh => { s with shLock := s.shLock + 1 }.put t (th.goto .acquirePostPriv)
  | .acquireCount => { s with shLockCnt := s.shLockCnt + 1 }.put t (th.goto .acquirePostSh)
  | .acquirePostSh => { s with shLock := s.shLock + 1 }.put t (th.goto .acquirePostPriv)
  | .acquirePostPriv =>
      { s with shLockPriv := s.shLockPriv + 1 }.put t
        { th with pc := .outside, shared := th.shared + 1 }
  | .releaseWaitSh => { s with shLock := s.shLock - 1 }.put t (th.goto .releaseTestOne)
  | .releaseTestOne =>
      if s.shLockCnt = 1 then s.put t (th.goto .releaseClear)
      else s.put t (th.goto .releaseTestMany)
  | .releaseClear => { s with shLockCnt := 0 }.put t (th.goto .releasePostEx)
  | .releasePostEx =>
      { s with exLock := s.exLock + 1 }.put t { th with pc := .releaseTestMany, rtn := 0 }
  | .releaseTestMany =>
      if 1 < s.shLockCnt then s.put t (th.goto .releaseDecrement)
      else s.put t (th.goto .releasePostSh)
  | .releaseDecrement =>
      { s with shLockCnt := s.shLockCnt - 1 }.put t { th with pc := .releasePostSh, rtn := 0 }
  | .releasePostSh => { s with shLock := s.shLock + 1 }.put t th.returnRtn
  | .exAcquireWait =>
      { s with exLock := s.exLock - 1 }.put t
        { th with pc := .outside, exclusive := th.exclusive + 1 }
  | .exReleaseWaitSh => { s with shLock := s.shLock - 1 }.put t (th.goto .exReleaseTest)
  | .exReleaseTest =>
      if s.shLockCnt = 0 then s.put t (th.goto .exReleasePostEx)
      else s.put t (th.goto .exReleasePostSh)
  | .exReleasePostEx =>
      { s with exLock := s.exLock + 1 }.put t { th with pc := .exReleasePostSh, rtn := 0 }
  | .exReleasePostSh => { s with shLock := s.shLock + 1 }.put t th.returnRtn

def next (s : State T) : Action T → State T
  | .invoke t op => s.put t ((s.threads t).enter op)
  | .proceed t => proceed s t

/-- One atomic step of one thread. -/
def Step (s : State T) (a : Action T) (s' : State T) : Prop := Enabled s a ∧ s' = next s a

end KappaGateway.Klock

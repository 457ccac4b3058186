import Mathlib.Logic.Function.Basic
import KappaGateway.Kapi.Kutil
import KappaGateway.Lib.GrowingVector
import KappaGateway.Lib.Transition

/-!
# REST requests

`handleRESTful` finds or creates the context of its URI in a global vector,
writes the caller's parameter and request into it, triggers the handler of the
URI and reads the response out of it. All of that goes through a reference into
the vector, and nothing is locked. Calls are told apart by an index; each of
their five accesses to the vector is one step.
-/

namespace KappaGateway.Restful

open GrowingVector Kutil Transition

/-- A `__Context`. -/
structure Context where
  uri : Text
  parameter : Text
  response : Text
  request : Text
  deriving DecidableEq

/-- `emplace_back(uri)`. -/
def Context.new (uri : Text) : Context := ⟨uri, [], [], []⟩

/-- What a caller passes: the elements of `path` as strings, `parameter` as
text, and the request itself. -/
structure Call where
  path : List Text
  parameter : Text
  request : Text

/-- The elements of the path with a slash behind each, less the last slash. -/
def Call.uri (c : Call) : Text := (c.path.flatMap fun x => x ++ cstr "/").dropLast

/-- The `Application` handlers: the response to the parameter and the request
that a handler finds in its context. A handler may leave the response alone. -/
abbrev Handlers := Text → Option (Text → Text → Option Text)

/-- How far a call is. -/
inductive Phase where
  | called
  | referenced
  | parameterSet
  | requestSet
  | triggered
  | returned
  deriving DecidableEq

/-- The call is going to use its reference. -/
def Phase.holds : Phase → Bool
  | .called | .returned => false
  | _ => true

/-- A call in progress: the reference `c`, and `rsp` once it has read it. What it
reads through a dangling reference is not known. -/
structure Progress where
  phase : Phase
  c : Ref
  rsp : Option Text

variable {ι : Type*}

/-- `__Contexts` and the calls. -/
structure State (ι : Type*) where
  contexts : Vec Context
  calls : ι → Progress

def init : State ι := ⟨.empty, fun _ => ⟨.called, ⟨0, 0⟩, none⟩⟩

/-- The steps of a call. The vector chooses its capacity when it grows. -/
inductive Action (ι : Type*) where
  | getContext (i : ι) (grown : Nat)
  | setParameter (i : ι)
  | setRequest (i : ι)
  | trigger (i : ι)
  | readResponse (i : ι)

def Enabled (s : State ι) : Action ι → Prop
  | .getContext i grown => (s.calls i).phase = .called ∧ s.contexts.items.length < grown
  | .setParameter i => (s.calls i).phase = .referenced
  | .setRequest i => (s.calls i).phase = .parameterSet
  | .trigger i => (s.calls i).phase = .requestSet
  | .readResponse i => (s.calls i).phase = .triggered

instance (s : State ι) (a : Action ι) : Decidable (Enabled s a) := by
  cases a <;> dsimp only [Enabled] <;> infer_instance

/-- `getContext`: the reference and the vector afterwards. After `emplace_back`
the recursive call finds the new element. -/
def getContext (uri : Text) (v : Vec Context) (grown : Nat) : Ref × Vec Context :=
  match v.items.findIdx? (·.uri = uri) with
  | some k => (⟨v.storage, k⟩, v)
  | none =>
      let v' := v.emplaceBack (.new uri) grown
      (v'.back, v')

/-- What the handlers of a URI do to the context. -/
def handle (handlers : Handlers) (uri : Text) (c : Context) : Context :=
  match (handlers uri).bind fun h => h c.parameter c.request with
  | some rsp => { c with response := rsp }
  | none => c

variable [DecidableEq ι]

def State.put (s : State ι) (i : ι) (p : Progress) : State ι :=
  { s with calls := Function.update s.calls i p }

def next (handlers : Handlers) (call : ι → Call) (s : State ι) : Action ι → State ι
  | .getContext i grown =>
      let (c, v) := getContext (call i).uri s.contexts grown
      { s.put i ⟨.referenced, c, none⟩ with contexts := v }
  | .setParameter i =>
      { s.put i { s.calls i with phase := .parameterSet } with
        contexts := s.contexts.modify (s.calls i).c fun x =>
          { x with parameter := (call i).parameter } }
  | .setRequest i =>
      { s.put i { s.calls i with phase := .requestSet } with
        contexts := s.contexts.modify (s.calls i).c fun x =>
          { x with request := (call i).request } }
  | .trigger i =>
      { s.put i { s.calls i with phase := .triggered } with
        contexts := s.contexts.modify (s.calls i).c (handle handlers (call i).uri) }
  | .readResponse i =>
      s.put i ⟨.returned, (s.calls i).c, (s.contexts.get (s.calls i).c).map Context.response⟩

/-- One step of one of the calls. -/
def Step (handlers : Handlers) (call : ι → Call) (s : State ι) (a : Action ι) (t : State ι) :
    Prop :=
  Enabled s a ∧ t = next handlers call s a

end KappaGateway.Restful

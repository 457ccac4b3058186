import KappaGateway.Kapi.Jansson
import Mathlib.Logic.Function.Iterate

/-!
# The wrapper `kapi::JSON`

All wrappers of a program, numbered in the order of their construction, and
Jansson's values. A wrapper is an object of its own, the fault value of another
wrapper, or an element of the `childList_` of another one. An operation that
crashes has no result.
-/

namespace KappaGateway.JsonWrapper

open KeyedList RefCount Kutil Jansson

/-- A wrapper. `within` lists the wrapper itself and all that hold it, as an
element or as the fault value, directly or not. -/
structure JSON where
  parent : Option Nat
  key : Text
  index : Nat
  json : Option Ref
  type : JSONType
  jsonPtrIsBorrowed : Bool
  fault : Option Nat
  failbit : Bool
  errorStr : Text
  within : List Nat
  alive : Bool
deriving DecidableEq

/-- `JSON()`. -/
def JSON.new (within : List Nat) : JSON :=
  ⟨none, [], 0, some .null, .null, false, none, false, [], within, true⟩

instance : Inhabited JSON := ⟨{ JSON.new [] with alive := false }⟩

/-- The reference that the destructor drops. -/
def JSON.owned (J : JSON) : List Nat := if J.jsonPtrIsBorrowed then [] else cellsOf J.json

structure State where
  heap : Memory
  wrappers : List JSON

namespace State

def init : State := ⟨⟨[], []⟩, []⟩

def get (s : State) (w : Nat) : JSON := s.wrappers.getD w default

/-- The number of the next wrapper. -/
def next (s : State) : Nat := s.wrappers.length

def modify (w : Nat) (f : JSON → JSON) (s : State) : State :=
  { s with wrappers := s.wrappers.modify w f }

def onHeap (f : Memory → Memory) (s : State) : State := { s with heap := f s.heap }

def push (J : JSON) (s : State) : State := { s with wrappers := s.wrappers ++ [J] }

/-- A fault value that was destroyed before is destroyed once more. -/
def deadFault (s : State) (J : JSON) : List Nat :=
  match J.fault with
  | some f => if (s.get f).alive then [] else (s.get f).owned
  | none => []

/-- Destroys some wrappers. -/
def delete (p : JSON → Bool) (s : State) : State where
  heap := s.heap.release
    ((s.wrappers.filter fun J => J.alive && p J).flatMap fun J => J.owned ++ s.deadFault J)
  wrappers := s.wrappers.map fun J => if p J then { J with alive := false } else J

def setFailBit (w : Nat) (message : Text) (s : State) : State :=
  s.modify w fun J =>
    { J with failbit := true, errorStr := J.errorStr ++ message ++ cstr "; " }

/-- A child of `w` of some kind, or a wrapper that it holds. -/
def underChild (s : State) (w : Nat) (p : JSON → Bool) (J : JSON) : Bool :=
  J.within.any fun c => (s.get c).parent = some w && p (s.get c)

/-- `reset`. -/
def reset (w : Nat) (j : Ref) (s : State) : State :=
  let s := s.onHeap (json_decref (s.get w).json)
  let s := s.modify w fun J => { J with json := some j, type := json_typeof s.heap j }
  s.delete (s.underChild w fun _ => true)

/-- `updateParent`. -/
def updateParent (w : Nat) (s : State) : State :=
  match (s.get w).parent with
  | none => s
  | some p =>
      let s := s.modify w fun J => { J with jsonPtrIsBorrowed := true }
      match (s.get p).type with
      | .object =>
          s.onHeap (json_object_set_new (s.get p).json (s.get w).key (s.get w).json)
      | .array =>
          s.onHeap (json_array_set_new (s.get p).json (s.get w).index (s.get w).json)
      | _ => s.setFailBit w (cstr "Invalid type of parent")

/-- `size`. -/
def size (s : State) (w : Nat) : Nat :=
  match (s.get w).type with
  | .array => json_array_size s.heap (s.get w).json
  | .object => json_object_size s.heap (s.get w).json
  | _ => 0

/-! ### Element access -/

/-- `wrapper(key)`. -/
def wrapperKey (w : Nat) (key : Text) (s : State) : State × Nat :=
  let x := s.next
  let s := s.push { JSON.new (x :: (s.get w).within) with parent := some w, key := key }
  let s := match json_object_get s.heap (s.get w).json key with
    | some json => s.reset x json
    | none => s.updateParent x
  (s.modify x fun J => { J with jsonPtrIsBorrowed := true }, x)

/-- `wrapper(index)`. -/
def wrapperIndex (w : Nat) (index : Nat) (s : State) : State × Nat :=
  let x := s.next
  let s := s.push { JSON.new (x :: (s.get w).within) with parent := some w, index := index }
  let s := s.onHeap (json_array_append_new (s.get w).json .null)^[index + 1 - s.size w]
  let s := match json_array_get s.heap (s.get w).json index with
    | some json => s.reset x json
    | none => s.updateParent x
  (s.modify x fun J => { J with jsonPtrIsBorrowed := true }, x)

/-- `fault`. -/
def fault (w : Nat) (s : State) : State × Nat :=
  match (s.get w).fault with
  | some f => (s, f)
  | none =>
      let f := s.next
      let s := s.push
        { JSON.new (f :: (s.get w).within) with type := .fault, failbit := true }
      (s.modify w fun J => { J with fault := some f }, f)

/-- The first child of `w` of some kind. -/
def child (s : State) (w : Nat) (p : JSON → Bool) : Option Nat :=
  s.wrappers.findIdx? fun J => J.alive && J.parent = some w && p J

/-- The last lines of `operator[](key)`. -/
def childKey (w : Nat) (key : Text) (s : State) : State × Nat :=
  match s.child w fun J => J.key = key with
  | some x => (s, x)
  | none => s.wrapperKey w key

/-- Puts a new value in the place of the wrapper's. -/
def put (w : Nat) (j : Ref) (s : State) : State := (s.reset w j).updateParent w

/-- `operator[](key)`. -/
def elementKey (w : Nat) (key : Text) (s : State) : State × Nat :=
  match (s.get w).type with
  | .object => s.childKey w key
  | .fault => (s, w)
  | .null => ((s.onHeap (Heap.alloc (.object []))).put w (.cell s.heap.fresh)).childKey w key
  | _ => (s.setFailBit w
      (cstr "Attempt to access \"" ++ key ++ cstr "\" of non-JSON_OBJECT")).fault w

/-- `operator[](index)`. -/
def elementIndex (w : Nat) (index : Nat) (s : State) : State × Nat :=
  match (s.get w).type with
  | .array =>
      match s.child w fun J => J.index = index with
      | some x => (s, x)
      | none => s.wrapperIndex w index
  | .fault => (s, w)
  | _ => (s.setFailBit w
      (cstr "Attempt to access [" ++ cstr (toString index) ++ cstr "] of non-JSON_ARRAY")).fault w

/-- `newElement()`. -/
def newElement (w : Nat) (s : State) : State × Nat := s.elementIndex w (s.size w)

/-! ### Reading -/

/-- `exist(key)`. -/
def existKey (s : State) (w : Nat) (key : Text) : Bool :=
  (s.get w).type = .object && (json_object_get s.heap (s.get w).json key).isSome

/-- `exist(index)`. -/
def existIndex (s : State) (w : Nat) (index : Nat) : Bool :=
  (s.get w).type = .array && (json_array_get s.heap (s.get w).json index).isSome

/-! ### Assignment -/

/-- `operator=(const char*)`. -/
def assignString (w : Nat) (str : Text) (s : State) : State :=
  match (s.get w).type with
  | .fault => s
  | .string => s.onHeap (json_string_set (s.get w).json str)
  | _ => (s.onHeap (Heap.alloc (.string str))).put w (.cell s.heap.fresh)

/-- `operator=(JsonInt)`. -/
def assignInteger (w : Nat) (val : Int) (s : State) : State :=
  match (s.get w).type with
  | .fault => s
  | .integer => s.onHeap (json_integer_set (s.get w).json val)
  | _ => (s.onHeap (Heap.alloc (.integer val))).put w (.cell s.heap.fresh)

/-- `operator=(bool)`. -/
def assignBool (w : Nat) (boolean : Bool) (s : State) : State :=
  match (s.get w).type with
  | .fault => s
  | _ => s.put w (.bool boolean)

/-- A copy of a `NULL` pointer failed; the text of the error is not initialized. -/
def copyFailed (w : Nat) (s : State) : State :=
  (s.setFailBit w []).modify w fun J => { J with type := .fault }

/-- `operator=(const JSON&)`. -/
def assignCopy (w v : Nat) (s : State) : Option State :=
  match (s.get v).json with
  | none => some (s.copyFailed w)
  | some j => (json_deep_copy j s.heap).map fun c => { s with heap := c.1 }.put w c.2

/-- `operator=(JSON&&)`. The type of `NULL` cannot be read. -/
def assignMove (w v : Nat) (s : State) : Option State :=
  (s.get v).json.map fun j =>
    ((s.reset w j).modify v fun J => { J with json := none }).updateParent w

/-! ### Erasing -/

/-- `erase(key)`. -/
def eraseKey (w : Nat) (key : Text) (s : State) : State × Nat :=
  if s.existKey w key then
    let (s, x) := s.elementKey w key
    let s := if (s.get x).jsonPtrIsBorrowed then
        s.onHeap (json_object_del (s.get w).json key)
      else s
    (s.delete (s.underChild w fun J => J.key = key), 1)
  else (s, 0)

/-- `erase(index)`. -/
def eraseIndex (w : Nat) (index : Nat) (s : State) : State × Nat :=
  if s.existIndex w index then
    let (s, x) := s.elementIndex w index
    let s := if (s.get x).jsonPtrIsBorrowed then
        s.onHeap (json_array_remove (s.get w).json index)
      else s
    (s.delete (s.underChild w fun J => J.index = index), 1)
  else (s, 0)

/-! ### Construction and destruction -/

/-- `JSON(type)`, and `JSON()` for null. -/
def construct (type : JSONType) (s : State) : State :=
  let x := s.next
  let s := s.push (JSON.new [x])
  let counted c := (s.onHeap (Heap.alloc c)).reset x (.cell s.heap.fresh)
  match type with
  | .object => counted (.object [])
  | .array => counted (.array [])
  | .string => counted (.string [])
  | .integer => counted (.integer 0)
  | .null => s.reset x .null
  | .fault => s.modify x fun J => { J with type := .fault, failbit := true }
  | _ => s

/-- `JSON(source)`, for a text or a file that was parsed or not. -/
def constructFrom (source : Option Tree) (s : State) : State :=
  let x := s.next
  let s := s.push (JSON.new [x])
  match source with
  | some t =>
      let (h, j) := load t s.heap
      { s with heap := h }.reset x j
  | none => (s.setFailBit x (cstr "Unable to parse JSON")).modify x fun J =>
      { J with type := .fault }

/-- `JSON(const JSON&)`. -/
def constructCopy (v : Nat) (s : State) : Option State :=
  let x := s.next
  let s := s.push (JSON.new [x])
  match (s.get v).json with
  | none => some (s.copyFailed x)
  | some j => (json_deep_copy j s.heap).map fun c => { s with heap := c.1 }.reset x c.2

/-- `JSON(JSON&&)`. -/
def constructMove (v : Nat) (s : State) : State :=
  let J := s.get v
  let s := s.push { JSON.new [s.next] with
    key := J.key, index := J.index, json := J.json, type := J.type, fault := J.fault
    failbit := J.failbit, errorStr := J.errorStr }
  if J.jsonPtrIsBorrowed then s.onHeap (json_incref J.json)
  else s.modify v fun J => { J with json := none }

/-- `~JSON`. -/
def destroy (v : Nat) (s : State) : State :=
  s.delete fun J => v ∈ J.within || (s.get v).fault.any (· ∈ J.within)

/-- The references that wrappers own. -/
def owners (s : State) : List Nat :=
  s.wrappers.flatMap fun J => if J.alive then J.owned else []

end State

end KappaGateway.JsonWrapper

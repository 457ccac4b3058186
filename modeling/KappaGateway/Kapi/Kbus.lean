import KappaGateway.Kapi.StoredTrees

/-!
# The log bus

A JSON object, the bus, with one array or object for each logger, that threads add values
to and that is written to a file as a whole from time to time. A logger keeps a pointer to
its own value, and the bus has the reference. Strings and names that are not UTF-8 are
refused by Jansson, which then drops the value.
-/

namespace KappaGateway.Kbus

open RefCount Kutil Jansson

def KBSTRUC : UInt8 := 0x01

def KBARRAY : UInt8 := 0x02

/-- A `kbData_t`. What a refresher does is no more than adding values. -/
structure KbData where
  data : Ref
  type : UInt8

/-- A `kbFile_t` with the memory of its values, and what was written to its path so far. -/
structure KbFile where
  heap : Memory
  seqNum : UInt32
  kbDataBus : Ref
  kbData : List KbData
  written : List (Option Tree)

/-- `kbOpen`. -/
def kbOpen : KbFile :=
  let (heap, bus) := load (.object []) ⟨[], []⟩
  ⟨heap, 0, bus, [], []⟩

/-- `json_array_append_new`, which takes a null pointer, too. -/
def appendNew (json : Ref) (value : Option Ref) (h : Memory) : Memory :=
  match value with
  | some v => json_array_append_new (some json) v h
  | none => h

/-- `json_object_set_new` with a name that may be a null pointer, or no UTF-8. -/
def setNew (utf8 : Text → Bool) (json : Ref) (name : Option Text) (value : Option Ref)
    (h : Memory) : Memory :=
  match name with
  | some key => if utf8 key then json_object_set_new (some json) key value h
      else json_decref value h
  | none => json_decref value h

/-- The value that one of the constructors of Jansson makes. -/
def construct (value : Option Tree) (h : Memory) : Memory × Option Ref :=
  match value with
  | some t => ((load t h).1, some (load t h).2)
  | none => (h, none)

/-- The value of a new logger. -/
def emptyValue (type : UInt8) : Tree := if type = KBSTRUC then .object [] else .array []

/-- `kbAddObj`, with the index of the new `kbData_t` as the handle. -/
def kbAddObj (utf8 : Text → Bool) (name : Option Text) (type : UInt8) (y : KbFile) :
    Option Nat × KbFile :=
  if type ≠ KBSTRUC ∧ type ≠ KBARRAY then (none, y)
  else
    let (heap, data) := load (emptyValue type) y.heap
    (some y.kbData.length, { y with
      heap := setNew utf8 y.kbDataBus name (some data) heap
      kbData := y.kbData ++ [⟨data, type⟩] })

/-- What `kbAddInt`, `kbAddStr` and `kbAddJSON` do under the semaphore. -/
def add (utf8 : Text → Bool) (x : KbData) (name : Option Text) (value : Option Tree)
    (h : Memory) : Memory :=
  if x.type = KBSTRUC then
    setNew utf8 x.data name (construct value h).2 (construct value h).1
  else if x.type = KBARRAY then appendNew x.data (construct value h).2 (construct value h).1
  else h

def kbAddInt (utf8 : Text → Bool) (x : KbData) (name : Option Text) (integer : Int) :
    Memory → Memory :=
  add utf8 x name (some (.integer integer))

/-- The string may be a null pointer, too. -/
def kbAddStr (utf8 : Text → Bool) (x : KbData) (name str : Option Text) : Memory → Memory :=
  add utf8 x name ((str.filter utf8).map Tree.string)

/-- `kbAddJSON`, together with the making of the value by its caller. -/
def kbAddJSON (utf8 : Text → Bool) (x : KbData) (name : Option Text) (json : Tree) :
    Memory → Memory :=
  add utf8 x name (some json)

def json_object_clear (json : Ref) (h : Memory) : Memory :=
  match objectAt h (some json) with
  | some (a, members) => (h.write a (.object [])).release (members.flatMap fun e => e.2.cells)
  | none => h

def json_array_clear (json : Ref) (h : Memory) : Memory :=
  match arrayAt h (some json) with
  | some (a, elements) => (h.write a (.array [])).release (elements.flatMap Ref.cells)
  | none => h

def resetKbData (x : KbData) (h : Memory) : Memory :=
  let h := if x.type = KBSTRUC then json_object_clear x.data h else h
  if x.type = KBARRAY then json_array_clear x.data h else h

def KbFile.onHeap (y : KbFile) (f : Memory → Memory) : KbFile := { y with heap := f y.heap }

/-- Sets an integer on the bus. -/
def setInteger (key : Text) (n : Int) (y : KbFile) : KbFile :=
  let (heap, v) := load (.integer n) y.heap
  { y with heap := json_object_set_new (some y.kbDataBus) key (some v) heap }

/-- The statements of `kbCommit` under the semaphore. -/
def setSeqnum (y : KbFile) : KbFile :=
  { setInteger (cstr "seqnum") y.seqNum.toNat y with seqNum := y.seqNum + 1 }

def setUnixtime (time : Int) : KbFile → KbFile := setInteger (cstr "unixtime") time

/-- `json_dump_file`, which is to succeed: the code does not look at what it returns. -/
def dumpFile (y : KbFile) : KbFile :=
  { y with written := y.written ++ [treeOf y.heap (some y.kbDataBus)] }

def resetAll (y : KbFile) : KbFile :=
  y.onHeap fun h => y.kbData.foldl (fun h x => resetKbData x h) h

/-- `kbClose`: what is left of the memory. The `kbData_t` are not freed. -/
def kbClose (y : KbFile) : Memory :=
  json_decref (some y.kbDataBus) (y.kbData.foldl (fun h x => json_decref (some x.data) h) y.heap)

/-- A call that adds a value to the logger with a handle, or one of `kbCommit`. -/
inductive Call where
  | kbAddInt (handle : Nat) (name : Option Text) (integer : Int)
  | kbAddStr (handle : Nat) (name str : Option Text)
  | kbAddJSON (handle : Nat) (name : Option Text) (json : Tree)
  | kbCommit (time : Int)

/-- A section on the logger with a handle. -/
def onLogger (handle : Nat) (f : KbData → Memory → Memory) (y : KbFile) : KbFile :=
  match y.kbData[handle]? with
  | some x => y.onHeap (f x)
  | none => y

/-- The instructions that a call executes under the semaphore. -/
def body (utf8 : Text → Bool) : Call → List (KbFile → KbFile)
  | .kbAddInt handle name integer =>
      [onLogger handle fun x => Kbus.kbAddInt utf8 x name integer]
  | .kbAddStr handle name str => [onLogger handle fun x => Kbus.kbAddStr utf8 x name str]
  | .kbAddJSON handle name json => [onLogger handle fun x => Kbus.kbAddJSON utf8 x name json]
  | .kbCommit time => [setSeqnum, setUnixtime time, dumpFile, resetAll]

end KappaGateway.Kbus

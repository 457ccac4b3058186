import KappaGateway.Lib.ForwardList
import KappaGateway.Lib.Transition

/-!
# The APS handler registry

Requests register a predicate, a callback and a `SyncInfo` at the front of a
linked list, keep an iterator to them, and take them out when they are served
or have waited long enough. `data_service` and `data_service_EXT` are the same
program over `AFMessage` and `AFMessage_EXT`; here the message type is a
variable. Requests are numbered, and `SyncInfo` objects by the request that
allocates them. Each section under `buffer__Mutex` is one step.
-/

namespace KappaGateway.DataService

open ForwardList Transition

variable {Msg Cb Addr : Type*}

/-- The arguments of a request. -/
structure Handlers (Msg Cb : Type*) where
  pred : Msg → Bool
  cb : Cb

structure SyncInfo where
  sync : Bool
  rdy : Bool
  deriving DecidableEq

def SyncInfo.arm (_ : SyncInfo) : SyncInfo := ⟨true, false⟩

def SyncInfo.disarm (x : SyncInfo) : SyncInfo := if !x.sync then x else ⟨false, true⟩

/-- `MsgRcvr_`, the third component by its address. -/
structure MsgRcvr (Msg Cb : Type*) where
  pred : Msg → Bool
  cb : Cb
  syncInfo : Nat

/-- The list, the iterators of the handles, the `SyncInfo` objects, the requests
whose handle has been constructed and not removed, newest first, and the
callbacks called so far. -/
structure State (Msg Cb Addr : Type*) where
  buffer : List (Node Addr (MsgRcvr Msg Cb))
  it : Nat → Option Addr
  syncInfo : Nat → SyncInfo
  registered : List Nat
  called : List (Cb × Msg)

def initial : State Msg Cb Addr := ⟨[], fun _ => none, fun _ => ⟨false, false⟩, [], []⟩

/-- `TxHandle::TxHandle` at the address the allocator chose, `arm` and `remove`
of request `i`, and `indicate`. -/
inductive Action (Msg Addr : Type*) where
  | construct (i : Nat) (addr : Addr)
  | arm (i : Nat)
  | remove (i : Nat)
  | indicate (msg : Msg)

/-- A request constructs its handle once, then arms and removes it. The
allocator may reuse the address of a cell that is gone. -/
def Enabled (s : State Msg Cb Addr) : Action Msg Addr → Prop
  | .construct i addr => s.it i = none ∧ addr ∉ s.buffer.map Node.addr
  | .arm i => i ∈ s.registered
  | .remove i => i ∈ s.registered
  | .indicate _ => True

section

variable [DecidableEq Addr]

instance (s : State Msg Cb Addr) (a : Action Msg Addr) : Decidable (Enabled s a) := by
  cases a <;> dsimp only [Enabled] <;> infer_instance

/-- `*data->it_`, where that is not dangling. -/
def State.target (s : State Msg Cb Addr) (i : Nat) : Option (MsgRcvr Msg Cb) :=
  (s.it i).bind (deref s.buffer)

/-- `TxHandle::remove`. -/
def remove (s : State Msg Cb Addr) (i : Nat) : State Msg Cb Addr :=
  { s with
    buffer := match s.it i with
      | some it => (swapFront s.buffer it).tail
      | none => s.buffer.tail
    registered := s.registered.erase i }

/-- `indicate`: the first entry whose predicate accepts the message is served. -/
def indicate (s : State Msg Cb Addr) (msg : Msg) : State Msg Cb Addr :=
  match s.buffer.find? (·.value.pred msg) with
  | some y =>
      { s with
        called := (y.value.cb, msg) :: s.called
        syncInfo := Function.update s.syncInfo y.value.syncInfo
          (s.syncInfo y.value.syncInfo).disarm }
  | none => s

def next (handlers : Nat → Handlers Msg Cb) (s : State Msg Cb Addr) :
    Action Msg Addr → State Msg Cb Addr
  | .construct i addr =>
      { s with
        buffer := ⟨addr, (handlers i).pred, (handlers i).cb, i⟩ :: s.buffer
        it := Function.update s.it i (some addr)
        syncInfo := Function.update s.syncInfo i ⟨false, false⟩
        registered := i :: s.registered }
  | .arm i =>
      match s.target i with
      | some y =>
          { s with
            syncInfo := Function.update s.syncInfo y.syncInfo (s.syncInfo y.syncInfo).arm }
      | none => s
  | .remove i => remove s i
  | .indicate msg => indicate s msg

/-- The step relation of the registry. -/
def Step (handlers : Nat → Handlers Msg Cb) (s : State Msg Cb Addr) (a : Action Msg Addr)
    (t : State Msg Cb Addr) : Prop :=
  Enabled s a ∧ t = next handlers s a

end

end KappaGateway.DataService

import KappaGateway.Kapi.RecvStr
import KappaGateway.Kintf.RequestText
import KappaGateway.Lib.Transition

/-!
# The local interface

Other processes send requests to the gateway over a socket of the host. A thread of the
gateway takes one connection after the other: it receives a text, has the request in it
handled, sends the response and closes the connection. A client sends its request and waits
five seconds for the first bytes of a response, whatever the gateway does meanwhile. The
thread sends without asking for errors, so that a response to a client that has closed its
end is a signal that ends the gateway.
-/

namespace KappaGateway.LocalInterface

open Kutil RecvStr RequestText Transition

variable {ι W : Type*} {Openable : Text → Prop}

/-! ### Receiving -/

/-- How a round of `recvStr` leaves the call. -/
inductive Received where
  | failed
  | goesOn (out : Text)
  | whole (out : Text)

/-- A round of `recvStr`, with what it has received before. -/
def recvRound (r : remote.Round) (out : Text) : Received :=
  match r.block with
  | none => .failed
  | some b => if remote.pred r then .goesOn (out ++ b) else .whole (out ++ b)

/-- What a round can find on a connection: bytes in their order, or the end of the stream
when the other side has closed; and `MSG_PEEK` finds what is left. A call may also fail. -/
def Reads (stream : Text) (ended : Bool) (r : remote.Round) : Prop :=
  ∀ b ∈ r.block, b <+: stream ∧ (b = [] → stream = [] ∧ ended) ∧
    (r.peek ↔ stream.drop b.length ≠ [])

instance (stream : Text) (ended : Bool) (r : remote.Round) : Decidable (Reads stream ended r) :=
  inferInstanceAs (Decidable (∀ b ∈ r.block, _))

/-! ### Clients -/

/-- What comes of `openUnixClientSock`: -1, or a socket. What `connect` returns is not looked
at, so that the socket may be one that is not connected. -/
inductive Opening where
  | failed
  | unconnected
  | connected

/-- How far `localRpcRequest` is. It waits from a time on. -/
inductive Phase where
  | called
  | connected
  | unconnected (since : Nat)
  | waiting (since : Nat)
  | receiving (out : Text)
  | returned (out : Text)
  | length_error
  deriving DecidableEq

/-- A client and its connection: the bytes under way in both directions, and whether the
gateway has closed its end. -/
structure Client where
  phase : Phase
  toServer : Text
  toClient : Text
  serverClosed : Bool

def Client.new : Client := ⟨.called, [], [], false⟩

/-- When a client that waits began to. -/
def Phase.since : Phase → Option Nat
  | .unconnected since | .waiting since => some since
  | _ => none

/-- The string that `recvStr` has built so far. -/
def Phase.out : Phase → Text
  | .receiving out => out
  | _ => []

/-- The client has closed its end. -/
def Client.closed (c : Client) : Bool :=
  match c.phase with
  | .returned _ | .length_error => true
  | _ => false

/-- `select` reports the socket of the client. -/
def Client.readable (c : Client) : Prop := c.toClient ≠ [] ∨ c.serverClosed

instance (c : Client) : Decidable c.readable := inferInstanceAs (Decidable (_ ∨ _))

/-- A socket that is not connected has nothing to read from. -/
def Client.Receives (c : Client) (r : remote.Round) : Prop :=
  match c.phase with
  | .unconnected _ => r.block = none
  | .waiting _ | .receiving _ => Reads c.toClient c.serverClosed r
  | _ => False

instance (c : Client) (r : remote.Round) : Decidable (c.Receives r) := by
  unfold Client.Receives
  split <;> infer_instance

/-! ### The gateway -/

/-- What the thread uses of the rest of the gateway: Jansson, the files, and what the
handler of a request answers. -/
structure Gateway (Openable : Text → Prop) (W : Type*) where
  jansson : Jansson
  files : W → FileSystem Openable
  response : RestfulWork → W → Text × W

/-- The callback of `hostUNIXSocketServer` on a text: the response, if there is one. -/
def Gateway.callback (G : Gateway Openable W) (text : Text) (w : W) : Option Text × W :=
  match (hostUNIXSocketServer G.jansson (G.files w) text).2 with
  | none => (none, w)
  | some work => (some (G.response work w).1, (G.response work w).2)

/-- How far `hostUNIXSocketServer` is, and with which connection. -/
inductive Server (ι : Type*) where
  | listening
  | receiving (i : ι) (out : Text)
  | received (i : ι) (text : Text)
  | answering (i : ι) (rsp : Text)
  | finishing (i : ι) (rest : Text)
  | killed
  deriving DecidableEq

/-- The time in whole seconds, the rest of the gateway, the connections that were not accepted yet,
the thread and the clients. -/
structure State (ι W : Type*) where
  now : Nat
  world : W
  queue : List ι
  server : Server ι
  clients : ι → Client

def init (w : W) : State ι W := ⟨0, w, [], .listening, fun _ => .new⟩

/-! ### Steps -/

/-- Time passes and other threads do something; a client opens its socket, sends some of its
text, gives up in `select`, or receives; the thread accepts, receives, calls the handler,
sends, and closes the connection. `send` of the thread blocks, and may be overtaken by the
client after each piece. A client that gives up closes its socket at once: what the thread
sends between its `select` and its `close` is left out. -/
inductive Action (ι W : Type*) where
  | tick (d : Nat)
  | elsewhere (w : W)
  | openUnixClientSock (i : ι) (opening : Opening)
  | send (i : ι) (n : Nat)
  | timeout (i : ι)
  | selectFails (i : ι)
  | recv (i : ι) (r : remote.Round)
  | accept
  | svrRecv (r : remote.Round)
  | handle
  | svrSend (n : Nat)
  | svrSendOn (n : Nat)
  | close

variable (call : ι → Text)

/-- Nothing happens any more when the gateway was killed. -/
def Enabled (s : State ι W) (a : Action ι W) : Prop :=
  s.server ≠ .killed ∧
    match a with
    | .tick _ | .elsewhere _ => True
    | .openUnixClientSock i _ => (s.clients i).phase = .called
    | .send i n => (s.clients i).phase = .connected ∧ n ≤ (call i).length
    | .timeout i =>
        (∃ since ∈ (s.clients i).phase.since, since + 5 ≤ s.now) ∧ ¬ (s.clients i).readable
    | .selectFails i => (s.clients i).phase.since.isSome
    | .recv i r => (s.clients i).Receives r
    | .accept => s.server = .listening ∧ s.queue ≠ []
    | .svrRecv r =>
        match s.server with
        | .receiving i _ => Reads (s.clients i).toServer (s.clients i).closed r
        | _ => False
    | .handle =>
        match s.server with
        | .received _ _ => True
        | _ => False
    | .svrSend n =>
        match s.server with
        | .answering _ rsp => n ≤ rsp.length
        | _ => False
    | .svrSendOn n =>
        match s.server with
        | .finishing i rest => ¬ (s.clients i).closed ∧ n ≤ rest.length
        | _ => False
    | .close =>
        match s.server with
        | .finishing i rest => rest = [] ∨ (s.clients i).closed
        | _ => False

instance [DecidableEq ι] (s : State ι W) (a : Action ι W) : Decidable (Enabled call s a) := by
  cases a <;> dsimp only [Enabled] <;> (try split) <;> infer_instance

/-- The thread goes on. -/
def State.serve (s : State ι W) (server : Server ι) : State ι W := { s with server := server }

variable [DecidableEq ι] (G : Gateway Openable W)

def State.modify (s : State ι W) (i : ι) (f : Client → Client) : State ι W :=
  { s with clients := Function.update s.clients i (f (s.clients i)) }

def State.goto (s : State ι W) (i : ι) (phase : Phase) : State ι W :=
  s.modify i fun c => { c with phase := phase }

section

variable (s : State ι W) (i : ι)

@[simp] theorem modify_clients (f : Client → Client) :
    (s.modify i f).clients = Function.update s.clients i (f (s.clients i)) := rfl

@[simp] theorem modify_server (f : Client → Client) : (s.modify i f).server = s.server := rfl

@[simp] theorem modify_queue (f : Client → Client) : (s.modify i f).queue = s.queue := rfl

@[simp] theorem modify_now (f : Client → Client) : (s.modify i f).now = s.now := rfl

@[simp] theorem goto_clients (phase : Phase) : (s.goto i phase).clients =
    Function.update s.clients i { s.clients i with phase := phase } := rfl

@[simp] theorem goto_server (phase : Phase) : (s.goto i phase).server = s.server := rfl

@[simp] theorem goto_queue (phase : Phase) : (s.goto i phase).queue = s.queue := rfl

@[simp] theorem goto_now (phase : Phase) : (s.goto i phase).now = s.now := rfl

end

section

variable {ι W : Type*} (s : State ι W) (server : Server ι)

@[simp] theorem serve_clients : (s.serve server).clients = s.clients := rfl

@[simp] theorem serve_server : (s.serve server).server = server := rfl

@[simp] theorem serve_queue : (s.serve server).queue = s.queue := rfl

@[simp] theorem serve_now : (s.serve server).now = s.now := rfl

end

/-- The client has received a block, or `recv` has failed. -/
def Client.recv (r : remote.Round) (c : Client) : Client :=
  match recvRound r c.phase.out with
  | .failed => { c with phase := .length_error }
  | .goesOn out =>
      { c with phase := .receiving out, toClient := c.toClient.drop (r.block.getD []).length }
  | .whole out =>
      { c with phase := .returned out, toClient := c.toClient.drop (r.block.getD []).length }

/-- The block is taken from what is under way to the thread. -/
def Client.taken (r : remote.Round) (c : Client) : Client :=
  { c with toServer := c.toServer.drop (r.block.getD []).length }

/-- A piece of the response gets under way to the client. -/
def Client.pushed (piece : Text) (c : Client) : Client :=
  { c with toClient := c.toClient ++ piece }

def next (s : State ι W) : Action ι W → State ι W
  | .tick d => { s with now := s.now + d }
  | .elsewhere w => { s with world := w }
  | .openUnixClientSock i .failed =>
      s.goto i (.returned (cstr "failed to open kappaio-usock"))
  | .openUnixClientSock i .unconnected => s.goto i (.unconnected s.now)
  | .openUnixClientSock i .connected => { s with queue := s.queue ++ [i] }.goto i .connected
  | .send i n =>
      s.modify i fun c => { c with phase := .waiting s.now, toServer := (call i).take n }
  | .timeout i | .selectFails i => s.goto i (.returned [])
  | .recv i r => s.modify i (Client.recv r)
  | .accept =>
      match s.queue with
      | i :: rest => { s with queue := rest }.serve (.receiving i [])
      | [] => s
  | .svrRecv r =>
      match s.server with
      | .receiving i out =>
          match recvRound r out with
          | .failed => s.serve .killed
          | .goesOn out => (s.modify i (Client.taken r)).serve (.receiving i out)
          | .whole out => (s.modify i (Client.taken r)).serve (.received i out)
      | _ => s
  | .handle =>
      match s.server with
      | .received i text =>
          let (rsp, w) := G.callback text s.world
          { s with world := w }.serve (rsp.elim (.finishing i []) (.answering i))
      | _ => s
  | .svrSend n =>
      match s.server with
      | .answering i rsp =>
          if (s.clients i).closed then s.serve .killed
          else (s.modify i (Client.pushed (rsp.take n))).serve (.finishing i (rsp.drop n))
      | _ => s
  | .svrSendOn n =>
      match s.server with
      | .finishing i rest =>
          (s.modify i (Client.pushed (rest.take n))).serve (.finishing i (rest.drop n))
      | _ => s
  | .close =>
      match s.server with
      | .finishing i _ =>
          (s.modify i fun c => { c with serverClosed := true }).serve .listening
      | _ => s

def Step (s : State ι W) (a : Action ι W) (t : State ι W) : Prop :=
  Enabled call s a ∧ t = next call G s a

end KappaGateway.LocalInterface

import KappaGateway.Kapi.Connections
import KappaGateway.Kapi.Selects
import KappaGateway.Kintf.RemoteAccess

/-!
# The link to the server

A thread pings the server over UDP, as long as remote access is enabled, and listens on the
socket in between. Every hour it asks for an answer; a quarter of an hour later it takes the
link for broken and opens another socket, in every turn until there is an answer. Requests to
sign in and out come from other threads at any time, also between the reading of the token and
the sending of the ping; and a file that is being written is empty at first. Each reading of
the clock is part of the action that makes it.
-/

namespace KappaGateway.RemoteLink

open Transition Kutil Kjson RequestText RemoteAccess Connections

/-- The intervals of `onePing`, in seconds. -/
def minReqIntv_ : Int := 45

def minRspIntv_ : Int := 3600

def bii_ : Int := 900

/-- The members of `onePing_` that change. They are of type `int`, which the readings of the
clock are to fit. -/
structure OnePing where
  lastReq_ : Int
  lastRsp_ : Int

def OnePing.brokenLink (time : Int) (onePing : OnePing) : Prop :=
  time - onePing.lastRsp_ - minRspIntv_ > bii_

instance (time : Int) (onePing : OnePing) : Decidable (onePing.brokenLink time) :=
  inferInstanceAs (Decidable (_ < _))

/-- A ping with the readings of the clock that it took: when it was due, `tod`, and the one
it is remembered by. -/
structure Ping where
  due : Int
  tod : Int
  token : Text
  wantrsp : Bool
  stamp : Int
  deriving DecidableEq

/-- What is sent. -/
def Ping.pl_ (p : Ping) : Doc :=
  .object [(cstr "ver", .integer 2), (cstr "uri", .string (cstr "ping/req")),
    (cstr "tod", .integer p.tod),
    (cstr "arg", .object [(cstr "tkn", .string p.token), (cstr "rsp", .bool p.wantrsp)])]

/-- What `startUDPServer000` does next. -/
inductive Phase where
  | enable
  | brokenLink
  | deviceToken
  | onePing
  | listenOnce
  deriving DecidableEq

/-- The variables of `startUDPServer000`, the last reading of the clock, what can be read from
the file, the token that the ping on hand has read, and the pings so far. `bound` is whether
the socket has a port: it gets one when it sends. `asked` is when the server was first asked
for an answer since it last gave one. -/
structure State where
  now : Int
  device_data : Option Doc
  server : UDPConn
  host : Host
  S : Selects.State Unit
  onePing : OnePing
  phase : Phase
  token : Text
  sent : List Ping
  bound : Bool
  asked : Option Int

/-- The variables before the loop. -/
def init (now : Int) (device_data : Option Doc) (a : Acquisition) : State where
  now := now
  device_data := device_data
  server := (UDPConn.new 10 a.openings .empty).1
  host := (UDPConn.new 10 a.openings .empty).2
  S := Selects.init
  onePing := ⟨0, 0⟩
  phase := .enable
  token := []
  sent := []
  bound := false
  asked := none

/-- `truncated` is the opening of the file by a request that signs in, which `sign` completes;
both may come at any time, but requests do not overlap. An action of the thread takes its
readings of the clock from the system, and for `listenOnce` how `select` ends and the URI of
the datagram, if there is one. The token is read ahead of the clock, which is not seen: no
request reads the clock, and a ping that is not due drops the token. -/
inductive Action (Openable : Text → Prop) where
  | truncated
  | sign (x : Request Openable)
  | enabled
  | disabled (time : Int)
  | brokenLink (time : Int) (a : Acquisition)
  | deviceToken
  | onePing (due tod want stamp : Int)
  | listenOnce (time : Int) (outcomes : List Selects.Outcome) (datagram : Option Text)

/-- The reset that follows a broken link. -/
def State.reset (time : Int) (a : Acquisition) (s : State) : State :=
  let (server, host) := s.server.reset 10 a.openings s.host
  { s with
    now := time
    server := server
    host := host
    S := Selects.rFD_SET server.fd_.toNat () (Selects.reset s.S)
    phase := .deviceToken
    bound := false }

/-- The call of `onePing`, with the token that it has read. -/
def State.ping (due tod want stamp : Int) (s : State) : State :=
  if due - s.onePing.lastReq_ < minReqIntv_ then { s with now := due, phase := .listenOnce }
  else
    let wantrsp := decide (want - s.onePing.lastRsp_ > minRspIntv_)
    { s with
      now := stamp
      onePing := { s.onePing with lastReq_ := stamp }
      phase := .listenOnce
      sent := s.sent ++ [⟨due, tod, s.token, wantrsp, stamp⟩]
      bound := true
      asked := if wantrsp then s.asked.or (some stamp) else s.asked }

/-- The callback of the socket, where an answer is for `onePing`. -/
def State.receive (time : Int) (datagram : Option Text) (s : State) : State :=
  if datagram = some (cstr "ping/rsp") then
    { s with onePing := { s.onePing with lastRsp_ := time }, asked := none }
  else s

/-- The callbacks that `listenOnce` invokes. -/
def State.callbacks (outcomes : List Selects.Outcome) (s : State) : List Unit :=
  (Selects.listenOnce s.S outcomes).getD []

def State.listen (time : Int) (outcomes : List Selects.Outcome) (datagram : Option Text)
    (s : State) : State :=
  (s.callbacks outcomes).foldl (fun s _ => s.receive time datagram)
    { s with now := time, phase := .enable }

section

variable {Openable : Text → Prop}

/-- The clock does not go back, descriptors of new sockets are not open, and nothing arrives
at a socket without a port. -/
def Enabled (s : State) : Action Openable → Prop
  | .truncated => True
  | .sign _ => True
  | .enabled => s.phase = .enable ∧ remoteAccessIsEnabled s.device_data
  | .disabled time => s.phase = .enable ∧ ¬ remoteAccessIsEnabled s.device_data ∧ s.now ≤ time
  | .brokenLink time a => s.phase = .brokenLink ∧ s.now ≤ time ∧
      (s.onePing.brokenLink time → a.fd ∉ (s.server.freeResrc s.host).fds)
  | .deviceToken => s.phase = .deviceToken
  | .onePing due tod want stamp =>
      s.phase = .onePing ∧ s.now ≤ due ∧ due ≤ tod ∧ tod ≤ want ∧ want ≤ stamp
  | .listenOnce time outcomes datagram => s.phase = .listenOnce ∧ s.now ≤ time ∧
      (Selects.listenOnce s.S outcomes).isSome ∧
      (s.callbacks outcomes ≠ [] → datagram.isSome → s.bound)

instance (s : State) : (a : Action Openable) → Decidable (Enabled s a)
  | .truncated => inferInstanceAs (Decidable True)
  | .sign _ => inferInstanceAs (Decidable True)
  | .enabled => inferInstanceAs (Decidable (_ ∧ _))
  | .disabled _ => inferInstanceAs (Decidable (_ ∧ _))
  | .brokenLink _ _ => inferInstanceAs (Decidable (_ ∧ _))
  | .deviceToken => inferInstanceAs (Decidable (_ = _))
  | .onePing _ _ _ _ => inferInstanceAs (Decidable (_ ∧ _))
  | .listenOnce _ _ _ => inferInstanceAs (Decidable (_ ∧ _))

def next (J : Jansson) (hwAddr : Text) (s : State) : Action Openable → State
  | .truncated => { s with device_data := none }
  | .sign x => { s with device_data := (sign_in_handle J hwAddr x s.device_data).device_data }
  | .enabled => { s with phase := .brokenLink }
  | .disabled time => { s with now := time }
  | .brokenLink time a =>
      if s.onePing.brokenLink time then s.reset time a
      else { s with now := time, phase := .deviceToken }
  | .deviceToken => { s with token := deviceToken s.device_data, phase := .onePing }
  | .onePing due tod want stamp => s.ping due tod want stamp
  | .listenOnce time outcomes datagram => s.listen time outcomes datagram

def Step (J : Jansson) (hwAddr : Text) (s : State) (a : Action Openable) (s' : State) : Prop :=
  Enabled s a ∧ s' = next J hwAddr s a

/-- The step finds the link broken and opens another socket. -/
def Resets : State × Action Openable × State → Prop
  | (s, .brokenLink time _, _) => s.onePing.brokenLink time
  | _ => False

/-- The step sends a ping. -/
def Sends : State × Action Openable × State → Prop
  | (s, .onePing due _ _ _, _) => ¬ due - s.onePing.lastReq_ < minReqIntv_
  | _ => False

/-- The step receives a datagram. -/
def Receives : State × Action Openable × State → Prop
  | (s, .listenOnce _ outcomes datagram, _) => s.callbacks outcomes ≠ [] ∧ datagram.isSome
  | _ => False

end

/-- A turn in which a socket is opened, a ping is sent and an answer is received. -/
def firstTurn (time : Int) (fd : Nat) : List (Action fun _ => False) :=
  [.enabled, .brokenLink time ⟨[], fd⟩, .deviceToken, .onePing time time time time,
    .listenOnce (time + 1) [.ready {fd}] (some (cstr "ping/rsp"))]

/-- A turn in which a ping is sent and nothing is received. -/
def laterTurn (time : Int) : List (Action fun _ => False) :=
  [.enabled, .brokenLink time ⟨[], 0⟩, .deviceToken, .onePing time time time time,
    .listenOnce (time + 10) [.ready ∅] none]

end KappaGateway.RemoteLink

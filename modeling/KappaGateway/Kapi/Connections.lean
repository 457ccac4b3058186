import Mathlib.Data.Finset.Card
import Mathlib.Logic.Function.Basic
import KappaGateway.Lib.Transition

/-!
# Sockets and address lists

What the connections take from the operating system and give back. A UDP connection closes
its socket and frees its address list when it is reset; a TLS connection goes through a list
of addresses, a socket and an SSL structure. Attempts that fail are repeated.
-/

namespace KappaGateway.Connections

open Transition

/-- What was opened and not closed, what was allocated and not freed, and how often
something was freed that is no address list. -/
structure Host where
  fds : Finset Nat
  infos : Finset Nat
  allocated : Nat
  ssls : Nat
  wild : Nat

def Host.empty : Host := ⟨∅, ∅, 0, 0, 0⟩

def Host.open (fd : Nat) (h : Host) : Host := { h with fds := insert fd h.fds }

def Host.close (fd : Nat) (h : Host) : Host := { h with fds := h.fds.erase fd }

/-- An address list, named by the number of lists before it. -/
def Host.getaddrinfo (h : Host) : Option Nat × Host :=
  (some h.allocated, { h with infos := insert h.allocated h.infos, allocated := h.allocated + 1 })

/-- A pointer that was never set has no name. -/
def Host.freeaddrinfo (ai : Option Nat) (h : Host) : Host :=
  match ai with
  | some i => if i ∈ h.infos then { h with infos := h.infos.erase i }
      else { h with wild := h.wild + 1 }
  | none => { h with wild := h.wild + 1 }

/-- How opening a socket ends: without an address, without a socket, or with one. -/
inductive Opening where
  | noAddress
  | noSocket
  | socket (fd : Nat)

/-- `open_sock_`: the descriptor, or -1, and what is in `*result`. -/
def open_sock_ (o : Opening) (result : Option Nat) (h : Host) : Int × Option Nat × Host :=
  match o with
  | .noAddress => (-1, result, h)
  | .noSocket => (-1, h.getaddrinfo)
  | .socket fd => (fd, h.getaddrinfo.1, h.getaddrinfo.2.open fd)

/-! ### UDP -/

/-- The members of a `UDPConn` that change. -/
structure UDPConn where
  fd_ : Int
  ai_ : Option Nat

def UDPConn.freeResrc (c : UDPConn) (h : Host) : Host :=
  let h := if c.fd_ > 0 then h.close c.fd_.toNat else h
  if c.ai_.isSome then h.freeaddrinfo c.ai_ else h

/-- `acqrResrc`, with how each opening of its loop ends. -/
def UDPConn.acqrResrc (rt_ : Int) : List Opening → UDPConn → Host → UDPConn × Host
  | [], c, h => (c, h)
  | o :: rest, c, h =>
      let (fd, ai, h') := open_sock_ o c.ai_ h
      if fd < 0 ∧ rt_ > 0 then acqrResrc rt_ rest ⟨fd, ai⟩ h' else (⟨fd, ai⟩, h')

/-- The constructor. -/
def UDPConn.new (rt_ : Int) (openings : List Opening) (h : Host) : UDPConn × Host :=
  acqrResrc rt_ openings ⟨-1, none⟩ h

def UDPConn.reset (rt_ : Int) (openings : List Opening) (c : UDPConn) (h : Host) :
    UDPConn × Host :=
  acqrResrc rt_ openings c (c.freeResrc h)

/-! ### TLS -/

/-- `sslWaitOn`: what `fn` returned last, and how often it was called. `wants` is whether
the first error is one that asks for another call. -/
def sslWaitOn (timeoutSec : Nat) (fn : Nat → Int) (wants : Bool) : Int × Nat :=
  if fn 0 ≥ 0 ∨ ¬ wants then (fn 0, 1)
  else
    let rec wait : Nat → Nat → Int × Nat
      | 0, calls => (fn (calls - 1), calls)
      | turns + 1, calls => if fn calls ≥ 0 then (fn calls, calls + 1) else wait turns (calls + 1)
    wait (timeoutSec * 1000000 / 10000) 1

/-- How `connect` ends within five seconds. -/
inductive Connecting where
  | timeout
  | refused
  | connected

def openTCP (o : Opening) (connecting : Connecting) (h : Host) : Int × Host :=
  let (socketfd, result, h) := open_sock_ o none h
  if socketfd < 0 then (-1, h.freeaddrinfo result)
  else match connecting with
    | .timeout => (-1, h)
    | .refused => (-1, (h.freeaddrinfo result).close socketfd.toNat)
    | .connected => (socketfd, h.freeaddrinfo result)

/-- What the functions of the TLS library return. -/
structure Handshake where
  connect : Nat → Int
  connectWants : Bool
  verified : Bool
  handshake : Nat → Int
  handshakeWants : Bool

/-- The certificate is accepted, and both loops end well. -/
def Handshake.Succeeds (x : Handshake) : Prop :=
  (sslWaitOn 15 x.connect x.connectWants).1 ≥ 0 ∧ x.verified ∧
    (sslWaitOn 15 x.handshake x.handshakeWants).1 ≥ 0

instance (x : Handshake) : Decidable x.Succeeds := inferInstanceAs (Decidable (_ ∧ _))

/-- `openSSLConn`: the descriptor of the SSL structure, unless it is a null pointer. -/
def openSSLConn (o : Opening) (connecting : Connecting) (x : Handshake) (h : Host) :
    Option Nat × Host :=
  let (fd_, h) := openTCP o connecting h
  if fd_ < 0 then (none, h)
  else
    let h := { h with ssls := h.ssls + 1 }
    if x.Succeeds then (some fd_.toNat, h)
    else (none, { h.close fd_.toNat with ssls := h.ssls - 1 })

/-- One call of `openSSLConn`. -/
structure Attempt where
  opening : Opening
  connecting : Connecting
  handshake : Handshake

/-- The destructor of `sslCliConn`. -/
def closeSSL (ssl : Option Nat) (h : Host) : Host :=
  match ssl with
  | some fd => { h.close fd with ssls := h.ssls - 1 }
  | none => h

/-! ### Runs -/

/-- How the openings of one `acqrResrc` fail until one succeeds. -/
structure Acquisition where
  failures : List Bool
  fd : Nat

/-- A failure is one without a socket, or one without an address. -/
def Acquisition.openings (a : Acquisition) : List Opening :=
  a.failures.map (fun found => if found then .noSocket else .noAddress) ++ [.socket a.fd]

/-- A reset, where the operating system returns a descriptor that is not open. -/
def ResetStep (rt_ : Int) (s : UDPConn × Host) (a : Acquisition) (s' : UDPConn × Host) : Prop :=
  a.fd ∉ (s.1.freeResrc s.2).fds ∧ s' = s.1.reset rt_ a.openings s.2

/-- The descriptors of the connections that threads have. The constructor of `sslCliConn`
attempts until it has one, with a sleep in between. -/
structure State (T : Type*) where
  host : Host
  ssl : T → Option Nat

def init {T : Type*} : State T := ⟨.empty, fun _ => none⟩

inductive Action (T : Type*) where
  | attempt (t : T) (a : Attempt)
  | free (t : T)

section

variable {T : Type*}

/-- The operating system returns a descriptor that is not open. -/
def Enabled (s : State T) : Action T → Prop
  | .attempt t a => s.ssl t = none ∧ ∀ fd, a.opening = .socket fd → fd ∉ s.host.fds
  | .free t => (s.ssl t).isSome

variable [DecidableEq T]

def next (s : State T) : Action T → State T
  | .attempt t a =>
      let (ssl, host) := openSSLConn a.opening a.connecting a.handshake s.host
      ⟨host, Function.update s.ssl t ssl⟩
  | .free t => ⟨closeSSL (s.ssl t) s.host, Function.update s.ssl t none⟩

def Step (s : State T) (a : Action T) (s' : State T) : Prop := Enabled s a ∧ s' = next s a

end

/-- A connection was not there within five seconds. -/
def Action.timesOut {T : Type*} : Action T → Bool
  | .attempt _ ⟨.socket _, .timeout, _⟩ => true
  | _ => false

/-- The name of the server had no address. -/
def Action.noAddress {T : Type*} : Action T → Bool
  | .attempt _ ⟨.noAddress, _, _⟩ => true
  | _ => false

end KappaGateway.Connections

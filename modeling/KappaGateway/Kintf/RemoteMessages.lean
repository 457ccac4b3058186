import KappaGateway.Kapi.Notification
import KappaGateway.Kintf.RequestText

/-!
# Messages from the server

A datagram is an answer to a ping, or says that there is a message, which is then fetched
over a TLS connection and answered on it. Both are dispatched by their URI through the maps
of the notifications, which other parts of the program use as well; the functions differ in
the type of their argument, so that no datagram calls a function for fetched messages and no
fetched message calls one for datagrams. Over any run, the interface does what the protocol
says, with the functions that are registered by then.
-/

namespace KappaGateway.RemoteMessages

open Kjson Kutil RequestText Notification

/-- The types of functions: `void(cbCtx&)`, `void(cbContext&)` and `void(Context)`. -/
inductive Wrapper where
  | cbCtx
  | cbContext
  | context
  deriving DecidableEq

/-- The functions of the interface: the lambda of `onePing_`, and three others. -/
inductive Remote where
  | pingrsp
  | getMsg
  | handleRestful
  | widgetHandle
  deriving DecidableEq

def Remote.uri : Remote → Text
  | .pingrsp => cstr "ping/rsp"
  | .getMsg => cstr "msg/ind"
  | .handleRestful => cstr "restful/req"
  | .widgetHandle => cstr "widget/req"

def Remote.wrapper : Remote → Wrapper
  | .pingrsp => .cbCtx
  | .getMsg => .cbCtx
  | .handleRestful => .cbContext
  | .widgetHandle => .cbContext

/-- A function that is registered: one of the interface, or another one. -/
inductive Function where
  | remote (f : Remote)
  | application (n : Nat)

abbrev Maps := Repository Text Text Wrapper Function

abbrev Operation := Op Text Text Wrapper Function

/-- The event of `simpleHandler` and `simpleTrigger`. -/
def simpleEvent : Text := cstr "_"

def simpleHandler (f : Remote) : Operation :=
  .handler simpleEvent f.uri f.wrapper (.remote f)

/-- What the rest of the program does to the maps, with events of its own. -/
abbrev Foreign := { op : Operation // op.place.1 ≠ simpleEvent }

/-- What the interface does: it takes an answer to a ping, fetches the message that an
argument stands for, hands an argument on, or sends a response. -/
inductive Effect where
  | answered
  | fetched (arg : Text)
  | restful (arg : Text)
  | widget (arg : Text)
  | responded (rsp : Text)
  deriving DecidableEq

/-- What other threads do: they register functions of the interface at start-up, or others. -/
inductive Other where
  | register (f : Remote)
  | foreign (op : Foreign)

def Other.perform (maps : Maps) : Other → Maps
  | .register f => next maps (simpleHandler f)
  | .foreign op => next maps op.1

variable {Openable : Text → Prop} (J : Jansson)

/-- A datagram with the files at its time, what other threads do until its message is there,
the message, if it is there within two seconds, and what the two handlers would return. -/
structure Datagram (Openable : Text → Prop) where
  fs : FileSystem Openable
  text : Text
  meanwhile : List Other
  message : Option Text
  restful : Text → Text
  widget : Text → Text

/-- The URI and the argument of a text. -/
def uriOf (fs : FileSystem Openable) (text : Text) : Text :=
  toText ((JSON J fs text).bind (elem (cstr "uri")))

def argOf (fs : FileSystem Openable) (text : Text) : Text :=
  toText ((JSON J fs text).bind (elem (cstr "arg")))

/-- A function with a `cbContext`. -/
def Function.onMessage (arg : Text) (d : Datagram Openable) : Function → List Effect
  | .remote .handleRestful => [.restful arg, .responded (d.restful arg)]
  | .remote .widgetHandle => [.widget arg, .responded (d.widget arg)]
  | _ => []

def getMsg (arg : Text) (d : Datagram Openable) (maps : Maps) : List Effect × Maps :=
  let maps := d.meanwhile.foldl Other.perform maps
  match d.message with
  | none => ([.fetched arg], maps)
  | some text =>
      let (functions, maps) := trigger simpleEvent (uriOf J d.fs text) Wrapper.cbContext maps
      (.fetched arg :: functions.flatMap (Function.onMessage (argOf J d.fs text) d),
        maps)

/-- A function with a `cbCtx`. -/
def Function.onDatagram (arg : Text) (d : Datagram Openable) (maps : Maps) :
    Function → List Effect × Maps
  | .remote .pingrsp => ([.answered], maps)
  | .remote .getMsg => getMsg J arg d maps
  | _ => ([], maps)

/-- The callback of the socket. -/
def receive (d : Datagram Openable) (maps : Maps) : List Effect × Maps :=
  let (functions, maps) := trigger simpleEvent (uriOf J d.fs d.text) Wrapper.cbCtx maps
  functions.foldl (fun s f =>
    let (effects, maps) := f.onDatagram J (argOf J d.fs d.text) d s.2
    (s.1 ++ effects, maps)) ([], maps)

/-- Datagrams may come before all functions are registered. -/
inductive Input (Openable : Text → Prop) where
  | other (o : Other)
  | datagram (d : Datagram Openable)

def step (s : List Effect × Maps) : Input Openable → List Effect × Maps
  | .other o => (s.1, o.perform s.2)
  | .datagram d =>
      let (effects, maps) := receive J d s.2
      (s.1 ++ effects, maps)

/-- The effects of some inputs, from empty maps. -/
def run (inputs : List (Input Openable)) : List Effect × Maps :=
  inputs.foldl (step J) ([], [])

/-! ### The protocol -/

/-- What is to be done for a fetched message. -/
def messageEffects (registered : List Remote) (d : Datagram Openable) (uri arg : Text) :
    List Effect :=
  if uri = cstr "restful/req" ∧ .handleRestful ∈ registered then
    [.restful arg, .responded (d.restful arg)]
  else if uri = cstr "widget/req" ∧ .widgetHandle ∈ registered then
    [.widget arg, .responded (d.widget arg)]
  else []

/-- The functions of the interface that are registered after another thread did something. -/
def Other.registers (registered : List Remote) : Other → List Remote
  | .register f => f :: registered
  | .foreign _ => registered

/-- What is to be done for a datagram, and the functions that are registered then. -/
def datagramEffects (registered : List Remote) (d : Datagram Openable) :
    List Effect × List Remote :=
  if uriOf J d.fs d.text = cstr "ping/rsp" ∧ .pingrsp ∈ registered then ([.answered], registered)
  else if uriOf J d.fs d.text = cstr "msg/ind" ∧ .getMsg ∈ registered then
    let registered := d.meanwhile.foldl Other.registers registered
    (.fetched (argOf J d.fs d.text) :: match d.message with
      | none => []
      | some text => messageEffects registered d (uriOf J d.fs text) (argOf J d.fs text),
      registered)
  else ([], registered)

/-- What is to be done for some inputs. -/
def protocol (registered : List Remote) : List (Input Openable) → List Effect
  | [] => []
  | .other o :: rest => protocol (o.registers registered) rest
  | .datagram d :: rest =>
      (datagramEffects J registered d).1 ++ protocol (datagramEffects J registered d).2 rest

/-- The function with a URI and a type, if it is registered. -/
def registeredAt (registered : List Remote) (uri : Text) (index : Wrapper) : Option Remote :=
  registered.find? fun f => f.uri = uri ∧ f.wrapper = index

/-- The maps have the functions that are registered, and no other with the event of the
interface. -/
def Agrees (registered : List Remote) (maps : Maps) : Prop :=
  ∀ uri index, KeyedList.valueAt index (container simpleEvent uri maps) =
    (registeredAt registered uri index).map Function.remote

section

variable {J} {registered : List Remote} {maps : Maps}

theorem uri_injective {f g : Remote} (heq : f.uri = g.uri) : f = g := by
  cases f <;> cases g <;> first | rfl | exact absurd heq (by decide)

theorem registeredAt_eq_some_iff {uri : Text} {index : Wrapper} {f : Remote} :
    registeredAt registered uri index = some f ↔
      f ∈ registered ∧ f.uri = uri ∧ f.wrapper = index := by
  constructor
  · intro hfound
    have hf := List.find?_some hfound
    exact ⟨List.mem_of_find?_eq_some hfound, of_decide_eq_true hf⟩
  · rintro ⟨hmem, rfl, rfl⟩
    cases hfound : registeredAt registered f.uri f.wrapper with
    | none =>
        have hnone := List.find?_eq_none.mp hfound f hmem
        simp at hnone
    | some g =>
        have hg := List.find?_some hfound
        rw [uri_injective (of_decide_eq_true hg).1]

theorem agrees_nil : Agrees [] [] := fun _ _ => rfl

theorem Agrees.register (hagrees : Agrees registered maps) (f : Remote) :
    Agrees (f :: registered) (next maps (simpleHandler f)) := by
  intro uri index
  rw [valueAt_next, hagrees, simpleHandler, Op.registers, registeredAt, registeredAt,
    List.find?_cons]
  by_cases hf : f.uri = uri ∧ f.wrapper = index
  · simp [hf]
  · simp [hf]

theorem Agrees.foreign (hagrees : Agrees registered maps) (op : Foreign) :
    Agrees registered (next maps op.1) := by
  intro uri index
  rw [valueAt_next, hagrees]
  obtain ⟨op, hop⟩ := op
  cases op with
  | handler e u index' function =>
      have he : e ≠ simpleEvent := hop
      simp [Op.registers, he]
  | trigger e u index' => rfl

theorem Agrees.perform (hagrees : Agrees registered maps) (o : Other) :
    Agrees (o.registers registered) (o.perform maps) := by
  cases o with
  | register f => exact hagrees.register f
  | foreign op => exact hagrees.foreign op

theorem Agrees.foldl (hagrees : Agrees registered maps) (others : List Other) :
    Agrees (others.foldl Other.registers registered) (others.foldl Other.perform maps) := by
  induction others generalizing registered maps with
  | nil => exact hagrees
  | cons o others ih => exact ih (hagrees.perform o)

/-- A trigger calls the function with the URI and the type, if it is registered. -/
theorem Agrees.trigger (hagrees : Agrees registered maps) (uri : Text) (index : Wrapper) :
    (trigger simpleEvent uri index maps).1 =
        ((registeredAt registered uri index).map Function.remote).toList ∧
      Agrees registered (trigger simpleEvent uri index maps).2 := by
  constructor
  · rw [Notification.trigger, hagrees]
  · intro uri' index'
    exact (valueAt_next (.trigger simpleEvent uri index)).trans (hagrees uri' index')

/-! ### The protocol by registered functions -/

theorem messageEffects_eq (d : Datagram Openable) (uri arg : Text) :
    messageEffects registered d uri arg =
      match registeredAt registered uri .cbContext with
      | some f => (Function.remote f).onMessage arg d
      | none => [] := by
  have hwidget : cstr "widget/req" ≠ cstr "restful/req" := by decide
  rw [messageEffects]
  cases hfound : registeredAt registered uri .cbContext with
  | some f =>
      obtain ⟨hmem, rfl, hwrapper⟩ := registeredAt_eq_some_iff.mp hfound
      cases f with
      | handleRestful => rw [if_pos ⟨rfl, hmem⟩]; rfl
      | widgetHandle => rw [if_neg (fun h => hwidget h.1), if_pos ⟨rfl, hmem⟩]; rfl
      | pingrsp => cases hwrapper
      | getMsg => cases hwrapper
  | none =>
      rw [if_neg, if_neg]
      · rintro ⟨rfl, hmem⟩
        cases hfound.symm.trans (registeredAt_eq_some_iff.mpr ⟨hmem, rfl, rfl⟩)
      · rintro ⟨rfl, hmem⟩
        cases hfound.symm.trans (registeredAt_eq_some_iff.mpr ⟨hmem, rfl, rfl⟩)

theorem Agrees.getMsg (hagrees : Agrees registered maps) (arg : Text) (d : Datagram Openable) :
    (getMsg J arg d maps).1 = .fetched arg :: (match d.message with
      | none => []
      | some text => messageEffects (d.meanwhile.foldl Other.registers registered) d
          (uriOf J d.fs text) (argOf J d.fs text)) ∧
      Agrees (d.meanwhile.foldl Other.registers registered) (getMsg J arg d maps).2 := by
  have hmeanwhile := hagrees.foldl d.meanwhile
  unfold RemoteMessages.getMsg
  cases d.message with
  | none => exact ⟨rfl, hmeanwhile⟩
  | some text =>
      obtain ⟨hfunctions, hmaps⟩ := hmeanwhile.trigger (uriOf J d.fs text) .cbContext
      refine ⟨?_, hmaps⟩
      dsimp only
      rw [hfunctions, messageEffects_eq]
      cases registeredAt (d.meanwhile.foldl Other.registers registered) (uriOf J d.fs text)
        .cbContext with
      | none => rfl
      | some f => simp

theorem Agrees.receive (hagrees : Agrees registered maps) (d : Datagram Openable) :
    (receive J d maps).1 = (datagramEffects J registered d).1 ∧
      Agrees (datagramEffects J registered d).2 (receive J d maps).2 := by
  have hmsg : cstr "msg/ind" ≠ cstr "ping/rsp" := by decide
  obtain ⟨hfunctions, hmaps⟩ := hagrees.trigger (uriOf J d.fs d.text) .cbCtx
  unfold RemoteMessages.receive
  dsimp only
  rw [hfunctions, datagramEffects]
  cases hfound : registeredAt registered (uriOf J d.fs d.text) .cbCtx with
  | some f =>
      obtain ⟨hmem, huri, hwrapper⟩ := registeredAt_eq_some_iff.mp hfound
      cases f with
      | pingrsp =>
          rw [if_pos ⟨huri.symm, hmem⟩]
          exact ⟨rfl, hmaps⟩
      | getMsg =>
          obtain ⟨heffects, hfetched⟩ := hmaps.getMsg (J := J) (argOf J d.fs d.text) d
          rw [if_neg (fun h => hmsg (huri.trans h.1)), if_pos ⟨huri.symm, hmem⟩]
          exact ⟨heffects, hfetched⟩
      | handleRestful => cases hwrapper
      | widgetHandle => cases hwrapper
  | none =>
      rw [if_neg, if_neg]
      · exact ⟨rfl, hmaps⟩
      · rintro ⟨huri, hmem⟩
        cases hfound.symm.trans (registeredAt_eq_some_iff.mpr ⟨hmem, huri.symm, rfl⟩)
      · rintro ⟨huri, hmem⟩
        cases hfound.symm.trans (registeredAt_eq_some_iff.mpr ⟨hmem, huri.symm, rfl⟩)

theorem foldl_step (inputs : List (Input Openable)) (hagrees : Agrees registered maps)
    (effects : List Effect) :
    (inputs.foldl (step J) (effects, maps)).1 = effects ++ protocol J registered inputs := by
  induction inputs generalizing registered maps effects with
  | nil => simp [protocol]
  | cons input inputs ih =>
      rw [List.foldl_cons]
      cases input with
      | other o => exact ih (hagrees.perform o) effects
      | datagram d =>
          obtain ⟨heffects, hmaps⟩ := hagrees.receive (J := J) d
          rw [step, protocol]
          dsimp only
          rw [ih hmaps, heffects, List.append_assoc]

end

end KappaGateway.RemoteMessages

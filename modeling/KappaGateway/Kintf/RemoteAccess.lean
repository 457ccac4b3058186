import Mathlib.Data.List.Induction
import KappaGateway.Kintf.RequestText

/-!
# Signing in

The server allows the device to be reached from outside when it is signed in. Whether it is,
and with which token, is in one file, which a request to sign in overwrites and a request to
sign out removes. What the file says is therefore what the last of these requests said that
was not refused; a reply that has no status, or is no JSON at all, does not count as refusing.
-/

namespace KappaGateway.RemoteAccess

open Json Kjson Kutil RequestText

/-- An element of a value, as an assignment copies it: the fault value is copied as null. -/
def read (key : Text) (j : Option Doc) : Doc := (j.bind (elem key)).getD .null

/-- `remoteAccessIsEnabled`; no file gives the fault value. -/
def remoteAccessIsEnabled (device_data : Option Doc) : Prop :=
  toInteger (device_data.bind (elem (cstr "connect"))) = 1

instance (device_data : Option Doc) : Decidable (remoteAccessIsEnabled device_data) :=
  inferInstanceAs (Decidable (_ = _))

def deviceToken (device_data : Option Doc) : Text :=
  toText (device_data.bind (elem (cstr "deviceToken")))

variable {Openable : Text → Prop} (J : Jansson) (hwAddr : Text)

/-- A request with the files at its time, and what the server replies within two seconds. -/
structure Request (Openable : Text → Prop) where
  fs : FileSystem Openable
  request : Text
  parameter : Text
  reply : Option Text

def Request.method (x : Request Openable) : Text :=
  toText ((JSON J x.fs x.request).bind (elem (cstr "method")))

/-- `pl`, once it has the address. -/
def Request.pl (x : Request Openable) : Option Doc :=
  (JSON J x.fs x.parameter).map (update (cstr "mac") fun _ => .string hwAddr)

/-- `rsp`, of what was received. -/
def Request.rsp (x : Request Openable) (text : Text) : Option Doc :=
  JSON J x.fs (toText ((JSON J x.fs text).bind (elem (cstr "arg"))))

def devData (pl rsp : Option Doc) : Doc :=
  .object [(cstr "deviceToken", read (cstr "deviceToken") rsp),
    (cstr "authorizedUser", .object [(cstr "email", read (cstr "email") pl),
      (cstr "authkey", read (cstr "authKey") rsp)]),
    (cstr "connect", .integer 1)]

/-- What a request leaves in the file, its response, and what it sends to the server. -/
structure Handled where
  device_data : Option Doc
  response : Doc
  sent : Option Text

def failed : Doc := .object [(cstr "status", .integer (-1))]

def authorized (device_data : Option Doc) : Doc :=
  .object [(cstr "status", .integer 0),
    (cstr "authorized", read (cstr "authorizedUser") device_data)]

/-- `toFile` and `unlink` are to succeed: the code does not look at what they return. -/
def sign_in_handle (x : Request Openable) (device_data : Option Doc) : Handled :=
  if x.method J = cstr "POST" then
    let pl := x.pl J hwAddr
    match x.reply with
    | none => ⟨device_data, failed, some (stringify J pl)⟩
    | some text =>
        let rsp := x.rsp J text
        if toInteger (rsp.bind (elem (cstr "status"))) ≠ 0 then
          ⟨device_data, failed, some (stringify J pl)⟩
        else ⟨some (devData pl rsp), authorized (some (devData pl rsp)), some (stringify J pl)⟩
  else if x.method J = cstr "DELETE" then ⟨none, .object [(cstr "status", .integer 0)], none⟩
  else if x.method J = cstr "GET" then ⟨device_data, authorized device_data, none⟩
  else ⟨device_data, failed, none⟩

/-! ### What it is for -/

/-- Somebody signed in, with the token and the user, or signed out. -/
inductive Change where
  | signedIn (token email authkey : Doc)
  | signedOut

/-- What a request changes. -/
def Request.change (x : Request Openable) : Option Change :=
  if x.method J = cstr "POST" then
    match x.reply with
    | none => none
    | some text =>
        if toInteger ((x.rsp J text).bind (elem (cstr "status"))) ≠ 0 then none
        else some (.signedIn (read (cstr "deviceToken") (x.rsp J text))
          (read (cstr "email") (x.pl J hwAddr)) (read (cstr "authKey") (x.rsp J text)))
  else if x.method J = cstr "DELETE" then some .signedOut
  else none

/-- The file after some requests. -/
def after (requests : List (Request Openable)) (device_data : Option Doc) : Option Doc :=
  requests.foldl (fun device_data x => (sign_in_handle J hwAddr x device_data).device_data)
    device_data

/-- What the file has after a change. -/
def Change.device_data : Change → Option Doc
  | .signedIn token email authkey => some (.object [(cstr "deviceToken", token),
      (cstr "authorizedUser", .object [(cstr "email", email), (cstr "authkey", authkey)]),
      (cstr "connect", .integer 1)])
  | .signedOut => none

def Change.enabled : Change → Prop
  | .signedIn _ _ _ => True
  | .signedOut => False

def Change.token : Change → Text
  | .signedIn token _ _ => toText (some token)
  | .signedOut => []

def Change.user : Change → Doc
  | .signedIn _ email authkey =>
      .object [(cstr "email", email), (cstr "authkey", authkey)]
  | .signedOut => .null

/-- The last change that some requests made. -/
def lastChange (requests : List (Request Openable)) : Option Change :=
  (requests.filterMap (Request.change J hwAddr)).getLast?

section

variable {J hwAddr} {device_data : Option Doc} {x : Request Openable}

theorem device_data_handle : (sign_in_handle J hwAddr x device_data).device_data =
    ((x.change J hwAddr).map Change.device_data).getD device_data := by
  unfold sign_in_handle Request.change
  by_cases hpost : x.method J = cstr "POST"
  · rw [if_pos hpost, if_pos hpost]
    cases x.reply with
    | none => rfl
    | some text =>
        dsimp only
        split
        · rfl
        · rfl
  · rw [if_neg hpost, if_neg hpost]
    split
    · rfl
    · split
      · rfl
      · rfl

theorem after_eq (requests : List (Request Openable)) :
    after J hwAddr requests device_data =
      ((lastChange J hwAddr requests).map Change.device_data).getD device_data := by
  induction requests using List.reverseRecOn with
  | nil => rfl
  | append_singleton requests x ih =>
      rw [after, List.foldl_concat, ← after, device_data_handle, ih, lastChange, lastChange,
        List.filterMap_append]
      cases hchange : x.change J hwAddr with
      | none => simp [hchange]
      | some change => simp [hchange]

theorem read_change (change : Change) :
    (remoteAccessIsEnabled change.device_data ↔ change.enabled) ∧
      deviceToken change.device_data = change.token ∧
      read (cstr "authorizedUser") change.device_data = change.user := by
  have hkeys : (cstr "deviceToken" ≠ cstr "authorizedUser") ∧
      (cstr "deviceToken" ≠ cstr "connect") ∧ (cstr "authorizedUser" ≠ cstr "connect") := by
    decide
  obtain ⟨htoken, hconnect, huser⟩ := hkeys
  cases change with
  | signedIn token email authkey =>
      simp [Change.device_data, Change.enabled, Change.token, Change.user, remoteAccessIsEnabled,
        deviceToken, read, elem, KeyedList.valueAt, htoken, hconnect, huser, toInteger]
  | signedOut =>
      refine ⟨?_, rfl, rfl⟩
      simp [Change.device_data, Change.enabled, remoteAccessIsEnabled, toInteger]

/-- After any requests, remote access is enabled, the token is the one, and the user is the
one that the last of them said that changed something; and if none did, they are what they
were. -/
theorem access_after (requests : List (Request Openable)) (device_data : Option Doc) :
    match lastChange J hwAddr requests with
    | none => after J hwAddr requests device_data = device_data
    | some change =>
        (remoteAccessIsEnabled (after J hwAddr requests device_data) ↔ change.enabled) ∧
          deviceToken (after J hwAddr requests device_data) = change.token ∧
          read (cstr "authorizedUser") (after J hwAddr requests device_data) = change.user := by
  rw [after_eq]
  split
  · next hnone => rw [hnone]; rfl
  · next change hsome =>
      rw [hsome]
      exact read_change change

/-- A reply that is no JSON, or has no readable status, signs in. -/
theorem accepted_of_unreadable {text : Text} (hpost : x.method J = cstr "POST")
    (hreply : x.reply = some text) (hrsp : x.rsp J text = none) :
    x.change J hwAddr = some (.signedIn .null (read (cstr "email") (x.pl J hwAddr)) .null) := by
  rw [Request.change, if_pos hpost, hreply]
  simp [hrsp, toInteger, read]

end

end KappaGateway.RemoteAccess

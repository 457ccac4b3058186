import KappaGateway.Aps.Restful
import KappaGateway.Kapi.Kjson

/-!
# Received texts and file names

A wrapper that is constructed from a text parses the text, and where it cannot it opens
the file of that name. What is received over the local socket goes through the same
constructor, and so do the request inside it and the parameter of the request.
-/

namespace KappaGateway.RequestText

open Json Kjson Kutil Restful

/-- What the wrapper uses of Jansson: the parsers of a string and of a file, and the
printer. -/
structure Jansson where
  json_loads : Text → Option Doc
  json_loadf : Text → Option Doc
  json_dumps : Doc → Option Text

/-- The contents of the files that can be opened. `Openable` are the names under which
there can be a file. -/
structure FileSystem (Openable : Text → Prop) where
  contents : Text → Option Text
  openable : ∀ name, (contents name).isSome → Openable name

/-- `c_str()`, up to its terminator. -/
def c_str (s : Text) : Text := s.takeWhile (· ≠ 0)

variable {Openable : Text → Prop} (J : Jansson)

def Jansson.json_load_file (fs : FileSystem Openable) (path : Text) : Option Doc :=
  (fs.contents path).bind J.json_loadf

/-- `JSON(const std::string&)`; a text that is neither parsed nor the name of a file that
is gives the fault value. -/
def JSON (fs : FileSystem Openable) (s : Text) : Option Doc :=
  (J.json_loads (c_str s)).or (J.json_load_file fs (c_str s))

/-- `stringify`; the fault value holds a null. -/
def stringify (j : Option Doc) : Text := (J.json_dumps (j.getD .null)).getD []

/-- The elements that `forEachInArr` visits, as strings. -/
def pathTexts : Option Doc → List Text
  | some (.array elements) => elements.map fun e => toText (some e)
  | _ => []

/-- The call that `handleRESTful` makes of a request and its value. -/
def restfulCall (req : Text) (req_ : Option Doc) : Call where
  path := pathTexts (req_.bind (elem (cstr "path")))
  parameter := stringify J (req_.bind (elem (cstr "parameter")))
  request := req

/-- What `handleRESTful` works with: the value of the request, the call, and the value
that the handler of its URI makes of the parameter. -/
structure RestfulWork where
  value : Option Doc
  call : Call
  argument : Option Doc

def handleRESTful (fs : FileSystem Openable) (req : Text) : RestfulWork where
  value := JSON J fs req
  call := restfulCall J req (JSON J fs req)
  argument := JSON J fs (restfulCall J req (JSON J fs req)).parameter

/-- The request is in RESTful mode. -/
def restfulMode (req : Doc) : Prop := toText (member (cstr "ver") req) = cstr "0001"

instance (req : Doc) : Decidable (restfulMode req) := inferInstanceAs (Decidable (_ = _))

def requestOf (req : Doc) : Text := toText (elem (cstr "request") req)

/-- The callback of `hostUNIXSocketServer` on the text that it received: the value of
the text, and what becomes of the request in it. -/
def hostUNIXSocketServer (fs : FileSystem Openable) (text : Text) :
    Option Doc × Option RestfulWork :=
  (JSON J fs text, (JSON J fs text).bind fun req =>
    if restfulMode req then some (handleRESTful J fs (requestOf req)) else none)

/-- A text received on the local socket, as a request, or as a parameter. -/
inductive Received where
  | socket (text : Text)
  | request (text : Text)
  | parameter (text : Text)

/-- What is made of a received text. -/
def work (fs : FileSystem Openable) : Received → Option Doc × Option RestfulWork
  | .socket text => hostUNIXSocketServer J fs text
  | .request text => (none, some (handleRESTful J fs text))
  | .parameter text => (JSON J fs text, none)

/-- It is the same with all files. -/
def FileIndependent (Openable : Text → Prop) (r : Received) : Prop :=
  ∀ fs fs' : FileSystem Openable, work J fs r = work J fs' r

/-- The text is parsed, or there can be no file of its name. -/
def SelfContained (Openable : Text → Prop) (text : Text) : Prop :=
  (J.json_loads (c_str text)).isSome ∨ ¬ Openable (c_str text)

/-- So is a request, and the parameter in it. -/
def RequestContained (Openable : Text → Prop) (req : Text) : Prop :=
  SelfContained J Openable req ∧
    SelfContained J Openable (restfulCall J req (J.json_loads (c_str req))).parameter

/-- So is the received text, and the request that is found in it. -/
def Contained (Openable : Text → Prop) : Received → Prop
  | .socket text =>
      SelfContained J Openable text ∧
        ∀ req ∈ J.json_loads (c_str text), restfulMode req →
          RequestContained J Openable (requestOf req)
  | .request text => RequestContained J Openable text
  | .parameter text => SelfContained J Openable text

section

variable {J} {fs : FileSystem Openable} {s : Text}

/-! ### One text -/

/-- The file system without files. -/
def noFiles (Openable : Text → Prop) : FileSystem Openable := ⟨fun _ => none, nofun⟩

/-- The file system with one file. -/
def oneFile {name : Text} (h : Openable name) (content : Text) : FileSystem Openable where
  contents path := if path = name then some content else none
  openable path hpath := by
    split at hpath
    · next heq => exact heq ▸ h
    · cases hpath

theorem JSON_of_selfContained (h : SelfContained J Openable s) :
    JSON J fs s = J.json_loads (c_str s) := by
  rw [JSON]
  cases hloads : J.json_loads (c_str s) with
  | some d => rfl
  | none =>
      have hclosed : ¬ Openable (c_str s) := h.resolve_left (by simp [hloads])
      have hnone : fs.contents (c_str s) = none := by
        by_contra hsome
        exact hclosed (fs.openable _ (Option.isSome_iff_ne_none.mpr hsome))
      rw [Jansson.json_load_file, hnone]
      rfl

/-- A text that is not parsed but can be the name of a file has two values. -/
theorem selfContained_of_independent (hfile : ∃ content, (J.json_loadf content).isSome)
    (h : ∀ fs fs' : FileSystem Openable, JSON J fs s = JSON J fs' s) :
    SelfContained J Openable s := by
  by_contra hnot
  obtain ⟨hloads, hopenable⟩ := not_or.mp hnot
  have hnone : J.json_loads (c_str s) = none := Option.not_isSome_iff_eq_none.mp hloads
  obtain ⟨content, hcontent⟩ := hfile
  have heq := h (noFiles Openable) (oneFile (not_not.mp hopenable) content)
  simp only [JSON, hnone, Option.none_or, Jansson.json_load_file, noFiles, oneFile, if_true,
    Option.bind_none, Option.bind_some] at heq
  rw [← heq] at hcontent
  cases hcontent

theorem handleRESTful_of_contained (h : RequestContained J Openable s) :
    handleRESTful J fs s =
      ⟨J.json_loads (c_str s), restfulCall J s (J.json_loads (c_str s)),
        J.json_loads (c_str (restfulCall J s (J.json_loads (c_str s))).parameter)⟩ := by
  rw [handleRESTful, JSON_of_selfContained h.1, JSON_of_selfContained h.2]

theorem requestContained_of_independent (hfile : ∃ content, (J.json_loadf content).isSome)
    (h : ∀ fs fs' : FileSystem Openable, handleRESTful J fs s = handleRESTful J fs' s) :
    RequestContained J Openable s := by
  have hself : SelfContained J Openable s :=
    selfContained_of_independent hfile fun fs fs' => congrArg RestfulWork.value (h fs fs')
  refine ⟨hself, selfContained_of_independent hfile fun fs fs' => ?_⟩
  have hargument := congrArg RestfulWork.argument (h fs fs')
  simpa only [handleRESTful, JSON_of_selfContained hself] using hargument

end

/-- What is made of a received text is the same with all files exactly if the text, the
request in it and the parameter of that are parsed or cannot be names of files. -/
theorem request_text_file_independent
    (hfile : ∃ content, (J.json_loadf content).isSome) (r : Received) :
    FileIndependent J Openable r ↔ Contained J Openable r := by
  cases r with
  | socket text =>
      constructor
      · intro h
        have hself : SelfContained J Openable text :=
          selfContained_of_independent hfile fun fs fs' => congrArg Prod.fst (h fs fs')
        refine ⟨hself, fun req hreq hmode => ?_⟩
        apply requestContained_of_independent hfile
        intro fs fs'
        have hrequest := congrArg Prod.snd (h fs fs')
        simp only [work, hostUNIXSocketServer, JSON_of_selfContained hself, Option.mem_def.mp hreq,
          Option.bind_some, if_pos hmode] at hrequest
        exact Option.some.inj hrequest
      · rintro ⟨hself, hrequest⟩ fs fs'
        simp only [work, hostUNIXSocketServer, JSON_of_selfContained hself]
        refine congrArg (Prod.mk _) (Option.bind_congr fun req hreq => ?_)
        by_cases hmode : restfulMode req
        · rw [if_pos hmode, if_pos hmode, handleRESTful_of_contained (hrequest req hreq hmode),
            handleRESTful_of_contained (hrequest req hreq hmode)]
        · rw [if_neg hmode, if_neg hmode]
  | request text =>
      constructor
      · intro h
        exact requestContained_of_independent hfile fun fs fs' =>
          Option.some.inj (congrArg Prod.snd (h fs fs'))
      · intro h fs fs'
        simp only [work, handleRESTful_of_contained h]
  | parameter text =>
      constructor
      · intro h
        exact selfContained_of_independent hfile fun fs fs' => congrArg Prod.fst (h fs fs')
      · intro h fs fs'
        simp only [work, JSON_of_selfContained h]

/-! ### A text that names a file -/

/-- A request with the path `han`. -/
def hanText : Text := cstr "\x7b\"path\":[\"han\"]\x7d"

def hanDoc : Doc := .object [(cstr "path", .array [.string (cstr "han")])]

/-- Parsers that know one document, and a printer that takes no null. -/
def hanParser : Jansson where
  json_loads text := if text = hanText then some hanDoc else none
  json_loadf text := if text = hanText then some hanDoc else none
  json_dumps _ := none

theorem request_text_file_independent_han :
    FileIndependent hanParser (· ≠ []) (.request hanText) :=
  (request_text_file_independent hanParser ⟨hanText, by decide⟩ (.request hanText)).mpr
    ⟨Or.inl (by decide), Or.inr (by decide)⟩

def requestFile : FileSystem (· ≠ []) := oneFile (show cstr "/tmp/request" ≠ [] by decide) hanText

/-- The name of a file with a request in it triggers the handler of that request. -/
theorem request_text_names_file :
    (work hanParser (noFiles (· ≠ [])) (.request (cstr "/tmp/request"))).2.map (·.call.uri) =
        some [] ∧
      (work hanParser requestFile (.request (cstr "/tmp/request"))).2.map (·.call.uri) =
        some (cstr "han") ∧
      ¬ FileIndependent hanParser (· ≠ []) (.request (cstr "/tmp/request")) := by
  have hnone : (work hanParser (noFiles (· ≠ []))
      (.request (cstr "/tmp/request"))).2.map (·.call.uri) = some [] := by decide
  have hsome : (work hanParser requestFile
      (.request (cstr "/tmp/request"))).2.map (·.call.uri) = some (cstr "han") := by decide
  refine ⟨hnone, hsome, fun h => ?_⟩
  rw [h (noFiles _) requestFile, hsome] at hnone
  revert hnone
  decide

end KappaGateway.RequestText

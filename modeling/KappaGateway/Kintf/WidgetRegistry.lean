import KappaGateway.Lib.Php
import KappaGateway.Kapi.Kjson

/-!
# The widget registry

A file that two programs read and write as a whole: the `widgetRegistry` handler
of the gateway, and the PHP script `widget_registry_mgr`. There is no file at
first; the values in it are those of JSON, with the strings of C. The script
empties the file when it cannot encode what it has.
-/

namespace KappaGateway.WidgetManager

open KeyedList Kutil Kjson Php

/-! ### The handler -/

/-- `pred`; `none` is a parameter that cannot be parsed. -/
def pred (bl : Option Doc) (cmp : Doc) : Bool :=
  match bl with
  | some (.object members) => members.all fun e =>
      match cmp.member e.1 with
      | none => true
      | some v => toText (some v) = toText (some e.2)
  | _ => true

/-- `size` of the parameter. -/
def size : Option Doc → Nat
  | some (.array elements) => elements.length
  | some (.object members) => members.length
  | _ => 0

/-- The loop of `DELETE` from index `i`, with a bound on its rounds. -/
def eraseLoop (p : Doc → Bool) : Nat → Nat → List Doc → List Doc
  | 0, _, list => list
  | rounds + 1, i, list =>
      match list[i]? with
      | none => list
      | some v => eraseLoop p rounds (i + 1) (if p v then list.eraseIdx i else list)

/-- The list of a registry, `[]` if it is no array. -/
def listIn (members : List (Text × Doc)) : List Doc :=
  match valueAt (cstr "list") members with
  | some (.array elements) => elements
  | _ => []

/-- The list after a method. -/
def updateList (method : Text) (param : Option Doc) (list : List Doc) : List Doc :=
  if method = cstr "DELETE" then
    if size param = 0 then [] else eraseLoop (pred param) list.length 0 list
  else if method = cstr "POST" then
    if list.any (pred param) then list else list ++ [param.getD .null]
  else list

/-- `widgetRegistry`: the file afterwards, and the response. A file that holds an
array has no element `"list"`, and is not changed. -/
def widgetRegistry (method : Text) (param : Option Doc) (file : Option Doc) : Doc × Doc :=
  let reg := match file with
    | some (.object members) => members
    | _ => []
  let list := updateList method param (listIn reg)
  let status := if method = cstr "DELETE" ∨ method = cstr "POST" ∨ method = cstr "GET" then 0
    else -1
  let rsp := if method = cstr "GET" then [(cstr "result", .array list)]
    else if status = 0 then []
    else [(cstr "err", .string (method ++ cstr " not supported"))]
  let written := match file with
    | some (.array elements) => .array elements
    | _ => .object (alter (cstr "list") (fun _ => .array list) reg)
  (written, .object (rsp ++ [(cstr "status", .integer status)]))

/-! ### The script -/

/-- The decimal text of a number. -/
def decimalText (n : Nat) : Text := (Nat.toDigits 10 n).map fun c => UInt8.ofNat c.toNat

def decimalNumber (s : Text) : Option Nat :=
  let n := s.foldl (fun n c => 10 * n + (c.toNat - '0'.toNat)) 0
  if decimalText n = s then some n else none

theorem foldl_digits {digits : List Char}
    (h : ∀ c ∈ digits, (UInt8.ofNat c.toNat).toNat = c.toNat) (init : Nat) :
    (digits.map fun c => UInt8.ofNat c.toNat).foldl
      (fun n c => 10 * n + (c.toNat - '0'.toNat)) init = Nat.ofDigitChars 10 digits init := by
  induction digits generalizing init with
  | nil => rfl
  | cons c digits ih =>
      rw [List.forall_mem_cons] at h
      rw [List.map_cons, List.foldl_cons, h.1, ih h.2, Nat.ofDigitChars_cons]

theorem decimalNumber_decimalText (n : Nat) : decimalNumber (decimalText n) = some n := by
  have hdigits : ∀ c ∈ Nat.toDigits 10 n, (UInt8.ofNat c.toNat).toNat = c.toNat := by
    intro c hc
    have hdigit := Nat.isDigit_of_mem_toDigits (by decide) (by decide) hc
    simp only [Char.isDigit, Bool.and_eq_true, decide_eq_true_eq] at hdigit
    have hle : c.toNat ≤ 57 := hdigit.2
    apply Nat.mod_eq_of_lt
    show c.toNat < 256
    omega
  have hvalue : (decimalText n).foldl (fun n c => 10 * n + (c.toNat - '0'.toNat)) 0 = n :=
    (foldl_digits hdigits 0).trans Nat.ofDigitChars_ten_toDigits
  simp only [decimalNumber, hvalue, if_true]

/-- PHP's numbers as keys. -/
def decimal : Decimal Text := ⟨decimalText, decimalNumber, decimalNumber_decimalText⟩

/-- `$content["list"][$i]['title'] === $param['title']`. -/
def titled (title : Text) (list : List (Text × Php Text)) (i : Nat) : Bool :=
  match Php.get (cstr "title") (Php.get (decimalText i) (.array list)) with
  | .string s => s = title
  | _ => false

/-- A round of the loop of `POST`: the list and `$entryExist`. -/
def postRound (title : Text) (param : Php Text) (s : List (Text × Php Text) × Bool) (i : Nat) :
    List (Text × Php Text) × Bool :=
  if titled title s.1 i then (alter (decimalText i) (fun _ => param) s.1, true) else s

/-- The loop of `DELETE` from `$i`, with a bound on its rounds. What `unset` leaves
keeps its keys, and the loop ends at the number of the entries that are left. -/
def unsetLoop (title : Text) : Nat → Nat → List (Text × Php Text) × Bool →
    List (Text × Php Text) × Bool
  | 0, _, s => s
  | rounds + 1, i, s =>
      if i < s.1.length then
        unsetLoop title rounds (i + 1)
          (if titled title s.1 i then (erase (decimalText i) s.1, true) else s)
      else s

/-- `$content["list"]`, and `$content` with another one. Where it is no array there
is nothing to push to, and the reference has only made the element. -/
def listOf (content : Php Text) : List (Text × Php Text) :=
  match Php.get (cstr "list") content with
  | .array list => list
  | _ => []

def withList (list : List (Text × Php Text)) (content : Php Text) : Php Text :=
  match content, Php.get (cstr "list") content with
  | .array members, .array _ => .array (alter (cstr "list") (fun _ => .array list) members)
  | .array members, _ => .array (alter (cstr "list") (fun v => v.getD .null) members)
  | .null, _ => .array [(cstr "list", .null)]
  | _, _ => content

/-- The bytes are UTF-8, where `owed` more of a character are to come, the next one
of them between `low` and `high`. -/
def utf8From : Nat → UInt8 → UInt8 → Text → Bool
  | owed, _, _, [] => owed = 0
  | 0, _, _, c :: rest =>
      if c < 0x80 then utf8From 0 0x80 0xBF rest
      else if 0xC2 ≤ c ∧ c ≤ 0xDF then utf8From 1 0x80 0xBF rest
      else if c = 0xE0 then utf8From 2 0xA0 0xBF rest
      else if c = 0xED then utf8From 2 0x80 0x9F rest
      else if 0xE1 ≤ c ∧ c ≤ 0xEF then utf8From 2 0x80 0xBF rest
      else if c = 0xF0 then utf8From 3 0x90 0xBF rest
      else if 0xF1 ≤ c ∧ c ≤ 0xF3 then utf8From 3 0x80 0xBF rest
      else if c = 0xF4 then utf8From 3 0x80 0x8F rest
      else false
  | owed + 1, low, high, c :: rest => low ≤ c ∧ c ≤ high ∧ utf8From owed 0x80 0xBF rest

def utf8 (s : Text) : Bool := utf8From 0 0x80 0xBF s

/-- What is under the name of the file: nothing, something that is no JSON, or a
document. -/
inductive File where
  | missing
  | noJson
  | json (doc : Doc)

/-- What `JSON` makes of the file; none is not good. -/
def File.doc : File → Option Doc
  | .json doc => some doc
  | _ => none

/-- The script creates a file that does not exist. -/
def File.created : File → File
  | .missing => .json (.object [(cstr "list", .array [])])
  | file => file

/-- `json_decode(file_get_contents($FILE), true)`. -/
def content (file : File) : Php Text :=
  match file.doc with
  | some doc => json_decode decimal doc
  | none => .null

/-- `file_put_contents($FILE, json_encode($content))`: what cannot be encoded is
written as the empty text. -/
def put_contents (content : Php Text) : File :=
  match json_encode decimal utf8 content with
  | some doc => .json doc
  | none => .noJson

def phpEntry (title root index : Text) : Php Text :=
  .array [(cstr "title", .string title), (cstr "root", .string root),
    (cstr "index", .string index)]

/-- The last lines that are echoed. -/
def echoed (message title root index : Text) : Text :=
  cstr "**ENTRY " ++ message ++ cstr "** \r\n" ++ cstr "  title: " ++ title ++ cstr "\r\n" ++
    cstr "  root: " ++ root ++ cstr "\r\n" ++ cstr "  index: " ++ index ++ cstr "\r\n"

/-- `widget_registry_mgr`: the file afterwards, and what is echoed. -/
def widget_registry_mgr (title root index method : Text) (file : File) : File × Text :=
  let file := file.created
  let param := phpEntry title root index
  let content := content file
  let list := listOf content
  if method = cstr "POST" then
    let (updated, entryExist) :=
      (List.range list.length).foldl (postRound title param) (list, false)
    if entryExist then
      (put_contents (withList updated content), echoed (cstr "HAS BEEN UPDATED") title root index)
    else
      (put_contents (withList (array_push decimal param updated) content),
        echoed (cstr "HAS BEEN ADDED") title root index)
  else if method = cstr "DELETE" then
    let (left, entryExist) := unsetLoop title list.length 0 (list, false)
    if entryExist then
      (put_contents (withList left content), echoed (cstr "HAS BEEN DELETED") title root index)
    else (file, echoed (cstr "DOES NOT EXIST") title root index)
  else (file, [])

end KappaGateway.WidgetManager

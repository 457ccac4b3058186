import KappaGateway.Kintf.WidgetRegistry
import KappaGateway.Lib.Transition

/-!
# Runs of the two registry tools

Any sequence of calls of the handler and of the script, on one file. The handler
keeps all entries that it does not match. The script does so as long as it
deletes the last entry only, posts nothing that it cannot encode, and meets no
entry that PHP does not give back.
-/

namespace KappaGateway.WidgetManager

open KeyedList Kutil Kjson Php Transition

/-- The entries, if the list of the file is an array. -/
def entriesOf : File → Option (List Doc)
  | .json (.object members) =>
      match valueAt (cstr "list") members with
      | some (.array elements) => some elements
      | _ => none
  | _ => none

/-- The entry has the title. -/
def hasTitle (title : Text) (entry : Doc) : Bool :=
  match entry.member (cstr "title") with
  | some (.string s) => s = title
  | _ => false

inductive Action where
  | widgetRegistry (method : Text) (param : Option Doc)
  | widget_registry_mgr (title root index method : Text)

namespace Action

def method : Action → Text
  | .widgetRegistry method _ => method
  | .widget_registry_mgr _ _ _ method => method

/-- The entries that the call deletes or replaces: for the handler those that
differ in none of the keys they have. -/
def affects : Action → Doc → Bool
  | .widgetRegistry method param, entry => method = cstr "DELETE" ∧ pred param entry
  | .widget_registry_mgr title _ _ method, entry =>
      (method = cstr "DELETE" ∨ method = cstr "POST") ∧ hasTitle title entry

end Action

/-- The handler gets a parameter for `DELETE` that is not empty, and Jansson makes
a parameter of UTF-8 only. -/
def Enabled : Action → Prop
  | .widgetRegistry method param =>
      (method = cstr "DELETE" → size param ≠ 0) ∧ ∀ d ∈ param, d.allTexts utf8
  | .widget_registry_mgr _ _ _ _ => True

instance : DecidablePred Enabled
  | .widgetRegistry _ _ => inferInstanceAs (Decidable (_ ∧ _))
  | .widget_registry_mgr _ _ _ _ => isTrue trivial

def next (file : File) : Action → File
  | .widgetRegistry method param => .json (widgetRegistry method param file.doc).1
  | .widget_registry_mgr title root index method =>
      (widget_registry_mgr title root index method file).1

def Step (s : File) (a : Action) (t : File) : Prop := Enabled a ∧ t = next s a

/-- The strings in the file are UTF-8, as JSON has them. -/
def Utf8 (s : File) : Prop := ∀ d ∈ s.doc, d.allTexts utf8

/-- PHP reads the file. -/
def Shallow (s : File) : Prop := ∀ d ∈ s.doc, d.depth ≤ MAX_DEPTH

instance (s : File) : Decidable (Utf8 s) := inferInstanceAs (Decidable (∀ d ∈ s.doc, _))

instance (s : File) : Decidable (Shallow s) := inferInstanceAs (Decidable (∀ d ∈ s.doc, _))

/-- The arguments of the script that go into an entry are UTF-8. -/
def Utf8Entry (title root index : Text) : Prop := utf8 title ∧ utf8 root ∧ utf8 index

instance (title root index : Text) : Decidable (Utf8Entry title root index) :=
  inferInstanceAs (Decidable (_ ∧ _))

/-- The list stays an array with all entries that the call does not affect, and
gets shorter only by a `DELETE`. -/
def Preserved : File × Action × File → Prop
  | (s, a, t) => ∃ l l', entriesOf s = some l ∧ entriesOf t = some l' ∧
      (l.filter fun entry => !a.affects entry).Sublist l' ∧
      (a.method ≠ cstr "DELETE" → l.length ≤ l'.length)

/-- When the script writes, PHP gives back all other entries as they were. A `POST`
finds a file that PHP reads, and posts UTF-8. Only the last entry may have the
title of a `DELETE`; in a file that PHP does not read the script finds none. -/
def Harmless : File × Action × File → Prop
  | (s, .widget_registry_mgr title root index method, _) => ∀ l ∈ entriesOf s,
      (method = cstr "POST" → Shallow s ∧ Utf8Entry title root index ∧
        ∀ entry ∈ l, hasTitle title entry = false → Faithful decimal entry) ∧
      (method = cstr "DELETE" → ¬ Shallow s ∨ (∀ entry ∈ l, hasTitle title entry = false) ∨
        ∀ entry ∈ l.dropLast, hasTitle title entry = false ∧ Faithful decimal entry)
  | _ => True

/-! ### The handler -/

/-- What the loop of `DELETE` erases is matched. -/
theorem filter_eraseLoop (p : Doc → Bool) (rounds i : Nat) (l : List Doc) :
    (eraseLoop p rounds i l).filter (fun v => !p v) = l.filter fun v => !p v := by
  induction rounds generalizing i l with
  | zero => rfl
  | succ rounds ih =>
      rw [eraseLoop]
      split
      · rfl
      · next v hv =>
          rw [ih]
          split
          · next hp =>
              obtain ⟨hi, rfl⟩ := List.getElem?_eq_some_iff.mp hv
              have hsplit : l = l.take i ++ l[i] :: l.drop (i + 1) := by
                rw [← List.drop_eq_getElem_cons hi, List.take_append_drop]
              calc (l.eraseIdx i).filter (fun v => !p v)
                  = (l.take i ++ l[i] :: l.drop (i + 1)).filter fun v => !p v := by
                    rw [List.eraseIdx_eq_take_drop_succ, List.filter_append, List.filter_append,
                      List.filter_cons_of_neg (by simp [hp])]
                _ = l.filter fun v => !p v := by rw [← hsplit]
          · rfl

theorem entriesOf_eq_some {s : File} {l : List Doc} (h : entriesOf s = some l) :
    ∃ members, s = .json (.object members) ∧ valueAt (cstr "list") members = some (.array l) := by
  unfold entriesOf at h
  split at h
  · next members =>
      refine ⟨members, rfl, ?_⟩
      split at h
      · next elements hlist => rw [hlist, Option.some.inj h]
      · cases h
  · cases h

theorem entriesOf_alter (members : List (Text × Doc)) (l : List Doc) :
    entriesOf (.json (.object (alter (cstr "list") (fun _ => .array l) members))) = some l := by
  simp [entriesOf]

theorem entriesOf_widgetRegistry {s : File} {l : List Doc} (h : entriesOf s = some l)
    (method : Text) (param : Option Doc) :
    entriesOf (.json (widgetRegistry method param s.doc).1) = some (updateList method param l) := by
  obtain ⟨members, rfl, hlist⟩ := entriesOf_eq_some h
  have hin : listIn members = l := by rw [listIn, hlist]
  simp only [widgetRegistry, File.doc, hin]
  exact entriesOf_alter members _

/-- Without a `DELETE`, the list only grows. -/
theorem sublist_updateList {method : Text} (h : method ≠ cstr "DELETE") (param : Option Doc)
    (l : List Doc) : l.Sublist (updateList method param l) := by
  rw [updateList, if_neg h]
  split
  · split
    · exact List.Sublist.refl l
    · exact List.sublist_append_left l _
  · exact List.Sublist.refl l

theorem preserved_widgetRegistry {s : File} {l : List Doc} (h : entriesOf s = some l)
    {method : Text} {param : Option Doc} (hen : Enabled (.widgetRegistry method param)) :
    Preserved (s, .widgetRegistry method param, next s (.widgetRegistry method param)) := by
  refine ⟨l, _, h, entriesOf_widgetRegistry h method param, ?_, ?_⟩
  · by_cases hdelete : method = cstr "DELETE"
    · have haffects : (Action.widgetRegistry method param).affects = pred param := by
        ext entry
        simp [Action.affects, hdelete]
      rw [updateList, if_pos hdelete, if_neg (hen.1 hdelete), haffects, ← filter_eraseLoop]
      exact List.filter_sublist
    · exact List.filter_sublist.trans (sublist_updateList hdelete param l)
  · intro hdelete
    exact (sublist_updateList hdelete param l).length_le

/-! ### The script -/

theorem text_ne {key : Text} (h : decimalNumber key = none) (n : Nat) : decimalText n ≠ key := by
  rintro rfl
  rw [decimalNumber_decimalText] at h
  cases h

section

variable {s : File} {l : List Doc}

theorem content_eq {d : Doc} (h : Shallow (.json d)) :
    content (.json d) = fromJson decimal d := by
  simp only [content, File.doc, json_decode]
  exact if_pos (h d rfl)

theorem content_deep (h : ¬ Shallow s) : content s = .null := by
  cases s with
  | json d =>
      simp only [content, File.doc, json_decode]
      exact if_neg fun hle => h (by simpa [Shallow, File.doc] using hle)
  | _ => rfl

theorem created_eq (h : entriesOf s = some l) : s.created = s := by
  obtain ⟨members, rfl, -⟩ := entriesOf_eq_some h
  rfl

theorem listOf_content (h : entriesOf s = some l) (hshallow : Shallow s) :
    listOf (content s) = decodeElements decimal 0 l := by
  obtain ⟨members, rfl, hlist⟩ := entriesOf_eq_some h
  rw [content_eq hshallow]
  simp [listOf, fromJson, Php.get, valueAt_decodeMembers, hlist]

/-- A map with the key `"list"` is no list. -/
theorem not_isList {entries : List (Text × Php Text)} (h : cstr "list" ∈ entries.map Prod.fst) :
    ¬ IsList decimal entries := by
  intro hlist
  rw [hlist] at h
  obtain ⟨n, -, hn⟩ := List.mem_map.mp h
  exact text_ne (by decide) n hn

/-- What the script writes, with another list. -/
theorem toJson_withList {members : List (Text × Doc)}
    (hlist : valueAt (cstr "list") members = some (.array l)) (list : List (Text × Php Text)) :
    toJson decimal (withList list (fromJson decimal (.object members))) =
      .object (alter (cstr "list") (fun _ => toJson decimal (.array list))
        (members.map fun e => (e.1, roundTrip decimal e.2))) := by
  have hget : Php.get (cstr "list") (fromJson decimal (.object members)) =
      .array (decodeElements decimal 0 l) := by
    simp [fromJson, Php.get, valueAt_decodeMembers, hlist]
  have hkey : cstr "list" ∈ (alter (cstr "list") (fun _ => Php.array list)
      (decodeMembers decimal members)).map Prod.fst := mem_alter_keys.mpr (Or.inl rfl)
  have hwith : withList list (fromJson decimal (.object members)) =
      .array (alter (cstr "list") (fun _ => .array list) (decodeMembers decimal members)) := by
    simp only [withList, hget]
    rfl
  rw [hwith, toJson, if_neg (not_isList hkey), encodeMembers_eq, decodeMembers_eq, alter_map,
    List.map_map]
  rfl

/-- PHP can encode the list as part of the file. -/
def Encodable (list : Doc) : Prop := list.depth < MAX_DEPTH ∧ list.allTexts utf8

instance (list : Doc) : Decidable (Encodable list) := inferInstanceAs (Decidable (_ ∧ _))

/-- Whether PHP can encode the file depends on the list alone. -/
theorem json_encode_withList (h : entriesOf s = some l) (hshallow : Shallow s) (hutf8 : Utf8 s)
    (list : List (Text × Php Text)) :
    json_encode decimal utf8 (withList list (content s)) =
      if Encodable (toJson decimal (.array list)) then
        some (toJson decimal (withList list (content s)))
      else none := by
  obtain ⟨members, rfl, hlist⟩ := entriesOf_eq_some h
  let others := members.map fun e => (e.1, roundTrip decimal e.2)
  have hothersDepth : (Json.object others).depth ≤ 511 + 1 := by
    rw [Json.depth_object_le, List.forall_mem_map]
    intro e he
    exact depth_roundTrip_le decimal (Json.depth_object_le.mp (hshallow _ rfl) e he)
  have hothersUtf8 : (Json.object others).allTexts utf8 := by
    rw [Json.allTexts_object, List.forall_mem_map]
    intro e he
    obtain ⟨hkey, hvalue⟩ := Json.allTexts_object.mp (hutf8 _ rfl) e he
    exact ⟨hkey, allTexts_roundTrip decimal hvalue⟩
  have hself : (cstr "list", toJson decimal (.array list)) ∈
      alter (cstr "list") (fun _ => toJson decimal (.array list)) others :=
    mem_of_valueAt (valueAt_alter_self _ _ _)
  rw [content_eq hshallow, json_encode, toJson_withList hlist]
  congr 1
  apply propext
  constructor
  · rintro ⟨hdepth, htexts⟩
    have hle := Json.depth_object_le.mp (show _ ≤ 511 + 1 from hdepth) _ hself
    exact ⟨Nat.lt_succ_of_le hle, (Json.allTexts_object.mp htexts _ hself).2⟩
  · rintro ⟨hdepth, htexts⟩
    exact ⟨Json.depth_alter_le hothersDepth (Nat.le_of_lt_succ hdepth),
      Json.allTexts_alter hothersUtf8 (by decide) htexts⟩

/-- What the script writes has an array for its list exactly if the keys of the
list are the first numbers and PHP can encode the values. -/
theorem entriesOf_put_contents (h : entriesOf s = some l) (hshallow : Shallow s) (hutf8 : Utf8 s)
    (list : List (Text × Php Text)) :
    entriesOf (put_contents (withList list (content s))) =
      if IsList decimal list ∧ Encodable (.array (encodeValues decimal list)) then
        some (encodeValues decimal list)
      else none := by
  rw [put_contents, json_encode_withList h hshallow hutf8]
  obtain ⟨members, rfl, hlist⟩ := entriesOf_eq_some h
  rw [content_eq hshallow, toJson_withList hlist, toJson]
  by_cases hkeys : IsList decimal list
  · by_cases hencodable : Encodable (.array (encodeValues decimal list))
    · simp [hkeys, hencodable, entriesOf]
    · simp [hkeys, hencodable, entriesOf]
  · by_cases hencodable : Encodable (.object (encodeMembers decimal list))
    · simp [hkeys, hencodable, entriesOf]
    · simp [hkeys, hencodable, entriesOf]

/-- The elements of the list are Utf8, and not too deep for PHP. -/
theorem elements_encodable (h : entriesOf s = some l) (hshallow : Shallow s) (hutf8 : Utf8 s) :
    ∀ v ∈ l, v.depth ≤ 510 ∧ v.allTexts utf8 := by
  obtain ⟨members, rfl, hlist⟩ := entriesOf_eq_some h
  have hmem := mem_of_valueAt hlist
  have hdepth := Json.depth_object_le.mp (show _ ≤ 511 + 1 from hshallow _ rfl) _ hmem
  have htexts := (Json.allTexts_object.mp (hutf8 _ rfl) _ hmem).2
  intro v hv
  exact ⟨Json.depth_array_le.mp hdepth v hv, Json.allTexts_array.mp htexts v hv⟩

theorem encodable_array {elements : List Doc} :
    Encodable (.array elements) ↔ ∀ v ∈ elements, v.depth ≤ 510 ∧ v.allTexts utf8 := by
  have hdepth : (Json.array elements).depth < MAX_DEPTH ↔ ∀ v ∈ elements, v.depth ≤ 510 :=
    Nat.lt_succ_iff.trans (Json.depth_array_le (n := 510))
  rw [Encodable, hdepth, Json.allTexts_array, forall₂_and]

/-- The script sees the title that the entry has. -/
theorem get_title (entry : Doc) :
    Php.get (cstr "title") (fromJson decimal entry) =
      ((entry.member (cstr "title")).map (fromJson decimal)).getD .null := by
  cases entry with
  | object members => simp [fromJson, Php.get, valueAt_decodeMembers, Json.member]
  | array elements =>
      have hnone : valueAt (cstr "title") (decodeElements decimal 0 elements) = none := by
        rw [valueAt_eq_none_iff, decodeElements_keys]
        intro hmem
        obtain ⟨n, -, hn⟩ := List.mem_map.mp hmem
        exact text_ne (by decide) n hn
      simp [fromJson, Php.get, hnone, Json.member]
  | _ => simp [fromJson, Php.get, Json.member]

theorem titled_decode (title : Text) (elements : List Doc) (i : Nat) :
    titled title (decodeElements decimal 0 elements) i = elements[i]?.any (hasTitle title) := by
  have hvalue := valueAt_decodeElements decimal 0 i elements
  rw [Nat.zero_add] at hvalue
  have hget : Php.get (decimalText i) (.array (decodeElements decimal 0 elements)) =
      (elements[i]?.map (fromJson decimal)).getD .null :=
    congrArg (Option.getD · Php.null) hvalue
  rw [titled, hget]
  cases elements[i]? with
  | none => rfl
  | some entry =>
      simp only [Option.map_some, Option.getD_some, Option.any_some, get_title, hasTitle]
      cases entry.member (cstr "title") with
      | none => rfl
      | some j => cases j <;> rfl

/-! ### `POST` -/

/-- The entry of the script as a JSON value. -/
def entryDoc (title root index : Text) : Doc :=
  .object [(cstr "title", .string title), (cstr "root", .string root),
    (cstr "index", .string index)]

theorem faithful_entryDoc (title root index : Text) :
    Faithful decimal (entryDoc title root index) := by
  apply Faithful.object
  · intro hkeys
    have hmem : cstr "title" ∈ (List.range 3).map decimalText := hkeys ▸ List.mem_cons_self
    obtain ⟨n, -, hn⟩ := List.mem_map.mp hmem
    exact text_ne (by decide) n hn
  · simp [Faithful.string]

/-- What `POST` makes of an entry. -/
def replaced (title root index : Text) (entry : Doc) : Doc :=
  if hasTitle title entry then entryDoc title root index else entry

theorem titled_middle (title : Text) (before after : List Doc) (entry : Doc) :
    titled title (decodeElements decimal 0 (before ++ entry :: after)) before.length =
      hasTitle title entry := by
  simp [titled_decode]

theorem postRound_decode (title root index : Text) (before after : List Doc) (entry : Doc)
    (exist : Bool) :
    postRound title (phpEntry title root index)
        (decodeElements decimal 0 (before ++ entry :: after), exist) before.length =
      (decodeElements decimal 0 (before ++ replaced title root index entry :: after),
        exist || hasTitle title entry) := by
  rw [postRound, titled_middle, replaced]
  split_ifs with htitle
  · have halter := alter_decodeElements decimal 0 before after entry (entryDoc title root index)
    rw [Nat.zero_add] at halter
    rw [htitle, Bool.or_true]
    exact congrArg (·, true) halter
  · rw [Bool.eq_false_iff.mpr htitle, Bool.or_false]

/-- After `i` rounds, the first `i` entries are replaced. -/
theorem foldl_postRound (title root index : Text) (l : List Doc) {i : Nat} (hi : i ≤ l.length) :
    (List.range i).foldl (postRound title (phpEntry title root index))
        (decodeElements decimal 0 l, false) =
      (decodeElements decimal 0 ((l.take i).map (replaced title root index) ++ l.drop i),
        (l.take i).any (hasTitle title)) := by
  induction i with
  | zero => simp
  | succ i ih =>
      have hlt : i < l.length := hi
      have hlength : ((l.take i).map (replaced title root index)).length = i := by
        simp [Nat.min_eq_left (Nat.le_of_lt hlt)]
      have hround := postRound_decode title root index
        ((l.take i).map (replaced title root index)) (l.drop (i + 1)) l[i]
        ((l.take i).any (hasTitle title))
      rw [hlength] at hround
      rw [List.range_succ, List.foldl_append, ih (Nat.le_of_lt hlt), List.foldl_cons,
        List.foldl_nil, List.drop_eq_getElem_cons hlt, hround, List.take_succ_eq_append_getElem hlt]
      simp only [List.map_append, List.map_cons, List.map_nil, List.any_append, List.any_cons,
        List.any_nil, Bool.or_false, List.append_assoc, List.cons_append, List.nil_append]

/-- The list after `POST`. -/
def posted (title root index : Text) (l : List Doc) : List Doc :=
  l.map (replaced title root index) ++
    if l.any (hasTitle title) then [] else [entryDoc title root index]

theorem utf8_entryDoc {title root index : Text} :
    (entryDoc title root index).allTexts utf8 ↔ Utf8Entry title root index := by
  have hkeys : utf8 (cstr "title") ∧ utf8 (cstr "root") ∧ utf8 (cstr "index") := by decide
  simp [entryDoc, Utf8Entry, Json.allTexts, Json.allMembers, hkeys]

theorem depth_entryDoc_le (title root index : Text) :
    (entryDoc title root index).depth ≤ 510 := by
  simp [entryDoc, Json.depth, Json.depthMembers]

theorem entryDoc_mem_posted (title root index : Text) (l : List Doc) :
    entryDoc title root index ∈ posted title root index l := by
  rw [posted, List.mem_append]
  split_ifs with hany
  · obtain ⟨entry, hentry, htitle⟩ := List.any_eq_true.mp hany
    exact Or.inl (List.mem_map.mpr ⟨entry, hentry, if_pos htitle⟩)
  · exact Or.inr List.mem_cons_self

theorem mem_posted {title root index : Text} {v : Doc} (h : v ∈ posted title root index l) :
    v = entryDoc title root index ∨ v ∈ l := by
  rw [posted, List.mem_append] at h
  rcases h with hold | hnew
  · obtain ⟨entry, hentry, rfl⟩ := List.mem_map.mp hold
    rw [replaced]
    split_ifs
    · exact Or.inl rfl
    · exact Or.inr hentry
  · split_ifs at hnew
    · cases hnew
    · exact Or.inl (List.mem_singleton.mp hnew)

/-- PHP can encode what was posted exactly if the new entry is UTF-8. -/
theorem encodable_posted (hl : ∀ v ∈ l, v.depth ≤ 510 ∧ v.allTexts utf8)
    (title root index : Text) :
    Encodable (.array ((posted title root index l).map (roundTrip decimal))) ↔
      Utf8Entry title root index := by
  rw [encodable_array, List.forall_mem_map]
  constructor
  · intro hall
    have hentry := (hall _ (entryDoc_mem_posted title root index l)).2
    rw [(faithful_entryDoc title root index).roundTrip_eq] at hentry
    exact utf8_entryDoc.mp hentry
  · intro hutf8 v hv
    have hgood : v.depth ≤ 510 ∧ v.allTexts utf8 := by
      rcases mem_posted hv with rfl | hold
      · exact ⟨depth_entryDoc_le title root index, utf8_entryDoc.mpr hutf8⟩
      · exact hl v hold
    exact ⟨depth_roundTrip_le decimal hgood.1, allTexts_roundTrip decimal hgood.2⟩

/-- The entries after a `POST` into a file that PHP reads. -/
theorem entriesOf_post (h : entriesOf s = some l) (hshallow : Shallow s) (hutf8 : Utf8 s)
    (title root index : Text) :
    entriesOf (widget_registry_mgr title root index (cstr "POST") s).1 =
      if Utf8Entry title root index then
        some ((posted title root index l).map (roundTrip decimal))
      else none := by
  have hloop := foldl_postRound title root index l (Nat.le_refl _)
  rw [List.take_length, List.drop_length, List.append_nil] at hloop
  have hwritten : entriesOf (put_contents (withList
      (decodeElements decimal 0 (posted title root index l)) (content s))) =
        if Utf8Entry title root index then
          some ((posted title root index l).map (roundTrip decimal))
        else none := by
    rw [entriesOf_put_contents h hshallow hutf8, encodeValues_decodeElements]
    simp only [isList_decodeElements, true_and,
      encodable_posted (elements_encodable h hshallow hutf8)]
  rw [← hwritten]
  simp only [widget_registry_mgr, created_eq h, listOf_content h hshallow,
    decodeElements_length, hloop, if_true, posted]
  split
  · rw [List.append_nil]
  · rw [array_push, nextKey_decodeElements, decodeElements_append, Nat.zero_add]
    rfl

/-- A file that PHP does not read is lost with a `POST`. -/
theorem entriesOf_post_deep (h : entriesOf s = some l) (hdeep : ¬ Shallow s)
    (title root index : Text) :
    entriesOf (widget_registry_mgr title root index (cstr "POST") s).1 = none := by
  simp only [widget_registry_mgr, created_eq h, content_deep hdeep]
  rfl

/-! ### `DELETE` -/

theorem unsetLoop_sublist (title : Text) (rounds i : Nat) (list : List (Text × Php Text))
    (exist : Bool) : (unsetLoop title rounds i (list, exist)).1.Sublist list := by
  induction rounds generalizing i list exist with
  | zero => exact List.Sublist.refl list
  | succ rounds ih =>
      rw [unsetLoop]
      split
      · split
        · exact (ih _ _ _).trans List.filter_sublist
        · exact ih _ _ _
      · exact List.Sublist.refl list

/-- Once something was deleted, the script writes the file. -/
theorem unsetLoop_exist (title : Text) (rounds i : Nat) (list : List (Text × Php Text)) :
    (unsetLoop title rounds i (list, true)).2 = true := by
  induction rounds generalizing i list with
  | zero => rfl
  | succ rounds ih =>
      rw [unsetLoop]
      split
      · split
        · exact ih _ _
        · exact ih _ _
      · rfl

/-- The loop does not come to a number that is not below the number of entries. -/
theorem mem_unsetLoop (title : Text) {k : Nat} (rounds i : Nat) {list : List (Text × Php Text)}
    (exist : Bool) (hk : list.length ≤ k) {e : Text × Php Text} (he : e ∈ list)
    (hkey : e.1 = decimalText k) : e ∈ (unsetLoop title rounds i (list, exist)).1 := by
  induction rounds generalizing i list exist with
  | zero => exact he
  | succ rounds ih =>
      rw [unsetLoop]
      split
      · next hi =>
          have hi : i < list.length := hi
          split
          · have hne : decimalText k ≠ decimalText i := fun heq => by
              have := decimal.text_injective heq
              omega
            have hkept : e ∈ erase (decimalText i) list :=
              List.mem_filter.mpr ⟨he, by simpa [hkey] using hne⟩
            exact ih _ _ (Nat.le_trans (List.length_filter_le _ _) hk) hkept
          · exact ih _ _ hk he
      · exact he

/-- The loop passes over entries that do not have the title. -/
theorem unsetLoop_skip (title : Text) {l before : List Doc} (rounds : Nat)
    {after : List Doc} (hl : l = before ++ after) (hnone : ∀ v ∈ before, hasTitle title v = false)
    (exist : Bool) {k i : Nat} (hi : i + k = before.length) :
    unsetLoop title (k + rounds) i (decodeElements decimal 0 l, exist) =
      unsetLoop title rounds before.length (decodeElements decimal 0 l, exist) := by
  induction k generalizing i with
  | zero => rw [Nat.zero_add, ← hi, Nat.add_zero]
  | succ k ih =>
      have hbefore : i < before.length := by omega
      have hlt : i < (decodeElements decimal 0 l).length := by
        rw [decodeElements_length, hl, List.length_append]
        omega
      have htitle : titled title (decodeElements decimal 0 l) i = false := by
        rw [titled_decode, hl, List.getElem?_append_left hbefore,
          List.getElem?_eq_getElem hbefore]
        exact hnone _ (List.getElem_mem hbefore)
      rw [Nat.add_right_comm, unsetLoop, if_pos hlt, htitle, if_neg Bool.false_ne_true]
      exact ih (by omega)

theorem unsetLoop_none (title : Text) (hnone : ∀ v ∈ l, hasTitle title v = false) :
    unsetLoop title l.length 0 (decodeElements decimal 0 l, false) =
      (decodeElements decimal 0 l, false) :=
  unsetLoop_skip title 0 (List.append_nil l).symm hnone false (Nat.zero_add _)

/-- The first entry with the title is deleted, and then the loop goes on behind it. -/
theorem unsetLoop_first (title : Text) {before : List Doc} {entry : Doc} (after : List Doc)
    (hnone : ∀ v ∈ before, hasTitle title v = false) (htitle : hasTitle title entry = true) :
    unsetLoop title (before ++ entry :: after).length 0
        (decodeElements decimal 0 (before ++ entry :: after), false) =
      unsetLoop title after.length (before.length + 1)
        (decodeElements decimal 0 before ++ decodeElements decimal (before.length + 1) after,
          true) := by
  have hskip := unsetLoop_skip title (after.length + 1) (rfl : before ++ entry :: after = _)
    hnone false (Nat.zero_add before.length)
  have hlt : before.length < (decodeElements decimal 0 (before ++ entry :: after)).length := by
    simp
  have herase := erase_decodeElements decimal before after entry
  rw [List.length_append, List.length_cons, hskip, unsetLoop, if_pos hlt, titled_middle, htitle,
    if_pos rfl]
  exact congrArg (fun list => unsetLoop title _ _ (list, true)) herase

/-- If it was not the last one, there is a gap in the numbers. -/
theorem not_isList_unsetLoop (title : Text) (before after : List Doc) (hafter : after ≠ []) :
    ¬ IsList decimal (unsetLoop title after.length (before.length + 1)
      (decodeElements decimal 0 before ++ decodeElements decimal (before.length + 1) after,
        true)).1 := by
  set list := decodeElements decimal 0 before ++ decodeElements decimal (before.length + 1) after
    with hlist
  intro hkeys
  have hlength : list.length = before.length + after.length := by simp [hlist]
  have hpos := List.length_pos_of_ne_nil hafter
  obtain ⟨e, he, hkey⟩ : ∃ e ∈ list, e.1 = decimalText list.length := by
    have hmem : decimalText list.length ∈
        (decodeElements decimal (before.length + 1) after).map Prod.fst :=
      (mem_decodeElements_keys decimal).mpr ⟨list.length, by omega, by omega, rfl⟩
    obtain ⟨e, he, hkey⟩ := List.mem_map.mp hmem
    exact ⟨e, List.mem_append_right _ he, hkey⟩
  have hstays := mem_unsetLoop title after.length (before.length + 1) true
    (Nat.le_refl _) he hkey
  have hshort := (unsetLoop_sublist title after.length (before.length + 1) list true).length_le
  have hnumber := List.mem_map_of_mem (f := Prod.fst) hstays
  rw [hkeys] at hnumber
  obtain ⟨n, hn, htext⟩ := List.mem_map.mp hnumber
  have heq : n = list.length := decimal.text_injective (htext.trans hkey)
  have hlt := List.mem_range.mp hn
  omega

theorem delete_of_none (h : entriesOf s = some l) (hshallow : Shallow s) {title : Text}
    (hnone : ∀ v ∈ l, hasTitle title v = false) (root index : Text) :
    (widget_registry_mgr title root index (cstr "DELETE") s).1 = s := by
  have hmethod : cstr "DELETE" ≠ cstr "POST" := by decide
  simp [widget_registry_mgr, hmethod, created_eq h, listOf_content h hshallow,
    unsetLoop_none title hnone]

/-- In a file that PHP does not read nothing is found. -/
theorem delete_of_deep (h : entriesOf s = some l) (hdeep : ¬ Shallow s)
    (title root index : Text) :
    (widget_registry_mgr title root index (cstr "DELETE") s).1 = s := by
  have hmethod : cstr "DELETE" ≠ cstr "POST" := by decide
  simp [widget_registry_mgr, hmethod, created_eq h, content_deep hdeep, listOf, Php.get,
    unsetLoop]

/-- The entries after a `DELETE` whose title an entry has. -/
theorem entriesOf_delete {before after : List Doc} {entry : Doc}
    (h : entriesOf s = some (before ++ entry :: after)) (hshallow : Shallow s) (hutf8 : Utf8 s)
    {title : Text} (hnone : ∀ v ∈ before, hasTitle title v = false)
    (htitle : hasTitle title entry = true) (root index : Text) :
    entriesOf (widget_registry_mgr title root index (cstr "DELETE") s).1 =
      if after = [] then some (before.map (roundTrip decimal)) else none := by
  have hmethod : cstr "DELETE" ≠ cstr "POST" := by decide
  have hloop := unsetLoop_first title after hnone htitle
  have hexist := unsetLoop_exist title after.length (before.length + 1)
    (decodeElements decimal 0 before ++ decodeElements decimal (before.length + 1) after)
  simp only [widget_registry_mgr, created_eq h, hmethod, if_false, if_true,
    listOf_content h hshallow, decodeElements_length, hloop, hexist,
    entriesOf_put_contents h hshallow hutf8]
  by_cases hafter : after = []
  · subst hafter
    have hencodable : Encodable (.array (before.map (roundTrip decimal))) := by
      rw [encodable_array, List.forall_mem_map]
      intro v hv
      obtain ⟨hdepth, htexts⟩ := elements_encodable h hshallow hutf8 v (by simp [hv])
      exact ⟨depth_roundTrip_le decimal hdepth, allTexts_roundTrip decimal htexts⟩
    simp [decodeElements, unsetLoop, encodeValues_decodeElements, isList_decodeElements,
      hencodable]
  · rw [if_neg hafter, if_neg]
    exact fun hboth => not_isList_unsetLoop title before after hafter hboth.1

/-! ### Steps and runs -/

theorem filter_sublist_map {T : Type*} {q : T → Bool} {g : T → T} {l : List T}
    (h : ∀ x ∈ l, q x = true → g x = x) : (l.filter q).Sublist (l.map g) := by
  induction l with
  | nil => exact List.Sublist.refl []
  | cons x rest ih =>
      rw [List.forall_mem_cons] at h
      rw [List.filter_cons, List.map_cons]
      split
      · next hx =>
          rw [h.1 hx]
          exact (ih h.2).cons_cons x
      · exact (ih h.2).cons (g x)

/-- What the script has written is given back by PHP. -/
theorem faithful_of_mem {l : List Doc} {v : Doc} (h : v ∈ l.map (roundTrip decimal)) :
    Faithful decimal v := by
  obtain ⟨w, -, rfl⟩ := List.mem_map.mp h
  exact faithful_roundTrip decimal w

theorem preserved_post (h : entriesOf s = some l) (hutf8 : Utf8 s) (title root index : Text) :
    Preserved (s, .widget_registry_mgr title root index (cstr "POST"),
        next s (.widget_registry_mgr title root index (cstr "POST"))) ↔
      Shallow s ∧ Utf8Entry title root index ∧
        ∀ entry ∈ l, hasTitle title entry = false → Faithful decimal entry := by
  have haffects : ∀ entry, (Action.widget_registry_mgr title root index
      (cstr "POST")).affects entry = hasTitle title entry := by
    simp [Action.affects]
  by_cases hshallow : Shallow s
  · have hposted := entriesOf_post h hshallow hutf8 title root index
    constructor
    · rintro ⟨l₀, l', hl, hl', hsub, -⟩
      obtain rfl := Option.some.inj (h.symm.trans hl)
      have hwritten := hposted.symm.trans hl'
      split_ifs at hwritten with hentry
      obtain rfl := Option.some.inj hwritten
      refine ⟨hshallow, hentry, fun entry hmem htitle => ?_⟩
      apply faithful_of_mem
      exact hsub.subset (List.mem_filter.mpr ⟨hmem, by simp [haffects, htitle]⟩)
    · rintro ⟨-, hentry, hfaithful⟩
      rw [if_pos hentry] at hposted
      refine ⟨l, _, h, hposted, ?_, fun _ => ?_⟩
      · rw [posted, List.map_append, List.map_map]
        refine (filter_sublist_map ?_).trans (List.sublist_append_left _ _)
        intro entry hmem hunaffected
        have htitle : hasTitle title entry = false := by simpa [haffects] using hunaffected
        simp only [Function.comp, replaced, htitle, Bool.false_eq_true, if_false]
        exact (hfaithful entry hmem htitle).roundTrip_eq
      · simp [posted]
  · refine iff_of_false ?_ fun hall => hshallow hall.1
    rintro ⟨-, l', -, hl', -⟩
    cases (entriesOf_post_deep h hshallow title root index).symm.trans hl'

/-- A call that leaves the file as it is. -/
theorem preserved_same (h : entriesOf s = some l) (a : Action) : Preserved (s, a, s) :=
  ⟨l, l, h, h, List.filter_sublist, fun _ => Nat.le_refl _⟩

/-- A `DELETE` that takes the last entry away gives all others back. -/
theorem preserved_delete_last {before : List Doc} {entry : Doc} {title root index : Text}
    (h : entriesOf s = some (before ++ [entry])) (hbefore : ∀ v ∈ before, hasTitle title v = false)
    (htitle : hasTitle title entry = true) {t : File}
    (ht : entriesOf t = some (before.map (roundTrip decimal))) :
    Preserved (s, .widget_registry_mgr title root index (cstr "DELETE"), t) ↔
      ∀ v ∈ before, Faithful decimal v := by
  have haffects : ∀ v, (Action.widget_registry_mgr title root index
      (cstr "DELETE")).affects v = hasTitle title v := by
    simp [Action.affects]
  constructor
  · rintro ⟨l₀, l', hl, hl', hsub, -⟩ v hv
    obtain rfl := Option.some.inj (h.symm.trans hl)
    obtain rfl := Option.some.inj (ht.symm.trans hl')
    refine faithful_of_mem (l := before) (hsub.subset ?_)
    exact List.mem_filter.mpr ⟨by simp [hv], by simp [haffects, hbefore v hv]⟩
  · intro hfaithful
    refine ⟨_, _, h, ht, ?_, fun hne => absurd rfl hne⟩
    rw [List.filter_append, List.filter_cons_of_neg (by simp [haffects, htitle]),
      List.filter_nil, List.append_nil]
    exact filter_sublist_map fun v hv _ => (hfaithful v hv).roundTrip_eq

theorem preserved_delete (h : entriesOf s = some l) (hutf8 : Utf8 s) (title root index : Text) :
    Preserved (s, .widget_registry_mgr title root index (cstr "DELETE"),
        next s (.widget_registry_mgr title root index (cstr "DELETE"))) ↔
      ¬ Shallow s ∨ (∀ entry ∈ l, hasTitle title entry = false) ∨
        ∀ entry ∈ l.dropLast, hasTitle title entry = false ∧ Faithful decimal entry := by
  rw [next]
  by_cases hshallow : Shallow s
  swap
  · rw [delete_of_deep h hshallow title root index]
    exact iff_of_true (preserved_same h _) (Or.inl hshallow)
  rw [or_iff_right (not_not.mpr hshallow)]
  cases hfind : l.find? (hasTitle title) with
  | none =>
      have hnone : ∀ entry ∈ l, hasTitle title entry = false := by simpa using hfind
      rw [delete_of_none h hshallow hnone root index]
      exact iff_of_true (preserved_same h _) (Or.inl hnone)
  | some entry =>
      obtain ⟨htitle, before, after, rfl, hbefore⟩ := List.find?_eq_some_iff_append.mp hfind
      have hbefore : ∀ v ∈ before, hasTitle title v = false := by simpa using hbefore
      have hdeleted := entriesOf_delete h hshallow hutf8 hbefore htitle root index
      have hnotall : ¬ ∀ v ∈ before ++ entry :: after, hasTitle title v = false := by
        intro hall
        have hfalse := hall entry (by simp)
        rw [htitle] at hfalse
        cases hfalse
      rw [or_iff_right hnotall]
      by_cases hafter : after = []
      · subst hafter
        rw [if_pos rfl] at hdeleted
        rw [preserved_delete_last h hbefore htitle hdeleted, List.dropLast_concat]
        exact ⟨fun hall v hv => ⟨hbefore v hv, hall v hv⟩, fun hall v hv => (hall v hv).2⟩
      · rw [if_neg hafter] at hdeleted
        refine iff_of_false ?_ ?_
        · rintro ⟨-, l', -, hl', -⟩
          cases hdeleted.symm.trans hl'
        · intro hall
          have hfalse := (hall entry (by
            rw [List.dropLast_append_of_ne_nil (by simp), List.dropLast_cons_of_ne_nil hafter]
            simp)).1
          rw [htitle] at hfalse
          cases hfalse

/-- A step from a file whose list is an array is as it should be exactly if it
is harmless. -/
theorem preserved_iff (h : entriesOf s = some l) (hutf8 : Utf8 s) {a : Action}
    (hen : Enabled a) : Preserved (s, a, next s a) ↔ Harmless (s, a, next s a) := by
  cases a with
  | widgetRegistry method param =>
      exact iff_of_true (preserved_widgetRegistry h hen) trivial
  | widget_registry_mgr title root index method =>
      simp only [Harmless, h, Option.mem_def, Option.some.injEq, forall_eq']
      by_cases hpost : method = cstr "POST"
      · subst hpost
        rw [preserved_post h hutf8]
        simp [show cstr "POST" ≠ cstr "DELETE" by decide]
      · by_cases hdelete : method = cstr "DELETE"
        · subst hdelete
          rw [preserved_delete h hutf8]
          simp [show cstr "DELETE" ≠ cstr "POST" by decide]
        · have hsame : next s (.widget_registry_mgr title root index method) = s := by
            simp [next, widget_registry_mgr, hpost, hdelete, created_eq h]
          rw [hsame]
          exact iff_of_true (preserved_same h _)
            ⟨fun heq => absurd heq hpost, fun heq => absurd heq hdelete⟩

end

/-! ### What is written is UTF-8 -/

theorem utf8_put_contents (content : Php Text) : Utf8 (put_contents content) := by
  rw [put_contents, json_encode]
  split_ifs with hencodes
  · intro d hd
    obtain rfl := Option.some.inj hd
    exact hencodes.2
  · simp [Utf8, File.doc]

theorem mem_eraseLoop {p : Doc → Bool} {rounds i : Nat} {list : List Doc} {v : Doc}
    (h : v ∈ eraseLoop p rounds i list) : v ∈ list := by
  induction rounds generalizing i list with
  | zero => exact h
  | succ rounds ih =>
      rw [eraseLoop] at h
      split at h
      · exact h
      · have hmem := ih h
        split at hmem
        · exact List.mem_of_mem_eraseIdx hmem
        · exact hmem

theorem mem_updateList {method : Text} {param : Option Doc} {list : List Doc} {v : Doc}
    (h : v ∈ updateList method param list) : v ∈ list ∨ v = param.getD .null := by
  rw [updateList] at h
  split_ifs at h
  · cases h
  · exact Or.inl (mem_eraseLoop h)
  · exact Or.inl h
  · simpa using h
  · exact Or.inl h

theorem utf8_widgetRegistry {file param : Option Doc} (hfile : ∀ d ∈ file, d.allTexts utf8)
    (hparam : ∀ d ∈ param, d.allTexts utf8) (method : Text) :
    (widgetRegistry method param file).1.allTexts utf8 := by
  have hgetD : (param.getD .null).allTexts utf8 := by
    cases param with
    | none => rfl
    | some d => exact hparam d rfl
  have hobject : ∀ members : List (Text × Doc), (Json.object members).allTexts utf8 →
      (Json.object (alter (cstr "list")
        (fun _ => .array (updateList method param (listIn members))) members)).allTexts utf8 := by
    intro members hmembers
    have hlist : ∀ v ∈ listIn members, v.allTexts utf8 := by
      unfold listIn
      split
      · next elements hvalue =>
          have hmember := Json.allTexts_object.mp hmembers _ (mem_of_valueAt hvalue)
          exact Json.allTexts_array.mp hmember.2
      · simp
    apply Json.allTexts_alter hmembers
    · decide
    · rw [Json.allTexts_array]
      intro v hv
      rcases mem_updateList hv with hold | rfl
      · exact hlist v hold
      · exact hgetD
  have hempty : (Json.object ([] : List (Text × Doc))).allTexts utf8 := rfl
  cases file with
  | none => exact hobject [] hempty
  | some d =>
      cases d with
      | object members => exact hobject members (hfile _ rfl)
      | array elements => exact hfile _ rfl
      | _ => exact hobject [] hempty

theorem utf8_next {s : File} (hutf8 : Utf8 s) {a : Action} (hen : Enabled a) :
    Utf8 (next s a) := by
  cases a with
  | widgetRegistry method param =>
      rintro d hd
      obtain rfl := Option.some.inj hd
      exact utf8_widgetRegistry hutf8 hen.2 method
  | widget_registry_mgr title root index method =>
      have hcreated : Utf8 s.created := by
        cases s with
        | missing =>
            rintro d hd
            obtain rfl := Option.some.inj hd
            decide
        | _ => exact hutf8
      simp only [next, widget_registry_mgr]
      split_ifs
      · exact utf8_put_contents _
      · exact utf8_put_contents _
      · exact utf8_put_contents _
      · exact hcreated
      · exact hcreated

/-- A registry with entries of some titles. -/
def registry (titles : List Text) : File :=
  .json (.object [(cstr "list", .array (titles.map fun title => entryDoc title [] []))])

theorem faithful_registry {titles : List Text} {l : List Doc}
    (h : l ∈ entriesOf (registry titles)) : ∀ entry ∈ l, Faithful decimal entry := by
  obtain rfl := Option.some.inj (h : some (titles.map fun title => entryDoc title [] []) = some l)
  intro entry hentry
  obtain ⟨title, -, rfl⟩ := List.mem_map.mp hentry
  exact faithful_entryDoc title [] []

/-- A title with a letter that takes two bytes. -/
def accented : Text := [0xC3, 0xA9]

end KappaGateway.WidgetManager

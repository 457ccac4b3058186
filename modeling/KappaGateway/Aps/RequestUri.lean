import KappaGateway.Kapi.TreeRefinement

/-!
# The URI of a request

`handleRESTful` puts the strings of the path one behind the other with a slash after each,
and takes the last character away again. A path without elements leaves nothing to take
away.
-/

namespace KappaGateway.RequestUri

open KeyedList Kutil Jansson JsonWrapper State TreeRefinement

/-! ### `handleRESTful` up to the call of the handler -/

/-- The callback of `forEachInArr`, with what there is of `uri`. -/
def uriRound (path index : Nat) (cursor : State × Text) : Option (State × Text) :=
  let (s, json) := cursor.1.elementIndex path index
  (s.toString json).map fun text => (s, cursor.2 ++ (text ++ cstr "/"))

/-- The loop of `forEachInArr` from an index on, with a bound on its rounds. -/
def uriRounds (path : Nat) : Nat → Nat → State × Text → Option (State × Text)
  | 0, _, _ => none
  | rounds + 1, index, cursor =>
      if index < cursor.1.size path then
        (uriRound path index cursor).bind (uriRounds path rounds (index + 1))
      else some cursor

def forEachInArr (path : Nat) (cursor : State × Text) : Option (State × Text) :=
  if (cursor.1.get path).type ≠ .array then some cursor
  else uriRounds path (cursor.1.size path + 1) 0 cursor

/-- What the context is looked up by and filled with, and the string that lost its last
character. -/
structure Request where
  uri : Text
  popped : Text
  parameter : Text
  request : Text

/-- `handleRESTful` on a request that was parsed or not. -/
def handleRESTful (json_dumps : Tree → Option Text) (req : Text) (source : Option Tree) :
    Option Request :=
  let s := State.init.constructFrom source
  let (s, path) := s.elementKey 0 (cstr "path")
  let (s, param) := s.elementKey 0 (cstr "parameter")
  (forEachInArr path (s, [])).map fun (s, uri) =>
    { uri := uri.dropLast
      popped := uri
      parameter := s.stringify json_dumps param
      request := req }

/-! ### What it is for -/

/-- The elements of a value that is an array. -/
def elements : Option Tree → List Tree
  | some (.array l) => l
  | _ => []

/-- The path of a request. -/
def pathOf (source : Option Tree) : Option Tree := source.bind fun t => t.at (cstr "path", 0)

/-- The strings of the path with a slash between them are looked up, and the string that
loses a character has one. -/
def Total (source : Option Tree) : Prop :=
  ∀ json_dumps req, ∃ r, handleRESTful json_dumps req source = some r ∧
    r.uri = (cstr "/").intercalate ((elements (pathOf source)).map Tree.text) ∧ r.popped ≠ []

/-- The texts with a slash behind each. -/
def slashed (l : List Tree) : Text := l.flatMap fun v => v.text ++ cstr "/"

theorem slashed_ne_nil_iff (l : List Tree) : slashed l ≠ [] ↔ l ≠ [] := by
  cases l with
  | nil => simp [slashed]
  | cons v rest => simp [slashed, cstr]

theorem dropLast_slashed (l : List Tree) :
    (slashed l).dropLast = (cstr "/").intercalate (l.map Tree.text) := by
  induction l with
  | nil => rfl
  | cons v rest ih =>
      cases rest with
      | nil => simp [slashed, cstr]
      | cons u rest =>
          have hne : slashed (u :: rest) ≠ [] :=
            (slashed_ne_nil_iff _).mpr (List.cons_ne_nil u rest)
          have hsplit : slashed (v :: u :: rest) = v.text ++ cstr "/" ++ slashed (u :: rest) := rfl
          calc
            (slashed (v :: u :: rest)).dropLast =
                v.text ++ cstr "/" ++ (slashed (u :: rest)).dropLast := by
              rw [hsplit, List.dropLast_append_of_ne_nil hne]
            _ = (cstr "/").intercalate ((v :: u :: rest).map Tree.text) := by
              rw [ih]
              exact List.intercalate_cons_cons.symm

/-! ### The loop -/

section

variable {s : State} {root w : Nat} {t v : Tree} {path : List Slot} {l : List Tree} {i : Nat}

/-- Asking for an element changes no value, and shows its text. -/
theorem uriRound_eq (hm : Mirrors s root t) (hw : Reached s root w path)
    (hlook : Tree.look path t = some (.array l)) (hentry : l[i]? = some v) (uri : Text) :
    ∃ u, uriRound w i (s, uri) = some (u, uri ++ (v.text ++ cstr "/")) ∧ Mirrors u root t ∧
      Reached u root w path := by
  have hwalive := hm.alive hw
  have hacc := elementIndex_accessed hm.inStep hwalive (hm.usable hwalive) (hm.type_at hw hlook)
    (hm.json w hwalive) i
  obtain ⟨v', hlook', hmirrors, hreached, hkept⟩ := Accessed.mirrors (p := ([], i)) hacc hm hw
  obtain rfl := Option.some.inj (hlook.symm.trans hlook')
  have hat : (Tree.array l).at ([], i) = some v := hentry
  rw [Tree.grow_eq_self (by rw [hat]; rfl), Tree.put_self hlook] at hmirrors
  have htext := toString_at hmirrors hreached (Tree.look_place hlook hat)
  refine ⟨_, ?_, hmirrors, hw.kept fun y hy => (hkept y hy).stays⟩
  rw [uriRound]
  simp only [htext, Option.map_some]

/-- The loop ends, and has appended the texts of the elements from an index on. -/
theorem uriRounds_eq {rounds : Nat} (hm : Mirrors s root t) (hw : Reached s root w path)
    (hlook : Tree.look path t = some (.array l)) (hi : i ≤ l.length)
    (hrounds : l.length < i + rounds) (uri : Text) :
    ∃ u, uriRounds w rounds i (s, uri) = some (u, uri ++ slashed (l.drop i)) := by
  induction rounds generalizing s i uri with
  | zero => omega
  | succ rounds ih =>
      have hsize : s.size w = l.length := hm.size_at hw hlook
      rw [uriRounds, hsize]
      by_cases hlt : i < l.length
      · obtain ⟨u, hround, hmirrors, hreached⟩ :=
          uriRound_eq hm hw hlook (List.getElem?_eq_getElem hlt) uri
        obtain ⟨u', hrest⟩ := ih hmirrors hreached hlt (by omega) (uri ++ (l[i].text ++ cstr "/"))
        refine ⟨u', ?_⟩
        rw [if_pos hlt, hround, Option.bind_some, hrest, List.append_assoc,
          List.drop_eq_getElem_cons hlt]
        rfl
      · have hdone : l.drop i = [] := List.drop_eq_nil_of_le (Nat.le_of_not_lt hlt)
        rw [if_neg hlt, hdone]
        exact ⟨s, by rw [slashed, List.flatMap_nil, List.append_nil]⟩

/-- Of a value that is no array, nothing is appended. -/
theorem forEachInArr_eq {cursor : Option (List Slot)} (hm : Mirrors s root t)
    (hw : Found s root w cursor) :
    ∃ u, forEachInArr w (s, []) =
      some (u, slashed (elements (cursor.bind fun p => Tree.look p t))) := by
  cases cursor with
  | none =>
      have hfault : (s.get w).type ≠ .array := by
        rw [hw.2]
        decide
      exact ⟨s, if_pos hfault⟩
  | some path =>
      obtain ⟨-, -, v, -, hlook, -⟩ := hm.value_at hw
      have htype := hm.type_at hw hlook
      rw [forEachInArr, htype, Option.bind_some, hlook]
      cases v with
      | array l =>
          rw [if_neg (by simp [Tree.type]), hm.size_at hw hlook]
          exact uriRounds_eq hm hw hlook (Nat.zero_le _) (by simp [Tree.size]) []
      | bool b => cases b <;> exact ⟨s, rfl⟩
      | _ => exact ⟨s, rfl⟩

end

/-! ### The path -/

section

variable {key key' : Text} {members : List (Text × Tree)}

theorem at_grow_self (key : Text) (members : List (Text × Tree)) :
    ((Tree.object members).grow (key, 0)).at (key, 0) =
      some ((valueAt key members).getD .null) := by
  rw [Tree.grow]
  split
  · next h =>
      obtain ⟨v, hv⟩ := Option.isSome_iff_exists.mp h
      rw [hv]
      exact hv
  · next h =>
      rw [Option.not_isSome_iff_eq_none.mp h]
      exact valueAt_alter_self key _ members

theorem at_grow_of_ne (h : key' ≠ key) (members : List (Text × Tree)) :
    ((Tree.object members).grow (key, 0)).at (key', 0) = (Tree.object members).at (key', 0) := by
  rw [Tree.grow]
  split
  · rfl
  · exact valueAt_alter_of_ne h _ members

/-- An object shows at a key what it had there, or null, also when another key was asked
for after it. -/
theorem look_grown (h : key' ≠ key) (members : List (Text × Tree)) :
    ∃ grown, (Tree.object members).grow (key', 0) = .object grown ∧
      Tree.look [(key', 0)] ((Tree.object grown).grow (key, 0)) =
        some ((valueAt key' members).getD .null) := by
  refine ⟨_, rfl, ?_⟩
  rw [Tree.look, at_grow_of_ne h]
  exact congrArg (Option.bind · (Tree.look [])) (at_grow_self key' members)

/-- The elements of the path, once the path and the parameter were asked for. -/
theorem elements_accessed (t : Tree) :
    let path := t.reach [.key (cstr "path")]
    let param := path.1.reach [.key (cstr "parameter")]
    elements (path.2.bind fun p => Tree.look p param.1) = elements (pathOf (some t)) := by
  have hne : cstr "path" ≠ cstr "parameter" := by decide
  cases t with
  | object members =>
      obtain ⟨grown, hgrown, hlook⟩ := look_grown hne members
      have hpath : (Tree.object members).reach [.key (cstr "path")] =
          (.object grown, some [(cstr "path", 0)]) := by
        rw [← hgrown]
        rfl
      have hvalue : pathOf (some (.object members)) = valueAt (cstr "path") members := rfl
      dsimp only
      rw [hpath, hvalue]
      refine (congrArg elements hlook).trans ?_
      cases valueAt (cstr "path") members with
      | none => rfl
      | some v => rfl
  | null => rfl
  | _ => rfl

end

/-! ### Any request -/

/-- What is looked up, and what the last character is taken from. -/
theorem handleRESTful_eq (json_dumps : Tree → Option Text) (req : Text) (source : Option Tree) :
    ∃ r, handleRESTful json_dumps req source = some r ∧
      r.popped = slashed (elements (pathOf source)) ∧ r.uri = r.popped.dropLast := by
  cases source with
  | none => exact ⟨_, rfl, rfl, rfl⟩
  | some t =>
      have hpath := reach_accesses (start_mirrors t) [.key (cstr "path")]
      have hparam := reach_accesses hpath.mirrors [.key (cstr "parameter")]
      obtain ⟨u, huri⟩ := forEachInArr_eq hparam.mirrors (hpath.found.kept hparam.stays)
      rw [elements_accessed] at huri
      exact ⟨_, congrArg (Option.map _) huri, rfl, rfl⟩

/-- The URI is built as it should be exactly if the path is an array with an element. -/
theorem handleRESTful_total_iff (source : Option Tree) :
    Total source ↔ ∃ l, pathOf source = some (.array l) ∧ l ≠ [] := by
  have hnonempty : elements (pathOf source) ≠ [] ↔
      ∃ l, pathOf source = some (.array l) ∧ l ≠ [] := by
    constructor
    · intro h
      cases hvalue : pathOf source with
      | none => exact absurd (by rw [hvalue]; rfl) h
      | some v =>
          rw [hvalue] at h
          cases v with
          | array l => exact ⟨l, rfl, h⟩
          | _ => exact absurd rfl h
    · rintro ⟨l, hvalue, hl⟩
      rw [hvalue]
      exact hl
  rw [← hnonempty, ← slashed_ne_nil_iff]
  constructor
  · intro h
    obtain ⟨r, hr, -, hpopped⟩ := h (fun _ => none) []
    obtain ⟨r', hr', hslashed, -⟩ := handleRESTful_eq (fun _ => none) [] source
    obtain rfl := Option.some.inj (hr.symm.trans hr')
    exact hslashed ▸ hpopped
  · intro h json_dumps req
    obtain ⟨r, hr, hslashed, huri⟩ := handleRESTful_eq json_dumps req source
    refine ⟨r, hr, ?_, hslashed ▸ h⟩
    rw [huri, hslashed, dropLast_slashed]

/-- A request with an empty path loses a character that it does not have. -/
theorem handleRESTful_of_empty_path :
    ¬ Total (some (.object [(cstr "path", .array [])])) ∧
      (handleRESTful (fun _ => none) [] (some (.object [(cstr "path", .array [])]))).map
        Request.popped = some [] := by
  refine ⟨?_, by decide⟩
  rw [handleRESTful_total_iff]
  rintro ⟨l, hpath, hne⟩
  cases hpath
  exact hne rfl

end KappaGateway.RequestUri

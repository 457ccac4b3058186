import KappaGateway.Kapi.TreeRefinement
import KappaGateway.Kintf.WidgetRegistry
import KappaGateway.Lib.Sweep

/-!
# What a deletion leaves in the registry

`DELETE` on the wrappers of the file: the loop asks for each index once, in ascending
order, so no wrapper of an entry behind the index is there when one is erased. The file
is what it would be without wrappers. But the loop goes on to the next index after it has
erased an entry, and does not look at the one that has moved to the index.
-/

namespace KappaGateway.WidgetManager

open KeyedList Kutil Kjson Jansson JsonWrapper State TreeRefinement Sweep

/-! ### `DELETE` on wrappers -/

/-- A round of `forEachInObj` in `pred`: the wrappers, and `result`. -/
def predRound (cmp : Nat) (cursor : State × Bool) (e : Text × Tree) : State × Bool :=
  if cursor.1.existKey cmp e.1 then
    let (s, x) := cursor.1.elementKey cmp e.1
    (s, cursor.2 && s.toString x = some e.2.text)
  else cursor

/-- `pred` on the wrapper of an entry, with the members of the parameter. -/
def predOn (members : List (Text × Tree)) (cmp : Nat) (s : State) : State × Bool :=
  members.foldl (predRound cmp) (s, true)

/-- A round of the loop of `DELETE`. -/
def eraseRound (members : List (Text × Tree)) (list i : Nat) (s : State) : State :=
  let (s, cmp) := s.elementIndex list i
  let (s, matched) := predOn members cmp s
  if matched then (s.eraseIndex list i).1 else s

/-- The loop from index `i`, with a bound on its rounds. -/
def eraseRounds (members : List (Text × Tree)) (list : Nat) : Nat → Nat → State → State
  | 0, _, s => s
  | rounds + 1, i, s =>
      if i < s.size list then
        eraseRounds members list rounds (i + 1) (eraseRound members list i s)
      else s

/-- The members that `forEachInObj` visits. -/
def membersOf : Tree → List (Text × Tree)
  | .object members => members
  | _ => []

/-- What `widgetRegistry` does to the wrappers of the file for `DELETE`. -/
def deleteWidgets (param : Tree) (reg : Nat) (s : State) : Option State :=
  let (s, list) := s.elementKey reg (cstr "list")
  let s := if (s.get list).type ≠ .array then s.assignTemporary list (.array []) else some s
  s.bind fun s =>
    if param.size = 0 then s.assignTemporary list (.array [])
    else some (eraseRounds (membersOf param) list (s.size list) 0 s)

/-- The entry has the text of a member, or not its key. -/
def agrees (v : Tree) (e : Text × Tree) : Bool :=
  match v with
  | .object entry =>
      match valueAt e.1 entry with
      | none => true
      | some u => u.text = e.2.text
  | _ => true

/-- `pred` without wrappers. -/
def predTree (members : List (Text × Tree)) (v : Tree) : Bool := members.all (agrees v)

section

variable {s u : State} {root cmp w : Nat} {t v : Tree} {path : List Slot} {key : Text}

/-! ### The comparison -/

/-- What the comparison with an entry leaves: the wrappers that were there, and new ones of
elements of the entry. -/
structure Looked (s : State) (root cmp : Nat) (t : Tree) (u : State) : Prop where
  mirrors : Mirrors u root t
  kept : ∀ y, (s.get y).alive → u.get y = s.get y
  added : ∀ y, (u.get y).alive → (s.get y).alive ∨ (u.get y).parent = some cmp

theorem Looked.refl (hm : Mirrors s root t) (cmp : Nat) : Looked s root cmp t s :=
  ⟨hm, fun _ _ => rfl, fun _ => Or.inl⟩

theorem Looked.trans {s' : State} (h : Looked s root cmp t s') (h' : Looked s' root cmp t u) :
    Looked s root cmp t u := by
  refine ⟨h'.mirrors, fun y hy => ?_, fun y hy => ?_⟩
  · have hsame := h.kept y hy
    rw [h'.kept y (by rw [hsame, hy]), hsame]
  · rcases h'.added y hy with hys | hparent
    · rcases h.added y hys with hy' | hparent
      · exact Or.inl hy'
      · exact Or.inr (by rw [h'.kept y hys, hparent])
    · exact Or.inr hparent

theorem Looked.reached (h : Looked s root cmp t u) {x : Nat} (hx : Reached s root x path) :
    Reached u root x path :=
  hx.kept fun y hy => (Alike.of_eq (h.kept y hy)).stays

/-- An element that is there is reached by `operator[]`. -/
theorem elementKey_looked (hm : Mirrors s root t) (hw : Reached s root cmp path)
    {entry : List (Text × Tree)} (hlook : Tree.look path t = some (.object entry))
    (hvalue : valueAt key entry = some v) :
    Looked s root cmp t (s.elementKey cmp key).1 ∧
      Reached (s.elementKey cmp key).1 root (s.elementKey cmp key).2 (path ++ [(key, 0)]) := by
  have hwalive := hm.alive hw
  have htype : (s.get cmp).type = .object := hm.type_at hw hlook
  have helement : s.elementKey cmp key = s.childKey cmp key := by simp [elementKey, htype]
  have hacc := childKey_accessed hm.inStep hwalive (hm.usable hwalive) htype
    (hm.json cmp hwalive) key
  obtain ⟨v', hlook', hmirrors, hreached, -⟩ := Accessed.mirrors (p := (key, 0)) hacc hm hw
  obtain rfl := Option.some.inj (hlook.symm.trans hlook')
  have hat : (Tree.object entry).at (key, 0) = some v := hvalue
  rw [Tree.grow_eq_self (by rw [hat]; rfl), Tree.put_self hlook] at hmirrors
  rw [helement]
  refine ⟨⟨hmirrors, hacc.element.kept, fun y hy => ?_⟩, hreached⟩
  rcases hacc.alive_cases hy with hys | rfl
  · exact Or.inl hys
  · exact Or.inr hacc.element.parent

theorem predRound_looked {cursor : State × Bool} (hm : Mirrors cursor.1 root t)
    (hw : Reached cursor.1 root cmp path) (hlook : Tree.look path t = some v)
    (e : Text × Tree) :
    Looked cursor.1 root cmp t (predRound cmp cursor e).1 ∧
      (predRound cmp cursor e).2 = (cursor.2 && agrees v e) := by
  have hexist := hm.existKey_at hw hlook e.1
  cases hkey : v.hasKey e.1 with
  | false =>
      rw [hkey] at hexist
      have hmatch : agrees v e = true := by
        cases v with
        | object entry =>
            have hnone : valueAt e.1 entry = none := by simpa [Tree.hasKey] using hkey
            simp [agrees, hnone]
        | _ => rfl
      rw [predRound, if_neg (by simp [hexist]), hmatch, Bool.and_true]
      exact ⟨.refl hm cmp, rfl⟩
  | true =>
      rw [hkey] at hexist
      cases v with
      | object entry =>
          obtain ⟨value, hvalue⟩ := Option.isSome_iff_exists.mp hkey
          obtain ⟨hlooked, hreached⟩ := elementKey_looked hm hw hlook hvalue
          have htext := toString_at hlooked.mirrors hreached (Tree.look_place hlook hvalue)
          have hmatch : agrees (.object entry) e = decide (value.text = e.2.text) := by
            simp [agrees, hvalue]
          rw [predRound, if_pos hexist, hmatch]
          refine ⟨hlooked, ?_⟩
          simp [htext]
      | _ => cases hkey

/-- The comparison changes no value, and comes to the same result without wrappers. -/
theorem predOn_looked (hm : Mirrors s root t) (hw : Reached s root cmp path)
    (hlook : Tree.look path t = some v) (members : List (Text × Tree)) :
    Looked s root cmp t (predOn members cmp s).1 ∧
      (predOn members cmp s).2 = predTree members v := by
  have hall : ∀ (members : List (Text × Tree)) (cursor : State × Bool),
      Mirrors cursor.1 root t → Reached cursor.1 root cmp path →
      Looked cursor.1 root cmp t (members.foldl (predRound cmp) cursor).1 ∧
        (members.foldl (predRound cmp) cursor).2 = (cursor.2 && predTree members v) := by
    intro members
    induction members with
    | nil =>
        intro cursor hm _
        exact ⟨.refl hm cmp, (Bool.and_true cursor.2).symm⟩
    | cons e members ih =>
        intro cursor hm hw
        obtain ⟨hfirst, hresult⟩ := predRound_looked hm hw hlook e
        obtain ⟨hrest, hresults⟩ := ih _ hfirst.mirrors (hfirst.reached hw)
        refine ⟨hfirst.trans hrest, ?_⟩
        rw [List.foldl_cons, hresults, hresult, Bool.and_assoc]
        rfl
  obtain ⟨hlooked, hresult⟩ := hall members (s, true) hm hw
  exact ⟨hlooked, hresult.trans (Bool.true_and _)⟩

/-! ### The loop -/

/-- Before round `i`, the wrapper of the list shows some entries, and no entry from the
index on has a wrapper. -/
structure Visited (root list : Nat) (t : Tree) (path : List Slot) (i : Nat) (l : List Tree)
    (s : State) : Prop where
  mirrors : Mirrors s root (Tree.put (.array l) path t)
  reached : Reached s root list path
  below : ∀ y, (s.get y).alive → (s.get y).parent = some list → (s.get y).index < i

variable {list i rounds : Nat} {l : List Tree} {members : List (Text × Tree)}

theorem Visited.size (h : Visited root list t path i l s) (hpath : Tree.look path t = some v) :
    s.size list = l.length :=
  h.mirrors.size_at h.reached (Tree.look_put_self hpath _)

/-- The wrappers after the comparison with entry `i`. -/
theorem Visited.compared (h : Visited root list t path i l s) {w : Tree}
    (hpath : Tree.look path t = some w) (hentry : l[i]? = some v)
    (members : List (Text × Tree)) :
    let cursor := predOn members (s.elementIndex list i).2 (s.elementIndex list i).1
    Visited root list t path (i + 1) l cursor.1 ∧ cursor.2 = predTree members v := by
  have hlook := Tree.look_put_self hpath (.array l)
  have hwalive := h.mirrors.alive h.reached
  have hacc := elementIndex_accessed h.mirrors.inStep hwalive (h.mirrors.usable hwalive)
    (h.mirrors.type_at h.reached hlook) (h.mirrors.json list hwalive) i
  obtain ⟨w', hlook', hmirrors, hreached, hkept⟩ :=
    Accessed.mirrors (p := ([], i)) hacc h.mirrors h.reached
  obtain rfl := Option.some.inj (hlook.symm.trans hlook')
  have hat : (Tree.array l).at ([], i) = some v := hentry
  rw [Tree.grow_eq_self (by rw [hat]; rfl), Tree.put_self hlook] at hmirrors
  have hlist : Reached (s.elementIndex list i).1 root list path :=
    h.reached.kept fun y hy => (hkept y hy).stays
  obtain ⟨hlooked, hresult⟩ := predOn_looked hmirrors hreached (Tree.look_place hlook hat) members
  have hchild := hmirrors.inStep.parent _ _ hacc.element.alive hacc.element.parent
  refine ⟨⟨hlooked.mirrors, hlooked.reached hlist, fun y hy hparent => ?_⟩, hresult⟩
  rcases hlooked.added y hy with hys | hnew
  · rw [hlooked.kept y hys] at hparent ⊢
    rcases hacc.alive_cases hys with hyold | rfl
    · rw [hacc.element.kept y hyold] at hparent ⊢
      exact Nat.lt_succ_of_lt (h.below y hyold hparent)
    · rw [hacc.element.index]
      exact Nat.lt_succ_self i
  · have hsame := Option.some.inj (hparent.symm.trans hnew)
    exact absurd hchild.1 (by rw [← hsame]; exact Nat.lt_irrefl list)

/-- An entry is erased when no entry behind it has a wrapper. -/
theorem Visited.erased (h : Visited root list t path (i + 1) l s) {w : Tree}
    (hpath : Tree.look path t = some w) (hentry : l[i]? = some v) :
    Visited root list t path (i + 1) (l.eraseIdx i) (s.eraseIndex list i).1 := by
  have hlook := Tree.look_put_self hpath (.array l)
  have hwalive := h.mirrors.alive h.reached
  have hlater : ∀ y, (s.get y).alive → (s.get y).parent = some list → (s.get y).index ≤ i :=
    fun y hy hparent => Nat.le_of_lt_succ (h.below y hy hparent)
  have hmirrors := eraseIndex_mirrors h.mirrors h.reached hlook hlater
  rw [Tree.put_put hpath] at hmirrors
  have hexist : s.existIndex list i = true := by
    rw [h.mirrors.existIndex_at h.reached hlook, Tree.hasIndex, hentry]
    rfl
  have hremoved := eraseIndex_removed h.mirrors.inStep hwalive (h.mirrors.usable hwalive) hexist
  refine ⟨hmirrors, ?_, fun y hy hparent => ?_⟩
  · apply h.reached.kept_of_le h.mirrors.inStep
    intro y hle hy
    exact hremoved.kept h.mirrors.inStep hwalive hy hle
  · rcases hremoved.left hy with ⟨hys, hsame⟩ | hindex
    · rw [hsame] at hparent ⊢
      exact h.below y hys hparent
    · rw [hindex]
      exact Nat.lt_succ_self i

/-- A round erases the entry if it matches. -/
theorem Visited.round (h : Visited root list t path i l s) {w : Tree}
    (hpath : Tree.look path t = some w) (hentry : l[i]? = some v) :
    Visited root list t path (i + 1) (if predTree members v then l.eraseIdx i else l)
      (eraseRound members list i s) := by
  obtain ⟨hcompared, hresult⟩ := h.compared hpath hentry members
  simp only [eraseRound, hresult]
  split
  · exact hcompared.erased hpath hentry
  · exact hcompared

/-- The loop sweeps the entries. -/
theorem Visited.swept (h : Visited root list t path 0 l s) {w : Tree}
    (hpath : Tree.look path t = some w) (members : List (Text × Tree)) :
    ∃ i, Visited root list t path i (sweep (predTree members) l)
      (eraseRounds members list (s.size list) 0 s) := by
  have hend : ∀ rounds i l s, Visited root list t path i l s → l.length ≤ i →
      eraseRounds members list rounds i s = s := by
    intro rounds i l s h hle
    cases rounds with
    | zero => rfl
    | succ rounds => rw [eraseRounds, if_neg (by rw [h.size hpath]; omega)]
  have hround : ∀ rounds i l s v, Visited root list t path i l s → l[i]? = some v →
      ∃ s', eraseRounds members list (rounds + 1) i s =
          eraseRounds members list rounds (i + 1) s' ∧
        Visited root list t path (i + 1) (if predTree members v then l.eraseIdx i else l) s' := by
    intro rounds i l s v h hentry
    obtain ⟨hlt, -⟩ := List.getElem?_eq_some_iff.mp hentry
    rw [← h.size hpath] at hlt
    refine ⟨eraseRound members list i s, by rw [eraseRounds, if_pos hlt], ?_⟩
    exact h.round hpath hentry
  have hstart : Visited root list t path ([] : List Tree).length ([] ++ l) s := h
  exact sweep_rule hend hround hstart (Nat.le_of_eq (h.size hpath).symm)

end

/-! ### The file -/

/-- The file after a deletion has the entries that the loop leaves. -/
theorem deleteWidgets_swept {reg : List (Text × Tree)} {l : List Tree}
    (hlist : valueAt (cstr "list") reg = some (.array l)) {members : List (Text × Tree)}
    (hmembers : members ≠ []) :
    ∃ u, deleteWidgets (.object members) 0 (start (.object reg)) = some u ∧
      treeOf u.heap (u.get 0).json = some (.object
        (alter (cstr "list") (fun _ => .array (sweep (predTree members) l)) reg)) := by
  have hm := start_mirrors (.object reg)
  have hat : (Tree.object reg).at (cstr "list", 0) = some (.array l) := hlist
  have hself : Tree.look [] (.object reg) = some (.object reg) := rfl
  have hpath : Tree.look [(cstr "list", 0)] (.object reg) = some (.array l) :=
    Tree.look_place hself hat
  obtain ⟨hlooked, hreached⟩ := elementKey_looked hm .root hself hlist
  rw [List.nil_append] at hreached
  have hvisited : Visited 0 ((start (.object reg)).elementKey 0 (cstr "list")).2 (.object reg)
      [(cstr "list", 0)] 0 l ((start (.object reg)).elementKey 0 (cstr "list")).1 := by
    refine ⟨?_, hreached, fun y hy hparent => ?_⟩
    · rw [Tree.put_self hpath]
      exact hlooked.mirrors
    · have hnot : ∀ x, ((start (.object reg)).get x).alive →
          ((start (.object reg)).get x).parent = none := by
        intro x hx
        rw [start_alive hx]
        exact hm.root_parent
      rcases hlooked.added y hy with hys | hnew
      · rw [hlooked.kept y hys, hnot y hys] at hparent
        cases hparent
      · have hlt := hlooked.mirrors.root_lt hreached (List.cons_ne_nil _ _)
        rw [← Option.some.inj (hnew.symm.trans hparent)] at hlt
        exact absurd hlt (Nat.lt_irrefl 0)
  obtain ⟨i, hswept⟩ := hvisited.swept hpath members
  have htype := hlooked.mirrors.type_at hreached hpath
  obtain ⟨v, hlook, hdenotes⟩ := denotes_of_reached hswept.mirrors .root
  refine ⟨_, ?_, hdenotes.value.trans ?_⟩
  · have hsize : (Tree.object members).size ≠ 0 :=
      fun hzero => hmembers (List.length_eq_zero_iff.mp hzero)
    simp only [deleteWidgets, htype, Tree.type, if_neg hsize]
    rfl
  · rw [← hlook, Tree.look, Tree.put, hat]
    rfl

/-! ### The handler without wrappers -/

mutual

/-- A document as a value of Jansson. -/
def tree : Doc → Tree
  | .null => .null
  | .bool b => .bool b
  | .integer n => .integer n
  | .string s => .string s
  | .array elements => .array (trees elements)
  | .object members => .object (treeMembers members)

def trees : List Doc → List Tree
  | [] => []
  | v :: rest => tree v :: trees rest

def treeMembers : List (Text × Doc) → List (Text × Tree)
  | [] => []
  | (key, v) :: rest => (key, tree v) :: treeMembers rest

end

theorem trees_eq (l : List Doc) : trees l = l.map tree := by
  induction l with
  | nil => rfl
  | cons v rest ih => rw [trees, ih, List.map_cons]

theorem treeMembers_eq (members : List (Text × Doc)) :
    treeMembers members = members.map fun e => (e.1, tree e.2) := by
  induction members with
  | nil => rfl
  | cons e rest ih => rw [treeMembers, ih, List.map_cons]

theorem text_tree (v : Doc) : (tree v).text = toText (some v) := by
  cases v <;> rfl

theorem agrees_tree (v : Doc) (e : Text × Doc) :
    agrees (tree v) (e.1, tree e.2) =
      match v.member e.1 with
      | none => true
      | some u => toText (some u) = toText (some e.2) := by
  cases v with
  | object entry =>
      rw [tree, treeMembers_eq, agrees, valueAt_map, Json.member]
      cases valueAt e.1 entry with
      | none => rfl
      | some u => simp [text_tree]
  | _ => rfl

theorem predTree_tree (members : List (Text × Doc)) (v : Doc) :
    predTree (treeMembers members) (tree v) = pred (some (.object members)) v := by
  rw [treeMembers_eq, predTree, List.all_map, pred]
  apply congrArg (members.all ·)
  ext e
  exact agrees_tree v e

/-- The loop of the handler sweeps the list. -/
theorem eraseLoop_eq (p : Doc → Bool) (l : List Doc) :
    eraseLoop p l.length 0 l = sweep p l := by
  have hend : ∀ (rounds i : Nat) (l s : List Doc), s = l → l.length ≤ i →
      eraseLoop p rounds i s = s := by
    rintro rounds i l s rfl hle
    cases rounds with
    | zero => rfl
    | succ rounds => rw [eraseLoop, List.getElem?_eq_none hle]
  have hround : ∀ (rounds i : Nat) (l s : List Doc) (v : Doc), s = l → l[i]? = some v →
      ∃ s', eraseLoop p (rounds + 1) i s = eraseLoop p rounds (i + 1) s' ∧
        s' = if p v then l.eraseIdx i else l := by
    rintro rounds i l s v rfl hget
    exact ⟨_, by rw [eraseLoop, hget], rfl⟩
  have hstart : (fun (_ : Nat) (l s : List Doc) => s = l) ([] : List Doc).length ([] ++ l) l :=
    rfl
  obtain ⟨-, hswept⟩ := sweep_rule hend hround hstart (Nat.le_refl l.length)
  exact hswept

theorem updateList_delete {members : List (Text × Doc)} (h : members ≠ []) (l : List Doc) :
    updateList (cstr "DELETE") (some (.object members)) l =
      sweep (pred (some (.object members))) l := by
  have hsize : size (some (.object members)) ≠ 0 :=
    fun hzero => h (List.length_eq_zero_iff.mp hzero)
  rw [updateList, if_pos rfl, if_neg hsize]
  exact eraseLoop_eq _ l

/-- On wrappers, a deletion leaves the file that the handler leaves without them. -/
theorem deleteWidgets_refines {reg : List (Text × Doc)} {l : List Doc}
    (hlist : valueAt (cstr "list") reg = some (.array l)) {members : List (Text × Doc)}
    (hmembers : members ≠ []) :
    ∃ u, deleteWidgets (tree (.object members)) 0 (start (tree (.object reg))) = some u ∧
      treeOf u.heap (u.get 0).json = some (tree (widgetRegistry (cstr "DELETE")
        (some (.object members)) (some (.object reg))).1) := by
  have hlist' : valueAt (cstr "list") (treeMembers reg) = some (.array (trees l)) := by
    rw [treeMembers_eq, valueAt_map, hlist, Option.map_some, tree]
  have hmembers' : treeMembers members ≠ [] := by
    rw [treeMembers_eq]
    exact fun hnil => hmembers (List.map_eq_nil_iff.mp hnil)
  obtain ⟨u, hrun, hfile⟩ := deleteWidgets_swept hlist' hmembers'
  refine ⟨u, hrun, hfile.trans ?_⟩
  have hin : listIn reg = l := by rw [listIn, hlist]
  have hpred : predTree (treeMembers members) ∘ tree = pred (some (.object members)) :=
    funext fun v => predTree_tree members v
  have hleft : sweep (predTree (treeMembers members)) (trees l) =
      trees (sweep (pred (some (.object members))) l) := by
    rw [trees_eq, trees_eq, sweep_map, hpred]
  rw [hleft]
  simp only [widgetRegistry, hin, updateList_delete hmembers, tree, treeMembers_eq, alter_map]

/-! ### What is left -/

/-- For every registry whose list is an array, and every parameter with members: the entries
in the file after a deletion are those that do not match, in their order, if and only if no
two adjacent entries match. -/
theorem deletion_exact_iff {reg : List (Text × Tree)} {l : List Tree}
    (hlist : valueAt (cstr "list") reg = some (.array l)) {members : List (Text × Tree)}
    (hmembers : members ≠ []) :
    ∃ u elements, deleteWidgets (.object members) 0 (start (.object reg)) = some u ∧
      treeOf u.heap (u.get 0).json =
        some (.object (alter (cstr "list") (fun _ => .array elements) reg)) ∧
      (elements = (l.filter fun v => !predTree members v) ↔
        Isolated (predTree members) l) := by
  obtain ⟨u, hrun, hfile⟩ := deleteWidgets_swept hlist hmembers
  exact ⟨u, _, hrun, hfile, sweep_eq_filter_iff (predTree members) l⟩

/-- A widget with a title. -/
def widget (title : Text) : Tree := .object [(cstr "title", .string title)]

/-- A registry of widgets. -/
def widgets (titles : List Text) : List (Text × Tree) :=
  [(cstr "list", .array (titles.map widget))]

theorem deletion_exact_iff_isolated :
    ∃ u, deleteWidgets (widget (cstr "a")) 0
        (start (.object (widgets [cstr "a", cstr "b", cstr "a"]))) = some u ∧
      treeOf u.heap (u.get 0).json = some (.object (widgets [cstr "b"])) := by
  have hlist : valueAt (cstr "list") (widgets [cstr "a", cstr "b", cstr "a"]) =
      some (.array ([cstr "a", cstr "b", cstr "a"].map widget)) := rfl
  obtain ⟨u, elements, hrun, hfile, hiff⟩ :=
    deletion_exact_iff hlist (List.cons_ne_nil (cstr "title", Tree.string (cstr "a")) [])
  refine ⟨u, hrun, ?_⟩
  rw [hfile, hiff.mpr (by decide)]
  rfl

/-- Of two equal widgets side by side, one is left. -/
theorem deletion_of_adjacent :
    ([widget (cstr "a"), widget (cstr "a")].filter
        fun v => !predTree [(cstr "title", .string (cstr "a"))] v) = [] ∧
      ∃ u, deleteWidgets (widget (cstr "a")) 0
          (start (.object (widgets [cstr "a", cstr "a"]))) = some u ∧
        treeOf u.heap (u.get 0).json = some (.object (widgets [cstr "a"])) := by
  have hlist : valueAt (cstr "list") (widgets [cstr "a", cstr "a"]) =
      some (.array ([cstr "a", cstr "a"].map widget)) := rfl
  obtain ⟨u, hrun, hfile⟩ :=
    deleteWidgets_swept hlist (List.cons_ne_nil (cstr "title", Tree.string (cstr "a")) [])
  refine ⟨by decide, u, hrun, ?_⟩
  rw [hfile]
  rfl

end KappaGateway.WidgetManager

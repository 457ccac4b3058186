import KappaGateway.Kapi.TreeOperations

/-!
# The wrapper refines a plain tree

A program reaches wrappers from the root of its document, by `operator[]` and
`newElement`, and reads, assigns or erases there. The same is done with a plain
tree. As long as no index is erased before that of another wrapper, no JSON value
is assigned to a fault value, and Jansson takes the texts, every wrapper that is
reached afterwards shows the value at its path of the plain tree.
-/

namespace KappaGateway.JsonWrapper

open KeyedList RefCount Kutil Jansson State

/-- What a program does with a wrapper. -/
inductive Operation where
  | read
  | string (str : Text)
  | integer (val : Int)
  | bool (boolean : Bool)
  | temporary (source : Tree)
  | document (source : Tree)
  | copy (source : List Selector)
  | eraseKey (key : Text)
  | eraseIndex (index : Nat)

/-- The way to the wrapper whose value is copied. -/
def Operation.source : Operation → List Selector
  | .copy source => source
  | _ => []

/-- The assignments of JSON values, which do not look at the type of the wrapper. -/
def Operation.assignsJSON : Operation → Bool
  | .temporary _ | .document _ | .copy _ => true
  | _ => false

/-- An operation, and the way from the root to its wrapper. -/
structure Statement where
  selectors : List Selector
  operation : Operation

namespace State

/-- Goes along some selectors. -/
def reach (root : Nat) (selectors : List Selector) (s : State) : State × Nat :=
  selectors.foldl (fun cursor selector => access selector cursor) (s, root)

/-- An operation on a wrapper; the wrapper `y` is copied. -/
def operate (w y : Nat) : Operation → State → Option State
  | .read, s => some s
  | .string str, s => some (s.assignString w str)
  | .integer val, s => some (s.assignInteger w val)
  | .bool boolean, s => some (s.assignBool w boolean)
  | .temporary source, s => s.assignTemporary w source
  | .document source, s => s.assignDocument w source
  | .copy _, s => s.assignCopy w y
  | .eraseKey key, s => some (s.eraseKey w key).1
  | .eraseIndex index, s => some (s.eraseIndex w index).1

/-- Reaches the wrapper of a statement, and before it the one to be copied. -/
def operands (root : Nat) (statement : Statement) (s : State) : State × Nat × Nat :=
  let (s, y) := s.reach root statement.operation.source
  let (s, w) := s.reach root statement.selectors
  (s, w, y)

def perform (root : Nat) (statement : Statement) (s : State) : Option State :=
  let (s, w, y) := s.operands root statement
  s.operate w y statement.operation

def run (root : Nat) : List Statement → State → Option State
  | [], s => some s
  | statement :: rest, s => (s.perform root statement).bind (run root rest)

/-- `json_string_value`, without a value if the pointer would be `NULL`. -/
def json_string_value (h : Memory) : Option Ref → Option Text
  | some (.cell a) =>
      match h.contentAt a with
      | some (.string s) => some s
      | _ => none
  | _ => none

/-- `toString`. -/
def toString (s : State) (w : Nat) : Option Text :=
  match (s.get w).type with
  | .string => json_string_value s.heap (s.get w).json
  | _ => some []

/-- `stringify`; Jansson's `json_dumps` is given the value. -/
def stringify (json_dumps : Tree → Option Text) (s : State) (w : Nat) : Text :=
  ((treeOf s.heap (s.get w).json).bind json_dumps).getD []

end State

end KappaGateway.JsonWrapper

namespace KappaGateway.Jansson

open KeyedList Kutil JsonWrapper

namespace Tree

/-- The value that an operation leaves at its path. -/
def operate (copied : Tree) : Operation → Tree → Tree
  | .read, t => t
  | .string str, _ => .string str
  | .integer val, _ => .integer val
  | .bool boolean, _ => .bool boolean
  | .temporary source, _ => source
  | .document source, _ => source
  | .copy _, _ => copied
  | .eraseKey key, t => t.eraseKey key
  | .eraseIndex index, t => t.eraseIndex index

/-- The value at the path of an operand; one that does not exist is null. -/
def operand (t : Tree) (path : Option (List Slot)) : Tree :=
  (path.bind fun p => look p t).getD .null

/-- An operation changes the value at the path of its target, if there is one. -/
def change (operation : Operation) (source target : Option (List Slot)) (t : Tree) : Tree :=
  match target with
  | some path => put (operate (t.operand source) operation (t.operand target)) path t
  | none => t

def perform (statement : Statement) (t : Tree) : Tree :=
  let (t, source) := t.reach statement.operation.source
  let (t, target) := t.reach statement.selectors
  t.change statement.operation source target

def run (program : List Statement) (t : Tree) : Tree :=
  program.foldl (fun t statement => t.perform statement) t

end Tree

end KappaGateway.Jansson

namespace KappaGateway.TreeRefinement

open KeyedList RefCount Kutil Jansson JsonWrapper State

/-- The wrapper of a document that was parsed. -/
def start (source : Tree) : State := State.init.constructFrom (some source)

/-- A wrapper shows a value. -/
structure Denotes (s : State) (w : Nat) (v : Tree) : Prop where
  value : treeOf s.heap (s.get w).json = some v
  type : (s.get w).type = v.type
  size : s.size w = v.size
  existKey : ∀ key, s.existKey w key = v.hasKey key
  existIndex : ∀ index, s.existIndex w index = v.hasIndex index
  toString : s.toString w = some v.text
  stringify : ∀ json_dumps, s.stringify json_dumps w = (json_dumps v).getD []

/-- What is reached by some selectors is the same as in the plain tree; where this has
no element, it is a fault value. -/
def Agrees (s : State) (root : Nat) (t : Tree) (selectors : List Selector) : Prop :=
  match t.reach selectors with
  | (t', some path) => ∃ v, Tree.look path t' = some v ∧
      Denotes (s.reach root selectors).1 (s.reach root selectors).2 v
  | (_, none) => ((s.reach root selectors).1.get (s.reach root selectors).2).type = .fault

/-- A text that Jansson takes: a C string in UTF-8. -/
def Accepted (text : Text) : Prop :=
  0 ∉ text ∧ ∃ chars : List Char, text = chars.flatMap String.utf8EncodeChar

/-- The keys of some selectors. -/
def keys (selectors : List Selector) : List Text :=
  selectors.flatMap fun selector =>
    match selector with
    | .key key => [key]
    | _ => []

/-- The texts that a statement hands to Jansson. -/
def texts (statement : Statement) : List Text :=
  keys statement.selectors ++
    match statement.operation with
    | .string str => [str]
    | .copy source => keys source
    | .eraseKey key => [key]
    | _ => []

/-- Jansson takes the texts of a statement, no JSON value is assigned to a fault value,
and no index is erased before the one of another wrapper of the array. -/
structure Orderly (root : Nat) (statement : Statement) (s : State) : Prop where
  accepted : ∀ text ∈ texts statement, Accepted text
  assigned : statement.operation.assignsJSON →
    ((s.operands root statement).1.get (s.operands root statement).2.1).type ≠ .fault
  erased : ∀ index, statement.operation = .eraseIndex index →
    ∀ y, ((s.operands root statement).1.get y).alive →
      ((s.operands root statement).1.get y).parent = some (s.operands root statement).2.1 →
      ((s.operands root statement).1.get y).index ≤ index

/-- All statements of a program are orderly when they are performed. -/
def OrderlyRun (root : Nat) : List Statement → State → Prop
  | [], _ => True
  | statement :: rest, s => Orderly root statement s ∧
      ∀ u, s.perform root statement = some u → OrderlyRun root rest u

section

variable {s u : State} {root w y : Nat} {t v : Tree} {path : List Slot}

/-- There is one wrapper at first. -/
theorem start_alive {source : Tree} {x : Nat} (hx : ((start source).get x).alive) : x = 0 := by
  by_contra hne
  have hkept : (start source).get x = State.init.get x :=
    (constructFrom_withTemporary init_inStep source).kept x hne
  rw [hkept] at hx
  exact not_alive_init x hx

theorem start_mirrors (source : Tree) : Mirrors (start source) 0 source := by
  have ht := constructFrom_withTemporary init_inStep source
  have hget : (start source).get 0 =
      rootJSON State.init (load source State.init.heap).1 (load source State.init.heap).2 :=
    constructFrom_get init_inStep source
  refine ⟨ht.inStep, ht.alive, ht.parent, ?_, ?_, ?_, ?_⟩
  · intro x hx
    rw [start_alive hx, hget]
    exact Option.some_ne_none _
  · intro x hx
    rw [start_alive hx, hget]
    exact iff_of_false (json_typeof_ne_fault _ _) fun h => h.2 rfl
  · intro x y hx hy _ _ _
    rw [start_alive hx, start_alive hy]
  · obtain ⟨n, hforall, hnodup, -⟩ := load_newTrees source State.init.heap
    have hheap : (start source).heap = (load source State.init.heap).1 :=
      constructFrom_heap init_inStep source
    rw [List.flatMap_singleton] at hnodup
    rcases hforall with _ | ⟨hread, -⟩
    refine ⟨_, n, by rw [hget]; rfl, ?_, ?_⟩
    · rw [hheap]
      exact hread
    · rw [hheap]
      exact hnodup

theorem reach_accesses (hm : Mirrors s root t) (selectors : List Selector) :
    Accesses s root (s.reach root selectors) (t.reach selectors) := by
  have hall : ∀ (selectors : List Selector) (u : State × Nat)
      (cursor : Tree × Option (List Slot)), Accesses s root u cursor →
      Accesses s root (selectors.foldl (fun cursor selector => access selector cursor) u)
        (selectors.foldl (fun cursor selector => Tree.access selector cursor) cursor) := by
    intro selectors
    induction selectors with
    | nil => exact fun _ _ hacc => hacc
    | cons selector rest ih =>
        intro u cursor hacc
        apply ih
        have hnext := access_accesses hacc.mirrors hacc.found selector
        refine ⟨hnext.mirrors, hnext.found, fun y hy => ?_⟩
        have hstays := hacc.stays y hy
        exact hstays.trans (hnext.stays y (hstays.alive.trans hy))
  exact hall selectors _ _ ⟨hm, .root, fun y _ => (Alike.of_eq rfl).stays⟩

theorem toString_at (hm : Mirrors s root t) (hw : Reached s root w path)
    (hlook : Tree.look path t = some v) : s.toString w = some v.text := by
  have htype := hm.type_at hw hlook
  obtain ⟨r, n, v', hr, hlook', hread, -, -⟩ := hm.value_at hw
  obtain rfl := Option.some.inj (hlook.symm.trans hlook')
  rw [State.toString, htype]
  cases v with
  | string str =>
      obtain ⟨a, rfl, hc⟩ := read_string hread
      simp only [Tree.type, hr, json_string_value, hc, Tree.text]
  | bool b => cases b <;> rfl
  | _ => rfl

/-- A wrapper shows the value at its path. -/
theorem denotes_of_reached (hm : Mirrors s root t) (hw : Reached s root w path) :
    ∃ v, Tree.look path t = some v ∧ Denotes s w v := by
  obtain ⟨r, n, v, hr, hlook, hread, hnodup, -⟩ := hm.value_at hw
  have hvalue : treeOf s.heap (s.get w).json = some v := by
    rw [hr]
    exact treeOf_of_read hread hnodup
  refine ⟨v, hlook, hvalue, hm.type_at hw hlook, hm.size_at hw hlook, hm.existKey_at hw hlook,
    hm.existIndex_at hw hlook, toString_at hm hw hlook, fun json_dumps => ?_⟩
  rw [State.stringify, hvalue, Option.bind_some]

theorem agrees_of_mirrors (hm : Mirrors s root t) (selectors : List Selector) :
    Agrees s root t selectors := by
  have hacc := reach_accesses hm selectors
  rw [Agrees]
  split
  · next t' path heq =>
      rw [heq] at hacc
      exact denotes_of_reached hacc.mirrors hacc.found
  · next t' heq =>
      rw [heq] at hacc
      exact hacc.found.2

/-- An operation changes the value at the path of its wrapper, and none through a fault
value. -/
theorem operate_mirrors {target source : Option (List Slot)} {operation : Operation}
    (hm : Mirrors s root t) (hw : Found s root w target) (hy : Found s root y source)
    (hassigned : operation.assignsJSON → (s.get w).type ≠ .fault)
    (herased : ∀ index, operation = .eraseIndex index → ∀ z, (s.get z).alive →
      (s.get z).parent = some w → (s.get z).index ≤ index) :
    ∃ u, s.operate w y operation = some u ∧ Mirrors u root (t.change operation source target) := by
  cases target with
  | none =>
      obtain ⟨halive, htype⟩ := hw
      cases operation with
      | read => exact ⟨s, rfl, hm⟩
      | string str => exact ⟨s, by simp [State.operate, assignString, htype], hm⟩
      | integer val => exact ⟨s, by simp [State.operate, assignInteger, htype], hm⟩
      | bool boolean => exact ⟨s, by simp [State.operate, assignBool, htype], hm⟩
      | temporary _ => exact absurd htype (hassigned rfl)
      | document _ => exact absurd htype (hassigned rfl)
      | copy _ => exact absurd htype (hassigned rfl)
      | eraseKey key => exact ⟨s, by simp [State.operate, eraseKey, existKey, htype], hm⟩
      | eraseIndex index => exact ⟨s, by simp [State.operate, eraseIndex, existIndex, htype], hm⟩
  | some path =>
      obtain ⟨-, -, v, -, hlook, -⟩ := hm.value_at hw
      have hoperand : t.operand (some path) = v := by
        rw [Tree.operand, Option.bind_some, hlook, Option.getD_some]
      simp only [Tree.change, hoperand]
      cases operation with
      | read =>
          refine ⟨s, rfl, ?_⟩
          rw [Tree.operate, Tree.put_self hlook]
          exact hm
      | string str => exact ⟨_, rfl, assignString_mirrors hm hw str⟩
      | integer val => exact ⟨_, rfl, assignInteger_mirrors hm hw val⟩
      | bool boolean => exact ⟨_, rfl, assignBool_mirrors hm hw boolean⟩
      | temporary source => exact assignTemporary_mirrors hm hw source
      | document source => exact assignDocument_mirrors hm hw source
      | copy _ => exact assignCopy_mirrors hm hw hy
      | eraseKey key => exact ⟨_, rfl, eraseKey_mirrors hm hw hlook key⟩
      | eraseIndex index =>
          exact ⟨_, rfl, eraseIndex_mirrors hm hw hlook (herased index rfl)⟩

theorem perform_mirrors {statement : Statement} (hm : Mirrors s root t)
    (horderly : Orderly root statement s) :
    ∃ u, s.perform root statement = some u ∧ Mirrors u root (t.perform statement) := by
  have hsource := reach_accesses hm statement.operation.source
  have htarget := reach_accesses hsource.mirrors statement.selectors
  have hy := hsource.found.kept htarget.stays
  exact operate_mirrors htarget.mirrors htarget.found hy horderly.assigned horderly.erased

/-- A program whose statements are orderly does the same as with the plain tree. -/
theorem run_mirrors {program : List Statement} (hm : Mirrors s root t)
    (horderly : OrderlyRun root program s) :
    ∃ u, s.run root program = some u ∧ Mirrors u root (t.run program) := by
  induction program generalizing s t with
  | nil => exact ⟨s, rfl, hm⟩
  | cons statement rest ih =>
      obtain ⟨hfirst, hrest⟩ := horderly
      obtain ⟨s₁, hs₁, hm₁⟩ := perform_mirrors hm hfirst
      obtain ⟨u, hu, hmu⟩ := ih hm₁ (hrest s₁ hs₁)
      exact ⟨u, by rw [State.run, hs₁, Option.bind_some, hu], hmu⟩

end

/-- After every orderly program, each wrapper shows the value at its path of the plain tree. -/
theorem wrappers_denote_tree (source : Tree) (program : List Statement)
    (horderly : OrderlyRun 0 program (start source)) :
    ∃ s, (start source).run 0 program = some s ∧
      ∀ selectors, (∀ text ∈ keys selectors, Accepted text) →
        Agrees s 0 (source.run program) selectors := by
  obtain ⟨s, hrun, hm⟩ := run_mirrors (start_mirrors source) horderly
  exact ⟨s, hrun, fun selectors _ => agrees_of_mirrors hm selectors⟩

/-- An array of three strings. -/
def letters : Tree := .array [.string (cstr "a"), .string (cstr "b"), .string (cstr "c")]

theorem wrappers_denote_tree_shortened :
    let program : List Statement := [⟨[.index 2], .string (cstr "d")⟩, ⟨[], .eraseIndex 2⟩]
    ∃ s, (start letters).run 0 program = some s ∧
      ∀ selectors, (∀ text ∈ keys selectors, Accepted text) →
        Agrees s 0 (letters.run program) selectors := by
  intro program
  apply wrappers_denote_tree letters program
  have hfirst : Orderly 0 ⟨[.index 2], .string (cstr "d")⟩ (start letters) := by
    refine ⟨fun text htext => ?_, nofun, nofun⟩
    obtain rfl : text = cstr "d" := List.mem_singleton.mp htext
    exact ⟨by decide, ['d'], by decide⟩
  refine ⟨hfirst, fun u hu => ⟨⟨nofun, nofun, ?_⟩, fun _ _ => trivial⟩⟩
  intro index hindex y hy _
  cases hindex
  have hlater : ((start letters).perform 0 ⟨[.index 2], .string (cstr "d")⟩).all fun u =>
      (u.operands 0 ⟨[], .eraseIndex 2⟩).1.wrappers.all fun J => J.index ≤ 2 := by
    decide
  rw [hu] at hlater
  have hlt := lt_next_of_alive hy
  rw [get_eq_getElem hlt]
  exact of_decide_eq_true (List.all_eq_true.mp hlater _ (List.getElem_mem hlt))

/-- The wrapper of the second element still shows it after the first one was erased. -/
theorem erased_index_drifts :
    ¬ ∀ (source : Tree) (program : List Statement), ∃ s, (start source).run 0 program = some s ∧
      ∀ selectors, Agrees s 0 (source.run program) selectors := by
  intro hclaim
  obtain ⟨s, hrun, hagrees⟩ := hclaim letters [⟨[.index 1], .read⟩, ⟨[], .eraseIndex 0⟩]
  have hshown : ((start letters).run 0 [⟨[.index 1], .read⟩, ⟨[], .eraseIndex 0⟩]).all fun s =>
      (s.reach 0 [.index 1]).1.toString (s.reach 0 [.index 1]).2 = some (cstr "b") := by
    decide
  rw [hrun] at hshown
  obtain ⟨v, hlook, hdenotes⟩ := hagrees [.index 1]
  obtain rfl : Tree.string (cstr "c") = v := Option.some.inj hlook
  have hsame := hdenotes.toString.symm.trans (of_decide_eq_true hshown)
  revert hsame
  decide

end KappaGateway.TreeRefinement

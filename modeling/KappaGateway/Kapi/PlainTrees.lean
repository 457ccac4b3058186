import KappaGateway.Kapi.Jansson

/-!
# Plain JSON trees

What the wrapper is for: a JSON value that is read and changed at paths. A path
is a list of places, each a key of an object with index 0, or an index of an
array with the empty key. Accessing an element creates it, as null, and makes an
object of null; an element of any other value does not exist.
-/

namespace KappaGateway.Jansson

open KeyedList Kutil

/-- A place in a container. -/
abbrev Slot := Text × Nat

namespace Tree

def type : Tree → JSONType
  | .null => .null
  | .bool b => if b then .true else .false
  | .integer _ => .integer
  | .real _ => .real
  | .string _ => .string
  | .array _ => .array
  | .object _ => .object

/-- The number of elements or members. -/
def size : Tree → Nat
  | .array elements => elements.length
  | .object members => members.length
  | _ => 0

/-- The text of a string, and no text for another value. -/
def text : Tree → Text
  | .string s => s
  | _ => []

def hasKey (key : Text) : Tree → Bool
  | .object members => (valueAt key members).isSome
  | _ => false

def hasIndex (index : Nat) : Tree → Bool
  | .array elements => (elements[index]?).isSome
  | _ => false

/-- An object without a key. -/
def eraseKey (key : Text) : Tree → Tree
  | .object members => .object (members.eraseP fun e => e.1 = key)
  | t => t

/-- An array without an element. -/
def eraseIndex (index : Nat) : Tree → Tree
  | .array elements => .array (elements.eraseIdx index)
  | t => t

end Tree

/-- What lies in a place. -/
def Tree.at : Tree → Slot → Option Tree
  | .object members, (key, 0) => valueAt key members
  | .array elements, ([], index) => elements[index]?
  | _, _ => none

namespace Tree

/-- Sets a place. -/
def set : Tree → Slot → Tree → Tree
  | .object members, (key, 0), v => .object (alter key (fun _ => v) members)
  | .array elements, ([], index), v => .array (elements.set index v)
  | t, _, _ => t

/-- Removes a place, and moves those after it in an array. -/
def remove : Tree → Slot → Tree
  | .object members, (key, _) => .object (members.eraseP fun e => e.1 = key)
  | .array elements, (_, index) => .array (elements.eraseIdx index)
  | t, _ => t

/-- Gives a container a place; what is missing is null. -/
def grow : Tree → Slot → Tree
  | .object members, (key, 0) =>
      .object (if (valueAt key members).isSome then members
        else alter key (fun _ => .null) members)
  | .array elements, ([], index) =>
      .array (elements ++ List.replicate (index + 1 - elements.length) .null)
  | t, _ => t

/-- The value at a path. -/
def look : List Slot → Tree → Option Tree
  | [], t => some t
  | p :: path, t => (t.at p).bind (look path)

/-- Replaces the value at a path. -/
def put (v : Tree) : List Slot → Tree → Tree
  | [], _ => v
  | p :: path, t =>
      match t.at p with
      | some u => t.set p (put v path u)
      | none => t

variable {t u v w : Tree} {p : Slot} {path : List Slot}

theorem at_set_self (hat : t.at p = some u) (v : Tree) : (t.set p v).at p = some v := by
  obtain ⟨key, index⟩ := p
  cases t with
  | object members =>
      cases index with
      | zero => exact valueAt_alter_self key _ members
      | succ index => cases hat
  | array elements =>
      cases key with
      | nil =>
          have hindex := (List.getElem?_eq_some_iff.mp hat).1
          simp [set, Tree.at, hindex]
      | cons k key => cases hat
  | _ => cases hat

theorem set_at_self (hat : t.at p = some u) : t.set p u = t := by
  obtain ⟨key, index⟩ := p
  cases t with
  | object members =>
      cases index with
      | zero => exact congrArg Tree.object ((alter_eq_self_iff key _ members).mpr ⟨u, hat, rfl⟩)
      | succ index => cases hat
  | array elements =>
      cases key with
      | nil =>
          obtain ⟨hindex, rfl⟩ := List.getElem?_eq_some_iff.mp hat
          exact congrArg Tree.array (List.set_getElem_self hindex)
      | cons k key => cases hat
  | _ => cases hat

theorem set_set (t : Tree) (p : Slot) (u v : Tree) : (t.set p u).set p v = t.set p v := by
  obtain ⟨key, index⟩ := p
  cases t with
  | object members =>
      cases index with
      | zero =>
          refine congrArg Tree.object ?_
          induction members with
          | nil => simp [alter]
          | cons e members ih =>
              by_cases hkey : e.1 = key
              · simp [alter, hkey]
              · simp [alter, hkey, ih]
      | succ index => rfl
  | array elements =>
      cases key with
      | nil => exact congrArg Tree.array (List.set_set u)
      | cons k key => rfl
  | _ => rfl

theorem grow_eq_self (hat : (t.at p).isSome) : t.grow p = t := by
  obtain ⟨key, index⟩ := p
  cases t with
  | object members =>
      cases index with
      | zero => exact congrArg Tree.object (if_pos hat)
      | succ index => rfl
  | array elements =>
      cases key with
      | cons k key => rfl
      | nil =>
          obtain ⟨v, hv⟩ := Option.isSome_iff_exists.mp hat
          have hindex := (List.getElem?_eq_some_iff.mp hv).1
          simp [grow, Nat.sub_eq_zero_of_le hindex]
  | _ => rfl

theorem eraseKey_of_not {key : Text} (h : t.hasKey key = false) : t.eraseKey key = t := by
  cases t with
  | object members =>
      refine congrArg Tree.object (List.eraseP_of_forall_not ?_)
      intro e he hkey
      have hnone : valueAt key members = none := by simpa [hasKey] using h
      have hmissing := (valueAt_eq_none_iff key members).mp hnone
      exact hmissing (List.mem_map.mpr ⟨e, he, by simpa using hkey⟩)
  | _ => rfl

theorem eraseIndex_of_not {index : Nat} (h : t.hasIndex index = false) :
    t.eraseIndex index = t := by
  cases t with
  | array elements =>
      have hlength : elements.length ≤ index := by simpa [hasIndex] using h
      exact congrArg Tree.array (List.eraseIdx_of_length_le hlength)
  | _ => rfl

theorem look_put_self (hlook : look path t = some v) (w : Tree) :
    look path (put w path t) = some w := by
  induction path generalizing t with
  | nil => rfl
  | cons p path ih =>
      obtain ⟨u, hat, hrest⟩ := Option.bind_eq_some_iff.mp hlook
      simp only [put, hat, look]
      rw [at_set_self hat, Option.bind_some, ih hrest]

theorem look_append (path rest : List Slot) (t : Tree) :
    look (path ++ rest) t = (look path t).bind (look rest) := by
  induction path generalizing t with
  | nil => rfl
  | cons p path ih =>
      simp only [List.cons_append, look]
      cases t.at p with
      | none => rfl
      | some u => exact ih u

/-- The value at one more place. -/
theorem look_place (hlook : look path t = some v) (hat : v.at p = some u) :
    look (path ++ [p]) t = some u := by
  rw [look_append, hlook, Option.bind_some, look, hat, Option.bind_some, look]

theorem put_append (hlook : look path t = some v) (w : Tree) (rest : List Slot) :
    put w (path ++ rest) t = put (put w rest v) path t := by
  induction path generalizing t with
  | nil =>
      obtain rfl := Option.some.inj hlook
      rfl
  | cons p path ih =>
      obtain ⟨u, hat, hrest⟩ := Option.bind_eq_some_iff.mp hlook
      simp only [List.cons_append, put, hat, ih hrest]

theorem put_put (hlook : look path t = some v) (u w : Tree) :
    put w path (put u path t) = put w path t := by
  induction path generalizing t with
  | nil => rfl
  | cons p path ih =>
      obtain ⟨x, hat, hrest⟩ := Option.bind_eq_some_iff.mp hlook
      simp only [put, hat]
      rw [at_set_self hat]
      simp only [set_set, ih hrest]

theorem put_self (hlook : look path t = some v) : put v path t = t := by
  induction path generalizing t with
  | nil =>
      obtain rfl := Option.some.inj hlook
      rfl
  | cons p path ih =>
      obtain ⟨u, hat, hrest⟩ := Option.bind_eq_some_iff.mp hlook
      simp only [put, hat, ih hrest]
      exact set_at_self hat

end Tree

/-! ### Elements and operations -/

/-- The operand of `operator[]`, or a new element. -/
inductive Selector where
  | key (key : Text)
  | index (index : Nat)
  | newElement

namespace Tree

/-- The element of a value: the value that has it, and its place. -/
def element : Selector → Tree → Option (Tree × Slot)
  | .key key, .object members => some ((Tree.object members).grow (key, 0), (key, 0))
  | .key key, .null => some ((Tree.object []).grow (key, 0), (key, 0))
  | .index index, .array elements => some ((Tree.array elements).grow ([], index), ([], index))
  | .newElement, .array elements =>
      some ((Tree.array elements).grow ([], elements.length), ([], elements.length))
  | _, _ => none

/-- Goes from a path to an element; none is the path of a value that does not exist. -/
def access (selector : Selector) : Tree × Option (List Slot) → Tree × Option (List Slot)
  | (t, some path) =>
      match (look path t).bind (element selector) with
      | some (grown, p) => (put grown path t, some (path ++ [p]))
      | none => (t, none)
  | (t, none) => (t, none)

/-- Goes along some selectors. -/
def reach (t : Tree) (selectors : List Selector) : Tree × Option (List Slot) :=
  selectors.foldl (fun cursor selector => access selector cursor) (t, some [])

end Tree

end KappaGateway.Jansson

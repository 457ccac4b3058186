import KappaGateway.Lib.RefCount
import KappaGateway.Lib.KeyedList
import KappaGateway.Kapi.Kutil

/-!
# Jansson's values

What the JSON wrapper uses of Jansson, as it is documented. Null, true and false
are not counted. A setter takes over the caller's reference to the new value,
also when it fails, and drops the reference to the value that it replaces.
-/

namespace KappaGateway.Jansson

open KeyedList RefCount Kutil

/-- A `json_t*` other than `NULL`. -/
inductive Ref where
  | null
  | bool (b : Bool)
  | cell (a : Nat)
deriving DecidableEq

/-- The reference, if it is counted. -/
def Ref.cells : Ref → List Nat
  | .cell a => [a]
  | _ => []

/-- A JSON value as a plain tree. A real is its bit pattern. -/
inductive Tree where
  | null
  | bool (b : Bool)
  | integer (n : Int)
  | real (bits : UInt64)
  | string (s : Text)
  | array (elements : List Tree)
  | object (members : List (Text × Tree))

/-- What a counted value holds. -/
inductive Content where
  | integer (n : Int)
  | real (bits : UInt64)
  | string (s : Text)
  | array (elements : List Ref)
  | object (members : List (Text × Ref))
deriving DecidableEq

instance : HasRefs Content where
  refs
    | .array elements => elements.flatMap Ref.cells
    | .object members => members.flatMap fun e => e.2.cells
    | _ => []

abbrev Memory := Heap Content

inductive JSONType where
  | object
  | array
  | string
  | integer
  | real
  | true
  | false
  | null
  | empty
  | fault
deriving DecidableEq

def Content.type : Content → JSONType
  | .integer _ => .integer
  | .real _ => .real
  | .string _ => .string
  | .array _ => .array
  | .object _ => .object

/-- `json_typeof`. -/
def json_typeof (h : Memory) : Ref → JSONType
  | .null => .null
  | .bool b => if b then .true else .false
  | .cell a => ((h.contentAt a).map Content.type).getD .empty

/-- The address and the elements of an array. -/
def arrayAt (h : Memory) : Option Ref → Option (Nat × List Ref)
  | some (.cell a) =>
      match h.contentAt a with
      | some (.array elements) => some (a, elements)
      | _ => none
  | _ => none

/-- The address and the members of an object. -/
def objectAt (h : Memory) : Option Ref → Option (Nat × List (Text × Ref))
  | some (.cell a) =>
      match h.contentAt a with
      | some (.object members) => some (a, members)
      | _ => none
  | _ => none

def json_object_get (h : Memory) (json : Option Ref) (key : Text) : Option Ref :=
  (objectAt h json).bind fun o => valueAt key o.2

def json_array_get (h : Memory) (json : Option Ref) (index : Nat) : Option Ref :=
  (arrayAt h json).bind fun o => o.2[index]?

def json_object_size (h : Memory) (json : Option Ref) : Nat :=
  ((objectAt h json).map fun o => o.2.length).getD 0

def json_array_size (h : Memory) (json : Option Ref) : Nat :=
  ((arrayAt h json).map fun o => o.2.length).getD 0

/-- The counted reference of a pointer that may be `NULL`. -/
def cellsOf (json : Option Ref) : List Nat := (json.map Ref.cells).getD []

def json_decref (json : Option Ref) (h : Memory) : Memory := h.release (cellsOf json)

def json_incref (json : Option Ref) (h : Memory) : Memory :=
  match json with
  | some (.cell a) => h.retain a
  | _ => h

def json_object_set_new (json : Option Ref) (key : Text) (value : Option Ref) (h : Memory) :
    Memory :=
  match value, objectAt h json with
  | none, _ => h
  | some v, none => json_decref (some v) h
  | some v, some (a, members) =>
      if json = some v then json_decref (some v) h
      else json_decref (valueAt key members)
        (h.write a (.object (alter key (fun _ => v) members)))

def json_array_set_new (json : Option Ref) (index : Nat) (value : Option Ref) (h : Memory) :
    Memory :=
  match value, arrayAt h json with
  | none, _ => h
  | some v, none => json_decref (some v) h
  | some v, some (a, elements) =>
      if json = some v then json_decref (some v) h
      else match elements[index]? with
        | some old => json_decref (some old) (h.write a (.array (elements.set index v)))
        | none => json_decref (some v) h

def json_array_append_new (json : Option Ref) (v : Ref) (h : Memory) : Memory :=
  match arrayAt h json with
  | some (a, elements) =>
      if json = some v then json_decref (some v) h else h.write a (.array (elements ++ [v]))
  | none => json_decref (some v) h

def json_object_del (json : Option Ref) (key : Text) (h : Memory) : Memory :=
  match objectAt h json with
  | some (a, members) =>
      json_decref (valueAt key members)
        (h.write a (.object (members.eraseP fun e => e.1 = key)))
  | none => h

def json_array_remove (json : Option Ref) (index : Nat) (h : Memory) : Memory :=
  match arrayAt h json with
  | some (a, elements) =>
      json_decref elements[index]? (h.write a (.array (elements.eraseIdx index)))
  | none => h

def json_string_set (json : Option Ref) (s : Text) (h : Memory) : Memory :=
  match json with
  | some (.cell a) =>
      match h.contentAt a with
      | some (.string _) => h.write a (.string s)
      | _ => h
  | _ => h

def json_integer_set (json : Option Ref) (n : Int) (h : Memory) : Memory :=
  match json with
  | some (.cell a) =>
      match h.contentAt a with
      | some (.integer _) => h.write a (.integer n)
      | _ => h
  | _ => h

/-! ### New values -/

mutual

/-- Allocates a value, as parsing a text does. -/
def load : Tree → Memory → Memory × Ref
  | .null, h => (h, .null)
  | .bool b, h => (h, .bool b)
  | .integer n, h => (h.alloc (.integer n), .cell h.fresh)
  | .real bits, h => (h.alloc (.real bits), .cell h.fresh)
  | .string s, h => (h.alloc (.string s), .cell h.fresh)
  | .array elements, h =>
      let (h', refs) := loadElements elements h
      (h'.alloc (.array refs), .cell h'.fresh)
  | .object members, h =>
      let (h', refs) := loadMembers members h
      (h'.alloc (.object refs), .cell h'.fresh)

def loadElements : List Tree → Memory → Memory × List Ref
  | [], h => (h, [])
  | t :: rest, h =>
      let (h', r) := load t h
      let (h'', refs) := loadElements rest h'
      (h'', r :: refs)

def loadMembers : List (Text × Tree) → Memory → Memory × List (Text × Ref)
  | [], h => (h, [])
  | (key, t) :: rest, h =>
      let (h', r) := load t h
      let (h'', refs) := loadMembers rest h'
      (h'', (key, r) :: refs)

end

def copyAll (copy : Ref → Memory → Option (Memory × Ref)) :
    List Ref → Memory → Option (Memory × List Ref)
  | [], h => some (h, [])
  | r :: rest, h => do
      let (h', r') ← copy r h
      let (h'', rest') ← copyAll copy rest h'
      some (h'', r' :: rest')

/-- A copy, if no cell is deeper than the first number says. -/
def deepCopy : Nat → Ref → Memory → Option (Memory × Ref)
  | 0, .cell _, _ => none
  | n + 1, .cell a, h =>
      match h.contentAt a with
      | some (.array elements) => do
          let (h', refs) ← copyAll (deepCopy n) elements h
          some (h'.alloc (.array refs), .cell h'.fresh)
      | some (.object members) => do
          let (h', refs) ← copyAll (deepCopy n) (members.map Prod.snd) h
          some (h'.alloc (.object ((members.map Prod.fst).zip refs)), .cell h'.fresh)
      | some c => some (h.alloc c, .cell h.fresh)
      | none => none
  | _, r, h => some (h, r)

/-- `json_deep_copy`. It does not come back from a value that contains itself. -/
def json_deep_copy (r : Ref) (h : Memory) : Option (Memory × Ref) := deepCopy h.fresh r h

/-! ### Places in containers -/

/-- A place is a key of an object, with index 0, or an index of an array, with the
empty key. -/
def Content.at : Content → Text → Nat → Option Ref
  | .object members, key, 0 => valueAt key members
  | .array elements, [], index => elements[index]?
  | _, _, _ => none

/-- A setter of the container can set the place. -/
def Content.Takes : Content → Text → Nat → Prop
  | .object _, _, index => index = 0
  | .array elements, key, index => key = [] ∧ index < elements.length
  | _, _, _ => False

/-- Sets a place. -/
def Content.set : Content → Text → Nat → Ref → Content
  | .object members, key, 0, v => .object (alter key (fun _ => v) members)
  | .array elements, [], index, v => .array (elements.set index v)
  | c, _, _, _ => c

/-- Removes a place, and moves those after it in an array. -/
def Content.remove : Content → Text → Nat → Content
  | .object members, key, _ => .object (members.eraseP fun e => e.1 = key)
  | .array elements, _, index => .array (elements.eraseIdx index)
  | c, _, _ => c

/-- What lies in a place of a container. -/
def slotIn (h : Memory) (json : Option Ref) (key : Text) (index : Nat) : Option Ref :=
  match json with
  | some (.cell a) => (h.contentAt a).bind fun c => c.at key index
  | _ => none

section

variable {h h' : Memory} {json : Option Ref} {key : Text} {index a : Nat}

theorem arrayAt_eq_some {elements : List Ref} :
    arrayAt h json = some (a, elements) ↔
      json = some (.cell a) ∧ h.contentAt a = some (.array elements) := by
  constructor
  · intro harray
    unfold arrayAt at harray
    split at harray
    · split at harray
      · next helements =>
          obtain ⟨rfl, rfl⟩ := Prod.mk.inj (Option.some.inj harray)
          exact ⟨rfl, helements⟩
      · cases harray
    · cases harray
  · rintro ⟨rfl, helements⟩
    simp [arrayAt, helements]

theorem objectAt_eq_some {members : List (Text × Ref)} :
    objectAt h json = some (a, members) ↔
      json = some (.cell a) ∧ h.contentAt a = some (.object members) := by
  constructor
  · intro hobject
    unfold objectAt at hobject
    split at hobject
    · split at hobject
      · next hmembers =>
          obtain ⟨rfl, rfl⟩ := Prod.mk.inj (Option.some.inj hobject)
          exact ⟨rfl, hmembers⟩
      · cases hobject
    · cases hobject
  · rintro ⟨rfl, hmembers⟩
    simp [objectAt, hmembers]

/-- A place is in a container. -/
theorem exists_of_slotIn {r : Ref} (hslot : slotIn h json key index = some r) :
    ∃ a c, json = some (.cell a) ∧ h.contentAt a = some c ∧ c.at key index = some r := by
  unfold slotIn at hslot
  split at hslot
  · next a =>
      obtain ⟨c, hc, hat⟩ := Option.bind_eq_some_iff.mp hslot
      exact ⟨a, c, rfl, hc, hat⟩
  · cases hslot

theorem takes_of_at {c : Content} {r : Ref} (hat : c.at key index = some r) :
    c.Takes key index := by
  unfold Content.at at hat
  split at hat
  · rfl
  · exact ⟨rfl, (List.getElem?_eq_some_iff.mp hat).1⟩
  · cases hat

theorem at_set_self {c : Content} (htakes : c.Takes key index) (v : Ref) :
    (c.set key index v).at key index = some v := by
  cases c with
  | object members =>
      obtain rfl : index = 0 := htakes
      exact valueAt_alter_self key _ members
  | array elements =>
      obtain ⟨rfl, hindex⟩ := htakes
      simp [Content.set, Content.at, hindex]
  | _ => exact absurd htakes id

theorem at_set_of_ne {c : Content} {key' : Text} {index' : Nat}
    (hne : ¬ (key' = key ∧ index' = index)) (v : Ref) :
    (c.set key index v).at key' index' = c.at key' index' := by
  cases c with
  | object members =>
      cases index with
      | succ index => rfl
      | zero =>
          cases index' with
          | succ index' => rfl
          | zero =>
              have hkey : key' ≠ key := fun heq => hne ⟨heq, rfl⟩
              exact valueAt_alter_of_ne hkey _ members
  | array elements =>
      cases key with
      | cons k key => rfl
      | nil =>
          cases key' with
          | cons k key' => rfl
          | nil =>
              have hindex : index ≠ index' := fun heq => hne ⟨rfl, heq.symm⟩
              exact List.getElem?_set_ne hindex
  | _ => rfl

theorem type_set (c : Content) (key : Text) (index : Nat) (v : Ref) :
    (c.set key index v).type = c.type := by
  unfold Content.set
  split <;> rfl

@[simp] theorem type_remove (c : Content) (key : Text) (index : Nat) :
    (c.remove key index).type = c.type := by
  cases c <;> rfl

/-- The places that are neither removed nor moved. -/
theorem at_remove {c : Content} (htakes : c.Takes key index) {key' : Text} {index' : Nat}
    (hapart : ¬ (key' = key ∧ index ≤ index')) :
    (c.remove key index).at key' index' = c.at key' index' := by
  cases c with
  | object members =>
      cases index' with
      | succ index' => rfl
      | zero =>
          obtain rfl : index = 0 := htakes
          have hkey : key' ≠ key := fun heq => hapart ⟨heq, Nat.le_refl 0⟩
          exact valueAt_eraseP_of_ne hkey members
  | array elements =>
      obtain ⟨rfl, -⟩ := htakes
      cases key' with
      | cons k key' => rfl
      | nil =>
          have hindex : index' < index := by
            by_contra hle
            exact hapart ⟨rfl, Nat.le_of_not_lt hle⟩
          exact List.getElem?_eraseIdx_of_lt hindex
  | _ => rfl

theorem mem_refs_remove {c : Content} {b : Nat} (hb : b ∈ refs (c.remove key index)) :
    b ∈ refs c := by
  cases c with
  | object members =>
      obtain ⟨e, he, hbe⟩ := List.mem_flatMap.mp hb
      exact List.mem_flatMap.mpr ⟨e, List.mem_of_mem_eraseP he, hbe⟩
  | array elements =>
      obtain ⟨r, hr, hbr⟩ := List.mem_flatMap.mp hb
      exact List.mem_flatMap.mpr ⟨r, List.mem_of_mem_eraseIdx hr, hbr⟩
  | _ => exact hb

theorem mem_refs_set {c : Content} {v : Ref} {b : Nat} (hb : b ∈ refs (c.set key index v)) :
    b ∈ refs c ∨ v = .cell b := by
  have hcells : ∀ r : Ref, b ∈ r.cells → r = .cell b := by
    intro r hr
    cases r with
    | cell a => rw [List.mem_singleton.mp hr]
    | _ => cases hr
  cases c with
  | object members =>
      cases index with
      | succ index => exact Or.inl hb
      | zero =>
          obtain ⟨e, he, hbe⟩ := List.mem_flatMap.mp hb
          rcases mem_alter he with he | he
          · exact Or.inl (List.mem_flatMap.mpr ⟨e, he, hbe⟩)
          · rw [he] at hbe
            exact Or.inr (hcells v hbe)
  | array elements =>
      cases key with
      | cons k key => exact Or.inl hb
      | nil =>
          obtain ⟨r, hr, hbr⟩ := List.mem_flatMap.mp hb
          rcases List.mem_or_eq_of_mem_set hr with hr | rfl
          · exact Or.inl (List.mem_flatMap.mpr ⟨r, hr, hbr⟩)
          · exact Or.inr (hcells r hbr)
  | _ => exact Or.inl hb

/-- The references of a container before and behind the one in a place. -/
structure Around (c : Content) (key : Text) (index : Nat) (old : Ref) (before after : List Nat) :
    Prop where
  whole : refs c = before ++ (old.cells ++ after)
  replaced : ∀ v, refs (c.set key index v) = before ++ (v.cells ++ after)
  removed : refs (c.remove key index) = before ++ after

theorem around_member {members : List (Text × Ref)} {old : Ref}
    (hat : valueAt key members = some old) :
    ∃ before after, Around (.object members) key 0 old before after := by
  induction members with
  | nil => cases hat
  | cons e members ih =>
      rw [valueAt] at hat
      split at hat
      · next hkey =>
          obtain rfl := Option.some.inj hat
          refine ⟨[], refs (Content.object members), rfl, fun v => ?_, ?_⟩
          · simp [Content.set, refs, alter, hkey]
          · simp [Content.remove, refs, hkey]
      · next hkey =>
          obtain ⟨before, after, hrefs, hset, hremove⟩ := ih hat
          simp only [Content.set, Content.remove, refs] at hrefs hset hremove
          refine ⟨e.2.cells ++ before, after, ?_, fun v => ?_, ?_⟩
          · simp [refs, hrefs]
          · simp [Content.set, refs, alter, hkey, hset]
          · simp [Content.remove, refs, hkey, hremove]

theorem around_element {elements : List Ref} {old : Ref} (hat : elements[index]? = some old) :
    ∃ before after, Around (.array elements) [] index old before after := by
  induction elements generalizing index with
  | nil => cases hat
  | cons r elements ih =>
      cases index with
      | zero =>
          obtain rfl := Option.some.inj hat
          exact ⟨[], refs (Content.array elements), rfl, fun v => rfl, rfl⟩
      | succ index =>
          have hnext : elements[index]? = some old := by simpa using hat
          obtain ⟨before, after, hrefs, hset, hremove⟩ := ih hnext
          simp only [Content.set, Content.remove, refs] at hrefs hset hremove
          refine ⟨r.cells ++ before, after, ?_, fun v => ?_, ?_⟩
          · simp [refs, hrefs]
          · simp [Content.set, refs, hset]
          · simp [Content.remove, refs, hremove]

/-- A reference in a place has those before and behind it. -/
theorem exists_around {c : Content} {old : Ref} (hat : c.at key index = some old) :
    ∃ before after, Around c key index old before after := by
  cases c with
  | object members =>
      cases index with
      | succ index => cases hat
      | zero => exact around_member hat
  | array elements =>
      cases key with
      | cons k key => cases hat
      | nil => exact around_element hat
  | _ => cases hat

/-- Setting a place replaces the reference in it. -/
theorem count_refs_set {c : Content} {old : Ref} (hat : c.at key index = some old) (v : Ref)
    (b : Nat) :
    (refs (c.set key index v)).count b + old.cells.count b =
      (refs c).count b + v.cells.count b := by
  obtain ⟨before, after, h⟩ := exists_around hat
  rw [h.replaced, h.whole, List.count_append, List.count_append, List.count_append, List.count_append]
  omega

/-- Removing a place removes the reference in it. -/
theorem count_refs_remove {c : Content} {old : Ref} (hat : c.at key index = some old) (b : Nat) :
    (refs (c.remove key index)).count b + old.cells.count b = (refs c).count b := by
  obtain ⟨before, after, h⟩ := exists_around hat
  rw [h.removed, h.whole, List.count_append, List.count_append, List.count_append]
  omega

theorem slotIn_write {c : Content} (hc : h.contentAt a = some c) (c' : Content) :
    slotIn (h.write a c') json key index =
      if json = some (.cell a) then c'.at key index else slotIn h json key index := by
  cases json with
  | none => rfl
  | some r =>
      cases r with
      | cell b =>
          simp only [slotIn, Heap.contentAt_write, Option.some.injEq, Ref.cell.injEq, eq_comm]
          split
          · simp [hc]
          · rfl
      | _ => rfl

@[simp] theorem slotIn_release (pending : List Nat) :
    slotIn (h.release pending) json key index = slotIn h json key index := by
  simp only [slotIn, Heap.contentAt_release]

theorem json_object_set_new_eq {members : List (Text × Ref)} {v : Ref}
    (hmembers : h.contentAt a = some (.object members)) (hne : v ≠ .cell a) :
    json_object_set_new (some (.cell a)) key (some v) h =
      json_decref (valueAt key members)
        (h.write a (.object (alter key (fun _ => v) members))) := by
  simp [json_object_set_new, objectAt, hmembers, Ne.symm hne]

theorem json_array_set_new_eq {elements : List Ref} {v : Ref}
    (helements : h.contentAt a = some (.array elements)) (hindex : index < elements.length)
    (hne : v ≠ .cell a) :
    json_array_set_new (some (.cell a)) index (some v) h =
      json_decref elements[index]? (h.write a (.array (elements.set index v))) := by
  simp [json_array_set_new, arrayAt, helements, hindex, Ne.symm hne]

theorem json_object_del_eq {members : List (Text × Ref)}
    (hmembers : h.contentAt a = some (.object members)) :
    json_object_del (some (.cell a)) key h =
      json_decref (valueAt key members)
        (h.write a (.object (members.eraseP fun e => e.1 = key))) := by
  simp [json_object_del, objectAt, hmembers]

theorem json_array_remove_eq {elements : List Ref}
    (helements : h.contentAt a = some (.array elements)) :
    json_array_remove (some (.cell a)) index h =
      json_decref elements[index]? (h.write a (.array (elements.eraseIdx index))) := by
  simp [json_array_remove, arrayAt, helements]

theorem mem_refs_of_at {c : Content} {b : Nat} (hat : c.at key index = some (.cell b)) :
    b ∈ refs c := by
  unfold Content.at at hat
  split at hat
  · exact List.mem_flatMap.mpr ⟨_, mem_of_valueAt hat, List.mem_singleton_self b⟩
  · exact List.mem_flatMap.mpr ⟨_, List.mem_of_getElem? hat, List.mem_singleton_self b⟩
  · cases hat

end

end KappaGateway.Jansson

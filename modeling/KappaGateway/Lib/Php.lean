import KappaGateway.Lib.Json
import Mathlib.Data.List.Basic

/-!
# PHP arrays and JSON

PHP has one kind of container, an ordered map. `json_decode` makes it of arrays
and of objects, and `json_encode` writes it as an array if its keys are the
first numbers in their order, and as an object if not. Both give up on what is
nested too deep, and the second on strings that are not UTF-8. A key is a text,
since PHP does not distinguish a number from its decimal text as a key. Numbers
are integers that PHP can hold: there are no reals here.
-/

namespace KappaGateway

open KeyedList

/-- A PHP value, as `json_decode` makes it. -/
inductive Php (K : Type) where
  | null
  | bool (b : Bool)
  | integer (n : Int)
  | string (s : K)
  | array (entries : List (K × Php K))

namespace Php

/-- The keys that are numbers. -/
structure Decimal (K : Type) where
  text : Nat → K
  number : K → Option Nat
  number_text : ∀ n, number (text n) = some n

variable {K : Type} (D : Decimal K)

theorem Decimal.text_injective : Function.Injective D.text := by
  intro m n h
  have hnumber := congrArg D.number h
  rw [D.number_text, D.number_text] at hnumber
  exact Option.some.inj hnumber

mutual

/-- The value with associative arrays. -/
def fromJson : Json K → Php K
  | .null => .null
  | .bool b => .bool b
  | .integer n => .integer n
  | .string s => .string s
  | .array elements => .array (decodeElements 0 elements)
  | .object members => .array (decodeMembers members)

def decodeElements (i : Nat) : List (Json K) → List (K × Php K)
  | [] => []
  | j :: rest => (D.text i, fromJson j) :: decodeElements (i + 1) rest

def decodeMembers : List (K × Json K) → List (K × Php K)
  | [] => []
  | (k, j) :: rest => (k, fromJson j) :: decodeMembers rest

end

/-- The default of the parameter `$depth`. -/
def MAX_DEPTH : Nat := 512

/-- `json_decode` with associative arrays: null for what is nested too deep. -/
def json_decode (j : Json K) : Php K := if j.depth ≤ MAX_DEPTH then fromJson D j else .null

/-- The keys are the first numbers in their order. -/
def IsList (entries : List (K × Php K)) : Prop :=
  entries.map Prod.fst = (List.range entries.length).map D.text

instance [DecidableEq K] (entries : List (K × Php K)) : Decidable (IsList D entries) :=
  inferInstanceAs (Decidable (_ = _))

variable [DecidableEq K]

mutual

/-- What an array is written as. -/
def toJson : Php K → Json K
  | .null => .null
  | .bool b => .bool b
  | .integer n => .integer n
  | .string s => .string s
  | .array entries =>
      if IsList D entries then .array (encodeValues entries)
      else .object (encodeMembers entries)

def encodeValues : List (K × Php K) → List (Json K)
  | [] => []
  | (_, v) :: rest => toJson v :: encodeValues rest

def encodeMembers : List (K × Php K) → List (K × Json K)
  | [] => []
  | (k, v) :: rest => (k, toJson v) :: encodeMembers rest

end

/-- `json_encode`: nothing for what is nested too deep, or has a string or a key
that is not UTF-8. -/
def json_encode (utf8 : K → Bool) (v : Php K) : Option (Json K) :=
  if (toJson D v).depth ≤ MAX_DEPTH ∧ (toJson D v).allTexts utf8 then some (toJson D v) else none

/-! ### Arrays -/

/-- `$array[$key]`; null if there is nothing. -/
def get (k : K) : Php K → Php K
  | .array entries => (valueAt k entries).getD .null
  | _ => .null

/-- The key that `array_push` uses: one more than the greatest number so far. -/
def nextKey (entries : List (K × Php K)) : Nat :=
  (entries.filterMap fun e => D.number e.1).foldl (fun next n => max next (n + 1)) 0

/-- `array_push`. -/
def array_push (v : Php K) (entries : List (K × Php K)) : List (K × Php K) :=
  entries ++ [(D.text (nextKey D entries), v)]

/-! ### What comes back from PHP -/

/-- A value that was read and is written. -/
def roundTrip (j : Json K) : Json K := toJson D (fromJson D j)

omit [DecidableEq K] in
theorem decodeElements_keys (i : Nat) (elements : List (Json K)) :
    (decodeElements D i elements).map Prod.fst = (List.range' i elements.length).map D.text := by
  induction elements generalizing i with
  | nil => rfl
  | cons j rest ih => simp [decodeElements, ih, List.range'_succ]

omit [DecidableEq K] in
@[simp] theorem decodeElements_length (i : Nat) (elements : List (Json K)) :
    (decodeElements D i elements).length = elements.length := by
  have hkeys := congrArg List.length (decodeElements_keys D i elements)
  simpa using hkeys

omit [DecidableEq K] in
theorem isList_decodeElements (elements : List (Json K)) :
    IsList D (decodeElements D 0 elements) := by
  rw [IsList, decodeElements_keys, decodeElements_length, List.range_eq_range']

omit [DecidableEq K] in
theorem decodeElements_append (i : Nat) (before after : List (Json K)) :
    decodeElements D i (before ++ after) =
      decodeElements D i before ++ decodeElements D (i + before.length) after := by
  induction before generalizing i with
  | nil => rfl
  | cons j rest ih => simp [decodeElements, ih, Nat.add_assoc, Nat.add_comm 1]

theorem valueAt_decodeElements (i k : Nat) (elements : List (Json K)) :
    valueAt (D.text (i + k)) (decodeElements D i elements) = elements[k]?.map (fromJson D) := by
  induction elements generalizing i k with
  | nil => rfl
  | cons j rest ih =>
      rw [decodeElements, valueAt]
      cases k with
      | zero => simp
      | succ k =>
          have hne : D.text i ≠ D.text (i + (k + 1)) := fun h => by
            have := D.text_injective h
            omega
          rw [if_neg hne, show i + (k + 1) = i + 1 + k by omega, ih]
          simp

/-- Assigning to an element of a decoded array. -/
theorem alter_decodeElements (i : Nat) (before after : List (Json K)) (v w : Json K) :
    alter (D.text (i + before.length)) (fun _ => fromJson D w)
        (decodeElements D i (before ++ v :: after)) =
      decodeElements D i (before ++ w :: after) := by
  induction before generalizing i with
  | nil => simp [decodeElements, alter]
  | cons j rest ih =>
      have hne : D.text i ≠ D.text (i + (rest.length + 1)) := fun h => by
        have := D.text_injective h
        omega
      rw [List.length_cons, List.cons_append, decodeElements, alter, if_neg hne,
        show i + (rest.length + 1) = i + 1 + rest.length by omega, ih]
      rfl

omit [DecidableEq K] in
theorem mem_decodeElements_keys {k : K} {i : Nat} {elements : List (Json K)} :
    k ∈ (decodeElements D i elements).map Prod.fst ↔
      ∃ n, i ≤ n ∧ n < i + elements.length ∧ D.text n = k := by
  rw [decodeElements_keys, List.mem_map]
  simp only [List.mem_range'_1, and_assoc]

/-- `unset` of an element of a decoded array. -/
theorem erase_decodeElements (before after : List (Json K)) (v : Json K) :
    erase (D.text before.length) (decodeElements D 0 (before ++ v :: after)) =
      decodeElements D 0 before ++ decodeElements D (before.length + 1) after := by
  have hother : ∀ {i : Nat} {elements : List (Json K)},
      (before.length < i ∨ i + elements.length ≤ before.length) →
        erase (D.text before.length) (decodeElements D i elements) =
          decodeElements D i elements := by
    intro i elements h
    apply List.filter_eq_self.mpr
    intro e he
    obtain ⟨n, hi, hn, htext⟩ := (mem_decodeElements_keys D).mp (List.mem_map_of_mem he)
    have hne : D.text n ≠ D.text before.length := fun heq => by
      have := D.text_injective heq
      omega
    simpa [htext] using hne
  rw [decodeElements_append, Nat.zero_add, erase, List.filter_append, decodeElements,
    List.filter_cons_of_neg (by simp)]
  exact congrArg₂ (· ++ ·) (hother (by simp)) (hother (by simp))

omit [DecidableEq K] in
theorem foldl_nextKey (i n : Nat) :
    (List.range' i n).foldl (fun next m => max next (m + 1)) i = i + n := by
  induction n generalizing i with
  | zero => rfl
  | succ n ih =>
      rw [List.range'_succ, List.foldl_cons, Nat.max_eq_right (Nat.le_succ i), ih]
      omega

omit [DecidableEq K] in
/-- The next key of a decoded array is its length. -/
theorem nextKey_decodeElements (elements : List (Json K)) :
    nextKey D (decodeElements D 0 elements) = elements.length := by
  have hnumbers : (decodeElements D 0 elements).filterMap (fun e => D.number e.1) =
      List.range' 0 elements.length := by
    calc (decodeElements D 0 elements).filterMap (fun e => D.number e.1)
        = ((decodeElements D 0 elements).map Prod.fst).filterMap D.number := by
          rw [List.filterMap_map]
          rfl
      _ = List.range' 0 elements.length := by
          simp [decodeElements_keys, D.number_text]
  rw [nextKey, hnumbers, foldl_nextKey, Nat.zero_add]

omit [DecidableEq K] in
theorem decodeMembers_eq (members : List (K × Json K)) :
    decodeMembers D members = members.map fun e => (e.1, fromJson D e.2) := by
  induction members with
  | nil => rfl
  | cons e rest ih => simp [decodeMembers, ih]

theorem valueAt_decodeMembers (k : K) (members : List (K × Json K)) :
    valueAt k (decodeMembers D members) = (valueAt k members).map (fromJson D) := by
  rw [decodeMembers_eq, valueAt_map]

theorem encodeValues_eq (entries : List (K × Php K)) :
    encodeValues D entries = entries.map fun e => toJson D e.2 := by
  induction entries with
  | nil => rfl
  | cons e rest ih => simp [encodeValues, ih]

theorem encodeMembers_eq (entries : List (K × Php K)) :
    encodeMembers D entries = entries.map fun e => (e.1, toJson D e.2) := by
  induction entries with
  | nil => rfl
  | cons e rest ih => simp [encodeMembers, ih]

theorem encodeValues_decodeElements (i : Nat) (elements : List (Json K)) :
    encodeValues D (decodeElements D i elements) = elements.map (roundTrip D) := by
  induction elements generalizing i with
  | nil => rfl
  | cons j rest ih => simp [decodeElements, encodeValues, ih, roundTrip]

@[simp] theorem roundTrip_array (elements : List (Json K)) :
    roundTrip D (.array elements) = .array (elements.map (roundTrip D)) := by
  rw [roundTrip, fromJson, toJson, if_pos (isList_decodeElements D elements),
    encodeValues_decodeElements]

/-- An object becomes an array exactly if its keys are the first numbers. -/
theorem roundTrip_object (members : List (K × Json K)) :
    roundTrip D (.object members) =
      if members.map Prod.fst = (List.range members.length).map D.text then
        .array (members.map fun e => roundTrip D e.2)
      else .object (members.map fun e => (e.1, roundTrip D e.2)) := by
  have hlist : IsList D (members.map fun e => (e.1, fromJson D e.2)) ↔
      members.map Prod.fst = (List.range members.length).map D.text := by
    simp [IsList, Function.comp_def]
  rw [roundTrip, fromJson, toJson, decodeMembers_eq]
  simp [hlist, encodeValues_eq, encodeMembers_eq, Function.comp_def, roundTrip]

/-- In no object of the value the keys are the first numbers in their order. The
empty object is such an object. -/
inductive Faithful : Json K → Prop
  | null : Faithful .null
  | bool (b : Bool) : Faithful (.bool b)
  | integer (n : Int) : Faithful (.integer n)
  | string (s : K) : Faithful (.string s)
  | array {elements : List (Json K)} (h : ∀ j ∈ elements, Faithful j) :
      Faithful (.array elements)
  | object {members : List (K × Json K)}
      (hkeys : members.map Prod.fst ≠ (List.range members.length).map D.text)
      (h : ∀ e ∈ members, Faithful e.2) : Faithful (.object members)

/-- The values that PHP gives back as they were. -/
theorem Faithful.roundTrip_eq {j : Json K} (h : Faithful D j) : roundTrip D j = j := by
  induction h with
  | null => rfl
  | bool b => rfl
  | integer n => rfl
  | string s => rfl
  | array h ih =>
      rw [roundTrip_array]
      exact congrArg Json.array ((List.map_congr_left ih).trans (List.map_id _))
  | object hkeys h ih =>
      rw [roundTrip_object, if_neg hkeys]
      apply congrArg Json.object
      refine (List.map_congr_left fun e he => ?_).trans (List.map_id _)
      exact congrArg (Prod.mk e.1) (ih e he)

/-- Only such values come from PHP. -/
theorem faithful_roundTrip (j : Json K) : Faithful D (roundTrip D j) := by
  induction j using Json.induction with
  | null => exact .null
  | bool b => exact .bool b
  | integer n => exact .integer n
  | string s => exact .string s
  | array elements ih =>
      rw [roundTrip_array]
      apply Faithful.array
      rwa [List.forall_mem_map]
  | object members ih =>
      rw [roundTrip_object]
      split
      · apply Faithful.array
        rwa [List.forall_mem_map]
      · next hkeys =>
          apply Faithful.object
          · simpa [Function.comp_def] using hkeys
          · rwa [List.forall_mem_map]

/-- PHP gives back no strings and keys that were not there. -/
theorem allTexts_roundTrip {p : K → Bool} {j : Json K} (h : j.allTexts p) :
    (roundTrip D j).allTexts p := by
  induction j using Json.induction with
  | array elements ih =>
      rw [Json.allTexts_array] at h
      rw [roundTrip_array, Json.allTexts_array, List.forall_mem_map]
      exact fun j hj => ih j hj (h j hj)
  | object members ih =>
      rw [Json.allTexts_object] at h
      rw [roundTrip_object]
      split
      · rw [Json.allTexts_array, List.forall_mem_map]
        exact fun e he => ih e he (h e he).2
      · rw [Json.allTexts_object, List.forall_mem_map]
        exact fun e he => ⟨(h e he).1, ih e he (h e he).2⟩
  | _ => exact h

theorem depth_roundTrip_le {j : Json K} {n : Nat} (h : j.depth ≤ n) :
    (roundTrip D j).depth ≤ n := by
  induction j using Json.induction generalizing n with
  | array elements ih =>
      cases n with
      | zero => simp [Json.depth] at h
      | succ n =>
          rw [Json.depth_array_le] at h
          rw [roundTrip_array, Json.depth_array_le, List.forall_mem_map]
          exact fun j hj => ih j hj (h j hj)
  | object members ih =>
      cases n with
      | zero => simp [Json.depth] at h
      | succ n =>
          rw [Json.depth_object_le] at h
          rw [roundTrip_object]
          split
          · rw [Json.depth_array_le, List.forall_mem_map]
            exact fun e he => ih e he (h e he)
          · rw [Json.depth_object_le, List.forall_mem_map]
            exact fun e he => ih e he (h e he)
  | _ => exact h

end Php

end KappaGateway

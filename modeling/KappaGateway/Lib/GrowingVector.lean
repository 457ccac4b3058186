import Mathlib.Data.List.Nodup

/-!
# A vector that moves when it grows

References into a vector name the storage they were taken from. Appending to a
full vector moves the elements to new storage, and every reference taken before
is dangling from then on.
-/

namespace KappaGateway.GrowingVector

/-- The elements, the capacity, and how often the storage was replaced. -/
structure Vec (α : Type*) where
  items : List α
  capacity : Nat
  storage : Nat

/-- A reference to an element. -/
structure Ref where
  storage : Nat
  index : Nat
  deriving DecidableEq

variable {α : Type*}

namespace Vec

def empty : Vec α := ⟨[], 0, 0⟩

/-- The element that a reference designates; `none` where it is dangling. -/
def get (v : Vec α) (r : Ref) : Option α :=
  if r.storage = v.storage then v.items[r.index]? else none

/-- A change through a reference. -/
def modify (v : Vec α) (r : Ref) (f : α → α) : Vec α :=
  if r.storage = v.storage then { v with items := v.items.modify r.index f } else v

/-- Appending leaves the storage where it is. -/
def Roomy (v : Vec α) : Prop := v.items.length < v.capacity

instance (v : Vec α) : Decidable v.Roomy := inferInstanceAs (Decidable (_ < _))

/-- `emplace_back`; `grown` is the capacity of the new storage, if it takes one. -/
def emplaceBack (v : Vec α) (x : α) (grown : Nat) : Vec α :=
  if v.Roomy then { v with items := v.items ++ [x] }
  else ⟨v.items ++ [x], grown, v.storage + 1⟩

/-- The reference to the last element. -/
def back (v : Vec α) : Ref := ⟨v.storage, v.items.length - 1⟩

theorem get_modify_self {v : Vec α} {r : Ref} {x : α} (h : v.get r = some x) (f : α → α) :
    (v.modify r f).get r = some (f x) := by
  unfold get at h
  split at h
  · rename_i hstorage
    simp [modify, get, hstorage, h]
  · simp at h

theorem get_modify_of_ne {v : Vec α} {r r' : Ref} (h : r ≠ r') (f : α → α) :
    (v.modify r f).get r' = v.get r' := by
  unfold modify
  split
  · rename_i hstorage
    by_cases hsame : r'.storage = v.storage
    · have hindex : r.index ≠ r'.index := by
        intro heq
        apply h
        cases r
        cases r'
        simp_all
      simp [get, hsame, hindex]
    · simp [get, hsame]
  · rfl

theorem get_emplaceBack {v : Vec α} {r : Ref} {x y : α} {grown : Nat} (h : v.get r = some y)
    (hroom : v.Roomy) : (v.emplaceBack x grown).get r = some y := by
  unfold get at h
  split at h
  · rename_i hstorage
    have hlt := (List.getElem?_eq_some_iff.mp h).1
    simp [emplaceBack, hroom, get, hstorage, List.getElem?_append_left hlt, h]
  · simp at h

theorem get_back_emplaceBack (v : Vec α) (x : α) (grown : Nat) :
    (v.emplaceBack x grown).get (v.emplaceBack x grown).back = some x := by
  unfold emplaceBack
  split <;> simp [get, back]

@[simp] theorem items_emplaceBack (v : Vec α) (x : α) (grown : Nat) :
    (v.emplaceBack x grown).items = v.items ++ [x] := by
  unfold emplaceBack
  split <;> rfl

/-- A change that keeps a field of every element keeps the list of the fields. -/
theorem map_modify {κ : Type*} {g : α → κ} {f : α → α} (hf : ∀ x, g (f x) = g x) (v : Vec α)
    (r : Ref) : (v.modify r f).items.map g = v.items.map g := by
  unfold modify
  split
  · apply List.ext_getElem?
    intro i
    simp only [List.getElem?_map, List.getElem?_modify]
    cases v.items[i]? with
    | none => rfl
    | some x =>
        by_cases hi : r.index = i <;> simp [hi, hf]
  · rfl

/-- With distinct fields, references to elements with the same field are equal. -/
theorem ref_unique {κ : Type*} {g : α → κ} {v : Vec α} (hv : (v.items.map g).Nodup) {r r' : Ref}
    {x y : α} (hx : v.get r = some x) (hy : v.get r' = some y) (h : g x = g y) : r = r' := by
  unfold get at hx hy
  split at hx <;> split at hy
  · rename_i hr hr'
    obtain ⟨hlt, rfl⟩ := List.getElem?_eq_some_iff.mp hx
    obtain ⟨hlt', rfl⟩ := List.getElem?_eq_some_iff.mp hy
    have hi : r.index < (v.items.map g).length := by simpa using hlt
    have hj : r'.index < (v.items.map g).length := by simpa using hlt'
    have hfields : (v.items.map g)[r.index] = (v.items.map g)[r'.index] := by simpa using h
    have hindex : r.index = r'.index := hv.getElem_inj_iff.mp hfields
    cases r
    cases r'
    simp_all
  all_goals simp at hx hy

end Vec

end KappaGateway.GrowingVector

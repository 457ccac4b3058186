import Mathlib.Algebra.BigOperators.Group.List.Basic

/-!
# Reference-counted cells

Cells that hold references to each other, each with a count. A cell whose count
drops to zero is released, and the references in it are dropped. The counts are
balanced if each is the number of references in the cells that are not released,
plus those held outside. What is held outside is a list, so that each operation
says which references it takes from there and which it leaves there.
-/

namespace KappaGateway.RefCount

/-- The references in the content of a cell. -/
class HasRefs (C : Type*) where
  refs : C → List Nat

export HasRefs (refs)

structure Cell (C : Type*) where
  content : C
  count : Nat

/-- The cells at the addresses `0, 1, …`, and the addresses that were dropped once
more after their release. -/
structure Heap (C : Type*) where
  cells : List (Cell C)
  twice : List Nat

variable {C : Type*}

namespace Heap

/-- The count of an address; zero if nothing was allocated there. -/
def count (h : Heap C) (a : Nat) : Nat := (h.cells[a]?.map Cell.count).getD 0

def contentAt (h : Heap C) (a : Nat) : Option C := h.cells[a]?.map Cell.content

/-- The address of the next cell. -/
def fresh (h : Heap C) : Nat := h.cells.length

/-- A new cell, with one reference to it. -/
def alloc (c : C) (h : Heap C) : Heap C := { h with cells := h.cells ++ [⟨c, 1⟩] }

def setCount (a n : Nat) (h : Heap C) : Heap C :=
  { h with cells := h.cells.modify a fun cell => { cell with count := n } }

def write (a : Nat) (c : C) (h : Heap C) : Heap C :=
  { h with cells := h.cells.modify a fun cell => { cell with content := c } }

/-- One more reference. -/
def retain (a : Nat) (h : Heap C) : Heap C := h.setCount a (h.count a + 1)

end Heap

variable [HasRefs C]

/-- The references in a cell, none after its release. -/
def Cell.held (cell : Cell C) : List Nat := if cell.count = 0 then [] else refs cell.content

namespace Heap

def held (h : Heap C) : List Nat := h.cells.flatMap Cell.held

/-- Drops references one by one, and those in each released cell before the rest. -/
def releaseAll : Nat → List Nat → Heap C → Heap C
  | 0, _, h => h
  | _ + 1, [], h => h
  | n + 1, a :: pending, h =>
      match h.count a with
      | 0 => releaseAll n pending { h with twice := a :: h.twice }
      | 1 => releaseAll n (((h.contentAt a).map refs).getD [] ++ pending) (h.setCount a 0)
      | k + 2 => releaseAll n pending (h.setCount a (k + 1))

/-- Drops references. There are at most as many to drop as there are now. -/
def release (pending : List Nat) (h : Heap C) : Heap C :=
  releaseAll (pending.length + h.held.length) pending h

/-- Every count is the number of references to the cell. -/
def Balanced (h : Heap C) (out : List Nat) : Prop :=
  ∀ a, h.count a = h.held.count a + out.count a

/-! ### Changing one cell -/

theorem sum_map_modify {T M : Type*} [AddCommMonoid M] (g : T → M) (f : T → T) {l : List T}
    {i : Nat} {x : T} (h : l[i]? = some x) :
    ((l.modify i f).map g).sum + g x = (l.map g).sum + g (f x) := by
  induction l generalizing i with
  | nil => simp at h
  | cons y l ih =>
      cases i with
      | zero =>
          obtain rfl : y = x := Option.some.inj h
          simp only [List.modify_zero_cons, List.map_cons, List.sum_cons]
          rw [add_comm, ← add_assoc, add_right_comm]
      | succ i =>
          have hrest := ih (i := i) (by simpa using h)
          simp only [List.modify_succ_cons, List.map_cons, List.sum_cons]
          rw [add_assoc, hrest, add_assoc]

theorem count_flatMap_modify {T : Type*} (g : T → List Nat) (f : T → T) {l : List T} {i : Nat}
    {x : T} (h : l[i]? = some x) (a : Nat) :
    ((l.modify i f).flatMap g).count a + (g x).count a =
      (l.flatMap g).count a + (g (f x)).count a := by
  simp only [List.count_flatMap]
  exact sum_map_modify (List.count a ∘ g) f h

theorem length_flatMap_modify {T : Type*} (g : T → List Nat) (f : T → T) {l : List T} {i : Nat}
    {x : T} (h : l[i]? = some x) :
    ((l.modify i f).flatMap g).length + (g x).length =
      (l.flatMap g).length + (g (f x)).length := by
  simp only [List.length_flatMap]
  exact sum_map_modify (List.length ∘ g) f h

/-- What a change keeps at one place, it keeps at all. -/
theorem map_getElem?_modify {S T : Type*} {g : T → S} {f : T → T} (hkeep : ∀ x, g (f x) = g x)
    (l : List T) (i j : Nat) : (l.modify i f)[j]?.map g = l[j]?.map g := by
  rw [List.getElem?_modify]
  cases l[j]? with
  | none => rfl
  | some x =>
      by_cases hij : i = j
      · simp [hij, hkeep]
      · simp [hij]

section

variable {h : Heap C} {a b : Nat} {cell : Cell C}

omit [HasRefs C] in
theorem cell_of_count_pos (hpos : 0 < h.count a) :
    ∃ cell, h.cells[a]? = some cell ∧ cell.count = h.count a := by
  rw [count] at hpos ⊢
  cases hcell : h.cells[a]? with
  | none => simp [hcell] at hpos
  | some cell => exact ⟨cell, rfl, by simp⟩

omit [HasRefs C] in
theorem count_setCount (hpos : 0 < h.count a) (n : Nat) :
    (h.setCount a n).count b = if a = b then n else h.count b := by
  obtain ⟨cell, hcell, -⟩ := cell_of_count_pos hpos
  simp only [count, setCount, List.getElem?_modify]
  split
  · next heq =>
      subst heq
      simp [hcell]
  · simp

omit [HasRefs C] in
@[simp] theorem contentAt_setCount (n : Nat) : (h.setCount a n).contentAt b = h.contentAt b :=
  map_getElem?_modify (by intro _; rfl) _ _ _

omit [HasRefs C] in
@[simp] theorem fresh_setCount (n : Nat) : (h.setCount a n).fresh = h.fresh :=
  List.length_modify _ _ _

omit [HasRefs C] in
@[simp] theorem count_write (c : C) : (h.write a c).count b = h.count b :=
  congrArg (Option.getD · 0) (map_getElem?_modify (by intro _; rfl) _ _ _)

omit [HasRefs C] in
theorem contentAt_write (c : C) :
    (h.write a c).contentAt b = if a = b then (h.contentAt a).map fun _ => c else h.contentAt b := by
  simp only [contentAt, write, List.getElem?_modify]
  split
  · next heq =>
      subst heq
      cases h.cells[a]? <;> rfl
  · simp

omit [HasRefs C] in
@[simp] theorem fresh_write (c : C) : (h.write a c).fresh = h.fresh := List.length_modify _ _ _

omit [HasRefs C] in
theorem count_alloc (c : C) :
    (h.alloc c).count b = if h.fresh = b then 1 else h.count b := by
  simp only [count, alloc, fresh, List.getElem?_append, List.getElem?_singleton]
  rcases Nat.lt_trichotomy b h.cells.length with hlt | heq | hgt
  · simp [hlt, Nat.ne_of_gt hlt]
  · simp [heq]
  · simp [Nat.lt_asymm hgt, Nat.ne_of_lt hgt, Nat.sub_ne_zero_of_lt hgt]

omit [HasRefs C] in
theorem contentAt_alloc (c : C) :
    (h.alloc c).contentAt b = if h.fresh = b then some c else h.contentAt b := by
  simp only [contentAt, alloc, fresh, List.getElem?_append, List.getElem?_singleton]
  rcases Nat.lt_trichotomy b h.cells.length with hlt | heq | hgt
  · simp [hlt, Nat.ne_of_gt hlt]
  · simp [heq]
  · simp [Nat.lt_asymm hgt, Nat.ne_of_lt hgt, Nat.sub_ne_zero_of_lt hgt]

omit [HasRefs C] in
@[simp] theorem fresh_alloc (c : C) : (h.alloc c).fresh = h.fresh + 1 := by
  simp [fresh, alloc]

omit [HasRefs C] in
theorem lt_fresh_of_contentAt {c : C} (hc : h.contentAt a = some c) : a < h.fresh := by
  rw [contentAt, Option.map_eq_some_iff] at hc
  obtain ⟨cell, hcell, -⟩ := hc
  exact (List.getElem?_eq_some_iff.mp hcell).1

omit [HasRefs C] in
theorem count_fresh : h.count h.fresh = 0 := by
  simp [count, fresh]

omit [HasRefs C] in
theorem contentAt_fresh : h.contentAt h.fresh = none := by
  simp [contentAt, fresh]

omit [HasRefs C] in
theorem exists_contentAt (hpos : 0 < h.count a) : ∃ c, h.contentAt a = some c := by
  obtain ⟨cell, hcell, -⟩ := cell_of_count_pos hpos
  exact ⟨cell.content, by rw [contentAt, hcell, Option.map_some]⟩

end

/-! ### Balance -/

section

variable {h : Heap C} {out : List Nat} {a : Nat}

theorem Balanced.congr {out' : List Nat} (hb : h.Balanced out)
    (hout : ∀ a, out'.count a = out.count a) : h.Balanced out' := by
  intro a
  rw [hb a, hout a]

theorem Balanced.pos_of_mem (hb : h.Balanced out) (ha : a ∈ out) : 0 < h.count a := by
  have hpos := List.count_pos_iff.mpr ha
  rw [hb a]
  omega

/-- What a cell that is not released refers to is not released. -/
theorem Balanced.pos_of_refs (hb : h.Balanced out) {b : Nat} (hpos : 0 < h.count b) {c : C}
    (hc : h.contentAt b = some c) (ha : a ∈ refs c) : 0 < h.count a := by
  obtain ⟨cell, hcell, hcount⟩ := cell_of_count_pos hpos
  have hcontent : cell.content = c := by
    rw [contentAt, hcell] at hc
    exact Option.some.inj hc
  have hmem : a ∈ h.held := by
    apply List.mem_flatMap.mpr
    refine ⟨cell, List.mem_of_getElem? hcell, ?_⟩
    rw [Cell.held, if_neg (by omega), hcontent]
    exact ha
  have hheld := List.count_pos_iff.mpr hmem
  rw [hb a]
  omega

theorem held_alloc (c : C) : (h.alloc c).held = h.held ++ refs c := by
  simp [held, alloc, Cell.held]

/-- A new cell takes its references from outside. -/
theorem Balanced.alloc {c : C} (hb : h.Balanced (refs c ++ out)) :
    (h.alloc c).Balanced (h.fresh :: out) := by
  intro b
  have hbefore := hb b
  rw [List.count_append] at hbefore
  rw [count_alloc, held_alloc, List.count_append, List.count_cons]
  by_cases heq : h.fresh = b
  · subst heq
    rw [count_fresh] at hbefore
    simp
    omega
  · simp [heq]
    omega

/-- Other references in a cell that is not released. -/
theorem count_held_write {c old : C} (hpos : 0 < h.count a) (hold : h.contentAt a = some old)
    (b : Nat) :
    (h.write a c).held.count b + (refs old).count b = h.held.count b + (refs c).count b := by
  obtain ⟨cell, hcell, hcount⟩ := cell_of_count_pos hpos
  have hcontent : cell.content = old := by
    rw [contentAt, hcell] at hold
    exact Option.some.inj hold
  have hheld := count_flatMap_modify Cell.held (fun cell => { cell with content := c }) hcell b
  rw [Cell.held, Cell.held, if_neg (by omega), if_neg (by simp; omega), hcontent] at hheld
  exact hheld

/-- A cell with the same references as before. -/
theorem Balanced.write_same {c old : C} (hold : h.contentAt a = some old)
    (hrefs : refs c = refs old) (hb : h.Balanced out) : (h.write a c).Balanced out := by
  obtain ⟨cell, hcell, rfl⟩ := Option.map_eq_some_iff.mp hold
  have hheld : (h.write a c).held = h.held := by
    have hcells : ∀ (l : List (Cell C)) (i : Nat), l[i]? = some cell →
        (l.modify i fun cell => { cell with content := c }).flatMap Cell.held =
          l.flatMap Cell.held := by
      intro l
      induction l with
      | nil => simp
      | cons first l ih =>
          intro i hi
          cases i with
          | zero =>
              obtain rfl : first = cell := by simpa using hi
              simp [Cell.held, hrefs]
          | succ i => simpa using ih i (by simpa using hi)
    exact hcells h.cells a hcell
  intro b
  rw [count_write, hheld]
  exact hb b

/-- Another count, for a cell that is not released before or after. -/
theorem count_held_setCount {n : Nat} (hpos : 0 < h.count a) (hn : 0 < n) (b : Nat) :
    (h.setCount a n).held.count b = h.held.count b := by
  obtain ⟨cell, hcell, hcount⟩ := cell_of_count_pos hpos
  have hheld := count_flatMap_modify Cell.held (fun cell => { cell with count := n }) hcell b
  rw [Cell.held, Cell.held, if_neg (by omega), if_neg (by simp; omega)] at hheld
  simp only [held, setCount] at hheld ⊢
  omega

theorem Balanced.retain (hpos : 0 < h.count a) (hb : h.Balanced out) :
    (h.retain a).Balanced (a :: out) := by
  intro b
  rw [Heap.retain, count_setCount hpos, count_held_setCount hpos (Nat.succ_pos _),
    List.count_cons, hb b]
  by_cases heq : a = b
  · subst heq
    simp [hb a]
    omega
  · simp [heq]

/-! ### Dropping references -/

/-- Dropping a reference that is one of several. -/
theorem Balanced.drop {k : Nat} (hb : h.Balanced (a :: out)) (hcount : h.count a = k + 2) :
    (h.setCount a (k + 1)).Balanced out := by
  intro b
  have hpos : 0 < h.count a := by omega
  have hbefore := hb b
  rw [List.count_cons] at hbefore
  rw [count_setCount hpos, count_held_setCount hpos (Nat.succ_pos k)]
  by_cases heq : a = b
  · subst heq
    simp at hbefore ⊢
    omega
  · simpa [heq] using hbefore

/-- The last reference: the references in the released cell are dropped next. -/
theorem Balanced.drop_last {c : C} (hb : h.Balanced (a :: out)) (hcount : h.count a = 1)
    (hc : h.contentAt a = some c) : (h.setCount a 0).Balanced (refs c ++ out) := by
  intro b
  have hpos : 0 < h.count a := by omega
  obtain ⟨cell, hcell, hcellcount⟩ := cell_of_count_pos hpos
  have hcontent : cell.content = c := by
    rw [contentAt, hcell] at hc
    exact Option.some.inj hc
  have hheld := count_flatMap_modify Cell.held (fun cell => { cell with count := 0 }) hcell b
  rw [Cell.held, Cell.held, if_neg (by omega), if_pos rfl, hcontent] at hheld
  have hbefore := hb b
  rw [List.count_cons] at hbefore
  rw [count_setCount hpos, List.count_append]
  simp only [Heap.held, Heap.setCount, List.count_nil] at hheld hbefore ⊢
  by_cases heq : a = b
  · subst heq
    simp at hbefore ⊢
    omega
  · simp [heq] at hbefore ⊢
    omega

/-- A released cell holds nothing any more. -/
theorem length_held_release {c : C} (hcount : h.count a = 1) (hc : h.contentAt a = some c) :
    (h.setCount a 0).held.length + (refs c).length = h.held.length := by
  obtain ⟨cell, hcell, hcellcount⟩ := cell_of_count_pos (h := h) (a := a) (by omega)
  have hcontent : cell.content = c := by
    rw [contentAt, hcell] at hc
    exact Option.some.inj hc
  have hlength := length_flatMap_modify Cell.held (fun cell => { cell with count := 0 }) hcell
  rw [Cell.held, Cell.held, if_neg (by omega), if_pos rfl, hcontent] at hlength
  simpa [held, setCount] using hlength

theorem length_held_setCount {n : Nat} (hpos : 0 < h.count a) (hn : 0 < n) :
    (h.setCount a n).held.length = h.held.length := by
  obtain ⟨cell, hcell, hcount⟩ := cell_of_count_pos hpos
  have hlength := length_flatMap_modify Cell.held (fun cell => { cell with count := n }) hcell
  rw [Cell.held, Cell.held, if_neg (by omega), if_neg (by simp; omega)] at hlength
  simp only [held, setCount] at hlength ⊢
  omega

/-- In balance, all references to drop are dropped, none is dropped twice, and the
balance remains without them. -/
theorem Balanced.releaseAll (n : Nat) {pending : List Nat}
    (hn : pending.length + h.held.length ≤ n) (hb : h.Balanced (pending ++ out)) :
    (releaseAll n pending h).Balanced out ∧ (releaseAll n pending h).twice = h.twice := by
  induction n generalizing h pending with
  | zero =>
      obtain rfl : pending = [] := List.eq_nil_of_length_eq_zero (by omega)
      exact ⟨hb, rfl⟩
  | succ n ih =>
      cases pending with
      | nil => exact ⟨hb, rfl⟩
      | cons a pending =>
          have hpos : 0 < h.count a := hb.pos_of_mem (by simp)
          rw [List.length_cons] at hn
          rw [Heap.releaseAll]
          split
          · next hzero => omega
          · next hone =>
              obtain ⟨c, hc⟩ := exists_contentAt hpos
              have hlength := length_held_release hone hc
              rw [hc, Option.map_some, Option.getD_some]
              apply ih
              · rw [List.length_append]
                omega
              · rw [List.append_assoc]
                exact Balanced.drop_last hb hone hc
          · next k hcount =>
              apply ih
              · rw [length_held_setCount hpos (Nat.succ_pos k)]
                omega
              · exact Balanced.drop hb hcount

theorem Balanced.release {pending : List Nat} (hb : h.Balanced (pending ++ out)) :
    (h.release pending).Balanced out :=
  (hb.releaseAll _ (Nat.le_refl _)).1

theorem Balanced.twice_release {pending : List Nat} (hb : h.Balanced (pending ++ out)) :
    (h.release pending).twice = h.twice :=
  (hb.releaseAll _ (Nat.le_refl _)).2

theorem contentAt_releaseAll (n : Nat) (pending : List Nat) (h : Heap C) (a : Nat) :
    (Heap.releaseAll n pending h).contentAt a = h.contentAt a := by
  induction n generalizing h pending with
  | zero => rfl
  | succ n ih =>
      cases pending with
      | nil => rfl
      | cons b pending =>
          rw [Heap.releaseAll]
          split
          · rw [ih]
            rfl
          · rw [ih, contentAt_setCount]
          · rw [ih, contentAt_setCount]

/-- The contents stay, also those of released cells. -/
@[simp] theorem contentAt_release (pending : List Nat) (h : Heap C) (a : Nat) :
    (h.release pending).contentAt a = h.contentAt a :=
  contentAt_releaseAll _ pending h a

@[simp] theorem release_nil (h : Heap C) : h.release [] = h := by
  rw [Heap.release]
  cases ([] : List Nat).length + h.held.length <;> rfl

end

end Heap

end KappaGateway.RefCount

import Mathlib.Data.List.Basic
import Mathlib.Data.Nat.ModEq

/-!
# Circular storage of a byte queue

A queue of `n` values lives in the cells `(head + i) % cap` of a flat memory.
The lemmas say which list a run of cells holds, how it splits, and how a block
store at the first free cell extends it.
-/

namespace KappaGateway.CircularBuffer

variable {α : Type*}

/-- The physical cell of the `i`-th value behind `head`. -/
def cell (cap head i : Nat) : Nat := (head + i) % cap

/-- The `n` values of the memory that start at `head`, in queue order. -/
def window (cap : Nat) (mem : Nat → α) (head n : Nat) : List α :=
  (List.range n).map fun i => mem (cell cap head i)

/-- A contiguous block of memory. -/
def block (mem : Nat → α) (pos n : Nat) : List α :=
  (List.range n).map fun i => mem (pos + i)

/-- Write a list into consecutive cells. -/
def store (mem : Nat → α) (pos : Nat) (data : List α) : Nat → α := fun i =>
  if h : pos ≤ i ∧ i - pos < data.length then data[i - pos] else mem i

theorem cell_lt {cap : Nat} (hcap : 0 < cap) (head i : Nat) : cell cap head i < cap :=
  Nat.mod_lt _ hcap

theorem cell_zero {cap head : Nat} (h : head < cap) : cell cap head 0 = head := by
  simpa [cell] using Nat.mod_eq_of_lt h

theorem cell_cell (cap head i j : Nat) :
    cell cap (cell cap head i) j = cell cap head (i + j) := by
  simp [cell, Nat.add_assoc]

/-- Within one revolution, different offsets lie in different cells. -/
theorem cell_inj {cap head i j : Nat} (hi : i < cap) (hj : j < cap)
    (h : cell cap head i = cell cap head j) : i = j := by
  have hmod : i % cap = j % cap := (Nat.ModEq.add_left_cancel' head h : i ≡ j [MOD cap])
  rwa [Nat.mod_eq_of_lt hi, Nat.mod_eq_of_lt hj] at hmod

@[simp] theorem window_length (cap : Nat) (mem : Nat → α) (head n : Nat) :
    (window cap mem head n).length = n := by
  simp [window]

@[simp] theorem window_getElem (cap : Nat) (mem : Nat → α) (head n i : Nat)
    (h : i < (window cap mem head n).length) :
    (window cap mem head n)[i] = mem (cell cap head i) := by
  simp [window]

@[simp] theorem window_zero (cap : Nat) (mem : Nat → α) (head : Nat) :
    window cap mem head 0 = [] := rfl

theorem window_add (cap : Nat) (mem : Nat → α) (head n k : Nat) :
    window cap mem head (n + k) =
      window cap mem head n ++ window cap mem (cell cap head n) k := by
  simp [window, List.range_add, cell_cell, Function.comp_def]

/-- Dropping from the front of the queue moves the head. -/
theorem window_drop (cap : Nat) (mem : Nat → α) (head : Nat) {n k : Nat} (h : k ≤ n) :
    (window cap mem head n).drop k = window cap mem (cell cap head k) (n - k) := by
  obtain ⟨m, rfl⟩ := Nat.exists_eq_add_of_le h
  rw [window_add, List.drop_left' (window_length ..), Nat.add_sub_cancel_left]

theorem window_take (cap : Nat) (mem : Nat → α) (head : Nat) {n k : Nat} (h : k ≤ n) :
    (window cap mem head n).take k = window cap mem head k := by
  obtain ⟨m, rfl⟩ := Nat.exists_eq_add_of_le h
  rw [window_add, List.take_left' (window_length ..)]

/-- A run of cells that does not wrap is a contiguous block. -/
theorem window_eq_block {cap head n : Nat} (mem : Nat → α) (h : head + n ≤ cap) :
    window cap mem head n = block mem head n := by
  apply List.map_congr_left
  intro i hi
  have hlt : head + i < cap := by have := List.mem_range.mp hi; omega
  rw [cell, Nat.mod_eq_of_lt hlt]

/-- A run of cells that wraps is the block up to the end of the memory and
then the block at its start. -/
theorem window_eq_block_append {cap head n : Nat} (mem : Nat → α) (hh : head ≤ cap)
    (hn : cap - head ≤ n) (hw : n - (cap - head) ≤ cap) :
    window cap mem head n =
      block mem head (cap - head) ++ block mem 0 (n - (cap - head)) := by
  obtain ⟨k, rfl⟩ := Nat.exists_eq_add_of_le hn
  have hcell : cell cap head (cap - head) = 0 := by
    rw [cell, Nat.add_sub_cancel' hh, Nat.mod_self]
  rw [Nat.add_sub_cancel_left] at hw ⊢
  calc window cap mem head (cap - head + k)
      = window cap mem head (cap - head) ++ window cap mem 0 k := by rw [window_add, hcell]
    _ = block mem head (cap - head) ++ block mem 0 k := by
        rw [window_eq_block mem (by omega), window_eq_block mem (by omega)]

theorem store_outside (mem : Nat → α) {pos i : Nat} (data : List α)
    (h : i < pos ∨ pos + data.length ≤ i) : store mem pos data i = mem i := by
  have hne : ¬(pos ≤ i ∧ i - pos < data.length) := by omega
  simp [store, hne]

theorem store_inside (mem : Nat → α) (pos : Nat) (data : List α) {i : Nat}
    (h : i < data.length) : store mem pos data (pos + i) = data[i] := by
  simp [store, h]

/-- A block stored at the first free cell, up to the end of the memory, extends
the queue by exactly that block as long as the free cells suffice. -/
theorem window_store {cap head n : Nat} (mem : Nat → α) (data : List α)
    (hfree : n + data.length ≤ cap) (hend : cell cap head n + data.length ≤ cap) :
    window cap (store mem (cell cap head n) data) head (n + data.length) =
      window cap mem head n ++ data := by
  have hpos (j : Nat) (hj : j < data.length) :
      cell cap head (n + j) = cell cap head n + j := by
    rw [← cell_cell]
    exact Nat.mod_eq_of_lt (by omega)
  rw [window_add]
  congr 1
  · apply List.map_congr_left
    intro i hi
    have hin := List.mem_range.mp hi
    apply store_outside
    by_contra hcon
    obtain ⟨j, hj⟩ := Nat.exists_eq_add_of_le
      (show cell cap head n ≤ cell cap head i by omega)
    have heq : cell cap head i = cell cap head (n + j) := by rw [hpos j (by omega), hj]
    have := cell_inj (by omega) (by omega) heq
    omega
  · apply List.ext_getElem (by simp)
    intro j hj hj'
    calc (window cap (store mem (cell cap head n) data) (cell cap head n) data.length)[j]
        = store mem (cell cap head n) data (cell cap head n + j) := by
          rw [window_getElem, cell_cell, hpos j hj']
      _ = data[j] := store_inside ..

end KappaGateway.CircularBuffer

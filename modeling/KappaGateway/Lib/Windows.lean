import Mathlib.Data.List.Basic
import Mathlib.Logic.Function.Basic

/-!
# Windows of a memory

A memory is a function of the address. A window is read as a list, and a list is
written over a window; what lies outside it stays. A cursor writes one list behind
the other.
-/

namespace KappaGateway.Windows

variable {α : Type*}

/-- What lies in a window. -/
def window (m : Nat → α) (start size : Nat) : List α := (List.range size).map fun i => m (start + i)

/-- The memory after a list is written from an address on. -/
def patch (start : Nat) (bytes : List α) (m : Nat → α) : Nat → α :=
  fun i => if start ≤ i then (bytes[i - start]?).getD (m i) else m i

section

variable {m m' : Nat → α} {start size i : Nat} {bytes : List α}

@[simp] theorem window_length (m : Nat → α) (start size : Nat) :
    (window m start size).length = size := by
  simp [window]

@[simp] theorem window_zero (m : Nat → α) (start : Nat) : window m start 0 = [] := rfl

theorem window_getElem? (h : i < size) : (window m start size)[i]? = some (m (start + i)) := by
  simp [window, h]

theorem window_congr (h : ∀ i < size, m (start + i) = m' (start + i)) :
    window m start size = window m' start size := by
  apply List.map_congr_left
  intro i hi
  exact h i (List.mem_range.mp hi)

theorem window_eq_iff :
    window m start size = window m' start size ↔ ∀ i < size, m (start + i) = m' (start + i) := by
  constructor
  · intro heq i hi
    have hget := congrArg (·[i]?) heq
    simpa [window_getElem? hi] using hget
  · exact window_congr

theorem window_append (m : Nat → α) (start size size' : Nat) :
    window m start (size + size') =
      window m start size ++ window m (start + size) size' := by
  simp [window, List.range_add, Nat.add_assoc]

theorem window_shift (m : Nat → α) (start size : Nat) :
    window (fun i => m (start + i)) 0 size = window m start size := by
  simp [window]

theorem window_succ (m : Nat → α) (start size : Nat) :
    window m start (size + 1) = window m start size ++ [m (start + size)] :=
  window_append m start size 1

theorem window_take (m : Nat → α) (start : Nat) {size size' : Nat} (h : size ≤ size') :
    (window m start size').take size = window m start size := by
  obtain ⟨rest, rfl⟩ := Nat.exists_eq_add_of_le h
  rw [window_append]
  exact List.take_left' (window_length m start size)

theorem patch_of_lt (h : i < start) : patch start bytes m i = m i := by
  rw [patch, if_neg (Nat.not_le.mpr h)]

theorem patch_of_le (h : start + bytes.length ≤ i) : patch start bytes m i = m i := by
  have hnone : bytes[i - start]? = none := List.getElem?_eq_none (by omega)
  rw [patch, hnone, Option.getD_none, ite_self]

theorem patch_of_getElem? {b : α} (h : bytes[i]? = some b) :
    patch start bytes m (start + i) = b := by
  simp [patch, h]

theorem patch_nil (start : Nat) (m : Nat → α) : patch start [] m = m := by
  ext i
  simp [patch]

/-- Writing a list is writing its elements one after the other. -/
theorem patch_cons (start : Nat) (b : α) (bytes : List α) (m : Nat → α) :
    patch start (b :: bytes) m = patch (start + 1) bytes (Function.update m start b) := by
  ext i
  obtain hlt | rfl | hgt := Nat.lt_trichotomy i start
  · rw [patch_of_lt hlt, patch_of_lt (Nat.lt_succ_of_lt hlt), Function.update_of_ne (by omega)]
  · rw [patch_of_lt (Nat.lt_succ_self i), Function.update_self]
    simp [patch]
  · obtain ⟨k, rfl⟩ := Nat.exists_eq_add_of_lt hgt
    have hsub : start + k + 1 - start = k + 1 := by omega
    have hsub' : start + k + 1 - (start + 1) = k := by omega
    simp [patch, hsub, hsub', show start ≤ start + k + 1 by omega, Function.update_of_ne,
      show start + k + 1 ≠ start by omega]

/-- What was written is read. -/
theorem window_patch_self (start : Nat) (bytes : List α) (m : Nat → α) :
    window (patch start bytes m) start bytes.length = bytes := by
  apply List.ext_getElem?
  intro i
  by_cases hi : i < bytes.length
  · rw [window_getElem? hi, List.getElem?_eq_getElem hi]
    exact congrArg some (patch_of_getElem? (List.getElem?_eq_getElem hi))
  · rw [List.getElem?_eq_none (by simpa using hi), List.getElem?_eq_none (by simpa using hi)]

/-- A write leaves the windows that it does not meet. -/
theorem window_patch_of_disjoint (h : start + size ≤ i ∨ i + bytes.length ≤ start) :
    window (patch i bytes m) start size = window m start size := by
  apply window_congr
  intro k hk
  rcases h with hbefore | hafter
  · exact patch_of_lt (by omega)
  · exact patch_of_le (by omega)

/-- Copying a window to the front of another memory. -/
theorem window_patch_window (h : start + size ≤ i) (other : Nat → α) :
    window (patch 0 (window m 0 i) other) start size = window m start size := by
  apply window_congr
  intro k hk
  have hbyte : (window m 0 i)[start + k]? = some (m (0 + (start + k))) :=
    window_getElem? (by omega)
  have hread : patch 0 (window m 0 i) other (0 + (start + k)) = m (0 + (start + k)) :=
    patch_of_getElem? hbyte
  simpa using hread

end

/-! ### Writing one list behind the other -/

structure Cursor (α : Type*) where
  mem : Nat → α
  pos : Nat

namespace Cursor

def put (bytes : List α) (c : Cursor α) : Cursor α :=
  ⟨patch c.pos bytes c.mem, c.pos + bytes.length⟩

/-- What lies before the cursor. -/
def written (c : Cursor α) : List α := window c.mem 0 c.pos

@[simp] theorem pos_put (bytes : List α) (c : Cursor α) :
    (c.put bytes).pos = c.pos + bytes.length := rfl

@[simp] theorem written_put (bytes : List α) (c : Cursor α) :
    (c.put bytes).written = c.written ++ bytes := by
  have hbefore : window (patch c.pos bytes c.mem) 0 c.pos = window c.mem 0 c.pos :=
    window_patch_of_disjoint (Or.inl (by omega))
  have hafter : window (patch c.pos bytes c.mem) (0 + c.pos) bytes.length = bytes := by
    rw [Nat.zero_add]
    exact window_patch_self c.pos bytes c.mem
  rw [written, pos_put, window_append]
  show window (patch c.pos bytes c.mem) 0 c.pos ++
    window (patch c.pos bytes c.mem) (0 + c.pos) bytes.length = _
  rw [hbefore, hafter, written]

@[simp] theorem written_zero (m : Nat → α) : (⟨m, 0⟩ : Cursor α).written = [] := rfl

theorem mem_put_of_le {bytes : List α} {c : Cursor α} {i : Nat}
    (h : (c.put bytes).pos ≤ i) : (c.put bytes).mem i = c.mem i :=
  patch_of_le h

section

variable {c c' : Cursor α}

theorem pos_of_written (h : c.written = c'.written) : c.pos = c'.pos := by
  have hlength := congrArg List.length h
  rwa [written, written, window_length, window_length] at hlength

/-- Cursors that have written the same agree up to where they are. -/
theorem window_of_written (h : c.written = c'.written) {n : Nat} (hn : n ≤ c.pos) :
    window c.mem 0 n = window c'.mem 0 n := by
  have hpos := pos_of_written h
  rw [written, written, ← hpos] at h
  rw [← window_take c.mem 0 hn, h, window_take c'.mem 0 hn]

end

end Cursor

end KappaGateway.Windows

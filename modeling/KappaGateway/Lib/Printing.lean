import KappaGateway.Lib.Windows

/-!
# Printing into a buffer

A string is printed by writing its characters and a terminator. Strings that are printed
one behind the other overwrite the terminator of the one before; what is left is one
string. If none is printed, what the buffer held at first is taken for a string.
-/

namespace KappaGateway.Printing

open Windows

/-- A buffer of characters, and the places that were written. -/
structure Buffer where
  mem : Nat → UInt8
  written : List Nat

/-- A buffer that nothing was written to. -/
def fresh (stack : Nat → UInt8) : Buffer := ⟨stack, []⟩

namespace Buffer

/-- `sprintf(buffer + pos, "%s", text)`. -/
def print (pos : Nat) (text : List UInt8) (b : Buffer) : Buffer :=
  ⟨patch pos (text ++ [0]) b.mem, b.written ++ List.range' pos (text.length + 1)⟩

/-- Prints texts one behind the other. -/
def printAll : List (List UInt8) → Nat → Buffer → Buffer
  | [], _, b => b
  | text :: rest, pos, b => printAll rest (pos + text.length) (b.print pos text)

/-- A string and its terminator lie at a place. -/
structure Holds (b : Buffer) (pos : Nat) (text : List UInt8) : Prop where
  chars : window b.mem pos text.length = text
  nonzero : 0 ∉ text
  terminator : b.mem (pos + text.length) = 0

section

variable {b : Buffer} {pos i : Nat} {text text' : List UInt8} {texts : List (List UInt8)}

/-- There is one string at a place. -/
theorem Holds.unique (h : b.Holds pos text) (h' : b.Holds pos text') : text = text' := by
  have hle : ∀ {text text' : List UInt8}, b.Holds pos text → b.Holds pos text' →
      text'.length ≤ text.length := by
    intro text text' h h'
    by_contra hlt
    have hget : (window b.mem pos text'.length)[text.length]? = some (b.mem (pos + text.length)) :=
      window_getElem? (Nat.lt_of_not_le hlt)
    rw [h'.chars, h.terminator] at hget
    exact h'.nonzero (List.mem_of_getElem? hget)
  have hlength := Nat.le_antisymm (hle h' h) (hle h h')
  rw [← h.chars, ← h'.chars, hlength]

theorem print_mem_of_lt (h : i < pos) (text : List UInt8) (b : Buffer) :
    (b.print pos text).mem i = b.mem i := patch_of_lt h

theorem printAll_mem_of_lt (h : i < pos) (texts : List (List UInt8)) (b : Buffer) :
    (b.printAll texts pos).mem i = b.mem i := by
  induction texts generalizing pos b with
  | nil => rfl
  | cons text rest ih =>
      rw [printAll, ih (Nat.lt_add_right _ h), print_mem_of_lt h]

theorem mem_written_print (pos : Nat) (text : List UInt8) (b : Buffer) :
    i ∈ (b.print pos text).written ↔ i ∈ b.written ∨ pos ≤ i ∧ i ≤ pos + text.length := by
  rw [print, List.mem_append, List.mem_range'_1, ← Nat.add_assoc, Nat.lt_succ_iff]

/-- All places up to the last terminator are written. -/
theorem mem_written_printAll (h : texts ≠ []) (pos : Nat) (b : Buffer) :
    i ∈ (b.printAll texts pos).written ↔
      i ∈ b.written ∨ pos ≤ i ∧ i ≤ pos + texts.flatten.length := by
  induction texts generalizing pos b with
  | nil => exact absurd rfl h
  | cons text rest ih =>
      rw [printAll, List.flatten_cons, List.length_append]
      by_cases hrest : rest = []
      · subst hrest
        exact mem_written_print pos text b
      · rw [ih hrest, mem_written_print, or_assoc]
        apply or_congr Iff.rfl
        omega

theorem printAll_concat (texts : List (List UInt8)) (text : List UInt8) (pos : Nat) (b : Buffer) :
    b.printAll (texts ++ [text]) pos =
      (b.printAll texts pos).print (pos + texts.flatten.length) text := by
  induction texts generalizing pos b with
  | nil => rfl
  | cons first rest ih =>
      rw [List.cons_append, printAll, ih, printAll, List.flatten_cons, List.length_append,
        Nat.add_assoc]

theorem print_holds (h : 0 ∉ text) (pos : Nat) (b : Buffer) :
    (b.print pos text).Holds pos text := by
  have hlast : (text ++ [0])[text.length]? = some (0 : UInt8) := by simp
  refine ⟨?_, h, patch_of_getElem? hlast⟩
  have hwindow := window_patch_self pos (text ++ [0]) b.mem
  rw [List.length_append, window_append] at hwindow
  exact List.append_inj_left hwindow (window_length _ _ _)

/-- What is left is one string. -/
theorem printAll_holds (h : texts ≠ []) (hzero : ∀ text ∈ texts, 0 ∉ text) (pos : Nat)
    (b : Buffer) : (b.printAll texts pos).Holds pos texts.flatten := by
  induction texts generalizing pos b with
  | nil => exact absurd rfl h
  | cons text rest ih =>
      obtain ⟨htext, hzero⟩ := List.forall_mem_cons.mp hzero
      have hfirst := print_holds htext pos b
      rw [printAll, List.flatten_cons]
      by_cases hrest : rest = []
      · subst hrest
        rw [List.flatten_nil, List.append_nil]
        exact hfirst
      · have hbehind := ih hrest hzero (pos + text.length) (b.print pos text)
        constructor
        · rw [List.length_append, window_append, hbehind.chars]
          refine congrArg (· ++ _) (Eq.trans ?_ hfirst.chars)
          apply window_congr
          intro k hk
          exact printAll_mem_of_lt (Nat.add_lt_add_left hk pos) rest _
        · rw [List.mem_append]
          exact fun hmem => hmem.elim htext hbehind.nonzero
        · rw [List.length_append, ← Nat.add_assoc]
          exact hbehind.terminator

end

end Buffer

end KappaGateway.Printing

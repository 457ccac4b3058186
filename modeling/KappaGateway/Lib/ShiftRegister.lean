import Mathlib.Algebra.Group.Nat.Defs
import Mathlib.Data.List.Basic

/-!
# Shift registers with feedback

A register takes in one bit after the other. When it shifts a bit out at the other end,
a polynomial is added. The differences between two registers follow the same rule, so
what makes the registers differ at the end can be read off the bits.
-/

namespace KappaGateway.ShiftRegister

variable {w : Nat} {poly x y : BitVec w} {b c : Bool} {u v : List Bool}

/-- Shifts a bit in, and adds the polynomial if it shifts one out. -/
def shiftIn (poly x : BitVec w) (b : Bool) : BitVec w :=
  x.shiftConcat b ^^^ if x.msb then poly else 0#w

/-- The register after some bits. -/
def remainder (poly x : BitVec w) (bits : List Bool) : BitVec w := bits.foldl (shiftIn poly) x

/-- The bits in which two sequences differ lie within a window of some length. -/
def DiffersWithin (n : Nat) (u v : List Bool) : Prop :=
  ∃ start, ∀ i, u[i]? ≠ v[i]? → start ≤ i ∧ i < start + n

/-! ### One bit -/

theorem shiftConcat_xor (x y : BitVec w) (b c : Bool) :
    (x ^^^ y).shiftConcat (b ^^ c) = x.shiftConcat b ^^^ y.shiftConcat c := by
  ext i hi
  simp only [BitVec.getElem_shiftConcat, BitVec.getElem_xor]
  split <;> rfl

/-- The difference of two registers is itself a register. -/
theorem shiftIn_xor (poly x y : BitVec w) (b c : Bool) :
    shiftIn poly (x ^^^ y) (b ^^ c) = shiftIn poly x b ^^^ shiftIn poly y c := by
  have hfeedback : (if (x ^^^ y).msb then poly else 0#w) =
      (if x.msb then poly else 0#w) ^^^ (if y.msb then poly else 0#w) := by
    rw [BitVec.msb_xor]
    cases x.msb <;> cases y.msb <;> simp
  rw [shiftIn, shiftConcat_xor, hfeedback, shiftIn, shiftIn]
  ac_rfl

/-- A register with room left takes a bit in as a number does. -/
theorem shiftIn_of_lt {k : Nat} (hk : k < w) (hx : x.toNat < 2 ^ k) :
    (shiftIn poly x b).toNat = x.toNat * 2 + b.toNat := by
  have hle : 2 ^ (k + 1) ≤ 2 ^ w := Nat.pow_le_pow_right Nat.zero_lt_two hk
  have hmsb : x.msb = false := by
    rw [BitVec.msb_eq_false_iff_two_mul_lt]
    omega
  rw [shiftIn, hmsb, if_neg Bool.false_ne_true, BitVec.xor_zero,
    BitVec.toNat_shiftConcat_eq_of_lt hk hx]

/-- With a constant term, the polynomial shows what was shifted out. -/
theorem eq_zero_of_shiftIn (hpoly : poly.getLsbD 0 = true) (h : shiftIn poly x false = 0#w) :
    x = 0#w := by
  have hmsb : x.msb = false := by
    by_contra hout
    rw [Bool.not_eq_false] at hout
    have hbit := congrArg (·.getLsbD 0) h
    simp [shiftIn, hout, BitVec.getLsbD_shiftConcat, hpoly] at hbit
  have hw : 0 < w := BitVec.lt_of_getLsbD hpoly
  have hx : x.toNat < 2 ^ (w - 1) := by
    rw [BitVec.msb_eq_decide, decide_eq_false_iff_not] at hmsb
    exact Nat.lt_of_not_le hmsb
  have hdouble : (shiftIn poly x false).toNat = x.toNat * 2 + 0 :=
    shiftIn_of_lt (Nat.sub_one_lt_of_lt hw) hx
  rw [h, BitVec.toNat_zero] at hdouble
  apply BitVec.eq_of_toNat_eq
  rw [BitVec.toNat_zero]
  omega

/-- Registers that differ still differ after the same bit. -/
theorem shiftIn_injective (hpoly : poly.getLsbD 0 = true)
    (h : shiftIn poly x b = shiftIn poly y b) : x = y := by
  rw [← BitVec.xor_eq_zero_iff]
  apply eq_zero_of_shiftIn hpoly
  rw [← Bool.xor_self b, shiftIn_xor, h, BitVec.xor_self]

/-! ### Sequences of bits -/

theorem remainder_append (poly x : BitVec w) (u v : List Bool) :
    remainder poly x (u ++ v) = remainder poly (remainder poly x u) v :=
  List.foldl_append

theorem remainder_injective (hpoly : poly.getLsbD 0 = true)
    (h : remainder poly x u = remainder poly y u) : x = y := by
  induction u generalizing x y with
  | nil => exact h
  | cons b u ih => exact shiftIn_injective hpoly (ih h)

/-- As long as the highest bit of the difference is not shifted out, it stays. -/
theorem remainder_ne_of_lead {p : Nat} (hlength : u.length = v.length)
    (hroom : p + u.length < w) (hlow : 2 ^ p ≤ (x ^^^ y).toNat)
    (hhigh : (x ^^^ y).toNat < 2 ^ (p + 1)) : remainder poly x u ≠ remainder poly y v := by
  induction u generalizing v x y p with
  | nil =>
      obtain rfl := List.length_eq_zero_iff.mp hlength.symm
      intro heq
      have hxy : x = y := heq
      rw [hxy, BitVec.xor_self, BitVec.toNat_zero] at hlow
      exact absurd hlow (Nat.not_le_of_lt (Nat.two_pow_pos p))
  | cons b u ih =>
      cases v with
      | nil => cases hlength
      | cons c v =>
          rw [List.length_cons] at hroom
          have hdouble : (shiftIn poly x b ^^^ shiftIn poly y c).toNat =
              (x ^^^ y).toNat * 2 + (b ^^ c).toNat := by
            rw [← shiftIn_xor]
            exact shiftIn_of_lt (by omega) hhigh
          have hbit : (b ^^ c).toNat ≤ 1 := Bool.toNat_le _
          have hpow : 2 ^ (p + 1) = 2 ^ p * 2 := Nat.pow_succ 2 p
          apply ih (p := p + 1) (Nat.succ.inj hlength) (by omega)
          · rw [hdouble]
            omega
          · rw [hdouble, Nat.pow_succ]
            omega

/-- Different bits, no more than the register has, make a difference. -/
theorem remainder_ne_of_short (hlength : u.length = v.length) (hroom : u.length ≤ w)
    (hne : u ≠ v) : remainder poly x u ≠ remainder poly x v := by
  induction u generalizing v x with
  | nil => exact absurd (List.length_eq_zero_iff.mp hlength.symm).symm hne
  | cons b u ih =>
      cases v with
      | nil => cases hlength
      | cons c v =>
          rw [List.length_cons] at hroom
          by_cases hhead : b = c
          · subst hhead
            exact ih (Nat.succ.inj hlength) (Nat.le_of_succ_le hroom) fun h => hne (h ▸ rfl)
          · have hone : (shiftIn poly x b ^^^ shiftIn poly x c).toNat = 1 := by
              have hxor : (b ^^ c) = true := by simpa using hhead
              have hzero : (0#w).toNat < 2 ^ 0 := by simp
              rw [← shiftIn_xor, BitVec.xor_self, hxor, shiftIn_of_lt (by omega) hzero]
              rfl
            apply remainder_ne_of_lead (p := 0) (Nat.succ.inj hlength) (by omega)
            · exact Nat.le_of_eq hone.symm
            · rw [hone]
              decide

/-! ### Bursts -/

theorem DiffersWithin.split {n : Nat} (h : DiffersWithin n u v) :
    ∃ p m m' s, u = p ++ m ++ s ∧ v = p ++ m' ++ s ∧ m.length ≤ n := by
  obtain ⟨start, hstart⟩ := h
  have hsame : ∀ i, i < start ∨ start + n ≤ i → u[i]? = v[i]? := by
    intro i hi
    by_contra hne
    have hbounds := hstart i hne
    omega
  have hfront : u.take start = v.take start := by
    apply List.ext_getElem?
    intro i
    rw [List.getElem?_take, List.getElem?_take]
    split
    · exact hsame i (Or.inl (by assumption))
    · rfl
  have hback : (u.drop start).drop n = (v.drop start).drop n := by
    apply List.ext_getElem?
    intro i
    rw [List.drop_drop, List.drop_drop, List.getElem?_drop, List.getElem?_drop]
    exact hsame _ (Or.inr (Nat.le_add_right _ _))
  refine ⟨u.take start, (u.drop start).take n, (v.drop start).take n, (u.drop start).drop n,
    ?_, ?_, ?_⟩
  · rw [List.append_assoc, List.take_append_drop, List.take_append_drop]
  · rw [hback, hfront, List.append_assoc, List.take_append_drop, List.take_append_drop]
  · rw [List.length_take]
    exact Nat.min_le_left _ _

/-- A burst that is no longer than the register changes the remainder. -/
theorem remainder_ne_of_burst (hpoly : poly.getLsbD 0 = true) (hlength : u.length = v.length)
    (hne : u ≠ v) (hburst : DiffersWithin w u v) : remainder poly x u ≠ remainder poly x v := by
  obtain ⟨p, m, m', s, rfl, rfl, hshort⟩ := hburst.split
  have hmiddle : m.length = m'.length := by
    simpa [List.length_append] using hlength
  have hdiffer : m ≠ m' := by
    rintro rfl
    exact hne rfl
  intro heq
  rw [remainder_append, remainder_append, remainder_append, remainder_append] at heq
  exact remainder_ne_of_short hmiddle hshort hdiffer (remainder_injective hpoly heq)

/-- Sequences that differ in a short part only. -/
theorem differsWithin_append {n : Nat} (p : List Bool) (hu : u.length ≤ n) (hv : v.length ≤ n) :
    DiffersWithin n (p ++ u) (p ++ v) := by
  refine ⟨p.length, fun i hne => ?_⟩
  have hle : p.length ≤ i := by
    by_contra hlt
    rw [List.getElem?_append_left (by omega), List.getElem?_append_left (by omega)] at hne
    exact hne rfl
  refine ⟨hle, ?_⟩
  by_contra hge
  rw [List.getElem?_append_right hle, List.getElem?_append_right hle,
    List.getElem?_eq_none (by omega), List.getElem?_eq_none (by omega)] at hne
  exact hne rfl

end KappaGateway.ShiftRegister

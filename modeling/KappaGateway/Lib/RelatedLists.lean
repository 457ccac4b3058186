import KappaGateway.Lib.KeyedList
import Mathlib.Data.List.Forall2

/-!
# Lists with related values

Two lists whose values are related place by place, and two lists of key and value
pairs that also have the same keys in the same order. Looking up, replacing and
removing a value keep the relation. A new relation may hold of fewer values, as
long as it holds of those that stay.
-/

namespace KappaGateway.KeyedList

variable {V W : Type*} {R R' : V → W → Prop} {l : List V} {l' : List W}

theorem forall₂_mono (h : List.Forall₂ R l l') (himp : ∀ v ∈ l, ∀ w, R v w → R' v w) :
    List.Forall₂ R' l l' := by
  induction h with
  | nil => exact .nil
  | cons hfirst hrest ih =>
      rw [List.forall_mem_cons] at himp
      exact .cons (himp.1 _ hfirst) (ih himp.2)

theorem forall₂_exists (h : List.Forall₂ R l l') {v : V} (hv : v ∈ l) : ∃ w, R v w := by
  induction h with
  | nil => cases hv
  | cons hfirst hrest ih =>
      rcases List.mem_cons.mp hv with rfl | hv
      · exact ⟨_, hfirst⟩
      · exact ih hv

theorem forall₂_getElem? (h : List.Forall₂ R l l') (i : Nat) : Option.Rel R l[i]? l'[i]? := by
  induction h generalizing i with
  | nil => exact .none
  | cons hfirst hrest ih =>
      cases i with
      | zero => exact .some hfirst
      | succ i => exact ih i

theorem forall₂_eraseIdx (h : List.Forall₂ R l l') (i : Nat) :
    List.Forall₂ R (l.eraseIdx i) (l'.eraseIdx i) := by
  induction h generalizing i with
  | nil => exact .nil
  | cons hfirst hrest ih =>
      cases i with
      | zero => exact hrest
      | succ i => exact .cons hfirst (ih i)

theorem forall₂_set {i : Nat} {v : V} {w : W} (h : List.Forall₂ R l l')
    (himp : ∀ v ∈ l.eraseIdx i, ∀ w, R v w → R' v w) (hnew : R' v w) :
    List.Forall₂ R' (l.set i v) (l'.set i w) := by
  induction h generalizing i with
  | nil => exact .nil
  | cons hfirst hrest ih =>
      cases i with
      | zero => exact .cons hnew (forall₂_mono hrest himp)
      | succ i =>
          rw [List.eraseIdx_cons_succ, List.forall_mem_cons] at himp
          exact .cons (himp.1 _ hfirst) (ih himp.2)

theorem forall₂_replicate {v : V} {w : W} (h : R v w) (n : Nat) :
    List.Forall₂ R (List.replicate n v) (List.replicate n w) := by
  induction n with
  | zero => exact .nil
  | succ n ih => exact .cons h ih

/-! ### Keys -/

variable {K : Type*}

/-- The same keys in the same order, with related values. -/
def Related (R : V → W → Prop) : List (K × V) → List (K × W) → Prop :=
  List.Forall₂ fun e f => e.1 = f.1 ∧ R e.2 f.2

variable {m : List (K × V)} {m' : List (K × W)}

theorem Related.mono (h : Related R m m') (himp : ∀ e ∈ m, ∀ w, R e.2 w → R' e.2 w) :
    Related R' m m' :=
  forall₂_mono h fun e he _ hf => ⟨hf.1, himp e he _ hf.2⟩

/-- The relation in terms of the values alone. -/
theorem related_iff :
    Related R m m' ↔ ∃ ws, List.Forall₂ R (m.map Prod.snd) ws ∧ (m.map Prod.fst).zip ws = m' := by
  induction m generalizing m' with
  | nil => simp [Related, eq_comm]
  | cons e m ih =>
      constructor
      · rintro (_ | ⟨⟨hkey, hvalue⟩, hrest⟩)
        obtain ⟨ws, hws, rfl⟩ := ih.mp hrest
        exact ⟨_ :: ws, .cons hvalue hws, by simp [hkey]⟩
      · rintro ⟨ws, hws, rfl⟩
        rcases hws with _ | ⟨hvalue, hrest⟩
        exact .cons ⟨rfl, hvalue⟩ (ih.mpr ⟨_, hrest, rfl⟩)

variable [DecidableEq K]

theorem Related.valueAt (h : Related R m m') (k : K) :
    Option.Rel R (valueAt k m) (valueAt k m') := by
  induction h with
  | nil => exact .none
  | @cons e f m m' hfirst hrest ih =>
      rw [KeyedList.valueAt, KeyedList.valueAt, ← hfirst.1]
      split
      · exact .some hfirst.2
      · exact ih

theorem Related.eraseP (h : Related R m m') (k : K) :
    Related R (m.eraseP fun e => e.1 = k) (m'.eraseP fun e => e.1 = k) := by
  induction h with
  | nil => exact .nil
  | @cons e f m m' hfirst hrest ih =>
      by_cases hk : e.1 = k
      · have hk' : f.1 = k := hfirst.1.symm.trans hk
        rw [List.eraseP_cons_of_pos (by simpa using hk),
          List.eraseP_cons_of_pos (by simpa using hk')]
        exact hrest
      · have hk' : ¬ f.1 = k := fun heq => hk (hfirst.1.trans heq)
        rw [List.eraseP_cons_of_neg (by simpa using hk),
          List.eraseP_cons_of_neg (by simpa using hk')]
        exact .cons hfirst ih

/-- Values under other keys are kept, the value at the key is new. -/
theorem Related.alter {k : K} {f : Option V → V} {g : Option W → W} (h : Related R m m')
    (himp : ∀ e ∈ m.eraseP (fun e => e.1 = k), ∀ w, R e.2 w → R' e.2 w)
    (hnew : R' (f (KeyedList.valueAt k m)) (g (KeyedList.valueAt k m'))) :
    Related R' (alter k f m) (alter k g m') := by
  induction h with
  | nil => exact .cons ⟨rfl, hnew⟩ .nil
  | @cons e e' m m' hfirst hrest ih =>
      rw [KeyedList.valueAt, KeyedList.valueAt, ← hfirst.1] at hnew
      rw [KeyedList.alter, KeyedList.alter, ← hfirst.1]
      by_cases hk : e.1 = k
      · simp only [if_pos hk] at hnew ⊢
        rw [List.eraseP_cons_of_pos (by simpa using hk)] at himp
        exact .cons ⟨rfl, hnew⟩ (Related.mono hrest himp)
      · simp only [if_neg hk] at hnew ⊢
        rw [List.eraseP_cons_of_neg (by simpa using hk), List.forall_mem_cons] at himp
        exact .cons ⟨rfl, himp.1 _ hfirst.2⟩ (ih himp.2 hnew)

/-- What comes from the values around a list of pairwise different ones is not in it. -/
theorem apart_of_nodup {γ δ : Type*} {f : δ → List γ} {a : γ} {m : List γ} {l₁ l₂ : List δ}
    (hnodup : (a :: (l₁.flatMap f ++ (m ++ l₂.flatMap f))).Nodup) {x : δ} (hx : x ∈ l₁ ++ l₂)
    {b : γ} (hb : b ∈ f x) : b ≠ a ∧ b ∉ m := by
  rw [List.nodup_cons, List.nodup_append, List.nodup_append] at hnodup
  obtain ⟨ha, -, ⟨-, -, hright⟩, hleft⟩ := hnodup
  rcases List.mem_append.mp hx with hx | hx
  · have hmem : b ∈ l₁.flatMap f := List.mem_flatMap.mpr ⟨x, hx, hb⟩
    constructor
    · rintro rfl
      exact ha (List.mem_append_left _ hmem)
    · exact fun hm => hleft b hmem b (List.mem_append_left _ hm) rfl
  · have hmem : b ∈ l₂.flatMap f := List.mem_flatMap.mpr ⟨x, hx, hb⟩
    constructor
    · rintro rfl
      exact ha (List.mem_append_right _ (List.mem_append_right _ hmem))
    · exact fun hm => hright b hm b hmem rfl

/-- The middle of a list is replaced by what is not in the rest. -/
theorem nodup_replace_middle {γ : Type*} {l₁ l₂ m m' : List γ} (hnodup : (l₁ ++ (m ++ l₂)).Nodup)
    (hm' : m'.Nodup) (hold : ∀ b ∈ m', b ∈ l₁ ++ l₂ → b ∈ m) : (l₁ ++ (m' ++ l₂)).Nodup := by
  rw [List.nodup_append, List.nodup_append] at hnodup ⊢
  obtain ⟨hl₁, ⟨-, hl₂, hright⟩, hleft⟩ := hnodup
  refine ⟨hl₁, ⟨hm', hl₂, ?_⟩, ?_⟩
  · rintro b hb _ hd rfl
    exact hright b (hold b hb (List.mem_append_right l₁ hd)) b hd rfl
  · rintro b hb _ hd rfl
    rcases List.mem_append.mp hd with hd | hd
    · have hbm := hold b hd (List.mem_append_left l₂ hb)
      exact hleft b hb b (List.mem_append_left l₂ hbm) rfl
    · exact hleft b hb b (List.mem_append_right m hd) rfl

end KappaGateway.KeyedList

import Mathlib.Data.List.Nodup

/-!
# Lists of key and value pairs

A finite map in the order its keys came in. `alter` changes the value at a key
in its place, and adds a missing key at the end. Looking up a key after it is
the whole interface; the keys of a list that has each key once stay so.
-/

namespace KappaGateway.KeyedList

variable {K V : Type*} [DecidableEq K]

/-- The value at a key. -/
def valueAt (k : K) : List (K × V) → Option V
  | [] => none
  | (k', v) :: rest => if k' = k then some v else valueAt k rest

/-- Replaces the value at a key by what `f` makes of it. -/
def alter (k : K) (f : Option V → V) : List (K × V) → List (K × V)
  | [] => [(k, f none)]
  | (k', v) :: rest => if k' = k then (k', f (some v)) :: rest else (k', v) :: alter k f rest

/-- Removes a key. -/
def erase (k : K) (m : List (K × V)) : List (K × V) := m.filter (·.1 ≠ k)

/-- Each key occurs once. -/
def Unique (m : List (K × V)) : Prop := (m.map Prod.fst).Nodup

omit [DecidableEq K] in
@[simp] theorem unique_nil : Unique ([] : List (K × V)) := List.nodup_nil

@[simp] theorem valueAt_alter_self (k : K) (f : Option V → V) (m : List (K × V)) :
    valueAt k (alter k f m) = some (f (valueAt k m)) := by
  induction m with
  | nil => simp [alter, valueAt]
  | cons e m ih =>
      rw [alter]
      by_cases h : e.1 = k <;> simp [valueAt, h, ih]

theorem valueAt_alter_of_ne {k k' : K} (hne : k' ≠ k) (f : Option V → V) (m : List (K × V)) :
    valueAt k' (alter k f m) = valueAt k' m := by
  induction m with
  | nil => simp [alter, valueAt, Ne.symm hne]
  | cons e m ih =>
      rw [alter]
      by_cases h : e.1 = k
      · simp [valueAt, h, Ne.symm hne]
      · simp [valueAt, h, ih]

/-- Looking up a key commutes with changing all values. -/
theorem valueAt_map {V' : Type*} (f : V → V') (k : K) (m : List (K × V)) :
    valueAt k (m.map fun e => (e.1, f e.2)) = (valueAt k m).map f := by
  induction m with
  | nil => rfl
  | cons e m ih =>
      rw [List.map_cons, valueAt, valueAt]
      by_cases h : e.1 = k
      · simp [h]
      · simp [h, ih]

theorem alter_map {V' : Type*} (g : V → V') (v : V) (k : K) (m : List (K × V)) :
    (alter k (fun _ => v) m).map (fun e => (e.1, g e.2)) =
      alter k (fun _ => g v) (m.map fun e => (e.1, g e.2)) := by
  induction m with
  | nil => rfl
  | cons e m ih =>
      rw [alter, List.map_cons, alter]
      split
      · rfl
      · rw [List.map_cons, ih]

theorem valueAt_eq_none_iff (k : K) (m : List (K × V)) :
    valueAt k m = none ↔ k ∉ m.map Prod.fst := by
  induction m with
  | nil => simp [valueAt]
  | cons e m ih =>
      rw [valueAt]
      by_cases h : e.1 = k
      · simp [h]
      · simp [h, ih, Ne.symm h]

/-- A missing key is added at the end. -/
theorem alter_of_none {k : K} {m : List (K × V)} (h : valueAt k m = none) (f : Option V → V) :
    alter k f m = m ++ [(k, f none)] := by
  induction m with
  | nil => rfl
  | cons e m ih =>
      rw [valueAt] at h
      split at h
      · cases h
      · next hne => rw [alter, if_neg hne, ih h, List.cons_append]

theorem mem_alter {k : K} {f : Option V → V} {e : K × V} {m : List (K × V)}
    (h : e ∈ alter k f m) : e ∈ m ∨ e.2 = f (valueAt k m) := by
  induction m with
  | nil =>
      obtain rfl := List.mem_singleton.mp h
      exact Or.inr rfl
  | cons d m ih =>
      rw [alter] at h
      split at h
      · next hk =>
          rcases List.mem_cons.mp h with rfl | h
          · exact Or.inr (by simp [valueAt, hk])
          · exact Or.inl (List.mem_cons_of_mem _ h)
      · next hk =>
          rcases List.mem_cons.mp h with rfl | h
          · exact Or.inl List.mem_cons_self
          · rcases ih h with h | h
            · exact Or.inl (List.mem_cons_of_mem _ h)
            · exact Or.inr (by simpa [valueAt, hk] using h)

/-- Removing the first occurrence of a key. -/
theorem valueAt_eraseP_of_ne {k k' : K} (hne : k' ≠ k) (m : List (K × V)) :
    valueAt k' (m.eraseP fun e => e.1 = k) = valueAt k' m := by
  induction m with
  | nil => rfl
  | cons e m ih =>
      by_cases h : e.1 = k
      · simp [h, valueAt, Ne.symm hne]
      · simp [h, valueAt, ih]

theorem mem_of_valueAt {k : K} {v : V} {m : List (K × V)} (h : valueAt k m = some v) :
    (k, v) ∈ m := by
  induction m with
  | nil => simp [valueAt] at h
  | cons e m ih =>
      rw [valueAt] at h
      split at h
      · rename_i hk
        exact List.mem_cons.mpr (Or.inl (Prod.ext hk.symm (Option.some.inj h).symm))
      · exact List.mem_cons_of_mem e (ih h)

/-- Where a key occurs first. -/
theorem exists_append_of_valueAt {k : K} {v : V} {m : List (K × V)} (h : valueAt k m = some v) :
    ∃ m₁ m₂, m = m₁ ++ (k, v) :: m₂ ∧ (m.eraseP fun e => e.1 = k) = m₁ ++ m₂ ∧
      ∀ f, alter k f m = m₁ ++ (k, f (some v)) :: m₂ := by
  induction m with
  | nil => cases h
  | cons e m ih =>
      obtain ⟨k', v'⟩ := e
      rw [valueAt] at h
      by_cases hk : k' = k
      · rw [if_pos hk] at h
        obtain rfl := Option.some.inj h
        exact ⟨[], m, by simp [hk], by simp [hk], fun f => by simp [alter, hk]⟩
      · rw [if_neg hk] at h
        obtain ⟨m₁, m₂, hm, herase, halter⟩ := ih h
        refine ⟨(k', v') :: m₁, m₂, by rw [hm, List.cons_append], ?_, fun f => ?_⟩
        · rw [List.eraseP_cons_of_neg (by simpa using hk), herase, List.cons_append]
        · rw [alter, if_neg hk, halter, List.cons_append]

theorem valueAt_of_mem {k : K} {v : V} {m : List (K × V)} (hm : Unique m) (h : (k, v) ∈ m) :
    valueAt k m = some v := by
  induction m with
  | nil => simp at h
  | cons e m ih =>
      obtain ⟨hfresh, hrest⟩ := List.nodup_cons.mp hm
      rcases List.mem_cons.mp h with rfl | hmem
      · simp [valueAt]
      · have hne : e.1 ≠ k := by
          rintro rfl
          exact hfresh (List.mem_map.mpr ⟨_, hmem, rfl⟩)
        rw [valueAt, if_neg hne]
        exact ih hrest hmem

/-- A list is determined, up to its order, by its keys and the values at them. -/
theorem Unique.perm_map {α : Type*} {m : List (K × V)} (hm : Unique m) {xs : List α}
    {key : α → K} (hxs : (xs.map key).Nodup) (hkeys : ∀ k, k ∈ m.map Prod.fst ↔ k ∈ xs.map key)
    (default : V) : m.Perm (xs.map fun x => (key x, (valueAt (key x) m).getD default)) := by
  have hnodup : (xs.map fun x => (key x, (valueAt (key x) m).getD default)).Nodup := by
    apply List.Nodup.of_map Prod.fst
    simpa [Function.comp_def] using hxs
  rw [List.perm_ext_iff_of_nodup (List.Nodup.of_map _ hm) hnodup]
  rintro ⟨k, v⟩
  constructor
  · intro hmem
    obtain ⟨x, hx, rfl⟩ := List.mem_map.mp ((hkeys k).mp (List.mem_map_of_mem hmem))
    exact List.mem_map.mpr ⟨x, hx, by rw [valueAt_of_mem hm hmem, Option.getD_some]⟩
  · intro hmem
    obtain ⟨x, hx, heq⟩ := List.mem_map.mp hmem
    obtain ⟨rfl, rfl⟩ := Prod.mk.inj heq
    cases hget : valueAt (key x) m with
    | none =>
        have hmissing := (valueAt_eq_none_iff _ _).mp hget
        exact absurd ((hkeys _).mpr (List.mem_map_of_mem hx)) hmissing
    | some w => exact mem_of_valueAt hget

theorem alter_keys (k : K) (f : Option V → V) (m : List (K × V)) :
    (alter k f m).map Prod.fst =
      if k ∈ m.map Prod.fst then m.map Prod.fst else m.map Prod.fst ++ [k] := by
  induction m with
  | nil => simp [alter]
  | cons e m ih =>
      rw [alter]
      by_cases h : e.1 = k
      · simp [h]
      · simp only [if_neg h, List.map_cons, ih, List.mem_cons, Ne.symm h, false_or]
        split <;> rfl

theorem mem_alter_keys {k k' : K} {f : Option V → V} {m : List (K × V)} :
    k' ∈ (alter k f m).map Prod.fst ↔ k' = k ∨ k' ∈ m.map Prod.fst := by
  rw [alter_keys]
  split
  · rename_i hk
    constructor
    · exact Or.inr
    · rintro (rfl | hmem)
      · exact hk
      · exact hmem
  · simp [or_comm]

theorem Unique.alter {m : List (K × V)} (hm : Unique m) (k : K) (f : Option V → V) :
    Unique (alter k f m) := by
  rw [Unique, alter_keys]
  split
  · exact hm
  · rename_i hk
    apply List.Nodup.append hm (List.nodup_singleton k)
    simpa [List.disjoint_singleton] using hk

/-- Altering a list changes nothing exactly if it puts back what is there. -/
theorem alter_eq_self_iff (k : K) (f : Option V → V) (m : List (K × V)) :
    alter k f m = m ↔ ∃ v, valueAt k m = some v ∧ f (some v) = v := by
  induction m with
  | nil => simp [alter, valueAt]
  | cons e m ih =>
      rw [alter, valueAt]
      by_cases h : e.1 = k
      · simp [h, Prod.ext_iff]
      · simp [h, ih]

theorem valueAt_erase_self (k : K) (m : List (K × V)) : valueAt k (erase k m) = none := by
  rw [valueAt_eq_none_iff]
  simp [erase]

theorem valueAt_erase_of_ne {k k' : K} (hne : k' ≠ k) (m : List (K × V)) :
    valueAt k' (erase k m) = valueAt k' m := by
  induction m with
  | nil => rfl
  | cons e m ih =>
      by_cases h : e.1 = k
      · have hk : e.1 ≠ k' := fun heq => hne (heq.symm.trans h)
        simpa [erase, h, valueAt, hk, hne.symm] using ih
      · simp only [erase, ne_eq, h, not_false_eq_true, decide_true, List.filter_cons_of_pos,
          valueAt]
        split
        · rfl
        · exact ih

end KappaGateway.KeyedList

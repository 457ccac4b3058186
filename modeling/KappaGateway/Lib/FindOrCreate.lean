import Mathlib.Data.List.Nodup
import Mathlib.Tactic.Common

/-!
# Finding an entry or creating it

A list whose entries are looked up by a predicate; an entry that is not there is
put in front. What is done to the entry afterwards is part of the operation,
since the program gets a reference to it.
-/

namespace KappaGateway.FindOrCreate

variable {T κ : Type*}

/-- Changes the first entry that the predicate accepts. -/
def modifyFirst (p : T → Bool) (f : T → T) : List T → List T
  | [] => []
  | x :: xs => if p x then f x :: xs else x :: modifyFirst p f xs

/-- Finds the first entry that the predicate accepts, or puts a new one in
front, and changes it. -/
def upsert (p : T → Bool) (new : T) (f : T → T) (l : List T) : List T :=
  if l.any p then modifyFirst p f l else f new :: l

/-- Splits a list at its first accepted entry. -/
theorem exists_split {p : T → Bool} {l : List T} (h : l.any p) :
    ∃ before x after, l = before ++ x :: after ∧ p x ∧ (∀ y ∈ before, ¬ p y) ∧
      ∀ f, modifyFirst p f l = before ++ f x :: after := by
  induction l with
  | nil => simp at h
  | cons x xs ih =>
      by_cases hx : p x
      · exact ⟨[], x, xs, rfl, hx, by simp, fun f => by simp [modifyFirst, hx]⟩
      · have hxs : xs.any p := by simpa [hx] using h
        obtain ⟨before, y, after, rfl, hy, hbefore, hmod⟩ := ih hxs
        refine ⟨x :: before, y, after, rfl, hy, ?_, fun f => ?_⟩
        · simpa [hx] using hbefore
        · simp [modifyFirst, hx, hmod]

/-- The shape of the list after an upsert. -/
theorem upsert_cases (p : T → Bool) (new : T) (l : List T) :
    ((∀ y ∈ l, ¬ p y) ∧ ∀ f, upsert p new f l = f new :: l) ∨
      ∃ before x after, l = before ++ x :: after ∧ p x ∧ (∀ y ∈ before, ¬ p y) ∧
        ∀ f, upsert p new f l = before ++ f x :: after := by
  by_cases h : l.any p
  · right
    obtain ⟨before, x, after, hl, hx, hbefore, hmod⟩ := exists_split h
    exact ⟨before, x, after, hl, hx, hbefore, fun f => by rw [upsert, if_pos h, hmod]⟩
  · left
    refine ⟨?_, fun f => by rw [upsert, if_neg h]⟩
    simpa using h

/-- Modifying the entry that is found without changing a field of it does not
change the field anywhere. -/
theorem map_modifyFirst {g : T → κ} {p : T → Bool} {f : T → T} {x : T} {l : List T}
    (hx : l.find? p = some x) (hf : g (f x) = g x) : (modifyFirst p f l).map g = l.map g := by
  induction l with
  | nil => simp at hx
  | cons y ys ih =>
      rw [modifyFirst]
      by_cases hy : p y
      · obtain rfl : y = x := by simpa [hy] using hx
        simp [hy, hf]
      · have hx' : ys.find? p = some x := by simpa [hy] using hx
        simp [hy, ih hx']

theorem map_modifyFirst_of_forall {g : T → κ} (p : T → Bool) {f : T → T} (hf : ∀ x, g (f x) = g x)
    (l : List T) : (modifyFirst p f l).map g = l.map g := by
  induction l with
  | nil => rfl
  | cons y ys ih =>
      rw [modifyFirst]
      split
      · rw [List.map_cons, hf, List.map_cons]
      · rw [List.map_cons, ih, List.map_cons]

theorem nodup_map_middle (k : T → κ) (before after : List T) (x : T) :
    ((before ++ x :: after).map k).Nodup ↔
      k x ∉ (before ++ after).map k ∧ ((before ++ after).map k).Nodup := by
  rw [List.map_append, List.map_cons, List.nodup_middle, List.nodup_cons, List.map_append]

/-- In a list with two unique keys, giving the entry with the first key `a` the
second key `b` keeps both unique exactly if no other entry has `b`. -/
theorem upsert_unique_iff {κ₁ κ₂ : Type*} [DecidableEq κ₁] {k₁ : T → κ₁} {k₂ : T → κ₂} {a : κ₁}
    {b : κ₂} {f : T → T} {new : T} (hn : k₁ (f new) = a ∧ k₂ (f new) = b)
    (hf : ∀ x, k₁ x = a → k₁ (f x) = a ∧ k₂ (f x) = b) {l : List T}
    (h₁ : (l.map k₁).Nodup) (h₂ : (l.map k₂).Nodup) :
    ((upsert (k₁ · = a) new f l).map k₁).Nodup ∧ ((upsert (k₁ · = a) new f l).map k₂).Nodup ↔
      ∀ y ∈ l, k₂ y = b → k₁ y = a := by
  obtain ⟨habsent, hnew⟩ | ⟨before, x, after, rfl, hx, -, hset⟩ :=
    upsert_cases (k₁ · = a) new l
  · have ha : ∀ y ∈ l, k₁ y ≠ a := by simpa using habsent
    rw [hnew]
    simp only [List.map_cons, hn.1, hn.2, List.nodup_cons, h₁, h₂, and_true]
    constructor
    · rintro ⟨-, hb⟩ y hy rfl
      exact absurd (List.mem_map_of_mem hy) hb
    · intro hfree
      constructor
      · simpa using ha
      · simpa using fun y hy heq => ha y hy (hfree y hy heq)
  · have hxa : k₁ x = a := by simpa using hx
    rw [hset]
    rw [nodup_map_middle, hxa] at h₁
    rw [nodup_map_middle] at h₂
    rw [nodup_map_middle, nodup_map_middle, (hf x hxa).1, (hf x hxa).2]
    have hother : ∀ y ∈ before ++ after, k₁ y ≠ a := fun y hy heq =>
      h₁.1 (List.mem_map.mpr ⟨y, hy, heq⟩)
    have hmem : ∀ y, y ∈ before ++ x :: after ↔ y = x ∨ y ∈ before ++ after := by
      intro y
      simp [or_left_comm]
    constructor
    · rintro ⟨-, hb, -⟩ y hy heq
      rcases (hmem y).mp hy with rfl | hy
      · exact hxa
      · exact absurd (List.mem_map.mpr ⟨y, hy, heq⟩) hb
    · intro hfree
      refine ⟨h₁, fun hb => ?_, h₂.2⟩
      obtain ⟨y, hy, heq⟩ := List.mem_map.mp hb
      exact hother y hy (hfree y ((hmem y).mpr (Or.inr hy)) heq)

theorem modifyFirst_eq_self_iff {p : T → Bool} {f : T → T} {l : List T} :
    modifyFirst p f l = l ↔ ∀ x ∈ l.find? p, f x = x := by
  induction l with
  | nil => simp [modifyFirst]
  | cons x xs ih =>
      rw [modifyFirst]
      by_cases hx : p x
      · simp [hx]
      · simp [hx, ih]

/-- In a list with a unique key, only the entry with the key is modified. -/
theorem modifyFirst_eq_map [DecidableEq κ] {k : T → κ} {l : List T} (h : (l.map k).Nodup)
    (a : κ) (f : T → T) :
    modifyFirst (k · = a) f l = l.map fun x => if k x = a then f x else x := by
  induction l with
  | nil => rfl
  | cons x xs ih =>
      obtain ⟨hfresh, hrest⟩ := List.nodup_cons.mp h
      rw [modifyFirst, List.map_cons]
      by_cases hx : k x = a
      · have hxs : ∀ y ∈ xs, k y ≠ a := fun y hy heq =>
          hfresh (List.mem_map.mpr ⟨y, hy, heq.trans hx.symm⟩)
        have hsame : xs.map (fun y => if k y = a then f y else y) = xs := by
          conv_rhs => rw [← List.map_id xs]
          apply List.map_congr_left
          intro y hy
          exact if_neg (hxs y hy)
        simp [hx, hsame]
      · simp [hx, ih hrest]

/-- Entries that carry something along behave like what they carry. -/
theorem map_upsert {S : Type*} {g : S → T} {p : T → Bool} {f : T → T} {f' : S → S}
    (hf : ∀ x, g (f' x) = f (g x)) (new : S) (l : List S) :
    (upsert (fun x => p (g x)) new f' l).map g = upsert p (g new) f (l.map g) := by
  have hmodify : (modifyFirst (fun x => p (g x)) f' l).map g = modifyFirst p f (l.map g) := by
    induction l with
    | nil => rfl
    | cons x xs ih =>
        simp only [modifyFirst, List.map_cons]
        split
        · simp [hf]
        · simp [ih]
  simp only [upsert, List.any_map, Function.comp_def]
  split
  · exact hmodify
  · simp [hf]

theorem upsert_of_none {p : T → Bool} {l : List T} (h : ∀ x ∈ l, ¬ p x) (new : T) (f : T → T) :
    upsert p new f l = f new :: l := by
  have hany : ¬ l.any p := by simpa using h
  rw [upsert, if_neg hany]

/-- Upserts with different keys that the list does not have put all their
entries in front. -/
theorem foldl_upsert_fresh {α : Type*} [DecidableEq κ] (k : T → κ) (key : α → κ) (new : α → T)
    (f : α → T → T) (hf : ∀ a, k (f a (new a)) = key a) {xs : List α}
    (hxs : (xs.map key).Nodup) {l : List T} (hl : ∀ a ∈ xs, ∀ x ∈ l, k x ≠ key a) :
    xs.foldl (fun l a => upsert (k · = key a) (new a) (f a) l) l =
      (xs.map fun a => f a (new a)).reverse ++ l := by
  induction xs generalizing l with
  | nil => rfl
  | cons a xs ih =>
      rw [List.map_cons, List.nodup_cons] at hxs
      rw [List.forall_mem_cons] at hl
      have hnone : ∀ x ∈ l, ¬ decide (k x = key a) = true := by simpa using hl.1
      have hrest : ∀ b ∈ xs, ∀ x ∈ f a (new a) :: l, k x ≠ key b := by
        intro b hb x hx
        rcases List.mem_cons.mp hx with rfl | hx
        · rw [hf]
          exact fun heq => hxs.1 (List.mem_map.mpr ⟨b, hb, heq.symm⟩)
        · exact hl.2 b hb x hx
      rw [List.foldl_cons, upsert_of_none hnone, ih hxs.2 hrest]
      simp

/-! ### The entry that a lookup returns -/

/-- Finds the first entry that the predicate accepts, or puts a new one in front:
the place of the entry, and the list afterwards. -/
def lookup (p : T → Bool) (new : T) (l : List T) : Nat × List T :=
  if l.any p then (l.findIdx p, l) else (0, new :: l)

theorem modifyFirst_eq_modify (p : T → Bool) (f : T → T) (l : List T) :
    modifyFirst p f l = l.modify (l.findIdx p) f := by
  induction l with
  | nil => rfl
  | cons x xs ih =>
      rw [modifyFirst, List.findIdx_cons]
      cases p x with
      | true => rfl
      | false => simp [ih]

/-- An upsert changes the entry that the lookup returns. -/
theorem upsert_eq_modify_lookup (p : T → Bool) (new : T) (f : T → T) (l : List T) :
    upsert p new f l = (lookup p new l).2.modify (lookup p new l).1 f := by
  rw [upsert, lookup]
  split
  · exact modifyFirst_eq_modify p f l
  · rfl

theorem upsert_id (p : T → Bool) (new : T) (l : List T) :
    upsert p new id l = (lookup p new l).2 := by
  rw [upsert_eq_modify_lookup]
  exact List.modify_id _ _

/-- What a caller expects of a lookup with a key: the entry it returns has the key,
an entry that has it is kept and otherwise one is put in front, keys stay unique,
and looking up once more returns the same entry. -/
structure Lawful (k : T → κ) (lookup : κ → List T → Nat × List T) (a : κ) (l : List T) :
    Prop where
  returned : (lookup a l).2[(lookup a l).1]?.map k = some a
  kept : (∃ x ∈ l, k x = a) → (lookup a l).2 = l
  added : (¬ ∃ x ∈ l, k x = a) → (lookup a l).1 = 0 ∧ ∃ x, (lookup a l).2 = x :: l
  unique : ((lookup a l).2.map k).Nodup
  again : lookup a (lookup a l).2 = lookup a l

section

variable [DecidableEq κ] {k : T → κ} {a : κ} {l : List T} {new : T}

theorem any_key_iff : l.any (k · = a) ↔ ∃ x ∈ l, k x = a := by
  simp [List.any_eq_true]

theorem lookup_of_mem (h : ∃ x ∈ l, k x = a) :
    lookup (k · = a) new l = (l.findIdx (k · = a), l) := by
  rw [lookup, if_pos (any_key_iff.mpr h)]

theorem lookup_of_not_mem (h : ¬ ∃ x ∈ l, k x = a) :
    lookup (k · = a) new l = (0, new :: l) := by
  rw [lookup, if_neg fun hany => h (any_key_iff.mp hany)]

theorem length_le_foldl_lookup (new : κ → T) (l : List T) (keys : List κ) :
    l.length ≤ (keys.foldl (fun l a => (lookup (k · = a) (new a) l).2) l).length := by
  induction keys generalizing l with
  | nil => exact Nat.le_refl _
  | cons a rest ih =>
      refine Nat.le_trans ?_ (ih (lookup (k · = a) (new a) l).2)
      by_cases h : ∃ x ∈ l, k x = a
      · exact Nat.le_of_eq (by rw [lookup_of_mem h])
      · simp [lookup_of_not_mem h]

/-- A run of lookups leaves the list alone exactly if each of them finds its entry. -/
theorem foldl_lookup_eq_self_iff (new : κ → T) (l : List T) (keys : List κ) :
    keys.foldl (fun l a => (lookup (k · = a) (new a) l).2) l = l ↔
      ∀ a ∈ keys, ∃ x ∈ l, k x = a := by
  induction keys with
  | nil => simp
  | cons a rest ih =>
      rw [List.foldl_cons, List.forall_mem_cons]
      by_cases h : ∃ x ∈ l, k x = a
      · simp only [lookup_of_mem h, ih, h, true_and]
      · simp only [h, false_and, iff_false]
        intro heq
        have hlen := length_le_foldl_lookup (k := k) new (lookup (k · = a) (new a) l).2 rest
        rw [heq, lookup_of_not_mem h, List.length_cons] at hlen
        omega

theorem lookup_again (hnew : k new = a ∨ ∃ x ∈ l, k x = a) :
    lookup (k · = a) new (lookup (k · = a) new l).2 = lookup (k · = a) new l := by
  by_cases h : ∃ x ∈ l, k x = a
  · rw [lookup_of_mem h, lookup_of_mem h]
  · have hkey : k new = a := hnew.resolve_right h
    rw [lookup_of_not_mem h, lookup_of_mem ⟨new, List.mem_cons_self, hkey⟩]
    simp [List.findIdx_cons, hkey]

/-- The law needs that the new entry has the key, unless there is one that has it. -/
theorem lawful_iff {new : κ → T} (hunique : (l.map k).Nodup) :
    Lawful k (fun a => lookup (k · = a) (new a)) a l ↔ k (new a) = a ∨ ∃ x ∈ l, k x = a := by
  constructor
  · intro hlaw
    by_cases h : ∃ x ∈ l, k x = a
    · exact Or.inr h
    · left
      have hreturned := hlaw.returned
      simp only [lookup_of_not_mem h] at hreturned
      simpa using hreturned
  · intro hnew
    by_cases h : ∃ x ∈ l, k x = a
    · refine ⟨?_, fun _ => by rw [lookup_of_mem h], fun hnone => absurd h hnone, ?_, lookup_again hnew⟩
      · have hlt : l.findIdx (k · = a) < l.length :=
          List.findIdx_lt_length_of_exists (by simpa using h)
        have hfound : k l[l.findIdx (k · = a)] = a := by
          simpa using List.findIdx_getElem (w := hlt)
        simp only [lookup_of_mem h, List.getElem?_eq_getElem hlt, Option.map_some, hfound]
      · rw [lookup_of_mem h]
        exact hunique
    · have hkey : k (new a) = a := hnew.resolve_right h
      refine ⟨?_, fun hmem => absurd hmem h, fun _ => ?_, ?_, lookup_again hnew⟩
      · simp [lookup_of_not_mem h, hkey]
      · exact ⟨by rw [lookup_of_not_mem h], new a, by rw [lookup_of_not_mem h]⟩
      · rw [lookup_of_not_mem h, List.map_cons, List.nodup_cons, hkey]
        exact ⟨fun hmem => h (List.mem_map.mp hmem), hunique⟩

/-- A lookup whose new entries have their keys. -/
theorem lawful {new : κ → T} (hnew : ∀ a, k (new a) = a) (hunique : (l.map k).Nodup) :
    Lawful k (fun a => lookup (k · = a) (new a)) a l :=
  (lawful_iff hunique).mpr (Or.inl (hnew a))

/-- After a lawful lookup an entry has the key. -/
theorem Lawful.exists_key {f : κ → List T → Nat × List T} (hlaw : Lawful k f a l) :
    (f a l).2.any (k · = a) := by
  obtain ⟨x, hx, hkey⟩ := Option.map_eq_some_iff.mp hlaw.returned
  exact any_key_iff.mpr ⟨x, List.mem_of_getElem? hx, hkey⟩

end

end KappaGateway.FindOrCreate

import KappaGateway.Lib.KeyedList

/-!
# JSON trees

Values whose strings and keys have any type, with the one operation on objects
that a path of keys needs: changing the value behind a key. On a value that is
neither an object nor null it does nothing. Writing at the end of a path is
read back there, and leaves what lies at paths that branch off unchanged.
-/

namespace KappaGateway

open KeyedList

/-- A JSON value over strings of type `K`. -/
inductive Json (K : Type) where
  | null
  | bool (b : Bool)
  | integer (n : Int)
  | string (s : K)
  | array (elements : List (Json K))
  | object (members : List (K × Json K))

namespace Json

/-! ### Nesting and strings -/

section

variable {K : Type}

/-- Induction over the values in a value. -/
@[elab_as_elim]
theorem induction {P : Json K → Prop} (null : P .null) (bool : ∀ b, P (.bool b))
    (integer : ∀ n, P (.integer n)) (string : ∀ s, P (.string s))
    (array : ∀ elements : List (Json K), (∀ j ∈ elements, P j) → P (.array elements))
    (object : ∀ members : List (K × Json K), (∀ e ∈ members, P e.2) → P (.object members)) :
    ∀ j, P j
  | .null => null
  | .bool b => bool b
  | .integer n => integer n
  | .string s => string s
  | .array elements => array elements fun j _ =>
      induction null bool integer string array object j
  | .object members => object members fun e he =>
      have := List.sizeOf_lt_of_mem he
      induction null bool integer string array object e.2
decreasing_by
  · simp_wf
    have := List.sizeOf_lt_of_mem ‹j ∈ elements›
    omega
  · simp_wf
    obtain ⟨k, j⟩ := e
    simp only [Prod.mk.sizeOf_spec] at *
    omega

mutual

/-- How deep arrays and objects are nested. -/
def depth : Json K → Nat
  | .array elements => depthElements elements + 1
  | .object members => depthMembers members + 1
  | _ => 0

def depthElements : List (Json K) → Nat
  | [] => 0
  | j :: rest => max (depth j) (depthElements rest)

def depthMembers : List (K × Json K) → Nat
  | [] => 0
  | (_, j) :: rest => max (depth j) (depthMembers rest)

end

theorem depth_array_le {elements : List (Json K)} {n : Nat} :
    depth (.array elements) ≤ n + 1 ↔ ∀ j ∈ elements, depth j ≤ n := by
  rw [depth, Nat.add_le_add_iff_right]
  induction elements with
  | nil => simp [depthElements]
  | cons j rest ih => rw [depthElements, Nat.max_le, ih, List.forall_mem_cons]

theorem depth_object_le {members : List (K × Json K)} {n : Nat} :
    depth (.object members) ≤ n + 1 ↔ ∀ e ∈ members, depth e.2 ≤ n := by
  rw [depth, Nat.add_le_add_iff_right]
  induction members with
  | nil => simp [depthMembers]
  | cons e rest ih =>
      rw [depthMembers, Nat.max_le, ih, List.forall_mem_cons]

mutual

/-- All strings in the value have the property, and so do all keys. -/
def allTexts (p : K → Bool) : Json K → Bool
  | .string s => p s
  | .array elements => allElements p elements
  | .object members => allMembers p members
  | _ => true

def allElements (p : K → Bool) : List (Json K) → Bool
  | [] => true
  | j :: rest => allTexts p j && allElements p rest

def allMembers (p : K → Bool) : List (K × Json K) → Bool
  | [] => true
  | (k, j) :: rest => p k && allTexts p j && allMembers p rest

end

variable {p : K → Bool}

theorem allTexts_array {elements : List (Json K)} :
    allTexts p (.array elements) ↔ ∀ j ∈ elements, allTexts p j := by
  rw [allTexts]
  induction elements with
  | nil => simp [allElements]
  | cons j rest ih => simp [allElements, ih]

theorem allTexts_object {members : List (K × Json K)} :
    allTexts p (.object members) ↔ ∀ e ∈ members, p e.1 ∧ allTexts p e.2 := by
  rw [allTexts]
  induction members with
  | nil => simp [allMembers]
  | cons e rest ih => simp [allMembers, ih]

end

variable {K : Type} [DecidableEq K]

section

variable {k : K} {f : Option (Json K) → Json K} {members : List (K × Json K)}

theorem depth_alter_le {n : Nat} (h : depth (.object members) ≤ n + 1)
    (hvalue : depth (f (valueAt k members)) ≤ n) :
    depth (.object (alter k f members)) ≤ n + 1 := by
  rw [depth_object_le] at h ⊢
  intro e he
  rcases mem_alter he with hold | hnew
  · exact h e hold
  · rw [hnew]
    exact hvalue

theorem allTexts_alter {p : K → Bool} (h : allTexts p (.object members)) (hk : p k)
    (hvalue : allTexts p (f (valueAt k members))) : allTexts p (.object (alter k f members)) := by
  rw [allTexts_object] at h ⊢
  intro e he
  constructor
  · rcases mem_alter_keys.mp (List.mem_map_of_mem he) with hkey | hold
    · rw [hkey]
      exact hk
    · obtain ⟨d, hd, heq⟩ := List.mem_map.mp hold
      rw [← heq]
      exact (h d hd).1
  · rcases mem_alter he with hold | hnew
    · exact (h e hold).2
    · rw [hnew]
      exact hvalue

end

/-- A value that has no members and takes none: neither an object nor null. -/
def Closed : Json K → Prop
  | .null => False
  | .object _ => False
  | _ => True

/-- The value at a key of an object. -/
def member (k : K) : Json K → Option (Json K)
  | .object m => valueAt k m
  | _ => none

/-- Changes the value at a key, null if there is none; null becomes an object. -/
def update (k : K) (f : Json K → Json K) : Json K → Json K
  | .object m => .object (alter k (fun v => f (v.getD .null)) m)
  | .null => .object [(k, f .null)]
  | j => j

theorem update_closed {j : Json K} (h : Closed j) (k : K) (f : Json K → Json K) :
    update k f j = j := by
  cases j with
  | null | object => exact absurd h id
  | _ => rfl

omit [DecidableEq K] in
theorem closed_or {j : Json K} : Closed j ∨ j = .null ∨ ∃ m, j = .object m := by
  cases j with
  | null => exact Or.inr (Or.inl rfl)
  | object m => exact Or.inr (Or.inr ⟨m, rfl⟩)
  | _ => exact Or.inl trivial

@[simp] theorem closed_update {k : K} {f : Json K → Json K} {j : Json K} :
    Closed (update k f j) ↔ Closed j := by
  cases j <;> simp [update, Closed]

theorem member_update_self {j : Json K} (h : ¬ Closed j) (k : K) (f : Json K → Json K) :
    member k (update k f j) = some (f ((member k j).getD .null)) := by
  obtain hc | rfl | ⟨m, rfl⟩ := closed_or (j := j)
  · exact absurd hc h
  · simp [update, member, valueAt]
  · simp [update, member]

theorem member_update_of_ne {k k' : K} (hne : k' ≠ k) (f : Json K → Json K) (j : Json K) :
    member k' (update k f j) = member k' j := by
  cases j with
  | null => simp [update, member, valueAt, Ne.symm hne]
  | object m => exact valueAt_alter_of_ne hne _ m
  | _ => rfl

/-- An update changes nothing exactly if there is no room for it, or if it puts
back what is there. -/
theorem update_eq_self_iff (k : K) (f : Json K → Json K) (j : Json K) :
    update k f j = j ↔ Closed j ∨ ∃ v, member k j = some v ∧ f v = v := by
  cases j with
  | null => simp [update, Closed, member]
  | object m => simp [update, Closed, member, alter_eq_self_iff]
  | _ => simp [update, Closed]

/-- Removes a key of an object. -/
def erase (k : K) : Json K → Json K
  | .object m => .object (KeyedList.erase k m)
  | j => j

/-! ### Paths -/

/-- The value at the end of a path of keys. -/
def look : List K → Json K → Option (Json K)
  | [], j => some j
  | k :: path, j => (member k j).bind (look path)

/-- Writes a value at the end of a path, making the objects it needs. -/
def put (v : Json K) : List K → Json K → Json K
  | [], _ => v
  | k :: path, j => update k (put v path) j

/-- No closed value lies on the path. -/
def Open : List K → Json K → Prop
  | [], _ => True
  | k :: path, j => ¬ Closed j ∧ ∀ v ∈ member k j, Open path v

/-- The two paths branch: neither is the beginning of the other. -/
def Apart : List K → List K → Prop
  | k :: p, k' :: q => k = k' → Apart p q
  | _, _ => False

/-- Writing the value would change nothing: it is there, or it is lost in a
closed value on the way. -/
def Keeps (v : Json K) : List K → Json K → Prop
  | [], j => v = j
  | k :: path, j => Closed j ∨ ∃ w, member k j = some w ∧ Keeps v path w

omit [DecidableEq K] in
theorem Apart.symm {p q : List K} (h : Apart p q) : Apart q p := by
  induction p generalizing q with
  | nil => cases q <;> exact h
  | cons k p ih =>
      cases q with
      | nil => exact h
      | cons k' q => exact fun heq => ih (h heq.symm)

omit [DecidableEq K] in
theorem not_apart_self (p : List K) : ¬ Apart p p := by
  induction p with
  | nil => exact id
  | cons k p ih => exact fun h => ih (h rfl)

theorem open_null (p : List K) : Open p (.null : Json K) := by
  cases p with
  | nil => trivial
  | cons k p => exact ⟨id, by simp [member]⟩

theorem open_object_nil (p : List K) : Open p (.object [] : Json K) := by
  cases p with
  | nil => trivial
  | cons k p => exact ⟨id, by simp [member, valueAt]⟩

theorem look_put_self {p : List K} {j : Json K} (h : Open p j) (v : Json K) :
    look p (put v p j) = some v := by
  induction p generalizing j with
  | nil => rfl
  | cons k p ih =>
      rw [put, look, member_update_self h.1, Option.bind_some]
      cases hm : member k j with
      | none => exact ih (open_null p)
      | some w => exact ih (h.2 w hm)

theorem look_put_apart {p q : List K} (h : Apart p q) (v : Json K) (j : Json K) :
    look q (put v p j) = look q j := by
  induction p generalizing q j with
  | nil => exact absurd h (by simp [Apart])
  | cons k p ih =>
      cases q with
      | nil => exact absurd h (by simp [Apart])
      | cons k' q =>
          rw [put, look, look]
          by_cases hk : k = k'
          · subst hk
            by_cases hc : Closed j
            · rw [update_closed hc]
            · rw [member_update_self hc, Option.bind_some, ih (h rfl)]
              cases member k j with
              | none => cases q <;> simp_all [look, member, Apart]
              | some w => rfl
          · rw [member_update_of_ne (Ne.symm hk)]

theorem open_put {p q : List K} {j : Json K} (hq : Open q j) (h : Apart p q) (v : Json K) :
    Open q (put v p j) := by
  induction p generalizing q j with
  | nil => exact absurd h (by simp [Apart])
  | cons k p ih =>
      cases q with
      | nil => trivial
      | cons k' q =>
          refine ⟨by simpa [put] using hq.1, fun w hw => ?_⟩
          rw [put] at hw
          by_cases hk : k = k'
          · subst hk
            rw [member_update_self hq.1, Option.mem_def, Option.some.injEq] at hw
            subst hw
            refine ih ?_ (h rfl)
            cases hm : member k j with
            | none => exact open_null q
            | some w => exact hq.2 w hm
          · rw [member_update_of_ne (Ne.symm hk)] at hw
            exact hq.2 w hw

theorem put_eq_self_iff (v : Json K) (p : List K) (j : Json K) :
    put v p j = j ↔ Keeps v p j := by
  induction p generalizing j with
  | nil => rfl
  | cons k p ih =>
      rw [put, Keeps, update_eq_self_iff]
      simp only [ih]

/-- What is lost or there already, in terms of reading. -/
theorem keeps_iff (v : Json K) (p : List K) (j : Json K) :
    Keeps v p j ↔ (Open p j → look p j = some v) := by
  induction p generalizing j with
  | nil => simp [Keeps, Open, look, eq_comm]
  | cons k p ih =>
      rw [Keeps, Open, look]
      cases hm : member k j with
      | none => simp
      | some w => simp [ih, imp_iff_not_or (a := ¬ Closed j)]

/-- Writes one after the other. -/
def putAll (writes : List (List K × Json K)) (j : Json K) : Json K :=
  writes.foldl (fun j w => put w.2 w.1 j) j

@[simp] theorem putAll_nil (j : Json K) : putAll [] j = j := rfl

@[simp] theorem putAll_cons (w : List K × Json K) (writes : List (List K × Json K))
    (j : Json K) : putAll (w :: writes) j = putAll writes (put w.2 w.1 j) := rfl

theorem putAll_append (writes more : List (List K × Json K)) (j : Json K) :
    putAll (writes ++ more) j = putAll more (putAll writes j) := List.foldl_append

theorem look_putAll_apart {q : List K} {writes : List (List K × Json K)}
    (h : ∀ w ∈ writes, Apart w.1 q) (j : Json K) : look q (putAll writes j) = look q j := by
  induction writes generalizing j with
  | nil => rfl
  | cons w writes ih =>
      rw [List.forall_mem_cons] at h
      rw [putAll_cons, ih h.2, look_put_apart h.1]

/-- Writes on different branches change nothing exactly if each of them does not. -/
theorem putAll_eq_self_iff {writes : List (List K × Json K)}
    (h : writes.Pairwise fun a b => Apart a.1 b.1) (j : Json K) :
    putAll writes j = j ↔ ∀ w ∈ writes, Keeps w.2 w.1 j := by
  induction writes generalizing j with
  | nil => simp
  | cons w writes ih =>
      rw [List.pairwise_cons] at h
      rw [putAll_cons, List.forall_mem_cons]
      constructor
      · intro heq
        have hfirst : Keeps w.2 w.1 j := by
          rw [keeps_iff]
          intro hopen
          rw [← heq, look_putAll_apart fun x hx => (h.1 x hx).symm, look_put_self hopen]
        rw [(put_eq_self_iff w.2 w.1 j).mpr hfirst] at heq
        exact ⟨hfirst, (ih h.2 j).mp heq⟩
      · rintro ⟨hfirst, hrest⟩
        rw [(put_eq_self_iff w.2 w.1 j).mpr hfirst]
        exact (ih h.2 j).mpr hrest

/-! ### Writes that agree -/

theorem open_put_self {p : List K} {j : Json K} (h : Open p j) (v : Json K) :
    Open p (put v p j) := by
  induction p generalizing j with
  | nil => trivial
  | cons k p ih =>
      refine ⟨by simpa [put] using h.1, fun w hw => ?_⟩
      rw [put, member_update_self h.1, Option.mem_def, Option.some.injEq] at hw
      subst hw
      cases hm : member k j with
      | none => exact ih (open_null p)
      | some w => exact ih (h.2 w hm)

/-- Any two of the writes are the same, or on different branches. -/
def Consistent (writes : List (List K × Json K)) : Prop :=
  ∀ a ∈ writes, ∀ b ∈ writes, a = b ∨ Apart a.1 b.1

/-- Writes that agree are all read back, whatever their order and however often
each is made. -/
theorem look_putAll_of_mem {writes : List (List K × Json K)} {j : Json K}
    (h : Consistent writes) (hopen : ∀ w ∈ writes, Open w.1 j) {w : List K × Json K}
    (hw : w ∈ writes) : look w.1 (putAll writes j) = some w.2 := by
  induction writes generalizing j with
  | nil => simp at hw
  | cons a writes ih =>
      rw [putAll_cons]
      have hrest : Consistent writes := fun x hx y hy =>
        h x (List.mem_cons_of_mem a hx) y (List.mem_cons_of_mem a hy)
      have hopen' : ∀ x ∈ writes, Open x.1 (put a.2 a.1 j) := by
        intro x hx
        obtain rfl | hapart := h a List.mem_cons_self x (List.mem_cons_of_mem a hx)
        · exact open_put_self (hopen a List.mem_cons_self) a.2
        · exact open_put (hopen x (List.mem_cons_of_mem a hx)) hapart a.2
      by_cases hmem : w ∈ writes
      · exact ih hrest hopen' hmem
      · obtain rfl : w = a := (List.mem_cons.mp hw).resolve_right hmem
        have hapart : ∀ x ∈ writes, Apart x.1 w.1 := by
          intro x hx
          obtain rfl | hapart := h x (List.mem_cons_of_mem w hx) w List.mem_cons_self
          · exact absurd hx hmem
          · exact hapart
        rw [look_putAll_apart hapart, look_put_self (hopen w List.mem_cons_self)]

/-- Writes into an object leave an object, with the keys that the paths begin with. -/
theorem putAll_object {writes : List (List K × Json K)} (h : ∀ w ∈ writes, w.1 ≠ [])
    {m : List (K × Json K)} (hm : Unique m) :
    ∃ m', putAll writes (.object m) = .object m' ∧ Unique m' ∧
      ∀ k, k ∈ m'.map Prod.fst ↔ k ∈ m.map Prod.fst ∨ ∃ w ∈ writes, w.1.head? = some k := by
  induction writes generalizing m with
  | nil => exact ⟨m, rfl, hm, by simp⟩
  | cons w writes ih =>
      rw [List.forall_mem_cons] at h
      obtain ⟨k₀, path, hpath⟩ := List.exists_cons_of_ne_nil h.1
      obtain ⟨m', hput, hunique, hkeys⟩ :=
        ih h.2 (hm.alter k₀ fun v => put w.2 path (v.getD .null))
      refine ⟨m', ?_, hunique, fun k => ?_⟩
      · rw [putAll_cons, hpath, put, update, hput]
      · rw [hkeys, mem_alter_keys]
        simp [hpath, or_assoc, or_left_comm, eq_comm]

/-- A path stays open, and keeps a value of a kind, under writes that are on
other branches or write a value of this kind there. -/
theorem putAll_keeps {P : Json K → Prop} {p : List K} {writes : List (List K × Json K)}
    (h : ∀ w ∈ writes, (w.1 = p ∧ P w.2) ∨ Apart w.1 p) {j : Json K} (hopen : Open p j) :
    Open p (putAll writes j) ∧
      ((∃ v, look p j = some v ∧ P v) ∨ (∃ w ∈ writes, w.1 = p) →
        ∃ v, look p (putAll writes j) = some v ∧ P v) := by
  induction writes generalizing j with
  | nil => exact ⟨hopen, by simp⟩
  | cons w writes ih =>
      rw [List.forall_mem_cons] at h
      rw [putAll_cons]
      obtain ⟨rfl, hw⟩ | hapart := h.1
      · obtain ⟨hopen', hlook⟩ := ih h.2 (open_put_self hopen w.2)
        exact ⟨hopen', fun _ => hlook (Or.inl ⟨w.2, look_put_self hopen w.2, hw⟩)⟩
      · obtain ⟨hopen', hlook⟩ := ih h.2 (open_put hopen hapart w.2)
        refine ⟨hopen', ?_⟩
        rintro (hv | ⟨x, hx, rfl⟩)
        · exact hlook (Or.inl (by rwa [look_put_apart hapart]))
        · rcases List.mem_cons.mp hx with rfl | hx
          · exact absurd hapart (not_apart_self _)
          · exact hlook (Or.inr ⟨x, hx, rfl⟩)

/-- Writes under other keys leave a key as it is. -/
theorem member_putAll_of_ne {k : K} {writes : List (List K × Json K)}
    (h : ∀ w ∈ writes, ∃ k' path, w.1 = k' :: path ∧ k ≠ k') (j : Json K) :
    member k (putAll writes j) = member k j := by
  induction writes generalizing j with
  | nil => rfl
  | cons w writes ih =>
      rw [List.forall_mem_cons] at h
      obtain ⟨k', path, hw, hne⟩ := h.1
      rw [putAll_cons, ih h.2, hw, put, member_update_of_ne hne]

/-! ### Erasing -/

theorem member_erase_self (k : K) (j : Json K) : member k (erase k j) = none := by
  cases j with
  | object m => exact valueAt_erase_self k m
  | _ => rfl

theorem member_erase_of_ne {k k' : K} (hne : k' ≠ k) (j : Json K) :
    member k' (erase k j) = member k' j := by
  cases j with
  | object m => exact valueAt_erase_of_ne hne m
  | _ => rfl

theorem open_erase {p : List K} {j : Json K} (h : Open p j) (k : K) : Open p (erase k j) := by
  cases p with
  | nil => trivial
  | cons k' p =>
      refine ⟨?_, fun v hv => ?_⟩
      · cases j with
        | object m => exact id
        | _ => exact h.1
      · by_cases hk : k' = k
        · rw [hk, member_erase_self] at hv
          simp at hv
        · rw [member_erase_of_ne hk] at hv
          exact h.2 v hv

end Json

end KappaGateway

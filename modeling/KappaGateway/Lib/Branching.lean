import KappaGateway.Lib.Json

/-!
# Trees with any number of branches

A tree is folded from its leaves to its root. Where a fold builds a JSON value at each
node and puts the values of the branches under one key, the tree can be read back from
the value, as far as each node can.
-/

namespace KappaGateway.Branching

open KeyedList

/-- A node and its branches. -/
inductive RoseTree (α : Type) where
  | node (a : α) (branches : List (RoseTree α))

variable {α β γ K : Type}

namespace RoseTree

/-- What holds of a node if it holds of its branches holds of every tree. -/
theorem induct {motive : RoseTree α → Prop}
    (h : ∀ a branches, (∀ t ∈ branches, motive t) → motive (node a branches)) (t : RoseTree α) :
    motive t := by
  apply @RoseTree.rec α motive (fun branches => ∀ t ∈ branches, motive t) h
  · exact fun t ht => absurd ht List.not_mem_nil
  · exact fun t rest ht hrest => List.forall_mem_cons.mpr ⟨ht, hrest⟩

mutual

/-- Folds a tree from its leaves. -/
def fold (f : α → List β → β) : RoseTree α → β
  | node a branches => f a (foldAll f branches)

def foldAll (f : α → List β → β) : List (RoseTree α) → List β
  | [] => []
  | t :: rest => fold f t :: foldAll f rest

end

theorem foldAll_eq (f : α → List β → β) (branches : List (RoseTree α)) :
    foldAll f branches = branches.map (fold f) := by
  induction branches with
  | nil => rfl
  | cons t rest ih => rw [foldAll, ih, List.map_cons]

theorem fold_node (f : α → List β → β) (a : α) (branches : List (RoseTree α)) :
    fold f (node a branches) = f a (branches.map (fold f)) := by
  rw [fold, foldAll_eq]

/-- Two folds at once. -/
theorem fold_pair (f : α → List β → β) (g : α → List γ → γ) (t : RoseTree α) :
    fold (fun a results => (f a (results.map Prod.fst), g a (results.map Prod.snd))) t =
      (fold f t, fold g t) := by
  induction t using induct with
  | h a branches ih =>
      rw [fold_node, fold_node, fold_node, List.map_congr_left ih, List.map_map, List.map_map]
      rfl

/-- Changes each node. -/
def map (f : α → β) : RoseTree α → RoseTree β := fold fun a branches => node (f a) branches

/-- A property of all nodes. -/
def All (p : α → Prop) : RoseTree α → Prop := fold fun a branches => p a ∧ ∀ q ∈ branches, q

theorem map_node (f : α → β) (a : α) (branches : List (RoseTree α)) :
    map f (node a branches) = node (f a) (branches.map (map f)) := fold_node _ _ _

theorem all_node (p : α → Prop) (a : α) (branches : List (RoseTree α)) :
    All p (node a branches) ↔ p a ∧ ∀ t ∈ branches, All p t := by
  rw [All, fold_node, List.forall_mem_map]

/-- A property that a tree has if its nodes have another one. -/
theorem iff_all {motive : RoseTree α → Prop} {p : α → Prop}
    (h : ∀ a branches, motive (node a branches) ↔ p a ∧ ∀ t ∈ branches, motive t) (t : RoseTree α) :
    motive t ↔ All p t := by
  induction t using induct with
  | h a branches ih =>
      rw [h, all_node]
      apply and_congr_right
      intro ha
      exact forall₂_congr ih

theorem map_eq_map_iff (f g : α → β) (t : RoseTree α) :
    map f t = map g t ↔ All (fun a => f a = g a) t := by
  apply iff_all (motive := fun t => map f t = map g t)
  intro a branches
  rw [map_node, map_node, node.injEq, List.map_inj_left]

theorem map_id (t : RoseTree α) : map id t = t := by
  induction t using induct with
  | h a branches ih =>
      rw [map_node, List.map_congr_left ih, List.map_id']
      rfl

theorem map_eq_self_iff (f : α → α) (t : RoseTree α) : map f t = t ↔ All (fun a => f a = a) t := by
  have h := map_eq_map_iff f id t
  rw [map_id] at h
  exact h

theorem all_and (p q : α → Prop) (t : RoseTree α) :
    All (fun a => p a ∧ q a) t ↔ All p t ∧ All q t := by
  induction t using induct with
  | h a branches ih =>
      rw [all_node, all_node, all_node, forall₂_congr ih]
      constructor
      · rintro ⟨⟨hp, hq⟩, hrest⟩
        exact ⟨⟨hp, fun t ht => (hrest t ht).1⟩, hq, fun t ht => (hrest t ht).2⟩
      · rintro ⟨⟨hp, hps⟩, hq, hqs⟩
        exact ⟨⟨hp, hq⟩, fun t ht => ⟨hps t ht, hqs t ht⟩⟩

end RoseTree

open RoseTree

variable [DecidableEq K]

mutual

/-- The tree of values that hang at a key. -/
def treeAt (k : K) (read : Json K → γ) : Json K → RoseTree γ
  | .object members => node (read (.object members)) (branchesAt k read members)
  | j => node (read j) []

def branchesAt (k : K) (read : Json K → γ) : List (K × Json K) → List (RoseTree γ)
  | [] => []
  | (k', j) :: rest => if k' = k then treesIn k read j else branchesAt k read rest

def treesIn (k : K) (read : Json K → γ) : Json K → List (RoseTree γ)
  | .array elements => treesOf k read elements
  | _ => []

def treesOf (k : K) (read : Json K → γ) : List (Json K) → List (RoseTree γ)
  | [] => []
  | j :: rest => treeAt k read j :: treesOf k read rest

end

section

variable {k : K} {read : Json K → γ}

theorem treesOf_eq (js : List (Json K)) : treesOf k read js = js.map (treeAt k read) := by
  induction js with
  | nil => rfl
  | cons j rest ih => rw [treesOf, ih, List.map_cons]

theorem branchesAt_of_valueAt {members : List (K × Json K)} {js : List (Json K)}
    (h : valueAt k members = some (.array js)) :
    branchesAt k read members = js.map (treeAt k read) := by
  induction members with
  | nil => exact absurd h (by simp [valueAt])
  | cons x rest ih =>
      obtain ⟨k', j⟩ := x
      rw [valueAt] at h
      rw [branchesAt]
      split
      · next heq =>
          rw [if_pos heq, Option.some_inj] at h
          rw [h, treesIn, treesOf_eq]
      · next hne =>
          rw [if_neg hne] at h
          exact ih h

theorem treeAt_of_member {j : Json K} {js : List (Json K)} (h : j.member k = some (.array js)) :
    treeAt k read j = node (read j) (js.map (treeAt k read)) := by
  cases j with
  | object members => rw [treeAt, branchesAt_of_valueAt h]
  | _ => exact absurd h (by simp [Json.member])

/-- What can be read at each node can be read of the whole tree. -/
theorem treeAt_fold {snapshot : α → List (Json K) → Json K} {f : α → γ}
    (hmember : ∀ a js, (snapshot a js).member k = some (.array js))
    (hread : ∀ a js, read (snapshot a js) = f a) (t : RoseTree α) :
    treeAt k read (t.fold snapshot) = t.map f := by
  induction t using induct with
  | h a branches ih =>
      have hbranches : branches.map (treeAt k read ∘ fold snapshot) = branches.map (map f) :=
        List.map_congr_left ih
      rw [fold_node, treeAt_of_member (hmember a _), hread, map_node, List.map_map, hbranches]

end

end KappaGateway.Branching

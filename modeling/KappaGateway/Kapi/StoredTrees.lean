import KappaGateway.Kapi.PlainTrees
import KappaGateway.Kapi.WrapperElements
import KappaGateway.Lib.RelatedLists

/-!
# Trees in memory

The plain tree that a value in memory stands for, and the cells it is made of. If
no cell is used twice, a cell has one place in the tree, and a change of the cell
changes the tree in that place only.
-/

namespace KappaGateway.Jansson

open KeyedList RefCount Kutil JsonWrapper

/-- The values in a container. -/
def Content.children : Content → List Ref
  | .array elements => elements
  | .object members => members.map Prod.snd
  | _ => []

/-- The values of a content are related to those of a tree. -/
def Content.Shows (R : Ref → Tree → Prop) : Content → Tree → Prop
  | .integer n, .integer m => n = m
  | .real a, .real b => a = b
  | .string s, .string s' => s = s'
  | .array elements, .array trees => List.Forall₂ R elements trees
  | .object members, .object trees => Related R members trees
  | _, _ => False

def readAll (read : Ref → Option Tree) : List Ref → Option (List Tree)
  | [] => some []
  | r :: rest => do
      let t ← read r
      let ts ← readAll read rest
      some (t :: ts)

/-- The tree that a value stands for, if no cell is deeper than the number says. -/
def read (h : Memory) : Nat → Ref → Option Tree
  | _, .null => some .null
  | _, .bool b => some (.bool b)
  | 0, .cell _ => none
  | n + 1, .cell a =>
      match h.contentAt a with
      | some (.integer n) => some (.integer n)
      | some (.real bits) => some (.real bits)
      | some (.string s) => some (.string s)
      | some (.array elements) => (readAll (read h n) elements).map .array
      | some (.object members) =>
          (readAll (read h n) (members.map Prod.snd)).map fun trees =>
            .object ((members.map Prod.fst).zip trees)
      | none => none

/-- The tree that a `json_t*` stands for. -/
def treeOf (h : Memory) (json : Option Ref) : Option Tree := json.bind (read h h.fresh)

/-- The cells of a value, as deep as the number says. -/
def footprint (h : Memory) : Nat → Ref → List Nat
  | n + 1, .cell a =>
      a :: (((h.contentAt a).map Content.children).getD []).flatMap (footprint h n)
  | _, r => r.cells

section

variable {h h' : Memory} {c : Content} {t u v : Tree} {r r' : Ref} {p : Slot}
  {R R' : Ref → Tree → Prop} {a n m : Nat}

theorem readAll_eq_some_iff {f : Ref → Option Tree} {rs : List Ref} {ts : List Tree} :
    readAll f rs = some ts ↔ List.Forall₂ (fun r t => f r = some t) rs ts := by
  induction rs generalizing ts with
  | nil => simp [readAll, eq_comm]
  | cons r rs ih =>
      simp only [readAll, Option.bind_eq_bind, Option.bind_eq_some_iff, Option.some.injEq]
      constructor
      · rintro ⟨t, ht, rest, hrest, rfl⟩
        exact .cons ht (ih.mp hrest)
      · rintro (_ | ⟨ht, hrest⟩)
        exact ⟨_, ht, _, ih.mpr hrest, rfl⟩

/-- Reading a cell is reading what its content has. -/
theorem read_cell_iff : read h (n + 1) (.cell a) = some t ↔
    ∃ c, h.contentAt a = some c ∧ c.Shows (fun r u => read h n r = some u) t := by
  rw [read]
  cases h.contentAt a with
  | none => simp
  | some c =>
      simp only [Option.some.injEq, exists_eq_left']
      cases c with
      | array elements =>
          cases t with
          | array trees =>
              simp only [Content.Shows, Option.map_eq_some_iff, readAll_eq_some_iff,
                Tree.array.injEq, exists_eq_right]
          | _ =>
              simp only [Content.Shows, Option.map_eq_some_iff, reduceCtorEq, and_false,
                exists_false]
      | object members =>
          cases t with
          | object trees =>
              simp only [Content.Shows, Option.map_eq_some_iff, readAll_eq_some_iff,
                Tree.object.injEq]
              exact related_iff.symm
          | _ =>
              simp only [Content.Shows, Option.map_eq_some_iff, reduceCtorEq, and_false,
                exists_false]
      | integer n => cases t <;> simp only [Content.Shows, Option.some.injEq, Tree.integer.injEq,
          reduceCtorEq]
      | real bits => cases t <;> simp only [Content.Shows, Option.some.injEq, Tree.real.injEq,
          reduceCtorEq]
      | string s => cases t <;> simp only [Content.Shows, Option.some.injEq, Tree.string.injEq,
          reduceCtorEq]

theorem Content.Shows.mono (hc : c.Shows R t)
    (himp : ∀ r ∈ c.children, ∀ v, R r v → R' r v) : c.Shows R' t := by
  cases c with
  | array elements =>
      cases t with
      | array trees => exact forall₂_mono hc himp
      | _ => exact hc
  | object members =>
      cases t with
      | object trees =>
          exact Related.mono hc fun e he v hv => himp e.2 (List.mem_map_of_mem he) v hv
      | _ => exact hc
  | _ => cases t <;> exact hc

theorem Content.Shows.exists_tree (hc : c.Shows R t) (hr : r ∈ c.children) : ∃ v, R r v := by
  cases c with
  | array elements =>
      cases t with
      | array trees => exact forall₂_exists hc hr
      | _ => exact absurd hc id
  | object members =>
      cases t with
      | object trees =>
          obtain ⟨ts, hts, -⟩ := related_iff.mp hc
          exact forall₂_exists hts hr
      | _ => exact absurd hc id
  | _ => cases hr

/-! ### Depth -/

theorem read_succ_of_read (hread : read h n r = some t) : read h (n + 1) r = some t := by
  induction n generalizing r t with
  | zero =>
      cases r with
      | cell a => cases hread
      | _ => exact hread
  | succ n ih =>
      cases r with
      | cell a =>
          obtain ⟨c, hc, hshows⟩ := read_cell_iff.mp hread
          exact read_cell_iff.mpr ⟨c, hc, hshows.mono fun r _ v hv => ih hv⟩
      | _ => exact hread

theorem read_mono (hread : read h n r = some t) (hle : n ≤ m) : read h m r = some t := by
  induction hle with
  | refl => exact hread
  | step _ ih => exact read_succ_of_read ih

theorem footprint_cell (hc : h.contentAt a = some c) :
    footprint h (n + 1) (.cell a) = a :: c.children.flatMap (footprint h n) := by
  rw [footprint, hc]
  rfl

theorem footprint_succ_of_read (hread : read h n r = some t) :
    footprint h (n + 1) r = footprint h n r := by
  induction n generalizing r t with
  | zero =>
      cases r with
      | cell a => cases hread
      | _ => rfl
  | succ n ih =>
      cases r with
      | cell a =>
          obtain ⟨c, hc, hshows⟩ := read_cell_iff.mp hread
          rw [footprint_cell hc, footprint_cell hc]
          congr 1
          apply List.flatMap_congr
          intro r hr
          obtain ⟨v, hv⟩ := hshows.exists_tree hr
          exact ih hv
      | _ => rfl

theorem footprint_mono (hread : read h n r = some t) (hle : n ≤ m) :
    footprint h m r = footprint h n r := by
  induction hle with
  | refl => rfl
  | step hle ih => rw [footprint_succ_of_read (read_mono hread hle), ih]

theorem allocated_of_mem_footprint (hread : read h n r = some t) {b : Nat}
    (hb : b ∈ footprint h n r) : (h.contentAt b).isSome := by
  induction n generalizing r t with
  | zero =>
      cases r with
      | cell a => cases hread
      | _ => cases hb
  | succ n ih =>
      cases r with
      | cell a =>
          obtain ⟨c, hc, hshows⟩ := read_cell_iff.mp hread
          rw [footprint_cell hc] at hb
          rcases List.mem_cons.mp hb with rfl | hb
          · rw [hc, Option.isSome_some]
          · obtain ⟨r, hr, hb⟩ := List.mem_flatMap.mp hb
            obtain ⟨v, hv⟩ := hshows.exists_tree hr
            exact ih hv hb
      | _ => cases hb

/-- What happens outside of the cells of a value does not matter. -/
theorem read_frame (hsame : ∀ b ∈ footprint h n r, h'.contentAt b = h.contentAt b)
    (hread : read h n r = some t) :
    read h' n r = some t ∧ footprint h' n r = footprint h n r := by
  induction n generalizing r t with
  | zero =>
      cases r with
      | cell a => cases hread
      | _ => exact ⟨hread, rfl⟩
  | succ n ih =>
      cases r with
      | cell a =>
          obtain ⟨c, hc, hshows⟩ := read_cell_iff.mp hread
          rw [footprint_cell hc, List.forall_mem_cons] at hsame
          have hc' : h'.contentAt a = some c := by rw [hsame.1, hc]
          have hchild : ∀ r ∈ c.children, ∀ b ∈ footprint h n r, h'.contentAt b = h.contentAt b :=
            fun r hr b hb => hsame.2 b (List.mem_flatMap.mpr ⟨r, hr, hb⟩)
          constructor
          · exact read_cell_iff.mpr ⟨c, hc', hshows.mono fun r hr v hv => (ih (hchild r hr) hv).1⟩
          · rw [footprint_cell hc, footprint_cell hc']
            congr 1
            apply List.flatMap_congr
            intro r hr
            obtain ⟨v, hv⟩ := hshows.exists_tree hr
            exact (ih (hchild r hr) hv).2
      | _ => exact ⟨hread, rfl⟩

theorem read_of_extends (he : Extends h h') (hread : read h n r = some t) :
    read h' n r = some t ∧ footprint h' n r = footprint h n r := by
  apply read_frame _ hread
  intro b hb
  obtain ⟨c, hc⟩ := Option.isSome_iff_exists.mp (allocated_of_mem_footprint hread hb)
  rw [hc, he b c hc]

/-! ### Places -/

/-- A place among the values of a container, and the values in the other places. -/
theorem Content.exists_split (hat : c.at p.1 p.2 = some r) :
    ∃ l₁ l₂, c.children = l₁ ++ r :: l₂ ∧ (c.remove p.1 p.2).children = l₁ ++ l₂ ∧
      (∀ r', (c.set p.1 p.2 r').children = l₁ ++ r' :: l₂) ∧
      ∀ q r', c.at q.1 q.2 = some r' → q ≠ p → r' ∈ l₁ ++ l₂ := by
  obtain ⟨key, index⟩ := p
  cases c with
  | object members =>
      cases index with
      | succ index => cases hat
      | zero =>
          obtain ⟨m₁, m₂, hmembers, herase, halter⟩ := exists_append_of_valueAt hat
          refine ⟨m₁.map Prod.snd, m₂.map Prod.snd, ?_, ?_, fun r' => ?_, ?_⟩
          · simp [children, hmembers]
          · simp only [Content.remove, children, herase, List.map_append]
          · simp only [Content.set, children, halter, List.map_append, List.map_cons]
          · rintro ⟨key', index'⟩ r' hat' hne
            cases index' with
            | succ index' => cases hat'
            | zero =>
                have hkey : key' ≠ key := fun heq => hne (by rw [heq])
                have hmem := mem_of_valueAt ((valueAt_eraseP_of_ne hkey members).trans hat')
                rw [herase] at hmem
                rw [← List.map_append]
                exact List.mem_map_of_mem (f := Prod.snd) hmem
  | array elements =>
      cases key with
      | cons k key => cases hat
      | nil =>
          obtain ⟨hindex, hr⟩ := List.getElem?_eq_some_iff.mp hat
          refine ⟨elements.take index, elements.drop (index + 1), ?_, ?_, fun r' => ?_, ?_⟩
          · rw [children, ← hr, List.getElem_cons_drop, List.take_append_drop]
          · exact List.eraseIdx_eq_take_drop_succ elements index
          · exact List.set_eq_take_append_cons_drop.trans (if_pos hindex)
          · rintro ⟨key', index'⟩ r' hat' hne
            cases key' with
            | cons k key' => cases hat'
            | nil =>
                have hat'' : elements[index']? = some r' := hat'
                rw [← List.eraseIdx_eq_take_drop_succ]
                apply List.mem_eraseIdx_iff_getElem?.mpr
                exact ⟨index', fun heq => hne (by rw [heq]), hat''⟩
  | _ => cases hat

theorem children_remove (c : Content) (p : Slot) :
    (c.remove p.1 p.2).children.Sublist c.children := by
  cases c with
  | object members => exact List.eraseP_sublist.map Prod.snd
  | array elements => exact List.eraseIdx_sublist elements p.2
  | _ => exact List.Sublist.refl _

/-- The same places exist, with related values. -/
theorem Content.Shows.at (hc : c.Shows R t) (p : Slot) : Option.Rel R (c.at p.1 p.2) (t.at p) := by
  obtain ⟨key, index⟩ := p
  cases c with
  | object members =>
      cases t with
      | object trees =>
          cases index with
          | zero => exact Related.valueAt hc key
          | succ index => exact .none
      | _ => exact absurd hc id
  | array elements =>
      cases t with
      | array trees =>
          cases key with
          | nil => exact forall₂_getElem? hc index
          | cons k key => exact .none
      | _ => exact absurd hc id
  | _ =>
      cases t with
      | null | bool b | array trees | object trees => exact absurd hc id
      | _ => exact .none

theorem Content.Shows.remove (hc : c.Shows R t) (p : Slot) :
    (c.remove p.1 p.2).Shows R (t.remove p) := by
  cases c with
  | object members =>
      cases t with
      | object trees => exact Related.eraseP hc p.1
      | _ => exact hc
  | array elements =>
      cases t with
      | array trees => exact forall₂_eraseIdx hc p.2
      | _ => exact hc
  | _ =>
      cases t with
      | array trees | object trees => exact absurd hc id
      | _ => exact hc

theorem Content.Shows.set (hc : c.Shows R t) (hat : c.at p.1 p.2 = some r)
    (himp : ∀ r ∈ (c.remove p.1 p.2).children, ∀ v, R r v → R' r v) (hv : R' r' v) :
    (c.set p.1 p.2 r').Shows R' (t.set p v) := by
  obtain ⟨key, index⟩ := p
  cases c with
  | object members =>
      cases t with
      | object trees =>
          cases index with
          | zero =>
              exact Related.alter hc (fun e he w hw => himp e.2 (List.mem_map_of_mem he) w hw)
                (f := fun _ => r') (g := fun _ => v) hv
          | succ index => cases hat
      | _ => exact absurd hc id
  | array elements =>
      cases t with
      | array trees =>
          cases key with
          | nil => exact forall₂_set hc himp hv
          | cons k key => cases hat
      | _ => exact absurd hc id
  | _ => cases hat

theorem Content.Shows.grow (hc : c.Shows R t) (hnull : R .null .null) (p : Slot) :
    (JsonWrapper.grow c p.1 p.2).Shows R (t.grow p) := by
  obtain ⟨key, index⟩ := p
  cases c with
  | object members =>
      cases t with
      | object trees =>
          cases index with
          | succ index => exact hc
          | zero =>
              have hvalue := Related.valueAt hc key
              simp only [JsonWrapper.grow, Tree.grow, Content.Shows]
              cases hmembers : KeyedList.valueAt key members with
              | none =>
                  rw [hmembers] at hvalue
                  cases htrees : KeyedList.valueAt key trees with
                  | none => exact Related.alter hc (fun _ _ _ hw => hw) hnull
                  | some v =>
                      rw [htrees] at hvalue
                      cases hvalue
              | some r =>
                  rw [hmembers] at hvalue
                  cases htrees : KeyedList.valueAt key trees with
                  | none =>
                      rw [htrees] at hvalue
                      cases hvalue
                  | some v => exact hc
      | _ => exact absurd hc id
  | array elements =>
      cases t with
      | array trees =>
          cases key with
          | cons k key => exact hc
          | nil =>
              have hlength := List.Forall₂.length_eq hc
              simp only [JsonWrapper.grow, Tree.grow, Content.Shows, hlength]
              apply List.rel_append hc
              exact forall₂_replicate hnull _
      | _ => exact absurd hc id
  | _ =>
      cases t with
      | array trees | object trees => exact absurd hc id
      | _ => exact hc

theorem Content.Shows.type (hc : c.Shows R t) : t.type = c.type := by
  cases c <;> cases t <;> first | rfl | exact absurd hc id

/-! ### Paths -/

/-- The value at a path. -/
def follow (h : Memory) : List Slot → Ref → Option Ref
  | [], r => some r
  | p :: path, r => (slotIn h (some r) p.1 p.2).bind (follow h path)

variable {path path' : List Slot}

theorem follow_append (h : Memory) (path rest : List Slot) (r : Ref) :
    follow h (path ++ rest) r = (follow h path r).bind (follow h rest) := by
  induction path generalizing r with
  | nil => rfl
  | cons p path ih =>
      rw [List.cons_append, follow, follow, Option.bind_assoc]
      exact Option.bind_congr fun r _ => ih r

theorem slotIn_cell (hc : h.contentAt a = some c) (p : Slot) :
    slotIn h (some (.cell a)) p.1 p.2 = c.at p.1 p.2 := by
  rw [slotIn, hc, Option.bind_some]

/-- A value in a container: its tree is in the tree of the container, and its cells
are apart from those of the other values. -/
theorem read_child (hread : read h (n + 1) (.cell a) = some t) (hc : h.contentAt a = some c)
    (hat : c.at p.1 p.2 = some r) :
    ∃ v l₁ l₂, t.at p = some v ∧ read h n r = some v ∧ c.children = l₁ ++ r :: l₂ ∧
      (c.remove p.1 p.2).children = l₁ ++ l₂ ∧
      (∀ r', (c.set p.1 p.2 r').children = l₁ ++ r' :: l₂) ∧
      footprint h (n + 1) (.cell a) =
        a :: (l₁.flatMap (footprint h n) ++ (footprint h n r ++ l₂.flatMap (footprint h n))) ∧
      ∀ q r', c.at q.1 q.2 = some r' → q ≠ p → r' ∈ l₁ ++ l₂ := by
  obtain ⟨c', hc', hshows⟩ := read_cell_iff.mp hread
  obtain rfl := Option.some.inj (hc.symm.trans hc')
  obtain ⟨l₁, l₂, hchildren, hremove, hset, hother⟩ := Content.exists_split hat
  have hrel := hshows.at p
  rw [hat] at hrel
  cases htree : t.at p with
  | none =>
      rw [htree] at hrel
      cases hrel
  | some v =>
      rw [htree] at hrel
      obtain ⟨hv⟩ := hrel
      refine ⟨v, l₁, l₂, rfl, hv, hchildren, hremove, hset, ?_, hother⟩
      rw [footprint_cell hc, hchildren, List.flatMap_append, List.flatMap_cons]

/-- Following a path in memory is looking along it in the tree. -/
theorem read_follow (hread : read h n r = some t) (hfollow : follow h path r = some r') :
    ∃ v, Tree.look path t = some v ∧ read h n r' = some v ∧
      footprint h n r' ⊆ footprint h n r := by
  induction path generalizing n r t with
  | nil =>
      obtain rfl := Option.some.inj hfollow
      exact ⟨t, rfl, hread, List.Subset.refl _⟩
  | cons p path ih =>
      obtain ⟨r₁, hslot, hrest⟩ := Option.bind_eq_some_iff.mp hfollow
      obtain ⟨a, c, hcell, hc, hat⟩ := exists_of_slotIn hslot
      obtain rfl := Option.some.inj hcell
      cases n with
      | zero => cases hread
      | succ n =>
          obtain ⟨u, l₁, l₂, htree, hu, -, -, -, hfoot, -⟩ := read_child hread hc hat
          obtain ⟨v, hlook, hv, hsub⟩ := ih hu hrest
          refine ⟨v, ?_, read_succ_of_read hv, fun b hb => ?_⟩
          · rw [Tree.look, htree, Option.bind_some, hlook]
          · rw [footprint_succ_of_read hv] at hb
            rw [hfoot]
            have hmem := hsub hb
            simp [hmem]

theorem self_mem_footprint (hread : read h n (.cell a) = some t) :
    a ∈ footprint h n (.cell a) := by
  cases n with
  | zero => cases hread
  | succ n =>
      obtain ⟨c, hc, -⟩ := read_cell_iff.mp hread
      rw [footprint_cell hc]
      exact List.mem_cons_self

theorem nodup_of_follow (hread : read h n r = some t) (hnodup : (footprint h n r).Nodup)
    (hfollow : follow h path r = some r') : (footprint h n r').Nodup := by
  induction path generalizing n r t with
  | nil =>
      obtain rfl := Option.some.inj hfollow
      exact hnodup
  | cons p path ih =>
      obtain ⟨r₁, hslot, hrest⟩ := Option.bind_eq_some_iff.mp hfollow
      obtain ⟨a, c, hcell, hc, hat⟩ := exists_of_slotIn hslot
      obtain rfl := Option.some.inj hcell
      cases n with
      | zero => cases hread
      | succ n =>
          obtain ⟨u, l₁, l₂, -, hu, -, -, -, hfoot, -⟩ := read_child hread hc hat
          obtain ⟨v, -, hv, -⟩ := read_follow hu hrest
          rw [hfoot, List.nodup_cons, List.nodup_append, List.nodup_append] at hnodup
          rw [footprint_succ_of_read hv]
          exact ih hu hnodup.2.2.1.1 hrest

/-- If no cell is used twice, a cell has one path. -/
theorem follow_injective (hread : read h n r = some t) (hnodup : (footprint h n r).Nodup)
    (hfollow : follow h path r = some (.cell a)) (hfollow' : follow h path' r = some (.cell a)) :
    path = path' := by
  have hbelow : ∀ {m : Nat} {r : Ref} {t : Tree} {path : List Slot}, read h m r = some t →
      follow h path r = some (.cell a) → a ∈ footprint h m r := by
    intro m r t path hread hfollow
    obtain ⟨v, -, hv, hsub⟩ := read_follow hread hfollow
    exact hsub (self_mem_footprint hv)
  have hinside : ∀ {m : Nat} {t : Tree} {p : Slot} {path : List Slot},
      read h m (.cell a) = some t → (footprint h m (.cell a)).Nodup →
      follow h (p :: path) (.cell a) ≠ some (.cell a) := by
    intro m t p path hread hnodup hfollow
    obtain ⟨r₁, hslot, hrest⟩ := Option.bind_eq_some_iff.mp hfollow
    obtain ⟨b, c, hcell, hc, hat⟩ := exists_of_slotIn hslot
    obtain rfl : a = b := by simpa using hcell
    cases m with
    | zero => cases hread
    | succ m =>
        obtain ⟨u, l₁, l₂, -, hu, -, -, -, hfoot, -⟩ := read_child hread hc hat
        have hmem := hbelow hu hrest
        rw [hfoot, List.nodup_cons] at hnodup
        exact hnodup.1 (by simp [hmem])
  induction path generalizing n r t path' with
  | nil =>
      obtain rfl := Option.some.inj hfollow
      cases path' with
      | nil => rfl
      | cons p path' => exact absurd hfollow' (hinside hread hnodup)
  | cons p path ih =>
      cases path' with
      | nil =>
          obtain rfl := Option.some.inj hfollow'
          exact absurd hfollow (hinside hread hnodup)
      | cons p' path' =>
          obtain ⟨r₁, hslot, hrest⟩ := Option.bind_eq_some_iff.mp hfollow
          obtain ⟨r₁', hslot', hrest'⟩ := Option.bind_eq_some_iff.mp hfollow'
          obtain ⟨b, c, hcell, hc, hat⟩ := exists_of_slotIn hslot
          obtain rfl := Option.some.inj hcell
          rw [slotIn_cell hc] at hslot'
          cases n with
          | zero => cases hread
          | succ n =>
              obtain ⟨u, l₁, l₂, -, hu, -, -, -, hfoot, hother⟩ := read_child hread hc hat
              rw [hfoot, List.nodup_cons, List.nodup_append, List.nodup_append] at hnodup
              by_cases hp : p' = p
              · subst hp
                obtain rfl := Option.some.inj (hat.symm.trans hslot')
                rw [ih hu hnodup.2.2.1.1 hrest hrest']
              · obtain ⟨u', -, -, -, hu', -⟩ := read_child hread hc hslot'
                have hmem := hbelow hu hrest
                have hmem' := hbelow hu' hrest'
                exfalso
                rcases List.mem_append.mp (hother p' r₁' hslot' hp) with hr | hr
                · exact hnodup.2.2.2 a (List.mem_flatMap.mpr ⟨r₁', hr, hmem'⟩) a
                    (List.mem_append_left _ hmem) rfl
                · exact hnodup.2.2.1.2.2 a hmem a (List.mem_flatMap.mpr ⟨r₁', hr, hmem'⟩) rfl

/-! ### What the readers of a value see -/

theorem type_of_read (hread : read h n r = some t) : json_typeof h r = t.type := by
  cases r with
  | null =>
      obtain rfl : t = .null := by cases n <;> exact (Option.some.inj hread).symm
      rfl
  | bool b =>
      obtain rfl : t = .bool b := by cases n <;> exact (Option.some.inj hread).symm
      rfl
  | cell a =>
      cases n with
      | zero => cases hread
      | succ n =>
          obtain ⟨c, hc, hshows⟩ := read_cell_iff.mp hread
          rw [json_typeof, hc, hshows.type]
          rfl

theorem exists_cell (hread : read h n r = some t)
    (htype : t.type ∈ [JSONType.array, .object, .string, .integer]) :
    ∃ a c m, r = .cell a ∧ h.contentAt a = some c ∧ c.Shows (fun r u => read h m r = some u) t := by
  cases r with
  | null =>
      obtain rfl : t = .null := by cases n <;> exact (Option.some.inj hread).symm
      simp [Tree.type] at htype
  | bool b =>
      obtain rfl : t = .bool b := by cases n <;> exact (Option.some.inj hread).symm
      cases b <;> simp [Tree.type] at htype
  | cell a =>
      cases n with
      | zero => cases hread
      | succ n =>
          obtain ⟨c, hc, hshows⟩ := read_cell_iff.mp hread
          exact ⟨a, c, n, rfl, hc, hshows⟩

theorem read_string {s : Text} (hread : read h n r = some (.string s)) :
    ∃ a, r = .cell a ∧ h.contentAt a = some (.string s) := by
  obtain ⟨a, c, m, hr, hc, hshows⟩ := exists_cell hread (by simp [Tree.type])
  cases c with
  | string s' =>
      obtain rfl : s' = s := hshows
      exact ⟨a, hr, hc⟩
  | _ => exact absurd hshows id

theorem read_integer {i : Int} (hread : read h n r = some (.integer i)) :
    ∃ a, r = .cell a ∧ h.contentAt a = some (.integer i) := by
  obtain ⟨a, c, m, hr, hc, hshows⟩ := exists_cell hread (by simp [Tree.type])
  cases c with
  | integer i' =>
      obtain rfl : i' = i := hshows
      exact ⟨a, hr, hc⟩
  | _ => exact absurd hshows id

theorem read_array {trees : List Tree} (hread : read h n r = some (.array trees)) :
    ∃ a elements m, r = .cell a ∧ h.contentAt a = some (.array elements) ∧
      List.Forall₂ (fun r u => read h m r = some u) elements trees := by
  obtain ⟨a, c, m, hr, hc, hshows⟩ := exists_cell hread (by simp [Tree.type])
  cases c with
  | array elements => exact ⟨a, elements, m, hr, hc, hshows⟩
  | _ => exact absurd hshows id

theorem read_object {trees : List (Text × Tree)} (hread : read h n r = some (.object trees)) :
    ∃ a members m, r = .cell a ∧ h.contentAt a = some (.object members) ∧
      Related (fun r u => read h m r = some u) members trees := by
  obtain ⟨a, c, m, hr, hc, hshows⟩ := exists_cell hread (by simp [Tree.type])
  cases c with
  | object members => exact ⟨a, members, m, hr, hc, hshows⟩
  | _ => exact absurd hshows id

/-! ### Changing a cell -/

theorem set_at_self (hat : c.at p.1 p.2 = some r) : c.set p.1 p.2 r = c := by
  obtain ⟨key, index⟩ := p
  cases c with
  | object members =>
      cases index with
      | zero => exact congrArg Content.object ((alter_eq_self_iff key _ members).mpr ⟨r, hat, rfl⟩)
      | succ index => cases hat
  | array elements =>
      cases key with
      | nil =>
          obtain ⟨hindex, rfl⟩ := List.getElem?_eq_some_iff.mp hat
          exact congrArg Content.array (List.set_getElem_self hindex)
      | cons k key => cases hat
  | _ => cases hat

/-- The value in one place of a container is replaced. -/
theorem read_set_child (hread : read h (n + 1) (.cell a) = some t)
    (hnodup : (footprint h (n + 1) (.cell a)).Nodup) (hc : h.contentAt a = some c)
    (hat : c.at p.1 p.2 = some r) (hc' : h'.contentAt a = some (c.set p.1 p.2 r'))
    (hrest : ∀ b d, b ≠ a → b ∉ footprint h n r → h.contentAt b = some d →
      h'.contentAt b = some d)
    (hread' : read h' m r' = some v) (hnodup' : (footprint h' m r').Nodup)
    (hold : ∀ b ∈ footprint h' m r', (h.contentAt b).isSome → b ∈ footprint h n r) :
    ∃ k, read h' k (.cell a) = some (t.set p v) ∧ (footprint h' k (.cell a)).Nodup ∧
      ∀ b ∈ footprint h' k (.cell a), (h.contentAt b).isSome → b ∈ footprint h (n + 1) (.cell a) := by
  obtain ⟨u, l₁, l₂, -, hu, hchildren, hremove, hset, hfoot, -⟩ := read_child hread hc hat
  obtain ⟨d, hd, hshows⟩ := read_cell_iff.mp hread
  obtain rfl := Option.some.inj (hc.symm.trans hd)
  rw [hfoot] at hnodup
  -- The other values keep their trees and their cells.
  have hkept : ∀ r₁ ∈ l₁ ++ l₂, ∀ w, read h n r₁ = some w →
      read h' (max n m) r₁ = some w ∧ footprint h' (max n m) r₁ = footprint h n r₁ := by
    intro r₁ hr₁ w hw
    have hsame : ∀ b ∈ footprint h n r₁, h'.contentAt b = h.contentAt b := by
      intro b hb
      obtain ⟨e, he⟩ := Option.isSome_iff_exists.mp (allocated_of_mem_footprint hw hb)
      obtain ⟨hba, hbr⟩ := apart_of_nodup hnodup hr₁ hb
      rw [he, hrest b e hba hbr he]
    obtain ⟨hw', hfoot'⟩ := read_frame hsame hw
    exact ⟨read_mono hw' (Nat.le_max_left n m),
      (footprint_mono hw' (Nat.le_max_left n m)).trans hfoot'⟩
  have hkeptAll : ∀ {l : List Ref}, (∀ r₁ ∈ l, r₁ ∈ l₁ ++ l₂) →
      l.flatMap (footprint h' (max n m)) = l.flatMap (footprint h n) := by
    intro l hl
    apply List.flatMap_congr
    intro r₁ hr₁
    have hmem : r₁ ∈ c.children := by
      rw [hchildren]
      rcases List.mem_append.mp (hl r₁ hr₁) with hl₁ | hl₂
      · exact List.mem_append_left _ hl₁
      · exact List.mem_append_right _ (List.mem_cons_of_mem _ hl₂)
    obtain ⟨w, hw⟩ := hshows.exists_tree hmem
    exact (hkept r₁ (hl r₁ hr₁) w hw).2
  have hfoot' : footprint h' (max n m + 1) (.cell a) =
      a :: (l₁.flatMap (footprint h n) ++ (footprint h' m r' ++ l₂.flatMap (footprint h n))) := by
    rw [footprint_cell hc', hset, List.flatMap_append, List.flatMap_cons,
      hkeptAll fun r₁ hr₁ => List.mem_append_left l₂ hr₁,
      hkeptAll fun r₁ hr₁ => List.mem_append_right l₁ hr₁,
      footprint_mono hread' (Nat.le_max_right n m)]
  have hallocated : ∀ b ∈ footprint h (n + 1) (.cell a), (h.contentAt b).isSome :=
    fun b hb => allocated_of_mem_footprint hread hb
  rw [hfoot] at hallocated
  refine ⟨max n m + 1, ?_, ?_, ?_⟩
  · apply read_cell_iff.mpr
    refine ⟨_, hc', hshows.set hat (fun r₁ hr₁ w hw => (hkept r₁ (hremove ▸ hr₁) w hw).1) ?_⟩
    exact read_mono hread' (Nat.le_max_right n m)
  · rw [hfoot', ← List.cons_append]
    rw [← List.cons_append] at hnodup
    apply nodup_replace_middle hnodup hnodup'
    intro b hb hmem
    apply hold b hb (hallocated b _)
    simp only [List.mem_cons, List.mem_append, List.cons_append] at hmem ⊢
    rcases hmem with hba | hl₁ | hl₂
    · exact Or.inl hba
    · exact Or.inr (Or.inl hl₁)
    · exact Or.inr (Or.inr (Or.inr hl₂))
  · rw [hfoot', hfoot]
    intro b hb hsome
    simp only [List.mem_cons, List.mem_append] at hb ⊢
    rcases hb with hba | hl₁ | hm | hl₂
    · exact Or.inl hba
    · exact Or.inr (Or.inl hl₁)
    · exact Or.inr (Or.inr (Or.inl (hold b hm hsome)))
    · exact Or.inr (Or.inr (Or.inr hl₂))

/-- A cell gets a new content, made of its old cells and of new ones: the tree
changes at the path of the cell. -/
theorem read_put (hread : read h n r = some t) (hnodup : (footprint h n r).Nodup)
    (hfollow : follow h path r = some (.cell a))
    (hrest : ∀ b c, b ≠ a → h.contentAt b = some c → h'.contentAt b = some c)
    (hread' : read h' m (.cell a) = some v) (hnodup' : (footprint h' m (.cell a)).Nodup)
    (hold : ∀ b ∈ footprint h' m (.cell a), (h.contentAt b).isSome →
      b ∈ footprint h n (.cell a)) :
    ∃ k, read h' k r = some (Tree.put v path t) ∧ (footprint h' k r).Nodup ∧
      ∀ b ∈ footprint h' k r, (h.contentAt b).isSome → b ∈ footprint h n r := by
  induction path generalizing n r t with
  | nil =>
      obtain rfl := Option.some.inj hfollow
      exact ⟨m, hread', hnodup', hold⟩
  | cons p path ih =>
      obtain ⟨r₁, hslot, hpath⟩ := Option.bind_eq_some_iff.mp hfollow
      obtain ⟨b, c, hcell, hc, hat⟩ := exists_of_slotIn hslot
      obtain rfl := Option.some.inj hcell
      cases n with
      | zero => cases hread
      | succ n =>
          obtain ⟨u, l₁, l₂, htree, hu, -, -, -, hfoot, -⟩ := read_child hread hc hat
          obtain ⟨w, -, hw, hsub⟩ := read_follow hu hpath
          rw [footprint_succ_of_read hw] at hold
          have ha : a ∈ footprint h n r₁ := hsub (self_mem_footprint hw)
          have hparts := hnodup
          rw [hfoot, List.nodup_cons, List.nodup_append, List.nodup_append] at hparts
          obtain ⟨k, hk, hknodup, hkold⟩ := ih hu hparts.2.2.1.1 hpath hold
          have hba : b ≠ a := by
            rintro rfl
            exact hparts.1 (by simp [ha])
          rw [Tree.put, htree]
          apply read_set_child hread hnodup hc hat _ _ hk hknodup hkold
          · rw [set_at_self hat]
            exact hrest b c hba hc
          · intro d e hdb hd he
            exact hrest d e (fun hda => hd (hda ▸ ha)) he

/-- A cell keeps some of its values, and gets uncounted ones. -/
theorem read_rewrite {f : Tree → Tree} (hread : read h n r = some t)
    (hnodup : (footprint h n r).Nodup) (hfollow : follow h path r = some (.cell a))
    {c' : Content} (hc : h.contentAt a = some c)
    (hwrite : ∀ b, h'.contentAt b = if a = b then some c' else h.contentAt b)
    (hshows : ∀ m u, c.Shows (fun r u => read h m r = some u) u →
      c'.Shows (fun r u => read h m r = some u) (f u))
    (hsub : ∀ m, (c'.children.flatMap (footprint h m)).Sublist
      (c.children.flatMap (footprint h m))) :
    ∃ v k, Tree.look path t = some v ∧ read h' k r = some (Tree.put (f v) path t) ∧
      (footprint h' k r).Nodup ∧
      ∀ b ∈ footprint h' k r, (h.contentAt b).isSome → b ∈ footprint h n r := by
  have hc' : h'.contentAt a = some c' := by rw [hwrite, if_pos rfl]
  have hrest : ∀ b d, b ≠ a → h.contentAt b = some d → h'.contentAt b = some d := by
    intro b d hb hd
    rw [hwrite, if_neg (Ne.symm hb), hd]
  obtain ⟨v, hlook, hv, -⟩ := read_follow hread hfollow
  have hcells := nodup_of_follow hread hnodup hfollow
  cases n with
  | zero => cases hv
  | succ n =>
      obtain ⟨d, hd, hv'⟩ := read_cell_iff.mp hv
      obtain rfl := Option.some.inj (hc.symm.trans hd)
      rw [footprint_cell hc, List.nodup_cons] at hcells
      have hkept : ∀ r₁ ∈ c'.children, ∀ u, read h n r₁ = some u →
          read h' n r₁ = some u ∧ footprint h' n r₁ = footprint h n r₁ := by
        intro r₁ hr₁ u hu
        apply read_frame _ hu
        intro b hb
        obtain ⟨e, he⟩ := Option.isSome_iff_exists.mp (allocated_of_mem_footprint hu hb)
        rw [he, hrest b e _ he]
        rintro rfl
        exact hcells.1 ((hsub n).subset (List.mem_flatMap.mpr ⟨r₁, hr₁, hb⟩))
      have hshown := hshows n v hv'
      have hfoot : footprint h' (n + 1) (.cell a) = a :: c'.children.flatMap (footprint h n) := by
        rw [footprint_cell hc']
        congr 1
        apply List.flatMap_congr
        intro r₁ hr₁
        obtain ⟨u, hu⟩ := hshown.exists_tree hr₁
        exact (hkept r₁ hr₁ u hu).2
      have hread' : read h' (n + 1) (.cell a) = some (f v) :=
        read_cell_iff.mpr ⟨c', hc', hshown.mono fun r₁ hr₁ u hu => (hkept r₁ hr₁ u hu).1⟩
      obtain ⟨k, hk⟩ := read_put hread hnodup hfollow hrest hread' (by
          rw [hfoot, List.nodup_cons]
          exact ⟨fun hmem => hcells.1 ((hsub n).subset hmem), hcells.2.sublist (hsub n)⟩) (by
          intro b hb _
          rw [hfoot] at hb
          rw [footprint_cell hc]
          exact List.cons_subset_cons a (hsub n).subset hb)
      exact ⟨v, k, hlook, hk⟩

/-- The value in a place of a container is replaced by a new one. -/
theorem read_put_child (hread : read h n r = some t) (hnodup : (footprint h n r).Nodup)
    (hfollow : follow h path r = some (.cell a)) (hc : h.contentAt a = some c)
    {old : Ref} (hat : c.at p.1 p.2 = some old) (hc' : h'.contentAt a = some (c.set p.1 p.2 r'))
    (hrest : ∀ b d, b ≠ a → h.contentAt b = some d → h'.contentAt b = some d)
    (hread' : read h' m r' = some v) (hnodup' : (footprint h' m r').Nodup)
    (hnew : ∀ b ∈ footprint h' m r', h.contentAt b = none) :
    ∃ k, read h' k r = some (Tree.put v (path ++ [p]) t) ∧ (footprint h' k r).Nodup ∧
      ∀ b ∈ footprint h' k r, (h.contentAt b).isSome → b ∈ footprint h n r := by
  obtain ⟨u, hlook, hu, -⟩ := read_follow hread hfollow
  have hcells := nodup_of_follow hread hnodup hfollow
  cases n with
  | zero => cases hu
  | succ n =>
      obtain ⟨w, l₁, l₂, htree, -⟩ := read_child hu hc hat
      obtain ⟨k, hk, hknodup, hkold⟩ := read_set_child hu hcells hc hat hc'
        (fun b d hb _ hd => hrest b d hb hd) hread' hnodup' (fun b hb hsome => by
          rw [hnew b hb] at hsome
          cases hsome)
      rw [Tree.put_append hlook, Tree.put, htree]
      exact read_put hread hnodup hfollow hrest hk hknodup hkold

/-! ### How deep a value is -/

theorem read_length (hread : read h n r = some t) :
    read h (footprint h n r).length r = some t := by
  induction n generalizing r t with
  | zero =>
      cases r with
      | cell a => cases hread
      | _ => exact hread
  | succ n ih =>
      cases r with
      | cell a =>
          obtain ⟨c, hc, hshows⟩ := read_cell_iff.mp hread
          rw [footprint_cell hc, List.length_cons]
          refine read_cell_iff.mpr ⟨c, hc, hshows.mono fun r hr v hv => ?_⟩
          apply read_mono (ih hv)
          obtain ⟨l₁, l₂, hchildren⟩ := List.append_of_mem hr
          simp only [hchildren, List.flatMap_append, List.flatMap_cons, List.length_append]
          omega
      | _ => exact hread

/-- A value that uses no cell twice is not deeper than the number of all cells. -/
theorem treeOf_of_read (hread : read h n r = some t) (hnodup : (footprint h n r).Nodup) :
    treeOf h (some r) = some t := by
  apply read_mono (read_length hread)
  have hsub : footprint h n r ⊆ List.range h.fresh := by
    intro b hb
    obtain ⟨c, hc⟩ := Option.isSome_iff_exists.mp (allocated_of_mem_footprint hread hb)
    exact List.mem_range.mpr (Heap.lt_fresh_of_contentAt hc)
  have hle := (List.subperm_of_subset hnodup hsub).length_le
  rwa [List.length_range] at hle

end

end KappaGateway.Jansson

import KappaGateway.Kapi.FreshValues
import KappaGateway.Kapi.StoredTrees

/-!
# New trees in memory

Loading a text gives the tree of the text, and copying a value gives its tree
again, in new cells. A value that uses no cell twice has a copy.
-/

namespace KappaGateway.Jansson

open KeyedList RefCount Kutil JsonWrapper

/-- Some values stand for some trees, and are made of different new cells. -/
def NewTrees (h h' : Memory) (rs : List Ref) (ts : List Tree) : Prop :=
  ∃ n, List.Forall₂ (fun r t => read h' n r = some t) rs ts ∧
    (rs.flatMap (footprint h' n)).Nodup ∧ ∀ b ∈ rs.flatMap (footprint h' n), h.fresh ≤ b

namespace NewTrees

variable {h h₁ h' : Memory} {r : Ref} {t : Tree} {rs : List Ref} {ts : List Tree} {c : Content}

theorem nil (h : Memory) : NewTrees h h [] [] := ⟨0, .nil, List.nodup_nil, by simp⟩

theorem const (hread : read h 0 r = some t) : NewTrees h h [r] [t] := by
  have hnone : footprint h 0 r = [] := by
    cases r with
    | cell a => cases hread
    | _ => rfl
  exact ⟨0, .cons hread .nil, by simp [hnone], by simp [hnone]⟩

/-- What is newer than some cells is newer than the older of them. -/
theorem of_fresh_le (hnew : NewTrees h₁ h' rs ts) (hfresh : h.fresh ≤ h₁.fresh) :
    NewTrees h h' rs ts := by
  obtain ⟨n, hforall, hnodup, hge⟩ := hnew
  exact ⟨n, hforall, hnodup, fun b hb => Nat.le_trans hfresh (hge b hb)⟩

theorem cons (first : NewTrees h h₁ [r] [t]) (rest : NewTrees h₁ h' rs ts) (he : Extends h₁ h')
    (hfresh : h.fresh ≤ h₁.fresh) : NewTrees h h' (r :: rs) (t :: ts) := by
  obtain ⟨n, hfirst, hnodup, hnew⟩ := first
  obtain ⟨m, hrest, hnodup', hnew'⟩ := rest
  have hr : read h₁ n r = some t := by
    rcases hfirst with _ | ⟨hr, -⟩
    exact hr
  simp only [List.flatMap_cons, List.flatMap_nil, List.append_nil] at hnodup hnew
  obtain ⟨hr', hfoot⟩ := read_of_extends he hr
  have hfoot' := (footprint_mono hr' (Nat.le_max_left n m)).trans hfoot
  have hfoots : rs.flatMap (footprint h' (max n m)) = rs.flatMap (footprint h' m) := by
    apply List.flatMap_congr
    intro r₁ hr₁
    obtain ⟨u, hu⟩ := forall₂_exists hrest hr₁
    exact footprint_mono hu (Nat.le_max_right n m)
  refine ⟨max n m, .cons (read_mono hr' (Nat.le_max_left n m)) ?_, ?_, ?_⟩
  · exact forall₂_mono hrest fun r₁ _ u hu => read_mono hu (Nat.le_max_right n m)
  · rw [List.flatMap_cons, hfoot', hfoots]
    refine List.nodup_append.mpr ⟨hnodup, hnodup', fun b hb d hd hbd => ?_⟩
    obtain ⟨e, he'⟩ := Option.isSome_iff_exists.mp (allocated_of_mem_footprint hr hb)
    have hlt := Heap.lt_fresh_of_contentAt he'
    have hle := hnew' d hd
    omega
  · rw [List.flatMap_cons, hfoot', hfoots]
    intro b hb
    rcases List.mem_append.mp hb with hb | hb
    · exact hnew b hb
    · exact Nat.le_trans hfresh (hnew' b hb)

/-- A new cell for new values. -/
theorem alloc (hnew : NewTrees h h' c.children ts)
    (hshows : ∀ R, List.Forall₂ R c.children ts → c.Shows R t) (hfresh : h.fresh ≤ h'.fresh) :
    NewTrees h (h'.alloc c) [.cell h'.fresh] [t] := by
  obtain ⟨n, hread, hnodup, hge⟩ := hnew
  have hc : (h'.alloc c).contentAt h'.fresh = some c := by
    rw [Heap.contentAt_alloc, if_pos rfl]
  have hfoot : c.children.flatMap (footprint (h'.alloc c) n) =
      c.children.flatMap (footprint h' n) := by
    apply List.flatMap_congr
    intro r hr
    obtain ⟨u, hu⟩ := forall₂_exists hread hr
    exact (read_of_extends (extends_alloc h' c) hu).2
  refine ⟨n + 1, .cons ?_ .nil, ?_, ?_⟩
  · refine read_cell_iff.mpr ⟨c, hc, hshows _ (forall₂_mono hread fun r _ u hu => ?_)⟩
    exact (read_of_extends (extends_alloc h' c) hu).1
  · rw [List.flatMap_singleton, footprint_cell hc, hfoot, List.nodup_cons]
    refine ⟨fun hmem => ?_, hnodup⟩
    obtain ⟨r, hr, hb⟩ := List.mem_flatMap.mp hmem
    obtain ⟨u, hu⟩ := forall₂_exists hread hr
    obtain ⟨d, hd⟩ := Option.isSome_iff_exists.mp (allocated_of_mem_footprint hu hb)
    exact Nat.lt_irrefl _ (Heap.lt_fresh_of_contentAt hd)
  · rw [List.flatMap_singleton, footprint_cell hc, hfoot, List.forall_mem_cons]
    exact ⟨hfresh, hge⟩

end NewTrees

mutual

theorem load_newTrees : ∀ (t : Tree) (h : Memory), NewTrees h (load t h).1 [(load t h).2] [t]
  | .null, h => .const rfl
  | .bool _, h => .const rfl
  | .integer n, h =>
      NewTrees.alloc (c := .integer n) (.nil h) (fun _ _ => rfl) (Nat.le_refl _)
  | .real bits, h =>
      NewTrees.alloc (c := .real bits) (.nil h) (fun _ _ => rfl) (Nat.le_refl _)
  | .string s, h =>
      NewTrees.alloc (c := .string s) (.nil h) (fun _ _ => rfl) (Nat.le_refl _)
  | .array elements, h =>
      NewTrees.alloc (c := .array _) (loadElements_newTrees elements h) (fun _ hrel => hrel)
        (loadElements_newRefs elements h).fresh
  | .object members, h =>
      NewTrees.alloc (c := .object _) (loadMembers_newTrees members h).1
        (fun _ hrel => related_iff.mpr ⟨_, hrel, by
          rw [(loadMembers_newTrees members h).2]
          exact (List.zip_of_prod rfl rfl).symm⟩)
        (loadMembers_newRefs members h).fresh

theorem loadElements_newTrees : ∀ (ts : List Tree) (h : Memory),
    NewTrees h (loadElements ts h).1 (loadElements ts h).2 ts
  | [], h => .nil h
  | t :: rest, h =>
      (load_newTrees t h).cons (loadElements_newTrees rest (load t h).1)
        (loadElements_newRefs rest (load t h).1).extended (load_newRefs t h).fresh

theorem loadMembers_newTrees : ∀ (ts : List (Text × Tree)) (h : Memory),
    NewTrees h (loadMembers ts h).1 ((loadMembers ts h).2.map Prod.snd) (ts.map Prod.snd) ∧
      (loadMembers ts h).2.map Prod.fst = ts.map Prod.fst
  | [], h => ⟨.nil h, rfl⟩
  | (key, t) :: rest, h =>
      ⟨(load_newTrees t h).cons (loadMembers_newTrees rest (load t h).1).1
        (loadMembers_newRefs rest (load t h).1).extended (load_newRefs t h).fresh,
        congrArg (key :: ·) (loadMembers_newTrees rest (load t h).1).2⟩

end

section

variable {h₀ h h' : Memory} {r : Ref} {t : Tree} {rs : List Ref} {ts : List Tree} {n : Nat}

theorem copyAll_newTrees {copy : Ref → Memory → Option (Memory × Ref)}
    (hcopy : ∀ r t h, Extends h₀ h → read h₀ n r = some t →
      ∃ h' r', copy r h = some (h', r') ∧ NewRefs h h' r'.cells ∧ NewTrees h h' [r'] [t])
    (he : Extends h₀ h) (hread : List.Forall₂ (fun r t => read h₀ n r = some t) rs ts) :
    ∃ h' rs', copyAll copy rs h = some (h', rs') ∧ NewRefs h h' (rs'.flatMap Ref.cells) ∧
      NewTrees h h' rs' ts := by
  induction hread generalizing h with
  | nil => exact ⟨h, [], rfl, .refl h, .nil h⟩
  | @cons r t rs ts hr hrs ih =>
      obtain ⟨h₁, r', hfirst, hrefs, htree⟩ := hcopy r t h he hr
      obtain ⟨h₂, rs', hrest, hrefs', htrees⟩ := ih (he.trans hrefs.extended)
      refine ⟨h₂, r' :: rs', ?_, hrefs.trans hrefs', htree.cons htrees hrefs'.extended hrefs.fresh⟩
      simp [copyAll, hfirst, hrest]

/-- Copying a value that is there to the end succeeds, and gives the same tree. -/
theorem deepCopy_newTrees (he : Extends h₀ h) (hread : read h₀ n r = some t) :
    ∃ h' r', deepCopy n r h = some (h', r') ∧ NewTrees h h' [r'] [t] := by
  induction n generalizing r t h with
  | zero =>
      cases r with
      | cell a => cases hread
      | _ => exact ⟨h, _, rfl, .const hread⟩
  | succ n ih =>
      have hall : ∀ {rs ts}, List.Forall₂ (fun r t => read h₀ n r = some t) rs ts →
          ∃ h' rs', copyAll (deepCopy n) rs h = some (h', rs') ∧
            NewRefs h h' (rs'.flatMap Ref.cells) ∧ NewTrees h h' rs' ts := by
        intro rs ts hrs
        apply copyAll_newTrees _ he hrs
        intro r t h he hr
        obtain ⟨h', r', hcopy, htree⟩ := ih he hr
        exact ⟨h', r', hcopy, deepCopy_newRefs n hcopy, htree⟩
      cases r with
      | cell a =>
          obtain ⟨c, hc, hshows⟩ := read_cell_iff.mp hread
          rw [deepCopy, he a c hc]
          cases c with
          | array elements =>
              cases t with
              | array trees =>
                  obtain ⟨h', rs', hcopy, hrefs, htrees⟩ := hall hshows
                  refine ⟨h'.alloc (.array rs'), .cell h'.fresh, by simp [hcopy], ?_⟩
                  exact NewTrees.alloc (c := .array rs') htrees (fun _ hrel => hrel) hrefs.fresh
              | _ => exact absurd hshows id
          | object members =>
              cases t with
              | object trees =>
                  have hrelated : Related (fun r t => read h₀ n r = some t) members trees := hshows
                  obtain ⟨us, hus, rfl⟩ := related_iff.mp hrelated
                  obtain ⟨h', rs', hcopy, hrefs, htrees⟩ := hall hus
                  have hlength : rs'.length = members.length := by
                    rw [(copyAll_newRefs (fun _ _ _ _ => deepCopy_newRefs n) hcopy).2,
                      List.length_map]
                  refine ⟨h'.alloc (.object ((members.map Prod.fst).zip rs')), .cell h'.fresh,
                    by simp [hcopy], ?_⟩
                  have hsnd : ((members.map Prod.fst).zip rs').map Prod.snd = rs' :=
                    List.map_snd_zip (by simp [hlength])
                  have hfst : ((members.map Prod.fst).zip rs').map Prod.fst = members.map Prod.fst :=
                    List.map_fst_zip (by simp [hlength])
                  refine NewTrees.alloc (c := .object _) (?_ : NewTrees h h' _ us) ?_ hrefs.fresh
                  · rw [Content.children, hsnd]
                    exact htrees
                  · intro R hrel
                    exact related_iff.mpr ⟨us, hrel, by rw [hfst]⟩
              | _ => exact absurd hshows id
          | _ =>
              refine ⟨_, _, rfl, ?_⟩
              apply NewTrees.alloc (.nil h) _ (Nat.le_refl _)
              intro R hrel
              cases t <;> exact hshows
      | _ => exact ⟨h, _, rfl, .const hread⟩

theorem json_deep_copy_newTrees (hread : read h n r = some t)
    (hnodup : (footprint h n r).Nodup) :
    ∃ h' r', json_deep_copy r h = some (h', r') ∧ NewTrees h h' [r'] [t] :=
  deepCopy_newTrees (fun _ _ hc => hc) (treeOf_of_read hread hnodup)

end

end KappaGateway.Jansson

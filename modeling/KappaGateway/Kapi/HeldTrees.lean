import KappaGateway.Kapi.NewTrees

/-!
# Trees that the program holds

All of the memory belongs to one value, to which the program has one reference. A
container in it loses some of its values and gets new ones: the former are released, and
the tree changes in the place of the container only.
-/

namespace KappaGateway.KeyedList

variable {K V : Type*} [DecidableEq K]

/-- The members that stay, and the one at a key. -/
theorem perm_eraseP (k : K) (m : List (K × V)) :
    (m.map Prod.snd).Perm ((m.eraseP fun e => e.1 = k).map Prod.snd ++ (valueAt k m).toList) := by
  induction m with
  | nil => exact .refl _
  | cons e m ih =>
      rw [valueAt]
      by_cases hk : e.1 = k
      · rw [List.eraseP_cons_of_pos (by simpa using hk), if_pos hk, List.map_cons,
          Option.toList_some]
        exact List.perm_append_singleton e.2 (m.map Prod.snd) |>.symm
      · rw [List.eraseP_cons_of_neg (by simpa using hk), if_neg hk, List.map_cons, List.map_cons,
          List.cons_append]
        exact ih.cons e.2

theorem alter_perm (k : K) (v : V) (m : List (K × V)) :
    ((alter k (fun _ => v) m).map Prod.snd).Perm
      ((m.eraseP fun e => e.1 = k).map Prod.snd ++ [v]) := by
  induction m with
  | nil => exact .refl _
  | cons e m ih =>
      rw [alter]
      by_cases hk : e.1 = k
      · rw [List.eraseP_cons_of_pos (by simpa using hk), if_pos hk, List.map_cons]
        exact List.perm_append_singleton v (m.map Prod.snd) |>.symm
      · rw [List.eraseP_cons_of_neg (by simpa using hk), if_neg hk, List.map_cons, List.map_cons,
          List.cons_append]
        exact ih.cons e.2

end KappaGateway.KeyedList

namespace KappaGateway.Jansson

open KeyedList RefCount Kutil JsonWrapper

/-- The memory is the value in one cell, which stands for a tree. -/
structure Holds (h : Memory) (a : Nat) (t : Tree) : Prop where
  twice : h.twice = []
  balanced : h.Balanced [a]
  shows : ∃ n, read h n (.cell a) = some t ∧ (footprint h n (.cell a)).Nodup

section

variable {h h₁ : Memory} {a b : Nat} {t w w' u : Tree} {c c' : Content} {path : List Slot}
  {kept dropped news : List Ref} {us : List Tree} {r v : Ref}

theorem refs_eq_children (c : Content) : refs c = c.children.flatMap Ref.cells := by
  cases c with
  | object members => exact (List.flatMap_map Prod.snd Ref.cells members).symm
  | _ => rfl

/-- What is in a live value is live. -/
theorem live_of_follow {out : List Nat} (hb : h.Balanced out) (hlive : 0 < h.count a)
    (hfollow : follow h path (.cell a) = some (.cell b)) : 0 < h.count b := by
  induction path generalizing a with
  | nil =>
      obtain rfl : a = b := by simpa [follow] using hfollow
      exact hlive
  | cons p path ih =>
      obtain ⟨r, hslot, hrest⟩ := Option.bind_eq_some_iff.mp hfollow
      obtain ⟨d, c, hcell, hc, hat⟩ := exists_of_slotIn hslot
      obtain rfl := Ref.cell.inj (Option.some.inj hcell)
      cases r with
      | cell e => exact ih (hb.pos_of_refs hlive hc (mem_refs_of_at hat)) hrest
      | _ =>
          have hsame : ∀ path : List Slot, ∀ r : Ref, r.cells = [] →
              follow h path r ≠ some (.cell b) := by
            intro path r hnone hfollow
            cases path with
            | nil =>
                obtain rfl := Option.some.inj hfollow
                cases hnone
            | cons q path =>
                obtain ⟨r', hslot', -⟩ := Option.bind_eq_some_iff.mp hfollow
                obtain ⟨d, c, hcell', -, -⟩ := exists_of_slotIn hslot'
                obtain rfl := Option.some.inj hcell'
                cases hnone
          exact absurd hrest (hsame path _ rfl)

theorem follow_of_extends (he : Extends h h₁) (hfollow : follow h path r = some v) :
    follow h₁ path r = some v := by
  induction path generalizing r with
  | nil => exact hfollow
  | cons p path ih =>
      obtain ⟨r', hslot, hrest⟩ := Option.bind_eq_some_iff.mp hfollow
      rw [follow, he.slotIn hslot, Option.bind_some]
      exact ih hrest

/-- What a container in the value does not keep is released. -/
theorem Holds.balanced_rewrite (hholds : Holds h a t)
    (hnew : NewRefs h h₁ (news.flatMap Ref.cells))
    (hfollow : follow h path (.cell a) = some (.cell b)) (hc : h.contentAt b = some c)
    (hchildren : c.children.Perm (kept ++ dropped))
    (hchildren' : c'.children.Perm (kept ++ news)) :
    (h₁.write b c').Balanced (dropped.flatMap Ref.cells ++ [a]) := by
  have hb := hnew.balanced _ hholds.balanced
  have hlive : 0 < h₁.count b :=
    live_of_follow hb (hb.pos_of_mem (by simp)) (follow_of_extends hnew.extended hfollow)
  intro x
  have hheld := Heap.count_held_write (c := c') hlive (hnew.extended b c hc) x
  have hcount := hb x
  have hold := ((hchildren.flatMap_right Ref.cells).count_eq x)
  have hnext := ((hchildren'.flatMap_right Ref.cells).count_eq x)
  rw [refs_eq_children, refs_eq_children, hold, hnext] at hheld
  rw [Heap.count_write]
  simp only [List.flatMap_append, List.count_append] at hheld hcount ⊢
  omega

/-- A container in the value keeps some values and gets new ones. -/
theorem Holds.rewrite (hholds : Holds h a t) (kept : List Ref)
    (hnew : NewRefs h h₁ (news.flatMap Ref.cells)) (htrees : NewTrees h h₁ news us)
    (hfollow : follow h path (.cell a) = some (.cell b))
    (hc : h.contentAt b = some c) (hlook : Tree.look path t = some w)
    (hchildren : c.children.Perm (kept ++ dropped)) (hchildren' : c'.children.Perm (kept ++ news))
    (hshows : ∀ R, c.Shows R w → List.Forall₂ R news us → c'.Shows R w') :
    Holds ((h₁.write b c').release (dropped.flatMap Ref.cells)) a (Tree.put w' path t) := by
  have hb := hholds.balanced_rewrite hnew hfollow hc hchildren hchildren'
  refine ⟨?_, hb.release, ?_⟩
  · rw [hb.twice_release]
    exact hnew.twice.trans hholds.twice
  · obtain ⟨n, hread, hnodup⟩ := hholds.shows
    obtain ⟨k, hnews, hnewsNodup, hge⟩ := htrees
    have hcontent : ∀ x, ((h₁.write b c').release (dropped.flatMap Ref.cells)).contentAt x =
        if b = x then some c' else h₁.contentAt x := by
      intro x
      rw [Heap.contentAt_release, Heap.contentAt_write, hnew.extended b c hc]
      rfl
    generalize (h₁.write b c').release (dropped.flatMap Ref.cells) = h' at hcontent
    have hc' : h'.contentAt b = some c' := by rw [hcontent, if_pos rfl]
    have hrest : ∀ x d, x ≠ b → h.contentAt x = some d → h'.contentAt x = some d := by
      intro x d hx hd
      rw [hcontent, if_neg (Ne.symm hx), hnew.extended x d hd]
    obtain ⟨w₀, hlook₀, hw, -⟩ := read_follow hread hfollow
    obtain rfl := Option.some.inj (hlook.symm.trans hlook₀)
    have hcells := nodup_of_follow hread hnodup hfollow
    cases n with
    | zero => cases hw
    | succ n =>
        obtain ⟨d, hd, hw'⟩ := read_cell_iff.mp hw
        obtain rfl := Option.some.inj (hc.symm.trans hd)
        rw [footprint_cell hc, List.nodup_cons] at hcells
        -- The old values keep their trees and their cells, and so do the new ones.
        have hold : ∀ r₁ ∈ c.children, ∀ x, read h n r₁ = some x →
            read h' (max n k) r₁ = some x ∧ footprint h' (max n k) r₁ = footprint h n r₁ := by
          intro r₁ hr₁ x hx
          have hsame : ∀ e ∈ footprint h n r₁, h'.contentAt e = h.contentAt e := by
            intro e he
            obtain ⟨d, hd⟩ := Option.isSome_iff_exists.mp (allocated_of_mem_footprint hx he)
            rw [hd, hrest e d _ hd]
            rintro rfl
            exact hcells.1 (List.mem_flatMap.mpr ⟨r₁, hr₁, he⟩)
          obtain ⟨hx', hfoot⟩ := read_frame hsame hx
          exact ⟨read_mono hx' (Nat.le_max_left n k),
            (footprint_mono hx' (Nat.le_max_left n k)).trans hfoot⟩
        have hnext : ∀ r₁ ∈ news, ∀ x, read h₁ k r₁ = some x →
            read h' (max n k) r₁ = some x ∧ footprint h' (max n k) r₁ = footprint h₁ k r₁ := by
          intro r₁ hr₁ x hx
          have hsame : ∀ e ∈ footprint h₁ k r₁, h'.contentAt e = h₁.contentAt e := by
            intro e he
            rw [hcontent, if_neg]
            rintro rfl
            have hlt := Heap.lt_fresh_of_contentAt hc
            have hle := hge b (List.mem_flatMap.mpr ⟨r₁, hr₁, he⟩)
            omega
          obtain ⟨hx', hfoot⟩ := read_frame hsame hx
          exact ⟨read_mono hx' (Nat.le_max_right n k),
            (footprint_mono hx' (Nat.le_max_right n k)).trans hfoot⟩
        have hshown : c'.Shows (fun r₁ x => read h' (max n k) r₁ = some x) w' := by
          apply hshows
          · exact hw'.mono fun r₁ hr₁ x hx => (hold r₁ hr₁ x hx).1
          · exact forall₂_mono hnews fun r₁ hr₁ x hx => (hnext r₁ hr₁ x hx).1
        have hkept : ∀ r₁ ∈ kept, r₁ ∈ c.children :=
          fun r₁ hr₁ => hchildren.mem_iff.mpr (List.mem_append_left _ hr₁)
        have hkeptFoot : kept.flatMap (footprint h' (max n k)) = kept.flatMap (footprint h n) := by
          apply List.flatMap_congr
          intro r₁ hr₁
          obtain ⟨x, hx⟩ := hw'.exists_tree (hkept r₁ hr₁)
          exact (hold r₁ (hkept r₁ hr₁) x hx).2
        have hnewsFoot : news.flatMap (footprint h' (max n k)) = news.flatMap (footprint h₁ k) := by
          apply List.flatMap_congr
          intro r₁ hr₁
          obtain ⟨x, hx⟩ := forall₂_exists hnews hr₁
          exact (hnext r₁ hr₁ x hx).2
        have hperm : (c'.children.flatMap (footprint h' (max n k))).Perm
            (kept.flatMap (footprint h n) ++ news.flatMap (footprint h₁ k)) := by
          have hmap := hchildren'.flatMap_right (footprint h' (max n k))
          rwa [List.flatMap_append, hkeptFoot, hnewsFoot] at hmap
        have hkeptOld : ∀ e ∈ kept.flatMap (footprint h n),
            e ∈ c.children.flatMap (footprint h n) := by
          intro e he
          obtain ⟨r₁, hr₁, he⟩ := List.mem_flatMap.mp he
          exact List.mem_flatMap.mpr ⟨r₁, hkept r₁ hr₁, he⟩
        have hkeptNodup : (kept.flatMap (footprint h n)).Nodup := by
          have hmap := (hchildren.flatMap_right (footprint h n)).nodup_iff.mp hcells.2
          rw [List.flatMap_append, List.nodup_append] at hmap
          exact hmap.1
        have hfresh : ∀ e ∈ news.flatMap (footprint h₁ k), h.contentAt e = none := by
          intro e he
          by_contra hsome
          obtain ⟨d, hd⟩ := Option.ne_none_iff_exists'.mp hsome
          have hlt := Heap.lt_fresh_of_contentAt hd
          have hle := hge e he
          omega
        have hkeptSome : ∀ e ∈ kept.flatMap (footprint h n), (h.contentAt e).isSome := by
          intro e he
          obtain ⟨r₁, hr₁, he⟩ := List.mem_flatMap.mp he
          obtain ⟨x, hx⟩ := hw'.exists_tree (hkept r₁ hr₁)
          exact allocated_of_mem_footprint hx he
        have hfoot : footprint h' (max n k + 1) (.cell b) =
            b :: c'.children.flatMap (footprint h' (max n k)) := footprint_cell hc'
        have hread' : read h' (max n k + 1) (.cell b) = some w' :=
          read_cell_iff.mpr ⟨c', hc', hshown⟩
        obtain ⟨m, hm, hmNodup, -⟩ := read_put hread hnodup hfollow hrest hread' (by
            rw [hfoot, List.nodup_cons, hperm.mem_iff, hperm.nodup_iff]
            constructor
            · intro hmem
              rcases List.mem_append.mp hmem with hmem | hmem
              · exact hcells.1 (hkeptOld b hmem)
              · rw [hfresh b hmem] at hc
                cases hc
            · refine List.nodup_append.mpr ⟨hkeptNodup, hnewsNodup, ?_⟩
              rintro e he _ he' rfl
              have hsome := hkeptSome e he
              rw [hfresh e he'] at hsome
              cases hsome) (by
            intro e he hsome
            rw [footprint_cell hc]
            rw [hfoot, List.mem_cons, hperm.mem_iff, List.mem_append] at he
            rcases he with rfl | he | he
            · exact List.mem_cons_self
            · exact List.mem_cons_of_mem _ (hkeptOld e he)
            · rw [hfresh e he] at hsome
              cases hsome)
        exact ⟨m, hm, hmNodup⟩

/-- A new value is dropped. -/
theorem Holds.drop (hholds : Holds h a t) (hnew : NewRefs h h₁ v.cells) :
    Holds (h₁.release v.cells) a t := by
  have hb := hnew.balanced _ hholds.balanced
  obtain ⟨n, hread, hnodup⟩ := hholds.shows
  obtain ⟨hread', hfoot⟩ :=
    read_of_extends (hnew.extended.trans (extends_release h₁ v.cells)) hread
  refine ⟨?_, hb.release, n, hread', hfoot ▸ hnodup⟩
  rw [hb.twice_release]
  exact hnew.twice.trans hholds.twice

/-! ### Objects and arrays -/

variable {members : List (Text × Ref)} {trees : List (Text × Tree)} {elements : List Ref}
  {ts : List Tree} {key : Text}

theorem cellsOf_eq (json : Option Ref) : cellsOf json = json.toList.flatMap Ref.cells := by
  cases json with
  | none => rfl
  | some r => exact (List.append_nil r.cells).symm

/-- A new value does not contain what was there before. -/
theorem ne_of_newRefs (hnew : NewRefs h h₁ v.cells) (hc : h.contentAt b = some c) :
    v ≠ .cell b := by
  rintro rfl
  rw [hnew.isNew b (List.mem_singleton_self b)] at hc
  cases hc

/-- A new value for a key of an object. -/
theorem Holds.setNew (hholds : Holds h a t)
    (hfollow : follow h path (.cell a) = some (.cell b))
    (hc : h.contentAt b = some (.object members)) (hlook : Tree.look path t = some (.object trees))
    (hnew : NewRefs h h₁ v.cells) (htrees : NewTrees h h₁ [v] [u]) :
    Holds (json_object_set_new (some (.cell b)) key (some v) h₁) a
        (Tree.put (.object (alter key (fun _ => u) trees)) path t) ∧
      (json_object_set_new (some (.cell b)) key (some v) h₁).contentAt b =
        some (.object (alter key (fun _ => v) members)) := by
  rw [json_object_set_new_eq (hnew.extended b _ hc) (ne_of_newRefs hnew hc), json_decref,
    cellsOf_eq]
  constructor
  · have hcells : [v].flatMap Ref.cells = v.cells := List.append_nil v.cells
    apply hholds.rewrite _ (hcells.symm ▸ hnew) htrees hfollow hc hlook
      (show (Content.object members).children.Perm _ from perm_eraseP key members)
      (show (Content.object (alter key (fun _ => v) members)).children.Perm _ from
        alter_perm key v members)
    intro R hshows hrel
    rcases hrel with _ | ⟨hvalue, -⟩
    exact Related.alter hshows (fun _ _ _ hw => hw) hvalue
  · rw [Heap.contentAt_release, Heap.contentAt_write, if_pos rfl, hnew.extended b _ hc]
    rfl

/-- A new value at the end of an array. -/
theorem Holds.append (hholds : Holds h a t)
    (hfollow : follow h path (.cell a) = some (.cell b))
    (hc : h.contentAt b = some (.array elements)) (hlook : Tree.look path t = some (.array ts))
    (hnew : NewRefs h h₁ v.cells) (htrees : NewTrees h h₁ [v] [u]) :
    Holds (json_array_append_new (some (.cell b)) v h₁) a
      (Tree.put (.array (ts ++ [u])) path t) := by
  have harray : json_array_append_new (some (.cell b)) v h₁ =
      (h₁.write b (.array (elements ++ [v]))).release (([] : List Ref).flatMap Ref.cells) := by
    have hne : (Ref.cell b) ≠ v := fun heq => ne_of_newRefs hnew hc heq.symm
    simp [json_array_append_new, arrayAt, hnew.extended b _ hc, hne]
  rw [harray]
  have hcells : [v].flatMap Ref.cells = v.cells := List.append_nil v.cells
  apply hholds.rewrite elements (hcells.symm ▸ hnew) htrees hfollow hc hlook
  · rw [List.append_nil]
    exact .refl _
  · exact .refl _
  · intro R hshows hrel
    exact List.rel_append hshows hrel

/-- A container loses all its values. -/
theorem Holds.clear (hholds : Holds h a t)
    (hfollow : follow h path (.cell a) = some (.cell b)) (hc : h.contentAt b = some c)
    (hlook : Tree.look path t = some w) (hnone : c'.children = [])
    (hshows : ∀ R : Ref → Tree → Prop, c.Shows R w → c'.Shows R w') :
    Holds ((h.write b c').release (c.children.flatMap Ref.cells)) a (Tree.put w' path t) := by
  have hnew : NewRefs h h (([] : List Ref).flatMap Ref.cells) := .refl h
  apply hholds.rewrite [] hnew (.nil h) hfollow hc hlook
  · exact .refl _
  · rw [hnone]
    exact .refl _
  · intro R hshown _
    exact hshows R hshown

end

end KappaGateway.Jansson

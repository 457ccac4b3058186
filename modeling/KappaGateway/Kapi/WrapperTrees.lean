import KappaGateway.Kapi.NewTrees
import KappaGateway.Kapi.WrapperSteps

/-!
# Wrappers of a plain tree

All wrappers of a program hang on one root, whose value stands for a plain tree.
Each wrapper but the fault values then stands for the value at its path, and no
two of them have the same path. Every operation keeps this, and changes the plain
tree at the path of its wrapper.
-/

namespace KappaGateway.JsonWrapper

open KeyedList RefCount Kutil Jansson State

/-- The place of a wrapper in its parent. -/
def JSON.place (J : JSON) : Slot := (J.key, J.index)

/-- A wrapper that hangs on the root, and the path that it was reached by. -/
inductive Reached (s : State) (root : Nat) : Nat → List Slot → Prop
  | root : Reached s root root []
  | child {x p : Nat} {path : List Slot} (halive : (s.get x).alive)
      (hparent : (s.get x).parent = some p) (hp : Reached s root p path) :
      Reached s root x (path ++ [(s.get x).place])

/-- The wrappers of one document. -/
structure Mirrors (s : State) (root : Nat) (t : Tree) : Prop where
  inStep : InStep s
  root_alive : (s.get root).alive
  root_parent : (s.get root).parent = none
  json : ∀ x, (s.get x).alive → (s.get x).json ≠ none
  fault : ∀ x, (s.get x).alive →
    ((s.get x).type = .fault ↔ (s.get x).parent = none ∧ x ≠ root)
  unique : ∀ x y, (s.get x).alive → (s.get y).alive → (s.get x).parent = (s.get y).parent →
    (s.get x).parent ≠ none → (s.get x).place = (s.get y).place → x = y
  value : ∃ r n, (s.get root).json = some r ∧ read s.heap n r = some t ∧
    (footprint s.heap n r).Nodup

/-- Only the fault value and the errors of a wrapper change. -/
structure Alike (J K : JSON) : Prop where
  alive : K.alive = J.alive
  parent : K.parent = J.parent
  place : K.place = J.place
  json : K.json = J.json
  type : K.type = J.type

theorem Alike.of_eq {J K : JSON} (h : K = J) : Alike J K := by
  subst h
  exact ⟨rfl, rfl, rfl, rfl, rfl⟩

/-- A wrapper stays where it is, and stays a fault value if it is one. -/
structure Stays (J K : JSON) : Prop where
  alive : K.alive = J.alive
  parent : K.parent = J.parent
  place : K.place = J.place
  fault : J.type = .fault → K.type = .fault

theorem Alike.stays {J K : JSON} (h : Alike J K) : Stays J K :=
  ⟨h.alive, h.parent, h.place, fun htype => h.type.trans htype⟩

theorem Stays.trans {J K L : JSON} (h : Stays J K) (h' : Stays K L) : Stays J L :=
  ⟨h'.alive.trans h.alive, h'.parent.trans h.parent, h'.place.trans h.place,
    fun htype => h'.fault (h.fault htype)⟩

/-- No value has the type of a fault value. -/
theorem json_typeof_ne_fault (h : Memory) (r : Ref) : json_typeof h r ≠ .fault := by
  intro hfault
  cases r with
  | null => cases hfault
  | bool b => cases b <;> cases hfault
  | cell a =>
      rw [json_typeof] at hfault
      cases hc : h.contentAt a with
      | none =>
          rw [hc] at hfault
          cases hfault
      | some c =>
          rw [hc] at hfault
          cases c <;> cases hfault

namespace Mirrors

variable {s u : State} {root w x y a : Nat} {t : Tree} {path path' : List Slot}

theorem usable (hm : Mirrors s root t) (hx : (s.get x).alive) : s.Usable x := by
  intro c hc p hp
  have hcalive := (hm.inStep.holders x hx c hc).2.1
  exact hm.json p (hm.inStep.parent c p hcalive hp).2.1

theorem alive (hm : Mirrors s root t) (hx : Reached s root x path) : (s.get x).alive := by
  cases hx with
  | root => exact hm.root_alive
  | child halive _ _ => exact halive

theorem root_le (hm : Mirrors s root t) (hx : Reached s root x path) : root ≤ x := by
  induction hx with
  | root => exact Nat.le_refl root
  | @child x p path halive hparent hp ih =>
      exact Nat.le_trans ih (Nat.le_of_lt (hm.inStep.parent x p halive hparent).1)

theorem root_lt (hm : Mirrors s root t) (hx : Reached s root x path) (hne : path ≠ []) :
    root < x := by
  cases hx with
  | root => exact absurd rfl hne
  | child halive hparent hp =>
      exact Nat.lt_of_le_of_lt (hm.root_le hp) (hm.inStep.parent _ _ halive hparent).1

theorem type_ne_fault (hm : Mirrors s root t) (hx : Reached s root x path) :
    (s.get x).type ≠ .fault := by
  intro htype
  obtain ⟨hparent, hne⟩ := (hm.fault x (hm.alive hx)).mp htype
  cases hx with
  | root => exact hne rfl
  | child _ hp _ =>
      rw [hp] at hparent
      cases hparent

/-- A fault value is null. -/
theorem json_of_fault (hm : Mirrors s root t) (hx : (s.get x).alive)
    (htype : (s.get x).type = .fault) : (s.get x).json = some .null := by
  obtain ⟨r, hr⟩ := Option.ne_none_iff_exists'.mp (hm.json x hx)
  obtain ⟨-, htyped | ⟨-, rfl⟩⟩ := hm.inStep.typed x r hx hr
  · exact absurd (htyped.symm.trans htype) (json_typeof_ne_fault s.heap r)
  · exact hr

/-- Every wrapper but the fault values hangs on the root. -/
theorem exists_reached (hm : Mirrors s root t) (hx : (s.get x).alive)
    (htype : (s.get x).type ≠ .fault) : ∃ path, Reached s root x path := by
  induction x using Nat.strong_induction_on with
  | _ x ih =>
      cases hparent : (s.get x).parent with
      | none =>
          have hroot : x = root := by
            by_contra hne
            exact htype ((hm.fault x hx).mpr ⟨hparent, hne⟩)
          subst hroot
          exact ⟨[], .root⟩
      | some p =>
          obtain ⟨hlt, hp, -⟩ := hm.inStep.parent x p hx hparent
          have hptype : (s.get p).type ≠ .fault := by
            intro hfault
            obtain ⟨r, hslot, -⟩ := hm.inStep.synced x p hx (hm.usable hx) id hparent
            rw [slot, hm.json_of_fault hp hfault] at hslot
            cases hslot
          obtain ⟨path, hpath⟩ := ih p hlt hp hptype
          exact ⟨_, .child hx hparent hpath⟩

/-- A wrapper has the value at its path. -/
theorem follow (hm : Mirrors s root t) (hx : Reached s root x path) {r : Ref}
    (hr : (s.get root).json = some r) :
    ∃ r', (s.get x).json = some r' ∧ Jansson.follow s.heap path r = some r' := by
  induction hx with
  | root => exact ⟨r, hr, rfl⟩
  | @child x p path halive hparent hp ih =>
      obtain ⟨rp, hrp, hfollow⟩ := ih
      obtain ⟨r', hslot, hjson⟩ := hm.inStep.synced x p halive (hm.usable halive) id hparent
      refine ⟨r', hjson.resolve_left (hm.json x halive), ?_⟩
      rw [follow_append, hfollow, Option.bind_some, Jansson.follow]
      rw [slot, hrp] at hslot
      simp only [JSON.place, hslot, Option.bind_some, Jansson.follow]

theorem reached_unique (hm : Mirrors s root t) (hx : Reached s root x path)
    (hy : Reached s root y path) : x = y := by
  induction hx generalizing y with
  | root =>
      generalize hpath : ([] : List Slot) = path at hy
      cases hy with
      | root => rfl
      | child _ _ _ => simp at hpath
  | @child x p path halive hparent hp ih =>
      generalize hpath : path ++ [(s.get x).place] = path' at hy
      cases hy with
      | root => simp at hpath
      | @child y q path' halive' hparent' hq =>
          obtain ⟨rfl, hplace⟩ := List.append_inj' hpath rfl
          obtain rfl := ih hq
          apply hm.unique x y halive halive' (hparent.trans hparent'.symm)
          · simp [hparent]
          · exact List.singleton_inj.mp hplace

/-- The container of a wrapper is no other wrapper's. -/
theorem eq_of_cell (hm : Mirrors s root t) (hx : (s.get x).alive) (hy : (s.get y).alive)
    (hxjson : (s.get x).json = some (.cell a)) (hyjson : (s.get y).json = some (.cell a)) :
    x = y := by
  have hreached : ∀ z, (s.get z).alive → (s.get z).json = some (.cell a) →
      ∃ path, Reached s root z path := by
    intro z hz hjson
    apply hm.exists_reached hz
    intro htype
    rw [hm.json_of_fault hz htype] at hjson
    cases hjson
  obtain ⟨path, hpath⟩ := hreached x hx hxjson
  obtain ⟨path', hpath'⟩ := hreached y hy hyjson
  obtain ⟨r, n, hr, hread, hnodup⟩ := hm.value
  obtain ⟨r₁, hr₁, hfollow⟩ := hm.follow hpath hr
  obtain ⟨r₂, hr₂, hfollow'⟩ := hm.follow hpath' hr
  obtain rfl := Option.some.inj (hxjson.symm.trans hr₁)
  obtain rfl := Option.some.inj (hyjson.symm.trans hr₂)
  obtain rfl := follow_injective hread hnodup hfollow hfollow'
  exact hm.reached_unique hpath hpath'

/-- No other wrapper is in step with the same place. -/
theorem unshared (hm : Mirrors s root t) (hw : (s.get w).alive) : Unshared s w := by
  intro x _ hx _ hne p hp q hq hjson hsame
  obtain ⟨a, c, r, hplace, -⟩ := hm.inStep.exists_place hw (hm.usable hw) id hq
  have hpq := hm.eq_of_cell (hm.inStep.parent x p hx hp).2.1 (hm.inStep.parent w q hw hq).2.1
    (hjson.trans hplace.json) hplace.json
  subst hpq
  apply hne
  apply hm.unique x w hx hw (hp.trans hq.symm)
  · rw [Option.mem_def.mp hp]
    exact Option.some_ne_none p
  · exact Prod.ext hsame.1 hsame.2

/-- What a wrapper stands for. -/
theorem value_at (hm : Mirrors s root t) (hx : Reached s root x path) :
    ∃ r n v, (s.get x).json = some r ∧ Tree.look path t = some v ∧ read s.heap n r = some v ∧
      (footprint s.heap n r).Nodup ∧ (s.get x).type = json_typeof s.heap r := by
  obtain ⟨r, n, hr, hread, hnodup⟩ := hm.value
  obtain ⟨r', hr', hfollow⟩ := hm.follow hx hr
  obtain ⟨v, hlook, hv, -⟩ := read_follow hread hfollow
  refine ⟨r', n, v, hr', hlook, hv, nodup_of_follow hread hnodup hfollow, ?_⟩
  obtain ⟨-, htype | ⟨hfault, -⟩⟩ := hm.inStep.typed x r' (hm.alive hx) hr'
  · exact htype
  · exact absurd hfault (hm.type_ne_fault hx)

/-- Wrappers disappear, and keep their parents and places. -/
theorem of_subset (hm : Mirrors s root t) (hu : InStep u) (hroot : (u.get root).alive)
    (hsub : ∀ x, (u.get x).alive → (s.get x).alive ∧ (u.get x).parent = (s.get x).parent ∧
      (u.get x).place = (s.get x).place ∧ (u.get x).json ≠ none ∧
      ((u.get x).type = .fault ↔ (s.get x).type = .fault)) {v : Tree}
    (hvalue : ∃ r n, (u.get root).json = some r ∧ read u.heap n r = some v ∧
      (footprint u.heap n r).Nodup) : Mirrors u root v := by
  refine ⟨hu, hroot, ?_, fun x hx => (hsub x hx).2.2.2.1, ?_, ?_, hvalue⟩
  · rw [(hsub root hroot).2.1, hm.root_parent]
  · intro x hx
    obtain ⟨halive, hparent, -, -, htype⟩ := hsub x hx
    rw [htype, hm.fault x halive, hparent]
  · intro x y hx hy hparent hsome hplace
    obtain ⟨hx', hxparent, hxplace, -, -⟩ := hsub x hx
    obtain ⟨hy', hyparent, hyplace, -, -⟩ := hsub y hy
    rw [hxparent] at hparent hsome
    rw [hyparent] at hparent
    rw [hxplace, hyplace] at hplace
    exact hm.unique x y hx' hy' hparent hsome hplace

/-- No wrapper is added, and the values are the same. -/
theorem of_alike (hm : Mirrors s root t) (hu : InStep u)
    (hback : ∀ y, (u.get y).alive → (s.get y).alive)
    (hkept : ∀ y, (s.get y).alive → Alike (s.get y) (u.get y)) (hheap : u.heap = s.heap) :
    Mirrors u root t := by
  have hroot := hkept root hm.root_alive
  apply hm.of_subset hu (hroot.alive.trans hm.root_alive)
  · intro y hy
    have hys := hback y hy
    have hsame := hkept y hys
    exact ⟨hys, hsame.parent, hsame.place, by rw [hsame.json]; exact hm.json y hys,
      by rw [hsame.type]⟩
  · rw [hheap, hroot.json]
    exact hm.value

/-- A wrapper is added. -/
theorem of_added (hm : Mirrors s root t) (hu : InStep u)
    (hcases : ∀ y, (u.get y).alive → (s.get y).alive ∨ y = x)
    (hkept : ∀ y, (s.get y).alive → Alike (s.get y) (u.get y)) (hjson : (u.get x).json ≠ none)
    (hfault : (u.get x).type = .fault ↔ (u.get x).parent = none ∧ x ≠ root)
    (hapart : ∀ y, (s.get y).alive → (s.get y).parent = (u.get x).parent →
      (u.get x).parent ≠ none → (s.get y).place = (u.get x).place → y = x) {v : Tree}
    (hvalue : ∃ r n, (u.get root).json = some r ∧ read u.heap n r = some v ∧
      (footprint u.heap n r).Nodup) : Mirrors u root v := by
  have hroot := hkept root hm.root_alive
  refine ⟨hu, hroot.alive.trans hm.root_alive, hroot.parent.trans hm.root_parent, ?_, ?_, ?_, hvalue⟩
  · intro y hy
    rcases hcases y hy with hys | rfl
    · rw [(hkept y hys).json]
      exact hm.json y hys
    · exact hjson
  · intro y hy
    rcases hcases y hy with hys | rfl
    · rw [(hkept y hys).type, (hkept y hys).parent]
      exact hm.fault y hys
    · exact hfault
  · intro y z hy hz hparent hsome hplace
    rcases hcases y hy with hys | rfl
    · have hyk := hkept y hys
      rw [hyk.parent] at hparent hsome
      rw [hyk.place] at hplace
      rcases hcases z hz with hzs | rfl
      · rw [(hkept z hzs).parent] at hparent
        rw [(hkept z hzs).place] at hplace
        exact hm.unique y z hys hzs hparent hsome hplace
      · exact hapart y hys hparent (hparent ▸ hsome) hplace
    · rcases hcases z hz with hzs | rfl
      · have hzk := hkept z hzs
        rw [hzk.parent] at hparent
        rw [hzk.place] at hplace
        exact (hapart z hzs hparent.symm hsome hplace.symm).symm
      · rfl

end Mirrors

/-- Those that are still there are reached as before. -/
theorem Reached.kept {s u : State} {root x : Nat} {path : List Slot}
    (hx : Reached s root x path)
    (hkept : ∀ y, (s.get y).alive → Stays (s.get y) (u.get y)) : Reached u root x path := by
  induction hx with
  | root => exact .root
  | @child x p path halive hparent hp ih =>
      have hsame := hkept x halive
      rw [← hsame.place]
      exact .child (hsame.alive.trans halive) (hsame.parent.trans hparent) ih

/-- A wrapper is reached as before if those that were made before it stay. -/
theorem Reached.kept_of_le {s u : State} {root x : Nat} {path : List Slot}
    (hx : Reached s root x path) (hs : InStep s)
    (hkept : ∀ y ≤ x, (s.get y).alive → u.get y = s.get y) : Reached u root x path := by
  induction hx with
  | root => exact .root
  | @child x p path halive hparent hp ih =>
      have hsame := hkept x (Nat.le_refl x) halive
      have hlt := (hs.parent x p halive hparent).1
      rw [← hsame] at halive hparent ⊢
      apply Reached.child halive hparent
      exact ih fun y hy => hkept y (Nat.le_trans hy (Nat.le_of_lt hlt))

section

variable {s u : State} {root w x a : Nat} {t v : Tree} {path : List Slot} {h : Memory} {j : Ref}

/-! ### A new value for a wrapper -/

/-- A wrapper has a new value, and those that hung on it are gone. -/
structure Replaced (s : State) (w : Nat) (j : Ref) (h : Memory) (u : State) : Prop where
  inStep : InStep u
  self : u.get w = { s.get w with json := some j, type := json_typeof h j }
  kept : ∀ x, (u.get x).alive → x ≠ w → u.get x = s.get x
  apart : ∀ x, (s.get x).alive → x ≠ w →
    (∀ c ∈ (s.get x).within, (s.get c).parent ≠ some w) → u.get x = s.get x
  memory : ((s.get w).parent = none ∧ ∀ b, u.heap.contentAt b = h.contentAt b) ∨
    ∃ q a c old, Place s w q a c ∧ c.at (s.get w).key (s.get w).index = some old ∧
      ∀ b, u.heap.contentAt b =
        if a = b then some (c.set (s.get w).key (s.get w).index j) else h.contentAt b

/-- The new value of a wrapper is the new value at its path. -/
theorem Replaced.mirrors (hrep : Replaced s w j h u) (hm : Mirrors s root t)
    (hw : Reached s root w path) (he : Extends s.heap h) (hnew : NewTrees s.heap h [j] [v]) :
    Mirrors u root (Tree.put v path t) := by
  obtain ⟨n, hforall, hnodup, hfresh⟩ := hnew
  have hread : read h n j = some v := by
    rcases hforall with _ | ⟨hread, -⟩
    exact hread
  rw [List.flatMap_singleton] at hnodup hfresh
  have hwalive := hm.alive hw
  have hself : (u.get w).alive := by rw [hrep.self, hwalive]
  have hisNew : ∀ b ∈ footprint h n j, s.heap.contentAt b = none := by
    intro b hb
    by_contra hsome
    obtain ⟨c, hc⟩ := Option.ne_none_iff_exists'.mp hsome
    have hlt := Heap.lt_fresh_of_contentAt hc
    have hle := hfresh b hb
    omega
  have hsub : ∀ x, (u.get x).alive → (s.get x).alive ∧ (u.get x).parent = (s.get x).parent ∧
      (u.get x).place = (s.get x).place ∧ (u.get x).json ≠ none ∧
      ((u.get x).type = .fault ↔ (s.get x).type = .fault) := by
    intro x hx
    by_cases hxw : x = w
    · subst hxw
      rw [hrep.self]
      exact ⟨hwalive, rfl, rfl, Option.some_ne_none j,
        iff_of_false (json_typeof_ne_fault h j) (hm.type_ne_fault hw)⟩
    · have hsame := hrep.kept x hx hxw
      rw [hsame] at hx ⊢
      exact ⟨hx, rfl, rfl, hm.json x hx, Iff.rfl⟩
  rcases hrep.memory with ⟨hparent, hsame⟩ | ⟨q, a, c, old, hplace, hat, hwrite⟩
  · -- The root has a new value.
    cases hw with
    | child _ hp _ =>
        rw [hparent] at hp
        cases hp
    | root =>
        apply hm.of_subset hrep.inStep hself hsub
        obtain ⟨hread', hfoot⟩ := read_frame (fun b _ => hsame b) hread
        exact ⟨j, n, by rw [hrep.self], hread', by rw [hfoot]; exact hnodup⟩
  · -- The container of the parent has a new value in the place.
    cases hw with
    | root =>
        cases hm.root_parent.symm.trans hplace.parent
    | @child _ p path _ hp hpath =>
        obtain rfl := Option.some.inj (hplace.parent.symm.trans hp)
        obtain ⟨r, m, hr, hroot, hroots⟩ := hm.value
        obtain ⟨rq, hrq, hfollow⟩ := hm.follow hpath hr
        obtain rfl := Option.some.inj (hplace.json.symm.trans hrq)
        have hunchanged : ∀ b, b ≠ a → u.heap.contentAt b = h.contentAt b :=
          fun b hb => by rw [hwrite b, if_neg (Ne.symm hb)]
        have hframe : ∀ b ∈ footprint h n j, u.heap.contentAt b = h.contentAt b := by
          intro b hb
          apply hunchanged
          rintro rfl
          cases hplace.contentAt.symm.trans (hisNew b hb)
        obtain ⟨hread', hfoot⟩ := read_frame hframe hread
        obtain ⟨k, hput, hputs, -⟩ := read_put_child (p := (s.get w).place) hroot hroots hfollow
          hplace.contentAt hat (by rw [hwrite, if_pos rfl]; rfl)
          (fun b d hb hd => by rw [hunchanged b hb, he b d hd]) hread' (by rwa [hfoot])
          (by rwa [hfoot])
        have hrootw : root < w := Nat.lt_of_le_of_lt (hm.root_le hpath)
          (hm.inStep.parent w q hwalive hp).1
        have hrootu := hrep.apart root hm.root_alive (Nat.ne_of_lt hrootw) fun c hc =>
          hm.inStep.parent_ne_of_le hm.root_alive (Nat.le_of_lt hrootw) hc
        apply hm.of_subset hrep.inStep (by rw [hrootu, hm.root_alive]) hsub
        exact ⟨r, k, by rw [hrootu, hr], hput, hputs⟩

/-- The container of a wrapper is not new. -/
theorem place_before {s₁ : State} (hs : InStep s) (hw : (s.get w).alive) (husable : s.Usable w)
    (he : Extends s.heap s₁.heap) (hsame : ∀ y, (s.get y).alive → s₁.get y = s.get y) {q : Nat}
    {c : Content} (hplace : Place s₁ w q a c) : Place s w q a c := by
  have hparent := hplace.parent
  rw [hsame w hw] at hparent
  have hjson := hplace.json
  rw [hsame q (hs.parent w q hw hparent).2.1] at hjson
  obtain ⟨a', c', -, hplace', -⟩ := hs.exists_place hw husable id hparent
  obtain rfl : a = a' := by simpa using hjson.symm.trans hplace'.json
  obtain rfl := Option.some.inj (hplace.contentAt.symm.trans (he a c' hplace'.contentAt))
  exact hplace'

/-- Putting a value of new cells in the place of a wrapper's. -/
theorem put_replaced (hs : InStep s) (hw : (s.get w).alive) (husable : s.Usable w)
    (hunshared : Unshared s w) (hnew : NewRefs s.heap h j.cells) :
    Replaced s w j h ({ s with heap := h }.put w j) := by
  have hs' := withHeap_inStep hs hnew
  have hne := json_ne_new hs hw husable hnew
  have hallocated := hnew.allocated_ref
  refine ⟨?_, ?_, ?_, ?_, ?_⟩
  · exact putNew_inStep hs hw husable hunshared hnew
  · exact put_get_self hs' hw husable hallocated hne
  · intro x hx hxw
    rw [put_get hs' hw husable hallocated hne] at hx ⊢
    exact reset_get hx (Ne.symm hxw)
  · intro x _ hxw hchild
    exact (put_get hs' hw husable hallocated hne x).trans (reset_get_of_ne (Ne.symm hxw) hchild)
  · rcases put_cases hs' hw husable hallocated hne with
      ⟨hparent, hput⟩ | ⟨q, a, c, old, hplace, hat, -, hput⟩
    · exact Or.inl ⟨hparent, fun b => by rw [hput, reset_contentAt]⟩
    · have hsame : ∀ y, (s.get y).alive → ({ s with heap := h } : State).get y = s.get y :=
        fun _ _ => rfl
      have hplace' := place_before hs hw husable hnew.extended hsame hplace
      refine Or.inr ⟨q, a, c, old, hplace', hat, fun b => ?_⟩
      rw [hput, heap_onHeap, json_decref, Heap.contentAt_release, Heap.contentAt_write]
      simp only [reset_contentAt, hplace.contentAt, Option.map_some]
      rfl

/-- A value of new cells in the place of a wrapper's. -/
theorem put_mirrors (hm : Mirrors s root t) (hw : Reached s root w path)
    (hrefs : NewRefs s.heap h j.cells) (hnew : NewTrees s.heap h [j] [v]) :
    Mirrors ({ s with heap := h }.put w j) root (Tree.put v path t) :=
  (put_replaced hm.inStep (hm.alive hw) (hm.usable (hm.alive hw)) (hm.unshared (hm.alive hw))
    hrefs).mirrors hm hw hrefs.extended hnew

/-! ### Strings and integers in their place -/

theorem scalar_mirrors (hm : Mirrors s root t) (hw : Reached s root w path) {c c' : Content}
    (hjson : (s.get w).json = some (.cell a)) (hc : s.heap.contentAt a = some c)
    (htype : c'.type = c.type) (hat : ∀ key index, c.at key index = none) (hrefs : refs c' = [])
    (hchildren : c'.children = []) (hshows : ∀ R u, c.Shows R u → c'.Shows R v) :
    Mirrors (s.onHeap (Heap.write a c')) root (Tree.put v path t) := by
  obtain ⟨r, n, hr, hread, hnodup⟩ := hm.value
  obtain ⟨r', hr', hfollow⟩ := hm.follow hw hr
  obtain rfl := Option.some.inj (hjson.symm.trans hr')
  have hwrite : ∀ b, (s.heap.write a c').contentAt b =
      if a = b then some c' else s.heap.contentAt b := by
    intro b
    rw [Heap.contentAt_write, hc, Option.map_some]
  obtain ⟨-, k, -, hput, hputs, -⟩ := read_rewrite (f := fun _ => v) hread hnodup hfollow hc hwrite
    (fun m u hu => hshows _ u hu) fun m => by rw [hchildren]; exact List.nil_sublist _
  apply hm.of_subset (scalar_inStep hm.inStep hc htype hat hrefs) hm.root_alive _
    ⟨r, k, hr, hput, hputs⟩
  intro x hx
  exact ⟨hx, rfl, rfl, hm.json x hx, Iff.rfl⟩

/-! ### Fault values -/

theorem setFailBit_alike (s : State) (w : Nat) (message : Text) (y : Nat) :
    Alike (s.get y) ((s.setFailBit w message).get y) := by
  rw [setFailBit, get_modify]
  split
  · exact ⟨rfl, rfl, rfl, rfl, rfl⟩
  · exact .of_eq rfl

theorem setFailBit_mirrors (hm : Mirrors s root t) (message : Text) :
    Mirrors (s.setFailBit w message) root t := by
  apply hm.of_alike (setFailBit_shape hm.inStep message) _
    (fun y _ => setFailBit_alike s w message y) rfl
  intro y hy
  rwa [(setFailBit_alike s w message y).alive] at hy

/-- The fault value of a wrapper, which may be new. -/
theorem fault_mirrors (hm : Mirrors s root t) (hw : Reached s root w path) :
    Mirrors (s.fault w).1 root t ∧ ((s.fault w).1.get (s.fault w).2).alive ∧
      ((s.fault w).1.get (s.fault w).2).type = .fault ∧
      ∀ y, (s.get y).alive → Alike (s.get y) ((s.fault w).1.get y) := by
  have hwalive := hm.alive hw
  have hinStep : InStep (s.fault w).1 := fault_inStep hm.inStep hwalive
  cases hfault : (s.get w).fault with
  | some f =>
      have heq : s.fault w = (s, f) := by rw [State.fault, hfault]
      obtain ⟨hf, hparent, hne, hwithin⟩ := hm.inStep.fault w f hwalive hfault
      have hroot : f ≠ root := by
        rintro rfl
        have hmem := (hwithin w).mpr (Or.inr (hm.inStep.self_mem w hwalive))
        have hle := (hm.inStep.holders f hf w hmem).1
        exact hne (Nat.le_antisymm (hm.root_le hw) hle)
      rw [heq]
      exact ⟨hm, hf, (hm.fault f hf).mpr ⟨hparent, hroot⟩, fun y _ => .of_eq rfl⟩
  | none =>
      have heq : s.fault w = ((s.push (faultJSON s w)).modify w fun J =>
          { J with fault := some s.next }, s.next) := by
        rw [State.fault, hfault]
        rfl
      have hnext : w ≠ s.next := Nat.ne_of_lt (lt_next_of_alive hwalive)
      rw [heq] at hinStep ⊢
      have hnew : ((s.push (faultJSON s w)).modify w fun J =>
          { J with fault := some s.next }).get s.next = faultJSON s w := by
        rw [get_modify_of_ne hnext, get_push, if_pos rfl]
      have hold : ∀ y, y ≠ s.next → Alike (s.get y) (((s.push (faultJSON s w)).modify w fun J =>
          { J with fault := some s.next }).get y) := by
        intro y hy
        rw [get_modify, get_push, if_neg hy]
        split
        · exact ⟨rfl, rfl, rfl, rfl, rfl⟩
        · exact .of_eq rfl
      have hkept : ∀ y, (s.get y).alive → Alike (s.get y)
          (((s.push (faultJSON s w)).modify w fun J => { J with fault := some s.next }).get y) :=
        fun y hy => hold y (Nat.ne_of_lt (lt_next_of_alive hy))
      have hroot : s.next ≠ root := Nat.ne_of_gt (lt_next_of_alive hm.root_alive)
      refine ⟨?_, ?_, ?_, hkept⟩
      · apply hm.of_added (x := s.next) hinStep _ hkept
        · rw [hnew]
          exact Option.some_ne_none _
        · rw [hnew]
          exact iff_of_true rfl ⟨rfl, hroot⟩
        · intro y _ _ hsome
          rw [hnew] at hsome
          exact absurd rfl hsome
        · rw [(hkept root hm.root_alive).json]
          exact hm.value
        · intro y hy
          by_cases hyn : y = s.next
          · exact Or.inr hyn
          · rw [(hold y hyn).alive] at hy
            exact Or.inl hy
      · rw [hnew]
        rfl
      · rw [hnew]
        rfl

/-! ### Elements -/

theorem children_grow (c : Content) (p : Slot) :
    ∃ n, (grow c p.1 p.2).children = c.children ++ List.replicate n .null := by
  obtain ⟨key, index⟩ := p
  cases c with
  | object members =>
      cases index with
      | succ index => exact ⟨0, (List.append_nil _).symm⟩
      | zero =>
          simp only [grow, Content.children]
          split
          · exact ⟨0, (List.append_nil _).symm⟩
          · next hmissing =>
              rw [Option.not_isSome_iff_eq_none] at hmissing
              exact ⟨1, by rw [alter_of_none hmissing, List.map_append]; rfl⟩
  | array elements =>
      cases key with
      | cons k key => exact ⟨0, (List.append_nil _).symm⟩
      | nil => exact ⟨_, rfl⟩
  | _ => exact ⟨0, rfl⟩

/-- The element of a container is reached by one more place, once the container has
that place. -/
theorem Accessed.mirrors {p : Slot} (hacc : Accessed s w p.1 p.2 u x) (hm : Mirrors s root t)
    (hw : Reached s root w path) :
    ∃ v, Tree.look path t = some v ∧ Mirrors u root (Tree.put (v.grow p) path t) ∧
      Reached u root x (path ++ [p]) ∧ ∀ y, (s.get y).alive → Alike (s.get y) (u.get y) := by
  have hwalive := hm.alive hw
  have helem := hacc.element
  have hinStep := hacc.inStep hm.inStep hwalive
  have hcases : ∀ y, (u.get y).alive → (s.get y).alive ∨ y = x := fun y => hacc.alive_cases
  have hreached : Reached u root x (path ++ [p]) := by
    have hp : (u.get x).place = p := Prod.ext helem.key helem.index
    rw [← hp]
    apply Reached.child helem.alive helem.parent
    exact hw.kept fun y hy => (Alike.of_eq (helem.kept y hy)).stays
  obtain ⟨r, n, hr, hread, hnodup⟩ := hm.value
  obtain ⟨rw', hrw, hfollow⟩ := hm.follow hw hr
  cases hacc with
  | cached halive hparent hkey hindex =>
      obtain ⟨a, c, old, hplace, hat, -⟩ :=
        hm.inStep.exists_place halive (hm.usable halive) id hparent
      obtain rfl := Option.some.inj (hplace.json.symm.trans hrw)
      rw [hkey, hindex] at hat
      obtain ⟨v, hlook, hv, -⟩ := read_follow hread hfollow
      have hgrow : v.grow p = v := by
        cases n with
        | zero => cases hv
        | succ n =>
            obtain ⟨w, l₁, l₂, htree, -⟩ := read_child hv hplace.contentAt hat
            exact Tree.grow_eq_self (by rw [htree, Option.isSome_some])
      refine ⟨v, hlook, ?_, hreached, fun _ _ => .of_eq rfl⟩
      rw [hgrow, Tree.put_self hlook]
      exact hm
  | @added a c f r₁ hnone hjson hc hgrown hat =>
      obtain rfl := Option.some.inj (hjson.symm.trans hrw)
      obtain ⟨v, k, hlook, hput, hputs, -⟩ := read_rewrite (f := fun v => v.grow p) hread
        hnodup hfollow hc hgrown.contentAt (fun m u hu => hu.grow (by cases m <;> rfl) p) fun m => by
          obtain ⟨k, hk⟩ := children_grow c p
          have hnull : (List.replicate k Ref.null).flatMap (footprint s.heap m) = [] := by
            cases m <;> simp [List.flatMap_replicate, footprint, Ref.cells]
          rw [hk, List.flatMap_append, hnull, List.append_nil]
      refine ⟨v, hlook, ?_, hreached, fun y hy => .of_eq (helem.kept y hy)⟩
      have hnew : ((s.onHeap f).push ((s.onHeap f).childJSON w p.1 p.2 r₁)).get s.next =
          (s.onHeap f).childJSON w p.1 p.2 r₁ := by
        rw [get_push, next_onHeap, if_pos rfl]
      apply hm.of_added hinStep hcases fun y hy => .of_eq (helem.kept y hy)
      · rw [hnew]
        exact Option.some_ne_none r₁
      · rw [hnew]
        exact iff_of_false (json_typeof_ne_fault _ _) (fun h => by cases h.1)
      · intro y hy hparent _ hplace
        rw [hnew] at hparent hplace
        exact absurd (Prod.mk.inj hplace) (hnone y hy hparent)
      · exact ⟨r, k, by rw [helem.kept root hm.root_alive, hr], hput, hputs⟩

/-- A wrapper has the type of the value that it stands for. -/
theorem Mirrors.type_at (hm : Mirrors s root t) (hw : Reached s root w path)
    (hlook : Tree.look path t = some v) : (s.get w).type = v.type := by
  obtain ⟨r, n, v', -, hlook', hread, -, htype⟩ := hm.value_at hw
  obtain rfl := Option.some.inj (hlook.symm.trans hlook')
  rw [htype, type_of_read hread]

/-- It also has its size. -/
theorem Mirrors.size_at (hm : Mirrors s root t) (hw : Reached s root w path)
    (hlook : Tree.look path t = some v) : s.size w = v.size := by
  have htype := hm.type_at hw hlook
  obtain ⟨r, n, v', hr, hlook', hread, -, -⟩ := hm.value_at hw
  obtain rfl := Option.some.inj (hlook.symm.trans hlook')
  rw [State.size, htype]
  cases v with
  | array trees =>
      obtain ⟨a, elements, m, rfl, hc, hforall⟩ := read_array hread
      simp [Tree.type, Tree.size, json_array_size, arrayAt, hr, hc, hforall.length_eq]
  | object trees =>
      obtain ⟨a, members, m, rfl, hc, hrelated⟩ := read_object hread
      have hlength := List.Forall₂.length_eq hrelated
      simp [Tree.type, Tree.size, json_object_size, objectAt, hr, hc, hlength]
  | bool b => cases b <;> rfl
  | _ => rfl

/-- Nothing hangs on a wrapper of null. -/
theorem Mirrors.childless (hm : Mirrors s root t) (htype : (s.get w).type = .null) {y : Nat}
    (hy : (s.get y).alive) : ∀ c ∈ (s.get y).within, (s.get c).parent ≠ some w := by
  intro c hc hparent
  have hcalive := (hm.inStep.holders y hy c hc).2.1
  obtain ⟨a, d, r, hplace, -, -⟩ :=
    hm.inStep.exists_place hcalive (hm.usable hcalive) id hparent
  have hdtype := hplace.type
  rw [htype] at hdtype
  cases d <;> cases hdtype

/-- Null becomes an object, and no wrapper disappears. -/
theorem opened_mirrors (hm : Mirrors s root t) (hw : Reached s root w path)
    (htype : (s.get w).type = .null) :
    Mirrors ((s.onHeap (Heap.alloc (.object []))).put w (.cell s.heap.fresh)) root
        (Tree.put (.object []) path t) ∧
      ∀ y, (s.get y).alive → Stays (s.get y)
        (((s.onHeap (Heap.alloc (.object []))).put w (.cell s.heap.fresh)).get y) := by
  have hrefs := alloc_newRefs s.heap (c := .object []) rfl
  have hnew : NewTrees s.heap (s.heap.alloc (.object [])) [.cell s.heap.fresh] [.object []] :=
    NewTrees.alloc (.nil s.heap) (fun _ _ => .nil) (Nat.le_refl _)
  refine ⟨put_mirrors hm hw hrefs hnew, fun y hy => ?_⟩
  have hwalive := hm.alive hw
  have hrep : Replaced s w (.cell s.heap.fresh) (s.heap.alloc (.object []))
      ((s.onHeap (Heap.alloc (.object []))).put w (.cell s.heap.fresh)) :=
    put_replaced hm.inStep hwalive (hm.usable hwalive) (hm.unshared hwalive) hrefs
  by_cases hyw : y = w
  · subst hyw
    rw [hrep.self]
    exact ⟨rfl, rfl, rfl, fun hfault => by cases htype.symm.trans hfault⟩
  · exact (Alike.of_eq (hrep.apart y hy hyw (hm.childless htype hy))).stays

namespace State

/-- Goes from a wrapper to an element. -/
def access (selector : Selector) : State × Nat → State × Nat
  | (s, w) =>
      match selector with
      | .key key => s.elementKey w key
      | .index index => s.elementIndex w index
      | .newElement => s.newElement w

end State

/-- A wrapper that was reached by the path, or a fault value. -/
def Found (s : State) (root x : Nat) : Option (List Slot) → Prop
  | some path => Reached s root x path
  | none => (s.get x).alive ∧ (s.get x).type = .fault

theorem Found.kept {cursor : Option (List Slot)} (hx : Found s root x cursor)
    (hkept : ∀ y, (s.get y).alive → Stays (s.get y) (u.get y)) : Found u root x cursor := by
  cases cursor with
  | some path => exact Reached.kept hx hkept
  | none =>
      obtain ⟨halive, hfault⟩ := hx
      exact ⟨(hkept x halive).alive.trans halive, (hkept x halive).fault hfault⟩

/-- An element access goes from a wrapper of a path to one of the element's path. -/
structure Accesses (s : State) (root : Nat) (u : State × Nat)
    (cursor : Tree × Option (List Slot)) : Prop where
  mirrors : Mirrors u.1 root cursor.1
  found : Found u.1 root u.2 cursor.2
  stays : ∀ y, (s.get y).alive → Stays (s.get y) (u.1.get y)

theorem Accessed.accesses {p : Slot} (hacc : Accessed s w p.1 p.2 u x) (hm : Mirrors s root t)
    (hw : Reached s root w path) (hlook : Tree.look path t = some v) :
    Accesses s root (u, x) (Tree.put (v.grow p) path t, some (path ++ [p])) := by
  obtain ⟨v', hlook', hmirrors, hreached, hkept⟩ := hacc.mirrors hm hw
  obtain rfl := Option.some.inj (hlook.symm.trans hlook')
  exact ⟨hmirrors, hreached, fun y hy => (hkept y hy).stays⟩

theorem fault_accesses (hm : Mirrors s root t) (hw : Reached s root w path) (message : Text) :
    Accesses s root ((s.setFailBit w message).fault w) (t, none) := by
  have hkept := setFailBit_alike s w message
  have hw' : Reached (s.setFailBit w message) root w path := hw.kept fun y _ => (hkept y).stays
  obtain ⟨hmirrors, halive, htype, hkept'⟩ := fault_mirrors (setFailBit_mirrors hm message) hw'
  refine ⟨hmirrors, ⟨halive, htype⟩, fun y hy => ?_⟩
  exact (hkept y).stays.trans (hkept' y ((hkept y).alive.trans hy)).stays

theorem elementKey_accesses (hm : Mirrors s root t) (hw : Reached s root w path) (key : Text) :
    Accesses s root (s.elementKey w key) (Tree.access (.key key) (t, some path)) := by
  obtain ⟨-, -, v, -, hlook, -⟩ := hm.value_at hw
  have htype := hm.type_at hw hlook
  have hwalive := hm.alive hw
  rw [Tree.access, hlook, Option.bind_some, elementKey, htype]
  cases v with
  | object members =>
      have hacc := childKey_accessed hm.inStep hwalive (hm.usable hwalive) htype
        (hm.json w hwalive) key
      exact Accessed.accesses (p := (key, 0)) hacc hm hw hlook
  | null =>
      obtain ⟨hm', hstays⟩ := opened_mirrors hm hw htype
      have hopened := put_opened hm.inStep hwalive (hm.usable hwalive) (hm.unshared hwalive)
      have hacc := childKey_accessed hopened.inStep hopened.alive hopened.usable hopened.type
        hopened.json key
      have haccesses := Accessed.accesses (p := (key, 0)) hacc hm' (hw.kept hstays)
        (Tree.look_put_self hlook (.object []))
      rw [Tree.put_put hlook] at haccesses
      refine ⟨haccesses.mirrors, haccesses.found, fun y hy => ?_⟩
      have hy' := hstays y hy
      exact hy'.trans (haccesses.stays y (hy'.alive.trans hy))
  | bool b => cases b <;> exact fault_accesses hm hw _
  | _ => exact fault_accesses hm hw _

theorem elementIndex_accesses (hm : Mirrors s root t) (hw : Reached s root w path) (index : Nat) :
    Accesses s root (s.elementIndex w index) (Tree.access (.index index) (t, some path)) := by
  obtain ⟨-, -, v, -, hlook, -⟩ := hm.value_at hw
  have htype := hm.type_at hw hlook
  have hwalive := hm.alive hw
  rw [Tree.access, hlook, Option.bind_some]
  cases v with
  | array trees =>
      have hacc := elementIndex_accessed hm.inStep hwalive (hm.usable hwalive) htype
        (hm.json w hwalive) index
      exact Accessed.accesses (p := ([], index)) hacc hm hw hlook
  | bool b =>
      rw [elementIndex, htype]
      cases b <;> exact fault_accesses hm hw _
  | _ =>
      rw [elementIndex, htype]
      exact fault_accesses hm hw _

theorem newElement_accesses (hm : Mirrors s root t) (hw : Reached s root w path) :
    Accesses s root (s.newElement w) (Tree.access .newElement (t, some path)) := by
  obtain ⟨-, -, v, -, hlook, -⟩ := hm.value_at hw
  have haccesses := elementIndex_accesses hm hw (s.size w)
  rw [hm.size_at hw hlook] at haccesses
  rw [newElement, hm.size_at hw hlook]
  rw [Tree.access, hlook, Option.bind_some] at haccesses ⊢
  cases v <;> exact haccesses

/-- Every element access goes along with the one of the plain tree. -/
theorem access_accesses {cursor : Option (List Slot)} (hm : Mirrors s root t)
    (hw : Found s root w cursor) (selector : Selector) :
    Accesses s root (State.access selector (s, w)) (Tree.access selector (t, cursor)) := by
  cases cursor with
  | none =>
      obtain ⟨halive, htype⟩ := hw
      have hself : State.access selector (s, w) = (s, w) := by
        cases selector with
        | key key => simp [State.access, elementKey, htype]
        | index index => simp [State.access, elementIndex, htype]
        | newElement => simp [State.access, newElement, elementIndex, htype]
      rw [hself]
      exact ⟨hm, ⟨halive, htype⟩, fun y _ => (Alike.of_eq rfl).stays⟩
  | some path =>
      cases selector with
      | key key => exact elementKey_accesses hm hw key
      | index index => exact elementIndex_accesses hm hw index
      | newElement => exact newElement_accesses hm hw

end

end KappaGateway.JsonWrapper

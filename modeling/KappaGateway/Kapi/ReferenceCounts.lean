import KappaGateway.Kapi.WrapperSteps
import KappaGateway.Lib.Transition

/-!
# Reference counts

The counts of Jansson's values under the operations of the wrappers. Every count
is the number of places in containers that hold the value, plus the number of
wrappers that own it, as long as no wrapper drops a reference that is not its
own. Most do so when they replace a value that lies in a container.
-/

namespace KappaGateway.JsonWrapper

open KeyedList RefCount Kutil Jansson State Transition

/-- The balance of the counts, when the program holds some more references. -/
structure Counted (s : State) (out : List Nat) : Prop where
  twice : s.heap.twice = []
  balanced : s.heap.Balanced (out ++ s.owners)

section

variable {s : State} {E : Nat → Prop} {w x a : Nat} {out : List Nat}

/-- What a wrapper owns as long as it exists. -/
def JSON.owns (J : JSON) : List Nat := if J.alive then J.owned else []

theorem owners_eq (s : State) : s.owners = s.wrappers.flatMap JSON.owns := rfl

theorem owners_push (J : JSON) : (s.push J).owners = s.owners ++ J.owns := by
  simp [owners_eq, push]

theorem count_owners_modify (halive : (s.get w).alive) (f : JSON → JSON) (b : Nat) :
    (s.modify w f).owners.count b + (s.get w).owns.count b =
      s.owners.count b + (f (s.get w)).owns.count b := by
  have hw := lt_next_of_alive halive
  have hget : s.wrappers[w]? = some (s.get w) := by
    rw [get_eq_getElem hw]
    exact List.getElem?_eq_getElem hw
  exact Heap.count_flatMap_modify JSON.owns f hget b

/-- What the destroyed wrappers owned, and what the others own. -/
theorem count_owners_delete (p : JSON → Bool) (s : State) (b : Nat) :
    s.owners.count b =
      ((s.wrappers.filter fun J => J.alive && p J).flatMap JSON.owned).count b +
        (s.delete p).owners.count b := by
  rw [owners_eq, owners_eq]
  simp only [delete]
  induction s.wrappers with
  | nil => rfl
  | cons J l ih =>
      simp only [List.flatMap_cons, List.map_cons, List.count_append, List.filter_cons, ih]
      cases halive : J.alive with
      | false => cases p J <;> simp [JSON.owns, halive]
      | true =>
          cases p J with
          | false =>
              simp [JSON.owns, halive]
              omega
          | true =>
              simp [JSON.owns, halive]
              omega

/-- New values come with the references that the program gets. -/
theorem Counted.withHeap (hc : Counted s out) {h' : Memory} {rs : List Nat}
    (hnew : NewRefs s.heap h' rs) : Counted { s with heap := h' } (rs ++ out) := by
  refine ⟨hnew.twice.trans hc.twice, ?_⟩
  have hb := hnew.balanced _ hc.balanced
  rw [← List.append_assoc] at hb
  exact hb

/-- The destructors drop what the wrappers own. -/
theorem Counted.delete (hc : Counted s out) (hs : Shape s E) (p : JSON → Bool) :
    Counted (s.delete p) out := by
  have hdead : ((s.wrappers.filter fun J => J.alive && p J).flatMap fun J =>
      J.owned ++ s.deadFault J) =
        (s.wrappers.filter fun J => J.alive && p J).flatMap JSON.owned := by
    apply List.flatMap_congr
    intro J hJ
    obtain ⟨hJ, hboth⟩ := List.mem_filter.mp hJ
    rw [Bool.and_eq_true] at hboth
    obtain ⟨x, hx, rfl⟩ := List.mem_iff_getElem.mp hJ
    rw [← get_eq_getElem hx] at hboth ⊢
    unfold deadFault
    split
    · next f hf => rw [if_pos (hs.fault x f hboth.1 hf).1, List.append_nil]
    · rw [List.append_nil]
  have hb : s.heap.Balanced ((s.wrappers.filter fun J => J.alive && p J).flatMap JSON.owned ++
      (out ++ (s.delete p).owners)) := by
    apply hc.balanced.congr
    intro b
    simp only [List.count_append, count_owners_delete p s b]
    omega
  have hheap : (s.delete p).heap =
      s.heap.release ((s.wrappers.filter fun J => J.alive && p J).flatMap JSON.owned) := by
    rw [← hdead]
    rfl
  exact ⟨by rw [hheap, hb.twice_release, hc.twice], by rw [hheap]; exact hb.release⟩

/-! ### Replacing a value -/

/-- Destroying wrappers commutes with a change of one that remains. -/
theorem delete_modify {p : JSON → Bool} {f : JSON → JSON} (hlive : (f (s.get w)).alive = true)
    (halive : (s.get w).alive) (hp : p (s.get w) = false) (hpf : p (f (s.get w)) = false) :
    (s.modify w f).delete p = (s.delete p).modify w f := by
  have hw := lt_next_of_alive halive
  have hget : s.wrappers[w]? = some (s.get w) := by
    rw [get_eq_getElem hw]
    exact List.getElem?_eq_getElem hw
  have hfilter : ∀ (l : List JSON) (i : Nat), l[i]? = some (s.get w) →
      (l.modify i f).filter (fun J => J.alive && p J) = l.filter fun J => J.alive && p J := by
    intro l
    induction l with
    | nil => simp
    | cons J l ih =>
        intro i hi
        cases i with
        | zero =>
            obtain rfl : J = s.get w := by simpa using hi
            simp [hp, hpf]
        | succ i => simp only [List.modify_succ_cons, List.filter_cons, ih i (by simpa using hi)]
  have hdead : ∀ J, (s.modify w f).deadFault J = s.deadFault J := by
    intro J
    unfold deadFault
    split
    · next g hg =>
        rw [get_modify]
        split
        · next hgw =>
            obtain ⟨rfl, -⟩ := hgw
            rw [if_pos hlive, if_pos halive]
        · rfl
    · rfl
  have hmap : ∀ (l : List JSON) (i : Nat), l[i]? = some (s.get w) →
      (l.modify i f).map (fun J => if p J then { J with alive := false } else J) =
        (l.map fun J => if p J then { J with alive := false } else J).modify i f := by
    intro l
    induction l with
    | nil => simp
    | cons J l ih =>
        intro i hi
        cases i with
        | zero =>
            obtain rfl : J = s.get w := by simpa using hi
            simp [hp, hpf]
        | succ i => simp [ih i (by simpa using hi)]
  simp only [State.delete, hdead]
  simp only [State.modify, hfilter s.wrappers w hget, hmap s.wrappers w hget]

/-- What `reset` does before the wrapper gets its new value. -/
def cleared (w : Nat) (s : State) : State :=
  (moved w (s.onHeap (json_decref (s.get w).json))).delete (s.underChild w fun _ => true)

theorem underChild_self (hs : Shape s E) (halive : (s.get w).alive) {J : JSON}
    (hwithin : J.within = (s.get w).within) : s.underChild w (fun _ => true) J = false := by
  rw [Bool.eq_false_iff]
  intro hunder
  obtain ⟨c, hc, hparent⟩ := List.any_eq_true.mp hunder
  simp only [Bool.and_true, decide_eq_true_eq] at hparent
  exact hs.parent_ne_of_le halive (Nat.le_refl w) (hwithin ▸ hc) hparent

theorem modify_modify (f g : JSON → JSON) (s : State) (w : Nat) :
    (s.modify w f).modify w g = s.modify w (g ∘ f) := by
  simp only [State.modify, List.modify_modify_eq]

theorem reset_eq (hs : Shape s E) (halive : (s.get w).alive) (j : Ref) :
    s.reset w j = (cleared w s).modify w fun J =>
      { J with json := some j, type := json_typeof s.heap j } := by
  have hparent : ∀ f : JSON → JSON, (∀ J, (f J).parent = J.parent) →
      ((s.onHeap (json_decref (s.get w).json)).modify w f).underChild w (fun _ => true) =
        s.underChild w fun _ => true := by
    intro f hf
    ext J
    simp only [underChild]
    congr 1
    ext c
    rw [get_modify]
    split
    · rw [hf, get_onHeap]
    · rfl
  have hself := get_modify_self (s := s.onHeap (json_decref (s.get w).json))
    (f := fun J => { J with json := none }) halive
  have hcommute := delete_modify (s := moved w (s.onHeap (json_decref (s.get w).json))) (w := w)
    (p := s.underChild w fun _ => true)
    (f := fun J => { J with json := some j, type := json_typeof s.heap j })
    (by rw [moved, hself]; exact halive) (by rw [moved, hself]; exact halive)
    (underChild_self hs halive (by rw [moved, hself]; rfl))
    (underChild_self hs halive (by rw [moved, hself]; rfl))
  have hunder := hparent (fun J => { J with json := some j, type := json_typeof s.heap j })
    fun _ => rfl
  rw [cleared, ← hcommute, State.reset]
  simp only [heap_onHeap, json_decref, json_typeof_release, moved, modify_modify] at hunder ⊢
  rw [hunder]
  rfl

/-- The wrapper does not drop a reference that a container has. -/
def Owning (s : State) (w : Nat) : Prop :=
  (s.get w).jsonPtrIsBorrowed → cellsOf (s.get w).json = []

theorem owned_eq (howning : Owning s w) : (s.get w).owned = cellsOf (s.get w).json := by
  unfold JSON.owned
  split
  · next hborrowed => rw [howning hborrowed]
  · rfl

theorem moved_get_self (halive : (s.get w).alive) :
    (moved w s).get w = { s.get w with json := none } :=
  get_modify_self halive

theorem count_owners_moved (halive : (s.get w).alive) (b : Nat) :
    (moved w s).owners.count b + (s.get w).owned.count b = s.owners.count b := by
  have hmodify := count_owners_modify halive (fun J => { J with json := none }) b
  have hnone : JSON.owns { s.get w with json := none } = [] := by
    simp [JSON.owns, JSON.owned, cellsOf]
  rw [hnone, List.count_nil, Nat.add_zero] at hmodify
  rwa [JSON.owns, if_pos halive] at hmodify

theorem Counted.cleared (hc : Counted s out) (hs : Shape s E) (halive : (s.get w).alive)
    (howning : Owning s w) : Counted (cleared w s) out := by
  have hb : s.heap.Balanced (cellsOf (s.get w).json ++ (out ++ (moved w s).owners)) := by
    apply hc.balanced.congr
    intro b
    have howners := count_owners_moved halive b
    rw [owned_eq howning] at howners
    simp only [List.count_append]
    omega
  have hmoved : Counted (moved w (s.onHeap (json_decref (s.get w).json))) out :=
    ⟨hb.twice_release.trans hc.twice, hb.release⟩
  exact hmoved.delete ((hs.extend (closed_release hs.closed _) (extends_release _ _)).moved w) _

theorem cleared_get_self (hs : Shape s E) (halive : (s.get w).alive) :
    (cleared w s).get w = { s.get w with json := none } := by
  have hself := moved_get_self (s := s.onHeap (json_decref (s.get w).json)) halive
  rw [cleared, get_delete_of_not, hself]
  · rfl
  · exact underChild_self hs halive (by rw [hself]; rfl)

theorem cleared_get_of_ne (hne : w ≠ x) (hchild : ∀ c ∈ (s.get x).within, (s.get c).parent ≠ some w) :
    (cleared w s).get x = s.get x := by
  have hx : (moved w (s.onHeap (json_decref (s.get w).json))).get x = s.get x :=
    moved_get_of_ne hne
  rw [cleared, get_delete_of_not, hx]
  rw [hx, Bool.eq_false_iff]
  intro hunder
  obtain ⟨c, hc, hparent⟩ := List.any_eq_true.mp hunder
  simp only [Bool.and_true, decide_eq_true_eq] at hparent
  exact hchild c hc hparent

theorem Shape.cleared (hs : Shape s E) : Shape (cleared w s) E := by
  have hunder : (JsonWrapper.moved w (s.onHeap (json_decref (s.get w).json))).underChild w
      (fun _ => true) = s.underChild w fun _ => true := by
    ext J
    simp only [underChild, moved_same JSON.parent fun _ => rfl, get_onHeap]
  rw [JsonWrapper.cleared, ← hunder]
  apply Shape.deleteChildren
  · exact (hs.extend (closed_release hs.closed _) (extends_release _ _)).moved w
  · intro x _ hx
    exact Or.inl hx

/-- A root owns its new value. -/
theorem count_owners_reset (hs : Shape s E) (halive : (s.get w).alive) (j : Ref) (b : Nat) :
    (s.reset w j).owners.count b = (JsonWrapper.cleared w s).owners.count b +
      (if (s.get w).jsonPtrIsBorrowed then [] else j.cells).count b := by
  have hself := cleared_get_self hs halive
  have hmodify := count_owners_modify (s := JsonWrapper.cleared w s) (w := w)
    (by rw [hself]; exact halive) (fun J => { J with json := some j, type := json_typeof s.heap j }) b
  have hbefore : JSON.owns ((JsonWrapper.cleared w s).get w) = [] := by
    rw [hself]
    simp [JSON.owns, JSON.owned, cellsOf]
  have hafter : JSON.owns { (JsonWrapper.cleared w s).get w with
      json := some j, type := json_typeof s.heap j } =
        if (s.get w).jsonPtrIsBorrowed then [] else j.cells := by
    rw [hself]
    simp [JSON.owns, JSON.owned, cellsOf, halive]
  rwa [hbefore, hafter, List.count_nil, Nat.add_zero, ← reset_eq hs halive] at hmodify

/-- The reference to the new value of a child is still to be stored. -/
theorem Counted.reset {j : Ref} (hc : Counted s (j.cells ++ out)) (hs : Shape s E)
    (halive : (s.get w).alive) (howning : Owning s w) :
    Counted (s.reset w j) ((if (s.get w).jsonPtrIsBorrowed then j.cells else []) ++ out) := by
  have hcleared := hc.cleared hs halive howning
  have hheap : (s.reset w j).heap = (JsonWrapper.cleared w s).heap := by
    rw [reset_eq hs halive]
    rfl
  refine ⟨by rw [hheap]; exact hcleared.twice, ?_⟩
  rw [hheap]
  apply hcleared.balanced.congr
  intro b
  simp only [List.count_append, count_owners_reset hs halive]
  split
  · simp
  · simp
    omega

/-! ### Values in places -/

/-- Only the wrappers up to one decide whether it is usable. -/
theorem usable_of_same {t : State} (hs : Shape s E) (halive : (s.get x).alive)
    (hsame : ∀ y, (s.get y).alive → y ≤ x → t.get y = s.get y) (husable : s.Usable x) :
    t.Usable x := by
  intro c hc p hp
  rw [hsame x halive (Nat.le_refl x)] at hc
  obtain ⟨hcx, hcalive, -⟩ := hs.holders x halive c hc
  rw [hsame c hcalive hcx] at hp
  obtain ⟨hpc, hpalive, -⟩ := hs.parent c p hcalive hp
  rw [hsame p hpalive (Nat.le_of_lt (Nat.lt_of_lt_of_le hpc hcx))]
  exact husable c hc p hp

/-- The value of a usable wrapper was not released. -/
theorem Counted.live (hc : Counted s out) (hs : Shape s E) (halive : (s.get x).alive)
    (husable : s.Usable x) (hE : ∀ q ∈ (s.get x).within, ¬ E q)
    (hjson : (s.get x).json = some (.cell a)) : 0 < s.heap.count a := by
  induction x using Nat.strongRecOn generalizing a with
  | ind x ih =>
      cases hparent : (s.get x).parent with
      | none =>
          have howned : (s.get x).jsonPtrIsBorrowed = false := by
            rw [Bool.eq_false_iff]
            intro hborrowed
            exact (hs.borrowed x halive).mp hborrowed hparent
          have hmem : a ∈ s.owners := by
            have hx := lt_next_of_alive halive
            apply List.mem_flatMap.mpr
            refine ⟨s.get x, ?_, ?_⟩
            · rw [get_eq_getElem hx]
              exact List.getElem_mem hx
            · simp [halive, JSON.owned, howned, hjson, cellsOf, Ref.cells]
          exact hc.balanced.pos_of_mem (List.mem_append_right _ hmem)
      | some q =>
          obtain ⟨hlt, hqalive, hwithin⟩ := hs.parent x q halive hparent
          have hx := hs.self_mem x halive
          obtain ⟨b, c, r, hplace, hat, hr⟩ := hs.exists_place halive husable (hE x hx) hparent
          rcases hr with hnone | hr
          · rw [hnone] at hjson
            cases hjson
          · obtain rfl := Option.some.inj (hr.symm.trans hjson)
            have hsub : ∀ d ∈ (s.get q).within, d ∈ (s.get x).within :=
              fun d hd => (hwithin d).mpr (Or.inr hd)
            have hlive := ih q hlt hqalive (fun d hd => husable d (hsub d hd))
              (fun d hd => hE d (hsub d hd)) hplace.json
            exact hc.balanced.pos_of_refs hlive hplace.contentAt (mem_refs_of_at hat)

/-- A container has dropped a reference, and taken over some that were held. -/
theorem Counted.rewrite {c c' : Content} {r : Ref} {gained : List Nat}
    (hc : Counted s (gained ++ out)) (hpos : 0 < s.heap.count a)
    (hcontent : s.heap.contentAt a = some c)
    (hrefs : ∀ b, (refs c').count b + r.cells.count b = (refs c).count b + gained.count b) :
    Counted (s.onHeap fun h => json_decref (some r) (h.write a c')) out := by
  have hb : (s.heap.write a c').Balanced (r.cells ++ (out ++ s.owners)) := by
    intro b
    have hbefore := hc.balanced b
    have hheld := Heap.count_held_write hpos hcontent (c := c') b
    have hsame := hrefs b
    rw [Heap.count_write]
    simp only [List.count_append] at hbefore ⊢
    omega
  exact ⟨hb.twice_release.trans hc.twice, hb.release⟩

/-- A place takes over the reference to its new value, and drops the former one. -/
theorem Counted.place {c : Content} {key : Text} {index : Nat} {r v : Ref}
    (hc : Counted s (v.cells ++ out)) (hpos : 0 < s.heap.count a)
    (hcontent : s.heap.contentAt a = some c) (hat : c.at key index = some r) :
    Counted (s.onHeap fun h => json_decref (some r) (h.write a (c.set key index v))) out :=
  hc.rewrite hpos hcontent fun b => count_refs_set hat v b

/-- The place of a value that was removed has dropped its reference. -/
theorem Counted.remove {c : Content} {key : Text} {index : Nat} {r : Ref}
    (hc : Counted s out) (hpos : 0 < s.heap.count a)
    (hcontent : s.heap.contentAt a = some c) (hat : c.at key index = some r) :
    Counted (s.onHeap fun h => json_decref (some r) (h.write a (c.remove key index))) out := by
  have hnothing : Counted s ([] ++ out) := hc
  apply hnothing.rewrite hpos hcontent
  intro b
  rw [List.count_nil, Nat.add_zero]
  exact count_refs_remove hat b

/-- The container of the parent outlives a `reset` of the child. -/
theorem Place.live_reset {q : Nat} {c : Content} (hplace : Place s w q a c) {j : Ref}
    (hc : Counted (s.reset w j) out) (hs : InStep s) (halive : (s.get w).alive)
    (husable : s.Usable w) (hj : Allocated s.heap j) : 0 < (s.reset w j).heap.count a := by
  obtain ⟨hlt, hqalive, hwithin⟩ := hs.parent w q halive hplace.parent
  have hsame : ∀ y, (s.get y).alive → y ≤ q → (s.reset w j).get y = s.get y := by
    intro y hy hyq
    have hyw := Nat.lt_of_le_of_lt hyq hlt
    exact reset_get_of_ne (Nat.ne_of_gt hyw) fun d hd =>
      hs.parent_ne_of_le hy (Nat.le_of_lt hyw) hd
  have hq := hsame q hqalive (Nat.le_refl q)
  have husableq : s.Usable q :=
    fun d hd => husable d ((hwithin d).mpr (Or.inr hd))
  apply hc.live (hs.reset hj) (x := q)
  · rw [hq]
    exact hqalive
  · exact usable_of_same hs hqalive hsame husableq
  · rw [hq]
    rintro d hd (hfalse | rfl)
    · exact hfalse
    · have hle := (hs.holders q hqalive d hd).1
      omega
  · rw [hq]
    exact hplace.json

theorem Counted.put {j : Ref} (hc : Counted s (j.cells ++ out)) (hs : InStep s)
    (halive : (s.get w).alive) (husable : s.Usable w) (hj : Allocated s.heap j)
    (hne : ∀ q ∈ (s.get w).parent, (s.get q).json ≠ some j) (howning : Owning s w) :
    Counted (s.put w j) out := by
  have hreset := hc.reset hs halive howning
  rcases put_cases hs halive husable hj hne with ⟨hparent, hput⟩ | ⟨q, a, c, r, hplace, hat, -, hput⟩
  · have howned : (s.get w).jsonPtrIsBorrowed = false := by
      rw [Bool.eq_false_iff]
      intro hborrowed
      exact (hs.borrowed w halive).mp hborrowed hparent
    rw [howned] at hreset
    rw [hput]
    exact hreset
  · rw [if_pos ((hs.borrowed w halive).mpr (by simp [hplace.parent]))] at hreset
    rw [hput]
    exact hreset.place (hplace.live_reset hreset hs halive husable hj)
      (by rw [reset_contentAt, hplace.contentAt]) hat

end

end KappaGateway.JsonWrapper

import KappaGateway.Kapi.WrapperShape

/-!
# New values

Loading a text and copying a value allocate new cells and change no other. The
result is referred to once, by the caller. A value that contains itself has no copy.
-/

namespace KappaGateway.JsonWrapper

open KeyedList RefCount Kutil Jansson State

/-- New cells, to some of which the caller has references. -/
structure NewRefs (h h' : Memory) (rs : List Nat) : Prop where
  extended : Extends h h'
  closed : Closed h → Closed h'
  allocated : ∀ b ∈ rs, (h'.contentAt b).isSome
  isNew : ∀ b ∈ rs, h.contentAt b = none
  fresh : h.fresh ≤ h'.fresh
  twice : h'.twice = h.twice
  balanced : ∀ out, h.Balanced out → h'.Balanced (rs ++ out)

namespace NewRefs

variable {h h' h'' : Memory} {rs rs' : List Nat}

theorem refl (h : Memory) : NewRefs h h [] where
  extended _ _ hc := hc
  closed hclosed := hclosed
  allocated _ hb := absurd hb List.not_mem_nil
  isNew _ hb := absurd hb List.not_mem_nil
  fresh := Nat.le_refl _
  twice := rfl
  balanced _ hb := hb

theorem trans (first : NewRefs h h' rs) (second : NewRefs h' h'' rs') :
    NewRefs h h'' (rs ++ rs') where
  extended := first.extended.trans second.extended
  closed hclosed := second.closed (first.closed hclosed)
  allocated b hb := by
    rcases List.mem_append.mp hb with hb | hb
    · obtain ⟨c, hc⟩ := Option.isSome_iff_exists.mp (first.allocated b hb)
      rw [second.extended b c hc, Option.isSome_some]
    · exact second.allocated b hb
  isNew b hb := by
    rcases List.mem_append.mp hb with hb | hb
    · exact first.isNew b hb
    · exact first.extended.contentAt_eq_none (second.isNew b hb)
  fresh := Nat.le_trans first.fresh second.fresh
  twice := second.twice.trans first.twice
  balanced out hb := by
    apply (second.balanced _ (first.balanced out hb)).congr
    intro a
    simp only [List.count_append]
    omega

/-- A new cell for references to new cells. -/
theorem alloc {c : Content} (hnew : NewRefs h h' (refs c)) : NewRefs h (h'.alloc c) [h'.fresh] where
  extended := hnew.extended.trans (extends_alloc h' c)
  closed hclosed := closed_alloc (hnew.closed hclosed) hnew.allocated
  allocated b hb := by
    rw [List.mem_singleton.mp hb, Heap.contentAt_alloc, if_pos rfl, Option.isSome_some]
  isNew b hb := by
    rw [List.mem_singleton.mp hb]
    exact hnew.extended.contentAt_eq_none Heap.contentAt_fresh
  fresh := by
    rw [Heap.fresh_alloc]
    exact Nat.le_succ_of_le hnew.fresh
  twice := hnew.twice
  balanced out hb := (hnew.balanced out hb).alloc

theorem allocated_ref {r : Ref} (hnew : NewRefs h h' r.cells) : Allocated h' r := by
  rintro a rfl
  exact hnew.allocated a (List.mem_singleton_self a)

end NewRefs

mutual

theorem load_newRefs : ∀ (t : Tree) (h : Memory), NewRefs h (load t h).1 (load t h).2.cells
  | .null, h => .refl h
  | .bool _, h => .refl h
  | .integer n, h => NewRefs.alloc (c := .integer n) (.refl h)
  | .real bits, h => NewRefs.alloc (c := .real bits) (.refl h)
  | .string s, h => NewRefs.alloc (c := .string s) (.refl h)
  | .array elements, h => NewRefs.alloc (c := .array _) (loadElements_newRefs elements h)
  | .object members, h => NewRefs.alloc (c := .object _) (loadMembers_newRefs members h)

theorem loadElements_newRefs : ∀ (ts : List Tree) (h : Memory),
    NewRefs h (loadElements ts h).1 ((loadElements ts h).2.flatMap Ref.cells)
  | [], h => .refl h
  | t :: rest, h => (load_newRefs t h).trans (loadElements_newRefs rest (load t h).1)

theorem loadMembers_newRefs : ∀ (ts : List (Text × Tree)) (h : Memory),
    NewRefs h (loadMembers ts h).1 ((loadMembers ts h).2.flatMap fun e => e.2.cells)
  | [], h => .refl h
  | (_, t) :: rest, h => (load_newRefs t h).trans (loadMembers_newRefs rest (load t h).1)

end

section

variable {h h' : Memory}

theorem copyAll_newRefs {copy : Ref → Memory → Option (Memory × Ref)}
    (hcopy : ∀ r h h' r', copy r h = some (h', r') → NewRefs h h' r'.cells) {rs rs' : List Ref}
    (hall : copyAll copy rs h = some (h', rs')) :
    NewRefs h h' (rs'.flatMap Ref.cells) ∧ rs'.length = rs.length := by
  induction rs generalizing h rs' with
  | nil =>
      obtain ⟨rfl, rfl⟩ := Prod.mk.inj (Option.some.inj hall)
      exact ⟨.refl h, rfl⟩
  | cons r rest ih =>
      simp only [copyAll, Option.bind_eq_bind, Option.bind_eq_some_iff, Option.some.injEq,
        Prod.mk.injEq, Prod.exists] at hall
      obtain ⟨h₁, r', hfirst, h₂, rest', hrest, rfl, rfl⟩ := hall
      obtain ⟨hnew, hlength⟩ := ih hrest
      exact ⟨(hcopy r h h₁ r' hfirst).trans hnew, by simp [hlength]⟩

theorem deepCopy_newRefs (n : Nat) {r r' : Ref} (hcopy : deepCopy n r h = some (h', r')) :
    NewRefs h h' r'.cells := by
  induction n generalizing r r' h h' with
  | zero =>
      cases r with
      | cell a => cases hcopy
      | _ =>
          obtain ⟨rfl, rfl⟩ := Prod.mk.inj (Option.some.inj hcopy)
          exact .refl h
  | succ n ih =>
      cases r with
      | cell a =>
          rw [deepCopy] at hcopy
          split at hcopy
          · next elements hc =>
              simp only [Option.bind_eq_bind, Option.bind_eq_some_iff, Option.some.injEq,
                Prod.mk.injEq, Prod.exists] at hcopy
              obtain ⟨h₁, rs, hall, rfl, rfl⟩ := hcopy
              exact NewRefs.alloc (c := .array rs)
                (copyAll_newRefs (fun _ _ _ _ => ih) hall).1
          · next members hc =>
              simp only [Option.bind_eq_bind, Option.bind_eq_some_iff, Option.some.injEq,
                Prod.mk.injEq, Prod.exists] at hcopy
              obtain ⟨h₁, rs, hall, rfl, rfl⟩ := hcopy
              obtain ⟨hnew, hlength⟩ := copyAll_newRefs (fun _ _ _ _ => ih) hall
              apply NewRefs.alloc (c := .object _)
              have hrefs : refs (Content.object ((members.map Prod.fst).zip rs)) =
                  rs.flatMap Ref.cells := by
                have hsnd : ((members.map Prod.fst).zip rs).map Prod.snd = rs :=
                  List.map_snd_zip (by simp at hlength ⊢; omega)
                calc ((members.map Prod.fst).zip rs).flatMap (fun e => e.2.cells)
                    = (((members.map Prod.fst).zip rs).map Prod.snd).flatMap Ref.cells := by
                      rw [List.flatMap_map]
                  _ = rs.flatMap Ref.cells := by rw [hsnd]
              rwa [hrefs]
          · next c harray hobject hc =>
              obtain ⟨rfl, rfl⟩ := Prod.mk.inj (Option.some.inj hcopy)
              have hrefs : refs c = [] := by
                cases c with
                | array elements => exact absurd rfl (harray elements)
                | object members => exact absurd rfl (hobject members)
                | _ => rfl
              exact NewRefs.alloc (by rw [hrefs]; exact .refl h)
          · cases hcopy
      | _ =>
          obtain ⟨rfl, rfl⟩ := Prod.mk.inj (Option.some.inj hcopy)
          exact .refl h

end

end KappaGateway.JsonWrapper

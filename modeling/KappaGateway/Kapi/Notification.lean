import Mathlib.Data.List.Induction
import KappaGateway.Lib.KeyedList

/-!
# Notifications

Handlers are kept in three nested maps, by their event, their URI and the type of their
wrapper. A trigger calls the handlers of the type of its arguments, and creates the maps
that it looks into. A trigger therefore calls the handler that was registered last for
its event, its URI and its type, whatever came before; but every pair of an event and a
URI that was ever used stays in the maps.
-/

namespace KappaGateway.Notification

open KeyedList

variable {Event Uri Index Handler : Type*} [DecidableEq Event] [DecidableEq Uri]
  [DecidableEq Index]

/-- `Handlers`: a handler for a type. -/
abbrev Handlers (Index Handler : Type*) := List (Index × Handler)

/-- `__handlers_repository`. -/
abbrev Repository (Event Uri Index Handler : Type*) :=
  List (Event × List (Uri × Handlers Index Handler))

/-- Changes what `__container` returns, and creates it. -/
def withContainer (e : Event) (u : Uri) (f : Handlers Index Handler → Handlers Index Handler)
    (r : Repository Event Uri Index Handler) : Repository Event Uri Index Handler :=
  alter e (fun uris => alter u (fun H => f (H.getD [])) (uris.getD [])) r

/-- What `__container` returns. -/
def container (e : Event) (u : Uri) (r : Repository Event Uri Index Handler) :
    Handlers Index Handler :=
  (((valueAt e r).getD []) |> valueAt u).getD []

/-- `handler`, and `simpleHandler` with its own event. -/
def handler (e : Event) (u : Uri) (index : Index) (function : Handler)
    (r : Repository Event Uri Index Handler) : Repository Event Uri Index Handler :=
  withContainer e u (alter index fun _ => function) r

/-- `trigger`, and `simpleTrigger` with its own event: the handlers that are called. A map
has at most one value between the bounds of a key. -/
def trigger (e : Event) (u : Uri) (index : Index) (r : Repository Event Uri Index Handler) :
    List Handler × Repository Event Uri Index Handler :=
  ((valueAt index (container e u r)).toList, withContainer e u id r)

inductive Op (Event Uri Index Handler : Type*) where
  | handler (e : Event) (u : Uri) (index : Index) (function : Handler)
  | trigger (e : Event) (u : Uri) (index : Index)

/-- The pair of an event and a URI of an operation. -/
def Op.place : Op Event Uri Index Handler → Event × Uri
  | .handler e u _ _ => (e, u)
  | .trigger e u _ => (e, u)

def next (r : Repository Event Uri Index Handler) :
    Op Event Uri Index Handler → Repository Event Uri Index Handler
  | .handler e u index function => handler e u index function r
  | .trigger e u index => (trigger e u index r).2

/-- The maps after some operations. -/
def after (ops : List (Op Event Uri Index Handler)) : Repository Event Uri Index Handler :=
  ops.foldl next []

/-- The function that an operation registers for an event, a URI and a type. -/
def Op.registers (e : Event) (u : Uri) (index : Index) :
    Op Event Uri Index Handler → Option Handler
  | .handler e' u' index' function =>
      if e' = e ∧ u' = u ∧ index' = index then some function else none
  | .trigger _ _ _ => none

/-- The function that was registered last. -/
def registered (e : Event) (u : Uri) (index : Index) (ops : List (Op Event Uri Index Handler)) :
    Option Handler :=
  (ops.filterMap (Op.registers e u index)).getLast?

/-- The pairs that have a map of handlers. -/
def places (r : Repository Event Uri Index Handler) : List (Event × Uri) :=
  r.flatMap fun e => e.2.map fun u => (e.1, u.1)

section

variable {e e' : Event} {u u' : Uri} {index : Index} {r : Repository Event Uri Index Handler}

omit [DecidableEq Index] in
theorem container_withContainer_self (f : Handlers Index Handler → Handlers Index Handler) :
    container e u (withContainer e u f r) = f (container e u r) := by
  simp only [container, withContainer, valueAt_alter_self, Option.getD_some]

omit [DecidableEq Index] in
theorem container_withContainer_of_ne (hne : ¬ (e' = e ∧ u' = u))
    (f : Handlers Index Handler → Handlers Index Handler) :
    container e' u' (withContainer e u f r) = container e' u' r := by
  unfold container withContainer
  by_cases he : e' = e
  · subst he
    have hu : u' ≠ u := fun heq => hne ⟨rfl, heq⟩
    rw [valueAt_alter_self, Option.getD_some, valueAt_alter_of_ne hu]
  · rw [valueAt_alter_of_ne he]

/-- What one operation does to the handler of an event, a URI and a type. -/
theorem valueAt_next (op : Op Event Uri Index Handler) :
    valueAt index (container e u (next r op)) =
      (op.registers e u index).or (valueAt index (container e u r)) := by
  cases op with
  | handler e' u' index' function =>
      simp only [next, handler, Op.registers]
      by_cases hplace : e = e' ∧ u = u'
      · obtain ⟨rfl, rfl⟩ := hplace
        rw [container_withContainer_self]
        by_cases hindex : index' = index
        · subst hindex
          simp
        · simp [hindex, valueAt_alter_of_ne (Ne.symm hindex)]
      · rw [container_withContainer_of_ne hplace, if_neg]
        · rfl
        · rintro ⟨rfl, rfl, -⟩
          exact hplace ⟨rfl, rfl⟩
  | trigger e' u' index' =>
      simp only [next, trigger, Op.registers, Option.none_or]
      by_cases hplace : e = e' ∧ u = u'
      · obtain ⟨rfl, rfl⟩ := hplace
        rw [container_withContainer_self]
        rfl
      · rw [container_withContainer_of_ne hplace]

theorem valueAt_after (ops : List (Op Event Uri Index Handler)) :
    valueAt index (container e u (after ops)) = registered e u index ops := by
  induction ops using List.reverseRecOn with
  | nil => rfl
  | append_singleton ops op ih =>
      rw [after, List.foldl_concat, valueAt_next, ← after, ih, registered, registered,
        List.filterMap_append]
      cases hop : op.registers e u index with
      | none => simp [hop]
      | some function => simp [hop]

/-- After any operations, a trigger calls the function that was registered last for its
event, its URI and its type, and no other. -/
theorem trigger_registered (ops : List (Op Event Uri Index Handler)) (e : Event) (u : Uri)
    (index : Index) :
    (trigger e u index (after ops)).1 = (registered e u index ops).toList := by
  rw [trigger, valueAt_after]

/-! ### The maps -/

omit [DecidableEq Index] in
/-- Each event and each URI of an event has one map. -/
structure Maps (r : Repository Event Uri Index Handler) : Prop where
  events : Unique r
  uris : ∀ e ∈ r, Unique e.2

omit [DecidableEq Index] in
theorem Maps.withContainer (hr : Maps r)
    (f : Handlers Index Handler → Handlers Index Handler) : Maps (withContainer e u f r) where
  events := hr.events.alter e _
  uris d hd := by
    rcases mem_alter hd with hd | hd
    · exact hr.uris d hd
    · rw [hd]
      apply Unique.alter
      cases hvalue : valueAt e r with
      | none => exact unique_nil
      | some uris => exact hr.uris (e, uris) (mem_of_valueAt hvalue)

omit [DecidableEq Uri] [DecidableEq Index] in
theorem mem_places (hr : Maps r) :
    (e, u) ∈ places r ↔ u ∈ ((valueAt e r).getD []).map Prod.fst := by
  constructor
  · intro hmem
    obtain ⟨d, hd, hmem⟩ := List.mem_flatMap.mp hmem
    obtain ⟨v, hv, heq⟩ := List.mem_map.mp hmem
    obtain ⟨rfl, rfl⟩ := Prod.mk.inj heq
    rw [valueAt_of_mem hr.events hd]
    exact List.mem_map_of_mem hv
  · intro hmem
    cases hvalue : valueAt e r with
    | none =>
        rw [hvalue] at hmem
        cases hmem
    | some uris =>
        rw [hvalue] at hmem
        obtain ⟨v, hv, rfl⟩ := List.mem_map.mp hmem
        exact List.mem_flatMap.mpr
          ⟨(e, uris), mem_of_valueAt hvalue, List.mem_map.mpr ⟨v, hv, rfl⟩⟩

omit [DecidableEq Event] [DecidableEq Uri] [DecidableEq Index] in
theorem nodup_places (hr : Maps r) : (places r).Nodup := by
  rw [places, List.nodup_flatMap]
  constructor
  · intro d hd
    have hkeys : (d.2.map fun v => (d.1, v.1)) = (d.2.map Prod.fst).map fun v => (d.1, v) := by
      rw [List.map_map]
      rfl
    rw [hkeys]
    exact (hr.uris d hd).map fun _ _ heq => (Prod.mk.inj heq).2
  · have hkeys : r.Pairwise fun d d' => d.1 ≠ d'.1 := List.pairwise_map.mp hr.events
    apply hkeys.imp
    intro d d' hne
    change List.Disjoint _ _
    intro p hp hp'
    obtain ⟨v, -, rfl⟩ := List.mem_map.mp hp
    obtain ⟨v', -, heq⟩ := List.mem_map.mp hp'
    exact hne (Prod.mk.inj heq).1.symm

omit [DecidableEq Index] in
theorem mem_places_withContainer (hr : Maps r)
    (f : Handlers Index Handler → Handlers Index Handler) {p : Event × Uri} :
    p ∈ places (withContainer e u f r) ↔ p = (e, u) ∨ p ∈ places r := by
  obtain ⟨e', u'⟩ := p
  rw [mem_places (hr.withContainer f), mem_places hr, withContainer]
  by_cases he : e' = e
  · subst he
    rw [valueAt_alter_self, Option.getD_some, mem_alter_keys]
    simp
  · rw [valueAt_alter_of_ne he]
    simp [he]

/-- Every pair of an event and a URI that was ever used, by a registration or by a trigger,
has one map for good, and no other pair has one. -/
theorem places_after (ops : List (Op Event Uri Index Handler)) :
    (places (after ops)).Nodup ∧
      ∀ p, p ∈ places (after ops) ↔ ∃ op ∈ ops, op.place = p := by
  have hmaps : Maps (after ops) ∧ ∀ p, p ∈ places (after ops) ↔ ∃ op ∈ ops, op.place = p := by
    induction ops using List.reverseRecOn with
    | nil => exact ⟨⟨unique_nil, by simp [after]⟩, by simp [after, places]⟩
    | append_singleton ops op ih =>
        obtain ⟨hmaps, hplaces⟩ := ih
        obtain ⟨f, hnext⟩ : ∃ f, next (after ops) op =
            withContainer op.place.1 op.place.2 f (after ops) := by
          cases op with
          | handler e u index function => exact ⟨_, rfl⟩
          | trigger e u index => exact ⟨_, rfl⟩
        rw [after, List.foldl_concat, ← after, hnext]
        refine ⟨hmaps.withContainer f, fun p => ?_⟩
        rw [mem_places_withContainer hmaps, hplaces]
        simp only [List.mem_append, List.mem_singleton]
        constructor
        · rintro (rfl | ⟨op', hop', rfl⟩)
          · exact ⟨op, Or.inr rfl, rfl⟩
          · exact ⟨op', Or.inl hop', rfl⟩
        · rintro ⟨op', hop' | rfl, rfl⟩
          · exact Or.inr ⟨op', hop', rfl⟩
          · exact Or.inl rfl
  exact ⟨nodup_places hmaps.1, hmaps.2⟩

end

end KappaGateway.Notification

import KappaGateway.Aps.MessageIndicate

/-!
# New endpoints of this device

`newEndpoint` looks for a free id from 1 to 239 when the requested one is taken, and
falls back on 241. All three ways end in a lookup that returns the endpoint with the
id if there is one already.
-/

namespace KappaGateway.MessageIndicate

open FindOrCreate

variable {H : Type*} {endpoints : List (LocalEndpoint H)} {i : UInt8}

/-- No endpoint has the id. -/
def Free (endpoints : List (LocalEndpoint H)) (i : UInt8) : Prop :=
  i ∉ endpoints.map fun x => x.id

/-- The requested id is free, or one from 1 to 239, or the one behind them. -/
def Available (endpoints : List (LocalEndpoint H)) (i : UInt8) : Prop :=
  Free endpoints i ∨ (∃ j : UInt8, 1 ≤ j ∧ j < 240 ∧ Free endpoints j) ∨ Free endpoints 241

/-- The call puts a new endpoint in front and returns it. -/
structure Fresh (endpoints : List (LocalEndpoint H)) (i : UInt8)
    (returned : Nat × List (LocalEndpoint H)) : Prop where
  added : ∃ e, returned = (0, e :: endpoints) ∧ Free endpoints e.id ∧
    (Free endpoints i → e.id = i)
  distinct : (endpoints.map fun x => x.id).Nodup → (returned.2.map fun x => x.id).Nodup

theorem endpointExist_eq_false_iff : endpointExist i endpoints = false ↔ Free endpoints i := by
  rw [← Bool.not_eq_true, endpointExist_iff]
  simp [Free]

theorem endpointPtr_of_free (h : Free endpoints i) :
    endpointPtr i endpoints = (0, .new i :: endpoints) := by
  apply lookup_of_not_mem
  simpa [Free] using h

/-- An id that is taken gives back the endpoint that has it. -/
theorem endpointPtr_of_taken (h : ¬ Free endpoints i) :
    (endpointPtr i endpoints).2 = endpoints := by
  have hmem : ∃ x ∈ endpoints, x.id = i := by simpa [Free] using h
  rw [endpointPtr, lookup_of_mem hmem]

/-- The id at which `newEndpoint` ends up. -/
def chosen (endpoints : List (LocalEndpoint H)) (i : UInt8) : UInt8 :=
  if endpointExist i endpoints then
    (((List.range' 1 239).map UInt8.ofNat).find? fun j => !endpointExist j endpoints).getD 241
  else i

theorem newEndpoint_eq (i : UInt8) (endpoints : List (LocalEndpoint H)) :
    newEndpoint i endpoints = endpointPtr (chosen endpoints i) endpoints := by
  unfold newEndpoint chosen
  split
  · cases ((List.range' 1 239).map UInt8.ofNat).find? fun j => !endpointExist j endpoints with
    | none => rfl
    | some j => rfl
  · rfl

theorem chosen_of_free (h : Free endpoints i) : chosen endpoints i = i := by
  rw [chosen, endpointExist_eq_false_iff.mpr h]
  rfl

/-- The ids that the loop tries. -/
theorem mem_tried {j : UInt8} :
    j ∈ (List.range' 1 239).map UInt8.ofNat ↔ 1 ≤ j ∧ j < 240 := by
  rw [List.mem_map]
  constructor
  · rintro ⟨n, hn, rfl⟩
    rw [List.mem_range'_1] at hn
    have hlt : n < 256 := by omega
    simp only [UInt8.le_iff_toNat_le, UInt8.lt_iff_toNat_lt, UInt8.toNat_ofNat',
      Nat.mod_eq_of_lt hlt]
    constructor
    · exact hn.1
    · exact hn.2
  · rintro ⟨hle, hlt⟩
    refine ⟨j.toNat, ?_, UInt8.ofNat_toNat⟩
    rw [List.mem_range'_1]
    rw [UInt8.le_iff_toNat_le] at hle
    rw [UInt8.lt_iff_toNat_lt] at hlt
    exact ⟨hle, hlt⟩

theorem free_chosen_iff : Free endpoints (chosen endpoints i) ↔ Available endpoints i := by
  unfold Available
  by_cases hfree : Free endpoints i
  · rw [chosen_of_free hfree]
    exact iff_of_true hfree (Or.inl hfree)
  · have hexist : endpointExist i endpoints = true := by
      rw [← Bool.not_eq_false, endpointExist_eq_false_iff]
      exact hfree
    rw [chosen, if_pos hexist]
    cases hfind :
        ((List.range' 1 239).map UInt8.ofNat).find? fun j => !endpointExist j endpoints with
    | some j =>
        have hj : Free endpoints j := by
          simpa [endpointExist_eq_false_iff] using List.find?_some hfind
        obtain ⟨hle, hlt⟩ := mem_tried.mp (List.mem_of_find?_eq_some hfind)
        exact iff_of_true hj (Or.inr (Or.inl ⟨j, hle, hlt, hj⟩))
    | none =>
        have hnone : ¬ ∃ j : UInt8, 1 ≤ j ∧ j < 240 ∧ Free endpoints j := by
          rintro ⟨j, hle, hlt, hj⟩
          have htaken := List.find?_eq_none.mp hfind j (mem_tried.mpr ⟨hle, hlt⟩)
          simp [endpointExist_eq_false_iff.mpr hj] at htaken
        simp [hfree, hnone]

/-- A call is fresh exactly if the id it chooses is free. -/
theorem fresh_iff : Fresh endpoints i (newEndpoint i endpoints) ↔ Available endpoints i := by
  rw [← free_chosen_iff, newEndpoint_eq]
  constructor
  · intro hfresh
    by_contra htaken
    obtain ⟨e, heq, -⟩ := hfresh.added
    have hlength := congrArg (fun r => r.2.length) heq
    simp [endpointPtr_of_taken htaken] at hlength
  · intro hfree
    rw [endpointPtr_of_free hfree]
    constructor
    · exact ⟨.new (chosen endpoints i), rfl, hfree, fun h => chosen_of_free h⟩
    · intro hnodup
      exact List.nodup_cons.mpr ⟨hfree, hnodup⟩

/-! ### Sequences of calls -/

/-- The endpoint at a place, by how many endpoints are behind it: nothing is ever removed,
and new endpoints join at the front. -/
def endpointNumber (returned : Nat × List (LocalEndpoint H)) : Nat :=
  returned.2.length - 1 - returned.1

/-- The endpoints that a sequence of calls returns. -/
def returnedBy : List UInt8 → List (LocalEndpoint H) → List Nat
  | [], _ => []
  | i :: rest, endpoints =>
      endpointNumber (newEndpoint i endpoints) :: returnedBy rest (newEndpoint i endpoints).2

/-- Something holds of every call of a sequence, with the endpoints it finds. -/
def EachCall (p : List (LocalEndpoint H) → UInt8 → Prop) :
    List UInt8 → List (LocalEndpoint H) → Prop
  | [], _ => True
  | i :: rest, endpoints => p endpoints i ∧ EachCall p rest (newEndpoint i endpoints).2

theorem eachCall_congr {p q : List (LocalEndpoint H) → UInt8 → Prop}
    (h : ∀ endpoints i, p endpoints i ↔ q endpoints i) (calls : List UInt8)
    (endpoints : List (LocalEndpoint H)) :
    EachCall p calls endpoints ↔ EachCall q calls endpoints := by
  induction calls generalizing endpoints with
  | nil => exact Iff.rfl
  | cons i rest ih => exact and_congr (h endpoints i) (ih _)

/-- Fresh calls return numbers that were not in use. -/
theorem le_returnedBy {calls : List UInt8} {endpoints : List (LocalEndpoint H)}
    (h : EachCall (fun endpoints i => Fresh endpoints i (newEndpoint i endpoints)) calls
      endpoints) :
    (returnedBy calls endpoints).Nodup ∧
      ∀ k ∈ returnedBy calls endpoints, endpoints.length ≤ k := by
  induction calls generalizing endpoints with
  | nil => exact ⟨List.nodup_nil, by simp [returnedBy]⟩
  | cons i rest ih =>
      obtain ⟨hfresh, hrest⟩ := h
      obtain ⟨e, heq, -⟩ := hfresh.added
      obtain ⟨hnodup, hle⟩ := ih hrest
      have hlength : (newEndpoint i endpoints).2.length = endpoints.length + 1 := by
        rw [heq, List.length_cons]
      have hnumber : endpointNumber (newEndpoint i endpoints) = endpoints.length := by
        rw [endpointNumber, hlength, heq]
        omega
      rw [returnedBy, hnumber]
      constructor
      · apply List.nodup_cons.mpr
        refine ⟨fun hmem => ?_, hnodup⟩
        have hlt := hle _ hmem
        omega
      · intro k hk
        rcases List.mem_cons.mp hk with rfl | hk
        · exact Nat.le_refl _
        · have hlt := hle k hk
          omega

/-- Whatever the endpoints of the device, all calls of a sequence are fresh and return
different endpoints exactly if each of them finds an id that it may choose. -/
theorem newEndpoint_fresh_iff (calls : List UInt8) (endpoints : List (LocalEndpoint H)) :
    (EachCall (fun endpoints i => Fresh endpoints i (newEndpoint i endpoints)) calls endpoints ∧
        (returnedBy calls endpoints).Nodup) ↔ EachCall Available calls endpoints := by
  rw [← eachCall_congr (fun _ _ => fresh_iff) calls endpoints]
  constructor
  · exact And.left
  · intro hfresh
    exact ⟨hfresh, (le_returnedBy hfresh).1⟩

/-- All ids that the loop tries are taken, and so is the one behind them. -/
def fullEndpoints : List (LocalEndpoint Unit) :=
  ((List.range' 1 239).map UInt8.ofNat ++ [241]).map .new

theorem free_fullEndpoints_iff {j : UInt8} :
    Free fullEndpoints j ↔ ¬ ((1 ≤ j ∧ j < 240) ∨ j = 241) := by
  have hids : fullEndpoints.map (fun x => x.id) = (List.range' 1 239).map UInt8.ofNat ++ [241] := by
    rw [fullEndpoints, List.map_map]
    exact List.map_id _
  rw [Free, hids, List.mem_append, mem_tried, List.mem_singleton]

/-- Endpoint 241 is given out again and again. -/
theorem newEndpoint_full :
    (newEndpoint 5 fullEndpoints).2 = fullEndpoints ∧
      ¬ Fresh fullEndpoints 5 (newEndpoint 5 fullEndpoints) ∧
      ¬ (returnedBy [5, 5] fullEndpoints).Nodup := by
  have htaken : ¬ Available fullEndpoints 5 := by
    rintro (hfree | ⟨j, hle, hlt, hfree⟩ | hfree)
    · exact free_fullEndpoints_iff.mp hfree (by decide)
    · exact free_fullEndpoints_iff.mp hfree (Or.inl ⟨hle, hlt⟩)
    · exact free_fullEndpoints_iff.mp hfree (Or.inr rfl)
  have hsame : (newEndpoint 5 fullEndpoints).2 = fullEndpoints := by
    rw [newEndpoint_eq]
    exact endpointPtr_of_taken fun hfree => htaken (free_chosen_iff.mp hfree)
  refine ⟨hsame, fun hfresh => htaken (fresh_iff.mp hfresh), ?_⟩
  simp [returnedBy, hsame]

end KappaGateway.MessageIndicate

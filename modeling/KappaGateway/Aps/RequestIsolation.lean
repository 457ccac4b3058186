import Mathlib.Data.Fintype.Basic
import KappaGateway.Aps.Restful

/-!
# When REST requests do not interfere

A call is safe from the others as long as nobody moves the vector while it holds
a reference, and nobody writes the fields of its context between its own write
and the use of what it has written.
-/

namespace KappaGateway.Restful

open GrowingVector Kutil Transition

variable {ι : Type*} {handlers : Handlers} {call : ι → Call} {s t : State ι}

/-- What the handler of its URI computes for a call. -/
def Call.expected (handlers : Handlers) (c : Call) : Option Text :=
  (handlers c.uri).bind fun h => h c.parameter c.request

/-- Every caller has got what the handler computes for it, and every reference
that is still going to be used is valid. -/
def Isolated (handlers : Handlers) (call : ι → Call) (s : State ι) : Prop :=
  (∀ i, (s.calls i).phase = .returned → ∀ rsp ∈ (call i).expected handlers,
      (s.calls i).rsp = some rsp) ∧
    ∀ i, (s.calls i).phase.holds = true → s.contexts.get (s.calls i).c ≠ none

/-- No other call of the same URI is in one of the phases. -/
def NoneIn (call : ι → Call) (s : State ι) (i : ι) (phases : List Phase) : Prop :=
  ∀ k, k ≠ i → (call k).uri = (call i).uri → (s.calls k).phase ∉ phases

/-- The vector does not move under a reference in use; a parameter is not
overwritten before its handler has run, nor a request, nor a response before it
is read. -/
def Undisturbed (call : ι → Call) : State ι × Action ι × State ι → Prop
  | (s, .getContext i _, _) =>
      (call i).uri ∈ s.contexts.items.map Context.uri ∨ s.contexts.Roomy ∨
        ∀ k, (s.calls k).phase.holds = false
  | (s, .setParameter i, _) => NoneIn call s i [.parameterSet, .requestSet]
  | (s, .setRequest i, _) => NoneIn call s i [.requestSet]
  | (s, .trigger i, _) => NoneIn call s i [.triggered]
  | (_, .readResponse _, _) => True

section

variable [DecidableEq ι] [Fintype ι]

instance (i : ι) (phases : List Phase) : Decidable (NoneIn call s i phases) :=
  inferInstanceAs (Decidable (∀ k, k ≠ i → (call k).uri = (call i).uri →
    (s.calls k).phase ∉ phases))

instance : (e : State ι × Action ι × State ι) → Decidable (Undisturbed call e)
  | (s, .getContext i _, _) =>
      decidable_of_iff (s.contexts.items.any (·.uri = (call i).uri) ∨ s.contexts.Roomy ∨
        ∀ k, (s.calls k).phase.holds = false) (by simp [Undisturbed])
  | (s, .setParameter i, _) | (s, .setRequest i, _) | (s, .trigger i, _) =>
      inferInstanceAs (Decidable (NoneIn call s i _))
  | (_, .readResponse _, _) => isTrue trivial

end

/-- The context holds what the call has written or caused so far. -/
def Agrees (handlers : Handlers) (c : Call) (phase : Phase) (x : Context) : Prop :=
  x.uri = c.uri ∧
    match phase with
    | .parameterSet => x.parameter = c.parameter
    | .requestSet => x.parameter = c.parameter ∧ x.request = c.request
    | .triggered => ∀ rsp ∈ c.expected handlers, x.response = rsp
    | _ => True

structure Separate (handlers : Handlers) (call : ι → Call) (s : State ι) : Prop where
  uris : (s.contexts.items.map Context.uri).Nodup
  own : ∀ i, (s.calls i).phase.holds = true →
    ∃ x, s.contexts.get (s.calls i).c = some x ∧ Agrees handlers (call i) (s.calls i).phase x
  answered : ∀ i, (s.calls i).phase = .returned → ∀ rsp ∈ (call i).expected handlers,
    (s.calls i).rsp = some rsp

theorem init_separate : Separate handlers call (init : State ι) := by
  constructor <;> simp [init, Vec.empty, Phase.holds]

theorem Separate.isolated (h : Separate handlers call s) : Isolated handlers call s := by
  refine ⟨h.answered, fun i hi => ?_⟩
  obtain ⟨x, hx, -⟩ := h.own i hi
  simp [hx]

/-- The context that a call gets is the one of its URI. -/
theorem getContext_get (uri : Text) (v : Vec Context) (grown : Nat) :
    ∃ x, (getContext uri v grown).2.get (getContext uri v grown).1 = some x ∧ x.uri = uri := by
  unfold getContext
  cases hk : v.items.findIdx? (·.uri = uri) with
  | none => exact ⟨.new uri, Vec.get_back_emplaceBack v _ grown, rfl⟩
  | some k =>
      obtain ⟨hlt, huri, -⟩ := List.findIdx?_eq_some_iff_getElem.mp hk
      exact ⟨v.items[k], by simp [Vec.get], by simpa using huri⟩

theorem getContext_uris {uri : Text} {v : Vec Context} {grown : Nat}
    (h : (v.items.map Context.uri).Nodup) :
    ((getContext uri v grown).2.items.map Context.uri).Nodup := by
  unfold getContext
  cases hk : v.items.findIdx? (·.uri = uri) with
  | some k => exact h
  | none =>
      have hnew : ∀ x ∈ v.items, x.uri ≠ uri := by
        simpa using List.findIdx?_eq_none_iff.mp hk
      have hfresh : uri ∉ v.items.map Context.uri := by
        rintro hmem
        obtain ⟨x, hx, rfl⟩ := List.mem_map.mp hmem
        exact hnew x hx rfl
      rw [Vec.items_emplaceBack, List.map_append, List.nodup_append]
      exact ⟨h, by simp, by simpa [Context.new] using fun x hx => hnew x hx⟩

/-- Other references survive if the URI is known or there is room. -/
theorem getContext_keeps {uri : Text} {v : Vec Context} {grown : Nat} {r : Ref} {y : Context}
    (hr : v.get r = some y) (h : uri ∈ v.items.map Context.uri ∨ v.Roomy) :
    (getContext uri v grown).2.get r = some y := by
  unfold getContext
  cases hk : v.items.findIdx? (·.uri = uri) with
  | some k => exact hr
  | none =>
      obtain hmem | hroom := h
      · obtain ⟨x, hx, rfl⟩ := List.mem_map.mp hmem
        have hnew := List.findIdx?_eq_none_iff.mp hk x hx
        simp at hnew
      · exact Vec.get_emplaceBack hr hroom

variable [DecidableEq ι]

theorem Separate.getContext (h : Separate handlers call s) {i : ι} {grown : Nat}
    (hi : (s.calls i).phase = .called)
    (hok : Undisturbed call (s, .getContext i grown, next handlers call s (.getContext i grown))) :
    Separate handlers call (next handlers call s (.getContext i grown)) := by
  obtain ⟨x, hx, huri⟩ := getContext_get (call i).uri s.contexts grown
  refine ⟨getContext_uris h.uris, fun k hk => ?_, fun k hk => ?_⟩
  · by_cases hki : k = i
    · subst hki
      exact ⟨x, by simpa [next, State.put] using hx, huri, by simp [next, State.put]⟩
    · simp only [next, State.put, Function.update_of_ne hki] at hk ⊢
      obtain ⟨y, hy, hagrees⟩ := h.own k hk
      refine ⟨y, getContext_keeps hy ?_, hagrees⟩
      obtain hknown | hroom | hnone := hok
      · exact Or.inl hknown
      · exact Or.inr hroom
      · simp [hnone k] at hk
  · by_cases hki : k = i
    · simp [next, State.put, hki] at hk
    · simp only [next, State.put, Function.update_of_ne hki] at hk ⊢
      exact h.answered k hk

/-- A step that changes the context of a call and moves it to the next phase. -/
theorem Separate.modify (h : Separate handlers call s) {i : ι} {phase : Phase} {f : Context → Context}
    (hi : (s.calls i).phase.holds = true) (hphase : phase.holds = true)
    (huri : ∀ x, (f x).uri = x.uri)
    (hself : ∀ x, Agrees handlers (call i) (s.calls i).phase x →
      Agrees handlers (call i) phase (f x))
    (hother : ∀ k, k ≠ i → (call k).uri = (call i).uri → ∀ x,
      Agrees handlers (call k) (s.calls k).phase x →
        Agrees handlers (call k) (s.calls k).phase (f x)) :
    Separate handlers call
      ⟨s.contexts.modify (s.calls i).c f, (s.put i { s.calls i with phase := phase }).calls⟩ := by
  obtain ⟨x, hx, hagrees⟩ := h.own i hi
  refine ⟨?_, fun k hk => ?_, fun k hk => ?_⟩
  · rw [Vec.map_modify huri]
    exact h.uris
  · by_cases hki : k = i
    · subst hki
      exact ⟨f x, by simpa [State.put] using Vec.get_modify_self hx f,
        by simpa [State.put] using hself x hagrees⟩
    · simp only [State.put, Function.update_of_ne hki] at hk ⊢
      obtain ⟨y, hy, hagreesk⟩ := h.own k hk
      by_cases hsame : (call k).uri = (call i).uri
      · have href : (s.calls k).c = (s.calls i).c := by
          apply Vec.ref_unique h.uris hy hx
          rw [hagreesk.1, hagrees.1, hsame]
        rw [href] at hy ⊢
        exact ⟨f y, Vec.get_modify_self hy f, hother k hki hsame y hagreesk⟩
      · have href : (s.calls i).c ≠ (s.calls k).c := by
          intro heq
          rw [← heq, hx] at hy
          obtain rfl := Option.some.inj hy
          exact hsame (hagreesk.1.symm.trans hagrees.1)
        exact ⟨y, by rw [Vec.get_modify_of_ne href]; exact hy, hagreesk⟩
  · by_cases hki : k = i
    · subst hki
      simp only [State.put, Function.update_self] at hk
      rw [hk] at hphase
      exact absurd hphase (by decide)
    · simp only [State.put, Function.update_of_ne hki] at hk ⊢
      exact h.answered k hk

@[simp] theorem handle_uri (uri : Text) (x : Context) :
    (handle handlers uri x).uri = x.uri := by
  unfold handle
  split <;> rfl

@[simp] theorem handle_parameter (uri : Text) (x : Context) :
    (handle handlers uri x).parameter = x.parameter := by
  unfold handle
  split <;> rfl

@[simp] theorem handle_request (uri : Text) (x : Context) :
    (handle handlers uri x).request = x.request := by
  unfold handle
  split <;> rfl

theorem handle_response {c : Call} {x : Context} (hparameter : x.parameter = c.parameter)
    (hrequest : x.request = c.request) {rsp : Text} (h : rsp ∈ c.expected handlers) :
    (handle handlers c.uri x).response = rsp := by
  have hbind : (handlers c.uri).bind (fun h => h x.parameter x.request) = some rsp := by
    rw [hparameter, hrequest]
    exact h
  simp [handle, hbind]

theorem Separate.step (h : Separate handlers call s) {a : Action ι}
    (hstep : Step handlers call s a t) (hok : Undisturbed call (s, a, t)) :
    Separate handlers call t := by
  obtain ⟨hen, rfl⟩ := hstep
  cases a with
  | getContext i grown => exact h.getContext hen.1 hok
  | setParameter i =>
      have hi : (s.calls i).phase = .referenced := hen
      refine h.modify (by simp [hi, Phase.holds]) rfl (fun _ => rfl) (fun x hx => ⟨hx.1, rfl⟩) ?_
      intro k hki hsame x hx
      have hnone := hok k hki hsame
      refine ⟨hx.1, ?_⟩
      cases hk : (s.calls k).phase <;> simp_all [Agrees]
  | setRequest i =>
      have hi : (s.calls i).phase = .parameterSet := hen
      refine h.modify (by simp [hi, Phase.holds]) rfl (fun _ => rfl) (fun x hx => ?_) ?_
      · rw [hi] at hx
        exact ⟨hx.1, hx.2, rfl⟩
      · intro k hki hsame x hx
        have hnone := hok k hki hsame
        refine ⟨hx.1, ?_⟩
        cases hk : (s.calls k).phase <;> simp_all [Agrees]
  | trigger i =>
      have hi : (s.calls i).phase = .requestSet := hen
      refine h.modify (by simp [hi, Phase.holds]) rfl (fun _ => handle_uri _ _) (fun x hx => ?_) ?_
      · rw [hi] at hx
        obtain ⟨huri, hparameter, hrequest⟩ := hx
        exact ⟨by simpa using huri, fun rsp hrsp => handle_response hparameter hrequest hrsp⟩
      · intro k hki hsame x hx
        have hnone := hok k hki hsame
        refine ⟨by simpa using hx.1, ?_⟩
        cases hk : (s.calls k).phase <;> simp_all [Agrees]
  | readResponse i =>
      have hi : (s.calls i).phase = .triggered := hen
      obtain ⟨x, hx, -, hresponse⟩ := h.own i (by simp [hi, Phase.holds])
      simp only [hi] at hresponse
      refine ⟨h.uris, fun k hk => ?_, fun k hk => ?_⟩
      · by_cases hki : k = i
        · simp [next, State.put, hki, Phase.holds] at hk
        · simp only [next, State.put, Function.update_of_ne hki] at hk ⊢
          exact h.own k hk
      · by_cases hki : k = i
        · subst hki
          intro rsp hrsp
          simp [next, State.put, hx, hresponse rsp hrsp]
        · simp only [next, State.put, Function.update_of_ne hki] at hk ⊢
          exact h.answered k hk

/-- In every run of any number of calls in which no call disturbs another, every
caller receives the response to its own parameter and request, and references
stay valid until the response is read. -/
theorem requests_isolated {tr : List (State ι × Action ι × State ι)}
    (path : Path (Step handlers call) init tr s) (hok : ∀ e ∈ tr, Undisturbed call e) :
    ∀ e ∈ tr, Isolated handlers call e.2.2 := by
  obtain ⟨-, hstates⟩ := path.invariant (fun _ _ _ hinv hstep hok => hinv.step hstep hok)
    init_separate hok
  exact fun e he => (hstates e he).2.isolated

/-- A handler that responds with the parameter and the request. -/
def echo : Handlers := fun _ => some fun parameter request => some (parameter ++ request)

/-- Two calls of one URI. -/
def sameUri : Fin 2 → Call
  | 0 => ⟨[cstr "devices"], cstr "a", cstr "b"⟩
  | 1 => ⟨[cstr "devices"], cstr "c", cstr "d"⟩

/-- Two calls of different URIs. -/
def otherUri : Fin 2 → Call
  | 0 => ⟨[cstr "devices"], cstr "a", cstr "b"⟩
  | 1 => ⟨[cstr "thisdevice", cstr "1"], cstr "c", cstr "d"⟩

/-- The second call begins before the first one has read its response. -/
def takingTurns : List (Action (Fin 2)) :=
  [.getContext 0 1, .setParameter 0, .getContext 1 2, .setRequest 0, .trigger 0, .setParameter 1,
    .setRequest 1, .readResponse 0, .trigger 1, .readResponse 1]

theorem requests_isolated_takingTurns :
    ∃ tr s, Path (Step echo sameUri) init tr s ∧ (s.calls 0).rsp = some (cstr "ab") ∧
      (s.calls 1).rsp = some (cstr "cd") ∧ ∀ e ∈ tr, Isolated echo sameUri e.2.2 := by
  have hpath : Path (Step echo sameUri) init (play (next echo sameUri) init takingTurns).1 _ :=
    play_path takingTurns (by decide)
  exact ⟨_, _, hpath, by decide, by decide, requests_isolated hpath (by decide)⟩

/-- The second call overwrites the parameter and the request of the first. -/
def overwriting : List (Action (Fin 2)) :=
  [.getContext 0 1, .getContext 1 2, .setParameter 0, .setRequest 0, .setParameter 1,
    .setRequest 1, .trigger 0, .readResponse 0]

/-- The context of the second URI does not fit into the storage of the first. -/
def growing : List (Action (Fin 2)) := [.getContext 0 1, .getContext 1 2]

/-- The first caller gets the response to the second one's request; or its
reference is dangling before it has written anything. -/
theorem requests_disturbed :
    (∃ tr s, Path (Step echo sameUri) init tr s ∧ (s.calls 0).rsp = some (cstr "cd") ∧
      ¬ ∀ e ∈ tr, Isolated echo sameUri e.2.2) ∧
    ∃ tr s, Path (Step echo otherUri) init tr s ∧ s.contexts.get (s.calls 0).c = none ∧
      ¬ ∀ e ∈ tr, Isolated echo otherUri e.2.2 := by
  constructor
  · refine ⟨_, _, play_path overwriting (by decide), by decide, fun hall => ?_⟩
    have hlast := (hall _ (List.getLast_mem (by decide))).1 0 (by decide) (cstr "ab") (by decide)
    exact absurd hlast (by decide)
  · refine ⟨_, _, play_path growing (by decide), by decide, fun hall => ?_⟩
    have hlast := (hall _ (List.getLast_mem (by decide))).2 0 (by decide)
    exact absurd hlast (by decide)

end KappaGateway.Restful

import Mathlib.Data.List.Induction
import KappaGateway.Lib.CriticalSection
import KappaGateway.Kapi.KbusLog

/-!
# Loggers of several threads

Threads add values and commit, each call under the semaphore of the file, in any order and
interleaved in any way. Every value that is added is in the next file that is written, in
the order in which the calls got the semaphore, and in no other file; what was added since
the last commit is in memory.
-/

namespace KappaGateway.Kbus

open KeyedList RefCount Kutil Jansson Transition CriticalSection

/-- A name and a type for `kbAddObj`, for each logger. -/
def opened (utf8 : Text → Bool) (objs : List (Option Text × UInt8)) : KbFile :=
  objs.foldl (fun y o => (kbAddObj utf8 o.1 o.2 y).2) kbOpen

/-- The loggers have different names that a commit does not use itself. -/
structure Distinct (utf8 : Text → Bool) (loggers : List (Text × UInt8)) : Prop where
  valid : ∀ e ∈ loggers, utf8 e.1
  types : ∀ e ∈ loggers, e.2 = KBSTRUC ∨ e.2 = KBARRAY
  names : (loggers.map Prod.fst).Nodup
  free : ∀ e ∈ loggers, Free e.1

def Log.opened (loggers : List (Text × UInt8)) : Log :=
  loggers.foldl (fun l e => l.addObj e.1 e.2) .empty

def Event.isCommit : Event → Bool
  | .commit _ => true
  | .record _ _ _ => false

/-- The time of a commit. -/
def Event.time : Event → Option Int
  | .commit time => some time
  | .record _ _ _ => none

/-- What an event does to the value of a logger, unless it is written. -/
def collectEvent (utf8 : Text → Bool) (handle : Nat) (t : Tree) : Event → Tree
  | .record handle' name value => if handle' = handle then recorded utf8 name value t else t
  | .commit _ => t

/-- What some events add to the value of a logger. -/
def collect (utf8 : Text → Bool) (handle : Nat) (t : Tree) (events : List Event) : Tree :=
  events.foldl (collectEvent utf8 handle) t

/-- The member of an object. -/
def memberAt (name : Text) (t : Tree) : Option Tree := t.at (name, 0)

section

variable {utf8 : Text → Bool} {l : Log} {name : Text} {type : UInt8} {handle : Nat} {t : Tree}

theorem emptied_eq (hfits : Fits type t) : emptied t = emptyValue type := by
  cases t with
  | object members => exact (if_pos hfits).symm
  | array elements =>
      have htype : type = KBARRAY := hfits
      have hstruc : type ≠ KBSTRUC := by
        rw [htype]
        decide
      exact (if_neg hstruc).symm
  | _ => exact absurd hfits id

theorem Log.WellFormed.step (hl : l.WellFormed) (e : Event) : (l.step utf8 e).WellFormed := by
  cases e <;> exact ⟨hl.names, hl.free⟩

theorem loggers_step (l : Log) (e : Event) : (l.step utf8 e).loggers = l.loggers := by
  cases e <;> rfl

/-- The value of a logger after a record. -/
theorem valueAt_record (hl : l.WellFormed) (hlogger : l.loggers[handle]? = some (name, type))
    (ht : valueAt name l.members = some t) (handle' : Nat) (key : Option Text)
    (value : Option Tree) :
    valueAt name (l.record utf8 handle' key value).members =
      some (collectEvent utf8 handle t (.record handle' key value)) := by
  rw [Log.record, collectEvent]
  show valueAt name (recordedAt utf8 l.loggers handle' key value l.members) = _
  unfold recordedAt
  by_cases hhandle : handle' = handle
  · subst hhandle
    simp only [hlogger, if_true]
    exact valueAt_update_self _ ht
  · rw [if_neg hhandle]
    split
    · next name' type' hlogger' =>
        rw [← ht]
        apply valueAt_update_of_ne
        rintro rfl
        apply hhandle
        obtain ⟨hlt, -⟩ := List.getElem?_eq_some_iff.mp hlogger'
        apply (List.getElem?_inj (by rwa [List.length_map]) hl.names).mp
        rw [List.getElem?_map, List.getElem?_map, hlogger, hlogger']
        rfl
    · exact ht

/-- What is written of a logger, and what is in memory. -/
theorem Log.run_written (utf8 : Text → Bool) (hl : l.WellFormed)
    (hlogger : l.loggers[handle]? = some (name, type))
    (ht : valueAt name l.members = some t) (hfits : Fits type t) (events : List Event) :
    ∃ first rest, events.splitOnP Event.isCommit = first :: rest ∧
      (l.run utf8 events).written.map (memberAt name) ++
          [valueAt name (l.run utf8 events).members] =
        l.written.map (memberAt name) ++ some (collect utf8 handle t first) ::
          rest.map fun events => some (collect utf8 handle (emptyValue type) events) := by
  induction events generalizing l t with
  | nil =>
      refine ⟨[], [], List.splitOnP_nil, ?_⟩
      show l.written.map _ ++ [valueAt name l.members] = _
      rw [ht]
      rfl
  | cons e events ih =>
      have hlogger' : (l.step utf8 e).loggers[handle]? = some (name, type) := by
        rw [loggers_step]
        exact hlogger
      have hstep : (l.step utf8 e).WellFormed := hl.step e
      cases e with
      | record handle' key value =>
          obtain ⟨first, rest, hsplit, hwritten⟩ := ih hstep hlogger'
            (valueAt_record hl hlogger ht handle' key value) (by
              unfold collectEvent
              dsimp only
              split
              · exact hfits.recorded
              · exact hfits)
          refine ⟨.record handle' key value :: first, rest, ?_, ?_⟩
          · rw [List.splitOnP_cons_eq_if_modifyHead, hsplit]
            rfl
          · exact hwritten
      | commit time =>
          have hstamped : valueAt name (l.stamped time) = valueAt name l.members :=
            valueAt_stamped (hl.free _ (List.mem_of_getElem? hlogger))
          have hmember := hstamped.trans ht
          have hempty : valueAt name (l.commit time).members = some (emptyValue type) := by
            have hmem := List.mem_map_of_mem (f := Prod.fst) (List.mem_of_getElem? hlogger)
            rw [← emptied_eq hfits, Log.commit, valueAt_emptied hl.names hmember, if_pos hmem]
          obtain ⟨first, rest, hsplit, hwritten⟩ := ih hstep hlogger' hempty (by
            rw [← emptied_eq hfits]
            exact hfits.emptied)
          refine ⟨[], first :: rest, ?_, ?_⟩
          · rw [List.splitOnP_cons_eq_if_modifyHead, hsplit]
            rfl
          · have hdump : (l.commit time).written.map (memberAt name) =
                l.written.map (memberAt name) ++ [some t] := by
              rw [Log.commit, List.map_append, List.map_singleton]
              congr 2
            have hrun : (l.run utf8 (.commit time :: events)) =
                (l.commit time).run utf8 events := rfl
            rw [show l.step utf8 (.commit time) = l.commit time from rfl, hdump] at hwritten
            rw [hrun, hwritten, List.append_assoc]
            rfl

/-- The numbers and the times of what is written. -/
theorem Log.run_stamps (utf8 : Text → Bool) (l : Log) (events : List Event) :
    (l.run utf8 events).written.map (fun t => (memberAt (cstr "seqnum") t,
        memberAt (cstr "unixtime") t)) =
      l.written.map (fun t => (memberAt (cstr "seqnum") t, memberAt (cstr "unixtime") t)) ++
        (events.filterMap Event.time).mapIdx fun i time =>
          (some (.integer (l.seqNum + UInt32.ofNat i).toNat), some (.integer time)) := by
  induction events generalizing l with
  | nil => exact (List.append_nil _).symm
  | cons e events ih =>
      show ((l.step utf8 e).run utf8 events).written.map _ = _
      rw [ih]
      cases e with
      | record handle' key value =>
          rfl
      | commit time =>
          have hne : cstr "seqnum" ≠ cstr "unixtime" := by decide
          have hnumber : memberAt (cstr "seqnum") (.object (l.stamped time)) =
              some (.integer l.seqNum.toNat) := by
            show valueAt (cstr "seqnum") (l.stamped time) = _
            rw [Log.stamped, valueAt_alter_of_ne hne, valueAt_alter_self]
          have htime : memberAt (cstr "unixtime") (.object (l.stamped time)) =
              some (.integer time) := valueAt_alter_self _ _ _
          simp only [Log.step, Log.commit, List.map_append, List.map_cons, List.map_nil, hnumber,
            htime, List.filterMap_cons, Event.time, List.mapIdx_cons, List.append_assoc,
            List.cons_append, List.nil_append]
          congr 2
          · simp
          · apply List.mapIdx_eq_mapIdx_iff.mpr
            intro i hi
            have hsum : l.seqNum + 1 + UInt32.ofNat i = l.seqNum + UInt32.ofNat (i + 1) := by
              rw [UInt32.ofNat_add, UInt32.add_assoc, UInt32.add_comm 1]
              rfl
            rw [hsum]

/-- An open file is the log of its loggers. -/
theorem shows_opened {loggers : List (Text × UInt8)} (hdistinct : Distinct utf8 loggers) :
    Shows (opened utf8 (loggers.map fun e => (some e.1, e.2))) (.opened loggers) ∧
      (Log.opened loggers).loggers = loggers ∧ (Log.opened loggers).written = [] ∧
      (Log.opened loggers).seqNum = 0 ∧
      ∀ e ∈ loggers, valueAt e.1 (Log.opened loggers).members = some (emptyValue e.2) := by
  induction loggers using List.reverseRecOn with
  | nil => exact ⟨shows_kbOpen, rfl, rfl, rfl, by simp⟩
  | append_singleton loggers e ih =>
      have hsub : ∀ d ∈ loggers, d ∈ loggers ++ [e] := fun d hd => List.mem_append_left _ hd
      have hnames := hdistinct.names
      rw [List.map_append, List.nodup_append] at hnames
      obtain ⟨hshows, hloggers, hwritten, hseq, hvalues⟩ := ih
        ⟨fun d hd => hdistinct.valid d (hsub d hd), fun d hd => hdistinct.types d (hsub d hd),
          hnames.1, fun d hd => hdistinct.free d (hsub d hd)⟩
      have hmem : e ∈ loggers ++ [e] := List.mem_append_right _ (List.mem_singleton_self e)
      have hfresh : e.1 ∉ loggers.map Prod.fst := by
        intro hin
        exact hnames.2.2 e.1 hin e.1 (List.mem_singleton_self _) rfl
      have hopened : Log.opened (loggers ++ [e]) = (Log.opened loggers).addObj e.1 e.2 := by
        simp [Log.opened]
      have hfile : opened utf8 ((loggers ++ [e]).map fun e => (some e.1, e.2)) =
          (kbAddObj utf8 (some e.1) e.2
            (opened utf8 (loggers.map fun e => (some e.1, e.2)))).2 := by
        simp [opened]
      rw [hopened, hfile]
      refine ⟨?_, ?_, hwritten, hseq, ?_⟩
      · apply hshows.kbAddObj (hdistinct.valid e hmem) _ (hdistinct.free e hmem)
          (hdistinct.types e hmem)
        rw [hloggers]
        exact hfresh
      · simp [Log.addObj, hloggers]
      · intro d hd
        rcases List.mem_append.mp hd with hd | hd
        · have hne : d.1 ≠ e.1 := fun heq => hfresh (heq ▸ List.mem_map_of_mem hd)
          exact (valueAt_alter_of_ne hne _ _).trans (hvalues d hd)
        · rw [List.mem_singleton.mp hd]
          exact valueAt_alter_self _ _ _

end

/-! ### Threads -/

section

variable {T : Type*} [DecidableEq T] {utf8 : Text → Bool} {loggers : List (Text × UInt8)}
  {s : State KbFile T Call} {tr : List (State KbFile T Call × Action T Call × State KbFile T Call)}

/-- The calls of a run, in the order in which they got the semaphore. -/
def events (utf8 : Text → Bool)
    (tr : List (State KbFile T Call × Action T Call × State KbFile T Call)) : List Event :=
  (begun tr).map (Call.event utf8)

theorem Shows.perform {y : KbFile} {l : Log} (hshows : Shows y l) (call : Call) :
    Shows (perform (body utf8 call) y) (l.step utf8 (call.event utf8)) := by
  cases call with
  | kbAddInt handle name integer => exact hshows.record handle name _
  | kbAddStr handle name str => exact hshows.record handle name _
  | kbAddJSON handle name json => exact hshows.record handle name _
  | kbCommit time => exact hshows.commit time

theorem Shows.performAll {y : KbFile} {l : Log} (hshows : Shows y l) (calls : List Call) :
    Shows (performAll (body utf8) calls y) (l.run utf8 (calls.map (Call.event utf8))) := by
  induction calls generalizing y l with
  | nil => exact hshows
  | cons call calls ih => exact ih (hshows.perform call)

/-- Between calls, the file is the log of the calls. -/
theorem shows_of_quiet (hdistinct : Distinct utf8 loggers)
    (path : Path (Step (body utf8))
      (init (opened utf8 (loggers.map fun e => (some e.1, e.2)))) tr s)
    (hquiet : s.Quiet) : Shows s.shared ((Log.opened loggers).run utf8 (events utf8 tr)) := by
  rw [shared_of_quiet path hquiet]
  exact (shows_opened hdistinct).1.performAll (begun tr)

/-- In any interleaving, the files that are written have of a logger what was added between
the commits, in the order in which the calls got the semaphore, and the memory has what was
added since. -/
theorem nothing_lost (hdistinct : Distinct utf8 loggers)
    (path : Path (Step (body utf8))
      (init (opened utf8 (loggers.map fun e => (some e.1, e.2)))) tr s)
    (hquiet : s.Quiet) {handle : Nat} {name : Text} {type : UInt8}
    (hlogger : loggers[handle]? = some (name, type)) :
    s.shared.written.map (fun t => t.bind (memberAt name)) ++
        [(treeOf s.shared.heap (some s.shared.kbDataBus)).bind (memberAt name)] =
      ((events utf8 tr).splitOnP Event.isCommit).map fun calls =>
        some (collect utf8 handle (emptyValue type) calls) := by
  have hshows := shows_of_quiet hdistinct path hquiet
  obtain ⟨hopened, hloggers, hwritten, -, hvalues⟩ := shows_opened hdistinct
  have hmem := List.mem_of_getElem? hlogger
  obtain ⟨first, rest, hsplit, hrun⟩ := Log.run_written utf8 hopened.wellFormed
    (by rw [hloggers]; exact hlogger) (hvalues _ hmem)
    (fits_emptyValue (hdistinct.types _ hmem)) (events utf8 tr)
  rw [hwritten] at hrun
  rw [hshows.onBus.bus_eq, hshows.written, List.map_map, hsplit]
  exact hrun

/-- What the files and the memory have of a logger. -/
def seen (name : Text) (y : KbFile) : List (Option Tree) :=
  y.written.map (fun t => t.bind (memberAt name)) ++
    [(treeOf y.heap (some y.kbDataBus)).bind (memberAt name)]

/-- Two loggers, and calls that add to either before and after a commit. -/
def twoLoggers : List (Text × UInt8) := [(cstr "log", KBARRAY), (cstr "status", KBSTRUC)]

def twoLoggersCalls : List (Bool × Call) :=
  [(true, .kbAddInt 0 none 5), (false, .kbAddInt 1 (some (cstr "level")) 3),
    (true, .kbCommit 1000), (false, .kbAddInt 1 (some (cstr "level")) 4),
    (true, .kbAddStr 0 none (some (cstr "on")))]

theorem nothing_lost_twoLoggers : ∃ (tr : List (State KbFile Bool Call × Action Bool Call ×
      State KbFile Bool Call)) (s : State KbFile Bool Call),
    begun tr = twoLoggersCalls.map Prod.snd ∧
    seen (cstr "log") s.shared =
      [some (.array [.integer 5]), some (.array [.string (cstr "on")])] ∧
    seen (cstr "status") s.shared =
      [some (.object [(cstr "level", .integer 3)]),
        some (.object [(cstr "level", .integer 4)])] := by
  have hdistinct : Distinct (fun _ => true) twoLoggers :=
    ⟨fun _ _ => rfl, by decide, by decide, by simp [twoLoggers, Free]; decide⟩
  obtain ⟨tr, s, path, hbegun, hquiet⟩ := exists_run (T := Bool) (body fun _ => true)
    (opened (fun _ => true) (twoLoggers.map fun e => (some e.1, e.2))) twoLoggersCalls
  have hlog : twoLoggers[0]? = some (cstr "log", KBARRAY) := rfl
  have hstatus : twoLoggers[1]? = some (cstr "status", KBSTRUC) := rfl
  refine ⟨tr, s, hbegun, (nothing_lost hdistinct path hquiet hlog).trans ?_,
    (nothing_lost hdistinct path hquiet hstatus).trans ?_⟩
  · rw [events, hbegun]
    rfl
  · rw [events, hbegun]
    rfl

/-- In any interleaving, the files are numbered one after the other, modulo 2^32, and each has
the time of its commit. -/
theorem numbered (hdistinct : Distinct utf8 loggers)
    (path : Path (Step (body utf8))
      (init (opened utf8 (loggers.map fun e => (some e.1, e.2)))) tr s)
    (hquiet : s.Quiet) :
    s.shared.written.map (fun t => (t.bind (memberAt (cstr "seqnum")),
        t.bind (memberAt (cstr "unixtime")))) =
      ((events utf8 tr).filterMap Event.time).mapIdx fun i time =>
        (some (.integer (i % 4294967296 : Nat)), some (.integer time)) := by
  have hshows := shows_of_quiet hdistinct path hquiet
  obtain ⟨-, -, hwritten, hseq, -⟩ := shows_opened hdistinct
  have hrun := Log.run_stamps utf8 (Log.opened loggers) (events utf8 tr)
  rw [hwritten, hseq] at hrun
  rw [hshows.written, List.map_map]
  refine hrun.trans ?_
  apply List.mapIdx_eq_mapIdx_iff.mpr
  intro i hi
  simp

theorem numbered_log : ∃ (tr : List (State KbFile Bool Call × Action Bool Call ×
      State KbFile Bool Call)) (s : State KbFile Bool Call),
    begun tr = [.kbCommit 1000, .kbCommit 1002] ∧
    s.shared.written.map (fun t => (t.bind (memberAt (cstr "seqnum")),
        t.bind (memberAt (cstr "unixtime")))) =
      [(some (.integer 0), some (.integer 1000)), (some (.integer 1), some (.integer 1002))] := by
  have hdistinct : Distinct (fun _ => true) [(cstr "log", KBARRAY)] :=
    ⟨by simp, by simp, by simp, by simp [Free]; decide⟩
  obtain ⟨tr, s, path, hbegun, hquiet⟩ := exists_run (T := Bool) (body fun _ => true)
    (opened (fun _ => true) ([(cstr "log", KBARRAY)].map fun e => (some e.1, e.2)))
    [(false, .kbCommit 1000), (true, .kbCommit 1002)]
  refine ⟨tr, s, hbegun, (numbered hdistinct path hquiet).trans ?_⟩
  rw [events, hbegun]
  rfl

end

end KappaGateway.Kbus

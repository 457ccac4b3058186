import KappaGateway.Kapi.HeldTrees
import KappaGateway.Kapi.Kbus

/-!
# What the log bus writes

The log without its memory: the members of the bus as plain trees. As long as the loggers
have different names, none of which is the name of the sequence number or of the time, the
bus holds the members of the log, and each handle is the value of its own member.
-/

namespace KappaGateway.Kbus

open KeyedList RefCount Kutil Jansson JsonWrapper

structure Log where
  seqNum : UInt32
  members : List (Text × Tree)
  loggers : List (Text × UInt8)
  written : List Tree

/-- A member, if there are both its key and its value. -/
def withMember (key : Option Text) (value : Option Tree) (members : List (Text × Tree)) :
    List (Text × Tree) :=
  match key, value with
  | some key, some v => alter key (fun _ => v) members
  | _, _ => members

/-- The value of a logger with one more record. A value that could not be made, or one
whose name is not UTF-8, is lost. -/
def recorded (utf8 : Text → Bool) (name : Option Text) (value : Option Tree) : Tree → Tree
  | .object members => .object (withMember (name.filter utf8) value members)
  | .array elements => .array (elements ++ value.toList)
  | t => t

def emptied : Tree → Tree
  | .object _ => .object []
  | .array _ => .array []
  | t => t

/-- Changes the value of a member. -/
def update (key : Text) (f : Tree → Tree) (members : List (Text × Tree)) : List (Text × Tree) :=
  alter key (fun t => f (t.getD .null)) members

/-- The members when all values of loggers are empty. -/
def emptiedAll (loggers : List (Text × UInt8)) (trees : List (Text × Tree)) :
    List (Text × Tree) :=
  loggers.foldl (fun trees e => update e.1 emptied trees) trees

/-- The members after a record for the logger with a handle. -/
def recordedAt (utf8 : Text → Bool) (loggers : List (Text × UInt8)) (handle : Nat)
    (name : Option Text) (value : Option Tree) (trees : List (Text × Tree)) :
    List (Text × Tree) :=
  match loggers[handle]? with
  | some (key, _) => update key (recorded utf8 name value) trees
  | none => trees

namespace Log

def empty : Log := ⟨0, [], [], []⟩

def addObj (name : Text) (type : UInt8) (l : Log) : Log :=
  { l with
    members := alter name (fun _ => emptyValue type) l.members
    loggers := l.loggers ++ [(name, type)] }

def record (utf8 : Text → Bool) (handle : Nat) (name : Option Text) (value : Option Tree)
    (l : Log) : Log :=
  { l with members := recordedAt utf8 l.loggers handle name value l.members }

/-- The members with the sequence number and the time of a commit. -/
def stamped (time : Int) (l : Log) : List (Text × Tree) :=
  alter (cstr "unixtime") (fun _ => .integer time)
    (alter (cstr "seqnum") (fun _ => .integer l.seqNum.toNat) l.members)

def commit (time : Int) (l : Log) : Log :=
  { l with
    seqNum := l.seqNum + 1
    members := emptiedAll l.loggers (l.stamped time)
    written := l.written ++ [.object (l.stamped time)] }

end Log

/-- What a call does to the log. -/
inductive Event where
  | record (handle : Nat) (name : Option Text) (value : Option Tree)
  | commit (time : Int)

def Call.event (utf8 : Text → Bool) : Call → Event
  | .kbAddInt handle name integer => .record handle name (some (.integer integer))
  | .kbAddStr handle name str => .record handle name ((str.filter utf8).map .string)
  | .kbAddJSON handle name json => .record handle name (some json)
  | .kbCommit time => .commit time

def Log.step (utf8 : Text → Bool) (l : Log) : Event → Log
  | .record handle name value => l.record utf8 handle name value
  | .commit time => l.commit time

/-- The log after some events. -/
def Log.run (utf8 : Text → Bool) (l : Log) (events : List Event) : Log :=
  events.foldl (Log.step utf8) l

/-- The value of a logger of a type. -/
def Fits (type : UInt8) : Tree → Prop
  | .object _ => type = KBSTRUC
  | .array _ => type = KBARRAY
  | _ => False

/-- A name that a commit does not use itself. -/
def Free (name : Text) : Prop := name ≠ cstr "seqnum" ∧ name ≠ cstr "unixtime"

/-- The loggers have different names that a commit does not use itself. -/
structure Log.WellFormed (l : Log) : Prop where
  names : (l.loggers.map Prod.fst).Nodup
  free : ∀ e ∈ l.loggers, Free e.1

/-- The memory is a bus with some members. -/
structure Bus (h : Memory) (b : Nat) (members : List (Text × Ref)) (trees : List (Text × Tree)) :
    Prop where
  content : h.contentAt b = some (.object members)
  holds : Holds h b (.object trees)

/-- The handles are the values of the loggers on the bus. -/
def Handles (members : List (Text × Ref)) : List KbData → List (Text × UInt8) → Prop :=
  List.Forall₂ fun x e => x.type = e.2 ∧ valueAt e.1 members = some x.data

/-- The bus of a file has some members, and the values of the loggers among them. -/
structure OnBus (y : KbFile) (loggers : List (Text × UInt8)) (trees : List (Text × Tree)) :
    Prop where
  bus : ∃ b members, y.kbDataBus = .cell b ∧ Bus y.heap b members trees ∧
    Handles members y.kbData loggers
  fits : ∀ e ∈ loggers, ∃ t, valueAt e.1 trees = some t ∧ Fits e.2 t

/-- A file is a log. -/
structure Shows (y : KbFile) (l : Log) : Prop where
  wellFormed : l.WellFormed
  seqNum : y.seqNum = l.seqNum
  written : y.written = l.written.map some
  onBus : OnBus y l.loggers l.members

section

variable {utf8 : Text → Bool} {h : Memory} {b d : Nat} {members : List (Text × Ref)}
  {trees : List (Text × Tree)} {r : Ref} {t : Tree} {x : KbData} {key : Text}
  {name : Option Text} {value : Option Tree}

theorem fits_emptyValue {type : UInt8} (htype : type = KBSTRUC ∨ type = KBARRAY) :
    Fits type (emptyValue type) := by
  rcases htype with rfl | rfl <;> rfl

theorem Fits.recorded {type : UInt8} (hfits : Fits type t) :
    Fits type (recorded utf8 name value t) := by
  cases t <;> exact hfits

theorem Fits.emptied {type : UInt8} (hfits : Fits type t) : Fits type (emptied t) := by
  cases t <;> exact hfits

theorem update_eq (f : Tree → Tree) (hvalue : valueAt key trees = some t) :
    update key f trees = alter key (fun _ => f t) trees := by
  induction trees with
  | nil => cases hvalue
  | cons e trees ih =>
      rw [valueAt] at hvalue
      rw [update, alter, alter]
      split at hvalue
      · next hkey =>
          obtain rfl := Option.some.inj hvalue
          rw [if_pos hkey, if_pos hkey]
          rfl
      · next hkey =>
          rw [if_neg hkey, if_neg hkey, ← ih hvalue]
          rfl

theorem valueAt_update_self (f : Tree → Tree) (hvalue : valueAt key trees = some t) :
    valueAt key (update key f trees) = some (f t) := by
  rw [update_eq f hvalue, valueAt_alter_self]

theorem valueAt_update_of_ne {key' : Text} (hne : key' ≠ key) (f : Tree → Tree) :
    valueAt key' (update key f trees) = valueAt key' trees :=
  valueAt_alter_of_ne hne _ trees

/-! ### The values of the loggers -/

theorem contentAt_set_of_ne (hne : d ≠ b) (v : Option Ref) :
    (json_object_set_new (some (.cell d)) key v h).contentAt b = h.contentAt b := by
  unfold json_object_set_new
  split
  · rfl
  · exact Heap.contentAt_release _ _ _
  · next hobject =>
      obtain ⟨hcell, -⟩ := objectAt_eq_some.mp hobject
      obtain rfl := Ref.cell.inj (Option.some.inj hcell)
      split
      · exact Heap.contentAt_release _ _ _
      · rw [json_decref, Heap.contentAt_release, Heap.contentAt_write, if_neg hne]

theorem contentAt_append_of_ne (hne : d ≠ b) (v : Ref) :
    (json_array_append_new (some (.cell d)) v h).contentAt b = h.contentAt b := by
  unfold json_array_append_new
  split
  · next harray =>
      obtain ⟨hcell, -⟩ := arrayAt_eq_some.mp harray
      obtain rfl := Ref.cell.inj (Option.some.inj hcell)
      split
      · exact Heap.contentAt_release _ _ _
      · rw [Heap.contentAt_write, if_neg hne]
  · exact Heap.contentAt_release _ _ _

/-- The value of a logger on the bus. -/
structure Child (h : Memory) (b : Nat) (trees : List (Text × Tree)) (key : Text) (r : Ref)
    (t : Tree) (d : Nat) (c : Content) : Prop where
  cell : r = .cell d
  content : h.contentAt d = some c
  apart : d ≠ b
  follow : follow h [(key, 0)] (.cell b) = some (.cell d)
  look : Tree.look [(key, 0)] (.object trees) = some t
  type : t.type = c.type

theorem Bus.exists_child (hbus : Bus h b members trees) (hr : valueAt key members = some r)
    (ht : valueAt key trees = some t) {type : UInt8} (hfits : Fits type t) :
    ∃ d c, Child h b trees key r t d c := by
  obtain ⟨n, hread, hnodup⟩ := hbus.holds.shows
  have hfollow : follow h [(key, 0)] (.cell b) = some r := by
    rw [follow, slotIn_cell hbus.content]
    show (valueAt key members).bind (follow h []) = some r
    rw [hr]
    rfl
  have hlook : Tree.look [(key, 0)] (.object trees) = some t := by
    show (valueAt key trees).bind (Tree.look []) = some t
    rw [ht]
    rfl
  obtain ⟨u, hlook', hu, -⟩ := read_follow hread hfollow
  obtain rfl := Option.some.inj (hlook.symm.trans hlook')
  have htype : t.type ∈ [JSONType.array, .object, .string, .integer] := by
    cases t with
    | object members => exact List.mem_cons_of_mem _ List.mem_cons_self
    | array elements => exact List.mem_cons_self
    | _ => exact absurd hfits id
  obtain ⟨d, c, m, rfl, hc, hshows⟩ := exists_cell hu htype
  refine ⟨d, c, rfl, hc, ?_, hfollow, hlook, hshows.type⟩
  rintro rfl
  have hroot : follow h [] (.cell d) = some (.cell d) := rfl
  have hpath := follow_injective hread hnodup hroot hfollow
  cases hpath

/-- The tree of the bus with another value of a logger. -/
theorem put_child (ht : valueAt key trees = some t) (u : Tree) :
    Tree.put u [(key, 0)] (.object trees) = .object (alter key (fun _ => u) trees) := by
  have hat : (Tree.object trees).at (key, 0) = some t := ht
  rw [Tree.put, hat]
  rfl

theorem setNew_eq (json : Ref) (v : Option Ref) :
    setNew utf8 json name v h =
      match name.filter utf8 with
      | some key => json_object_set_new (some json) key v h
      | none => json_decref v h := by
  cases name with
  | none => rfl
  | some key =>
      rw [setNew, Option.filter_some]
      cases utf8 key <;> rfl

theorem Bus.add (hbus : Bus h b members trees) (hr : valueAt key members = some x.data)
    (ht : valueAt key trees = some t) (hfits : Fits x.type t) :
    Bus (add utf8 x name value h) b members
      (alter key (fun _ => recorded utf8 name value t) trees) := by
  obtain ⟨d, c, hchild⟩ := hbus.exists_child hr ht hfits
  have hsame : alter key (fun _ => t) trees = trees :=
    (alter_eq_self_iff key _ trees).mpr ⟨t, ht, rfl⟩
  cases t with
  | object ms =>
      obtain ⟨ks, rfl⟩ : ∃ ks, c = .object ks := by
        cases c with
        | object ks => exact ⟨ks, rfl⟩
        | _ => cases hchild.type
      rw [Kbus.add, if_pos (show x.type = KBSTRUC from hfits), hchild.cell]
      cases value with
      | none =>
          have hlost : recorded utf8 name none (.object ms) = .object ms := by
            simp only [recorded]
            cases name.filter utf8 <;> rfl
          rw [construct, setNew_eq, hlost, hsame]
          cases name.filter utf8 with
          | none =>
              show Bus (h.release []) b members trees
              rw [Heap.release_nil]
              exact hbus
          | some k => exact hbus
      | some u =>
          have hnew := load_newRefs u h
          rw [construct, setNew_eq]
          cases hname : name.filter utf8 with
          | none =>
              have hlost : recorded utf8 name (some u) (.object ms) = .object ms := by
                simp only [recorded, hname, withMember]
              rw [hlost, hsame]
              constructor
              · show ((load u h).1.release (load u h).2.cells).contentAt b = _
                rw [Heap.contentAt_release, hnew.extended b _ hbus.content]
              · exact hbus.holds.drop hnew
          | some k =>
              have hadded : recorded utf8 name (some u) (.object ms) =
                  .object (alter k (fun _ => u) ms) := by
                simp only [recorded, hname, withMember]
              rw [hadded]
              constructor
              · rw [contentAt_set_of_ne hchild.apart, hnew.extended b _ hbus.content]
              · rw [← put_child ht]
                exact (hbus.holds.setNew hchild.follow hchild.content hchild.look hnew
                  (load_newTrees u h)).1
  | array ts =>
      obtain ⟨ks, rfl⟩ : ∃ ks, c = .array ks := by
        cases c with
        | array ks => exact ⟨ks, rfl⟩
        | _ => cases hchild.type
      have htype : x.type = KBARRAY := hfits
      have hstruc : x.type ≠ KBSTRUC := by
        rw [htype]
        decide
      rw [Kbus.add, if_neg hstruc, if_pos htype, hchild.cell]
      cases value with
      | none =>
          rw [recorded, Option.toList_none, List.append_nil, hsame]
          exact hbus
      | some u =>
          have hnew := load_newRefs u h
          simp only [construct, appendNew, recorded, Option.toList_some]
          constructor
          · rw [contentAt_append_of_ne hchild.apart, hnew.extended b _ hbus.content]
          · rw [← put_child ht]
            exact hbus.holds.append hchild.follow hchild.content hchild.look hnew
              (load_newTrees u h)
  | _ => exact absurd hfits id

theorem Bus.reset (hbus : Bus h b members trees) (hr : valueAt key members = some x.data)
    (ht : valueAt key trees = some t) (hfits : Fits x.type t) :
    Bus (resetKbData x h) b members (alter key (fun _ => emptied t) trees) := by
  obtain ⟨d, c, hchild⟩ := hbus.exists_child hr ht hfits
  cases t with
  | object ms =>
      obtain ⟨ks, rfl⟩ : ∃ ks, c = .object ks := by
        cases c with
        | object ks => exact ⟨ks, rfl⟩
        | _ => cases hchild.type
      have htype : x.type = KBSTRUC := hfits
      have hreset : resetKbData x h =
          (h.write d (.object [])).release ((Content.object ks).children.flatMap Ref.cells) := by
        rw [← refs_eq_children]
        simp [resetKbData, htype, json_object_clear, hchild.cell, objectAt,
          hchild.content, refs, show KBSTRUC ≠ KBARRAY by decide]
      rw [hreset]
      constructor
      · rw [Heap.contentAt_release, Heap.contentAt_write, if_neg hchild.apart, hbus.content]
      · rw [← put_child ht]
        apply hbus.holds.clear hchild.follow hchild.content hchild.look rfl
        intro R _
        exact .nil
  | array ts =>
      obtain ⟨ks, rfl⟩ : ∃ ks, c = .array ks := by
        cases c with
        | array ks => exact ⟨ks, rfl⟩
        | _ => cases hchild.type
      have htype : x.type = KBARRAY := hfits
      have hreset : resetKbData x h =
          (h.write d (.array [])).release ((Content.array ks).children.flatMap Ref.cells) := by
        simp [resetKbData, htype, json_array_clear, hchild.cell, arrayAt, hchild.content,
          Content.children, show KBARRAY ≠ KBSTRUC by decide]
      rw [hreset]
      constructor
      · rw [Heap.contentAt_release, Heap.contentAt_write, if_neg hchild.apart, hbus.content]
      · rw [← put_child ht]
        apply hbus.holds.clear hchild.follow hchild.content hchild.look rfl
        intro R _
        exact .nil
  | _ => exact absurd hfits id

/-- A new value for a member of the bus. -/
theorem Bus.set (hbus : Bus h b members trees) (key : Text) (u : Tree) :
    Bus (json_object_set_new (some (.cell b)) key (some (load u h).2) (load u h).1) b
      (alter key (fun _ => (load u h).2) members) (alter key (fun _ => u) trees) := by
  have hroot : follow h [] (.cell b) = some (.cell b) := rfl
  obtain ⟨hholds, hcontent⟩ := hbus.holds.setNew hroot hbus.content rfl (load_newRefs u h)
    (load_newTrees u h)
  exact ⟨hcontent, hholds⟩

theorem Handles.alter {xs : List KbData} {es : List (Text × UInt8)}
    (hhandles : Handles members xs es) (hne : key ∉ es.map Prod.fst) (v : Ref) :
    Handles (alter key (fun _ => v) members) xs es := by
  induction hhandles with
  | nil => exact .nil
  | @cons x e xs es hfirst hrest ih =>
      rw [List.map_cons, List.mem_cons, not_or] at hne
      apply List.Forall₂.cons
      · exact ⟨hfirst.1, (valueAt_alter_of_ne (Ne.symm hne.1) _ members).trans hfirst.2⟩
      · exact ih hne.2

end

/-! ### The instructions -/

section

variable {utf8 : Text → Bool} {y : KbFile} {loggers : List (Text × UInt8)}
  {trees : List (Text × Tree)} {key : Text}

theorem onBus_kbOpen : OnBus kbOpen [] [] := by
  have hnew := load_newRefs (.object []) ⟨[], []⟩
  obtain ⟨n, hread, hnodup, -⟩ := load_newTrees (.object []) ⟨[], []⟩
  rcases hread with _ | ⟨hread, -⟩
  refine ⟨⟨0, [], rfl, ⟨rfl, rfl, hnew.balanced [] fun a => ?_, n, hread, ?_⟩, .nil⟩, by simp⟩
  · simp [Heap.count, Heap.held]
  · rwa [List.flatMap_singleton] at hnodup

theorem OnBus.kbAddObj (hbus : OnBus y loggers trees) {type : UInt8} (hname : utf8 key)
    (hfresh : key ∉ loggers.map Prod.fst) (htype : type = KBSTRUC ∨ type = KBARRAY) :
    OnBus (kbAddObj utf8 (some key) type y).2 (loggers ++ [(key, type)])
      (alter key (fun _ => emptyValue type) trees) := by
  obtain ⟨b, members, hcell, hmembers, hhandles⟩ := hbus.bus
  have hnot : ¬ (type ≠ KBSTRUC ∧ type ≠ KBARRAY) := by
    rintro ⟨hstruc, harray⟩
    exact htype.elim hstruc harray
  rw [Kbus.kbAddObj, if_neg hnot]
  refine ⟨⟨b, alter key (fun _ => (load (emptyValue type) y.heap).2) members, hcell, ?_, ?_⟩, ?_⟩
  · show Bus (setNew utf8 y.kbDataBus (some key) _ _) b _ _
    rw [setNew_eq, Option.filter_some, if_pos hname, hcell]
    exact hmembers.set _ (emptyValue type)
  · apply List.rel_append (hhandles.alter hfresh _)
    exact .cons ⟨rfl, valueAt_alter_self _ _ _⟩ .nil
  · intro e he
    rcases List.mem_append.mp he with he | he
    · obtain ⟨t, ht, hfit⟩ := hbus.fits e he
      have hmem : e.1 ∈ loggers.map Prod.fst := List.mem_map_of_mem he
      have hne : e.1 ≠ key := by
        rintro rfl
        exact hfresh hmem
      exact ⟨t, (valueAt_alter_of_ne hne _ _).trans ht, hfit⟩
    · rw [List.mem_singleton.mp he]
      exact ⟨emptyValue type, valueAt_alter_self _ _ _, fits_emptyValue htype⟩

theorem OnBus.record (hbus : OnBus y loggers trees) (handle : Nat) (name : Option Text)
    (value : Option Tree) :
    OnBus (onLogger handle (fun x => add utf8 x name value) y) loggers
      (recordedAt utf8 loggers handle name value trees) := by
  obtain ⟨b, members, hcell, hmembers, hhandles⟩ := hbus.bus
  have hlogger := forall₂_getElem? hhandles handle
  unfold onLogger recordedAt
  cases hx : y.kbData[handle]? with
  | none =>
      rw [hx] at hlogger
      cases he : loggers[handle]? with
      | none => exact hbus
      | some e =>
          rw [he] at hlogger
          cases hlogger
  | some x =>
      rw [hx] at hlogger
      cases he : loggers[handle]? with
      | none =>
          rw [he] at hlogger
          cases hlogger
      | some e =>
          obtain ⟨key, type⟩ := e
          rw [he] at hlogger
          obtain ⟨htype, hr⟩ := Option.rel_some_some.mp hlogger
          obtain ⟨t, ht, hfit⟩ := hbus.fits _ (List.mem_of_getElem? he)
          refine ⟨⟨b, members, hcell, ?_, hhandles⟩, fun d hd => ?_⟩
          · show Bus (add utf8 x name value y.heap) b members (update key _ trees)
            rw [update_eq _ ht]
            exact hmembers.add hr ht (htype ▸ hfit)
          · obtain ⟨u, hu, hfit'⟩ := hbus.fits d hd
            by_cases hkey : d.1 = key
            · rw [hkey] at hu ⊢
              exact ⟨_, valueAt_update_self _ hu, hfit'.recorded⟩
            · exact ⟨u, (valueAt_update_of_ne hkey _).trans hu, hfit'⟩

theorem OnBus.setInteger (hbus : OnBus y loggers trees) (hfree : key ∉ loggers.map Prod.fst)
    (n : Int) : OnBus (setInteger key n y) loggers (alter key (fun _ => .integer n) trees) := by
  obtain ⟨b, members, hcell, hmembers, hhandles⟩ := hbus.bus
  refine ⟨⟨b, _, hcell, ?_, hhandles.alter hfree (load (.integer n) y.heap).2⟩, fun e he => ?_⟩
  · have hset := hmembers.set key (.integer n)
    rwa [← hcell] at hset
  · obtain ⟨t, ht, hfit⟩ := hbus.fits e he
    have hne : e.1 ≠ key := by
      rintro rfl
      exact hfree (List.mem_map_of_mem he)
    exact ⟨t, (valueAt_alter_of_ne hne _ _).trans ht, hfit⟩

theorem OnBus.bus_eq (hbus : OnBus y loggers trees) :
    treeOf y.heap (some y.kbDataBus) = some (.object trees) := by
  obtain ⟨b, members, hcell, hmembers, -⟩ := hbus.bus
  obtain ⟨n, hread, hnodup⟩ := hmembers.holds.shows
  rw [hcell]
  exact treeOf_of_read hread hnodup

theorem fits_emptied {es : List (Text × UInt8)}
    (hfits : ∀ e ∈ es, ∃ t, valueAt e.1 trees = some t ∧ Fits e.2 t) (key : Text) :
    ∀ e ∈ es, ∃ t, valueAt e.1 (update key emptied trees) = some t ∧ Fits e.2 t := by
  intro e he
  obtain ⟨t, ht, hfit⟩ := hfits e he
  by_cases hkey : e.1 = key
  · rw [hkey] at ht ⊢
    exact ⟨emptied t, valueAt_update_self emptied ht, hfit.emptied⟩
  · exact ⟨t, (valueAt_update_of_ne hkey emptied).trans ht, hfit⟩

theorem Bus.resetAll {h : Memory} {b : Nat} {members : List (Text × Ref)} {xs : List KbData}
    {es : List (Text × UInt8)} (hmembers : Bus h b members trees)
    (hhandles : Handles members xs es)
    (hfits : ∀ e ∈ es, ∃ t, valueAt e.1 trees = some t ∧ Fits e.2 t) :
    Bus (xs.foldl (fun h x => resetKbData x h) h) b members (emptiedAll es trees) := by
  induction hhandles generalizing h trees with
  | nil => exact hmembers
  | @cons x e xs es hfirst hrest ih =>
      obtain ⟨htype, hr⟩ := hfirst
      obtain ⟨t, ht, hfit⟩ := hfits e List.mem_cons_self
      rw [List.foldl_cons, emptiedAll, List.foldl_cons]
      apply ih
      · rw [update_eq emptied ht]
        exact hmembers.reset hr ht (htype ▸ hfit)
      · exact fits_emptied (fun d hd => hfits d (List.mem_cons_of_mem e hd)) e.1

theorem OnBus.resetAll (hbus : OnBus y loggers trees) :
    OnBus (resetAll y) loggers (emptiedAll loggers trees) := by
  obtain ⟨b, members, hcell, hmembers, hhandles⟩ := hbus.bus
  refine ⟨⟨b, members, hcell, hmembers.resetAll hhandles hbus.fits, hhandles⟩, ?_⟩
  have hkeep : ∀ (es : List (Text × UInt8)) (ts : List (Text × Tree)),
      (∀ e ∈ loggers, ∃ t, valueAt e.1 ts = some t ∧ Fits e.2 t) →
      ∀ e ∈ loggers, ∃ t, valueAt e.1 (emptiedAll es ts) = some t ∧ Fits e.2 t := by
    intro es
    induction es with
    | nil => exact fun ts h => h
    | cons d es ih => exact fun ts h => ih _ (fits_emptied h d.1)
  exact hkeep loggers trees hbus.fits

end

/-! ### The log as it goes on -/

section

variable {utf8 : Text → Bool} {y : KbFile} {l : Log} {time : Int}

theorem valueAt_stamped {key : Text} (hfree : Free key) :
    valueAt key (l.stamped time) = valueAt key l.members := by
  rw [Log.stamped, valueAt_alter_of_ne hfree.2, valueAt_alter_of_ne hfree.1]

theorem valueAt_emptied {key : Text} {t : Tree} {es : List (Text × UInt8)}
    {trees : List (Text × Tree)} (hnames : (es.map Prod.fst).Nodup)
    (ht : valueAt key trees = some t) :
    valueAt key (emptiedAll es trees) = some (if key ∈ es.map Prod.fst then emptied t else t) := by
  induction es generalizing trees t with
  | nil => exact ht
  | cons e es ih =>
      obtain ⟨hnew, hrest⟩ := List.nodup_cons.mp hnames
      rw [emptiedAll, List.foldl_cons, List.map_cons]
      by_cases hkey : key = e.1
      · subst hkey
        rw [← emptiedAll, ih hrest (valueAt_update_self emptied ht), if_neg hnew,
          if_pos List.mem_cons_self]
      · rw [← emptiedAll, ih hrest ((valueAt_update_of_ne hkey emptied).trans ht)]
        simp only [List.mem_cons, hkey, false_or]

theorem shows_kbOpen : Shows kbOpen .empty :=
  ⟨⟨List.nodup_nil, by simp [Log.empty]⟩, rfl, rfl, onBus_kbOpen⟩

theorem Shows.kbAddObj {name : Text} {type : UInt8} (hshows : Shows y l) (hname : utf8 name)
    (hfresh : name ∉ l.loggers.map Prod.fst) (hfree : Free name)
    (htype : type = KBSTRUC ∨ type = KBARRAY) :
    Shows (kbAddObj utf8 (some name) type y).2 (l.addObj name type) := by
  have hnot : ¬ (type ≠ KBSTRUC ∧ type ≠ KBARRAY) := by
    rintro ⟨hstruc, harray⟩
    exact htype.elim hstruc harray
  have hsame : (Kbus.kbAddObj utf8 (some name) type y).2.seqNum = y.seqNum ∧
      (Kbus.kbAddObj utf8 (some name) type y).2.written = y.written := by
    rw [Kbus.kbAddObj, if_neg hnot]
    exact ⟨rfl, rfl⟩
  refine ⟨⟨?_, fun e he => ?_⟩, hsame.1.trans hshows.seqNum, hsame.2.trans hshows.written,
    hshows.onBus.kbAddObj hname hfresh htype⟩
  · simp only [Log.addObj, List.map_append, List.map_cons, List.map_nil]
    exact hshows.wellFormed.names.append (List.nodup_singleton name) (by simpa using hfresh)
  · rcases List.mem_append.mp he with he | he
    · exact hshows.wellFormed.free e he
    · rw [List.mem_singleton.mp he]
      exact hfree

theorem onLogger_eq (handle : Nat) (f : KbData → Memory → Memory) :
    (onLogger handle f y).seqNum = y.seqNum ∧ (onLogger handle f y).written = y.written := by
  unfold onLogger
  split <;> exact ⟨rfl, rfl⟩

theorem Shows.record (hshows : Shows y l) (handle : Nat) (name : Option Text)
    (value : Option Tree) :
    Shows (onLogger handle (fun x => add utf8 x name value) y)
      (l.record utf8 handle name value) := by
  obtain ⟨hseq, hwritten⟩ := onLogger_eq (y := y) handle fun x => add utf8 x name value
  exact ⟨⟨hshows.wellFormed.names, hshows.wellFormed.free⟩, hseq.trans hshows.seqNum,
    hwritten.trans hshows.written, hshows.onBus.record handle name value⟩

theorem Log.WellFormed.not_mem (hl : l.WellFormed) :
    cstr "seqnum" ∉ l.loggers.map Prod.fst ∧ cstr "unixtime" ∉ l.loggers.map Prod.fst := by
  constructor
  · intro hmem
    obtain ⟨e, he, heq⟩ := List.mem_map.mp hmem
    exact (hl.free e he).1 heq
  · intro hmem
    obtain ⟨e, he, heq⟩ := List.mem_map.mp hmem
    exact (hl.free e he).2 heq

/-- The four instructions of a commit. -/
theorem Shows.commit (hshows : Shows y l) (time : Int) :
    Shows (resetAll (dumpFile (setUnixtime time (setSeqnum y)))) (l.commit time) := by
  obtain ⟨hseqnum, hunixtime⟩ := hshows.wellFormed.not_mem
  have hstamped : OnBus (dumpFile (setUnixtime time (setSeqnum y))) l.loggers (l.stamped time) := by
    rw [Log.stamped, ← hshows.seqNum]
    have hseq := hshows.onBus.setInteger hseqnum y.seqNum.toNat
    have htime := (OnBus.setInteger (y := setSeqnum y) ⟨hseq.bus, hseq.fits⟩ hunixtime time)
    exact ⟨htime.bus, htime.fits⟩
  refine ⟨⟨hshows.wellFormed.names, hshows.wellFormed.free⟩, ?_, ?_, hstamped.resetAll⟩
  · show y.seqNum + 1 = l.seqNum + 1
    rw [hshows.seqNum]
  · show y.written ++ [treeOf (setUnixtime time (setSeqnum y)).heap (some y.kbDataBus)] =
      (l.written ++ [Tree.object (l.stamped time)]).map some
    have hdump : treeOf (setUnixtime time (setSeqnum y)).heap (some y.kbDataBus) =
        some (.object (l.stamped time)) := hstamped.bus_eq
    rw [hdump, List.map_append, hshows.written]
    rfl

end

end KappaGateway.Kbus

import KappaGateway.Lib.Releases
import KappaGateway.Kapi.KbusRuns

/-!
# The handles of the loggers

A handle has no reference of its own: its value lives as long as the bus refers to it. With
different names that a commit does not use itself, all handles are good at every moment of
every run; otherwise some handle refers to a released value. Closing a file releases the
value of each logger, and then the bus releases it again.
-/

namespace KappaGateway.Kbus

open KeyedList RefCount Kutil Jansson JsonWrapper Transition CriticalSection

/-- No count of a cell that is there grows. -/
structure Shrinks (h h' : Memory) : Prop where
  fresh : h.fresh ≤ h'.fresh
  count : ∀ a < h.fresh, h'.count a ≤ h.count a

/-- The value of the handle was not released. -/
def Live (h : Memory) (x : KbData) : Prop := ∃ a, x.data = .cell a ∧ 0 < h.count a

/-- The bus and the values of the loggers are not referred to twice. -/
structure Once (y : KbFile) : Prop where
  bus : ∃ b, y.kbDataBus = .cell b ∧ b < y.heap.fresh ∧ y.heap.count b ≤ 1
  handles : ∀ x ∈ y.kbData, ∃ a, x.data = .cell a ∧ a < y.heap.fresh ∧ y.heap.count a ≤ 1

/-- The value of some handle was released. -/
def Dangling (y : KbFile) : Prop :=
  ∃ x ∈ y.kbData, ∃ a, x.data = .cell a ∧ a < y.heap.fresh ∧ y.heap.count a = 0

/-- The loggers that `kbAddObj` does not refuse. -/
def accepted (objs : List (Option Text × UInt8)) : List (Option Text × UInt8) :=
  objs.filter fun o => o.2 = KBSTRUC ∨ o.2 = KBARRAY

/-! ### Counts -/

section

variable {h h' h'' : Memory} {utf8 : Text → Bool}

theorem Shrinks.refl (h : Memory) : Shrinks h h := ⟨Nat.le_refl _, fun _ _ => Nat.le_refl _⟩

theorem Shrinks.trans (first : Shrinks h h') (second : Shrinks h' h'') : Shrinks h h'' where
  fresh := Nat.le_trans first.fresh second.fresh
  count a ha :=
    Nat.le_trans (second.count a (Nat.lt_of_lt_of_le ha first.fresh)) (first.count a ha)

theorem shrinks_alloc (c : Content) (h : Memory) : Shrinks h (h.alloc c) where
  fresh := by
    rw [Heap.fresh_alloc]
    exact Nat.le_succ _
  count a ha := by
    rw [Heap.count_alloc, if_neg (Nat.ne_of_gt ha)]

theorem shrinks_write (a : Nat) (c : Content) (h : Memory) : Shrinks h (h.write a c) where
  fresh := by rw [Heap.fresh_write]
  count b _ := by rw [Heap.count_write]

theorem fresh_releaseAll (n : Nat) (pending : List Nat) (h : Memory) :
    (Heap.releaseAll n pending h).fresh = h.fresh := by
  induction n generalizing pending h with
  | zero => rfl
  | succ n ih =>
      cases pending with
      | nil => rfl
      | cons b pending =>
          rw [Heap.releaseAll]
          split
          · exact ih pending { h with twice := b :: h.twice }
          · rw [ih, Heap.fresh_setCount]
          · rw [ih, Heap.fresh_setCount]

theorem shrinks_release (pending : List Nat) (h : Memory) : Shrinks h (h.release pending) where
  fresh := Nat.le_of_eq (fresh_releaseAll _ pending h).symm
  count a _ := Heap.count_release_le pending h a

mutual

theorem shrinks_load : ∀ (t : Tree) (h : Memory), Shrinks h (load t h).1
  | .null, h => .refl h
  | .bool _, h => .refl h
  | .integer n, h => shrinks_alloc (.integer n) h
  | .real bits, h => shrinks_alloc (.real bits) h
  | .string s, h => shrinks_alloc (.string s) h
  | .array elements, h => (shrinks_loadElements elements h).trans (shrinks_alloc _ _)
  | .object members, h => (shrinks_loadMembers members h).trans (shrinks_alloc _ _)

theorem shrinks_loadElements : ∀ (ts : List Tree) (h : Memory), Shrinks h (loadElements ts h).1
  | [], h => .refl h
  | t :: rest, h => (shrinks_load t h).trans (shrinks_loadElements rest (load t h).1)

theorem shrinks_loadMembers : ∀ (ts : List (Text × Tree)) (h : Memory),
    Shrinks h (loadMembers ts h).1
  | [], h => .refl h
  | (_, t) :: rest, h => (shrinks_load t h).trans (shrinks_loadMembers rest (load t h).1)

end

theorem shrinks_set_new (json : Option Ref) (key : Text) (v : Option Ref) (h : Memory) :
    Shrinks h (json_object_set_new json key v h) := by
  unfold json_object_set_new
  split
  · exact .refl h
  · exact shrinks_release _ h
  · split
    · exact shrinks_release _ h
    · exact (shrinks_write _ _ h).trans (shrinks_release _ _)

theorem shrinks_append_new (json : Option Ref) (v : Ref) (h : Memory) :
    Shrinks h (json_array_append_new json v h) := by
  unfold json_array_append_new
  split
  · split
    · exact shrinks_release _ h
    · exact shrinks_write _ _ h
  · exact shrinks_release _ h

theorem shrinks_setNew (utf8 : Text → Bool) (json : Ref) (name : Option Text) (v : Option Ref)
    (h : Memory) :
    Shrinks h (setNew utf8 json name v h) := by
  rw [setNew_eq]
  split
  · exact shrinks_set_new _ _ _ h
  · exact shrinks_release _ h

theorem shrinks_construct (value : Option Tree) (h : Memory) : Shrinks h (construct value h).1 := by
  cases value with
  | none => exact .refl h
  | some t => exact shrinks_load t h

theorem shrinks_add (x : KbData) (name : Option Text) (value : Option Tree) (h : Memory) :
    Shrinks h (add utf8 x name value h) := by
  unfold add
  split
  · exact (shrinks_construct value h).trans (shrinks_setNew _ _ _ _ _)
  · split
    · unfold appendNew
      split
      · exact (shrinks_construct value h).trans (shrinks_append_new _ _ _)
      · exact shrinks_construct value h
    · exact .refl h

theorem shrinks_reset (x : KbData) (h : Memory) : Shrinks h (resetKbData x h) := by
  have hobject : ∀ g : Memory, Shrinks g (json_object_clear x.data g) := by
    intro g
    unfold json_object_clear
    split
    · exact (shrinks_write _ _ g).trans (shrinks_release _ _)
    · exact .refl g
  have harray : ∀ g : Memory, Shrinks g (json_array_clear x.data g) := by
    intro g
    unfold json_array_clear
    split
    · exact (shrinks_write _ _ g).trans (shrinks_release _ _)
    · exact .refl g
  have hfirst : Shrinks h (if x.type = KBSTRUC then json_object_clear x.data h else h) := by
    split
    · exact hobject h
    · exact .refl h
  unfold resetKbData
  dsimp only
  split
  · exact hfirst.trans (harray _)
  · exact hfirst

theorem shrinks_foldl {α : Type*} {f : Memory → α → Memory} (hf : ∀ h x, Shrinks h (f h x))
    (xs : List α) (h : Memory) : Shrinks h (xs.foldl f h) := by
  induction xs generalizing h with
  | nil => exact .refl h
  | cons x xs ih => exact (hf h x).trans (ih _)

end

/-! ### Files -/

section

variable {utf8 : Text → Bool} {y y' : KbFile} {loggers : List (Text × UInt8)}
  {trees : List (Text × Tree)} {key : Text}

/-- The same loggers in a memory in which no count has grown. -/
structure Later (y y' : KbFile) : Prop where
  bus : y'.kbDataBus = y.kbDataBus
  kbData : y'.kbData = y.kbData
  shrinks : Shrinks y.heap y'.heap

theorem Later.refl (y : KbFile) : Later y y := ⟨rfl, rfl, .refl _⟩

theorem Later.trans {y'' : KbFile} (first : Later y y') (second : Later y' y'') : Later y y'' :=
  ⟨second.bus.trans first.bus, second.kbData.trans first.kbData,
    first.shrinks.trans second.shrinks⟩

theorem Later.once (hlater : Later y y') (honce : Once y) : Once y' where
  bus := by
    obtain ⟨b, hcell, hfresh, hcount⟩ := honce.bus
    exact ⟨b, hlater.bus.trans hcell, Nat.lt_of_lt_of_le hfresh hlater.shrinks.fresh,
      Nat.le_trans (hlater.shrinks.count b hfresh) hcount⟩
  handles x hx := by
    obtain ⟨a, hcell, hfresh, hcount⟩ := honce.handles x (hlater.kbData ▸ hx)
    exact ⟨a, hcell, Nat.lt_of_lt_of_le hfresh hlater.shrinks.fresh,
      Nat.le_trans (hlater.shrinks.count a hfresh) hcount⟩

/-- A released value stays released. -/
theorem Later.dangling (hlater : Later y y') (hdangling : Dangling y) : Dangling y' := by
  obtain ⟨x, hx, a, hcell, hfresh, hzero⟩ := hdangling
  have hle := hlater.shrinks.count a hfresh
  exact ⟨x, hlater.kbData.symm ▸ hx, a, hcell, Nat.lt_of_lt_of_le hfresh hlater.shrinks.fresh,
    by omega⟩

theorem Dangling.not_live (hdangling : Dangling y) : ¬ ∀ x ∈ y.kbData, Live y.heap x := by
  intro hlive
  obtain ⟨x, hx, a, hcell, -, hzero⟩ := hdangling
  obtain ⟨a', hcell', hpos⟩ := hlive x hx
  obtain rfl := Ref.cell.inj (hcell.symm.trans hcell')
  omega

theorem later_setInteger (key : Text) (n : Int) (y : KbFile) : Later y (setInteger key n y) :=
  ⟨rfl, rfl, (shrinks_load (.integer n) y.heap).trans
    (shrinks_set_new (some y.kbDataBus) key (some (load (.integer n) y.heap).2) _)⟩

theorem later_instruction {call : Call} {instruction : KbFile → KbFile}
    (hmem : instruction ∈ body utf8 call) (y : KbFile) : Later y (instruction y) := by
  have hlogger : ∀ (handle : Nat) (name : Option Text) (value : Option Tree),
      Later y (onLogger handle (fun x => add utf8 x name value) y) := by
    intro handle name value
    unfold onLogger
    split
    · exact ⟨rfl, rfl, shrinks_add _ _ _ _⟩
    · exact .refl y
  cases call with
  | kbAddInt handle name integer =>
      rw [List.mem_singleton.mp hmem]
      exact hlogger handle name _
  | kbAddStr handle name str =>
      rw [List.mem_singleton.mp hmem]
      exact hlogger handle name _
  | kbAddJSON handle name json =>
      rw [List.mem_singleton.mp hmem]
      exact hlogger handle name _
  | kbCommit time =>
      simp only [body, List.mem_cons, List.not_mem_nil, or_false] at hmem
      rcases hmem with rfl | rfl | rfl | rfl
      · exact ⟨rfl, rfl, (later_setInteger (cstr "seqnum") y.seqNum.toNat y).shrinks⟩
      · exact later_setInteger _ _ _
      · exact ⟨rfl, rfl, .refl _⟩
      · exact ⟨rfl, rfl, shrinks_foldl (fun h x => shrinks_reset x h) _ _⟩

theorem later_perform (call : Call) (y : KbFile) : Later y (perform (body utf8 call) y) :=
  perform_keeps
    (fun _ hmem z hz => hz.trans (later_instruction hmem z)) (.refl y)

theorem later_performAll (utf8 : Text → Bool) (calls : List Call) (y : KbFile) :
    Later y (performAll (body utf8) calls y) :=
  performAll_keeps
    (fun _ _ hmem z hz => hz.trans (later_instruction hmem z)) calls (.refl y)

/-- The value of a logger is good as long as it is on the bus. -/
theorem OnBus.live (hbus : OnBus y loggers trees) : ∀ x ∈ y.kbData, Live y.heap x := by
  obtain ⟨b, members, hcell, hmembers, hhandles⟩ := hbus.bus
  intro x hx
  obtain ⟨i, hi, rfl⟩ := List.mem_iff_getElem.mp hx
  have hlogger := forall₂_getElem? hhandles i
  rw [List.getElem?_eq_getElem hi] at hlogger
  cases he : loggers[i]? with
  | none =>
      rw [he] at hlogger
      cases hlogger
  | some e =>
      rw [he] at hlogger
      obtain ⟨htype, hr⟩ := Option.rel_some_some.mp hlogger
      obtain ⟨t, ht, hfit⟩ := hbus.fits e (List.mem_of_getElem? he)
      obtain ⟨d, c, hchild⟩ := hmembers.exists_child hr ht hfit
      have hbalanced := hmembers.holds.balanced
      exact ⟨d, hchild.cell, live_of_follow hbalanced
        (hbalanced.pos_of_mem (List.mem_singleton_self b)) hchild.follow⟩

/-- Another value under the name of a logger releases the value of the logger. -/
theorem OnBus.dangling_set (hbus : OnBus y loggers trees) (honce : Once y)
    (hname : key ∈ loggers.map Prod.fst) (t : Tree) :
    ∃ x ∈ y.kbData, ∃ a, x.data = .cell a ∧ a < y.heap.fresh ∧
      (json_object_set_new (some y.kbDataBus) key (some (load t y.heap).2)
        (load t y.heap).1).count a = 0 := by
  obtain ⟨b, members, hcell, hmembers, hhandles⟩ := hbus.bus
  obtain ⟨e, he, rfl⟩ := List.mem_map.mp hname
  obtain ⟨i, hi, rfl⟩ := List.mem_iff_getElem.mp he
  have hlogger := forall₂_getElem? hhandles i
  rw [List.getElem?_eq_getElem hi] at hlogger
  cases hx : y.kbData[i]? with
  | none =>
      rw [hx] at hlogger
      cases hlogger
  | some x =>
      rw [hx] at hlogger
      obtain ⟨htype, hr⟩ := Option.rel_some_some.mp hlogger
      have hxmem := List.mem_of_getElem? hx
      obtain ⟨a, ha, hfresh, hcount⟩ := honce.handles x hxmem
      refine ⟨x, hxmem, a, ha, hfresh, ?_⟩
      have hnew := load_newRefs t y.heap
      rw [hcell, json_object_set_new_eq (hnew.extended b _ hmembers.content)
        (ne_of_newRefs hnew hmembers.content), hr, ha]
      apply Heap.count_release_self (List.mem_singleton_self a)
      rw [Heap.count_write]
      exact Nat.le_trans ((shrinks_load t y.heap).count a hfresh) hcount

theorem OnBus.dangling_setInteger (hbus : OnBus y loggers trees) (honce : Once y)
    (hname : key ∈ loggers.map Prod.fst) (n : Int) : Dangling (Kbus.setInteger key n y) := by
  obtain ⟨x, hx, a, hcell, hfresh, hzero⟩ := hbus.dangling_set honce hname (.integer n)
  exact ⟨x, hx, a, hcell,
    Nat.lt_of_lt_of_le hfresh (later_setInteger key n y).shrinks.fresh, hzero⟩

/-! ### Opening -/

theorem kbAddObj_eq {name : Option Text} {type : UInt8} (htype : type = KBSTRUC ∨ type = KBARRAY) :
    (kbAddObj utf8 name type y).2 =
      { y with
        heap := setNew utf8 y.kbDataBus name (some (load (emptyValue type) y.heap).2)
          (load (emptyValue type) y.heap).1
        kbData := y.kbData ++ [⟨(load (emptyValue type) y.heap).2, type⟩] } := by
  have hnot : ¬ (type ≠ KBSTRUC ∧ type ≠ KBARRAY) := by
    rintro ⟨hstruc, harray⟩
    exact htype.elim hstruc harray
  rw [kbAddObj, if_neg hnot]

theorem load_emptyValue (type : UInt8) (h : Memory) :
    (load (emptyValue type) h).2 = .cell h.fresh ∧
      (load (emptyValue type) h).1.fresh = h.fresh + 1 ∧
      (load (emptyValue type) h).1.count h.fresh = 1 := by
  unfold emptyValue
  split <;> exact ⟨rfl, Heap.fresh_alloc _,
    by simp [load, loadMembers, loadElements, Heap.count_alloc]⟩

theorem shrinks_kbAddObj (utf8 : Text → Bool) (y : KbFile) (name : Option Text) {type : UInt8}
    (htype : type = KBSTRUC ∨ type = KBARRAY) :
    Shrinks y.heap (kbAddObj utf8 name type y).2.heap := by
  rw [kbAddObj_eq htype]
  exact (shrinks_load (emptyValue type) y.heap).trans (shrinks_setNew _ _ _ _ _)

theorem Once.kbAddObj (honce : Once y) {name : Option Text} {type : UInt8}
    (htype : type = KBSTRUC ∨ type = KBARRAY) : Once (kbAddObj utf8 name type y).2 := by
  have hshrinks := shrinks_kbAddObj utf8 y name htype
  obtain ⟨hcell, hfresh, hone⟩ := load_emptyValue type y.heap
  have hset := shrinks_setNew utf8 y.kbDataBus name
    (some (load (emptyValue type) y.heap).2) (load (emptyValue type) y.heap).1
  rw [kbAddObj_eq htype] at hshrinks ⊢
  constructor
  · obtain ⟨b, hb, hlt, hcount⟩ := honce.bus
    exact ⟨b, hb, Nat.lt_of_lt_of_le hlt hshrinks.fresh,
      Nat.le_trans (hshrinks.count b hlt) hcount⟩
  · intro x hx
    rcases List.mem_append.mp hx with hx | hx
    · obtain ⟨a, ha, hlt, hcount⟩ := honce.handles x hx
      exact ⟨a, ha, Nat.lt_of_lt_of_le hlt hshrinks.fresh,
        Nat.le_trans (hshrinks.count a hlt) hcount⟩
    · rw [List.mem_singleton.mp hx]
      have hlt : y.heap.fresh < (load (emptyValue type) y.heap).1.fresh := by omega
      have hle := hset.count y.heap.fresh hlt
      rw [hone] at hle
      exact ⟨y.heap.fresh, hcell, Nat.lt_of_lt_of_le hlt hset.fresh, hle⟩

theorem Dangling.kbAddObj (hdangling : Dangling y) {name : Option Text} {type : UInt8}
    (htype : type = KBSTRUC ∨ type = KBARRAY) : Dangling (kbAddObj utf8 name type y).2 := by
  have hshrinks := shrinks_kbAddObj utf8 y name htype
  obtain ⟨x, hx, a, hcell, hlt, hzero⟩ := hdangling
  have hle := hshrinks.count a hlt
  refine ⟨x, ?_, a, hcell, Nat.lt_of_lt_of_le hlt hshrinks.fresh, by omega⟩
  rw [kbAddObj_eq htype]
  exact List.mem_append_left _ hx

/-- A name that is not UTF-8, or that another logger has. -/
theorem OnBus.dangling_kbAddObj (hbus : OnBus y loggers trees) (honce : Once y)
    {name : Option Text} {type : UInt8} (htype : type = KBSTRUC ∨ type = KBARRAY)
    (hbad : ∀ key, name = some key → utf8 key → key ∈ loggers.map Prod.fst) :
    Dangling (Kbus.kbAddObj utf8 name type y).2 := by
  have hshrinks := shrinks_kbAddObj utf8 y name htype
  obtain ⟨hcell, hfresh, hone⟩ := load_emptyValue type y.heap
  rw [kbAddObj_eq htype] at hshrinks ⊢
  cases hname : name.filter utf8 with
  | none =>
      refine ⟨⟨(load (emptyValue type) y.heap).2, type⟩, ?_, y.heap.fresh, hcell, ?_, ?_⟩
      · exact List.mem_append_right _ (List.mem_singleton_self _)
      · show y.heap.fresh < (setNew utf8 y.kbDataBus name _ _).fresh
        have hset := shrinks_setNew utf8 y.kbDataBus name
          (some (load (emptyValue type) y.heap).2) (load (emptyValue type) y.heap).1
        have hle := hset.fresh
        omega
      · show (setNew utf8 y.kbDataBus name _ _).count y.heap.fresh = 0
        rw [setNew_eq, hname, hcell]
        exact Heap.count_release_self (List.mem_singleton_self _) (Nat.le_of_eq hone)
  | some key =>
      obtain ⟨rfl, hkey⟩ : name = some key ∧ utf8 key = true := by
        simpa [Option.filter_eq_some_iff] using hname
      obtain ⟨x, hx, a, ha, hlt, hzero⟩ := hbus.dangling_set honce (hbad key rfl hkey)
        (emptyValue type)
      refine ⟨x, List.mem_append_left _ hx, a, ha, Nat.lt_of_lt_of_le hlt hshrinks.fresh, ?_⟩
      show (setNew utf8 y.kbDataBus (some key) _ _).count a = 0
      rw [setNew_eq, hname]
      exact hzero

/-- The names of the loggers are UTF-8, and different. -/
structure GoodNames (utf8 : Text → Bool) (objs : List (Option Text × UInt8)) : Prop where
  valid : ∀ o ∈ accepted objs, ∃ key, o.1 = some key ∧ utf8 key
  different : ((accepted objs).map Prod.fst).Nodup

/-- No name is one that a commit uses. -/
def FreeNames (objs : List (Option Text × UInt8)) : Prop :=
  ∀ o ∈ accepted objs, ∀ key, o.1 = some key → Free key

theorem once_kbOpen : Once kbOpen :=
  ⟨⟨0, rfl, Nat.zero_lt_one, Nat.le_refl 1⟩, by simp [kbOpen]⟩

/-- What is open is good or dangling, as its names are. -/
theorem opened_cases (utf8 : Text → Bool) (objs : List (Option Text × UInt8)) :
    Once (opened utf8 objs) ∧
      (GoodNames utf8 objs → ∃ loggers trees,
        accepted objs = loggers.map (fun e => (some e.1, e.2)) ∧
          OnBus (opened utf8 objs) loggers trees) ∧
      (¬ GoodNames utf8 objs → Dangling (opened utf8 objs)) := by
  induction objs using List.reverseRecOn with
  | nil =>
      refine ⟨once_kbOpen, fun _ => ⟨[], [], rfl, onBus_kbOpen⟩, fun hbad => ?_⟩
      exact absurd ⟨by simp [accepted], List.nodup_nil⟩ hbad
  | append_singleton objs o ih =>
      obtain ⟨honce, hgood, hdangling⟩ := ih
      have hopened : opened utf8 (objs ++ [o]) = (kbAddObj utf8 o.1 o.2 (opened utf8 objs)).2 := by
        simp [opened]
      rw [hopened]
      by_cases htype : o.2 = KBSTRUC ∨ o.2 = KBARRAY
      · have haccepted : accepted (objs ++ [o]) = accepted objs ++ [o] := by
          simp [accepted, List.filter_append, htype]
        refine ⟨honce.kbAddObj htype, ?_, ?_⟩
        · rintro ⟨hvalid, hdifferent⟩
          rw [haccepted] at hvalid hdifferent
          rw [List.map_append, List.nodup_append] at hdifferent
          obtain ⟨loggers, trees, heq, hbus⟩ := hgood
            ⟨fun d hd => hvalid d (List.mem_append_left _ hd), hdifferent.1⟩
          obtain ⟨key, hkey, hutf8⟩ :=
            hvalid o (List.mem_append_right _ (List.mem_singleton_self o))
          refine ⟨loggers ++ [(key, o.2)], _, ?_, hkey.symm ▸ hbus.kbAddObj hutf8 ?_ htype⟩
          · rw [haccepted, heq, List.map_append, List.map_singleton, ← hkey]
          · intro hmem
            obtain ⟨e, he, rfl⟩ := List.mem_map.mp hmem
            refine hdifferent.2.2 (some e.1) ?_ (some e.1) ?_ rfl
            · rw [heq]
              exact List.mem_map.mpr ⟨(some e.1, e.2), List.mem_map_of_mem he, rfl⟩
            · exact List.mem_singleton.mpr hkey.symm
        · intro hbad
          by_cases hgood' : GoodNames utf8 objs
          · obtain ⟨loggers, trees, heq, hbus⟩ := hgood hgood'
            apply hbus.dangling_kbAddObj honce htype
            intro key hkey hutf8
            by_contra hmem
            apply hbad
            constructor
            · intro d hd
              rw [haccepted] at hd
              rcases List.mem_append.mp hd with hd | hd
              · exact hgood'.valid d hd
              · rw [List.mem_singleton.mp hd]
                exact ⟨key, hkey, hutf8⟩
            · rw [haccepted, List.map_append]
              apply hgood'.different.append (List.nodup_singleton _)
              rw [List.disjoint_singleton, heq]
              intro hin
              obtain ⟨d, hd, hdo⟩ := List.mem_map.mp hin
              obtain ⟨e, he, rfl⟩ := List.mem_map.mp hd
              apply hmem
              have hsame : e.1 = key := Option.some.inj (hdo.trans hkey)
              exact hsame ▸ List.mem_map_of_mem he
          · exact (hdangling hgood').kbAddObj htype
      · have haccepted : accepted (objs ++ [o]) = accepted objs := by
          simp [accepted, List.filter_append, htype]
        have hrefused : (kbAddObj utf8 o.1 o.2 (opened utf8 objs)).2 = opened utf8 objs := by
          rw [kbAddObj, if_pos (not_or.mp htype)]
        have hiff : GoodNames utf8 (objs ++ [o]) ↔ GoodNames utf8 objs := by
          constructor
          · rintro ⟨hvalid, hdifferent⟩
            rw [haccepted] at hvalid hdifferent
            exact ⟨hvalid, hdifferent⟩
          · rintro ⟨hvalid, hdifferent⟩
            rw [← haccepted] at hvalid hdifferent
            exact ⟨hvalid, hdifferent⟩
        rw [hrefused, haccepted, hiff]
        exact ⟨honce, hgood, hdangling⟩

/-! ### Runs -/

theorem OnBus.instruction (hbus : OnBus y loggers trees)
    (hfree : ∀ e ∈ loggers, Free e.1) {call : Call} {instruction : KbFile → KbFile}
    (hmem : instruction ∈ body utf8 call) : ∃ trees', OnBus (instruction y) loggers trees' := by
  have hnot : ∀ key, ¬ Free key → key ∉ loggers.map Prod.fst := by
    intro key hkey hin
    obtain ⟨e, he, rfl⟩ := List.mem_map.mp hin
    exact hkey (hfree e he)
  cases call with
  | kbAddInt handle name integer =>
      rw [List.mem_singleton.mp hmem]
      exact ⟨_, hbus.record handle name _⟩
  | kbAddStr handle name str =>
      rw [List.mem_singleton.mp hmem]
      exact ⟨_, hbus.record handle name _⟩
  | kbAddJSON handle name json =>
      rw [List.mem_singleton.mp hmem]
      exact ⟨_, hbus.record handle name _⟩
  | kbCommit time =>
      simp only [body, List.mem_cons, List.not_mem_nil, or_false] at hmem
      rcases hmem with rfl | rfl | rfl | rfl
      · have hset := hbus.setInteger (hnot _ fun hfree => hfree.1 rfl) y.seqNum.toNat
        exact ⟨_, hset.bus, hset.fits⟩
      · exact ⟨_, hbus.setInteger (hnot _ fun hfree => hfree.2 rfl) time⟩
      · exact ⟨trees, hbus.bus, hbus.fits⟩
      · exact ⟨_, hbus.resetAll⟩

/-- A commit uses the name of a logger. -/
theorem OnBus.dangling_commit (hbus : OnBus y loggers trees) (honce : Once y)
    {e : Text × UInt8} (he : e ∈ loggers) (hused : ¬ Free e.1) (time : Int) :
    Dangling (perform (body utf8 (.kbCommit time)) y) := by
  have hin : e.1 ∈ loggers.map Prod.fst := List.mem_map_of_mem he
  have hrest : ∀ z, Dangling z → Dangling (Kbus.resetAll (dumpFile z)) := by
    intro z hz
    have hdump : Later z (dumpFile z) := ⟨rfl, rfl, .refl _⟩
    have hreset : Later (dumpFile z) (Kbus.resetAll (dumpFile z)) :=
      ⟨rfl, rfl, shrinks_foldl (fun h x => shrinks_reset x h) _ _⟩
    exact (hdump.trans hreset).dangling hz
  show Dangling (Kbus.resetAll (dumpFile (setUnixtime time (setSeqnum y))))
  apply hrest
  by_cases hseq : cstr "seqnum" ∈ loggers.map Prod.fst
  · have hset : Dangling (setSeqnum y) := hbus.dangling_setInteger honce hseq y.seqNum.toNat
    exact (later_setInteger _ _ _).dangling hset
  · have htime : e.1 = cstr "unixtime" := by
      by_contra hne
      exact hused ⟨fun heq => hseq (heq ▸ hin), hne⟩
    have hset := hbus.setInteger hseq y.seqNum.toNat
    have hlater := later_setInteger (cstr "seqnum") y.seqNum.toNat y
    exact OnBus.dangling_setInteger (y := setSeqnum y) ⟨hset.bus, hset.fits⟩
      (Later.once ⟨hlater.bus, hlater.kbData, hlater.shrinks⟩ honce) (htime ▸ hin) time

/-- A call that is no commit uses no name. -/
theorem OnBus.perform_add (utf8 : Text → Bool) (call : Call) (hcall : ∀ time, call ≠ .kbCommit time)
    (hbus : OnBus y loggers trees) :
    ∃ trees', OnBus (perform (body utf8 call) y) loggers trees' := by
  cases call with
  | kbAddInt handle name integer => exact ⟨_, hbus.record handle name _⟩
  | kbAddStr handle name str => exact ⟨_, hbus.record handle name _⟩
  | kbAddJSON handle name json => exact ⟨_, hbus.record handle name _⟩
  | kbCommit time => exact absurd rfl (hcall time)

theorem OnBus.performAll_free (hfree : ∀ e ∈ loggers, Free e.1) (calls : List Call)
    (hbus : OnBus y loggers trees) :
    ∃ trees', OnBus (performAll (body utf8) calls y) loggers trees' := by
  refine @performAll_keeps _ _ (body utf8) (fun z => ∃ trees', OnBus z loggers trees') ?_ calls y
    ⟨trees, hbus⟩
  rintro call instruction hmem z ⟨trees', hz⟩
  exact hz.instruction hfree hmem

theorem OnBus.performAll_add (calls : List Call) (hcalls : ∀ time, Call.kbCommit time ∉ calls)
    (hbus : OnBus y loggers trees) :
    ∃ trees', OnBus (performAll (body utf8) calls y) loggers trees' := by
  induction calls generalizing y trees with
  | nil => exact ⟨trees, hbus⟩
  | cons call calls ih =>
      obtain ⟨trees', hbus'⟩ := hbus.perform_add utf8 call fun time heq =>
        hcalls time (heq ▸ List.mem_cons_self)
      exact ih (fun time hmem => hcalls time (List.mem_cons_of_mem call hmem)) hbus'

/-- The first commit releases the value of a logger whose name it uses. -/
theorem OnBus.dangling_performAll (hbus : OnBus y loggers trees) (honce : Once y)
    {e : Text × UInt8} (he : e ∈ loggers) (hused : ¬ Free e.1) (calls : List Call) {time : Int}
    (hcommit : Call.kbCommit time ∈ calls) : Dangling (performAll (body utf8) calls y) := by
  induction calls generalizing y trees with
  | nil => cases hcommit
  | cons call calls ih =>
      by_cases hcall : ∃ time, call = .kbCommit time
      · obtain ⟨time', rfl⟩ := hcall
        exact (later_performAll utf8 calls _).dangling (hbus.dangling_commit honce he hused time')
      · push Not at hcall
        obtain ⟨trees', hbus'⟩ := hbus.perform_add utf8 call hcall
        apply ih hbus' ((later_perform call y).once honce)
        exact (List.mem_cons.mp hcommit).resolve_left (Ne.symm (hcall time))

/-- What a run makes of the handles. -/
theorem run_cases (utf8 : Text → Bool) (objs : List (Option Text × UInt8)) (calls : List Call) :
    (GoodNames utf8 objs ∧ ((∃ time, Call.kbCommit time ∈ calls) → FreeNames objs) →
      ∃ loggers trees, accepted objs = loggers.map (fun e => (some e.1, e.2)) ∧
        OnBus (performAll (body utf8) calls (opened utf8 objs)) loggers trees) ∧
    (¬ (GoodNames utf8 objs ∧ ((∃ time, Call.kbCommit time ∈ calls) → FreeNames objs)) →
      Dangling (performAll (body utf8) calls (opened utf8 objs))) := by
  obtain ⟨honce, hgood, hdangling⟩ := opened_cases utf8 objs
  by_cases hnames : GoodNames utf8 objs
  · obtain ⟨loggers, trees, heq, hbus⟩ := hgood hnames
    have hfreeNames : FreeNames objs ↔ ∀ e ∈ loggers, Free e.1 := by
      rw [FreeNames, heq]
      constructor
      · intro hfree e he
        exact hfree (some e.1, e.2) (List.mem_map_of_mem he) e.1 rfl
      · intro hfree o ho key hkey
        obtain ⟨e, he, rfl⟩ := List.mem_map.mp ho
        obtain rfl := Option.some.inj hkey
        exact hfree e he
    constructor
    · rintro ⟨-, hfree⟩
      by_cases hcommit : ∃ time, Call.kbCommit time ∈ calls
      · obtain ⟨trees', hbus'⟩ := hbus.performAll_free (hfreeNames.mp (hfree hcommit)) calls
        exact ⟨loggers, trees', heq, hbus'⟩
      · push Not at hcommit
        obtain ⟨trees', hbus'⟩ := hbus.performAll_add calls hcommit
        exact ⟨loggers, trees', heq, hbus'⟩
    · intro hbad
      have hused : ¬ ((∃ time, Call.kbCommit time ∈ calls) → FreeNames objs) :=
        fun hfree => hbad ⟨hnames, hfree⟩
      push Not at hused
      obtain ⟨⟨time, hcommit⟩, hfree⟩ := hused
      rw [hfreeNames] at hfree
      push Not at hfree
      obtain ⟨e, he, hused⟩ := hfree
      exact hbus.dangling_performAll honce he hused calls hcommit
  · constructor
    · rintro ⟨hgood', -⟩
      exact absurd hgood' hnames
    · intro _
      exact (later_performAll utf8 calls _).dangling (hdangling hnames)

end

section

variable {T : Type*} [DecidableEq T] {utf8 : Text → Bool} {objs : List (Option Text × UInt8)}
  {s : State KbFile T Call} {tr : List (State KbFile T Call × Action T Call × State KbFile T Call)}

/-- In any interleaving, all handles are good exactly if the names of the loggers are UTF-8
and different, and, once there was a commit, none is a name that a commit uses. -/
theorem live_iff (path : Path (Step (body utf8)) (init (opened utf8 objs)) tr s)
    (hquiet : s.Quiet) :
    (∀ x ∈ s.shared.kbData, Live s.shared.heap x) ↔
      GoodNames utf8 objs ∧ ((∃ time, Call.kbCommit time ∈ begun tr) → FreeNames objs) := by
  obtain ⟨hgood, hdangling⟩ := run_cases utf8 objs (begun tr)
  rw [shared_of_quiet path hquiet]
  constructor
  · intro hlive
    by_contra hbad
    exact (hdangling hbad).not_live hlive
  · intro hnames
    obtain ⟨loggers, trees, -, hbus⟩ := hgood hnames
    exact hbus.live

/-- A logger with the name of the sequence number, before and after a commit. -/
theorem live_iff_seqnum : ∃ s s' : State KbFile Bool Call,
    (∀ x ∈ s.shared.kbData, Live s.shared.heap x) ∧
      ¬ ∀ x ∈ s'.shared.kbData, Live s'.shared.heap x := by
  have haccepted : accepted [(some (cstr "seqnum"), KBARRAY)] =
      [(some (cstr "seqnum"), KBARRAY)] := by simp [accepted]
  have hgood : GoodNames (fun _ => true) [(some (cstr "seqnum"), KBARRAY)] :=
    ⟨by simp [haccepted], by simp [haccepted]⟩
  obtain ⟨tr, s, path, hbegun, hquiet⟩ := exists_run (T := Bool) (body fun _ => true)
    (opened (fun _ => true) [(some (cstr "seqnum"), KBARRAY)]) [(true, .kbAddInt 0 none 5)]
  obtain ⟨tr', s', path', hbegun', hquiet'⟩ := exists_run (T := Bool) (body fun _ => true)
    (opened (fun _ => true) [(some (cstr "seqnum"), KBARRAY)]) [(true, .kbCommit 1000)]
  refine ⟨s, s', (live_iff path hquiet).mpr ⟨hgood, ?_⟩, fun hlive => ?_⟩
  · rintro ⟨time, hmem⟩
    simp [hbegun] at hmem
  · have hfree := ((live_iff path' hquiet').mp hlive).2 ⟨1000, by simp [hbegun']⟩
    exact (hfree _ (haccepted ▸ List.mem_singleton_self _) _ rfl).1 rfl

/-- With different names that a commit does not use, the handles are good at every moment,
also within the calls, and nothing is lost or released twice. -/
theorem safe_at_every_moment {loggers : List (Text × UInt8)} (hdistinct : Distinct utf8 loggers)
    (path : Path (Step (body utf8)) (init (opened utf8 (loggers.map fun e => (some e.1, e.2))))
      tr s) :
    (∀ x ∈ s.shared.kbData, Live s.shared.heap x) ∧ s.shared.heap.twice = [] ∧
      s.shared.heap.Balanced (cellsOf (some s.shared.kbDataBus)) := by
  obtain ⟨hshows, hloggers, -⟩ := shows_opened hdistinct
  have honBus := hshows.onBus
  rw [hloggers] at honBus
  obtain ⟨trees, hbus⟩ : ∃ trees, OnBus s.shared loggers trees := by
    let Kept (z : KbFile) : Prop := ∃ trees, OnBus z loggers trees
    have hstart : Kept (opened utf8 (loggers.map fun e => (some e.1, e.2))) := ⟨_, honBus⟩
    apply keeps _ path hstart
    rintro call instruction hmem z ⟨trees, hz⟩
    exact hz.instruction hdistinct.free hmem
  obtain ⟨b, members, hcell, hmembers, -⟩ := hbus.bus
  rw [hcell]
  exact ⟨hbus.live, hmembers.holds.twice, hmembers.holds.balanced⟩

theorem safe_at_every_moment_log : ∃ s : State KbFile Bool Call,
    (∀ x ∈ s.shared.kbData, Live s.shared.heap x) ∧ s.shared.heap.twice = [] ∧
      s.shared.heap.Balanced (cellsOf (some s.shared.kbDataBus)) := by
  have hdistinct : Distinct (fun _ => true) [(cstr "log", KBARRAY)] :=
    ⟨by simp, by simp, by simp, by simp [Free]; decide⟩
  obtain ⟨tr, s, path, -, -⟩ := exists_run (T := Bool) (body fun _ => true)
    (opened (fun _ => true) ([(cstr "log", KBARRAY)].map fun e => (some e.1, e.2)))
    [(true, .kbAddInt 0 none 5), (false, .kbCommit 1000)]
  exact ⟨s, safe_at_every_moment hdistinct path⟩

/-! ### Closing -/

omit [DecidableEq T] in
theorem count_foldl_decref_le (xs : List KbData) (h : Memory) (a : Nat) :
    (xs.foldl (fun h x => json_decref (some x.data) h) h).count a ≤ h.count a := by
  induction xs generalizing h with
  | nil => exact Nat.le_refl _
  | cons x xs ih => exact Nat.le_trans (ih _) (Heap.count_release_le _ _ _)

omit [DecidableEq T] in
theorem foldl_decref {xs : List KbData} {x : KbData} {a : Nat} (hx : x ∈ xs)
    (ha : x.data = .cell a) (h : Memory) (hcount : h.count a ≤ 1) :
    (xs.foldl (fun h x => json_decref (some x.data) h) h).count a = 0 ∧
      (h.count a = 0 → a ∈ (xs.foldl (fun h x => json_decref (some x.data) h) h).twice) := by
  have htwice : ∀ (xs : List KbData) (h : Memory), a ∈ h.twice →
      a ∈ (xs.foldl (fun h x => json_decref (some x.data) h) h).twice := by
    intro xs
    induction xs with
    | nil => exact fun h hmem => hmem
    | cons x xs ih => exact fun h hmem => ih _ (Heap.twice_releaseAll _ hmem)
  induction xs generalizing h with
  | nil => cases hx
  | cons x' xs ih =>
      rw [List.foldl_cons]
      rcases List.mem_cons.mp hx with rfl | hx
      · have hmem : a ∈ cellsOf (some x.data) := by
          rw [ha]
          exact List.mem_singleton_self a
        have hdrop := Heap.releaseAll_drops _ (Nat.le_refl _) hmem hcount
        constructor
        · have hzero := count_foldl_decref_le xs (json_decref (some x.data) h) a
          have hreleased : (json_decref (some x.data) h).count a = 0 := hdrop.1
          omega
        · exact fun hzero => htwice xs _ (hdrop.2 hzero)
      · have hfirst : (json_decref (some x'.data) h).count a ≤ h.count a :=
          Heap.count_release_le _ _ _
        obtain ⟨hzero, hmem⟩ := ih hx (json_decref (some x'.data) h) (by omega)
        exact ⟨hzero, fun hcount => hmem (by omega)⟩

omit [DecidableEq T] in
theorem contentAt_foldl_decref (xs : List KbData) (h : Memory) (a : Nat) :
    (xs.foldl (fun h x => json_decref (some x.data) h) h).contentAt a = h.contentAt a := by
  induction xs generalizing h with
  | nil => rfl
  | cons x xs ih =>
      rw [List.foldl_cons, ih]
      exact Heap.contentAt_release _ _ _

omit [DecidableEq T] in
/-- The value of a logger is released by its handle, and is still on the bus. -/
theorem OnBus.twice_kbClose {y : KbFile} {loggers : List (Text × UInt8)}
    {trees : List (Text × Tree)} (hbus : OnBus y loggers trees) (honce : Once y) {x : KbData}
    (hx : x ∈ y.kbData) : (kbClose y).twice ≠ [] := by
  obtain ⟨b, members, hcell, hmembers, hhandles⟩ := hbus.bus
  obtain ⟨b', hcell', -, hcount⟩ := honce.bus
  obtain rfl := Ref.cell.inj (hcell.symm.trans hcell')
  obtain ⟨a, ha, -, haCount⟩ := honce.handles x hx
  obtain ⟨e, he, htype, hvalue⟩ : ∃ e, e ∈ loggers ∧ x.type = e.2 ∧
      valueAt e.1 members = some x.data := by
    obtain ⟨i, hi, rfl⟩ := List.mem_iff_getElem.mp hx
    have hi' : i < loggers.length := by
      rw [← hhandles.length_eq]
      exact hi
    have hget := List.forall₂_iff_get.mp hhandles
    exact ⟨loggers[i], List.getElem_mem hi', hget.2 i hi hi'⟩
  have hmem : a ∈ refs (Content.object members) := by
    rw [ha] at hvalue
    exact List.mem_flatMap.mpr ⟨_, mem_of_valueAt hvalue, List.mem_singleton_self a⟩
  rw [kbClose, hcell]
  refine Heap.twice_release_holder (b := b) (c := .object members) ?_ hmem ?_ ?_
  · rw [contentAt_foldl_decref]
    exact hmembers.content
  · exact (foldl_decref hx ha y.heap haCount).1
  · exact Nat.le_trans (count_foldl_decref_le _ _ _) hcount

omit [DecidableEq T] in
theorem Dangling.twice_kbClose {y : KbFile} (hdangling : Dangling y) : (kbClose y).twice ≠ [] := by
  obtain ⟨x, hx, a, ha, -, hzero⟩ := hdangling
  have hmem := (foldl_decref hx ha y.heap (by omega)).2 hzero
  exact List.ne_nil_of_mem (Heap.twice_releaseAll _ hmem)

/-- Closing a file at any time releases some value twice, unless there was no logger. -/
theorem kbClose_twice_iff (path : Path (Step (body utf8)) (init (opened utf8 objs)) tr s)
    (hquiet : s.Quiet) : (kbClose s.shared).twice = [] ↔ accepted objs = [] := by
  obtain ⟨honce, -⟩ := opened_cases utf8 objs
  have honce' := (later_performAll utf8 (begun tr) _).once honce
  obtain ⟨hgood, hdangling⟩ := run_cases utf8 objs (begun tr)
  rw [shared_of_quiet path hquiet]
  constructor
  · intro htwice
    by_contra hsome
    by_cases hnames : GoodNames utf8 objs ∧
        ((∃ time, Call.kbCommit time ∈ begun tr) → FreeNames objs)
    · obtain ⟨loggers, trees, heq, hbus⟩ := hgood hnames
      obtain ⟨b, members, -, -, hhandles⟩ := hbus.bus
      have hlogger : loggers ≠ [] := by
        rintro rfl
        exact hsome heq
      have hpos := List.length_pos_of_ne_nil hlogger
      rw [← hhandles.length_eq] at hpos
      exact hbus.twice_kbClose honce' (List.getElem_mem hpos) htwice
    · exact (hdangling hnames).twice_kbClose htwice
  · intro hnone
    obtain ⟨loggers, trees, heq, hbus⟩ := hgood
      ⟨⟨by simp [hnone], by simp [hnone]⟩, fun _ => by simp [FreeNames, hnone]⟩
    obtain rfl : loggers = [] := by
      rw [hnone] at heq
      exact List.map_eq_nil_iff.mp heq.symm
    obtain ⟨b, members, hcell, hmembers, hhandles⟩ := hbus.bus
    have hdata := List.eq_nil_of_length_eq_zero (hhandles.length_eq)
    rw [kbClose, hdata, hcell]
    have hbalanced : (performAll (body utf8) (begun tr) (opened utf8 objs)).heap.Balanced
        ([b] ++ []) := hmembers.holds.balanced
    exact hbalanced.twice_release.trans hmembers.holds.twice

theorem kbClose_twice_iff_log : ∃ s : State KbFile Bool Call, (kbClose s.shared).twice ≠ [] := by
  obtain ⟨tr, s, path, -, hquiet⟩ := exists_run (T := Bool) (body fun _ => true)
    (opened (fun _ => true) [(some (cstr "log"), KBARRAY)]) [(true, .kbAddInt 0 none 5)]
  refine ⟨s, fun htwice => ?_⟩
  have hnone := (kbClose_twice_iff path hquiet).mp htwice
  simp [accepted] at hnone

end

end KappaGateway.Kbus

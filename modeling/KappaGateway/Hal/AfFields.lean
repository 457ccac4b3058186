import KappaGateway.Hal.AfMessage

/-!
# The fields of AF messages are independent

A setter writes a span of bytes and a getter reads one. Spans of different fields
do not meet, with one exception: in `mt_afmessage_EXT` the high byte of `asduLen`
is the first byte of the ASDU. The group id has 16 bits and a span of one byte.
-/

namespace KappaGateway.AfMessage

open Kutil Windows

/-- Reading the field after setting it gives the value, and all others read as
before. -/
def Accessors.Independent (A : Accessors) (data : Data) (f : A.Field) (v : Nat) : Prop :=
  A.get f (A.set f v data) = v ∧ ∀ g, g ≠ f → A.get g (A.set f v data) = A.get g data

/-- The first byte of each field and the number of its bytes. -/
structure Spans (A : Accessors) where
  start : A.Field → Nat
  length : A.Field → Nat
  get_eq : ∀ f data, A.get f data = memoryValue (window data (start f) (length f))
  set_eq : ∀ f v data, A.set f v data = patch (start f) (memory (length f) v) data

namespace Spans

variable {A : Accessors} (S : Spans A) {f g : A.Field} {v : Nat} {data : Data}

/-- The two fields have no byte in common. -/
def Apart (f g : A.Field) : Prop :=
  S.start f + S.length f ≤ S.start g ∨ S.start g + S.length g ≤ S.start f

/-- The value that is read, as far as it fits into the span. -/
theorem get_set_self : A.get f (A.set f v data) = v % 256 ^ S.length f := by
  have hwindow := window_patch_self (S.start f) (memory (S.length f) v) data
  rw [memory_length] at hwindow
  rw [S.get_eq, S.set_eq, hwindow, memoryValue_memory]

theorem get_set_of_apart (h : S.Apart g f) : A.get g (A.set f v data) = A.get g data := by
  rw [S.get_eq, S.get_eq, S.set_eq, window_patch_of_disjoint]
  rw [memory_length]
  exact h

theorem get_congr {data' : Data} {n : Nat} (h : ∀ i < n, data i = data' i)
    (hf : S.start f + S.length f ≤ n) : A.get f data = A.get f data' := by
  have hwindow : window data (S.start f) (S.length f) = window data' (S.start f) (S.length f) :=
    window_congr fun i hi => h _ (by omega)
  rw [S.get_eq, S.get_eq, hwindow]

/-- A field apart from all others is independent exactly of the values that fit. -/
theorem independent_iff (h : ∀ g, g ≠ f → S.Apart g f) :
    A.Independent data f v ↔ v < 256 ^ S.length f := by
  rw [Accessors.Independent, S.get_set_self, Nat.mod_eq_iff_lt (Nat.ne_of_gt (Nat.pow_pos (by omega)))]
  exact and_iff_left fun g hg => S.get_set_of_apart (h g hg)

end Spans

theorem memoryValue_byte (b : UInt8) : memoryValue [b] = b.toNat := by
  simp [memoryValue]

/-! ### The spans of the classes -/

namespace mt_afmessage

def start : Field → Nat
  | .dstEndpoint => dstEpIdx
  | .groupId => groupIdIdx
  | .clusterId => clusIdx
  | .srcEndpoint => srcEpIdx
  | .srcAddr => srcAddrIdx
  | .timeStamp => tmStmpIdx
  | .tranSeqNum => transIdx
  | .asduLen => asduLenIdx
  | .asdu i => asduIdx + i

/-- The group id is stored as one byte. -/
def length : Field → Nat
  | .groupId => 1
  | f => size f

def spans : Spans accessors where
  start := start
  length := length
  get_eq f data := by
    cases f with
    | clusterId | srcAddr | timeStamp => rfl
    | _ => exact (memoryValue_byte _).symm
  set_eq f v data := by
    cases f <;> rfl

theorem spans_apart {f g : Field} (h : g ≠ f) : spans.Apart g f := by
  cases f <;> cases g <;>
    simp_all [Spans.Apart, spans, start, length, size, asduIdx, asduLenIdx, transIdx, tmStmpIdx,
      secUseIdx, lnkQltIdx, wasBdctIdx, dstEpIdx, srcEpIdx, srcAddrIdx, clusIdx, groupIdIdx]
  all_goals omega

end mt_afmessage

namespace mt_afmessage_EXT

def start : Field → Nat
  | .dstEndpoint => dstEpIdx
  | .groupId => groupIdIdx
  | .clusterId => clusIdx
  | .srcEndpoint => srcEpIdx
  | .srcAddr => srcAddrIdx
  | .timeStamp => tmStmpIdx
  | .tranSeqNum => transIdx
  | .asduLen => asduLenIdx
  | .addrMode => scrAddrMdIdx
  | .srcPanId => srcPanIdIdx
  | .asdu i => asduIdx + i

/-- The group id is stored as one byte. -/
def length : Field → Nat
  | .groupId => 1
  | f => size f

def spans : Spans accessors where
  start := start
  length := length
  get_eq f data := by
    cases f with
    | clusterId | srcAddr | timeStamp | asduLen | srcPanId => rfl
    | _ => exact (memoryValue_byte _).symm
  set_eq f v data := by
    cases f <;> rfl

/-- The length of the ASDU and its first byte. -/
def Overlap : Field → Field → Prop
  | .asduLen, .asdu i => i.val = 0
  | .asdu i, .asduLen => i.val = 0
  | _, _ => False

theorem spans_apart {f g : Field} (h : g ≠ f) (hoverlap : ¬ Overlap g f) : spans.Apart g f := by
  cases f <;> cases g <;>
    simp_all [Spans.Apart, spans, start, length, size, Overlap, asduIdx, asduLenIdx, transIdx,
      tmStmpIdx, secUseIdx, lnkQltIdx, wasBdctIdx, dstEpIdx, srcPanIdIdx, srcEpIdx, srcAddrIdx,
      scrAddrMdIdx, clusIdx, groupIdIdx]
  all_goals omega

end mt_afmessage_EXT

namespace kr_afmessage

def start : Field → Nat
  | .dstAddr => dstAddrIdx
  | .dstEndpoint => dstEpIdx
  | .clusterId => clusIdx
  | .srcEndpoint => srcEpIdx
  | .tranSeqNum => transIdx
  | .asduLen => asduLenIdx
  | .radius => radiuIdx
  | .options => optnsIdx
  | .asdu i => asduIdx + i

def spans : Spans accessors where
  start := start
  length := size
  get_eq f data := by
    cases f with
    | dstAddr | clusterId => rfl
    | _ => exact (memoryValue_byte _).symm
  set_eq f v data := by
    cases f <;> rfl

theorem spans_apart {f g : Field} (h : g ≠ f) : spans.Apart g f := by
  cases f <;> cases g <;>
    simp_all [Spans.Apart, spans, start, size, asduIdx, asduLenIdx, radiuIdx, optnsIdx, transIdx,
      clusIdx, srcEpIdx, dstEpIdx, dstAddrIdx]
  all_goals omega

end kr_afmessage

namespace kr_afmessage_EXT

def start : Field → Nat
  | .dstAddr => dstAddrIdx
  | .dstEndpoint => dstEpIdx
  | .clusterId => clusIdx
  | .srcEndpoint => srcEpIdx
  | .tranSeqNum => transIdx
  | .asduLen => asduLenIdx
  | .radius => radiuIdx
  | .options => optnsIdx
  | .addrMode => dstAddrMdIdx
  | .dstPanId => dstPanIdIdx
  | .asdu i => asduIdx + i

def spans : Spans accessors where
  start := start
  length := size
  get_eq f data := by
    cases f with
    | dstAddr | clusterId | asduLen | dstPanId => rfl
    | _ => exact (memoryValue_byte _).symm
  set_eq f v data := by
    cases f <;> rfl

theorem spans_apart {f g : Field} (h : g ≠ f) : spans.Apart g f := by
  cases f <;> cases g <;>
    simp_all [Spans.Apart, spans, start, size, asduIdx, asduLenIdx, radiuIdx, optnsIdx, transIdx,
      clusIdx, srcEpIdx, dstPanIdIdx, dstEpIdx, dstAddrIdx, dstAddrMdIdx]
  all_goals omega

end kr_afmessage_EXT

/-! ### Independence -/

/-- The values whose setter disturbs nothing: group ids of 8 bits, and in
`mt_afmessage_EXT` a length with the first byte of the ASDU as its high byte, and a
first byte that is there already. -/
def mt_afmessage.Fits : Field → Nat → Prop
  | .groupId, v => v < 256
  | _, _ => True

def mt_afmessage_EXT.Fits (data : Data) : Field → Nat → Prop
  | .groupId, v => v < 256
  | .asduLen, v => v / 256 = (data asduIdx).toNat
  | .asdu i, v => i.val = 0 → v = (data asduIdx).toNat
  | _, _ => True

def Fits (data : Data) : (c : MessageClass) → c.accessors.Field → Nat → Prop
  | .mt_afmessage, f, v => mt_afmessage.Fits f v
  | .mt_afmessage_EXT, f, v => mt_afmessage_EXT.Fits data f v
  | .kr_afmessage, _, _ => True
  | .kr_afmessage_EXT, _, _ => True

variable {data : Data} {v : Nat}

theorem mt_afmessage.independent_iff (f : Field) (hv : v < 256 ^ size f) :
    accessors.Independent data f v ↔ Fits f v := by
  rw [spans.independent_iff (f := f) fun _ => spans_apart]
  cases f with
  | groupId => rfl
  | _ => exact iff_of_true hv trivial

theorem mt_afmessage_EXT.get_asduLen (data : Data) :
    get .asduLen data = (data asduLenIdx).toNat + 256 * (data asduIdx).toNat := by
  simp [get, proxyRd, window, List.range_succ, memoryValue]
  rfl

/-- Of the fields that it meets, a setter changes the ones it gives another value. -/
theorem mt_afmessage_EXT.independent_iff_overlap {f : Field} (hv : v < 256 ^ length f) :
    accessors.Independent data f v ↔ ∀ g, Overlap g f → get g (set f v data) = get g data := by
  have hself : get f (set f v data) = v :=
    (spans.get_set_self (f := f)).trans (Nat.mod_eq_of_lt hv)
  constructor
  · rintro ⟨-, hothers⟩ g hoverlap
    apply hothers g
    rintro rfl
    cases g <;> exact hoverlap
  · intro hoverlap
    refine ⟨hself, fun g hg => ?_⟩
    by_cases h : Overlap g f
    · exact hoverlap g h
    · exact spans.get_set_of_apart (spans_apart hg h)

theorem mt_afmessage_EXT.set_asduLen_high (v : Nat) (data : Data) :
    set .asduLen v data asduIdx = UInt8.ofNat (v / 256) := by
  have hbyte : (memory 2 v)[1]? = some (UInt8.ofNat (v / 256)) := rfl
  show patch asduLenIdx (memory 2 v) data (asduLenIdx + 1) = _
  exact patch_of_getElem? (m := data) hbyte

theorem mt_afmessage_EXT.set_asdu_same {i : Fin (dataSize - asduIdx)} (v : Nat) (data : Data) :
    set (.asdu i) v data (asduIdx + i) = UInt8.ofNat v := by
  have hbyte : [UInt8.ofNat v][0]? = some (UInt8.ofNat v) := rfl
  exact patch_of_getElem? (m := data) hbyte

theorem mt_afmessage_EXT.independent_iff (f : Field) (hv : v < 256 ^ size f) :
    accessors.Independent data f v ↔ Fits data f v := by
  cases f with
  | asduLen =>
      have hlt : v / 256 < 256 := Nat.div_lt_of_lt_mul (by simpa [size] using hv)
      have hhigh : (UInt8.ofNat (v / 256)).toNat = v / 256 := UInt8.toNat_ofNat_of_lt' hlt
      rw [independent_iff_overlap (f := .asduLen) hv]
      constructor
      · intro hoverlap
        have hasdu := hoverlap (.asdu ⟨0, by decide⟩) rfl
        simp only [get, Nat.add_zero] at hasdu
        rwa [set_asduLen_high, hhigh] at hasdu
      · intro hfits g hoverlap
        cases g with
        | asdu i =>
            have hi : i.val = 0 := hoverlap
            simp only [get, hi, Nat.add_zero]
            rw [set_asduLen_high, hhigh, hfits]
        | _ => exact absurd hoverlap id
  | asdu i =>
      have hbyte : (UInt8.ofNat v).toNat = v := UInt8.toNat_ofNat_of_lt' hv
      have hlow : set (.asdu i) v data asduLenIdx = data asduLenIdx :=
        patch_of_lt (by simp only [asduIdx]; omega)
      rw [independent_iff_overlap (f := .asdu i) hv]
      constructor
      · intro hoverlap hi
        have hlen := hoverlap .asduLen hi
        have hsame := set_asdu_same (i := i) v data
        rw [hi, Nat.add_zero] at hsame
        rw [get_asduLen, get_asduLen, hlow, hsame, hbyte] at hlen
        omega
      · intro hfits g hoverlap
        cases g with
        | asduLen =>
            have hi : i.val = 0 := hoverlap
            have hsame := set_asdu_same (i := i) v data
            rw [hi, Nat.add_zero] at hsame
            rw [get_asduLen, get_asduLen, hlow, hsame, hbyte, hfits hi]
        | _ => exact absurd hoverlap id
  | groupId =>
      rw [spans.independent_iff (f := .groupId) fun g hg => spans_apart hg (by cases g <;> exact id)]
      rfl
  | _ =>
      rw [spans.independent_iff fun g hg => spans_apart hg (by cases g <;> exact id)]
      exact iff_of_true hv trivial

theorem kr_afmessage.independent (f : Field) (hv : v < 256 ^ size f) :
    accessors.Independent data f v :=
  (spans.independent_iff (f := f) fun _ => spans_apart).mpr hv

theorem kr_afmessage_EXT.independent (f : Field) (hv : v < 256 ^ size f) :
    accessors.Independent data f v :=
  (spans.independent_iff (f := f) fun _ => spans_apart).mpr hv

/-- Setting a field of any class to a value of its type disturbs no field exactly if
the value fits. -/
theorem fields_independent (c : MessageClass) (data : Data) (f : c.accessors.Field) (v : Nat)
    (hv : v < 256 ^ c.accessors.size f) :
    c.accessors.Independent data f v ↔ Fits data c f v := by
  cases c with
  | mt_afmessage => exact mt_afmessage.independent_iff f hv
  | mt_afmessage_EXT => exact mt_afmessage_EXT.independent_iff f hv
  | kr_afmessage => exact iff_of_true (kr_afmessage.independent f hv) trivial
  | kr_afmessage_EXT => exact iff_of_true (kr_afmessage_EXT.independent f hv) trivial

theorem fields_independent_clusterId :
    mt_afmessage.accessors.Independent (fun _ => 0xFF) .clusterId 0x1234 :=
  (fields_independent .mt_afmessage (fun _ => 0xFF) .clusterId 0x1234 (by decide)).mpr trivial

/-- The length of an incoming extended message is not what it was after the first byte
of its ASDU is written, and no 16-bit group id comes back. -/
theorem fields_dependent :
    ¬ mt_afmessage_EXT.accessors.Independent (fun _ => 0) (.asdu ⟨0, by decide⟩) 1 ∧
      ¬ mt_afmessage.accessors.Independent (fun _ => 0) .groupId 0x1234 := by
  constructor
  · intro h
    have hlen : mt_afmessage_EXT.get .asduLen (mt_afmessage_EXT.set (.asdu ⟨0, by decide⟩) 1
        fun _ => 0) = 0 := h.2 .asduLen nofun
    revert hlen
    decide
  · intro h
    have hgroup : mt_afmessage.get .groupId (mt_afmessage.set .groupId 0x1234 fun _ => 0) =
        0x1234 := h.1
    revert hgroup
    decide

end KappaGateway.AfMessage

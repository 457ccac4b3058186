import KappaGateway.Hal.AfMessage
import KappaGateway.Kapi.HexText
import KappaGateway.Lib.Printing
import KappaGateway.Zdo.ZdoApdu

/-!
# Hexadecimal text in buffers

The gateway prints messages, archive entries and attribute values into arrays on the
stack. Where the array is declared for `n << 1 + 1` characters, it has `4 * n`. That is
enough, except for no bytes at all: then nothing is printed, not even a terminator.
-/

namespace KappaGateway.HexRenderings

open AfMessage Kutil Printing Zdo

/-- An array on the stack, with the number of bytes that were printed into it. -/
structure Rendered where
  declared : Nat
  size : Nat
  buffer : Buffer

/-- Only the array was written, and it holds a string of two characters for each byte. -/
structure Rendered.Fits (r : Rendered) : Prop where
  inside : ∀ i ∈ r.buffer.written, i < r.declared
  string : ∃ text, r.buffer.Holds 0 text ∧ text.length = 2 * r.size

/-! ### The functions that print -/

/-- `kByteToHexString` and `kPrintMem`. -/
def kByteToHexStringInto (byte : List UInt8) (b : Buffer) : Buffer :=
  b.printAll (byte.map hexByte) 0

/-- `kIntToStr`, and the loop of `AttributeValueDefault::toString`. -/
def kIntToStrInto (source : List UInt8) (b : Buffer) : Buffer :=
  kByteToHexStringInto (source.take (intRounds source.length)).reverse b

def Device_annce : UInt16 := 0x0013
def Match_Desc_req : UInt16 := 0x0006

/-- `zdo_callback` renders the messages of one cluster that has no case of its own. -/
def zdo_callback (msg : Zdo.AfMessage) (stack : Nat → UInt8) : List Rendered :=
  if msg.clusterId = Device_annce ∨ msg.clusterId = Match_Desc_req then []
  else if msg.clusterId &&& 0x7fff = 0x0036 then
    [⟨128, msg.asduLen.toNat,
      kByteToHexStringInto (bytesFrom msg.asdu msg.asduLen.toNat) (fresh stack)⟩]
  else []

/-- The `apduString` of `saveDevApdu` and `saveEndpointApdu`. -/
def apduString (apdu : List UInt8) (stack : Nat → UInt8) : List Rendered :=
  [⟨apdu.length <<< (1 + 1), apdu.length, kByteToHexStringInto apdu (fresh stack)⟩]

def node_desc_req (x : Zdo.AfMessage) : (Nat → UInt8) → List Rendered :=
  apduString (bytesFrom (shift x.asdu MSGBODY) 13)

def active_ep_req (x : Zdo.AfMessage) : (Nat → UInt8) → List Rendered :=
  apduString (bytesFrom (shift x.asdu MSGBODY) ((x.asdu 4).toNat + 1))

def simple_desc_req (x : Zdo.AfMessage) : (Nat → UInt8) → List Rendered :=
  apduString (bytesFrom (shift x.asdu (MSGBODY + 1)) (x.asdu 4).toNat)

/-- `AttributeValueDefault::toString`. -/
def toString (data : List UInt8) (stack : Nat → UInt8) : List Rendered :=
  [⟨data.length <<< (1 + 1), data.length, kIntToStrInto data (fresh stack)⟩]

/-- `IntToHexStr` of an integer of `size` bytes. -/
def IntToHexStr (size v : Nat) (stack : Nat → UInt8) : List Rendered :=
  [⟨size <<< (1 + 1), size, kIntToStrInto (memory size v) (fresh stack)⟩]

/-- A digit of `"%X"`. -/
def hexDigitUpper (v : UInt8) : UInt8 := if v < 10 then 0x30 + v else 0x37 + v

/-- `"%02X"`. -/
def hexByteUpper (b : UInt8) : Text := [hexDigitUpper (b / 16), hexDigitUpper (b % 16)]

/-- Prints integers into one array, each over the one before it. -/
def printIntegers (declared : Nat) : List (Nat × Nat) → Buffer → List Rendered × Buffer
  | [], b => ([], b)
  | (size, v) :: rest, b =>
      let b := b.print 0 (intToHexStr size v)
      let (rendered, last) := printIntegers declared rest b
      (⟨declared, size, b⟩ :: rendered, last)

/-- `kdAPSMessageLog`, which sets the terminator behind the data itself. -/
def kdAPSMessageLog (msg : AFMessage) (stack : Nat → UInt8) : List Rendered :=
  let (fields, b) := printIntegers 512
    [(2, msg.srcAddr.toNat), (2, msg.groupId.toNat), (2, msg.clusterId.toNat),
      (1, msg.srcEndpoint.toNat), (1, msg.dstEndpoint.toNat), (1, msg.tranSeqNum.toNat),
      (1, msg.wasBroadCast.toNat), (1, msg.linkQuality.toNat), (1, msg.securityUse.toNat)]
    (fresh stack)
  let asdu := bytesFrom msg.asdu msg.asduLen.toNat
  fields ++ [⟨512, asdu.length,
    (b.printAll (asdu.map hexByteUpper) 0).print (asdu.map hexByteUpper).flatten.length []⟩]

def kdBinTraceLog (mem : List UInt8) (stack : Nat → UInt8) : List Rendered :=
  [⟨512, mem.length, kByteToHexStringInto mem (fresh stack)⟩]

/-- `SendDebugUnknownMsg` of a frame from its length byte on, as it is called. -/
def SendDebugUnknownMsg (pBuf : Nat → UInt8) : (Nat → UInt8) → List Rendered :=
  kdBinTraceLog (bytesFrom pBuf ((pBuf 0).toNat + 3))

/-- All renderings, with what they are made of. -/
inductive Rendering where
  | zdo_callback (msg : Zdo.AfMessage)
  | node_desc_req (x : Zdo.AfMessage)
  | active_ep_req (x : Zdo.AfMessage)
  | simple_desc_req (x : Zdo.AfMessage)
  | toString (data : List UInt8)
  | IntToHexStr (size v : Nat) (sizeof : size ∈ [1, 2, 4, 8])
  | kdAPSMessageLog (msg : AFMessage)
  | SendDebugUnknownMsg (pBuf : Nat → UInt8) (length : pBuf 0 ≤ 250)

def Rendering.render : Rendering → (Nat → UInt8) → List Rendered
  | zdo_callback msg => HexRenderings.zdo_callback msg
  | node_desc_req x => HexRenderings.node_desc_req x
  | active_ep_req x => HexRenderings.active_ep_req x
  | simple_desc_req x => HexRenderings.simple_desc_req x
  | toString data => HexRenderings.toString data
  | IntToHexStr size v _ => HexRenderings.IntToHexStr size v
  | kdAPSMessageLog msg => HexRenderings.kdAPSMessageLog msg
  | SendDebugUnknownMsg pBuf _ => HexRenderings.SendDebugUnknownMsg pBuf

/-- It fits, whatever was on the stack. -/
def Rendering.Fits (r : Rendering) : Prop := ∀ stack, ∀ x ∈ r.render stack, x.Fits

/-- There is something to print, not more than the array holds and than an `int` counts. -/
def Rendering.Bounded : Rendering → Prop
  | zdo_callback msg => msg.clusterId &&& 0x7fff = 0x0036 → 0 < msg.asduLen ∧ msg.asduLen < 64
  | simple_desc_req x => x.asdu 4 ≠ 0
  | toString data => data ≠ [] ∧ data.length ≤ 2 ^ 31
  | _ => True

/-! ### One array -/

section

variable {declared size : Nat} {texts : List Text} {bytes : List UInt8}

/-- The text of a byte: two characters and no terminator. -/
structure IsPair (text : Text) : Prop where
  length : text.length = 2
  nonzero : 0 ∉ text

theorem isPair_hexByte (b : UInt8) : IsPair (hexByte b) := by
  have hall : ∀ n < 256, (0 : UInt8) ∉ hexByte (UInt8.ofNat n) := by decide +kernel
  exact ⟨rfl, by simpa using hall b.toNat b.toNat_lt⟩

theorem isPair_hexByteUpper (b : UInt8) : IsPair (hexByteUpper b) := by
  have hall : ∀ n < 256, (0 : UInt8) ∉ hexByteUpper (UInt8.ofNat n) := by decide +kernel
  exact ⟨rfl, by simpa using hall b.toNat b.toNat_lt⟩

theorem flatten_length (h : ∀ text ∈ texts, IsPair text) :
    texts.flatten.length = 2 * texts.length := by
  induction texts with
  | nil => rfl
  | cons text rest ih =>
      obtain ⟨htext, h⟩ := List.forall_mem_cons.mp h
      rw [List.flatten_cons, List.length_append, htext.length, ih h, List.length_cons]
      omega

/-- Texts of bytes fit into a fresh array exactly if there is one for each byte, at least
one, and the terminator has its place. -/
theorem printAll_fits_iff (h : ∀ text ∈ texts, IsPair text) :
    (∀ stack, Rendered.Fits ⟨declared, size, (fresh stack).printAll texts 0⟩) ↔
      texts ≠ [] ∧ texts.length = size ∧ 2 * size < declared := by
  have hlength := flatten_length h
  have hzero : ∀ text ∈ texts, 0 ∉ text := fun text htext => (h text htext).nonzero
  constructor
  · intro hfits
    have hne : texts ≠ [] := by
      rintro rfl
      obtain ⟨text, hholds, htext⟩ := (hfits fun _ => 1).string
      exact absurd hholds.terminator (by decide : (1 : UInt8) ≠ 0)
    obtain ⟨text, hholds, htext⟩ := (hfits fun _ => 0).string
    have heq := hholds.unique (Buffer.printAll_holds hne hzero 0 _)
    have hsize : texts.length = size := by
      rw [heq, hlength] at htext
      exact Nat.eq_of_mul_eq_mul_left Nat.zero_lt_two htext
    refine ⟨hne, hsize, (hfits fun _ => 0).inside _ ?_⟩
    rw [Buffer.mem_written_printAll hne, hlength, hsize]
    exact Or.inr ⟨Nat.zero_le _, Nat.le_of_eq (Nat.zero_add _).symm⟩
  · rintro ⟨hne, rfl, hroom⟩ stack
    refine ⟨fun i hi => ?_, _, Buffer.printAll_holds hne hzero 0 _, hlength⟩
    rw [Buffer.mem_written_printAll hne, hlength] at hi
    rcases hi with hi | hi
    · cases hi
    · exact Nat.lt_of_le_of_lt (hi.2.trans_eq (Nat.zero_add _)) hroom

theorem kByteToHexStringInto_fits_iff :
    (∀ stack, Rendered.Fits ⟨declared, size, kByteToHexStringInto bytes (fresh stack)⟩) ↔
      bytes ≠ [] ∧ bytes.length = size ∧ 2 * size < declared := by
  have hpairs : ∀ text ∈ bytes.map hexByte, IsPair text := by
    intro text htext
    obtain ⟨b, -, rfl⟩ := List.mem_map.mp htext
    exact isPair_hexByte b
  refine (printAll_fits_iff hpairs).trans ?_
  rw [List.length_map, Ne, List.map_eq_nil_iff]

theorem shift_one_add_one (n : Nat) : n <<< (1 + 1) = 4 * n := by
  rw [Nat.shiftLeft_eq]
  omega

/-- An array of `n << 1 + 1` characters is enough for `n` bytes, unless `n` is 0. -/
theorem apduString_fits_iff :
    (∀ stack, ∀ x ∈ apduString bytes stack, x.Fits) ↔ bytes ≠ [] := by
  simp only [apduString, List.mem_singleton, forall_eq]
  rw [kByteToHexStringInto_fits_iff, shift_one_add_one]
  constructor
  · exact fun h => h.1
  · intro hne
    have hpos := List.length_pos_iff.mpr hne
    exact ⟨hne, rfl, by omega⟩

/-- The loop of an `int` goes through at most `2 ^ 31` bytes. -/
theorem kIntToStrInto_fits_iff :
    (∀ stack, Rendered.Fits ⟨declared, bytes.length, kIntToStrInto bytes (fresh stack)⟩) ↔
      bytes ≠ [] ∧ bytes.length ≤ 2 ^ 31 ∧ 2 * bytes.length < declared := by
  simp only [kIntToStrInto]
  rw [kByteToHexStringInto_fits_iff, List.length_reverse, List.length_take]
  have hle := intRounds_le bytes.length
  constructor
  · rintro ⟨hne, hrounds, hroom⟩
    refine ⟨?_, by omega, hroom⟩
    rintro rfl
    exact hne rfl
  · rintro ⟨hne, hrange, hroom⟩
    have hpos := List.length_pos_iff.mpr hne
    rw [intRounds_of_le hrange, Nat.min_self]
    refine ⟨?_, rfl, hroom⟩
    rw [Ne, List.reverse_eq_nil_iff, List.take_length]
    exact hne

/-! ### One array for several strings -/

theorem zero_notMem_intToHexStr (size v : Nat) : 0 ∉ intToHexStr size v := by
  rw [intToHexStr, kIntToStr, kByteToHexString, List.mem_flatMap]
  rintro ⟨b, -, hb⟩
  exact (isPair_hexByte b).nonzero hb

theorem printIntegers_fits (vs : List (Nat × Nat)) {b : Buffer}
    (hvs : ∀ v ∈ vs, 2 * v.1 < declared) (hb : ∀ i ∈ b.written, i < declared) :
    (∀ x ∈ (printIntegers declared vs b).1, x.Fits) ∧
      ∀ i ∈ (printIntegers declared vs b).2.written, i < declared := by
  induction vs generalizing b with
  | nil => exact ⟨by simp [printIntegers], hb⟩
  | cons v rest ih =>
      obtain ⟨hv, hvs⟩ := List.forall_mem_cons.mp hvs
      have hinside : ∀ i ∈ (b.print 0 (intToHexStr v.1 v.2)).written, i < declared := by
        intro i hi
        rw [Buffer.mem_written_print, intToHexStr_length] at hi
        rcases hi with hi | hi
        · exact hb i hi
        · omega
      obtain ⟨hrest, hlast⟩ := ih hvs hinside
      refine ⟨?_, hlast⟩
      intro x hx
      rcases List.mem_cons.mp hx with rfl | hx
      · have hholds := Buffer.print_holds (zero_notMem_intToHexStr v.1 v.2) 0 b
        exact ⟨hinside, _, hholds, intToHexStr_length v.1 v.2⟩
      · exact hrest x hx

/-- Where the terminator is set afterwards, no bytes at all are a string, too. -/
theorem printAll_terminated_fits {b : Buffer} (h : ∀ text ∈ texts, IsPair text)
    (hb : ∀ i ∈ b.written, i < declared) (hroom : 2 * texts.length < declared) :
    Rendered.Fits ⟨declared, texts.length,
      (b.printAll texts 0).print texts.flatten.length []⟩ := by
  have hlength := flatten_length h
  have hne : texts ++ [[]] ≠ [] := List.append_ne_nil_of_right_ne_nil texts (List.cons_ne_nil [] [])
  have hzero : ∀ text ∈ texts ++ [[]], (0 : UInt8) ∉ text := by
    intro text htext
    rcases List.mem_append.mp htext with htext | htext
    · exact (h text htext).nonzero
    · rw [List.mem_singleton.mp htext]
      exact List.not_mem_nil
  have hflatten : (texts ++ [[]]).flatten = texts.flatten := by
    rw [List.flatten_append, List.flatten_singleton, List.append_nil]
  have hholds := Buffer.printAll_holds hne hzero 0 b
  rw [hflatten, Buffer.printAll_concat, Nat.zero_add] at hholds
  refine ⟨?_, _, hholds, hlength⟩
  intro i hi
  rw [← Nat.zero_add texts.flatten.length, ← Buffer.printAll_concat,
    Buffer.mem_written_printAll hne, hflatten, hlength] at hi
  rcases hi with hi | hi
  · exact hb i hi
  · exact Nat.lt_of_le_of_lt (hi.2.trans_eq (Nat.zero_add _)) hroom

end

/-! ### All renderings -/

theorem bytesFrom_length (apdu : Nat → UInt8) (length : Nat) :
    (bytesFrom apdu length).length = length := by
  rw [bytesFrom, List.length_map, List.length_range]

theorem bytesFrom_ne_nil (apdu : Nat → UInt8) (length : Nat) :
    bytesFrom apdu length ≠ [] ↔ 0 < length := by
  rw [← List.length_pos_iff, bytesFrom_length]

theorem zdo_callback_fits_iff (msg : Zdo.AfMessage) :
    (∀ stack, ∀ x ∈ zdo_callback msg stack, x.Fits) ↔
      (msg.clusterId &&& 0x7fff = 0x0036 → 0 < msg.asduLen ∧ msg.asduLen < 64) := by
  by_cases hgate : msg.clusterId = Device_annce ∨ msg.clusterId = Match_Desc_req
  · have hother : ¬ msg.clusterId &&& 0x7fff = 0x0036 := by
      rcases hgate with h | h
      · rw [h]
        decide
      · rw [h]
        decide
    simp [zdo_callback, hother]
  · by_cases hcluster : msg.clusterId &&& 0x7fff = 0x0036
    · simp only [zdo_callback, if_neg hgate, if_pos hcluster, List.mem_singleton, forall_eq]
      rw [kByteToHexStringInto_fits_iff, bytesFrom_ne_nil, bytesFrom_length]
      have hlt : msg.asduLen < 64 ↔ msg.asduLen.toNat < 64 := UInt8.lt_iff_toNat_lt
      have hpos : 0 < msg.asduLen ↔ 0 < msg.asduLen.toNat := UInt8.lt_iff_toNat_lt
      rw [hlt, hpos]
      constructor
      · rintro ⟨hpos, -, hroom⟩ -
        exact ⟨hpos, by omega⟩
      · intro h
        obtain ⟨hpos, hlt⟩ := h hcluster
        exact ⟨hpos, rfl, by omega⟩
    · simp [zdo_callback, hcluster]

theorem toString_fits_iff (data : List UInt8) :
    (∀ stack, ∀ x ∈ toString data stack, x.Fits) ↔ data ≠ [] ∧ data.length ≤ 2 ^ 31 := by
  simp only [toString, List.mem_singleton, forall_eq]
  rw [kIntToStrInto_fits_iff, shift_one_add_one]
  constructor
  · exact fun h => ⟨h.1, h.2.1⟩
  · rintro ⟨hne, hrange⟩
    have hpos := List.length_pos_iff.mpr hne
    exact ⟨hne, hrange, by omega⟩

/-- The bytes of an integer are rendered as those of an attribute value are. -/
theorem IntToHexStr_eq (size v : Nat) : IntToHexStr size v = toString (memory size v) := by
  funext stack
  rw [IntToHexStr, toString, memory_length]

theorem IntToHexStr_fits (size v : Nat) (sizeof : size ∈ [1, 2, 4, 8]) (stack : Nat → UInt8) :
    ∀ x ∈ IntToHexStr size v stack, x.Fits := by
  have hrange : 0 < size ∧ size ≤ 2 ^ 31 := by
    have hall : ∀ size ∈ [1, 2, 4, 8], 0 < size ∧ size ≤ 2 ^ 31 := by decide
    exact hall size sizeof
  rw [IntToHexStr_eq]
  apply (toString_fits_iff _).mpr
  rw [← List.length_pos_iff, memory_length]
  exact hrange

theorem kdAPSMessageLog_fits (msg : AFMessage) (stack : Nat → UInt8) :
    ∀ x ∈ kdAPSMessageLog msg stack, x.Fits := by
  intro x hx
  rw [kdAPSMessageLog] at hx
  obtain ⟨hfields, hlast⟩ := @printIntegers_fits 512
    [(2, msg.srcAddr.toNat), (2, msg.groupId.toNat), (2, msg.clusterId.toNat),
      (1, msg.srcEndpoint.toNat), (1, msg.dstEndpoint.toNat), (1, msg.tranSeqNum.toNat),
      (1, msg.wasBroadCast.toNat), (1, msg.linkQuality.toNat), (1, msg.securityUse.toNat)]
    (fresh stack) (by simp) (by simp [fresh])
  rcases List.mem_append.mp hx with hx | hx
  · exact hfields x hx
  · rw [List.mem_singleton.mp hx]
    have hpairs : ∀ text ∈ (bytesFrom msg.asdu msg.asduLen.toNat).map hexByteUpper,
        IsPair text := by
      intro text htext
      obtain ⟨b, -, rfl⟩ := List.mem_map.mp htext
      exact isPair_hexByteUpper b
    have hroom : 2 * ((bytesFrom msg.asdu msg.asduLen.toNat).map hexByteUpper).length < 512 := by
      rw [List.length_map, bytesFrom_length]
      have := msg.asduLen.toNat_lt
      omega
    have hdata := printAll_terminated_fits hpairs hlast hroom
    rw [List.length_map] at hdata
    exact hdata

theorem SendDebugUnknownMsg_fits (pBuf : Nat → UInt8) (length : pBuf 0 ≤ 250)
    (stack : Nat → UInt8) :
    ∀ x ∈ SendDebugUnknownMsg pBuf stack, x.Fits := by
  have hlength : (pBuf 0).toNat ≤ 250 := UInt8.le_iff_toNat_le.mp length
  simp only [SendDebugUnknownMsg, kdBinTraceLog, List.mem_singleton, forall_eq]
  revert stack
  rw [kByteToHexStringInto_fits_iff, bytesFrom_ne_nil, bytesFrom_length]
  exact ⟨by omega, rfl, by omega⟩

/-- A rendering fits exactly if it is bounded. -/
theorem fits_iff_bounded (r : Rendering) : r.Fits ↔ r.Bounded := by
  cases r with
  | zdo_callback msg => exact zdo_callback_fits_iff msg
  | node_desc_req x =>
      apply apduString_fits_iff.trans
      exact iff_of_true ((bytesFrom_ne_nil _ _).mpr (by decide)) trivial
  | active_ep_req x =>
      apply apduString_fits_iff.trans
      exact iff_of_true ((bytesFrom_ne_nil _ _).mpr (Nat.succ_pos _)) trivial
  | simple_desc_req x =>
      apply apduString_fits_iff.trans
      rw [bytesFrom_ne_nil, Nat.pos_iff_ne_zero]
      exact not_congr (UInt8.toNat_inj (b := 0))
  | toString data => exact toString_fits_iff data
  | IntToHexStr size v sizeof =>
      exact iff_of_true (IntToHexStr_fits size v sizeof) trivial
  | kdAPSMessageLog msg => exact iff_of_true (kdAPSMessageLog_fits msg) trivial
  | SendDebugUnknownMsg pBuf length =>
      exact iff_of_true (SendDebugUnknownMsg_fits pBuf length) trivial

/-- The terminator of 64 bytes goes behind the array. -/
theorem zdo_callback_of_64_bytes :
    ¬ (Rendering.zdo_callback ⟨0x8036, 0, 64, fun _ => 0⟩).Fits ∧
      ∃ x ∈ zdo_callback ⟨0x8036, 0, 64, fun _ => 0⟩ fun _ => 0,
        x.declared = 128 ∧ 128 ∈ x.buffer.written := by
  have hwrites : ∃ x ∈ zdo_callback ⟨0x8036, 0, 64, fun _ => 0⟩ fun _ => 0,
      x.declared = 128 ∧ 128 ∈ x.buffer.written := by decide +kernel
  refine ⟨?_, hwrites⟩
  intro hfits
  obtain ⟨x, hx, hdeclared, hwritten⟩ := hwrites
  have hinside := (hfits _ x hx).inside 128 hwritten
  rw [hdeclared] at hinside
  exact absurd hinside (Nat.lt_irrefl 128)

end KappaGateway.HexRenderings

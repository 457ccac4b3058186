import KappaGateway.Zdo.Zdo

/-!
# The discovery of a device

The bodies of the responses that describe a device. A parser reads a body only
up to its own length, so that it makes the same of every memory that begins with
the body: of the message, and of the vector decoded from the archive.
-/

namespace KappaGateway.Zdo

open Aps Kutil Kjson ZdoArchive

/-! ### Bodies in memory -/

/-- Memory that begins with the bytes. -/
def Holds (apdu : Nat → UInt8) (bytes : List UInt8) : Prop :=
  bytesFrom apdu bytes.length = bytes

/-- The bytes, and zeros behind them. -/
def inMemory (bytes : List UInt8) : Nat → UInt8 := fun i => bytes.getD i 0

theorem Holds.apply {apdu : Nat → UInt8} {bytes : List UInt8} (h : Holds apdu bytes) {i : Nat}
    (hi : i < bytes.length) : apdu i = inMemory bytes i := by
  have hget : bytes[i]? = some (apdu i) := by
    conv_lhs => rw [← show bytesFrom apdu bytes.length = bytes from h]
    simp [bytesFrom, hi]
  rw [inMemory, List.getD_eq_getElem?_getD, hget, Option.getD_some]

theorem holds_of_apply {apdu : Nat → UInt8} {bytes : List UInt8}
    (h : ∀ i < bytes.length, apdu i = inMemory bytes i) : Holds apdu bytes := by
  apply List.ext_getElem
  · simp [bytesFrom]
  · intro i hi hi'
    simp [bytesFrom, h i hi', inMemory, hi']

theorem Holds.bytesFrom_eq {apdu : Nat → UInt8} {bytes : List UInt8} (h : Holds apdu bytes)
    {n : Nat} (hn : bytes.length = n) : bytesFrom apdu n = bytes := hn ▸ h

theorem Holds.head {apdu : Nat → UInt8} {b : UInt8} {bytes : List UInt8}
    (h : Holds apdu (b :: bytes)) : apdu 0 = b := h.apply (by simp)

theorem Holds.tail {apdu : Nat → UInt8} {b : UInt8} {bytes : List UInt8}
    (h : Holds apdu (b :: bytes)) : Holds (shift apdu 1) bytes := by
  apply holds_of_apply
  intro i hi
  have hnext := h.apply (i := i + 1) (by simpa using hi)
  rw [shift, Nat.add_comm, hnext]
  rfl

/-- Decoding the text of some bytes yields memory that begins with them. -/
theorem decoded_holds (beyond : Beyond) (bytes : List UInt8) :
    Holds (decoded beyond (kByteToHexString bytes)) bytes := by
  obtain ⟨extra, -, hvec⟩ := hexStrToByteVec_hex bytes beyond.text
  apply holds_of_apply
  intro i hi
  simp [decoded, hvec, inMemory, List.getElem?_append_left hi, hi]

/-! ### What the parsers read -/

theorem node_desc_congr {f g : Nat → UInt8} (h : ∀ i < 13, f i = g i) :
    node_desc_req_apdu_process f = node_desc_req_apdu_process g := by
  simp (disch := decide) only [node_desc_req_apdu_process, hostInt16, h]

theorem activeEPs_eq {apdu : Nat → UInt8} {n : UInt8} {ids : List UInt8}
    (h : Holds apdu (n :: ids)) (hn : n.toNat = ids.length) : activeEPs apdu = ids := by
  rw [activeEPs, h.head]
  exact h.tail.bytesFrom_eq hn.symm

theorem clusterList_congr {f g : Nat → UInt8} {i count : Nat}
    (h : ∀ k < i + 2 * count, f k = g k) : clusterList f i count = clusterList g i count := by
  apply List.map_congr_left
  intro k hk
  have hk' : k < count := List.mem_range.mp hk
  rw [hostInt16, hostInt16, h _ (by omega), h _ (by omega)]

/-- The number of bytes that a simple descriptor takes, from its two counts. -/
def simpleDescSize (apdu : Nat → UInt8) : Nat :=
  8 + 2 * ((apdu 6).toNat + (apdu (7 + 2 * (apdu 6).toNat)).toNat)

theorem simple_desc_congr {f g : Nat → UInt8} (h : ∀ i < simpleDescSize g, f i = g i) :
    simple_desc_req_apdu_process f = simple_desc_req_apdu_process g := by
  rw [simpleDescSize] at h
  have hin : f 6 = g 6 := h 6 (by omega)
  have hout : f (7 + 2 * (g 6).toNat) = g (7 + 2 * (g 6).toNat) := h _ (by omega)
  have hincluster : clusterList f 7 (g 6).toNat = clusterList g 7 (g 6).toNat :=
    clusterList_congr fun k hk => h k (by omega)
  have houtcluster :
      clusterList f (8 + 2 * (g 6).toNat) (g (7 + 2 * (g 6).toNat)).toNat =
        clusterList g (8 + 2 * (g 6).toNat) (g (7 + 2 * (g 6).toNat)).toNat :=
    clusterList_congr fun k hk => h k (by omega)
  rw [simple_desc_req_apdu_process, simple_desc_req_apdu_process, hin, hout, hincluster,
    houtcluster]
  simp (disch := omega) only [hostInt16, h]

/-! ### Well-formed responses -/

/-- What the responses for a device say: a node descriptor of 13 bytes, endpoint
ids that a byte can count, and for each of them but 0 a simple descriptor that
is as long as its two counts say, with a length that fits a byte. -/
structure Discovery where
  nodeDesc : List UInt8
  activeEP : List UInt8
  simpleDesc : UInt8 → List UInt8
  nodeDesc_length : nodeDesc.length = 13
  activeEP_length : activeEP.length < 256
  simpleDesc_length : ∀ ep ∈ activeEP, ep ≠ 0 →
    (simpleDesc ep).length = simpleDescSize (inMemory (simpleDesc ep)) ∧
      (simpleDesc ep).length < 256

/-- The body of the response to a request: what follows `NWKAddrOfInterest`. -/
def Discovery.body (D : Discovery) : Request → List UInt8
  | .node_desc_req => D.nodeDesc
  | .active_ep_req => UInt8.ofNat D.activeEP.length :: D.activeEP
  | .simple_desc_req ep => UInt8.ofNat (D.simpleDesc ep).length :: D.simpleDesc ep

/-- The requests that discovery makes: the last for each endpoint but 0. -/
def Discovery.Asks (D : Discovery) : Request → Prop
  | .simple_desc_req ep => ep ∈ D.activeEP ∧ ep ≠ 0
  | _ => True

def Discovery.nodeDescriptor (D : Discovery) : NodeDescriptor :=
  node_desc_req_apdu_process (inMemory D.nodeDesc)

def Discovery.simpleDescriptor (D : Discovery) (ep : UInt8) : SimpleDescriptor :=
  simple_desc_req_apdu_process (inMemory (D.simpleDesc ep))

namespace Discovery

variable {D : Discovery} {apdu : Nat → UInt8}

theorem node_desc_eq (h : Holds apdu D.nodeDesc) :
    node_desc_req_apdu_process apdu = D.nodeDescriptor :=
  node_desc_congr fun _ hi => h.apply (D.nodeDesc_length ▸ hi)

theorem activeEPs_body (h : Holds apdu (D.body .active_ep_req)) :
    activeEPs apdu = D.activeEP :=
  activeEPs_eq h (UInt8.toNat_ofNat_of_lt' D.activeEP_length)

theorem tail_body {asdu : Nat → UInt8} {ep : UInt8}
    (h : Holds (shift asdu MSGBODY) (D.body (.simple_desc_req ep))) :
    Holds (shift asdu (MSGBODY + 1)) (D.simpleDesc ep) := by
  have hshift : shift (shift asdu MSGBODY) 1 = shift asdu (MSGBODY + 1) := by
    ext i
    simp only [shift, Nat.add_assoc]
  exact hshift ▸ h.tail

theorem simple_desc_eq {ep : UInt8} (hep : D.Asks (.simple_desc_req ep))
    (h : Holds apdu (D.simpleDesc ep)) :
    simple_desc_req_apdu_process apdu = D.simpleDescriptor ep := by
  obtain ⟨hsize, -⟩ := D.simpleDesc_length ep hep.1 hep.2
  apply simple_desc_congr
  intro i hi
  exact h.apply (hsize ▸ hi)

end Discovery

/-! ### Entries of the archive -/

/-- The strings in the entry of a device. -/
inductive Field where
  | ieeeAddr
  | nwkAddr
  | nodeDesc
  | activeEp
  | epId (ep : UInt8)
  | simpleDesc (ep : UInt8)
  deriving DecidableEq

/-- Where a string is in the entry. -/
def Field.path : Field → List Text
  | .ieeeAddr => [cstr "ieeeAddr"]
  | .nwkAddr => [cstr "nwkAddr"]
  | .nodeDesc => [cstr "NodeDescApduString"]
  | .activeEp => [cstr "ActiveEndpointApduString"]
  | .epId ep => [cstr "endpointList", epStr ep, cstr "Id"]
  | .simpleDesc ep => [cstr "endpointList", epStr ep, cstr "SimpleDescApdu"]

/-- The string of a discovered device. -/
def Discovery.text (D : Discovery) (d : Device) : Field → Text
  | .ieeeAddr => ieeeAddrStr d.ieee_id
  | .nwkAddr => nwkAddrStr d.id
  | .nodeDesc => kByteToHexString D.nodeDesc
  | .activeEp => kByteToHexString (D.body .active_ep_req)
  | .epId ep => epStr ep
  | .simpleDesc ep => kByteToHexString (D.simpleDesc ep)

/-- The strings that a response is archived in. -/
def Request.fields : Request → List Field
  | .node_desc_req => [.ieeeAddr, .nwkAddr, .nodeDesc]
  | .active_ep_req => [.ieeeAddr, .nwkAddr, .activeEp]
  | .simple_desc_req ep => [.ieeeAddr, .nwkAddr, .epId ep, .simpleDesc ep]

/-- The assignment of a string in the entry of a device. -/
def Discovery.assignment (D : Discovery) (d : Device) (field : Field) : Assignment :=
  (ieeeAddrStr d.ieee_id :: field.path, D.text d field)

theorem epStr_injective {ep ep' : UInt8} (h : epStr ep = epStr ep') : ep = ep' :=
  UInt8.toNat_inj.mp (intToHexStr_injective ep.toNat_lt ep'.toNat_lt h)

theorem ieeeAddrStr_injective {a b : UInt64} (h : ieeeAddrStr a = ieeeAddrStr b) : a = b :=
  UInt64.toNat_inj.mp (intToHexStr_injective a.toNat_lt b.toNat_lt h)

/-- Different strings of an entry are on different branches. -/
theorem Field.apart {f g : Field} (h : f ≠ g) : Json.Apart f.path g.path := by
  cases f with
  | epId ep | simpleDesc ep =>
      cases g with
      | epId ep' | simpleDesc ep' =>
          simp only [Field.path, Json.Apart]
          intro _ heq
          first
            | exact absurd (congrArg _ (epStr_injective heq)) h
            | decide
      | _ =>
          simp only [Field.path, Json.Apart]
          decide
  | _ =>
      cases g <;> first
        | exact absurd rfl h
        | (simp only [Field.path, Json.Apart]; decide)

/-- With the bytes of its body in the message, a response is archived in the
strings of the device. -/
theorem Discovery.archives_eq {D : Discovery} {r : Request} (hr : D.Asks r) {x : AfMessage}
    (h : Holds (shift x.asdu MSGBODY) (D.body r)) (stack : Text) (d : Device) :
    r.archives stack d x = r.fields.map (D.assignment d) := by
  have hstring : ∀ {bytes : List UInt8}, bytes ≠ [] →
      apduString stack bytes = kByteToHexString bytes := fun hne => if_neg hne
  cases r with
  | node_desc_req =>
      have hne : D.nodeDesc ≠ [] := List.ne_nil_of_length_pos (by simp [D.nodeDesc_length])
      have hbytes := h.bytesFrom_eq D.nodeDesc_length
      rw [Request.archives, hbytes, body, hstring hne]
      rfl
  | active_ep_req =>
      have hcount : x.asdu 4 = UInt8.ofNat D.activeEP.length := h.head
      have hn : (D.body .active_ep_req).length = (x.asdu 4).toNat + 1 := by
        rw [hcount, UInt8.toNat_ofNat_of_lt' D.activeEP_length]
        rfl
      have hne : D.body .active_ep_req ≠ [] := List.cons_ne_nil _ _
      rw [Request.archives, h.bytesFrom_eq hn, hstring hne]
      rfl
  | simple_desc_req ep =>
      obtain ⟨hsize, hlt⟩ := D.simpleDesc_length ep hr.1 hr.2
      have hcount : x.asdu 4 = UInt8.ofNat (D.simpleDesc ep).length := h.head
      have hn : (D.simpleDesc ep).length = (x.asdu 4).toNat := by
        rw [hcount, UInt8.toNat_ofNat_of_lt' hlt]
      have hne : D.simpleDesc ep ≠ [] := by
        apply List.ne_nil_of_length_pos
        rw [hsize, simpleDescSize]
        omega
      rw [Request.archives, (tail_body h).bytesFrom_eq hn, hstring hne]
      rfl

end KappaGateway.Zdo

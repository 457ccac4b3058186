import KappaGateway.Aps.ObjectModels
import KappaGateway.Kapi.Kjson

/-!
# The device archive

One JSON file with an object for each device, under the text of its IEEE
address. Each function loads the file, changes the document and stores it, some
of them several times; `none` is a file that is missing or does not parse.
-/

namespace KappaGateway.ZdoArchive

open Aps Kutil Kjson

def ieeeAddrStr (ieeeAddr : UInt64) : Text := intToHexStr 8 ieeeAddr.toNat

def nwkAddrStr (nwkAddr : UInt16) : Text := intToHexStr 2 nwkAddr.toNat

def epStr (id : UInt8) : Text := intToHexStr 1 id.toNat

/-- `JSON zar{location}`, or an empty object if that is not good. -/
def load (file : Option Doc) : Doc := file.getD (.object [])

/-- One load, some assignments, and `toFile`. -/
def rewrite (assignments : List Assignment) (file : Option Doc) : Option Doc :=
  some (assignAll assignments (load file))

/-- `ieeeAddr` and `nwkAddr` of the entry of a device. -/
def addresses (d : Device) : List Assignment :=
  [([ieeeAddrStr d.ieee_id, cstr "ieeeAddr"], ieeeAddrStr d.ieee_id),
    ([ieeeAddrStr d.ieee_id, cstr "nwkAddr"], nwkAddrStr d.id)]

def saveDevAddresses (d : Device) (file : Option Doc) : Option Doc := rewrite (addresses d) file

/-- `saveIds(Device&)`. -/
def saveIds (d : Device) (file : Option Doc) : Option Doc := rewrite (addresses d) file

/-- Where the entry of an endpoint is. -/
def endpointPath (d : Device) (ep : UInt8) : List Text :=
  [ieeeAddrStr d.ieee_id, cstr "endpointList", epStr ep]

/-- `saveIds(Endpoint&)` of endpoint `ep` of the device. -/
def saveEndpointIds (d : Device) (ep : UInt8) (file : Option Doc) : Option Doc :=
  rewrite [(endpointPath d ep ++ [cstr "Id"], epStr ep)] (saveIds d file)

/-- The text in `apduString`. Without bytes nothing is written to the array, not
even a terminator, and what was on the stack before is taken for the text. -/
def apduString (stack : Text) (apdu : List UInt8) : Text :=
  if apdu = [] then stack else kByteToHexString apdu

def saveEndpointApdu (stack : Text) (d : Device) (ep : UInt8) (label : Text)
    (apdu : List UInt8) (file : Option Doc) : Option Doc :=
  rewrite [(endpointPath d ep ++ [label], apduString stack apdu)] (saveEndpointIds d ep file)

def saveDevApdu (stack : Text) (d : Device) (label : Text) (apdu : List UInt8)
    (file : Option Doc) : Option Doc :=
  rewrite [([ieeeAddrStr d.ieee_id, label], apduString stack apdu)] (saveDevAddresses d file)

/-- `removeDev` leaves a file that is not good alone. -/
def removeDev (ieeeAddr : UInt64) (file : Option Doc) : Option Doc :=
  file.map (Json.erase (ieeeAddrStr ieeeAddr))

/-! ### Cycles of load and store -/

@[simp] theorem load_some (zar : Doc) : load (some zar) = zar := rfl

/-- What one cycle has stored the next one loads. -/
theorem rewrite_rewrite (first second : List Assignment) (file : Option Doc) :
    rewrite second (rewrite first file) = rewrite (first ++ second) file := by
  simp [rewrite, assignAll, Json.putAll_append]

theorem saveDevApdu_eq (stack : Text) (d : Device) (label : Text) (apdu : List UInt8)
    (file : Option Doc) :
    saveDevApdu stack d label apdu file =
      rewrite (addresses d ++
        [([ieeeAddrStr d.ieee_id, label], apduString stack apdu)]) file := by
  rw [saveDevApdu, saveDevAddresses, rewrite_rewrite]

theorem saveEndpointApdu_eq (stack : Text) (d : Device) (ep : UInt8) (label : Text)
    (apdu : List UInt8) (file : Option Doc) :
    saveEndpointApdu stack d ep label apdu file =
      rewrite (addresses d ++ [(endpointPath d ep ++ [cstr "Id"], epStr ep),
        (endpointPath d ep ++ [label], apduString stack apdu)]) file := by
  rw [saveEndpointApdu, saveEndpointIds, saveIds, rewrite_rewrite, rewrite_rewrite]
  rfl

/-- The archive is good and has every string in its place, or loses it. -/
def Archived (assignments : List Assignment) (file : Option Doc) : Prop :=
  ∃ zar, file = some zar ∧ ∀ a ∈ assignments, Json.Keeps (.string a.2) a.1 zar

/-- Assignments to different places change nothing exactly if none does. -/
theorem rewrite_eq_self_iff {assignments : List Assignment}
    (h : assignments.Pairwise fun a b => Json.Apart a.1 b.1) (file : Option Doc) :
    rewrite assignments file = file ↔ Archived assignments file := by
  cases file with
  | none => simp [rewrite, Archived]
  | some zar =>
      have hwrites : (assignments.map fun a => (a.1, (.string a.2 : Doc))).Pairwise
          fun a b => Json.Apart a.1 b.1 := List.pairwise_map.mpr h
      simp only [rewrite, load_some, assignAll, Option.some.injEq, Archived, exists_eq_left',
        Json.putAll_eq_self_iff hwrites, List.forall_mem_map]

end KappaGateway.ZdoArchive

import KappaGateway.Kapi.Kutil
import KappaGateway.Lib.Windows

/-!
# AF messages

The four classes of AF messages keep their fields in one array of bytes, each with
its own table of offsets. Integers lie there as in the memory of the host.
-/

namespace KappaGateway.AfMessage

open Kutil Windows

/-- `uint8_t data[255]`, and what lies behind it. -/
abbrev Data := Nat → UInt8

def dataSize : Nat := 255

/-- `proxyRd` of an integer of `size` bytes. -/
def proxyRd (size : Nat) (data : Data) (i : Nat) : Nat := memoryValue (window data i size)

/-- `hostIntToANSI` of an integer of `size` bytes. -/
def hostIntToANSI (size i v : Nat) (data : Data) : Data := patch i (memory size v) data

/-- `data[i] = v`. -/
def store (i v : Nat) (data : Data) : Data := patch i [UInt8.ofNat v] data

/-- The fields of a class whose setters store into `data`, with the sizes of their
types, and the accessors. -/
structure Accessors where
  Field : Type
  size : Field → Nat
  get : Field → Data → Nat
  set : Field → Nat → Data → Data

/-! ### The classes -/

namespace mt_afmessage

def groupIdIdx : Nat := 0
def clusIdx : Nat := groupIdIdx + 2
def srcAddrIdx : Nat := clusIdx + 2
def srcEpIdx : Nat := srcAddrIdx + 2
def dstEpIdx : Nat := srcEpIdx + 1
def wasBdctIdx : Nat := dstEpIdx + 1
def lnkQltIdx : Nat := wasBdctIdx + 1
def secUseIdx : Nat := lnkQltIdx + 1
def tmStmpIdx : Nat := secUseIdx + 1
def transIdx : Nat := tmStmpIdx + 4
def asduLenIdx : Nat := transIdx + 1
def asduIdx : Nat := asduLenIdx + 1

inductive Field where
  | dstEndpoint
  | groupId
  | clusterId
  | srcEndpoint
  | srcAddr
  | timeStamp
  | tranSeqNum
  | asduLen
  | asdu (i : Fin (dataSize - asduIdx))

def size : Field → Nat
  | .groupId | .clusterId | .srcAddr => 2
  | .timeStamp => 4
  | _ => 1

def get : Field → Data → Nat
  | .dstEndpoint, data => (data dstEpIdx).toNat
  | .groupId, data => (data groupIdIdx).toNat
  | .clusterId, data => proxyRd 2 data clusIdx
  | .srcEndpoint, data => (data srcEpIdx).toNat
  | .srcAddr, data => proxyRd 2 data srcAddrIdx
  | .timeStamp, data => proxyRd 4 data tmStmpIdx
  | .tranSeqNum, data => (data transIdx).toNat
  | .asduLen, data => (data asduLenIdx).toNat
  | .asdu i, data => (data (asduIdx + i)).toNat

def set : Field → Nat → Data → Data
  | .dstEndpoint, i => store dstEpIdx i
  | .groupId, i => store groupIdIdx i
  | .clusterId, i => hostIntToANSI 2 clusIdx i
  | .srcEndpoint, i => store srcEpIdx i
  | .srcAddr, i => hostIntToANSI 2 srcAddrIdx i
  | .timeStamp, i => hostIntToANSI 4 tmStmpIdx i
  | .tranSeqNum, i => store transIdx i
  | .asduLen, i => store asduLenIdx i
  | .asdu i, b => store (asduIdx + i) b

def accessors : Accessors := ⟨Field, size, get, set⟩

end mt_afmessage

namespace mt_afmessage_EXT

def groupIdIdx : Nat := 0
def clusIdx : Nat := groupIdIdx + 2
def scrAddrMdIdx : Nat := clusIdx + 2
def srcAddrIdx : Nat := scrAddrMdIdx + 1
def srcEpIdx : Nat := srcAddrIdx + 8
def srcPanIdIdx : Nat := srcEpIdx + 1
def dstEpIdx : Nat := srcPanIdIdx + 2
def wasBdctIdx : Nat := dstEpIdx + 1
def lnkQltIdx : Nat := wasBdctIdx + 1
def secUseIdx : Nat := lnkQltIdx + 1
def tmStmpIdx : Nat := secUseIdx + 1
def transIdx : Nat := tmStmpIdx + 4
def asduLenIdx : Nat := transIdx + 2
def asduIdx : Nat := asduLenIdx + 1

inductive Field where
  | dstEndpoint
  | groupId
  | clusterId
  | srcEndpoint
  | srcAddr
  | timeStamp
  | tranSeqNum
  | asduLen
  | addrMode
  | srcPanId
  | asdu (i : Fin (dataSize - asduIdx))

def size : Field → Nat
  | .groupId | .clusterId | .asduLen | .srcPanId => 2
  | .timeStamp => 4
  | .srcAddr => 8
  | _ => 1

def get : Field → Data → Nat
  | .dstEndpoint, data => (data dstEpIdx).toNat
  | .groupId, data => (data groupIdIdx).toNat
  | .clusterId, data => proxyRd 2 data clusIdx
  | .srcEndpoint, data => (data srcEpIdx).toNat
  | .srcAddr, data => proxyRd 8 data srcAddrIdx
  | .timeStamp, data => proxyRd 4 data tmStmpIdx
  | .tranSeqNum, data => (data transIdx).toNat
  | .asduLen, data => proxyRd 2 data asduLenIdx
  | .addrMode, data => (data scrAddrMdIdx).toNat
  | .srcPanId, data => proxyRd 2 data srcPanIdIdx
  | .asdu i, data => (data (asduIdx + i)).toNat

def set : Field → Nat → Data → Data
  | .dstEndpoint, i => store dstEpIdx i
  | .groupId, i => store groupIdIdx i
  | .clusterId, i => hostIntToANSI 2 clusIdx i
  | .srcEndpoint, i => store srcEpIdx i
  | .srcAddr, i => hostIntToANSI 8 srcAddrIdx i
  | .timeStamp, i => hostIntToANSI 4 tmStmpIdx i
  | .tranSeqNum, i => store transIdx i
  | .asduLen, i => hostIntToANSI 2 asduLenIdx i
  | .addrMode, i => store scrAddrMdIdx i
  | .srcPanId, i => hostIntToANSI 2 srcPanIdIdx i
  | .asdu i, b => store (asduIdx + i) b

def accessors : Accessors := ⟨Field, size, get, set⟩

end mt_afmessage_EXT

namespace kr_afmessage

def dstAddrIdx : Nat := 0
def dstEpIdx : Nat := dstAddrIdx + 2
def srcEpIdx : Nat := dstEpIdx + 1
def clusIdx : Nat := srcEpIdx + 1
def transIdx : Nat := clusIdx + 2
def optnsIdx : Nat := transIdx + 1
def radiuIdx : Nat := optnsIdx + 1
def asduLenIdx : Nat := radiuIdx + 1
def asduIdx : Nat := asduLenIdx + 1

inductive Field where
  | dstAddr
  | dstEndpoint
  | clusterId
  | srcEndpoint
  | tranSeqNum
  | asduLen
  | radius
  | options
  | asdu (i : Fin (dataSize - asduIdx))

def size : Field → Nat
  | .dstAddr | .clusterId => 2
  | _ => 1

def get : Field → Data → Nat
  | .dstAddr, data => proxyRd 2 data dstAddrIdx
  | .dstEndpoint, data => (data dstEpIdx).toNat
  | .clusterId, data => proxyRd 2 data clusIdx
  | .srcEndpoint, data => (data srcEpIdx).toNat
  | .tranSeqNum, data => (data transIdx).toNat
  | .asduLen, data => (data asduLenIdx).toNat
  | .radius, data => (data radiuIdx).toNat
  | .options, data => (data optnsIdx).toNat
  | .asdu i, data => (data (asduIdx + i)).toNat

def set : Field → Nat → Data → Data
  | .dstAddr, i => hostIntToANSI 2 dstAddrIdx i
  | .dstEndpoint, i => store dstEpIdx i
  | .clusterId, i => hostIntToANSI 2 clusIdx i
  | .srcEndpoint, i => store srcEpIdx i
  | .tranSeqNum, i => store transIdx i
  | .asduLen, i => store asduLenIdx i
  | .radius, i => store radiuIdx i
  | .options, i => store optnsIdx i
  | .asdu i, b => store (asduIdx + i) b

def accessors : Accessors := ⟨Field, size, get, set⟩

end kr_afmessage

namespace kr_afmessage_EXT

def dstAddrMdIdx : Nat := 0
def dstAddrIdx : Nat := dstAddrMdIdx + 1
def dstEpIdx : Nat := dstAddrIdx + 8
def dstPanIdIdx : Nat := dstEpIdx + 1
def srcEpIdx : Nat := dstPanIdIdx + 2
def clusIdx : Nat := srcEpIdx + 1
def transIdx : Nat := clusIdx + 2
def optnsIdx : Nat := transIdx + 1
def radiuIdx : Nat := optnsIdx + 1
def asduLenIdx : Nat := radiuIdx + 1
def asduIdx : Nat := asduLenIdx + 2

inductive Field where
  | dstAddr
  | dstEndpoint
  | clusterId
  | srcEndpoint
  | tranSeqNum
  | asduLen
  | radius
  | options
  | addrMode
  | dstPanId
  | asdu (i : Fin (dataSize - asduIdx))

def size : Field → Nat
  | .clusterId | .asduLen | .dstPanId => 2
  | .dstAddr => 8
  | _ => 1

def get : Field → Data → Nat
  | .dstAddr, data => proxyRd 8 data dstAddrIdx
  | .dstEndpoint, data => (data dstEpIdx).toNat
  | .clusterId, data => proxyRd 2 data clusIdx
  | .srcEndpoint, data => (data srcEpIdx).toNat
  | .tranSeqNum, data => (data transIdx).toNat
  | .asduLen, data => proxyRd 2 data asduLenIdx
  | .radius, data => (data radiuIdx).toNat
  | .options, data => (data optnsIdx).toNat
  | .addrMode, data => (data dstAddrMdIdx).toNat
  | .dstPanId, data => proxyRd 2 data dstPanIdIdx
  | .asdu i, data => (data (asduIdx + i)).toNat

def set : Field → Nat → Data → Data
  | .dstAddr, i => hostIntToANSI 8 dstAddrIdx i
  | .dstEndpoint, i => store dstEpIdx i
  | .clusterId, i => hostIntToANSI 2 clusIdx i
  | .srcEndpoint, i => store srcEpIdx i
  | .tranSeqNum, i => store transIdx i
  | .asduLen, i => hostIntToANSI 2 asduLenIdx i
  | .radius, i => store radiuIdx i
  | .options, i => store optnsIdx i
  | .addrMode, i => store dstAddrMdIdx i
  | .dstPanId, i => hostIntToANSI 2 dstPanIdIdx i
  | .asdu i, b => store (asduIdx + i) b

def accessors : Accessors := ⟨Field, size, get, set⟩

end kr_afmessage_EXT

inductive MessageClass where
  | mt_afmessage
  | mt_afmessage_EXT
  | kr_afmessage
  | kr_afmessage_EXT

def MessageClass.accessors : MessageClass → Accessors
  | .mt_afmessage => AfMessage.mt_afmessage.accessors
  | .mt_afmessage_EXT => AfMessage.mt_afmessage_EXT.accessors
  | .kr_afmessage => AfMessage.kr_afmessage.accessors
  | .kr_afmessage_EXT => AfMessage.kr_afmessage_EXT.accessors

/-! ### What the virtual functions return -/

/-- A message as its users see it. `room` is how many bytes of `data` there are from
`asdu()` on. -/
structure AFMessage where
  dstAddr : UInt16
  dstEndpoint : UInt8
  groupId : UInt16
  clusterId : UInt16
  srcEndpoint : UInt8
  srcAddr : UInt16
  wasBroadCast : UInt8
  linkQuality : UInt8
  securityUse : UInt8
  timeStamp : UInt32
  tranSeqNum : UInt8
  asduLen : UInt8
  radius : UInt8
  options : UInt8
  dstAddrMode : UInt8
  asdu : Nat → UInt8
  room : Nat

structure AFMessage_EXT where
  dstAddr : UInt64
  dstEndpoint : UInt8
  addrMode : UInt8
  srcPanId : UInt16
  dstPanId : UInt16
  groupId : UInt16
  clusterId : UInt16
  srcEndpoint : UInt8
  srcAddr : UInt64
  wasBroadCast : UInt8
  linkQuality : UInt8
  securityUse : UInt8
  timeStamp : UInt32
  tranSeqNum : UInt8
  asduLen : UInt16
  radius : UInt8
  options : UInt8
  asdu : Nat → UInt8
  room : Nat

def mt_afmessage.view (data : Data) : AFMessage where
  dstAddr := 0
  dstEndpoint := UInt8.ofNat (get .dstEndpoint data)
  groupId := UInt16.ofNat (get .groupId data)
  clusterId := UInt16.ofNat (get .clusterId data)
  srcEndpoint := UInt8.ofNat (get .srcEndpoint data)
  srcAddr := UInt16.ofNat (get .srcAddr data)
  wasBroadCast := 0
  linkQuality := data lnkQltIdx
  securityUse := 0
  timeStamp := UInt32.ofNat (get .timeStamp data)
  tranSeqNum := UInt8.ofNat (get .tranSeqNum data)
  asduLen := UInt8.ofNat (get .asduLen data)
  radius := 0
  options := 0
  dstAddrMode := 2
  asdu i := data (asduIdx + i)
  room := dataSize - asduIdx

def mt_afmessage_EXT.view (data : Data) : AFMessage_EXT where
  dstAddr := 0
  dstEndpoint := UInt8.ofNat (get .dstEndpoint data)
  addrMode := UInt8.ofNat (get .addrMode data)
  srcPanId := UInt16.ofNat (get .srcPanId data)
  dstPanId := 0
  groupId := UInt16.ofNat (get .groupId data)
  clusterId := UInt16.ofNat (get .clusterId data)
  srcEndpoint := UInt8.ofNat (get .srcEndpoint data)
  srcAddr := UInt64.ofNat (get .srcAddr data)
  wasBroadCast := 0
  linkQuality := data lnkQltIdx
  securityUse := 0
  timeStamp := UInt32.ofNat (get .timeStamp data)
  tranSeqNum := UInt8.ofNat (get .tranSeqNum data)
  asduLen := UInt16.ofNat (get .asduLen data)
  radius := 0
  options := 0
  asdu i := data (asduIdx + i)
  room := dataSize - asduIdx

def kr_afmessage.view (data : Data) : AFMessage where
  dstAddr := UInt16.ofNat (get .dstAddr data)
  dstEndpoint := UInt8.ofNat (get .dstEndpoint data)
  groupId := 0
  clusterId := UInt16.ofNat (get .clusterId data)
  srcEndpoint := UInt8.ofNat (get .srcEndpoint data)
  srcAddr := 0
  wasBroadCast := 0
  linkQuality := 0
  securityUse := 0
  timeStamp := 0
  tranSeqNum := UInt8.ofNat (get .tranSeqNum data)
  asduLen := UInt8.ofNat (get .asduLen data)
  radius := UInt8.ofNat (get .radius data)
  options := UInt8.ofNat (get .options data)
  dstAddrMode := 2
  asdu i := data (asduIdx + i)
  room := dataSize - asduIdx

def kr_afmessage_EXT.view (data : Data) : AFMessage_EXT where
  dstAddr := UInt64.ofNat (get .dstAddr data)
  dstEndpoint := UInt8.ofNat (get .dstEndpoint data)
  addrMode := UInt8.ofNat (get .addrMode data)
  srcPanId := 0
  dstPanId := UInt16.ofNat (get .dstPanId data)
  groupId := 0
  clusterId := UInt16.ofNat (get .clusterId data)
  srcEndpoint := UInt8.ofNat (get .srcEndpoint data)
  srcAddr := 0
  wasBroadCast := 0
  linkQuality := 0
  securityUse := 0
  timeStamp := 0
  tranSeqNum := UInt8.ofNat (get .tranSeqNum data)
  asduLen := UInt16.ofNat (get .asduLen data)
  radius := UInt8.ofNat (get .radius data)
  options := UInt8.ofNat (get .options data)
  asdu i := data (asduIdx + i)
  room := dataSize - asduIdx

end KappaGateway.AfMessage

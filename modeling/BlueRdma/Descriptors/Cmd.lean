import BlueRdma.Descriptors.Basic

namespace BlueRdma
open BitField

inductive CmdQueueDescOperators
  | updateMrTable
  | updatePgt
  | manageQp
  | setNetworkParam
  | setRawPacketReceiveMeta

def CmdQueueDescOperators.toUInt8 : CmdQueueDescOperators → UInt8
  | .updateMrTable => 0x00
  | .updatePgt => 0x01
  | .manageQp => 0x02
  | .setNetworkParam => 0x03
  | .setRawPacketReceiveMeta => 0x04

def RingBufDescCommonHead.newCmdDesc (operator : CmdQueueDescOperators) : RingBufDescCommonHead :=
  newWithOpCode operator.toUInt8

/-- The last word of every command: 32 bits of its own, the user data and the common header. -/
def cmdHeaderWord (low : BitVec 32) (userData : UInt8) (operator : CmdQueueDescOperators) : UInt64 :=
  bitWord [⟨32,low⟩,⟨8,userData.toBitVec⟩,⟨1,0⟩,⟨7,0⟩,
    ⟨16,(RingBufDescCommonHead.newCmdDesc operator).value⟩]

/-- `u17::from_u32` panics on an offset that does not fit. -/
def CmdQueueReqDescUpdateMrTable.new (userData : UInt8) (mrBaseVa : UInt64)
    (mrLength mrKey pdHandler : UInt32) (accFlags : UInt8) (pgtOffset : UInt32) : Option DescWords :=
  if pgtOffset.toNat<2^17 then some {
    c0 := bitWord [⟨7,0⟩,⟨17,pgtOffset.toBitVec.setWidth 17⟩,⟨8,accFlags.toBitVec⟩,
      ⟨32,pdHandler.toBitVec⟩]
    c1 := bitWord [⟨32,mrKey.toBitVec⟩,⟨32,mrLength.toBitVec⟩]
    c2 := bitWord [⟨64,mrBaseVa.toBitVec⟩]
    c3 := cmdHeaderWord 0 userData .updateMrTable}
  else none

def CmdQueueReqDescUpdatePGT.new (userData : UInt8) (dmaAddr : UInt64)
    (startIndex zeroBasedEntryCount : UInt32) : DescWords where
  c0 := bitWord [⟨64,0⟩]
  c1 := bitWord [⟨32,zeroBasedEntryCount.toBitVec⟩,⟨32,startIndex.toBitVec⟩]
  c2 := bitWord [⟨64,dmaAddr.toBitVec⟩]
  c3 := cmdHeaderWord 0 userData .updatePgt

def CmdQueueReqDescQpManagement.new (userData : UInt8) (ipAddr qpn : UInt32)
    (isError isValid : Bool) (peerQpn : UInt32) (rqAccessFlags qpType pmtu : UInt8)
    (localUdpPort : UInt16) (peerMacAddr : UInt64) : DescWords where
  c0 := bitWord [⟨48,peerMacAddr.toBitVec.setWidth 48⟩,⟨16,localUdpPort.toBitVec⟩]
  c1 := bitWord [⟨16,0⟩,⟨5,0⟩,⟨3,pmtu.toBitVec.setWidth 3⟩,⟨4,0⟩,⟨4,qpType.toBitVec.setWidth 4⟩,
    ⟨8,rqAccessFlags.toBitVec⟩,⟨24,peerQpn.toBitVec.setWidth 24⟩]
  c2 := bitWord [⟨32,0⟩,⟨24,qpn.toBitVec.setWidth 24⟩,⟨6,0⟩,⟨1,BitVec.ofBool isError⟩,
    ⟨1,BitVec.ofBool isValid⟩]
  c3 := cmdHeaderWord ipAddr.toBitVec userData .manageQp

def CmdQueueReqDescSetNetworkParam.new (userData : UInt8) (gateway netmask ipAddr : UInt32)
    (macAddr : UInt64) : DescWords where
  c0 := bitWord [⟨16,0⟩,⟨48,macAddr.toBitVec.setWidth 48⟩]
  c1 := bitWord [⟨32,0⟩,⟨32,ipAddr.toBitVec⟩]
  c2 := bitWord [⟨32,netmask.toBitVec⟩,⟨32,gateway.toBitVec⟩]
  c3 := cmdHeaderWord 0 userData .setNetworkParam

def CmdQueueReqDescSetRawPacketReceiveMeta.new (userData : UInt8) (writeBaseAddr : UInt64) :
    DescWords where
  c0 := bitWord [⟨64,0⟩]
  c1 := bitWord [⟨64,0⟩]
  c2 := bitWord [⟨64,writeBaseAddr.toBitVec⟩]
  c3 := cmdHeaderWord 0 userData .setRawPacketReceiveMeta

namespace CmdQueueReqDescUpdateMrTable

def mrBaseVa (t : DescWords) : UInt64 := ⟨field 64 0 t.c2.toNat⟩
def mrLength (t : DescWords) : UInt32 := ⟨field 32 32 t.c1.toNat⟩
def mrKey (t : DescWords) : UInt32 := ⟨field 32 0 t.c1.toNat⟩
def accFlags (t : DescWords) : UInt8 := ⟨field 8 24 t.c0.toNat⟩
def pgtOffset (t : DescWords) : UInt32 := ⟨(field 17 7 t.c0.toNat).setWidth 32⟩

/-- The field the protection domain is put in is called `reserved1`. -/
def reserved1 (t : DescWords) : UInt32 := ⟨field 32 32 t.c0.toNat⟩

end CmdQueueReqDescUpdateMrTable

namespace CmdQueueReqDescUpdatePGT

def dmaAddr (t : DescWords) : UInt64 := ⟨field 64 0 t.c2.toNat⟩
def startIndex (t : DescWords) : UInt32 := ⟨field 32 32 t.c1.toNat⟩
def zeroBasedEntryCount (t : DescWords) : UInt32 := ⟨field 32 0 t.c1.toNat⟩

end CmdQueueReqDescUpdatePGT

namespace CmdQueueReqDescQpManagement

def ipAddr (t : DescWords) : UInt32 := ⟨field 32 0 t.c3.toNat⟩
def qpn (t : DescWords) : UInt32 := ⟨(field 24 32 t.c2.toNat).setWidth 32⟩
def isError (t : DescWords) : Bool := flag 62 t.c2.toNat
def isValid (t : DescWords) : Bool := flag 63 t.c2.toNat
def peerQpn (t : DescWords) : UInt32 := ⟨(field 24 40 t.c1.toNat).setWidth 32⟩
def rqAccessFlags (t : DescWords) : UInt8 := ⟨field 8 32 t.c1.toNat⟩
def qpType (t : DescWords) : UInt8 := ⟨(field 4 28 t.c1.toNat).setWidth 8⟩
def pmtu (t : DescWords) : UInt8 := ⟨(field 3 21 t.c1.toNat).setWidth 8⟩
def localUdpPort (t : DescWords) : UInt16 := ⟨field 16 48 t.c0.toNat⟩
def peerMacAddr (t : DescWords) : UInt64 := ⟨(field 48 0 t.c0.toNat).setWidth 64⟩

end CmdQueueReqDescQpManagement

namespace CmdQueueReqDescSetNetworkParam

def gateway (t : DescWords) : UInt32 := ⟨field 32 32 t.c2.toNat⟩
def netmask (t : DescWords) : UInt32 := ⟨field 32 0 t.c2.toNat⟩
def ipAddr (t : DescWords) : UInt32 := ⟨field 32 32 t.c1.toNat⟩
def macAddr (t : DescWords) : UInt64 := ⟨(field 48 16 t.c0.toNat).setWidth 64⟩

end CmdQueueReqDescSetNetworkParam

def CmdQueueReqDescSetRawPacketReceiveMeta.writeBaseAddr (t : DescWords) : UInt64 :=
  ⟨field 64 0 t.c2.toNat⟩

end BlueRdma

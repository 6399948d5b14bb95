import BlueRdma.Descriptors.Basic
import BlueRdma.Workers.MetaReport.Types

namespace BlueRdma
open BitField

inductive RdmaOpCode
  | sendFirst
  | sendMiddle
  | sendLast
  | sendLastWithImmediate
  | sendOnly
  | sendOnlyWithImmediate
  | rdmaWriteFirst
  | rdmaWriteMiddle
  | rdmaWriteLast
  | rdmaWriteLastWithImmediate
  | rdmaWriteOnly
  | rdmaWriteOnlyWithImmediate
  | rdmaReadRequest
  | rdmaReadResponseFirst
  | rdmaReadResponseMiddle
  | rdmaReadResponseLast
  | rdmaReadResponseOnly
  | acknowledge
  | atomicAcknowledge
  | compareSwap
  | fetchAdd
  | resync
  | sendLastWithInvalidate
  | sendOnlyWithInvalidate
  deriving DecidableEq

namespace RdmaOpCode

def fromU8 (value : UInt8) : Option RdmaOpCode :=
  [sendFirst,sendMiddle,sendLast,sendLastWithImmediate,sendOnly,sendOnlyWithImmediate,
    rdmaWriteFirst,rdmaWriteMiddle,rdmaWriteLast,rdmaWriteLastWithImmediate,rdmaWriteOnly,
    rdmaWriteOnlyWithImmediate,rdmaReadRequest,rdmaReadResponseFirst,rdmaReadResponseMiddle,
    rdmaReadResponseLast,rdmaReadResponseOnly,acknowledge,atomicAcknowledge,compareSwap,fetchAdd,
    resync,sendLastWithInvalidate,sendOnlyWithInvalidate][value.toNat]?

def packetPos : RdmaOpCode → Option PacketPos
  | sendFirst | rdmaWriteFirst | rdmaReadResponseFirst => some .first
  | sendMiddle | rdmaWriteMiddle | rdmaReadResponseMiddle => some .middle
  | sendLast | sendLastWithImmediate | rdmaWriteLast | rdmaWriteLastWithImmediate
  | rdmaReadResponseLast | sendLastWithInvalidate => some .last
  | sendOnly | sendOnlyWithImmediate | rdmaWriteOnly | rdmaWriteOnlyWithImmediate
  | rdmaReadResponseOnly | sendOnlyWithInvalidate => some .only
  | rdmaReadRequest | acknowledge | atomicAcknowledge | compareSwap | fetchAdd | resync => none

/-- `None` where the source reaches `unreachable!("unsupported header type")`. -/
def headerType : RdmaOpCode → Option HeaderType
  | rdmaWriteFirst | rdmaWriteMiddle | rdmaWriteLast | rdmaWriteOnly => some .write
  | rdmaWriteLastWithImmediate | rdmaWriteOnlyWithImmediate => some .writeWithImm
  | sendFirst | sendMiddle | sendLast | sendOnly => some .send
  | sendLastWithImmediate | sendOnlyWithImmediate => some .sendWithImm
  | rdmaReadResponseFirst | rdmaReadResponseMiddle | rdmaReadResponseLast
  | rdmaReadResponseOnly => some .readResp
  | _ => none

def isPacket : RdmaOpCode → Bool
  | sendFirst | sendMiddle | sendLast | sendLastWithImmediate | sendOnly | sendOnlyWithImmediate
  | rdmaWriteFirst | rdmaWriteMiddle | rdmaWriteLast | rdmaWriteLastWithImmediate | rdmaWriteOnly
  | rdmaWriteOnlyWithImmediate | rdmaReadRequest | rdmaReadResponseFirst | rdmaReadResponseMiddle
  | rdmaReadResponseLast | rdmaReadResponseOnly => true
  | _ => false

def isAck : RdmaOpCode → Bool
  | acknowledge | atomicAcknowledge => true
  | _ => false

/-- Packets of writes, sends and read responses have a header type, a position and a descriptor
for packets. -/
theorem headerType_some (op : RdmaOpCode) (ty : HeaderType) (h : op.headerType=some ty) :
    op.isPacket=true ∧ ∃ pos,op.packetPos=some pos := by
  cases op <;> first | exact ⟨rfl,_,rfl⟩ | cases h

end RdmaOpCode

structure MetaReportQueuePacketBasicInfoDescChunk0 where
  immData : BitVec 32
  rkey : BitVec 32

namespace MetaReportQueuePacketBasicInfoDescChunk0

def value (c : MetaReportQueuePacketBasicInfoDescChunk0) : UInt64 :=
  bitWord [⟨32,c.immData⟩,⟨32,c.rkey⟩]

def ofValue (v : UInt64) : MetaReportQueuePacketBasicInfoDescChunk0 :=
  ⟨field 32 0 v.toNat,field 32 32 v.toNat⟩

theorem ofValue_value (c : MetaReportQueuePacketBasicInfoDescChunk0) : ofValue c.value=c := by
  rw [ofValue,value,bitWord_toNat _ rfl]
  exact congrArg₂ mk (field_pack _ 0 32 c.immData rfl) (field_pack _ 1 32 c.rkey rfl)

end MetaReportQueuePacketBasicInfoDescChunk0

structure MetaReportQueuePacketBasicInfoDescChunk1 where
  raddr : BitVec 64

namespace MetaReportQueuePacketBasicInfoDescChunk1

def value (c : MetaReportQueuePacketBasicInfoDescChunk1) : UInt64 := bitWord [⟨64,c.raddr⟩]

def ofValue (v : UInt64) : MetaReportQueuePacketBasicInfoDescChunk1 := ⟨field 64 0 v.toNat⟩

theorem ofValue_value (c : MetaReportQueuePacketBasicInfoDescChunk1) : ofValue c.value=c := by
  rw [ofValue,value,bitWord_toNat _ rfl]
  exact congrArg mk (field_pack [⟨64,c.raddr⟩] 0 64 c.raddr rfl)

end MetaReportQueuePacketBasicInfoDescChunk1

structure MetaReportQueuePacketBasicInfoDescChunk2 where
  totalLen : BitVec 32
  reserved1 : BitVec 8
  dqpn : BitVec 24

namespace MetaReportQueuePacketBasicInfoDescChunk2

def value (c : MetaReportQueuePacketBasicInfoDescChunk2) : UInt64 :=
  bitWord [⟨32,c.totalLen⟩,⟨8,c.reserved1⟩,⟨24,c.dqpn⟩]

def ofValue (v : UInt64) : MetaReportQueuePacketBasicInfoDescChunk2 :=
  ⟨field 32 0 v.toNat,field 8 32 v.toNat,field 24 40 v.toNat⟩

theorem ofValue_value (c : MetaReportQueuePacketBasicInfoDescChunk2) : ofValue c.value=c := by
  rw [ofValue,value,bitWord_toNat _ rfl]
  obtain ⟨totalLen,reserved1,dqpn⟩ := c
  simp only [mk.injEq]
  exact ⟨field_pack _ 0 32 totalLen rfl,field_pack _ 1 8 reserved1 rfl,field_pack _ 2 24 dqpn rfl⟩

end MetaReportQueuePacketBasicInfoDescChunk2

structure MetaReportQueuePacketBasicInfoDescChunk3 where
  reserved0 : BitVec 4
  isRetry : Bool
  ackReq : Bool
  solicited : Bool
  ecnMarked : Bool
  psn : BitVec 24
  msn : BitVec 16
  commonHeader : RingBufDescCommonHead

namespace MetaReportQueuePacketBasicInfoDescChunk3

def fields (c : MetaReportQueuePacketBasicInfoDescChunk3) : List Field :=
  [⟨4,c.reserved0⟩,⟨1,BitVec.ofBool c.isRetry⟩,⟨1,BitVec.ofBool c.ackReq⟩,
    ⟨1,BitVec.ofBool c.solicited⟩,⟨1,BitVec.ofBool c.ecnMarked⟩,⟨24,c.psn⟩,⟨16,c.msn⟩,
    ⟨16,c.commonHeader.value⟩]

def value (c : MetaReportQueuePacketBasicInfoDescChunk3) : UInt64 := bitWord c.fields

def ofValue (v : UInt64) : MetaReportQueuePacketBasicInfoDescChunk3 :=
  ⟨field 4 0 v.toNat,flag 4 v.toNat,flag 5 v.toNat,flag 6 v.toNat,flag 7 v.toNat,
    field 24 8 v.toNat,field 16 32 v.toNat,.ofValue (field 16 48 v.toNat)⟩

theorem ofValue_value (c : MetaReportQueuePacketBasicInfoDescChunk3) : ofValue c.value=c := by
  rw [ofValue,value,bitWord_toNat _ rfl]
  obtain ⟨reserved0,isRetry,ackReq,solicited,ecnMarked,psn,msn,commonHeader⟩ := c
  simp only [mk.injEq]
  exact ⟨field_pack _ 0 4 reserved0 rfl,flag_pack _ 1 isRetry rfl,flag_pack _ 2 ackReq rfl,
    flag_pack _ 3 solicited rfl,flag_pack _ 4 ecnMarked rfl,field_pack _ 5 24 psn rfl,
    field_pack _ 6 16 msn rfl,RingBufDescCommonHead.ofValue_pack _ 7 commonHeader rfl⟩

end MetaReportQueuePacketBasicInfoDescChunk3

/-- Header of a received packet. -/
structure MetaReportQueuePacketBasicInfoDesc where
  c0 : MetaReportQueuePacketBasicInfoDescChunk0
  c1 : MetaReportQueuePacketBasicInfoDescChunk1
  c2 : MetaReportQueuePacketBasicInfoDescChunk2
  c3 : MetaReportQueuePacketBasicInfoDescChunk3

instance : DescLayout MetaReportQueuePacketBasicInfoDesc where
  words d := ⟨d.c0.value,d.c1.value,d.c2.value,d.c3.value⟩
  ofWords t := ⟨.ofValue t.c0,.ofValue t.c1,.ofValue t.c2,.ofValue t.c3⟩

namespace MetaReportQueuePacketBasicInfoDesc

def opCode (d : MetaReportQueuePacketBasicInfoDesc) : Option RdmaOpCode :=
  RdmaOpCode.fromU8 ⟨d.c3.commonHeader.opCode⟩

def packetPos (d : MetaReportQueuePacketBasicInfoDesc) : Option PacketPos :=
  d.opCode.bind RdmaOpCode.packetPos

def headerType (d : MetaReportQueuePacketBasicInfoDesc) : Option HeaderType :=
  d.opCode.bind RdmaOpCode.headerType

def msn (d : MetaReportQueuePacketBasicInfoDesc) : UInt16 := ⟨d.c3.msn⟩
def psn (d : MetaReportQueuePacketBasicInfoDesc) : UInt32 := ⟨d.c3.psn.setWidth 32⟩
def ecnMarked (d : MetaReportQueuePacketBasicInfoDesc) : Bool := d.c3.ecnMarked
def ackReq (d : MetaReportQueuePacketBasicInfoDesc) : Bool := d.c3.ackReq
def isRetry (d : MetaReportQueuePacketBasicInfoDesc) : Bool := d.c3.isRetry
def dqpn (d : MetaReportQueuePacketBasicInfoDesc) : UInt32 := ⟨d.c2.dqpn.setWidth 32⟩
def raddr (d : MetaReportQueuePacketBasicInfoDesc) : UInt64 := ⟨d.c1.raddr⟩
def rkey (d : MetaReportQueuePacketBasicInfoDesc) : UInt32 := ⟨d.c0.rkey⟩
def immData (d : MetaReportQueuePacketBasicInfoDesc) : UInt32 := ⟨d.c0.immData⟩

def setEcnMarked (d : MetaReportQueuePacketBasicInfoDesc) (val : Bool) :
    MetaReportQueuePacketBasicInfoDesc :=
  {d with c3 := {d.c3 with ecnMarked := val}}

theorem ofWords_words (d : MetaReportQueuePacketBasicInfoDesc) :
    (DescLayout.ofWords (DescLayout.words d) : MetaReportQueuePacketBasicInfoDesc)=d := by
  obtain ⟨c0,c1,c2,c3⟩ := d
  exact (MetaReportQueuePacketBasicInfoDesc.mk.injEq ..).mpr
    ⟨c0.ofValue_value,c1.ofValue_value,c2.ofValue_value,c3.ofValue_value⟩

theorem words_header (d : MetaReportQueuePacketBasicInfoDesc) :
    (DescLayout.words d).header=d.c3.commonHeader :=
  congrArg MetaReportQueuePacketBasicInfoDescChunk3.commonHeader d.c3.ofValue_value

end MetaReportQueuePacketBasicInfoDesc

/-- What a read request adds to its header. -/
structure MetaReportQueueReadReqExtendInfoDesc where
  totalLen : UInt32
  laddr : UInt64
  lkey : UInt32

def MetaReportQueueReadReqExtendInfoDesc.ofWords (t : DescWords) :
    MetaReportQueueReadReqExtendInfoDesc :=
  ⟨⟨field 32 0 t.c3.toNat⟩,t.c2,⟨field 32 32 t.c1.toNat⟩⟩

structure MetaReportQueueAckDesc where
  nowBitmap : BitVec 128
  msn : UInt16
  qpn : UInt32
  psnNow : UInt32
  psnBeforeSlide : UInt32
  isSendByDriver : Bool
  isSendByLocalHw : Bool

def MetaReportQueueAckDesc.ofWords (t : DescWords) : MetaReportQueueAckDesc where
  nowBitmap := t.c1.toBitVec++t.c0.toBitVec
  msn := ⟨field 16 0 t.c2.toNat⟩
  qpn := ⟨(field 24 16 t.c2.toNat).setWidth 32⟩
  psnNow := ⟨(field 24 40 t.c2.toNat).setWidth 32⟩
  psnBeforeSlide := ⟨(field 24 8 t.c3.toNat).setWidth 32⟩
  isSendByDriver := flag 42 t.c3.toNat
  isSendByLocalHw := flag 43 t.c3.toNat

structure MetaReportQueueAckExtraDesc where
  preBitmap : BitVec 128

def MetaReportQueueAckExtraDesc.ofWords (t : DescWords) : MetaReportQueueAckExtraDesc :=
  ⟨t.c1.toBitVec++t.c0.toBitVec⟩

/-- The first descriptor of a report. -/
inductive MetaReportQueueDescFirst
  | packetInfo (d : MetaReportQueuePacketBasicInfoDesc)
  | ack (d : MetaReportQueueAckDesc)

/-- The second descriptor, for read requests and NAKs. -/
inductive MetaReportQueueDescNext
  | readInfo (d : MetaReportQueueReadReqExtendInfoDesc)
  | ackExtra (d : MetaReportQueueAckExtraDesc)

/-- `None` where the source reaches `unreachable!` on the opcode. -/
def MetaReportQueueDescFirst.deserialize (d : DescBytes) : Option MetaReportQueueDescFirst := do
  let t := DescWords.ofBytes d
  let op ← RdmaOpCode.fromU8 ⟨t.header.opCode⟩
  if op.isPacket then some (.packetInfo (DescLayout.ofWords t))
  else if op.isAck then some (.ack (.ofWords t))
  else none

def MetaReportQueueDescNext.deserialize (d : DescBytes) : Option MetaReportQueueDescNext := do
  let t := DescWords.ofBytes d
  let op ← RdmaOpCode.fromU8 ⟨t.header.opCode⟩
  if op.isPacket then some (.readInfo (.ofWords t))
  else if op.isAck then some (.ackExtra (.ofWords t))
  else none

instance : DescDeserialize (Option MetaReportQueueDescFirst) :=
  ⟨MetaReportQueueDescFirst.deserialize⟩

instance : DescDeserialize (Option MetaReportQueueDescNext) :=
  ⟨MetaReportQueueDescNext.deserialize⟩

end BlueRdma

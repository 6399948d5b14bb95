import BlueRdma.Descriptors.Basic
import BlueRdma.Workers.Send

namespace BlueRdma
open BitField

/-- The `repr(u8)` value of an opcode. -/
def WorkReqOpCode.toUInt8 : WorkReqOpCode → UInt8
  | .rdmaWrite => 0
  | .rdmaWriteWithImm => 1
  | .send => 2
  | .sendWithImm => 3
  | .rdmaRead => 4
  | .atomicCmpAndSwp => 5
  | .atomicFetchAndAdd => 6
  | .localInv => 7
  | .bindMw => 8
  | .sendWithInv => 9
  | .tso => 10
  | .driver1 => 11
  | .rdmaReadResp => 12
  | .rdmaAck => 13
  | .flush => 14
  | .atomicWrite => 15

theorem WorkReqOpCode.toUInt8_toNat (a : WorkReqOpCode) : a.toUInt8.toNat=a.ctorIdx := by
  cases a <;> rfl

theorem WorkReqOpCode.toUInt8_inj (a b : WorkReqOpCode) (h : a.toUInt8=b.toUInt8) : a=b := by
  have hidx : a.ctorIdx=b.ctorIdx := by rw [← a.toUInt8_toNat,h,b.toUInt8_toNat]
  rw [← WorkReqOpCode.ofNat_ctorIdx a,hidx,WorkReqOpCode.ofNat_ctorIdx b]

def RingBufDescCommonHead.newSendDesc (opcode : WorkReqOpCode) : RingBufDescCommonHead :=
  newWithOpCode opcode.toUInt8

structure SendQueueReqDescSeg0Chunk0 where
  reserved1 : BitVec 3
  flags : BitVec 5
  dqpn : BitVec 24
  reserved0 : BitVec 4
  qpType : BitVec 4
  psn : BitVec 24

namespace SendQueueReqDescSeg0Chunk0

def fields (c : SendQueueReqDescSeg0Chunk0) : List Field :=
  [⟨3,c.reserved1⟩,⟨5,c.flags⟩,⟨24,c.dqpn⟩,⟨4,c.reserved0⟩,⟨4,c.qpType⟩,⟨24,c.psn⟩]

def value (c : SendQueueReqDescSeg0Chunk0) : UInt64 := bitWord c.fields

def ofValue (v : UInt64) : SendQueueReqDescSeg0Chunk0 :=
  ⟨field 3 0 v.toNat,field 5 3 v.toNat,field 24 8 v.toNat,field 4 32 v.toNat,field 4 36 v.toNat,
    field 24 40 v.toNat⟩

theorem ofValue_value (c : SendQueueReqDescSeg0Chunk0) : ofValue c.value=c := by
  rw [ofValue,value,bitWord_toNat _ rfl]
  obtain ⟨reserved1,flags,dqpn,reserved0,qpType,psn⟩ := c
  simp only [mk.injEq]
  exact ⟨field_pack _ 0 3 reserved1 rfl,field_pack _ 1 5 flags rfl,field_pack _ 2 24 dqpn rfl,
    field_pack _ 3 4 reserved0 rfl,field_pack _ 4 4 qpType rfl,field_pack _ 5 24 psn rfl⟩

end SendQueueReqDescSeg0Chunk0

structure SendQueueReqDescSeg0Chunk1 where
  raddr : BitVec 64

namespace SendQueueReqDescSeg0Chunk1

def value (c : SendQueueReqDescSeg0Chunk1) : UInt64 := bitWord [⟨64,c.raddr⟩]

def ofValue (v : UInt64) : SendQueueReqDescSeg0Chunk1 := ⟨field 64 0 v.toNat⟩

theorem ofValue_value (c : SendQueueReqDescSeg0Chunk1) : ofValue c.value=c := by
  rw [ofValue,value,bitWord_toNat _ rfl]
  exact congrArg mk (field_pack [⟨64,c.raddr⟩] 0 64 c.raddr rfl)

end SendQueueReqDescSeg0Chunk1

structure SendQueueReqDescSeg0Chunk2 where
  dqpIp : BitVec 32
  rkey : BitVec 32

namespace SendQueueReqDescSeg0Chunk2

def value (c : SendQueueReqDescSeg0Chunk2) : UInt64 := bitWord [⟨32,c.dqpIp⟩,⟨32,c.rkey⟩]

def ofValue (v : UInt64) : SendQueueReqDescSeg0Chunk2 := ⟨field 32 0 v.toNat,field 32 32 v.toNat⟩

theorem ofValue_value (c : SendQueueReqDescSeg0Chunk2) : ofValue c.value=c := by
  rw [ofValue,value,bitWord_toNat _ rfl]
  exact congrArg₂ mk (field_pack _ 0 32 c.dqpIp rfl) (field_pack _ 1 32 c.rkey rfl)

end SendQueueReqDescSeg0Chunk2

structure SendQueueReqDescSeg0Chunk3 where
  totalLen : BitVec 32
  msn : BitVec 16
  commonHeader : RingBufDescCommonHead

namespace SendQueueReqDescSeg0Chunk3

def value (c : SendQueueReqDescSeg0Chunk3) : UInt64 :=
  bitWord [⟨32,c.totalLen⟩,⟨16,c.msn⟩,⟨16,c.commonHeader.value⟩]

def ofValue (v : UInt64) : SendQueueReqDescSeg0Chunk3 :=
  ⟨field 32 0 v.toNat,field 16 32 v.toNat,.ofValue (field 16 48 v.toNat)⟩

theorem ofValue_value (c : SendQueueReqDescSeg0Chunk3) : ofValue c.value=c := by
  rw [ofValue,value,bitWord_toNat _ rfl]
  obtain ⟨totalLen,msn,commonHeader⟩ := c
  simp only [mk.injEq]
  exact ⟨field_pack _ 0 32 totalLen rfl,field_pack _ 1 16 msn rfl,
    RingBufDescCommonHead.ofValue_pack _ 2 commonHeader rfl⟩

end SendQueueReqDescSeg0Chunk3

/-- First descriptor of a chunk. -/
structure SendQueueReqDescSeg0 where
  c0 : SendQueueReqDescSeg0Chunk0
  c1 : SendQueueReqDescSeg0Chunk1
  c2 : SendQueueReqDescSeg0Chunk2
  c3 : SendQueueReqDescSeg0Chunk3

instance : DescLayout SendQueueReqDescSeg0 where
  words d := ⟨d.c0.value,d.c1.value,d.c2.value,d.c3.value⟩
  ofWords t := ⟨.ofValue t.c0,.ofValue t.c1,.ofValue t.c2,.ofValue t.c3⟩

namespace SendQueueReqDescSeg0

/-- Values wider than their field are cut off, as `masked_new` does. -/
def new (opCode : WorkReqOpCode) (msn : UInt16) (psn : UInt32) (qpType : UInt8) (dqpn : UInt32)
    (flags : UInt8) (dqpIp : UInt32) (raddr : UInt64) (rkey totalLen : UInt32) :
    SendQueueReqDescSeg0 where
  c0 := ⟨0,flags.toBitVec.setWidth 5,dqpn.toBitVec.setWidth 24,0,qpType.toBitVec.setWidth 4,
    psn.toBitVec.setWidth 24⟩
  c1 := ⟨raddr.toBitVec⟩
  c2 := ⟨dqpIp.toBitVec,rkey.toBitVec⟩
  c3 := ⟨totalLen.toBitVec,msn.toBitVec,{RingBufDescCommonHead.newSendDesc opCode with hasNext := true}⟩

def opCode (d : SendQueueReqDescSeg0) : UInt8 := ⟨d.c3.commonHeader.opCode⟩
def msn (d : SendQueueReqDescSeg0) : UInt16 := ⟨d.c3.msn⟩
def psn (d : SendQueueReqDescSeg0) : UInt32 := ⟨d.c0.psn.setWidth 32⟩
def qpType (d : SendQueueReqDescSeg0) : UInt8 := ⟨d.c0.qpType.setWidth 8⟩
def dqpn (d : SendQueueReqDescSeg0) : UInt32 := ⟨d.c0.dqpn.setWidth 32⟩
def flags (d : SendQueueReqDescSeg0) : UInt8 := ⟨d.c0.flags.setWidth 8⟩
def dqpIp (d : SendQueueReqDescSeg0) : UInt32 := ⟨d.c2.dqpIp⟩
def raddr (d : SendQueueReqDescSeg0) : UInt64 := ⟨d.c1.raddr⟩
def rkey (d : SendQueueReqDescSeg0) : UInt32 := ⟨d.c2.rkey⟩
def totalLen (d : SendQueueReqDescSeg0) : UInt32 := ⟨d.c3.totalLen⟩

theorem ofWords_words (d : SendQueueReqDescSeg0) :
    (DescLayout.ofWords (DescLayout.words d) : SendQueueReqDescSeg0)=d := by
  obtain ⟨c0,c1,c2,c3⟩ := d
  exact (SendQueueReqDescSeg0.mk.injEq ..).mpr
    ⟨c0.ofValue_value,c1.ofValue_value,c2.ofValue_value,c3.ofValue_value⟩

end SendQueueReqDescSeg0

structure SendQueueReqDescSeg1Chunk0 where
  laddr : BitVec 64

namespace SendQueueReqDescSeg1Chunk0

def value (c : SendQueueReqDescSeg1Chunk0) : UInt64 := bitWord [⟨64,c.laddr⟩]

def ofValue (v : UInt64) : SendQueueReqDescSeg1Chunk0 := ⟨field 64 0 v.toNat⟩

theorem ofValue_value (c : SendQueueReqDescSeg1Chunk0) : ofValue c.value=c := by
  rw [ofValue,value,bitWord_toNat _ rfl]
  exact congrArg mk (field_pack [⟨64,c.laddr⟩] 0 64 c.laddr rfl)

end SendQueueReqDescSeg1Chunk0

structure SendQueueReqDescSeg1Chunk1 where
  len : BitVec 32
  lkey : BitVec 32

namespace SendQueueReqDescSeg1Chunk1

def value (c : SendQueueReqDescSeg1Chunk1) : UInt64 := bitWord [⟨32,c.len⟩,⟨32,c.lkey⟩]

def ofValue (v : UInt64) : SendQueueReqDescSeg1Chunk1 := ⟨field 32 0 v.toNat,field 32 32 v.toNat⟩

theorem ofValue_value (c : SendQueueReqDescSeg1Chunk1) : ofValue c.value=c := by
  rw [ofValue,value,bitWord_toNat _ rfl]
  exact congrArg₂ mk (field_pack _ 0 32 c.len rfl) (field_pack _ 1 32 c.lkey rfl)

end SendQueueReqDescSeg1Chunk1

structure SendQueueReqDescSeg1Chunk2 where
  sqpnHigh16bits : BitVec 16
  macAddr : BitVec 48

namespace SendQueueReqDescSeg1Chunk2

def value (c : SendQueueReqDescSeg1Chunk2) : UInt64 :=
  bitWord [⟨16,c.sqpnHigh16bits⟩,⟨48,c.macAddr⟩]

def ofValue (v : UInt64) : SendQueueReqDescSeg1Chunk2 := ⟨field 16 0 v.toNat,field 48 16 v.toNat⟩

theorem ofValue_value (c : SendQueueReqDescSeg1Chunk2) : ofValue c.value=c := by
  rw [ofValue,value,bitWord_toNat _ rfl]
  exact congrArg₂ mk (field_pack _ 0 16 c.sqpnHigh16bits rfl) (field_pack _ 1 48 c.macAddr rfl)

end SendQueueReqDescSeg1Chunk2

structure SendQueueReqDescSeg1Chunk3 where
  imm : BitVec 32
  sqpnLow8bits : BitVec 8
  reserved0 : BitVec 1
  enableEcn : Bool
  isRetry : Bool
  isLast : Bool
  isFirst : Bool
  pmtu : BitVec 3
  commonHeader : RingBufDescCommonHead

namespace SendQueueReqDescSeg1Chunk3

def fields (c : SendQueueReqDescSeg1Chunk3) : List Field :=
  [⟨32,c.imm⟩,⟨8,c.sqpnLow8bits⟩,⟨1,c.reserved0⟩,⟨1,BitVec.ofBool c.enableEcn⟩,
    ⟨1,BitVec.ofBool c.isRetry⟩,⟨1,BitVec.ofBool c.isLast⟩,⟨1,BitVec.ofBool c.isFirst⟩,⟨3,c.pmtu⟩,
    ⟨16,c.commonHeader.value⟩]

def value (c : SendQueueReqDescSeg1Chunk3) : UInt64 := bitWord c.fields

def ofValue (v : UInt64) : SendQueueReqDescSeg1Chunk3 :=
  ⟨field 32 0 v.toNat,field 8 32 v.toNat,field 1 40 v.toNat,flag 41 v.toNat,flag 42 v.toNat,
    flag 43 v.toNat,flag 44 v.toNat,field 3 45 v.toNat,.ofValue (field 16 48 v.toNat)⟩

theorem ofValue_value (c : SendQueueReqDescSeg1Chunk3) : ofValue c.value=c := by
  rw [ofValue,value,bitWord_toNat _ rfl]
  obtain ⟨imm,sqpnLow,reserved0,enableEcn,isRetry,isLast,isFirst,pmtu,commonHeader⟩ := c
  simp only [mk.injEq]
  exact ⟨field_pack _ 0 32 imm rfl,field_pack _ 1 8 sqpnLow rfl,field_pack _ 2 1 reserved0 rfl,
    flag_pack _ 3 enableEcn rfl,flag_pack _ 4 isRetry rfl,flag_pack _ 5 isLast rfl,
    flag_pack _ 6 isFirst rfl,field_pack _ 7 3 pmtu rfl,
    RingBufDescCommonHead.ofValue_pack _ 8 commonHeader rfl⟩

end SendQueueReqDescSeg1Chunk3

/-- Second descriptor of a chunk. -/
structure SendQueueReqDescSeg1 where
  c0 : SendQueueReqDescSeg1Chunk0
  c1 : SendQueueReqDescSeg1Chunk1
  c2 : SendQueueReqDescSeg1Chunk2
  c3 : SendQueueReqDescSeg1Chunk3

instance : DescLayout SendQueueReqDescSeg1 where
  words d := ⟨d.c0.value,d.c1.value,d.c2.value,d.c3.value⟩
  ofWords t := ⟨.ofValue t.c0,.ofValue t.c1,.ofValue t.c2,.ofValue t.c3⟩

namespace SendQueueReqDescSeg1

def new (opCode : WorkReqOpCode) (pmtu : UInt8) (isFirst isLast isRetry enableEcn : Bool)
    (sqpn imm : UInt32) (macAddr : UInt64) (lkey len : UInt32) (laddr : UInt64) :
    SendQueueReqDescSeg1 where
  c0 := ⟨laddr.toBitVec⟩
  c1 := ⟨len.toBitVec,lkey.toBitVec⟩
  c2 := ⟨(sqpn>>>8).toUInt16.toBitVec,macAddr.toBitVec.setWidth 48⟩
  c3 := ⟨imm.toBitVec,sqpn.toUInt8.toBitVec,0,enableEcn,isRetry,isLast,isFirst,
    pmtu.toBitVec.setWidth 3,RingBufDescCommonHead.newSendDesc opCode⟩

def opCode (d : SendQueueReqDescSeg1) : UInt8 := ⟨d.c3.commonHeader.opCode⟩
def pmtu (d : SendQueueReqDescSeg1) : UInt8 := ⟨d.c3.pmtu.setWidth 8⟩
def isFirst (d : SendQueueReqDescSeg1) : Bool := d.c3.isFirst
def isLast (d : SendQueueReqDescSeg1) : Bool := d.c3.isLast
def isRetry (d : SendQueueReqDescSeg1) : Bool := d.c3.isRetry
def enableEcn (d : SendQueueReqDescSeg1) : Bool := d.c3.enableEcn
def sqpnLow8bits (d : SendQueueReqDescSeg1) : UInt8 := ⟨d.c3.sqpnLow8bits⟩
def imm (d : SendQueueReqDescSeg1) : UInt32 := ⟨d.c3.imm⟩
def macAddr (d : SendQueueReqDescSeg1) : UInt64 := ⟨d.c2.macAddr.setWidth 64⟩
def sqpnHigh16bits (d : SendQueueReqDescSeg1) : UInt16 := ⟨d.c2.sqpnHigh16bits⟩
def lkey (d : SendQueueReqDescSeg1) : UInt32 := ⟨d.c1.lkey⟩
def len (d : SendQueueReqDescSeg1) : UInt32 := ⟨d.c1.len⟩
def laddr (d : SendQueueReqDescSeg1) : UInt64 := ⟨d.c0.laddr⟩

/-- The source QPN from the two parts it is split into. -/
def sqpn (d : SendQueueReqDescSeg1) : UInt32 := d.sqpnHigh16bits.toUInt32<<<8|||d.sqpnLow8bits.toUInt32

theorem ofWords_words (d : SendQueueReqDescSeg1) :
    (DescLayout.ofWords (DescLayout.words d) : SendQueueReqDescSeg1)=d := by
  obtain ⟨c0,c1,c2,c3⟩ := d
  exact (SendQueueReqDescSeg1.mk.injEq ..).mpr
    ⟨c0.ofValue_value,c1.ofValue_value,c2.ofValue_value,c3.ofValue_value⟩

end SendQueueReqDescSeg1

/-- The two descriptors a chunk is pushed as. -/
def WrChunk.seg0 (wr : WrChunk) : SendQueueReqDescSeg0 :=
  .new wr.opcode wr.msn wr.psn.inner wr.qpType wr.dqpn wr.flags wr.dqpIp wr.raddr wr.rkey wr.totalLen

def WrChunk.seg1 (wr : WrChunk) : SendQueueReqDescSeg1 :=
  .new wr.opcode wr.pmtu wr.isFirst wr.isLast wr.isRetry wr.enableEcn wr.sqpn wr.imm wr.macAddr
    wr.lkey wr.len wr.laddr

/-- The fields of the chunk fit into those of the descriptors. -/
structure WrChunk.Fits (wr : WrChunk) : Prop where
  psn : wr.psn.inner.toNat<2^24
  qpType : wr.qpType.toNat<2^4
  dqpn : wr.dqpn.toNat<2^24
  flags : wr.flags.toNat<2^5
  pmtu : wr.pmtu.toNat<2^3
  sqpn : wr.sqpn.toNat<2^24
  macAddr : wr.macAddr.toNat<2^48

/-- The getters of the two descriptors give the fields of the chunk. -/
structure Carries (d0 : SendQueueReqDescSeg0) (d1 : SendQueueReqDescSeg1) (wr : WrChunk) : Prop where
  opcode : d0.opCode=wr.opcode.toUInt8 ∧ d1.opCode=wr.opcode.toUInt8
  msn : d0.msn=wr.msn
  psn : d0.psn=wr.psn.inner
  qpType : d0.qpType=wr.qpType
  dqpn : d0.dqpn=wr.dqpn
  flags : d0.flags=wr.flags
  dqpIp : d0.dqpIp=wr.dqpIp
  raddr : d0.raddr=wr.raddr
  rkey : d0.rkey=wr.rkey
  totalLen : d0.totalLen=wr.totalLen
  pmtu : d1.pmtu=wr.pmtu
  isFirst : d1.isFirst=wr.isFirst
  isLast : d1.isLast=wr.isLast
  isRetry : d1.isRetry=wr.isRetry
  enableEcn : d1.enableEcn=wr.enableEcn
  sqpn : d1.sqpn=wr.sqpn
  imm : d1.imm=wr.imm
  macAddr : d1.macAddr=wr.macAddr
  lkey : d1.lkey=wr.lkey
  len : d1.len=wr.len
  laddr : d1.laddr=wr.laddr

theorem setWidth_back {n : Nat} (x : BitVec n) (w : Nat) (h : x.toNat<2^w) :
    (x.setWidth w).setWidth n=x := by
  apply BitVec.eq_of_toNat_eq
  rw [BitVec.toNat_setWidth,BitVec.toNat_setWidth,Nat.mod_eq_of_lt h,Nat.mod_eq_of_lt x.isLt]

/-- A 24-bit number from its high 16 bits and its low 8 bits. -/
theorem recombine (x : UInt32) (h : x.toNat<2^24) :
    (x>>>8).toUInt16.toUInt32<<<8|||x.toUInt8.toUInt32=x := by
  apply UInt32.toNat_inj.mp
  have hhigh : (x>>>8).toUInt16.toUInt32.toNat=x.toNat/2^8 := by
    rw [UInt16.toNat_toUInt32,UInt32.toNat_toUInt16,UInt32.toNat_shiftRight,
      Nat.shiftRight_eq_div_pow]
    change x.toNat/2^8%2^16=_
    omega
  rw [UInt32.toNat_or,UInt32.toNat_shiftLeft,hhigh,UInt8.toNat_toUInt32,UInt32.toNat_toUInt8]
  change (x.toNat/2^8)<<<8%2^32|||x.toNat%2^8=_
  have hshift : (x.toNat/2^8)<<<8%2^32=(x.toNat/2^8)<<<8 := by
    rw [Nat.shiftLeft_eq]
    omega
  rw [hshift,← Nat.shiftLeft_add_eq_or_of_lt (Nat.mod_lt _ (by decide)),Nat.shiftLeft_eq]
  omega

theorem WrChunk.carries (wr : WrChunk) (h : wr.Fits) : Carries wr.seg0 wr.seg1 wr where
  opcode := ⟨rfl,rfl⟩
  msn := rfl
  psn := congrArg UInt32.ofBitVec (setWidth_back wr.psn.inner.toBitVec 24 h.psn)
  qpType := congrArg UInt8.ofBitVec (setWidth_back wr.qpType.toBitVec 4 h.qpType)
  dqpn := congrArg UInt32.ofBitVec (setWidth_back wr.dqpn.toBitVec 24 h.dqpn)
  flags := congrArg UInt8.ofBitVec (setWidth_back wr.flags.toBitVec 5 h.flags)
  dqpIp := rfl
  raddr := rfl
  rkey := rfl
  totalLen := rfl
  pmtu := congrArg UInt8.ofBitVec (setWidth_back wr.pmtu.toBitVec 3 h.pmtu)
  isFirst := rfl
  isLast := rfl
  isRetry := rfl
  enableEcn := rfl
  sqpn := recombine wr.sqpn h.sqpn
  imm := rfl
  macAddr := congrArg UInt64.ofBitVec (setWidth_back wr.macAddr.toBitVec 48 h.macAddr)
  lkey := rfl
  len := rfl
  laddr := rfl

/-- The getters leave nothing of the chunk open. -/
theorem Carries.unique (d0 : SendQueueReqDescSeg0) (d1 : SendQueueReqDescSeg1) (wr wr' : WrChunk)
    (h : Carries d0 d1 wr) (h' : Carries d0 d1 wr') : wr=wr' := by
  have hop : wr.opcode=wr'.opcode :=
    WorkReqOpCode.toUInt8_inj _ _ (h.opcode.1.symm.trans h'.opcode.1)
  have hpsn : wr.psn=wr'.psn := congrArg Psn.mk (h.psn.symm.trans h'.psn)
  obtain ⟨⟩ := wr
  obtain ⟨⟩ := wr'
  simp only [WrChunk.mk.injEq]
  exact ⟨hop,h.qpType.symm.trans h'.qpType,h.sqpn.symm.trans h'.sqpn,
    h.macAddr.symm.trans h'.macAddr,h.dqpn.symm.trans h'.dqpn,h.dqpIp.symm.trans h'.dqpIp,
    h.pmtu.symm.trans h'.pmtu,h.flags.symm.trans h'.flags,h.raddr.symm.trans h'.raddr,
    h.rkey.symm.trans h'.rkey,h.totalLen.symm.trans h'.totalLen,h.lkey.symm.trans h'.lkey,
    h.imm.symm.trans h'.imm,h.laddr.symm.trans h'.laddr,h.len.symm.trans h'.len,
    h.isFirst.symm.trans h'.isFirst,h.isLast.symm.trans h'.isLast,h.msn.symm.trans h'.msn,hpsn,
    h.isRetry.symm.trans h'.isRetry,h.enableEcn.symm.trans h'.enableEcn⟩

theorem seg0_header (d : SendQueueReqDescSeg0) :
    (DescLayout.words d).header=d.c3.commonHeader :=
  congrArg SendQueueReqDescSeg0Chunk3.commonHeader d.c3.ofValue_value

theorem seg1_header (d : SendQueueReqDescSeg1) :
    (DescLayout.words d).header=d.c3.commonHeader :=
  congrArg SendQueueReqDescSeg1Chunk3.commonHeader d.c3.ofValue_value

/-- The serialized descriptors of a chunk. -/
def WrChunk.bytes (wr : WrChunk) : DescBytes × DescBytes :=
  (DescSerialize.serialize wr.seg0,DescSerialize.serialize wr.seg1)

/-- Both headers carry the valid bit, and only the first announces a successor. -/
theorem WrChunk.bytes_flags (wr : WrChunk) :
    DescRingBuffer.isValid wr.bytes.1=true ∧ DescRingBuffer.isValid wr.bytes.2=true ∧
      DescRingBuffer.hasNext wr.bytes.1=true ∧ DescRingBuffer.hasNext wr.bytes.2=false := by
  have h0 := seg0_header wr.seg0
  have h1 := seg1_header wr.seg1
  refine ⟨(isValid_toBytes _).trans ?_,(isValid_toBytes _).trans ?_,(hasNext_toBytes _).trans ?_,
    (hasNext_toBytes _).trans ?_⟩
  · exact congrArg RingBufDescCommonHead.valid h0
  · exact congrArg RingBufDescCommonHead.valid h1
  · exact congrArg RingBufDescCommonHead.hasNext h0
  · exact congrArg RingBufDescCommonHead.hasNext h1

/-- The bytes of the two descriptors determine the chunk, and their flags pair them up. -/
theorem send_descriptors_carry_chunk (wr wr' : WrChunk) (h : wr.Fits) (h' : wr'.Fits) :
    Carries (DescDeserialize.deserialize wr.bytes.1) (DescDeserialize.deserialize wr.bytes.2) wr ∧
    (wr.bytes=wr'.bytes → wr=wr') ∧
    DescRingBuffer.isValid wr.bytes.1=true ∧ DescRingBuffer.isValid wr.bytes.2=true ∧
    DescRingBuffer.hasNext wr.bytes.1=true ∧ DescRingBuffer.hasNext wr.bytes.2=false := by
  have hback (x : WrChunk) (hx : x.Fits) : Carries (DescDeserialize.deserialize x.bytes.1)
      (DescDeserialize.deserialize x.bytes.2) x := by
    have h0 := (deserialize_serialize SendQueueReqDescSeg0 SendQueueReqDescSeg0 x.seg0).trans
      (SendQueueReqDescSeg0.ofWords_words x.seg0)
    have h1 := (deserialize_serialize SendQueueReqDescSeg1 SendQueueReqDescSeg1 x.seg1).trans
      (SendQueueReqDescSeg1.ofWords_words x.seg1)
    rw [WrChunk.bytes,h0,h1]
    exact x.carries hx
  refine ⟨hback wr h,?_,wr.bytes_flags⟩
  intro heq
  have hcarry := hback wr h
  rw [heq] at hcarry
  exact hcarry.unique _ _ wr wr' (hback wr' h')

/-- A chunk that fills its 24-bit and 48-bit fields. -/
def wideChunk : WrChunk :=
  {opcode := .rdmaReadResp,sqpn := 0xABCDEF,macAddr := 0xFFEEDDCCBBAA,dqpn := 0xFFFFFF,pmtu := 5,
    flags := 0x1F,qpType := 0xF,psn := ⟨0xFFFFFF⟩,msn := 0xFFFF,isFirst := true,isRetry := true}

theorem send_descriptors_carry_wideChunk :
    Carries (DescDeserialize.deserialize wideChunk.bytes.1)
      (DescDeserialize.deserialize wideChunk.bytes.2) wideChunk ∧ wideChunk.bytes≠({} : WrChunk).bytes := by
  have hfits : wideChunk.Fits := ⟨by decide,by decide,by decide,by decide,by decide,by decide,by decide⟩
  have hzero : ({} : WrChunk).Fits := ⟨by decide,by decide,by decide,by decide,by decide,by decide,by decide⟩
  obtain ⟨hcarries,hinj,-⟩ := send_descriptors_carry_chunk wideChunk {} hfits hzero
  exact ⟨hcarries,fun heq => absurd (hinj heq) (by decide)⟩

end BlueRdma

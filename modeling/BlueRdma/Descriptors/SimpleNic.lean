import BlueRdma.Descriptors.Basic

namespace BlueRdma
open BitField

def RingBufDescCommonHead.newSimpleNicDesc : RingBufDescCommonHead := .newWithOpCode 0

structure SimpleNicTxQueueDescChunk2 where
  addr : BitVec 64

namespace SimpleNicTxQueueDescChunk2

def value (c : SimpleNicTxQueueDescChunk2) : UInt64 := bitWord [⟨64,c.addr⟩]

def ofValue (v : UInt64) : SimpleNicTxQueueDescChunk2 := ⟨field 64 0 v.toNat⟩

theorem ofValue_value (c : SimpleNicTxQueueDescChunk2) : ofValue c.value=c := by
  rw [ofValue,value,bitWord_toNat _ rfl]
  exact congrArg mk (field_pack [⟨64,c.addr⟩] 0 64 c.addr rfl)

end SimpleNicTxQueueDescChunk2

structure SimpleNicTxQueueDescChunk3 where
  len : BitVec 32
  reserved0 : BitVec 16
  commonHeader : RingBufDescCommonHead

namespace SimpleNicTxQueueDescChunk3

def value (c : SimpleNicTxQueueDescChunk3) : UInt64 :=
  bitWord [⟨32,c.len⟩,⟨16,c.reserved0⟩,⟨16,c.commonHeader.value⟩]

def ofValue (v : UInt64) : SimpleNicTxQueueDescChunk3 :=
  ⟨field 32 0 v.toNat,field 16 32 v.toNat,.ofValue (field 16 48 v.toNat)⟩

theorem ofValue_value (c : SimpleNicTxQueueDescChunk3) : ofValue c.value=c := by
  rw [ofValue,value,bitWord_toNat _ rfl]
  obtain ⟨len,reserved0,commonHeader⟩ := c
  simp only [mk.injEq]
  exact ⟨field_pack _ 0 32 len rfl,field_pack _ 1 16 reserved0 rfl,
    RingBufDescCommonHead.ofValue_pack _ 2 commonHeader rfl⟩

end SimpleNicTxQueueDescChunk3

/-- The descriptor of a raw frame; the first two words are reserved. -/
structure SimpleNicTxQueueDesc where
  c0 : UInt64
  c1 : UInt64
  c2 : SimpleNicTxQueueDescChunk2
  c3 : SimpleNicTxQueueDescChunk3

instance : DescLayout SimpleNicTxQueueDesc where
  words d := ⟨d.c0,d.c1,d.c2.value,d.c3.value⟩
  ofWords t := ⟨t.c0,t.c1,.ofValue t.c2,.ofValue t.c3⟩

namespace SimpleNicTxQueueDesc

def new (addr : UInt64) (len : UInt32) : SimpleNicTxQueueDesc where
  c0 := 0
  c1 := 0
  c2 := ⟨addr.toBitVec⟩
  c3 := ⟨len.toBitVec,0,.newSimpleNicDesc⟩

def addr (d : SimpleNicTxQueueDesc) : UInt64 := ⟨d.c2.addr⟩
def len (d : SimpleNicTxQueueDesc) : UInt32 := ⟨d.c3.len⟩

/-- A descriptor is read back from its bytes. -/
theorem deserialize_serialize (d : SimpleNicTxQueueDesc) :
    (DescDeserialize.deserialize (DescSerialize.serialize d) : SimpleNicTxQueueDesc)=d := by
  rw [BlueRdma.deserialize_serialize]
  obtain ⟨c0,c1,c2,c3⟩ := d
  exact (SimpleNicTxQueueDesc.mk.injEq ..).mpr ⟨rfl,rfl,c2.ofValue_value,c3.ofValue_value⟩

end SimpleNicTxQueueDesc
end BlueRdma

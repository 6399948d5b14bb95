import BlueRdma.Math.BitField
import BlueRdma.RingBuf.Desc

namespace BlueRdma
open BitField

/-- A word of 64 bits with the given fields. -/
def bitWord (fs : List Field) : UInt64 := UInt64.ofNat (pack fs)

theorem bitWord_toNat (fs : List Field) (h : width fs=64) : (bitWord fs).toNat=pack fs := by
  have hlt := pack_lt fs
  rw [h] at hlt
  exact UInt64.toNat_ofNat_of_lt' hlt

/-- The four words of a descriptor. -/
structure DescWords where
  c0 : UInt64
  c1 : UInt64
  c2 : UInt64
  c3 : UInt64
  deriving DecidableEq

namespace DescWords

def word (t : DescWords) : Fin 4 → UInt64
  | 0 => t.c0
  | 1 => t.c1
  | 2 => t.c2
  | 3 => t.c3

/-- `bytemuck::cast` of the words on a little-endian machine. -/
def toBytes (t : DescWords) : DescBytes :=
  Vector.ofFn fun i : Fin 32 =>
    ⟨field 8 (8*(i.val%8)) (t.word ⟨i.val/8,by omega⟩).toNat⟩

def leWord (d : DescBytes) (j : Fin 4) : UInt64 :=
  bitWord (List.ofFn fun k : Fin 8 => ⟨8,d[8*j.val+k.val].toBitVec⟩)

def ofBytes (d : DescBytes) : DescWords := ⟨leWord d 0,leWord d 1,leWord d 2,leWord d 3⟩

theorem leWord_toBytes (t : DescWords) (j : Fin 4) : leWord t.toBytes j=t.word j := by
  have hbyte (k : Fin 8) : t.toBytes[8*j.val+k.val].toBitVec=
      field 8 (8*k.val) (t.word j).toNat := by
    have hword : (⟨(8*j.val+k.val)/8,by omega⟩ : Fin 4)=j := Fin.ext (by dsimp only; omega)
    rw [toBytes,Vector.getElem_ofFn]
    dsimp only
    rw [hword,show (8*j.val+k.val)%8=k.val by omega]
  have hfields := unpack_replicate 8 8 (t.word j).toNat
  have hsmall : (t.word j).toNat<2^(List.replicate 8 8).sum := (t.word j).toNat_lt
  rw [leWord,bitWord]
  simp only [hbyte]
  rw [← hfields,pack_unpack,Nat.mod_eq_of_lt hsmall,UInt64.ofNat_toNat]

theorem ofBytes_toBytes (t : DescWords) : ofBytes t.toBytes=t := by
  simp only [ofBytes,leWord_toBytes]
  rfl

end DescWords

/-- Descriptors made of four words, for which `impl_desc_serde!` gives the conversions. -/
class DescLayout (T : Type) where
  words : T → DescWords
  ofWords : DescWords → T

instance (T : Type) [DescLayout T] : DescSerialize T := ⟨fun x => (DescLayout.words x).toBytes⟩

instance (T : Type) [DescLayout T] : DescDeserialize T :=
  ⟨fun d => DescLayout.ofWords (DescWords.ofBytes d)⟩

theorem deserialize_serialize (S T : Type) [DescLayout S] [DescLayout T] (x : S) :
    (DescDeserialize.deserialize (DescSerialize.serialize x) : T)=
      DescLayout.ofWords (DescLayout.words x) :=
  congrArg DescLayout.ofWords (DescWords.ofBytes_toBytes _)

/-- The last 16 bits of every descriptor. -/
structure RingBufDescCommonHead where
  opCode : BitVec 8
  isExtendedOpCode : Bool
  reserved0 : BitVec 5
  hasNext : Bool
  valid : Bool
  deriving DecidableEq

namespace RingBufDescCommonHead

def fields (h : RingBufDescCommonHead) : List Field :=
  [⟨8,h.opCode⟩,⟨1,BitVec.ofBool h.isExtendedOpCode⟩,⟨5,h.reserved0⟩,⟨1,BitVec.ofBool h.hasNext⟩,
    ⟨1,BitVec.ofBool h.valid⟩]

def value (h : RingBufDescCommonHead) : BitVec 16 := BitVec.ofNat 16 (pack h.fields)

def ofValue (v : BitVec 16) : RingBufDescCommonHead :=
  ⟨field 8 0 v.toNat,flag 8 v.toNat,field 5 9 v.toNat,flag 14 v.toNat,flag 15 v.toNat⟩

def newWithOpCode (opCode : UInt8) : RingBufDescCommonHead :=
  {opCode := opCode.toBitVec,isExtendedOpCode := false,reserved0 := 0,hasNext := false,valid := true}

theorem ofValue_value (h : RingBufDescCommonHead) : ofValue h.value=h := by
  have hnat : h.value.toNat=pack h.fields := by
    rw [value,BitVec.toNat_ofNat]
    exact Nat.mod_eq_of_lt (pack_lt h.fields)
  rw [ofValue,hnat]
  obtain ⟨opCode,isExtendedOpCode,reserved0,hasNext,valid⟩ := h
  simp only [mk.injEq]
  exact ⟨field_pack _ 0 8 opCode rfl,flag_pack _ 1 isExtendedOpCode rfl,
    field_pack _ 2 5 reserved0 rfl,flag_pack _ 3 hasNext rfl,flag_pack _ 4 valid rfl⟩

/-- A header is read back from the word it is a field of. -/
theorem ofValue_pack (fs : List Field) (i : Nat) (h : RingBufDescCommonHead)
    (hi : fs[i]?=some ⟨16,h.value⟩) : ofValue (field 16 (width (fs.take i)) (pack fs))=h :=
  (congrArg ofValue (field_pack fs i 16 h.value hi)).trans h.ofValue_value

end RingBufDescCommonHead

/-- The header of a descriptor is at the top of its last word. -/
def DescWords.header (t : DescWords) : RingBufDescCommonHead :=
  .ofValue (field 16 48 t.c3.toNat)

theorem DescWords.lastByte_toNat (t : DescWords) : (t.toBytes.get 31).toNat=t.c3.toNat/2^56 := by
  have hbyte : t.toBytes[31].toNat=t.c3.toNat/2^56%2^8 := by
    rw [toBytes,Vector.getElem_ofFn]
    exact BitVec.toNat_ofNat ..
  refine Eq.trans hbyte (Nat.mod_eq_of_lt ?_)
  have := t.c3.toNat_lt
  omega

theorem isValid_toBytes (t : DescWords) :
    DescRingBuffer.isValid t.toBytes=t.header.valid := by
  have hlast : t.toBytes[31].toNat=t.c3.toNat/2^56 := t.lastByte_toNat
  have hbyte : (t.toBytes[31]>>>7).toNat=t.c3.toNat/2^56/2^7 := by
    rw [UInt8.toNat_shiftRight,hlast,Nat.shiftRight_eq_div_pow,
      show (7 : UInt8).toNat%8=7 from rfl]
  have hlt := t.c3.toNat_lt
  have hhead : t.header.valid=flag 15 (field 16 48 t.c3.toNat).toNat := rfl
  rw [hhead,flag_eq,field_toNat,DescRingBuffer.isValid,Bool.beq_eq_decide_eq,decide_eq_decide,
    ← UInt8.toNat_inj,hbyte,UInt8.toNat_one]
  generalize t.c3.toNat=x at *
  omega

theorem hasNext_toBytes (t : DescWords) :
    DescRingBuffer.hasNext t.toBytes=t.header.hasNext := by
  have hlast : t.toBytes[31].toNat=t.c3.toNat/2^56 := t.lastByte_toNat
  have hbyte : (t.toBytes[31]>>>6&&&1).toNat=t.c3.toNat/2^56/2^6%2 := by
    rw [UInt8.toNat_and,UInt8.toNat_shiftRight,hlast,Nat.shiftRight_eq_div_pow,
      show (6 : UInt8).toNat%8=6 from rfl,UInt8.toNat_one,Nat.and_one_is_mod]
  have hhead : t.header.hasNext=flag 14 (field 16 48 t.c3.toNat).toNat := rfl
  rw [hhead,flag_eq,field_toNat,DescRingBuffer.hasNext,Bool.beq_eq_decide_eq,decide_eq_decide,
    ← UInt8.toNat_inj,hbyte,UInt8.toNat_one]
  generalize t.c3.toNat=x
  omega

end BlueRdma

import BlueRdma.Math.BigEndian
import BlueRdma.Math.BitField
import BlueRdma.Workers.AckResponder

namespace BlueRdma
open BitField BigEndian

def cardMacAddressOctets : List UInt8 := [0xAA,0xBB,0xCC,0xDD,0xEE,0x0A]

/-- The base transport header, least significant field first. -/
structure Bth where
  psn : BitVec 24 := 0
  resv7 : BitVec 7 := 0
  ackReq : Bool := false
  dqpn : BitVec 24 := 0
  resv6 : BitVec 6 := 0
  becn : Bool := false
  fecn : Bool := false
  msn : BitVec 16 := 0
  tver : BitVec 4 := 0
  padCnt : BitVec 2 := 0
  isRetry : Bool := false
  solicited : Bool := false
  opcode : BitVec 5 := 0
  transType : BitVec 3 := 0
  deriving DecidableEq

namespace Bth

def fields (h : Bth) : List Field :=
  [⟨24,h.psn⟩,⟨7,h.resv7⟩,⟨1,BitVec.ofBool h.ackReq⟩,⟨24,h.dqpn⟩,⟨6,h.resv6⟩,
    ⟨1,BitVec.ofBool h.becn⟩,⟨1,BitVec.ofBool h.fecn⟩,⟨16,h.msn⟩,⟨4,h.tver⟩,⟨2,h.padCnt⟩,
    ⟨1,BitVec.ofBool h.isRetry⟩,⟨1,BitVec.ofBool h.solicited⟩,⟨5,h.opcode⟩,⟨3,h.transType⟩]

/-- The header as a 96-bit number. -/
def value (h : Bth) : Nat := pack h.fields

def ofValue (x : Nat) : Bth where
  psn := field 24 0 x
  resv7 := field 7 24 x
  ackReq := flag 31 x
  dqpn := field 24 32 x
  resv6 := field 6 56 x
  becn := flag 62 x
  fecn := flag 63 x
  msn := field 16 64 x
  tver := field 4 80 x
  padCnt := field 2 84 x
  isRetry := flag 86 x
  solicited := flag 87 x
  opcode := field 5 88 x
  transType := field 3 93 x

theorem width_fields (h : Bth) : width h.fields=96 := by simp only [fields,width]

theorem ofValue_value (h : Bth) : ofValue h.value=h := by
  have hfield {w : Nat} (i offset : Nat) (v : BitVec w) (hi : h.fields[i]?=some ⟨w,v⟩)
      (hwidth : width (h.fields.take i)=offset) : field w offset h.value=v := by
    rw [← hwidth,value,field_pack _ i w v hi]
  have hflag (i offset : Nat) (b : Bool) (hi : h.fields[i]?=some ⟨1,BitVec.ofBool b⟩)
      (hwidth : width (h.fields.take i)=offset) : flag offset h.value=b := by
    rw [← hwidth,value,flag_pack _ i b hi]
  obtain ⟨psn,resv7,ackReq,dqpn,resv6,becn,fecn,msn,tver,padCnt,isRetry,solicited,opcode,transType⟩ := h
  simp only [ofValue,mk.injEq]
  refine ⟨hfield 0 0 psn rfl ?_,hfield 1 24 resv7 rfl ?_,hflag 2 31 ackReq rfl ?_,
    hfield 3 32 dqpn rfl ?_,hfield 4 56 resv6 rfl ?_,hflag 5 62 becn rfl ?_,
    hflag 6 63 fecn rfl ?_,hfield 7 64 msn rfl ?_,hfield 8 80 tver rfl ?_,
    hfield 9 84 padCnt rfl ?_,hflag 10 86 isRetry rfl ?_,hflag 11 87 solicited rfl ?_,
    hfield 12 88 opcode rfl ?_,hfield 13 93 transType rfl ?_⟩
  all_goals simp only [fields,List.take,width]

theorem value_lt (h : Bth) : h.value<2^96 := h.width_fields ▸ pack_lt h.fields

end Bth

/-- The word of the acknowledge header behind the bitmaps. -/
structure AethSeg0 where
  prePsn : BitVec 24 := 0
  resv0 : BitVec 5 := 0
  isSendByDriver : Bool := false
  isWindowSlided : Bool := false
  isPacketLoss : Bool := false
  deriving DecidableEq

namespace AethSeg0

def fields (h : AethSeg0) : List Field :=
  [⟨24,h.prePsn⟩,⟨5,h.resv0⟩,⟨1,BitVec.ofBool h.isSendByDriver⟩,
    ⟨1,BitVec.ofBool h.isWindowSlided⟩,⟨1,BitVec.ofBool h.isPacketLoss⟩]

def value (h : AethSeg0) : Nat := pack h.fields

def ofValue (x : Nat) : AethSeg0 where
  prePsn := field 24 0 x
  resv0 := field 5 24 x
  isSendByDriver := flag 29 x
  isWindowSlided := flag 30 x
  isPacketLoss := flag 31 x

theorem ofValue_value (h : AethSeg0) : ofValue h.value=h := by
  obtain ⟨prePsn,resv0,isSendByDriver,isWindowSlided,isPacketLoss⟩ := h
  simp only [ofValue,value,fields,mk.injEq]
  exact ⟨field_pack _ 0 24 prePsn rfl,field_pack _ 1 5 resv0 rfl,flag_pack _ 2 isSendByDriver rfl,
    flag_pack _ 3 isWindowSlided rfl,flag_pack _ 4 isPacketLoss rfl⟩

theorem value_lt (h : AethSeg0) : h.value<2^32 := pack_lt h.fields

end AethSeg0

namespace AckFrameBuilder

/-- A setter of a packet field that is part of a byte. -/
def setBits (buf : List UInt8) (offset : Nat) (mask v : UInt8) : List UInt8 :=
  buf.modify offset (fun b => b&&&~~~mask ||| v)

def ethHeaderLen : Nat := 14
def ipHeaderLen : Nat := 20
def udpHeaderLen : Nat := 8
def udpPort : Nat := 4791

/-- Runs the setters of a packet that starts inside the buffer. -/
def onSlice (buf : List UInt8) (offset : Nat) (f : List UInt8 → List UInt8) : List UInt8 :=
  buf.take offset++f (buf.drop offset)

def setEthernet (srcMac dstMac packet : List UInt8) : List UInt8 :=
  let packet := write packet 6 srcMac
  let packet := write packet 0 dstMac
  write packet 12 (bytes 2 0x0800)

/-- The checksum is set to what its field holds; nothing computes it. -/
def setIpv4 (srcIp dstIp : UInt32) (payloadLen : Nat) (packet : List UInt8) : List UInt8 :=
  let packet := setBits packet 0 0xF0 0x40
  let packet := setBits packet 0 0x0F 5
  let packet := setBits packet 1 0xFC 0
  let packet := setBits packet 1 0x03 0
  let packet := write packet 2 (bytes 2 (ipHeaderLen+udpHeaderLen+payloadLen))
  let packet := write packet 4 (bytes 2 0)
  -- `DontFragment`, in the three bits above the fragment offset
  let packet := setBits packet 6 0xE0 0x40
  let packet := write (setBits packet 6 0x1F 0) 7 [0]
  let packet := write packet 8 [64]
  let packet := write packet 9 [17]
  let packet := write packet 12 (bytes 4 srcIp.toNat)
  let packet := write packet 16 (bytes 4 dstIp.toNat)
  write packet 10 (bytes 2 (read packet 10 2))

def setUdp (payload packet : List UInt8) : List UInt8 :=
  let packet := write packet 0 (bytes 2 udpPort)
  let packet := write packet 2 (bytes 2 udpPort)
  let packet := write packet 4 (bytes 2 (udpHeaderLen+payload.length))
  let packet := write packet 8 payload
  write packet 6 (bytes 2 (read packet 6 2))

def buildEthernetFrame (srcIp dstIp : UInt32) (srcMac dstMac payload : List UInt8) : List UInt8 :=
  let buffer := List.replicate (ethHeaderLen+ipHeaderLen+udpHeaderLen+payload.length) 0
  let buffer := setEthernet srcMac dstMac buffer
  let buffer := onSlice buffer ethHeaderLen (setIpv4 srcIp dstIp payload.length)
  onSlice buffer (ethHeaderLen+ipHeaderLen) (setUdp payload)

def opcodeAcknowledge : BitVec 5 := 0x11

def transTypeRc : BitVec 3 := 0

end AckFrameBuilder

open AckFrameBuilder

namespace AckFrame

def bth (f : AckFrame) : Bth where
  opcode := opcodeAcknowledge
  psn := BitVec.ofNat 24 f.nowPsn.inner.toNat
  dqpn := BitVec.ofNat 24 f.dqpn.toNat
  transType := transTypeRc

def aethSeg0 (f : AckFrame) : AethSeg0 where
  isSendByDriver := true
  isPacketLoss := f.isPacketLoss
  isWindowSlided := f.isWindowSlided
  prePsn := BitVec.ofNat 24 f.prePsn.inner.toNat

def payload (f : AckFrame) : List UInt8 :=
  let payload := List.replicate 48 0
  let payload := write payload 0 (BigEndian.bytes 12 f.bth.value)
  let payload := write payload 12 (BigEndian.bytes 16 f.prevBitmap.toNat)
  let payload := write payload 28 (BigEndian.bytes 16 f.nowBitmap.toNat)
  write payload 44 (BigEndian.bytes 4 f.aethSeg0.value)

/-- What `build_ack` makes of the fields of a frame. -/
def bytes (f : AckFrame) : List UInt8 :=
  buildEthernetFrame f.srcIp f.dstIp cardMacAddressOctets cardMacAddressOctets f.payload

/-- The fields at their offsets in a frame: the addresses, then the transport header, the
bitmaps and the acknowledge header. -/
def ofBytes (frame : List UInt8) : AckFrame :=
  let bth := Bth.ofValue (BigEndian.read frame 42 12)
  let aethSeg0 := AethSeg0.ofValue (BigEndian.read frame 86 4)
  { srcIp := UInt32.ofNat (BigEndian.read frame 26 4)
    dstIp := UInt32.ofNat (BigEndian.read frame 30 4)
    dqpn := UInt32.ofNat bth.dqpn.toNat
    nowPsn := ⟨UInt32.ofNat bth.psn.toNat⟩
    nowBitmap := BitVec.ofNat 128 (BigEndian.read frame 70 16)
    prePsn := ⟨UInt32.ofNat aethSeg0.prePsn.toNat⟩
    prevBitmap := BitVec.ofNat 128 (BigEndian.read frame 54 16)
    isPacketLoss := aethSeg0.isPacketLoss
    isWindowSlided := aethSeg0.isWindowSlided }

end AckFrame

/-- `build_ack` with the bytes it returns. -/
def AckFrameBuilder.buildAckBytes (b : AckFrameBuilder) (nowPsn : Psn) (nowBitmap : BitVec 128)
    (prePsn : Psn) (prevBitmap : BitVec 128) (isPacketLoss isWindowSlided : Bool) :
    Option (List UInt8) :=
  (b.buildAck nowPsn nowBitmap prePsn prevBitmap isPacketLoss isWindowSlided).map AckFrame.bytes

namespace AckFrameBuilder

theorem onSlice_append (before packet : List UInt8) (f : List UInt8 → List UInt8) :
    onSlice (before++packet) before.length f=before++f packet := by
  rw [onSlice,List.take_left,List.drop_left]

def ethHeader : List UInt8 := cardMacAddressOctets++(cardMacAddressOctets++bytes 2 0x0800)

def ipv4Header (srcIp dstIp : UInt32) (payloadLen : Nat) : List UInt8 :=
  bytes 2 0x4500++(bytes 2 (28+payloadLen)++(bytes 2 0++(bytes 2 0x4000++(bytes 2 0x4011++(
    bytes 2 0++(bytes 4 srcIp.toNat++bytes 4 dstIp.toNat))))))

def udpHeader (payloadLen : Nat) : List UInt8 :=
  bytes 2 4791++(bytes 2 4791++(bytes 2 (8+payloadLen)++bytes 2 0))

theorem setEthernet_zero (rest : List UInt8) :
    setEthernet cardMacAddressOctets cardMacAddressOctets (List.replicate 14 0++rest)=
      ethHeader++rest := rfl

theorem setIpv4_zero (srcIp dstIp : UInt32) (payloadLen : Nat) (rest : List UInt8) :
    setIpv4 srcIp dstIp payloadLen (List.replicate 20 0++rest)=
      ipv4Header srcIp dstIp payloadLen++rest := by
  have hversion : (64 &&& ~~~15 ||| 5 : UInt8)=69 := by decide
  have hflags : (64 &&& ~~~31 : UInt8)=64 := by decide
  simp [setIpv4,setBits,write,BigEndian.read,bytes,ipv4Header,List.replicate,value,ipHeaderLen,
    udpHeaderLen,hversion,hflags]

theorem setUdp_zero (payload rest : List UInt8) (h : rest.length=payload.length) :
    setUdp payload (List.replicate 8 0++rest)=udpHeader payload.length++payload := by
  have hpayload : write (udpHeader payload.length++rest) 8 payload=
      udpHeader payload.length++payload := by
    rw [write,List.drop_of_length_le,List.append_nil]
    · rfl
    · simp [udpHeader,h]
      omega
  rw [setUdp]
  change write (write (udpHeader payload.length++rest) 8 payload) 6 (bytes 2 (BigEndian.read
    (write (udpHeader payload.length++rest) 8 payload) 6 2))=_
  rw [hpayload]
  rfl

/-- The frame is its headers and the payload, with both checksums zero. -/
theorem buildEthernetFrame_eq (srcIp dstIp : UInt32) (payload : List UInt8) :
    buildEthernetFrame srcIp dstIp cardMacAddressOctets cardMacAddressOctets payload=
      ethHeader++(ipv4Header srcIp dstIp payload.length++(udpHeader payload.length++payload)) := by
  have hbuffer : List.replicate (ethHeaderLen+ipHeaderLen+udpHeaderLen+payload.length) (0 : UInt8)=
      List.replicate 14 0++(List.replicate 20 0++(List.replicate 8 0++
        List.replicate payload.length 0)) := by
    simp only [List.replicate_append_replicate]
    congr 1
    simp only [ethHeaderLen,ipHeaderLen,udpHeaderLen]
    omega
  have hip := onSlice_append ethHeader (List.replicate 20 0++(List.replicate 8 0++
    List.replicate payload.length 0)) (setIpv4 srcIp dstIp payload.length)
  have hudp := onSlice_append (ethHeader++ipv4Header srcIp dstIp payload.length)
    (List.replicate 8 0++List.replicate payload.length 0) (setUdp payload)
  rw [setIpv4_zero] at hip
  rw [setUdp_zero _ _ List.length_replicate,List.append_assoc,List.append_assoc] at hudp
  rw [buildEthernetFrame,hbuffer,setEthernet_zero]
  exact (congrArg (fun buf => onSlice buf (ethHeaderLen+ipHeaderLen) (setUdp payload)) hip).trans hudp

end AckFrameBuilder

namespace AckFrame

theorem payload_eq (f : AckFrame) :
    f.payload=BigEndian.bytes 12 f.bth.value++(BigEndian.bytes 16 f.prevBitmap.toNat++(
      BigEndian.bytes 16 f.nowBitmap.toNat++BigEndian.bytes 4 f.aethSeg0.value)) := by
  have hzeros : List.replicate 48 (0 : UInt8)=List.replicate 12 0++(List.replicate 16 0++(
      List.replicate 16 0++List.replicate 4 0)) := rfl
  have hassemble (bth prev now aeth : List UInt8) (hb : bth.length=12) (hp : prev.length=16)
      (hn : now.length=16) (ha : aeth.length=4) :
      write (write (write (write (List.replicate 48 0) 0 bth) 12 prev) 28 now) 44 aeth=
        bth++(prev++(now++aeth)) := by
    have h₁ := write_append [] (List.replicate 12 0) (List.replicate 16 0++(List.replicate 16 0++
      List.replicate 4 0)) bth (by rw [List.length_replicate,hb])
    have h₂ := write_append bth (List.replicate 16 0) (List.replicate 16 0++List.replicate 4 0) prev
      (by rw [List.length_replicate,hp])
    have h₃ := write_append (bth++prev) (List.replicate 16 0) (List.replicate 4 0) now
      (by rw [List.length_replicate,hn])
    have h₄ := write_append (bth++(prev++now)) (List.replicate 4 0) [] aeth
      (by rw [List.length_replicate,ha])
    simp only [List.append_assoc,List.append_nil,List.nil_append,List.length_append,List.length_nil,
      hb,hp,hn,Nat.reduceAdd] at h₁ h₂ h₃ h₄
    rw [hzeros,h₁,h₂,h₃,h₄]
  exact hassemble _ _ _ _ (length_bytes ..) (length_bytes ..) (length_bytes ..) (length_bytes ..)

end AckFrame
end BlueRdma

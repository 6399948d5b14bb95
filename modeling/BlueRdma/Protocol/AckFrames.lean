import BlueRdma.Workers.AckFrame

namespace BlueRdma
open BitField BigEndian

namespace AckFrame

/-- The ten words of the IPv4 header in a frame. -/
def ipv4Words (frame : List UInt8) : List Nat := words 10 (frame.drop 14)

def ipv4TotalLength (frame : List UInt8) : Nat := BigEndian.read frame 16 2

def udpLength (frame : List UInt8) : Nat := BigEndian.read frame 38 2

end AckFrame

/-- The two words of an address. -/
def addressWords (ip : UInt32) : List Nat := [ip.toNat/65536,ip.toNat%65536]

theorem bytes_address (ip : UInt32) : bytes 4 ip.toNat=(addressWords ip).flatMap (bytes 2) := by
  have hlow : bytes 2 (ip.toNat%65536)=bytes 2 ip.toNat := by
    simp only [bytes,List.cons.injEq,and_true]
    constructor <;> apply UInt8.toNat_inj.mp <;> simp only [UInt8.toNat_ofNat'] <;> omega
  have hsplit := bytes_add 2 2 ip.toNat
  rw [addressWords,List.flatMap_cons,List.flatMap_cons,List.flatMap_nil,List.append_nil,hlow]
  exact hsplit

namespace AckFrameBuilder

def ipv4HeaderWords (srcIp dstIp : UInt32) (payloadLen : Nat) : List Nat :=
  [0x4500,28+payloadLen,0,0x4000,0x4011,0]++(addressWords srcIp++addressWords dstIp)

theorem ipv4Header_eq (srcIp dstIp : UInt32) (payloadLen : Nat) :
    ipv4Header srcIp dstIp payloadLen=(ipv4HeaderWords srcIp dstIp payloadLen).flatMap (bytes 2) := by
  rw [ipv4Header,bytes_address,bytes_address,ipv4HeaderWords,List.flatMap_append,
    List.flatMap_append]
  rfl

end AckFrameBuilder

namespace AckFrame
open AckFrameBuilder

theorem length_payload (f : AckFrame) : f.payload.length=48 := by
  rw [payload_eq]
  simp only [List.length_append,length_bytes]

theorem bytes_eq (f : AckFrame) : f.bytes=
    ethHeader++(ipv4Header f.srcIp f.dstIp 48++(udpHeader 48++f.payload)) := by
  rw [bytes,buildEthernetFrame_eq,length_payload]

theorem ipv4Words_bytes (f : AckFrame) : ipv4Words f.bytes=ipv4HeaderWords f.srcIp f.dstIp 48 := by
  have hwords := words_flatMap (ipv4HeaderWords f.srcIp f.dstIp 48) (udpHeader 48++f.payload)
  rw [← ipv4Header_eq] at hwords
  rw [ipv4Words,bytes_eq]
  refine hwords.trans ?_
  have hs := f.srcIp.toNat_lt
  have hd := f.dstIp.toNat_lt
  have hmod (w : Nat) (hw : w < 65536) : w%65536=w := Nat.mod_eq_of_lt hw
  simp only [ipv4HeaderWords,addressWords,List.cons_append,List.nil_append,List.map_cons,
    List.map_nil,Nat.mod_mod,hmod (f.srcIp.toNat/65536) (by omega),
    hmod (f.dstIp.toNat/65536) (by omega),Nat.reduceAdd,Nat.reduceMod]

/-- The checksum field is zero, so the other words must add up by themselves. -/
theorem sum_ipv4Words_bytes (f : AckFrame) : (ipv4Words f.bytes).sum=
    50525+(addressWords f.srcIp).sum+(addressWords f.dstIp).sum := by
  rw [ipv4Words_bytes,ipv4HeaderWords,List.sum_append,List.sum_append,Nat.add_assoc]
  rfl

theorem ipv4Words_lt (f : AckFrame) : ∀ w∈ipv4Words f.bytes,w < 65536 := by
  have hs := f.srcIp.toNat_lt
  have hd := f.dstIp.toNat_lt
  rw [ipv4Words_bytes]
  simp only [ipv4HeaderWords,addressWords,List.cons_append,List.nil_append,List.forall_mem_cons,
    List.not_mem_nil,false_imp_iff,implies_true,and_true]
  omega

theorem checksum_bytes (f : AckFrame) : onesComplementSum (ipv4Words f.bytes)=0xFFFF ↔
    65535∣50525+(addressWords f.srcIp).sum+(addressWords f.dstIp).sum := by
  rw [onesComplementSum_eq _ f.ipv4Words_lt,sum_ipv4Words_bytes]
  exact and_iff_right (by omega)

theorem length_ipv4Header (srcIp dstIp : UInt32) (n : Nat) :
    (ipv4Header srcIp dstIp n).length=20 := by
  simp only [ipv4Header,List.length_append,length_bytes]

theorem length_udpHeader (n : Nat) : (udpHeader n).length=8 := by
  simp only [udpHeader,List.length_append,length_bytes]

theorem length_frame (f : AckFrame) : f.bytes.length=90 := by
  rw [bytes_eq,List.length_append,List.length_append,List.length_append,length_ipv4Header,
    length_udpHeader,length_payload]
  rfl

theorem read_ipv4 (f : AckFrame) (k n : Nat) : BigEndian.read f.bytes (14+k) n=
    BigEndian.read (ipv4Header f.srcIp f.dstIp 48++(udpHeader 48++f.payload)) k n := by
  rw [bytes_eq]
  exact read_add ethHeader _ k n

theorem read_udp (f : AckFrame) (k n : Nat) : BigEndian.read f.bytes (34+k) n=
    BigEndian.read (udpHeader 48++f.payload) k n := by
  have h := read_add (ipv4Header f.srcIp f.dstIp 48) (udpHeader 48++f.payload) k n
  rw [length_ipv4Header] at h
  rw [← h,← read_ipv4,← Nat.add_assoc]

theorem read_payload (f : AckFrame) (k n : Nat) : BigEndian.read f.bytes (42+k) n=
    BigEndian.read f.payload k n := by
  have h := read_add (udpHeader 48) f.payload k n
  rw [length_udpHeader] at h
  rw [← h,← read_udp,← Nat.add_assoc]

theorem ipv4TotalLength_bytes (f : AckFrame) : ipv4TotalLength f.bytes=f.bytes.length-14 := by
  rw [ipv4TotalLength,length_frame,f.read_ipv4 2 2]
  rfl

theorem udpLength_bytes (f : AckFrame) : udpLength f.bytes=f.bytes.length-34 := by
  rw [udpLength,length_frame,f.read_udp 4 2]
  rfl

theorem read_bth (f : AckFrame) : BigEndian.read f.bytes 42 12=f.bth.value := by
  have h := read_append [] (BigEndian.bytes 16 f.prevBitmap.toNat++(
    BigEndian.bytes 16 f.nowBitmap.toNat++BigEndian.bytes 4 f.aethSeg0.value)) 12 f.bth.value
  have hlt : f.bth.value < 256^12 := lt_of_lt_of_eq f.bth.value_lt (by norm_num)
  rw [Nat.mod_eq_of_lt hlt,List.nil_append,List.length_nil,← payload_eq] at h
  exact (f.read_payload 0 12).trans h

theorem read_prevBitmap (f : AckFrame) : BigEndian.read f.bytes 54 16=f.prevBitmap.toNat := by
  have h := read_append (BigEndian.bytes 12 f.bth.value) (BigEndian.bytes 16 f.nowBitmap.toNat++
    BigEndian.bytes 4 f.aethSeg0.value) 16 f.prevBitmap.toNat
  have hlt : f.prevBitmap.toNat < 256^16 := lt_of_lt_of_eq f.prevBitmap.isLt (by norm_num)
  rw [Nat.mod_eq_of_lt hlt,length_bytes,← payload_eq] at h
  exact (f.read_payload 12 16).trans h

theorem read_nowBitmap (f : AckFrame) : BigEndian.read f.bytes 70 16=f.nowBitmap.toNat := by
  have h := read_append (BigEndian.bytes 12 f.bth.value++BigEndian.bytes 16 f.prevBitmap.toNat)
    (BigEndian.bytes 4 f.aethSeg0.value) 16 f.nowBitmap.toNat
  have hlt : f.nowBitmap.toNat < 256^16 := lt_of_lt_of_eq f.nowBitmap.isLt (by norm_num)
  rw [Nat.mod_eq_of_lt hlt,List.length_append,length_bytes,length_bytes,List.append_assoc,
    ← payload_eq] at h
  exact (f.read_payload 28 16).trans h

theorem read_aethSeg0 (f : AckFrame) : BigEndian.read f.bytes 86 4=f.aethSeg0.value := by
  have h := read_append (BigEndian.bytes 12 f.bth.value++(BigEndian.bytes 16 f.prevBitmap.toNat++
    BigEndian.bytes 16 f.nowBitmap.toNat)) [] 4 f.aethSeg0.value
  have hlt : f.aethSeg0.value < 256^4 := lt_of_lt_of_eq f.aethSeg0.value_lt (by norm_num)
  rw [Nat.mod_eq_of_lt hlt,List.length_append,List.length_append,length_bytes,length_bytes,
    length_bytes,List.append_nil,List.append_assoc,List.append_assoc,← payload_eq] at h
  exact (f.read_payload 44 4).trans h

theorem read_srcIp (f : AckFrame) : BigEndian.read f.bytes 26 4=f.srcIp.toNat := by
  have h := read_append (BigEndian.bytes 2 0x4500++(BigEndian.bytes 2 (28+48)++(
    BigEndian.bytes 2 0++(BigEndian.bytes 2 0x4000++(BigEndian.bytes 2 0x4011++
      BigEndian.bytes 2 0))))) (BigEndian.bytes 4 f.dstIp.toNat++(udpHeader 48++f.payload)) 4
    f.srcIp.toNat
  have hlt : f.srcIp.toNat < 256^4 := lt_of_lt_of_eq f.srcIp.toNat_lt (by norm_num)
  have hread := f.read_ipv4 12 4
  rw [Nat.mod_eq_of_lt hlt] at h
  simp only [List.length_append,length_bytes,List.append_assoc,Nat.reduceAdd] at h
  simp only [ipv4Header,List.append_assoc,Nat.reduceAdd] at hread
  exact hread.trans h

theorem read_dstIp (f : AckFrame) : BigEndian.read f.bytes 30 4=f.dstIp.toNat := by
  have h := read_append (BigEndian.bytes 2 0x4500++(BigEndian.bytes 2 (28+48)++(
    BigEndian.bytes 2 0++(BigEndian.bytes 2 0x4000++(BigEndian.bytes 2 0x4011++(
      BigEndian.bytes 2 0++BigEndian.bytes 4 f.srcIp.toNat)))))) (udpHeader 48++f.payload) 4
    f.dstIp.toNat
  have hlt : f.dstIp.toNat < 256^4 := lt_of_lt_of_eq f.dstIp.toNat_lt (by norm_num)
  have hread := f.read_ipv4 16 4
  rw [Nat.mod_eq_of_lt hlt] at h
  simp only [List.length_append,length_bytes,List.append_assoc,Nat.reduceAdd] at h
  simp only [ipv4Header,List.append_assoc,Nat.reduceAdd] at hread
  exact hread.trans h

theorem ofNat_toNat_of_fits (x : UInt32) (h : x.toNat < 2^24) :
    UInt32.ofNat (BitVec.ofNat 24 x.toNat).toNat=x := by
  rw [BitVec.toNat_ofNat,Nat.mod_eq_of_lt h,UInt32.ofNat_toNat]

/-- Decoding gives back what was encoded. -/
theorem ofBytes_bytes (f : AckFrame) (hdqpn : f.dqpn.toNat < 2^24)
    (hnow : f.nowPsn.inner.toNat < 2^24) (hpre : f.prePsn.inner.toNat < 2^24) :
    ofBytes f.bytes=f := by
  rw [ofBytes,read_bth,read_aethSeg0,read_srcIp,read_dstIp,read_nowBitmap,read_prevBitmap,
    Bth.ofValue_value,AethSeg0.ofValue_value]
  simp only [bth,aethSeg0,ofNat_toNat_of_fits _ hdqpn,ofNat_toNat_of_fits _ hnow,
    ofNat_toNat_of_fits _ hpre,BitVec.ofNat_toNat,BitVec.setWidth_eq,UInt32.ofNat_toNat]

end AckFrame

theorem AckFrameBuilder.buildAck_eq_some (b : AckFrameBuilder) (nowPsn : Psn)
    (nowBitmap : BitVec 128) (prePsn : Psn) (prevBitmap : BitVec 128)
    (isPacketLoss isWindowSlided : Bool) (hdqpn : b.dqpn.toNat < 2^24)
    (hnow : nowPsn.inner.toNat < 2^24) (hpre : prePsn.inner.toNat < 2^24) :
    b.buildAck nowPsn nowBitmap prePsn prevBitmap isPacketLoss isWindowSlided=
      some ⟨b.srcIp,b.dstIp,b.dqpn,nowPsn,nowBitmap,prePsn,prevBitmap,isPacketLoss,isWindowSlided⟩ := by
  simp only [buildAck,fitsU24,hdqpn,hnow,hpre,decide_true,Bool.and_self,if_true]

/-- `build_ack` returns a frame whose length fields count the bytes from their header on and
that decodes to the fields it was given. The header checks out only for addresses whose words
bring the sum of the other words to a multiple of 65535. -/
theorem ack_frame_header_iff (b : AckFrameBuilder) (nowPsn : Psn) (nowBitmap : BitVec 128)
    (prePsn : Psn) (prevBitmap : BitVec 128) (isPacketLoss isWindowSlided : Bool)
    (hdqpn : b.dqpn.toNat < 2^24) (hnow : nowPsn.inner.toNat < 2^24)
    (hpre : prePsn.inner.toNat < 2^24) :
    ∃ frame,b.buildAckBytes nowPsn nowBitmap prePsn prevBitmap isPacketLoss isWindowSlided=
        some frame ∧
      (onesComplementSum (AckFrame.ipv4Words frame)=0xFFFF ↔
        65535∣50525+(addressWords b.srcIp).sum+(addressWords b.dstIp).sum) ∧
      AckFrame.ipv4TotalLength frame=(frame.drop 14).length ∧
      AckFrame.udpLength frame=(frame.drop 34).length ∧
      AckFrame.ofBytes frame=⟨b.srcIp,b.dstIp,b.dqpn,nowPsn,nowBitmap,prePsn,prevBitmap,
        isPacketLoss,isWindowSlided⟩ := by
  let f : AckFrame := ⟨b.srcIp,b.dstIp,b.dqpn,nowPsn,nowBitmap,prePsn,prevBitmap,isPacketLoss,
    isWindowSlided⟩
  refine ⟨f.bytes,?_,f.checksum_bytes,?_,?_,f.ofBytes_bytes hdqpn hnow hpre⟩
  · rw [AckFrameBuilder.buildAckBytes,b.buildAck_eq_some _ _ _ _ _ _ hdqpn hnow hpre]
    rfl
  · rw [List.length_drop,f.ipv4TotalLength_bytes]
  · rw [List.length_drop,f.udpLength_bytes]

/-- With the addresses 17.34.51.10 and 17.34.51.11 the words add up to 19895, not to 65535. -/
theorem ack_frame_checksum_zero :
    ((AckFrameBuilder.mk 0x1122330A 0x1122330B 13).buildAckBytes ⟨102⟩ 0 ⟨71⟩ 0 true true).map
      (fun frame => onesComplementSum (AckFrame.ipv4Words frame))=some 19895 := by
  decide +kernel

/-- With these two the header happens to be right. -/
theorem ack_frame_header_iff_lucky :
    65535∣50525+(addressWords 0x11220000).sum+(addressWords 0x00002980).sum ∧ ∃ frame,
      (AckFrameBuilder.mk 0x11220000 0x00002980 13).buildAckBytes ⟨102⟩ 0 ⟨71⟩ 0 true true=
        some frame ∧ onesComplementSum (AckFrame.ipv4Words frame)=0xFFFF := by
  have hdvd : 65535∣50525+(addressWords 0x11220000).sum+(addressWords 0x00002980).sum := by decide
  obtain ⟨frame,hframe,hsum,_⟩ := ack_frame_header_iff ⟨0x11220000,0x00002980,13⟩ ⟨102⟩ 0 ⟨71⟩ 0
    true true (by decide) (by decide) (by decide)
  exact ⟨hdvd,frame,hframe,hsum.mpr hdvd⟩

end BlueRdma

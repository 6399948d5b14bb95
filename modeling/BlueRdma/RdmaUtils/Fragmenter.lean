import BlueRdma.RdmaUtils.Qp
import BlueRdma.Workers.Send

namespace BlueRdma

/-- (Max) size of a single WR chunk. -/
def wrChunkSize : UInt64 := 0x10000

structure Fragmenter where
  segmentSize : UInt64
  align : UInt64
  baseAddr : UInt64
  endAddr : UInt64

structure Fragment where
  addr : UInt64
  len : UInt64
  pos : ChunkPos
  deriving DecidableEq

/-- Iteration state of a `Fragmenter`. -/
structure FragmentIter where
  segmentSize : UInt64
  align : UInt64
  currentAddr : UInt64
  currentPos : ChunkPos
  endAddr : UInt64
  totalSegments : Nat
  count : Nat

namespace Fragmenter

def new (segmentSize align baseAddr length : UInt64) : Fragmenter :=
  ⟨segmentSize,align,baseAddr,baseAddr+length⟩

def numSegments (f : Fragmenter) : Nat :=
  if f.baseAddr≥f.endAddr then 0
  else
    let firstAligned := Word.alignDown (f.baseAddr+f.segmentSize) f.align
    let remainingAfterFirst := Word.saturatingSub f.endAddr firstAligned
    (Word.divCeil remainingAfterFirst f.segmentSize).toNat+1

def intoIter (f : Fragmenter) : FragmentIter where
  segmentSize := f.segmentSize
  align := f.align
  currentAddr := f.baseAddr
  endAddr := f.endAddr
  totalSegments := f.numSegments
  currentPos := if f.numSegments=1 then .only else .first
  count := f.numSegments

end Fragmenter

/-- End of the segment that starts at `current`: the next aligned address one
segment further, cut at the end of the range. -/
def segmentEnd (current segmentSize align endAddr : UInt64) : UInt64 :=
  min (Word.alignDown (current+segmentSize) align) endAddr

def FragmentIter.next (st : FragmentIter) : Option (Fragment × FragmentIter) :=
  if st.count=0 then none
  else
    let len := segmentEnd st.currentAddr st.segmentSize st.align st.endAddr-st.currentAddr
    let count := st.count-1
    let nextPos := match decide (count=1),st.currentPos with
      | _,.only => .only
      | true,_ => .last
      | false,.last => .last
      | false,.first => .middle
      | false,.middle => .middle
    some (⟨st.currentAddr,len,st.currentPos⟩,
      {st with currentAddr := st.currentAddr+len,count := count,currentPos := nextPos})

/-- Work request fragmenter: the chunk size is the path MTU for retransmitted
packets and `wrChunkSize` for the first transmission. -/
structure ChunkFragmenter where
  wr : SendWrRdma
  qpParam : QpParams
  basePsn : Psn
  chunkSize : UInt64
  isRetry : Bool

structure ChunkIter where
  inner : FragmentIter
  psn : Psn
  wr : SendWrRdma
  builder : WrChunkBuilder .withIbvParams
  laddr : UInt64
  pmtu : UInt64
  isRetry : Bool

/-- `None` where the source reaches `unreachable!("invalid ibv_mtu")`. -/
def ChunkFragmenter.intoIter (f : ChunkFragmenter) : Option ChunkIter := do
  let builder := ((WrChunkBuilder.newWithOpcode f.wr.opcode).setQpParams f.qpParam).setIbvParams
    f.wr.sendFlags.toUInt8 f.wr.rkey f.wr.length f.wr.lkey f.wr.imm
  let pmtu ← convertIbvMtuToU16 f.qpParam.pmtu
  let frag := Fragmenter.new f.chunkSize pmtu.toUInt64 f.wr.raddr f.wr.length.toUInt64
  some ⟨frag.intoIter,f.basePsn,f.wr,builder,f.wr.laddr,pmtu.toUInt64,f.isRetry⟩

def ChunkIter.next (st : ChunkIter) : Option (WrChunk × ChunkIter) :=
  match st.inner.next with
  | none => none
  | some (f,inner) =>
    let builder := st.builder.setChunkMeta st.psn st.laddr f.addr f.len.toUInt32 f.pos
    let chunk := if st.isRetry then builder.setIsRetry.build else builder.build
    let numPackets := (Word.divCeil f.len st.pmtu).toUInt32
    some (chunk,{st with inner := inner,psn := st.psn+numPackets,laddr := st.laddr+f.len})

/-- Runs the iterator to its end; `count` bounds the number of chunks left. -/
def ChunkIter.collect : Nat → ChunkIter → List WrChunk
  | 0,_ => []
  | n+1,st => match st.next with
    | none => []
    | some (c,st') => c::collect n st'

def ChunkIter.toList (st : ChunkIter) : List WrChunk := st.collect (st.inner.count+1)

/-- First transmission: chunks of at most `wrChunkSize` bytes. -/
def wrChunkFragmenter (wr : SendWrRdma) (qpParam : QpParams) (basePsn : Psn) :
    Option (List WrChunk) :=
  (ChunkFragmenter.intoIter ⟨wr,qpParam,basePsn,wrChunkSize,false⟩).map ChunkIter.toList

/-- Retransmission: one chunk for each packet. -/
def wrPacketFragmenter (wr : SendWrRdma) (qpParam : QpParams) (basePsn : Psn) :
    Option (List WrChunk) := do
  let pmtu ← convertIbvMtuToU16 qpParam.pmtu
  (ChunkFragmenter.intoIter ⟨wr,qpParam,basePsn,pmtu.toUInt64,true⟩).map ChunkIter.toList

section Segments
variable {k seg : Nat}

/-- A segment size the alignment divides. -/
structure SegmentSize (k seg : Nat) : Prop where
  exp : k<64
  pos : 0 < seg
  aligned : seg%2^k=0
  lt : seg<2^63

/-- The same without a bound on the size. -/
structure Stride (k seg : Nat) : Prop where
  exp : k<64
  pos : 0 < seg
  aligned : seg%2^k=0

theorem SegmentSize.stride (h : SegmentSize k seg) : Stride k seg := ⟨h.exp,h.pos,h.aligned⟩

theorem Stride.le (h : Stride k seg) : 2^k ≤ seg :=
  Nat.le_of_dvd h.pos (Nat.dvd_of_mod_eq_zero h.aligned)

/-- The iterator still owes `count` segments. Only the last segment of a range
that touches the top of the address space has its end computed with overflow. -/
structure FragmentIter.Ready (k seg : Nat) (st : FragmentIter) : Prop where
  align : st.align.toNat=2^k
  size : st.segmentSize.toNat=seg
  inside : 0 < st.count → st.currentAddr.toNat < st.endAddr.toNat
  left : 0 < st.count →
    (st.currentAddr.toNat+seg<2^64 ∧ st.count=
      (st.endAddr.toNat-2^k*((st.currentAddr.toNat+seg)/2^k)+seg-1)/seg+1) ∨
    (2^64 ≤ st.currentAddr.toNat+seg ∧ st.currentAddr.toNat%2^k=0 ∧ st.count=1)

theorem boundary_gt (h : Stride k seg) (a : Nat) : a<2^k*((a+seg)/2^k) := by
  have hd := Nat.div_add_mod (a+seg) (2^k)
  have hm := Nat.mod_lt (a+seg) (Nat.two_pow_pos k)
  have := h.le
  omega

theorem boundary_le (k seg a : Nat) : 2^k*((a+seg)/2^k)≤a+seg :=
  Nat.mul_div_le (a+seg) (2^k)

/-- From an aligned address the boundary is exactly one segment away. -/
theorem boundary_aligned (h : Stride k seg) (a : Nat) (ha : a%2^k=0) :
    2^k*((a+seg)/2^k)=a+seg := by
  have hd := Nat.div_add_mod (a+seg) (2^k)
  rw [Nat.add_mod,ha,h.aligned,Nat.add_zero,Nat.zero_mod] at hd
  omega

/-- Without overflow a segment reaches to the boundary or to the end of the range. -/
theorem segmentEnd_toNat (h : Stride k seg) (cur size align stop : UInt64)
    (hal : align.toNat=2^k) (hsz : size.toNat=seg) (hfit : cur.toNat+seg<2^64) :
    (segmentEnd cur size align stop).toNat=min (2^k*((cur.toNat+seg)/2^k)) stop.toNat := by
  rw [segmentEnd,Word.min_toNat,Word.alignDown_toNat _ _ k h.exp hal,UInt64.toNat_add,hsz,
    Nat.mod_eq_of_lt hfit]

theorem segment_len (h : Stride k seg) (cur size align stop : UInt64)
    (hal : align.toNat=2^k) (hsz : size.toNat=seg) (hlt : cur.toNat < stop.toNat)
    (hfit : cur.toNat+seg<2^64) :
    (segmentEnd cur size align stop-cur).toNat=
      min (2^k*((cur.toNat+seg)/2^k)) stop.toNat-cur.toNat := by
  have hgt := boundary_gt h cur.toNat
  have hend := segmentEnd_toNat h cur size align stop hal hsz hfit
  rw [Word.sub_toNat _ _ (by rw [hend]; omega),hend]

/-- With overflow the length reaches to the boundary beyond the top of the address space, whatever
the end of the range is. -/
theorem segment_len_top (h : SegmentSize k seg) (cur size align stop : UInt64)
    (hal : align.toNat=2^k) (hsz : size.toNat=seg) (hlt : cur.toNat < stop.toNat)
    (htop : 2^64 ≤ cur.toNat+seg) :
    2^64≤2^k*((cur.toNat+seg)/2^k) ∧
    (segmentEnd cur size align stop-cur).toNat=2^k*((cur.toNat+seg)/2^k)-cur.toNat := by
  have hc := cur.toNat_lt
  have hs := h.lt
  have hadd : (cur+size).toNat=cur.toNat+seg-2^64 := by
    rw [UInt64.toNat_add,hsz]; omega
  have hle := boundary_le k seg cur.toNat
  obtain ⟨q,hq⟩ : 2^k∣2^64 := Nat.pow_dvd_pow 2 h.exp.le
  have hdown : 2^k*((cur.toNat+seg-2^64)/2^k)=2^k*((cur.toNat+seg)/2^k)-2^64 := by
    rw [hq,Nat.sub_mul_div,Nat.mul_sub]
  have hge : 2^64≤2^k*((cur.toNat+seg)/2^k) := by
    rw [hq] at htop ⊢
    apply Nat.mul_le_mul_left
    rwa [Nat.le_div_iff_mul_le (Nat.two_pow_pos k),Nat.mul_comm]
  have hend : (segmentEnd cur size align stop).toNat=2^k*((cur.toNat+seg)/2^k)-2^64 := by
    rw [segmentEnd,Word.min_toNat,Word.alignDown_toNat _ _ k h.exp hal,hadd,hdown,min_eq_left]
    omega
  refine ⟨hge,?_⟩
  rw [UInt64.toNat_sub,hend]
  omega

/-- Without overflow the next segment starts at the boundary or at the end of the range. -/
theorem address_next (h : SegmentSize k seg) (st : FragmentIter) (hr : st.Ready k seg)
    (hin : st.currentAddr.toNat < st.endAddr.toNat) (hfit : st.currentAddr.toNat+seg<2^64) :
    (st.currentAddr+(segmentEnd st.currentAddr st.segmentSize st.align st.endAddr-
      st.currentAddr)).toNat=
      min (2^k*((st.currentAddr.toNat+seg)/2^k)) st.endAddr.toNat := by
  have hgt := boundary_gt h.stride st.currentAddr.toNat
  have hlt := st.endAddr.toNat_lt
  rw [UInt64.toNat_add,segment_len h.stride _ _ _ _ hr.align hr.size hin hfit]
  omega

theorem FragmentIter.next_eq (st : FragmentIter) (h : 0 < st.count) :
    ∃ pos,st.next=some (⟨st.currentAddr,segmentEnd st.currentAddr st.segmentSize st.align
      st.endAddr-st.currentAddr,st.currentPos⟩,{st with
        currentAddr := st.currentAddr+(segmentEnd st.currentAddr st.segmentSize st.align
          st.endAddr-st.currentAddr)
        count := st.count-1
        currentPos := pos}) :=
  ⟨_,if_neg (show st.count≠0 by omega)⟩

/-- What one step of the iteration does: a segment of at least one byte and at
most the segment size, and one segment less to go. -/
theorem FragmentIter.next_ready (h : SegmentSize k seg) (st : FragmentIter)
    (hr : st.Ready k seg) (c : Nat) (hc : st.count=c+1) :
    ∃ f st',st.next=some (f,st') ∧ st'.Ready k seg ∧ st'.count=c ∧
      0<f.len.toNat ∧ f.len.toNat ≤ seg := by
  have hin := hr.inside (by omega)
  have hlt := st.endAddr.toNat_lt
  have hs := h.pos
  obtain ⟨pos,hnext⟩ := st.next_eq (by omega)
  refine ⟨_,_,hnext,⟨hr.align,hr.size,?_,?_⟩,by rw [hc]; rfl,?_⟩
  · dsimp only
    rcases hr.left (by omega) with ⟨hfit,hcount⟩|⟨htop,hal,hcount⟩
    · intro hpos
      rw [address_next h st hr hin hfit]
      have : st.endAddr.toNat-2^k*((st.currentAddr.toNat+seg)/2^k)≠0 := by
        intro hz
        rw [hz,Nat.div_eq_of_lt (show 0+seg-1 < seg by omega)] at hcount
        omega
      omega
    · intro hpos
      omega
  · dsimp only
    rcases hr.left (by omega) with ⟨hfit,hcount⟩|⟨htop,hal,hcount⟩
    · intro hpos
      rw [address_next h st hr hin hfit]
      have hgt := boundary_gt h.stride st.currentAddr.toNat
      have hnz : st.endAddr.toNat-2^k*((st.currentAddr.toNat+seg)/2^k)≠0 := by
        intro hz
        rw [hz,Nat.div_eq_of_lt (show 0+seg-1 < seg by omega)] at hcount
        omega
      rw [min_eq_left (by omega)]
      generalize hb : 2^k*((st.currentAddr.toNat+seg)/2^k)=b at *
      have hbal : b%2^k=0 := by rw [← hb]; exact Nat.mul_mod_right _ _
      have hstep := Word.ceil_step (st.endAddr.toNat-b) seg hs (by omega)
      rcases lt_or_ge (b+seg) (2^64) with hb64|hb64
      · left
        rw [boundary_aligned h.stride b hbal]
        refine ⟨hb64,?_⟩
        rw [show st.endAddr.toNat-(b+seg)=st.endAddr.toNat-b-seg by omega]
        omega
      · right
        refine ⟨hb64,hbal,?_⟩
        rw [Nat.sub_eq_zero_of_le (show st.endAddr.toNat-b ≤ seg by omega),
          Nat.div_eq_of_lt (show 0+seg-1 < seg by omega)] at hstep
        omega
    · intro hpos
      omega
  · dsimp only
    rcases hr.left (by omega) with ⟨hfit,hcount⟩|⟨htop,hal,hcount⟩
    · rw [segment_len h.stride _ _ _ _ hr.align hr.size hin hfit]
      have hgt := boundary_gt h.stride st.currentAddr.toNat
      have hle := boundary_le k seg st.currentAddr.toNat
      omega
    · rw [(segment_len_top h _ _ _ _ hr.align hr.size hin htop).2,
        boundary_aligned h.stride _ hal,Nat.add_sub_cancel_left]
      exact ⟨hs,le_rfl⟩

/-- How a step changes the position. -/
theorem FragmentIter.next_pos (st : FragmentIter) (f : Fragment) (st' : FragmentIter)
    (h : st.next=some (f,st')) :
    f.pos=st.currentPos ∧ st'.currentPos≠.first ∧
    (st'.currentPos=.only ↔ st.currentPos=.only) ∧
    (st'.currentPos=.last ↔ st.currentPos≠.only ∧ (st'.count=1 ∨ st.currentPos=.last)) := by
  rw [next] at h
  split_ifs at h with hc
  simp only [Option.some.injEq,Prod.mk.injEq] at h
  obtain ⟨rfl,rfl⟩ := h
  dsimp only
  by_cases h1 : st.count-1=1
  · cases hp : st.currentPos <;> simp [h1]
  · cases hp : st.currentPos <;> simp [h1]

theorem Fragmenter.numSegments_eq (h : Stride k seg) (f : Fragmenter)
    (hal : f.align.toNat=2^k) (hsz : f.segmentSize.toNat=seg) (hlt : f.baseAddr.toNat<f.endAddr.toNat)
    (hfit : f.baseAddr.toNat+seg<2^64) :
    f.numSegments=(f.endAddr.toNat-2^k*((f.baseAddr.toNat+seg)/2^k)+seg-1)/seg+1 := by
  have hn : ¬f.baseAddr≥f.endAddr := by
    rw [ge_iff_le,UInt64.le_iff_toNat_le]; omega
  rw [numSegments,if_neg hn]
  dsimp only
  rw [Word.divCeil_toNat _ _ (by rw [hsz]; exact h.pos),Word.saturatingSub_toNat,
    Word.alignDown_toNat _ _ k h.exp hal,UInt64.toNat_add,hsz,Nat.mod_eq_of_lt hfit]

/-- A range whose first boundary overflows would be cut into about `2^64/seg`
segments, so a moderate count excludes the overflow. -/
theorem Fragmenter.first_fits (h : SegmentSize k seg) (hseg : seg≤2^16) (f : Fragmenter)
    (hal : f.align.toNat=2^k) (hsz : f.segmentSize.toNat=seg) (hlt : f.baseAddr.toNat<f.endAddr.toNat)
    (hcount : f.numSegments<2^40) : f.baseAddr.toNat+seg<2^64 := by
  by_contra hfit
  have hb := f.baseAddr.toNat_lt
  have hn : ¬f.baseAddr≥f.endAddr := by
    rw [ge_iff_le,UInt64.le_iff_toNat_le]; omega
  have hdown : 2^k*((f.baseAddr.toNat+seg-2^64)/2^k)≤f.baseAddr.toNat+seg-2^64 :=
    Nat.mul_div_le _ _
  have hadd : (f.baseAddr+f.segmentSize).toNat=f.baseAddr.toNat+seg-2^64 := by
    rw [UInt64.toNat_add,hsz]; omega
  rw [numSegments,if_neg hn] at hcount
  dsimp only at hcount
  rw [Word.divCeil_toNat _ _ (by rw [hsz]; exact h.pos),Word.saturatingSub_toNat,
    Word.alignDown_toNat _ _ k h.exp hal,hadd,hsz] at hcount
  have hrem := (Nat.div_lt_iff_lt_mul h.pos).mp (Nat.lt_of_succ_lt hcount)
  generalize 2^k*((f.baseAddr.toNat+seg-2^64)/2^k)=d at *
  omega

theorem Fragmenter.intoIter_ready (h : SegmentSize k seg) (hseg : seg≤2^16) (f : Fragmenter)
    (hal : f.align.toNat=2^k) (hsz : f.segmentSize.toNat=seg) (hcount : f.numSegments<2^40) :
    f.intoIter.Ready k seg := by
  have hin : 0<f.numSegments → f.baseAddr.toNat<f.endAddr.toNat := by
    intro hpos
    by_contra hge
    rw [numSegments,if_pos (show f.baseAddr≥f.endAddr by
      rw [ge_iff_le,UInt64.le_iff_toNat_le]; omega)] at hpos
    omega
  refine ⟨hal,hsz,hin,fun hpos => Or.inl ?_⟩
  have hlt := hin hpos
  have hfit := f.first_fits h hseg hal hsz hlt hcount
  exact ⟨hfit,f.numSegments_eq h.stride hal hsz hlt hfit⟩

end Segments

namespace ChunkIter

theorem next_inner (st : ChunkIter) (f : Fragment) (inner : FragmentIter)
    (h : st.inner.next=some (f,inner)) :
    ∃ c st',st.next=some (c,st') ∧ st'.inner=inner ∧ st'.pmtu=st.pmtu ∧
      st'.psn=st.psn+(Word.divCeil f.len st.pmtu).toUInt32 ∧ c.psn=st.psn ∧
      (st.isRetry=true → c.isRetry=true ∧ st'.isRetry=true) := by
  rw [next,h]
  refine ⟨_,_,rfl,rfl,rfl,rfl,?_,?_⟩
  · split_ifs <;> simp [WrChunkBuilder.build,WrChunkBuilder.setIsRetry]
  · intro hr
    rw [if_pos hr]
    exact ⟨rfl,hr⟩

/-- The chunk that one step yields. -/
theorem next_chunk (st : ChunkIter) (f : Fragment) (inner : FragmentIter)
    (h : st.inner.next=some (f,inner)) (hf : st.builder.inner.isFirst=false)
    (hl : st.builder.inner.isLast=false) :
    ∃ c,st.next=some (c,{st with
        inner := inner
        psn := st.psn+(Word.divCeil f.len st.pmtu).toUInt32
        laddr := st.laddr+f.len}) ∧
      c.psn=st.psn ∧ c.laddr=st.laddr ∧ c.raddr=f.addr ∧ c.len=f.len.toUInt32 ∧
      (c.isFirst=true ↔ f.pos=.first ∨ f.pos=.only) ∧
      (c.isLast=true ↔ f.pos=.last ∨ f.pos=.only) := by
  obtain ⟨h1,h2,h3,h4,h5⟩ := st.builder.setChunkMeta_fields st.psn st.laddr f.addr f.len.toUInt32
    f.pos hf hl
  rw [next,h]
  refine ⟨_,rfl,?_⟩
  split_ifs
  · exact ⟨WrChunkBuilder.setChunkMeta_psn ..,h1,h2,h3,h4,h5⟩
  · exact ⟨WrChunkBuilder.setChunkMeta_psn ..,h1,h2,h3,h4,h5⟩

theorem collect_done (n : Nat) (st : ChunkIter) (h : st.inner.count=0) : st.collect n=[] := by
  cases n with
  | zero => rfl
  | succ n => rw [collect,next,FragmentIter.next,if_pos h]

/-- The segment counter alone decides how many chunks come out. -/
theorem length_collect (n : Nat) (st : ChunkIter) (h : st.inner.count≤n) :
    (st.collect n).length=st.inner.count := by
  induction n generalizing st with
  | zero => exact (Nat.le_zero.mp h).symm
  | succ n ih =>
      rcases Nat.eq_zero_or_pos st.inner.count with h0|hpos
      · rw [st.collect_done _ h0,h0]
        rfl
      · obtain ⟨pos,hn⟩ := st.inner.next_eq hpos
        obtain ⟨c,st',hc,hinner,-⟩ := st.next_inner _ _ hn
        have hcount : st'.inner.count=st.inner.count-1 := by rw [hinner]
        rw [collect,hc]
        dsimp only
        rw [List.length_cons,ih st' (by omega)]
        omega

/-- With segments of one path MTU every chunk is one packet, so the chunks
carry consecutive PSNs. -/
theorem collect_psn (k : Nat) (hs : SegmentSize k (2^k)) (n : Nat) (st : ChunkIter) (p : Nat)
    (hr : st.inner.Ready k (2^k)) (hm : st.pmtu.toNat=2^k) (hp : st.psn=Psn.wrap p)
    (hn : st.inner.count≤n) :
    (st.collect n).map WrChunk.psn=(List.range' p st.inner.count).map Psn.wrap := by
  induction n generalizing st p with
  | zero =>
      rw [Nat.le_zero.mp hn]
      rfl
  | succ n ih =>
      rcases Nat.eq_zero_or_pos st.inner.count with h0|hpos
      · rw [st.collect_done _ h0,h0]
        rfl
      · obtain ⟨c,hcount⟩ : ∃ c,st.inner.count=c+1 := ⟨_,(Nat.succ_pred_eq_of_pos hpos).symm⟩
        obtain ⟨f,inner,hnext,hready,hc,hlo,hhi⟩ := FragmentIter.next_ready hs st.inner hr c hcount
        obtain ⟨chunk,st',hch,hinner,hpmtu,hpsn',hpsn,-⟩ := st.next_inner f inner hnext
        have hone : (Word.divCeil f.len st.pmtu).toUInt32.toNat=1 := by
          rw [UInt64.toNat_toUInt32,Word.divCeil_toNat _ _ (by rw [hm]; exact hs.pos),hm,
            Word.ceil_step _ _ hs.pos hlo,Nat.sub_eq_zero_of_le hhi,
            Nat.div_eq_of_lt (show 0+2^k-1<2^k by have := hs.pos; omega)]
        have hrest := ih st' (p+1) (by rwa [hinner]) (by rwa [hpmtu])
          (by rw [hpsn',hp,Psn.wrap_add,hone]) (by rw [hinner]; omega)
        rw [collect,hch]
        dsimp only
        rw [List.map_cons,hrest,hpsn,hp,hinner,hc,hcount,List.range'_succ,List.map_cons]

/-- The first chunk carries the position the iterator starts with, and the last one is marked as
such, wherever the addresses lie. -/
theorem collect_ends (n : Nat) (st : ChunkIter) (hf : st.builder.inner.isFirst=false)
    (hl : st.builder.inner.isLast=false) (hn : st.inner.count≤n) (hpos : 0 < st.inner.count)
    (hlast : st.inner.currentPos=.last ∨ st.inner.currentPos=.only ↔ st.inner.count=1) :
    ∃ c cs,st.collect n=c::cs ∧
      (c.isFirst=true ↔ st.inner.currentPos=.first ∨ st.inner.currentPos=.only) ∧
      ∃ d∈(c::cs).getLast?,d.isLast=true := by
  induction n generalizing st with
  | zero => omega
  | succ n ih =>
      obtain ⟨pos,hnext⟩ := st.inner.next_eq hpos
      obtain ⟨c,hstep,-,-,-,-,hcfirst,hclast⟩ := st.next_chunk _ _ hnext hf hl
      obtain ⟨-,-,honly,hplast⟩ := st.inner.next_pos _ _ hnext
      dsimp only at hcfirst hclast honly hplast
      rw [collect,hstep]
      dsimp only
      refine ⟨c,_,rfl,hcfirst,?_⟩
      rcases Nat.eq_or_lt_of_le (Nat.succ_le_of_lt hpos) with hone|hmore
      · rw [collect_done _ _ (show st.inner.count-1=0 by omega)]
        exact ⟨c,rfl,hclast.mpr (hlast.mpr hone.symm)⟩
      · have hno := mt hlast.mp (show st.inner.count≠1 by omega)
        rw [not_or] at hno
        obtain ⟨d,ds,hds,-,e,he,helast⟩ := ih {st with
            inner := {st.inner with
              currentAddr := st.inner.currentAddr+(segmentEnd st.inner.currentAddr
                st.inner.segmentSize st.inner.align st.inner.endAddr-st.inner.currentAddr)
              count := st.inner.count-1
              currentPos := pos}
            psn := _
            laddr := _} hf hl (show st.inner.count-1≤n by omega)
          (show 0 < st.inner.count-1 by omega) (by
            dsimp only
            rw [hplast,honly]
            simp [hno.1,hno.2])
        rw [hds]
        exact ⟨e,by rw [List.getLast?_cons_cons]; exact he,helast⟩

theorem collect_isRetry (n : Nat) (st : ChunkIter) (h : st.isRetry=true) :
    ∀ c∈st.collect n,c.isRetry=true := by
  induction n generalizing st with
  | zero => intro c hc; cases hc
  | succ n ih =>
      intro c hc
      rw [collect] at hc
      rcases hf : st.inner.next with _|⟨f,inner⟩
      · rw [next,hf] at hc
        cases hc
      · obtain ⟨d,st',hd,-,-,-,-,hretry⟩ := st.next_inner f inner hf
        rw [hd] at hc
        rcases List.mem_cons.mp hc with rfl|hc
        · exact (hretry h).1
        · exact ih st' (hretry h).2 c hc

end ChunkIter

/-- The fragmenter that packetises a work request. -/
def packetFragmenter (m : UInt16) (raddr : UInt64) (length : UInt32) : Fragmenter :=
  Fragmenter.new m.toUInt64 m.toUInt64 raddr length.toUInt64

theorem packet_segmentSize (c : UInt8) (m : UInt16) (hm : convertIbvMtuToU16 c=some m) :
    ∃ k,m.toUInt64.toNat=2^k ∧ SegmentSize k (2^k) ∧ 2^k≤2^12 := by
  obtain ⟨k,-,hk,hmk⟩ := convertIbvMtuToU16_pow c m hm
  have hle : 2^k≤2^12 := Nat.pow_le_pow_right (by decide) hk
  exact ⟨k,by rw [UInt16.toNat_toUInt64,hmk],
    ⟨by omega,Nat.two_pow_pos k,Nat.mod_self _,by omega⟩,hle⟩

/-- Packets of a work request: as many as the fragmenter counts, all marked as
retries and, unless the range overflows the address space, on consecutive PSNs. -/
theorem wrPacketFragmenter_spec (wr : SendWrRdma) (qp : QpParams) (m : UInt16) (psn : Psn)
    (hm : convertIbvMtuToU16 qp.pmtu=some m) :
    ∃ ps,wrPacketFragmenter wr qp psn=some ps ∧
      ps.length=(packetFragmenter m wr.raddr wr.length).numSegments ∧
      (∀ c∈ps,c.isRetry=true) ∧
      ∀ p,psn=Psn.wrap p → ps.length<2^40 →
        ps.map WrChunk.psn=(List.range' p ps.length).map Psn.wrap := by
  obtain ⟨k,hm64,hs,hle⟩ := packet_segmentSize qp.pmtu m hm
  have hlen := ChunkIter.length_collect
  refine ⟨_,by
    simp only [wrPacketFragmenter,ChunkFragmenter.intoIter,hm,Option.bind_eq_bind,
      Option.bind_some,Option.map_some]; rfl,?_,?_,?_⟩
  · exact hlen _ _ (Nat.le_succ _)
  · exact ChunkIter.collect_isRetry _ _ rfl
  · intro p hp hsmall
    rw [ChunkIter.toList,hlen _ _ (Nat.le_succ _)] at hsmall ⊢
    exact ChunkIter.collect_psn k hs _ _ p (Fragmenter.intoIter_ready hs (by omega) _ hm64 hm64
      hsmall) hm64 hp (Nat.le_succ _)

/-- The request has bytes, and they do not run over the top of the address space. -/
def SendWrRdma.Spans (wr : SendWrRdma) : Prop :=
  0<wr.length.toNat ∧ wr.raddr.toNat+wr.length.toNat<2^64

instance (wr : SendWrRdma) : Decidable wr.Spans := inferInstanceAs (Decidable (_ ∧ _))

theorem Fragmenter.numSegments_pos (segmentSize align : UInt64) (wr : SendWrRdma) :
    0<(Fragmenter.new segmentSize align wr.raddr wr.length.toUInt64).numSegments ↔ wr.Spans := by
  have hr := wr.raddr.toNat_lt
  have hl := wr.length.toNat_lt
  have hend : (wr.raddr+wr.length.toUInt64).toNat=(wr.raddr.toNat+wr.length.toNat)%2^64 := by
    rw [UInt64.toNat_add,UInt32.toNat_toUInt64]
  rw [numSegments,SendWrRdma.Spans]
  split_ifs with hge
  · change wr.raddr+wr.length.toUInt64≤wr.raddr at hge
    rw [UInt64.le_iff_toNat_le,hend] at hge
    exact iff_of_false (by omega) (by omega)
  · change ¬wr.raddr+wr.length.toUInt64≤wr.raddr at hge
    rw [UInt64.le_iff_toNat_le,hend] at hge
    exact iff_of_true (Nat.succ_pos _) (by omega)

/-- The first transmission has chunks exactly if the request has bytes to send, and then the
first chunk and the last one are marked. -/
theorem wrChunkFragmenter_ends (wr : SendWrRdma) (qp : QpParams) (m : UInt16) (psn : Psn)
    (hm : convertIbvMtuToU16 qp.pmtu=some m) :
    ∃ cs,wrChunkFragmenter wr qp psn=some cs ∧ (cs≠[] ↔ wr.Spans) ∧
      (cs≠[] → (∃ c∈cs.head?,c.isFirst=true) ∧ ∃ c∈cs.getLast?,c.isLast=true) := by
  obtain ⟨st,hst,hcount,hpos,hf,hl⟩ : ∃ st,
      ChunkFragmenter.intoIter ⟨wr,qp,psn,wrChunkSize,false⟩=some st ∧
      st.inner.count=(Fragmenter.new wrChunkSize m.toUInt64 wr.raddr
        wr.length.toUInt64).numSegments ∧
      st.inner.currentPos=(if st.inner.count=1 then .only else .first) ∧
      st.builder.inner.isFirst=false ∧ st.builder.inner.isLast=false :=
    ⟨_,by simp only [ChunkFragmenter.intoIter,hm,Option.bind_eq_bind,Option.bind_some]; rfl,
      rfl,rfl,rfl,rfl⟩
  have hlen := ChunkIter.length_collect (st.inner.count+1) st (Nat.le_succ _)
  have hspans := Fragmenter.numSegments_pos wrChunkSize m.toUInt64 wr
  rw [← hcount,← hlen,List.length_pos_iff] at hspans
  refine ⟨st.collect (st.inner.count+1),by rw [wrChunkFragmenter,hst]; rfl,hspans,?_⟩
  intro hne
  have hcpos : 0 < st.inner.count := by rw [← hlen]; exact List.length_pos_iff.mpr hne
  obtain ⟨c,cs,hcs,hfirst,hlast⟩ := st.collect_ends (st.inner.count+1) hf hl (Nat.le_succ _) hcpos
    (by rw [hpos]; split_ifs with h1 <;> simp [h1])
  rw [hcs]
  refine ⟨⟨c,rfl,hfirst.mpr ?_⟩,hlast⟩
  rw [hpos]
  split_ifs <;> simp

/-- Over the naturals: one packet up to the next path-MTU boundary, then one for
each path MTU of what is left. -/
theorem packetFragmenter_numSegments (c : UInt8) (m : UInt16) (raddr : UInt64) (length : UInt32)
    (hm : convertIbvMtuToU16 c=some m) (hpos : 0<length.toNat)
    (hfit : raddr.toNat+length.toNat+2^16<2^64) :
    (packetFragmenter m raddr length).numSegments=
      (length.toNat-(m.toNat-raddr.toNat%m.toNat)+m.toNat-1)/m.toNat+1 := by
  obtain ⟨k,hm64,hs,hle⟩ := packet_segmentSize c m hm
  have hmk : m.toNat=2^k := by rw [← UInt16.toNat_toUInt64,hm64]
  have hend : (packetFragmenter m raddr length).endAddr.toNat=raddr.toNat+length.toNat := by
    change (raddr+length.toUInt64).toNat=_
    rw [UInt64.toNat_add,UInt32.toNat_toUInt64,Nat.mod_eq_of_lt (by omega)]
  have hd := Nat.div_add_mod raddr.toNat (2^k)
  have hr := Nat.mod_lt raddr.toNat hs.pos
  rw [Fragmenter.numSegments_eq hs.stride _ hm64 hm64 (by rw [hend]; change raddr.toNat<_; omega)
    (by change raddr.toNat+_<_; omega),hend,hmk]
  change (raddr.toNat+length.toNat-2^k*((raddr.toNat+2^k)/2^k)+2^k-1)/2^k+1=_
  rw [Nat.add_div_right _ hs.pos,Nat.mul_succ]
  congr 3
  omega

end BlueRdma

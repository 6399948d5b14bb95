import BlueRdma.Protocol.FragmentTiling

namespace BlueRdma

/-- The range ends at the last segment boundary of the address space or before it. The boundaries
lie `seg` bytes apart, the first one a segment behind the block of `2^k` bytes around `a`. -/
def Clear (k seg stop a : Nat) : Prop := stop+seg≤2^64+(a-a%2^k)%seg

section Clear
variable {k e stop a : Nat}

theorem boundary_block (k seg a : Nat) (h : 2^k∣seg) : 2^k*((a+seg)/2^k)=a-a%2^k+seg := by
  have hd := Nat.div_add_mod a (2^k)
  rw [Nat.add_div_of_dvd_left h,Nat.mul_add,Nat.mul_div_cancel' h]
  omega

theorem stride_pow (hk : k≤e) (he : e<64) : Stride k (2^e) :=
  ⟨by omega,Nat.two_pow_pos e,Nat.mod_eq_zero_of_dvd (Nat.pow_dvd_pow 2 hk)⟩

/-- The end of the next segment is computed without overflow. -/
theorem Clear.fits (hk : k≤e) (he : e<64) (h : Clear k (2^e) stop a) (ha : a < stop) :
    a+2^e<2^64 := by
  rw [Clear] at h
  by_contra hover
  have hpos := Nat.two_pow_pos e
  have hle : 2^e≤2^64 := Nat.pow_le_pow_right (by decide) he.le
  have hmod := Nat.mod_lt (a-a%2^k) hpos
  have hblock : 2^64-2^e≤a-a%2^k := by
    have hdvd : 2^k∣2^64-2^e :=
      Nat.dvd_sub (Nat.pow_dvd_pow 2 (by omega)) (Nat.pow_dvd_pow 2 hk)
    obtain ⟨q,hq⟩ := hdvd
    have hd := Nat.div_add_mod a (2^k)
    have hqle : q≤a/2^k := by
      rw [Nat.le_div_iff_mul_le (Nat.two_pow_pos k),Nat.mul_comm]
      omega
    have := Nat.mul_le_mul_left (2^k) hqle
    omega
  have hrem : (a-a%2^k)%2^e=a-a%2^k-(2^64-2^e) := by
    obtain ⟨q,hq⟩ : 2^e∣2^64-2^e := Nat.dvd_sub (Nat.pow_dvd_pow 2 he.le) (dvd_refl _)
    rw [show a-a%2^k=(a-a%2^k-(2^64-2^e))+2^e*q by omega,Nat.add_mul_mod_self_left,
      Nat.mod_eq_of_lt (by omega)]
    omega
  omega

/-- The boundary behind an address sees the same last boundary. -/
theorem clear_boundary (hk : k≤e) :
    Clear k (2^e) stop (2^k*((a+2^e)/2^k)) ↔ Clear k (2^e) stop a := by
  rw [Clear,Clear,Nat.mul_mod_right,Nat.sub_zero,boundary_block k (2^e) a (Nat.pow_dvd_pow 2 hk),
    Nat.add_mod_right]

/-- A last segment whose end is computed without overflow ends at a boundary or before it. -/
theorem clear_of_last (hk : k≤e) (he : e<64) (hfit : a+2^e<2^64)
    (hlast : stop≤2^k*((a+2^e)/2^k)) : Clear k (2^e) stop a := by
  rw [boundary_block k (2^e) a (Nat.pow_dvd_pow 2 hk)] at hlast
  rw [Clear]
  obtain ⟨N,hN⟩ : 2^e∣2^64 := Nat.pow_dvd_pow 2 he.le
  have hd := Nat.div_add_mod (a-a%2^k) (2^e)
  generalize (a-a%2^k)/2^e=q at hd
  generalize (a-a%2^k)%2^e=x at hd ⊢
  have hq : q+1<N := by
    have hlt : 2^e*(q+1)<2^e*N := by
      rw [← hN,Nat.mul_succ]
      omega
    exact Nat.lt_of_mul_lt_mul_left hlt
  have hmul := Nat.mul_le_mul_left (2^e) (Nat.succ_le_of_lt hq)
  rw [Nat.mul_succ,Nat.mul_succ,← hN] at hmul
  omega

theorem roomy_clear (hk : k≤e) (he : e<64) :
    Roomy k (2^e) stop (fun a => a < stop → Clear k (2^e) stop a) where
  fits := fun _ h ha => (h ha).fits hk he ha
  next := by
    intro a h ha hmore
    rw [cut] at hmore ⊢
    rw [min_eq_left (by omega)]
    exact (clear_boundary hk).mpr (h ha)

/-- Shorter segments have no fewer boundaries. -/
theorem Clear.shorter (hk : k≤e) (h : Clear k (2^e) stop a) :
    Clear k (2^k) stop a := by
  rw [Clear] at h ⊢
  have hdvd : 2^k∣2^e := Nat.pow_dvd_pow 2 hk
  have hd := Nat.div_add_mod a (2^k)
  have hblock : a-a%2^k=2^k*(a/2^k) := by omega
  have hrem : 2^k∣(a-a%2^k)%2^e := by
    rw [hblock]
    exact (Nat.dvd_mod_iff hdvd).mpr (dvd_mul_right _ _)
  have hlt := Nat.mod_lt (a-a%2^k) (Nat.two_pow_pos e)
  generalize (a-a%2^k)%2^e=x at h hrem hlt
  have hle : x+2^k≤2^e := by
    obtain ⟨q,rfl⟩ := hrem
    obtain ⟨r,hr⟩ := hdvd
    rw [hr] at hlt ⊢
    have := Nat.mul_le_mul_left (2^k) (Nat.succ_le_of_lt (Nat.lt_of_mul_lt_mul_left hlt))
    rwa [Nat.mul_succ] at this
  omega

end Clear

/-- The remote bytes of chunks. -/
def remoteSpans (cs : List WrChunk) : List (Nat × Nat) :=
  cs.map (fun c => (c.raddr.toNat,c.len.toNat))

namespace ChunkIter

/-- The iterator cuts a range that ends at `stop` into segments of `seg` bytes. -/
structure Cutting (k seg stop : Nat) (st : ChunkIter) : Prop where
  align : st.inner.align.toNat=2^k
  size : st.inner.segmentSize.toNat=seg
  endAddr : st.inner.endAddr.toNat=stop
  plainFirst : st.builder.inner.isFirst=false
  plainLast : st.builder.inner.isLast=false

section Cutting
variable {k e stop : Nat}

theorem Cutting.step {seg : Nat} {st : ChunkIter} (h : st.Cutting k seg stop)
    (hc : 0 < st.inner.count) : ∃ c st',st.next=some (c,st') ∧ st'.Cutting k seg stop ∧
      c.len=(segmentEnd st.inner.currentAddr st.inner.segmentSize st.inner.align
        st.inner.endAddr-st.inner.currentAddr).toUInt32 ∧
      st'.inner.currentAddr=st.inner.currentAddr+(segmentEnd st.inner.currentAddr
        st.inner.segmentSize st.inner.align st.inner.endAddr-st.inner.currentAddr) := by
  obtain ⟨pos,hnext⟩ := st.inner.next_eq hc
  obtain ⟨c,hstep,-,-,-,hlen,-⟩ := st.next_chunk _ _ hnext h.plainFirst h.plainLast
  exact ⟨c,_,hstep,⟨h.align,h.size,h.endAddr,h.plainFirst,h.plainLast⟩,hlen,rfl⟩

/-- Chunks that cover their range exactly are cut without overflow, by induction on the steps: a
segment whose end is computed with overflow reaches beyond the end of the range. -/
theorem clear_of_tiles (hk : k≤e) (he : e<32) (n : Nat) (st : ChunkIter)
    (h : st.Cutting k (2^e) stop) (hlt : st.inner.currentAddr.toNat < stop)
    (ht : Segments.Tiles st.inner.currentAddr.toNat (remoteSpans (st.collect n)) stop) :
    Clear k (2^e) stop st.inner.currentAddr.toNat := by
  induction n generalizing st with
  | zero =>
      have : st.inner.currentAddr.toNat=stop := ht
      omega
  | succ n ih =>
      rcases Nat.eq_zero_or_pos st.inner.count with hzero|hpos
      · rw [st.collect_done _ hzero] at ht
        have : st.inner.currentAddr.toNat=stop := ht
        omega
      obtain ⟨c,st',hstep,hcut,hlen,haddr⟩ := h.step hpos
      have hstride := stride_pow hk (show e<64 by omega)
      have hsmall : 2^e<2^32 := Nat.pow_lt_pow_right (by decide) he
      have hin : st.inner.currentAddr.toNat < st.inner.endAddr.toNat := by
        rw [h.endAddr]
        exact hlt
      have hle := boundary_le k (2^e) st.inner.currentAddr.toNat
      rw [collect,hstep] at ht
      have hrest := ht.2
      dsimp only at hrest
      rw [hlen] at hrest
      by_cases hfit : st.inner.currentAddr.toNat+2^e<2^64
      · have hseg := segment_len hstride _ _ _ _ h.align h.size hin hfit
        have hgt := boundary_gt hstride st.inner.currentAddr.toNat
        rw [h.endAddr] at hseg
        rcases Nat.lt_or_ge (2^k*((st.inner.currentAddr.toNat+2^e)/2^k)) stop with hmore|hlast
        · rw [min_eq_left hmore.le] at hseg
          have hnat : st'.inner.currentAddr.toNat=2^k*((st.inner.currentAddr.toNat+2^e)/2^k) := by
            rw [haddr,UInt64.toNat_add,hseg]
            omega
          rw [UInt64.toNat_toUInt32,hseg,Nat.mod_eq_of_lt (by omega),
            Nat.add_sub_cancel' hgt.le,← hnat] at hrest
          have hclear := ih st' hcut (by rw [hnat]; exact hmore) hrest
          rw [hnat] at hclear
          exact (clear_boundary hk).mp hclear
        · exact clear_of_last hk (by omega) hfit hlast
      · have hsize : SegmentSize k (2^e) :=
          ⟨hstride.exp,hstride.pos,hstride.aligned,by omega⟩
        obtain ⟨htop,hseg⟩ := segment_len_top hsize _ _ _ _ h.align h.size hin (by omega)
        have hstop := st.inner.endAddr.toNat_lt
        rw [h.endAddr] at hstop
        have hover := hrest.le
        rw [UInt64.toNat_toUInt32,hseg,Nat.mod_eq_of_lt (by omega)] at hover
        omega

/-- The chunks cover what the fragments cover. -/
theorem remoteSpans_collect (n : Nat) (st : ChunkIter) (hf : st.builder.inner.isFirst=false)
    (hl : st.builder.inner.isLast=false) (h : ∀ f∈st.inner.collect n,f.len.toNat<2^32) :
    remoteSpans (st.collect n)=(st.inner.collect n).map FragmentIter.span := by
  induction n generalizing st with
  | zero => rfl
  | succ n ih =>
      rcases hnext : st.inner.next with _|⟨f,inner⟩
      · rw [collect,next,hnext,FragmentIter.collect,hnext]
        rfl
      · obtain ⟨c,hstep,-,-,hraddr,hlen,-⟩ := st.next_chunk f inner hnext hf hl
        have hcons : st.inner.collect (n+1)=f::inner.collect n := by
          rw [FragmentIter.collect,hnext]
        rw [hcons] at h ⊢
        rw [collect,hstep,remoteSpans,List.map_cons,List.map_cons,hraddr,hlen,
          UInt64.toNat_toUInt32,Nat.mod_eq_of_lt (h f (List.mem_cons_self ..))]
        refine congrArg (List.cons _) (ih _ ?_ ?_ ?_)
        · exact hf
        · exact hl
        · exact fun g hg => h g (List.mem_cons_of_mem _ hg)

/-- The additions and the subtraction of the iteration stay inside the word, so that a build with
overflow checks takes the same steps. -/
def NoOverflow : Nat → ChunkIter → Prop
  | 0,_ => True
  | n+1,st => match st.next with
    | none => True
    | some (c,st') =>
      st.inner.currentAddr.toNat+st.inner.segmentSize.toNat<2^64 ∧
      st.inner.currentAddr.toNat≤(segmentEnd st.inner.currentAddr st.inner.segmentSize
        st.inner.align st.inner.endAddr).toNat ∧
      st.laddr.toNat+c.len.toNat<2^64 ∧ NoOverflow n st'

theorem noOverflow (hk : k≤e) (he : e<32) (n : Nat) (st : ChunkIter)
    (h : st.inner.Inside k (2^e) stop (fun a => a < stop → Clear k (2^e) stop a))
    (hf : st.builder.inner.isFirst=false) (hl : st.builder.inner.isLast=false)
    (hladdr : st.laddr.toNat+(stop-st.inner.currentAddr.toNat)<2^64) : st.NoOverflow n := by
  induction n generalizing st with
  | zero => trivial
  | succ n ih =>
      rw [NoOverflow]
      rcases Nat.eq_zero_or_pos st.inner.count with hzero|hpos
      · rw [next,FragmentIter.next,if_pos hzero]
        trivial
      have hroom : Roomy k (2^e) stop (fun a => a < stop → Clear k (2^e) stop a) :=
        roomy_clear hk (by omega)
      have hstride := stride_pow hk (show e<64 by omega)
      have hsmall : 2^e<2^32 := Nat.pow_lt_pow_right (by decide) he
      have hlt : st.inner.currentAddr.toNat < stop := by
        rw [h.count] at hpos
        exact (pieces_pos ..).mp hpos
      have hfit := hroom.fits _ h.safe hlt
      obtain ⟨f,inner,hstep⟩ := h.step hstride hroom st.inner hpos
      obtain ⟨c,hnext,-,-,-,hlen,-⟩ := st.next_chunk f inner hstep.next hf hl
      have hsize := hstep.size
      have hstop := hstep.stop
      have hle := hstep.inside.le
      have haddr := hstep.addr
      have hclen : c.len.toNat=f.len.toNat := by
        rw [hlen,UInt64.toNat_toUInt32,Nat.mod_eq_of_lt (by omega)]
      rw [hnext]
      refine ⟨by rw [h.size]; exact hfit,?_,by rw [hclen]; omega,ih _ hstep.inside hf hl ?_⟩
      · rw [segmentEnd_toNat hstride _ _ _ _ h.align h.size hfit,h.endAddr]
        exact (cut_gt hstride _ _ hlt).le
      · dsimp only
        rw [UInt64.toNat_add,Nat.mod_eq_of_lt (by omega)]
        omega

end Cutting
end ChunkIter

/-- The bytes of a request can be cut into chunks: there are some, and they end at the last chunk
boundary of the address space or before it. -/
def SendWrRdma.InChunks (m : UInt16) (wr : SendWrRdma) : Prop :=
  0<wr.length.toNat ∧ wr.raddr.toNat+wr.length.toNat+2^16≤
    2^64+(wr.raddr.toNat-wr.raddr.toNat%m.toNat)%2^16

instance (m : UInt16) (wr : SendWrRdma) : Decidable (wr.InChunks m) :=
  inferInstanceAs (Decidable (_ ∧ _))

theorem SendWrRdma.InChunks.spans {m : UInt16} {wr : SendWrRdma} (h : wr.InChunks m) :
    wr.Spans := by
  obtain ⟨hpos,hend⟩ := h
  have := Nat.mod_lt (wr.raddr.toNat-wr.raddr.toNat%m.toNat) (Nat.two_pow_pos 16)
  exact ⟨hpos,by omega⟩

/-- A margin of one chunk at the top of the address space is enough. -/
theorem SendWrRdma.inChunks_of_margin (m : UInt16) (wr : SendWrRdma) (hpos : 0<wr.length.toNat)
    (h : wr.raddr.toNat+wr.length.toNat+2^16≤2^64) : wr.InChunks m :=
  ⟨hpos,h.trans (Nat.le_add_right ..)⟩

/-- The chunk is a piece of the request on the QP: it has its fields, and its local bytes are those
that belong to its remote ones. -/
structure WrChunk.PieceOf (qp : QpAttr) (wr : SendWrRdma) (c : WrChunk) : Prop where
  opcode : c.opcode=wr.opcode
  qpType : c.qpType=qp.qpType
  sqpn : c.sqpn=qp.qpn
  macAddr : c.macAddr=qp.macAddr
  dqpn : c.dqpn=qp.dqpn
  dqpIp : c.dqpIp=qp.dqpIp
  pmtu : c.pmtu=qp.pmtu
  flags : c.flags=wr.sendFlags.toUInt8
  rkey : c.rkey=wr.rkey
  totalLen : c.totalLen=wr.length
  lkey : c.lkey=wr.lkey
  imm : c.imm=wr.imm
  laddr : c.laddr=wr.laddr+(c.raddr-wr.raddr)

/-- The request is handed over: its chunks cover its bytes in order, the first and the last of them
marked as such. -/
structure HandsOver (qp : QpAttr) (wr : SendWrRdma) (cs : List WrChunk) : Prop where
  first : ∃ c∈cs.head?,c.isFirst=true
  last : ∃ c∈cs.getLast?,c.isLast=true
  pieces : ∀ c∈cs,c.PieceOf qp wr
  tiles : Segments.Tiles wr.raddr.toNat (remoteSpans cs) (wr.raddr.toNat+wr.length.toNat)

theorem not_handsOver_nil (qp : QpAttr) (wr : SendWrRdma) : ¬HandsOver qp wr [] := by
  intro h
  obtain ⟨c,hc,-⟩ := h.first
  cases hc

/-- The builder a chunk iterator starts with. -/
def requestBuilder (wr : SendWrRdma) (q : QpParams) : WrChunkBuilder .withIbvParams :=
  ((WrChunkBuilder.newWithOpcode wr.opcode).setQpParams q).setIbvParams wr.sendFlags.toUInt8 wr.rkey
    wr.length wr.lkey wr.imm

theorem ChunkIter.collect_pieces (qp : QpAttr) (wr : SendWrRdma) (msn : UInt16) (n : Nat)
    (st : ChunkIter) (hb : st.builder=requestBuilder wr (QpParams.ofAttr msn qp))
    (hl : st.laddr=wr.laddr+(st.inner.currentAddr-wr.raddr)) (hretry : st.isRetry=false) :
    ∀ c∈st.collect n,c.PieceOf qp wr := by
  induction n generalizing st with
  | zero => simp [collect]
  | succ n ih =>
      rcases Nat.eq_zero_or_pos st.inner.count with hzero|hpos
      · rw [st.collect_done _ hzero]
        simp
      obtain ⟨pos,hnext⟩ := st.inner.next_eq hpos
      rw [collect,next,hnext]
      intro c hc
      rcases List.mem_cons.mp hc with rfl|hc
      · rw [if_neg (by rw [hretry]; exact Bool.false_ne_true),WrChunkBuilder.build,
          WrChunkBuilder.setChunkMeta_kept,hb]
        exact ⟨rfl,rfl,rfl,rfl,rfl,rfl,rfl,rfl,rfl,rfl,rfl,rfl,hl⟩
      · refine ih _ ?_ ?_ ?_ c hc
        · exact hb
        · dsimp only
          rw [hl]
          grind
        · exact hretry

section Request
variable (qp : QpAttr) (wr : SendWrRdma) (m msn : UInt16) (psn : Psn)
  (hm : convertIbvMtuToU16 qp.pmtu=some m)
include hm

/-- The iterator over the segments of a request with bytes. -/
theorem request_iter (k e : Nat) (size : UInt64) (isRetry : Bool) (hk : m.toNat=2^k) (hke : k≤e)
    (he : e<32) (hsize : size.toNat=2^e) (hspans : wr.Spans) :
    ∃ st,ChunkFragmenter.intoIter ⟨wr,QpParams.ofAttr msn qp,psn,size,isRetry⟩=some st ∧
      st.Cutting k (2^e) (wr.raddr.toNat+wr.length.toNat) ∧
      st.inner.currentAddr=wr.raddr ∧ st.laddr=wr.laddr ∧
      st.builder=requestBuilder wr (QpParams.ofAttr msn qp) ∧ st.isRetry=isRetry ∧
      (Clear k (2^e) (wr.raddr.toNat+wr.length.toNat) wr.raddr.toNat →
        st.inner.Inside k (2^e) (wr.raddr.toNat+wr.length.toNat) (fun a =>
          a<wr.raddr.toNat+wr.length.toNat →
            Clear k (2^e) (wr.raddr.toNat+wr.length.toNat) a)) := by
  have hend : (wr.raddr+wr.length.toUInt64).toNat=wr.raddr.toNat+wr.length.toNat := by
    rw [UInt64.toNat_add,UInt32.toNat_toUInt64,Nat.mod_eq_of_lt hspans.2]
  have hk64 : m.toUInt64.toNat=2^k := by rw [UInt16.toNat_toUInt64,hk]
  have hlt : wr.raddr.toNat<wr.raddr.toNat+wr.length.toNat := Nat.lt_add_of_pos_right hspans.1
  refine ⟨_,by
    simp only [ChunkFragmenter.intoIter,QpParams.ofAttr,hm,Option.bind_eq_bind,Option.bind_some]
    rfl,⟨hk64,hsize,hend,rfl,rfl⟩,rfl,rfl,rfl,rfl,fun hclear => ?_⟩
  rw [← hend] at hlt hclear ⊢
  exact Fragmenter.intoIter_inside (stride_pow hke (by omega))
    (Fragmenter.new size m.toUInt64 wr.raddr wr.length.toUInt64) hk64 hsize hlt
    (hclear.fits hke (by omega) hlt) (fun _ => hclear)

/-- The chunks of the first transmission hand the request over exactly if it can be cut without
overflow. -/
theorem wrChunkFragmenter_handsOver :
    ∃ cs,wrChunkFragmenter wr (QpParams.ofAttr msn qp) psn=some cs ∧
    (HandsOver qp wr cs ↔ wr.InChunks m) := by
  obtain ⟨cs,hcs,hspans,hends⟩ := wrChunkFragmenter_ends wr (QpParams.ofAttr msn qp) m psn hm
  refine ⟨cs,hcs,?_⟩
  by_cases hsp : wr.Spans
  · obtain ⟨k,-,hk12,hmk⟩ := convertIbvMtuToU16_pow qp.pmtu m hm
    obtain ⟨st,hst,hcut,haddr,hladdr,hbuilder,hretry,hinside⟩ := request_iter qp wr m msn psn hm k 16
      wrChunkSize false hmk (by omega) (by decide) rfl hsp
    have hlist : cs=st.collect (st.inner.count+1) := by
      rw [wrChunkFragmenter,hst] at hcs
      exact (Option.some.inj hcs).symm
    have hlt : wr.raddr.toNat<wr.raddr.toNat+wr.length.toNat := Nat.lt_add_of_pos_right hsp.1
    have hclear : wr.InChunks m ↔
        Clear k (2^16) (wr.raddr.toNat+wr.length.toNat) wr.raddr.toNat := by
      rw [SendWrRdma.InChunks,hmk]
      exact and_iff_right hsp.1
    rw [hclear]
    constructor
    · intro h
      have htiles := h.tiles
      rw [hlist] at htiles
      have hclear := ChunkIter.clear_of_tiles (by omega) (by decide) (st.inner.count+1) st hcut
      rw [haddr] at hclear
      exact hclear hlt htiles
    · intro h
      obtain ⟨hfirst,hlast⟩ := hends (hspans.mpr hsp)
      obtain ⟨⟨hsized,htiles,-⟩,-⟩ := (hinside h).collect (stride_pow (by omega) (by decide))
        (roomy_clear (by omega) (by decide)) (st.inner.count+1) st.inner (by omega)
      refine ⟨hfirst,hlast,?_,?_⟩
      · rw [hlist]
        refine ChunkIter.collect_pieces qp wr msn _ st hbuilder ?_ hretry
        rw [hladdr,haddr,UInt64.sub_self,UInt64.add_zero]
      · have hspan := ChunkIter.remoteSpans_collect (st.inner.count+1) st hcut.plainFirst
          hcut.plainLast (fun f hf => (hsized f hf).2.trans_lt (by decide))
        rw [haddr] at htiles
        rw [hlist,hspan]
        exact htiles
  · have hnil : cs=[] := not_not.mp (fun hne => hsp (hspans.mp hne))
    rw [hnil]
    exact iff_of_false (not_handsOver_nil qp wr) (fun h => hsp h.spans)

/-- A request that can be cut is fragmented without overflow, if its local bytes do not run over
the top of the address space either. -/
theorem fragmenters_noOverflow (h : wr.InChunks m) (hladdr : wr.laddr.toNat+wr.length.toNat<2^64)
    (size : UInt64) (hsize : size=wrChunkSize ∨ size=m.toUInt64) (isRetry : Bool) :
    wr.raddr.toNat+size.toNat<2^64 ∧
    ∃ st,ChunkFragmenter.intoIter ⟨wr,QpParams.ofAttr msn qp,psn,size,isRetry⟩=some st ∧
      st.NoOverflow (st.inner.count+1) := by
  obtain ⟨k,-,hk12,hmk⟩ := convertIbvMtuToU16_pow qp.pmtu m hm
  have hsp := h.spans
  have hlt : wr.raddr.toNat<wr.raddr.toNat+wr.length.toNat := Nat.lt_add_of_pos_right hsp.1
  have hclear : Clear k (2^16) (wr.raddr.toNat+wr.length.toNat) wr.raddr.toNat := by
    have hend := h.2
    rwa [hmk] at hend
  obtain ⟨e,hke,he,hse,hc⟩ : ∃ e,k≤e ∧ e<32 ∧ size.toNat=2^e ∧
      Clear k (2^e) (wr.raddr.toNat+wr.length.toNat) wr.raddr.toNat := by
    rcases hsize with rfl|rfl
    · exact ⟨16,by omega,by decide,rfl,hclear⟩
    · exact ⟨k,le_rfl,by omega,by rw [UInt16.toNat_toUInt64,hmk],
        hclear.shorter (by omega)⟩
  obtain ⟨st,hst,hcut,haddr,hla,-,-,hinside⟩ := request_iter qp wr m msn psn hm k e size isRetry hmk
    hke he hse hsp
  refine ⟨by rw [hse]; exact hc.fits hke (by omega) hlt,st,hst,?_⟩
  refine ChunkIter.noOverflow hke he _ st (hinside hc) hcut.plainFirst hcut.plainLast ?_
  rw [hla,haddr]
  omega

end Request
end BlueRdma

import BlueRdma.RdmaUtils.Fragmenter

namespace BlueRdma

/-- Packets that follow one another from a PSN, a remote and a local address on, each inside one
block of `m` bytes, and end at the remote address `stop`. -/
def Consecutive (m : Nat) : Psn → Nat → Nat → Nat → List WrChunk → Prop
  | _,raddr,_,stop,[] => raddr=stop
  | psn,raddr,laddr,stop,c::cs =>
    c.psn=psn ∧ c.raddr.toNat=raddr ∧ c.laddr.toNat=laddr ∧
    0 < c.len.toNat ∧ raddr%m+c.len.toNat ≤ m ∧
    Consecutive m (psn+(1 : UInt32)) (raddr+c.len.toNat) (laddr+c.len.toNat) stop cs

/-- Chunks that follow one another up to the remote address `stop`, each with the packets that
tile it; the next chunk is as many PSNs ahead as there are packets. -/
def Tiled (m : Nat) : Psn → Nat → Nat → Nat → List (WrChunk × List WrChunk) → Prop
  | _,raddr,_,stop,[] => raddr=stop
  | psn,raddr,laddr,stop,(c,ps)::rest =>
    c.psn=psn ∧ c.raddr.toNat=raddr ∧ c.laddr.toNat=laddr ∧
    ps≠[] ∧ Consecutive m psn raddr laddr (raddr+c.len.toNat) ps ∧
    Tiled m (psn+UInt32.ofNat ps.length) (raddr+c.len.toNat) (laddr+c.len.toNat) stop rest

/-- The flags mark the chunk that has the first byte of a request and the one that has the
last byte. -/
def Marked (first stop : Nat) (cs : List WrChunk) : Prop :=
  ∀ c∈cs,(c.isFirst=true ↔ c.raddr.toNat=first) ∧
    (c.isLast=true ↔ c.raddr.toNat+c.len.toNat=stop)

/-- End of the segment that starts at `a`. -/
def cut (k seg a stop : Nat) : Nat := min (2^k*((a+seg)/2^k)) stop

section Cut
variable {k seg : Nat}

theorem cut_gt (h : Stride k seg) (a stop : Nat) (ha : a < stop) : a < cut k seg a stop :=
  lt_min (boundary_gt h a) ha

theorem cut_le_add (k seg a stop : Nat) : cut k seg a stop≤a+seg :=
  (min_le_left _ _).trans (boundary_le k seg a)

theorem cut_le_stop (k seg a stop : Nat) : cut k seg a stop ≤ stop := min_le_right _ _

theorem cut_aligned (k seg a stop : Nat) :
    cut k seg a stop=stop ∨ cut k seg a stop%2^k=0 := by
  rw [cut]
  rcases min_choice (2^k*((a+seg)/2^k)) stop with h|h
  · right
    rw [h,Nat.mul_mod_right]
  · exact Or.inl h

theorem packet_cut (k a stop : Nat) :
    cut k (2^k) a stop=min (2^k*(a/2^k)+2^k) stop := by
  rw [cut,Nat.add_div_right _ (Nat.two_pow_pos k),Nat.mul_succ]

/-- A packet does not cross the end of a chunk. -/
theorem packet_cut_le (k a b stop : Nat) (hab : a<b) (hb : b=stop ∨ b%2^k=0) :
    cut k (2^k) a stop≤b := by
  rw [packet_cut]
  rcases hb with rfl|hb
  · exact min_le_right _ _
  · have hd := Nat.div_add_mod b (2^k)
    have hlt : a/2^k<b/2^k := by
      rw [Nat.div_lt_iff_lt_mul (Nat.two_pow_pos k),Nat.mul_comm]
      omega
    have hmul := Nat.mul_le_mul_left (2^k) hlt
    rw [Nat.mul_succ] at hmul
    omega

/-- Up to an aligned address there is one packet for each block that is begun. -/
theorem packet_cut_div (k a b stop : Nat) (hab : a<b) (hstop : b ≤ stop) (hb : b%2^k=0) :
    b/2^k-a/2^k=b/2^k-cut k (2^k) a stop/2^k+1 := by
  have hpos := Nat.two_pow_pos k
  have hd := Nat.div_add_mod b (2^k)
  have hlt : a/2^k<b/2^k := by
    rw [Nat.div_lt_iff_lt_mul hpos,Nat.mul_comm]
    omega
  have hmul := Nat.mul_le_mul_left (2^k) hlt
  rw [Nat.mul_succ] at hmul
  rw [packet_cut,min_eq_left (by omega),← Nat.mul_succ,Nat.mul_div_cancel_left _ hpos]
  omega

/-- The PSN step of a chunk that ends at an aligned address counts its packets. -/
theorem chunk_packets (k a b : Nat) (hab : a<b) (hb : b%2^k=0) :
    (b-a+2^k-1)/2^k=b/2^k-a/2^k := by
  have hpos := Nat.two_pow_pos k
  have hd := Nat.div_add_mod b (2^k)
  have ha := Nat.div_add_mod a (2^k)
  have hr := Nat.mod_lt a hpos
  have hle : a/2^k≤b/2^k := Nat.div_le_div_right hab.le
  have hsub := Nat.mul_sub (2^k) (b/2^k) (a/2^k)
  have hmono := Nat.mul_le_mul_left (2^k) hle
  rw [show b-a+2^k-1=2^k*(b/2^k-a/2^k)+(2^k-1-a%2^k) by omega,Nat.mul_add_div hpos,
    Nat.div_eq_of_lt (show 2^k-1-a%2^k<2^k by omega),Nat.add_zero]

end Cut

/-- An iterator over a range that stays clear of the top of the address space. -/
structure ChunkIter.Steady (k seg first stop : Nat) (st : ChunkIter) : Prop where
  ready : st.inner.Ready k seg
  pmtu : st.pmtu.toNat=2^k
  plainFirst : st.builder.inner.isFirst=false
  plainLast : st.builder.inner.isLast=false
  endAddr : st.inner.endAddr.toNat=stop
  fits : stop+seg<2^64
  start : first ≤ st.inner.currentAddr.toNat
  left : 0 < st.inner.count ↔ st.inner.currentAddr.toNat < stop
  inside : st.inner.currentAddr.toNat ≤ stop
  laddr : st.laddr.toNat+(stop-st.inner.currentAddr.toNat)<2^64
  firstPos : 0 < st.inner.count → (st.inner.currentPos=.first ∨ st.inner.currentPos=.only ↔
    st.inner.currentAddr.toNat=first)
  lastPos : 0 < st.inner.count → (st.inner.currentPos=.last ∨ st.inner.currentPos=.only ↔
    st.inner.count=1)

namespace ChunkIter
section Steps
variable {k seg first stop : Nat}

/-- One step of the range ends at the next cut. -/
structure Cuts (k seg b stop : Nat) (st : FragmentIter) (f : Fragment) (st' : FragmentIter) :
    Prop where
  next : st.next=some (f,st')
  ready : st'.Ready k seg
  endAddr : st'.endAddr=st.endAddr
  count : st.count=st'.count+1
  addr : f.addr=st.currentAddr
  len : f.len.toNat=b-st.currentAddr.toNat
  nextAddr : st'.currentAddr.toNat=b
  last : st.count=1 ↔ b=stop

theorem Steady.fragment (hs : SegmentSize k seg) (st : ChunkIter)
    (h : st.Steady k seg first stop) (hlt : st.inner.currentAddr.toNat < stop) :
    ∃ f inner,Cuts k seg (cut k seg st.inner.currentAddr.toNat stop) stop st.inner f inner := by
  have hcount := h.left.mpr hlt
  have hfits := h.fits
  have hin : st.inner.currentAddr.toNat < st.inner.endAddr.toNat := by rw [h.endAddr]; exact hlt
  have hfit : st.inner.currentAddr.toNat+seg<2^64 := by omega
  obtain ⟨pos,hnext⟩ := st.inner.next_eq hcount
  obtain ⟨f,inner,hnext',hready,hc,-,-⟩ := FragmentIter.next_ready hs st.inner h.ready
    (st.inner.count-1) (by omega)
  obtain ⟨hfragment,hinner⟩ : f=_ ∧ inner=_ :=
    Prod.mk.inj (Option.some.inj (hnext'.symm.trans hnext))
  have hlen := segment_len hs.stride _ _ _ _ h.ready.align h.ready.size hin hfit
  have haddr := address_next hs st.inner h.ready hin hfit
  rw [h.endAddr] at hlen haddr
  refine ⟨f,inner,hnext',hready,by rw [hinner],by omega,by rw [hfragment],
    by rw [hfragment]; exact hlen,by rw [hinner]; exact haddr,?_⟩
  rcases h.ready.left hcount with ⟨-,hone⟩|⟨htop,-⟩
  · have hpos := hs.pos
    rw [hone,Nat.add_eq_right,Nat.div_eq_zero_iff_lt hpos,h.endAddr,cut,min_eq_right_iff]
    omega
  · omega

/-- One step yields the bytes up to the next cut. -/
structure Yields (k first stop b : Nat) (st : ChunkIter) (c : WrChunk) (st' : ChunkIter) :
    Prop where
  next : st.next=some (c,st')
  psn : c.psn=st.psn
  raddr : c.raddr=st.inner.currentAddr
  laddr : c.laddr=st.laddr
  len : c.len.toNat=b-st.inner.currentAddr.toNat
  isFirst : c.isFirst=true ↔ c.raddr.toNat=first
  isLast : c.isLast=true ↔ b=stop
  count : st.inner.count=st'.inner.count+1
  addr : st'.inner.currentAddr.toNat=b
  laddrNext : st'.laddr.toNat=st.laddr.toNat+c.len.toNat
  psnNext : st'.psn=st.psn+UInt32.ofNat ((c.len.toNat+2^k-1)/2^k)

theorem Steady.step (hs : SegmentSize k seg) (hseg : seg≤2^16) (st : ChunkIter)
    (h : st.Steady k seg first stop) (hlt : st.inner.currentAddr.toNat < stop) :
    ∃ c st',Yields k first stop (cut k seg st.inner.currentAddr.toNat stop) st c st' ∧
      st'.Steady k seg first stop := by
  obtain ⟨f,inner,hf⟩ := h.fragment hs st hlt
  obtain ⟨hpos,hposFirst,hposOnly,hposLast⟩ := st.inner.next_pos f inner hf.next
  obtain ⟨c,hstep,hpsn,hladdr,hraddr,hlen,hfirst,hlast⟩ := st.next_chunk f inner hf.next
    h.plainFirst h.plainLast
  have hcount := h.left.mpr hlt
  have hgt := cut_gt hs.stride _ _ hlt
  have hle := cut_le_add k seg st.inner.currentAddr.toNat stop
  have hstop := cut_le_stop k seg st.inner.currentAddr.toNat stop
  generalize cut k seg st.inner.currentAddr.toNat stop=b at *
  have hflen := hf.len
  have hlocal := h.laddr
  have hlenNat : c.len.toNat=f.len.toNat := by
    rw [hlen,UInt64.toNat_toUInt32,Nat.mod_eq_of_lt (by omega)]
  have hladdrNext : (st.laddr+f.len).toNat=st.laddr.toNat+f.len.toNat := by
    rw [UInt64.toNat_add,Nat.mod_eq_of_lt (by omega)]
  have hpackets : (Word.divCeil f.len st.pmtu).toUInt32=
      UInt32.ofNat ((f.len.toNat+2^k-1)/2^k) := by
    rw [← UInt32.toNat_inj,UInt64.toNat_toUInt32,UInt32.toNat_ofNat',
      Word.divCeil_toNat _ _ (by rw [h.pmtu]; exact Nat.two_pow_pos k),h.pmtu]
  refine ⟨c,_,⟨hstep,hpsn,hraddr.trans hf.addr,hladdr,by rw [hlenNat,hflen],?_,?_,hf.count,
    hf.nextAddr,by rw [hlenNat]; exact hladdrNext,by rw [hlenNat,← hpackets]⟩,?_⟩
  · rw [hfirst,hpos,h.firstPos hcount,hraddr,hf.addr]
  · rw [hlast,hpos,h.lastPos hcount,hf.last]
  · have hstart := h.start
    have honly : 0 < inner.count → st.inner.currentPos≠.only := by
      intro hin honly
      have := (h.lastPos hcount).mp (Or.inr honly)
      have := hf.count
      omega
    have hnotLast : 0 < inner.count → st.inner.currentPos≠.last := by
      intro hin hpl
      have := (h.lastPos hcount).mp (Or.inl hpl)
      have := hf.count
      omega
    have hleft : 0 < inner.count ↔ b < stop := by
      have := hf.last
      have := hf.count
      omega
    refine ⟨hf.ready,h.pmtu,h.plainFirst,h.plainLast,?_,h.fits,?_,?_,?_,?_,?_,?_⟩ <;> dsimp only
    · rw [hf.endAddr,h.endAddr]
    · rw [hf.nextAddr]
      omega
    · rw [hf.nextAddr]
      exact hleft
    · rw [hf.nextAddr]
      exact hstop
    · rw [hf.nextAddr,hladdrNext]
      omega
    · intro hin
      rw [hf.nextAddr,hposOnly]
      refine iff_of_false ?_ (by omega)
      rintro (hp|hp)
      · exact hposFirst hp
      · exact honly hin hp
    · intro hin
      rw [hposLast,hposOnly]
      simp [honly hin,hnotLast hin]

/-- The iterator gets to the remote address `b` with the packets `ps`. -/
structure Reaches (k n b : Nat) (st : ChunkIter) (ps : List WrChunk) (st' : ChunkIter) :
    Prop where
  collect : st.collect n=ps++st'.collect (n-ps.length)
  count : st'.inner.count≤n-ps.length
  consecutive : Consecutive (2^k) st.psn st.inner.currentAddr.toNat st.laddr.toNat b ps
  addr : st'.inner.currentAddr.toNat=b
  laddr : st'.laddr.toNat=st.laddr.toNat+(b-st.inner.currentAddr.toNat)
  stay : st.inner.currentAddr.toNat=b → ps=[] ∧ st'.psn=st.psn
  psn : st.inner.currentAddr.toNat<b → ps≠[] ∧ st'.psn=st.psn+UInt32.ofNat ps.length
  length : b%2^k=0 → ps.length=b/2^k-st.inner.currentAddr.toNat/2^k

theorem Reaches.here (k n b : Nat) (st : ChunkIter) (hn : st.inner.count≤n)
    (h : st.inner.currentAddr.toNat=b) : Reaches k n b st [] st := by
  refine ⟨rfl,hn,h,h,?_,fun _ => ⟨rfl,rfl⟩,?_,?_⟩
  · rw [h,Nat.sub_self,Nat.add_zero]
  · intro hlt
    omega
  · intro hb
    rw [h,Nat.sub_self,List.length_nil]

theorem Reaches.cons (hs : SegmentSize k (2^k)) (n b b1 : Nat) (st st1 st' : ChunkIter)
    (c : WrChunk) (ps : List WrChunk) (hc : Yields k first stop b1 st c st1)
    (hgt : st.inner.currentAddr.toNat<b1) (hle : b1≤b)
    (hblock : b1≤2^k*(st.inner.currentAddr.toNat/2^k)+2^k)
    (hdiv : b%2^k=0 → b/2^k-st.inner.currentAddr.toNat/2^k=b/2^k-b1/2^k+1)
    (h : Reaches k n b st1 ps st') : Reaches k (n+1) b st (c::ps) st' := by
  have haddr := hc.addr
  have hlen := hc.len
  have hpos := hs.pos
  have hmod := Nat.div_add_mod st.inner.currentAddr.toNat (2^k)
  have hone : (c.len.toNat+2^k-1)/2^k=1 := by
    rw [Word.ceil_step _ _ hpos (by omega),Nat.sub_eq_zero_of_le (show c.len.toNat≤2^k by omega),
      Nat.div_eq_of_lt (show 0+2^k-1<2^k by omega)]
  have hpsn : st1.psn=st.psn+(1 : UInt32) := by
    have hnext := hc.psnNext
    rw [hone] at hnext
    exact hnext
  refine ⟨?_,?_,?_,h.addr,?_,fun hstay => by omega,?_,?_⟩
  · rw [ChunkIter.collect,hc.next]
    dsimp only
    rw [h.collect,List.length_cons,Nat.add_sub_add_right,List.cons_append]
  · rw [List.length_cons,Nat.add_sub_add_right]
    exact h.count
  · have hcons := h.consecutive
    rw [hpsn,haddr,hc.laddrNext] at hcons
    refine ⟨hc.psn,by rw [hc.raddr],by rw [hc.laddr],by omega,by omega,?_⟩
    rw [show st.inner.currentAddr.toNat+c.len.toNat=b1 by omega]
    exact hcons
  · rw [h.laddr,hc.laddrNext]
    omega
  · intro _
    refine ⟨List.cons_ne_nil _ _,?_⟩
    rcases (show st1.inner.currentAddr.toNat≤b by omega).eq_or_lt with heq|hlt
    · obtain ⟨hnil,hstay⟩ := h.stay heq
      rw [hstay,hpsn,hnil]
      rfl
    · rw [(h.psn hlt).2,hpsn,Psn.add_add,List.length_cons,Nat.add_comm,UInt32.ofNat_add]
      rfl
  · intro hb
    rw [List.length_cons,h.length hb,haddr,hdiv hb]

/-- Packets go on to the end of every chunk. -/
theorem Steady.reach (hs : SegmentSize k (2^k)) (hseg : 2^k≤2^16) (n : Nat) (st : ChunkIter)
    (h : st.Steady k (2^k) first stop) (hn : st.inner.count≤n) (b : Nat)
    (hb : st.inner.currentAddr.toNat≤b) (hbs : b ≤ stop) (hal : b=stop ∨ b%2^k=0) :
    ∃ ps st',Reaches k n b st ps st' ∧ st'.Steady k (2^k) first stop := by
  induction n generalizing st with
  | zero =>
      have hleft := h.left
      exact ⟨[],st,Reaches.here k 0 b st hn (by omega),h⟩
  | succ n ih =>
      rcases hb.eq_or_lt with hdone|hlt
      · exact ⟨[],st,Reaches.here k (n+1) b st hn hdone,h⟩
      · obtain ⟨c,st1,hc,h1⟩ := h.step hs hseg st (by omega)
        have hcount := hc.count
        have hgt := cut_gt hs.stride st.inner.currentAddr.toNat stop (by omega)
        have hle := packet_cut_le k st.inner.currentAddr.toNat b stop hlt hal
        obtain ⟨ps,st',hps,hst'⟩ := ih st1 h1 (by omega) (by rw [hc.addr]; exact hle)
        refine ⟨c::ps,st',Reaches.cons hs n b _ st st1 st' c ps hc hgt hle ?_ ?_ hps,hst'⟩
        · rw [packet_cut]
          exact min_le_left _ _
        · exact packet_cut_div k st.inner.currentAddr.toNat b stop hlt hbs

/-- Both iterators go through the same bytes: when the chunks are at an address, the packets
have been there with the same PSN and local address. -/
theorem tiled (hc : SegmentSize k seg) (hseg : seg≤2^16) (hp : SegmentSize k (2^k))
    (hpseg : 2^k≤2^16) (n n' : Nat) (st pt : ChunkIter) (h : st.Steady k seg first stop)
    (h' : pt.Steady k (2^k) first stop) (hn : st.inner.count≤n) (hn' : pt.inner.count≤n')
    (haddr : pt.inner.currentAddr.toNat=st.inner.currentAddr.toNat)
    (hladdr : pt.laddr.toNat=st.laddr.toNat)
    (hpsn : st.inner.currentAddr.toNat < stop → st.psn=pt.psn) :
    ∃ tiles,st.collect n=tiles.map Prod.fst ∧ pt.collect n'=tiles.flatMap Prod.snd ∧
      Tiled (2^k) pt.psn st.inner.currentAddr.toNat st.laddr.toNat stop tiles := by
  induction n generalizing n' st pt with
  | zero =>
      have hleft := h.left
      have hinside := h.inside
      have hdone : pt.inner.count=0 := by
        have := h'.left
        omega
      exact ⟨[],rfl,pt.collect_done n' hdone,by rw [Tiled]; omega⟩
  | succ n ih =>
      rcases h.inside.eq_or_lt with hdone|hlt
      · have hst : st.inner.count=0 := by
          have := h.left
          omega
        have hpt : pt.inner.count=0 := by
          have := h'.left
          omega
        exact ⟨[],st.collect_done _ hst,pt.collect_done n' hpt,hdone⟩
      · obtain ⟨c,st1,hstep,h1⟩ := h.step hc hseg st hlt
        have hcount := hstep.count
        have hgt := cut_gt hc.stride st.inner.currentAddr.toNat stop hlt
        have hle := cut_le_stop k seg st.inner.currentAddr.toNat stop
        have hal := cut_aligned k seg st.inner.currentAddr.toNat stop
        generalize cut k seg st.inner.currentAddr.toNat stop=b at *
        obtain ⟨ps,pt1,hps,h1'⟩ := h'.reach hp hpseg n' pt hn' b (by omega) hle hal
        obtain ⟨hne,hpsn1⟩ := hps.psn (by omega)
        have hlen := hstep.len
        have hsame : st1.inner.currentAddr.toNat < stop → st1.psn=pt1.psn := by
          intro hmore
          have hb := hal.resolve_left (by have := hstep.addr; omega)
          rw [hstep.psnNext,hpsn1,hpsn hlt,hps.length hb,haddr,hlen,
            chunk_packets k st.inner.currentAddr.toNat b hgt hb]
        obtain ⟨tiles,hchunks,hpackets,htiled⟩ := ih (n'-ps.length) st1 pt1 h1 h1' (by omega)
          hps.count (by rw [hps.addr,hstep.addr])
          (by rw [hps.laddr,hstep.laddrNext,hladdr,haddr,hlen]) hsame
        refine ⟨(c,ps)::tiles,?_,?_,?_⟩
        · rw [collect,hstep.next]
          dsimp only
          rw [hchunks,List.map_cons]
        · rw [hps.collect,hpackets,List.flatMap_cons]
        · have hcons := hps.consecutive
          have hnext : st.inner.currentAddr.toNat+c.len.toNat=b := by omega
          rw [haddr,hladdr] at hcons
          rw [hpsn1,hstep.addr,hstep.laddrNext] at htiled
          refine ⟨by rw [hstep.psn,hpsn hlt],by rw [hstep.raddr],by rw [hstep.laddr],hne,?_,?_⟩
          · rw [hnext]
            exact hcons
          · rw [hnext]
            exact htiled

theorem Steady.marked (hs : SegmentSize k seg) (hseg : seg≤2^16) (n : Nat) (st : ChunkIter)
    (h : st.Steady k seg first stop) : Marked first stop (st.collect n) := by
  induction n generalizing st with
  | zero => simp [collect,Marked]
  | succ n ih =>
      rcases h.inside.eq_or_lt with hdone|hlt
      · have hst : st.inner.count=0 := by
          have := h.left
          omega
        rw [st.collect_done _ hst]
        simp [Marked]
      · obtain ⟨c,st1,hstep,h1⟩ := h.step hs hseg st hlt
        have hgt := cut_gt hs.stride st.inner.currentAddr.toNat stop hlt
        intro d hd
        rw [collect,hstep.next] at hd
        rcases List.mem_cons.mp hd with rfl|hd
        · refine ⟨hstep.isFirst,?_⟩
          rw [hstep.isLast,hstep.len,hstep.raddr]
          omega
        · exact ih st1 h1 d hd

end Steps

/-- The iterator a fragmenter starts with. -/
theorem intoIter_steady (k : Nat) (f : ChunkFragmenter) (m : UInt16)
    (hm : convertIbvMtuToU16 f.qpParam.pmtu=some m) (hk : m.toUInt64.toNat=2^k)
    (hs : SegmentSize k f.chunkSize.toNat) (hseg : f.chunkSize.toNat≤2^16)
    (hpos : 0<f.wr.length.toNat) (hraddr : f.wr.raddr.toNat+f.wr.length.toNat+2^16<2^64)
    (hladdr : f.wr.laddr.toNat+f.wr.length.toNat<2^64) :
    ∃ st,f.intoIter=some st ∧ st.psn=f.basePsn ∧ st.inner.currentAddr=f.wr.raddr ∧
      st.laddr=f.wr.laddr ∧
      st.Steady k f.chunkSize.toNat f.wr.raddr.toNat (f.wr.raddr.toNat+f.wr.length.toNat) := by
  have hend : (f.wr.raddr+f.wr.length.toUInt64).toNat=f.wr.raddr.toNat+f.wr.length.toNat := by
    rw [UInt64.toNat_add,UInt32.toNat_toUInt64,Nat.mod_eq_of_lt (by omega)]
  have hcount := Fragmenter.numSegments_eq hs.stride
    (Fragmenter.new f.chunkSize m.toUInt64 f.wr.raddr f.wr.length.toUInt64) hk rfl
    (by change _<(f.wr.raddr+f.wr.length.toUInt64).toNat; rw [hend]; exact Nat.lt_add_of_pos_right hpos)
    (by change f.wr.raddr.toNat+_<_; omega)
  refine ⟨_,by simp only [ChunkFragmenter.intoIter,hm,Option.bind_eq_bind,Option.bind_some]; rfl,
    rfl,rfl,rfl,?_⟩
  have hone : 0<(Fragmenter.new f.chunkSize m.toUInt64 f.wr.raddr
      f.wr.length.toUInt64).numSegments := by rw [hcount]; exact Nat.succ_pos _
  refine ⟨⟨hk,rfl,fun _ => ?_,fun _ => Or.inl ⟨?_,hcount⟩⟩,hk,rfl,rfl,hend,by omega,le_rfl,
    iff_of_true hone ?_,?_,?_,?_,?_⟩
  all_goals dsimp only [Fragmenter.intoIter,Fragmenter.new]
  · rw [hend]
    omega
  · omega
  · omega
  · omega
  · omega
  · intro _
    split_ifs <;> simp
  · intro _
    split_ifs with h1 <;> simp [h1]

end ChunkIter

/-- The chunks of the first transmission are tiled by the packets of a retransmission, and both
mark the first and the last byte of the request. -/
theorem chunks_tiled_by_packets (wr : SendWrRdma) (qp : QpParams) (psn : Psn) (m : UInt16)
    (hm : convertIbvMtuToU16 qp.pmtu=some m) (hlength : 0<wr.length.toNat)
    (hraddr : wr.raddr.toNat+wr.length.toNat+2^16<2^64)
    (hladdr : wr.laddr.toNat+wr.length.toNat<2^64) :
    ∃ tiles : List (WrChunk × List WrChunk),
      wrChunkFragmenter wr qp psn=some (tiles.map Prod.fst) ∧
      wrPacketFragmenter wr qp psn=some (tiles.flatMap Prod.snd) ∧
      Tiled m.toNat psn wr.raddr.toNat wr.laddr.toNat (wr.raddr.toNat+wr.length.toNat) tiles ∧
      Marked wr.raddr.toNat (wr.raddr.toNat+wr.length.toNat) (tiles.map Prod.fst) ∧
      Marked wr.raddr.toNat (wr.raddr.toNat+wr.length.toNat) (tiles.flatMap Prod.snd) := by
  obtain ⟨k,hm64,hp,hle⟩ := packet_segmentSize qp.pmtu m hm
  have hmk : m.toNat=2^k := by rw [← UInt16.toNat_toUInt64,hm64]
  have hpseg : 2^k≤2^16 := by omega
  have hc : SegmentSize k wrChunkSize.toNat := by
    obtain ⟨j,-,hj,hmj⟩ := convertIbvMtuToU16_pow qp.pmtu m hm
    have hjk : j=k := Nat.pow_right_injective (le_refl 2) (hmj.symm.trans hmk)
    refine ⟨hp.exp,by decide,?_,by decide⟩
    exact Nat.mod_eq_zero_of_dvd (Nat.pow_dvd_pow 2 (show k≤16 by omega))
  obtain ⟨st,hst,hpsn,haddr,hla,hsteady⟩ := ChunkIter.intoIter_steady k
    ⟨wr,qp,psn,wrChunkSize,false⟩ m hm hm64 hc (show wrChunkSize.toNat≤2^16 by decide) hlength
    hraddr hladdr
  obtain ⟨pt,hpt,hpsn',haddr',hla',hsteady'⟩ := ChunkIter.intoIter_steady k
    ⟨wr,qp,psn,m.toUInt64,true⟩ m hm hm64 (by rw [hm64]; exact hp) (by rw [hm64]; exact hpseg)
    hlength hraddr hladdr
  dsimp only at hpsn haddr hla hsteady hpsn' haddr' hla' hsteady'
  rw [hm64] at hsteady'
  obtain ⟨tiles,hchunks,hpackets,htiled⟩ := ChunkIter.tiled hc (by decide) hp hpseg
    (st.inner.count+1) (pt.inner.count+1) st pt hsteady hsteady' (Nat.le_succ _) (Nat.le_succ _)
    (by rw [haddr,haddr']) (by rw [hla,hla']) (fun _ => by rw [hpsn,hpsn'])
  refine ⟨tiles,?_,?_,?_,?_,?_⟩
  · rw [wrChunkFragmenter,hst,Option.map_some,← hchunks]
    rfl
  · rw [wrPacketFragmenter,hm,Option.bind_eq_bind,Option.bind_some,hpt,Option.map_some,← hpackets]
    rfl
  · rw [hmk,← haddr,← hla,← hpsn']
    rw [← haddr] at htiled
    exact htiled
  · rw [← hchunks]
    exact hsteady.marked hc (by decide) _ st
  · rw [← hpackets]
    exact hsteady'.marked hp hpseg _ pt

/-- A write over a chunk boundary that starts off the packet grid. -/
theorem chunks_tiled_by_packets_two :
    (wrChunkFragmenter (shortWrite 100 70000) (QpParams.ofAttr 0 shortPathQp) ⟨7⟩).map
      (List.map (fun c => (c.psn.toNat,c.raddr,c.len)))=some [(7,100,65436),(263,65536,4564)] ∧
    ∃ tiles : List (WrChunk × List WrChunk),
      wrPacketFragmenter (shortWrite 100 70000) (QpParams.ofAttr 0 shortPathQp) ⟨7⟩=
        some (tiles.flatMap Prod.snd) ∧
      Tiled 256 ⟨7⟩ 100 0x1000 70100 tiles := by
  obtain ⟨tiles,-,hpackets,htiled,-⟩ := chunks_tiled_by_packets (shortWrite 100 70000)
    (QpParams.ofAttr 0 shortPathQp) ⟨7⟩ 256 (by decide) (by decide) (by decide) (by decide)
  exact ⟨by decide +kernel,tiles,hpackets,htiled⟩

end BlueRdma

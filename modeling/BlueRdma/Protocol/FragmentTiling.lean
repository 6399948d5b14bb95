import BlueRdma.Math.Segments
import BlueRdma.Protocol.ChunkTiling

namespace BlueRdma
namespace FragmentIter

/-- Runs the iterator until it yields nothing, for at most the given number of steps. -/
def collect : Nat → FragmentIter → List Fragment
  | 0,_ => []
  | n+1,st => match st.next with
    | none => []
    | some (f,st') => f::collect n st'

/-- All fragments; one step more than there are fragments left finds the end. -/
def toList (st : FragmentIter) : List Fragment := st.collect (st.count+1)

/-- `ExactSizeIterator::len`. -/
def len (st : FragmentIter) : Nat := st.totalSegments

end FragmentIter

/-- The positions of the fragments of a whole range. -/
def positions : Nat → List ChunkPos
  | 0 => []
  | 1 => [.only]
  | n+2 => .first::(List.replicate n .middle++[.last])

/-- The positions of `n` fragments that are left when the next one has position `pos`. -/
def positionsFrom (pos : ChunkPos) : Nat → List ChunkPos
  | 0 => []
  | 1 => [pos]
  | n+2 => pos::(List.replicate n .middle++[.last])

theorem positionsFrom_start (n : Nat) :
    positionsFrom (if n=1 then .only else .first) n=positions n := by
  rcases n with _|_|n
  · rfl
  · rfl
  · rw [if_neg (by omega)]
    rfl

section Partition
variable {k seg stop : Nat} {P : Nat → Prop}

/-- Fragments left from an address on. -/
def pieces (k seg a stop : Nat) : Nat :=
  if a < stop then (stop-2^k*((a+seg)/2^k)+seg-1)/seg+1 else 0

/-- One fragment less is left behind the next cut. -/
theorem pieces_cut (h : Stride k seg) (a : Nat) (ha : a < stop) :
    pieces k seg a stop=pieces k seg (cut k seg a stop) stop+1 := by
  rw [pieces,if_pos ha,cut]
  generalize hb : 2^k*((a+seg)/2^k)=b
  have hpos := h.pos
  rcases Nat.lt_or_ge b stop with hlt|hge
  · have hbal : b%2^k=0 := by rw [← hb]; exact Nat.mul_mod_right _ _
    rw [min_eq_left hlt.le,pieces,if_pos hlt,boundary_aligned h b hbal,
      Word.ceil_step (stop-b) seg hpos (by omega),Nat.sub_sub]
  · rw [min_eq_right hge,pieces,if_neg (lt_irrefl _),Nat.sub_eq_zero_of_le hge,
      Nat.div_eq_of_lt (by omega)]

theorem pieces_pos (k seg a stop : Nat) : 0 < pieces k seg a stop ↔ a < stop := by
  rw [pieces]
  split_ifs with h
  · simp [h]
  · simp [h]

/-- Addresses from which segments can be cut one after the other without an overflow. -/
structure Roomy (k seg stop : Nat) (P : Nat → Prop) : Prop where
  fits : ∀ a,P a → a < stop → a+seg<2^64
  next : ∀ a,P a → a < stop → P (cut k seg a stop)

theorem roomy_of_margin (k seg stop : Nat) (h : stop+seg<2^64) :
    Roomy k seg stop (fun _ => True) :=
  ⟨fun a _ ha => by omega,fun _ _ _ => trivial⟩

namespace FragmentIter

/-- The position fits the number of fragments left. -/
def Placed (st : FragmentIter) : Prop :=
  (st.count=1 → st.currentPos=.only ∨ st.currentPos=.last) ∧
  (2 ≤ st.count → st.currentPos=.first ∨ st.currentPos=.middle)

/-- An iterator inside a range, at an address of the given kind. -/
structure Inside (k seg stop : Nat) (P : Nat → Prop) (st : FragmentIter) : Prop where
  align : st.align.toNat=2^k
  size : st.segmentSize.toNat=seg
  endAddr : st.endAddr.toNat=stop
  safe : P st.currentAddr.toNat
  count : st.count=pieces k seg st.currentAddr.toNat stop
  le : st.currentAddr.toNat ≤ stop
  placed : st.Placed

/-- One step: a fragment up to the next cut. -/
structure Step (k seg stop : Nat) (P : Nat → Prop) (st : FragmentIter) (f : Fragment)
    (st' : FragmentIter) : Prop where
  next : st.next=some (f,st')
  inside : st'.Inside k seg stop P
  count : st.count=st'.count+1
  addr : f.addr.toNat=st.currentAddr.toNat
  stop : st'.currentAddr.toNat=f.addr.toNat+f.len.toNat
  size : 0<f.len.toNat ∧ f.len.toNat ≤ seg
  aligned : 0 < st'.count → st'.currentAddr.toNat%2^k=0
  pos : positionsFrom st.currentPos st.count=f.pos::positionsFrom st'.currentPos st'.count

/-- The position after a step is the one the count asks for. -/
theorem next_placed (st : FragmentIter) (f : Fragment) (st' : FragmentIter)
    (h : st.next=some (f,st')) (hc : st.count=st'.count+1) (hp : st.Placed) :
    st'.Placed ∧ positionsFrom st.currentPos st.count=
      f.pos::positionsFrom st'.currentPos st'.count := by
  obtain ⟨hf,hfirst,honly,hlast⟩ := st.next_pos f st' h
  rw [hf,hc]
  rcases hn : st'.count with _|_|n
  · exact ⟨⟨by omega,by omega⟩,rfl⟩
  · have hne : st.currentPos≠.only := by
      rcases hp.2 (by omega) with h|h <;> simp [h]
    have hl : st'.currentPos=.last := hlast.mpr ⟨hne,Or.inl hn⟩
    refine ⟨⟨fun _ => Or.inr hl,by omega⟩,?_⟩
    rw [hl]
    rfl
  · have hne : st.currentPos≠.only ∧ st.currentPos≠.last := by
      rcases hp.2 (by omega) with h|h <;> simp [h]
    have hm : st'.currentPos=.middle := by
      have h1 : st'.currentPos≠.only := fun h => hne.1 (honly.mp h)
      have h2 : st'.currentPos≠.last := by
        intro h
        rcases (hlast.mp h).2 with h|h
        · omega
        · exact hne.2 h
      cases hq : st'.currentPos <;> simp_all
    refine ⟨⟨by omega,fun _ => Or.inr hm⟩,?_⟩
    rw [hm]
    rfl

theorem Inside.step (h : Stride k seg) (hroom : Roomy k seg stop P) (st : FragmentIter)
    (hi : st.Inside k seg stop P) (hpos : 0 < st.count) :
    ∃ f st',Step k seg stop P st f st' := by
  have hlt : st.currentAddr.toNat < stop := by
    rw [hi.count,pieces_pos] at hpos
    exact hpos
  have hlen := segment_len h st.currentAddr _ _ st.endAddr hi.align hi.size
    (by rw [hi.endAddr]; exact hlt) (hroom.fits _ hi.safe hlt)
  rw [hi.endAddr] at hlen
  change _=cut k seg st.currentAddr.toNat stop-_ at hlen
  have hgt := cut_gt h st.currentAddr.toNat stop hlt
  have hle := cut_le_stop k seg st.currentAddr.toNat stop
  have hadd := cut_le_add k seg st.currentAddr.toNat stop
  have hcount := pieces_cut h st.currentAddr.toNat hlt
  rw [← hi.count] at hcount
  obtain ⟨pos,hnext⟩ := st.next_eq hpos
  generalize segmentEnd st.currentAddr st.segmentSize st.align st.endAddr-st.currentAddr=len
    at hlen hnext
  have hcur : (st.currentAddr+len).toNat=cut k seg st.currentAddr.toNat stop := by
    have hstop := st.endAddr.toNat_lt
    rw [hi.endAddr] at hstop
    rw [UInt64.toNat_add,hlen]
    omega
  have hplaced := next_placed st _ _ hnext (by dsimp only; omega) hi.placed
  refine ⟨_,_,⟨hnext,⟨hi.align,hi.size,hi.endAddr,?_,?_,?_,hplaced.1⟩,?_,rfl,?_,?_,?_,
    hplaced.2⟩⟩
  · dsimp only
    rw [hcur]
    exact hroom.next _ hi.safe hlt
  · dsimp only
    rw [hcur]
    omega
  · dsimp only
    rw [hcur]
    exact hle
  · dsimp only
    omega
  · dsimp only
    rw [hcur]
    omega
  · dsimp only
    omega
  · dsimp only
    intro hc
    rw [hcur]
    rcases cut_aligned k seg st.currentAddr.toNat stop with he|he
    · have := (pieces_pos k seg (cut k seg st.currentAddr.toNat stop) stop).mp (by omega)
      omega
    · exact he

/-- The range and the length of a fragment. -/
def span (f : Fragment) : Nat × Nat := (f.addr.toNat,f.len.toNat)

/-- The fragments of what is left of the range. -/
structure Parts (k seg a stop : Nat) (fs : List Fragment) : Prop where
  sized : ∀ f∈fs,0<f.len.toNat ∧ f.len.toNat ≤ seg
  tiles : Segments.Tiles a (fs.map span) stop
  aligned : ∀ f∈fs.tail,f.addr.toNat%2^k=0

/-- Whatever is left of the range is cut into pieces, by induction on the steps allowed. -/
theorem Inside.collect (h : Stride k seg) (hroom : Roomy k seg stop P) (n : Nat)
    (st : FragmentIter) (hi : st.Inside k seg stop P) (hn : st.count < n) :
    Parts k seg st.currentAddr.toNat stop (st.collect n) ∧
    (st.collect n).length=st.count ∧
    (st.collect n).map Fragment.pos=positionsFrom st.currentPos st.count := by
  induction n generalizing st with
  | zero => omega
  | succ n ih =>
      rcases Nat.eq_zero_or_pos st.count with hz|hpos
      · have hend : st.currentAddr.toNat=stop := by
          have hle := hi.le
          have hnot := mt (pieces_pos k seg st.currentAddr.toNat stop).mpr
            (by rw [← hi.count]; omega)
          omega
        have hnil : st.collect (n+1)=[] := by simp [FragmentIter.collect,next,hz]
        rw [hnil,hz]
        exact ⟨⟨by simp,hend,by simp⟩,rfl,rfl⟩
      · obtain ⟨f,st',hs⟩ := hi.step h hroom st hpos
        obtain ⟨⟨hsized,htiles,haligned⟩,hlen,hmap⟩ := ih st' hs.inside (by have := hs.count; omega)
        have hcons : st.collect (n+1)=f::st'.collect n := by simp [FragmentIter.collect,hs.next]
        rw [hcons]
        refine ⟨⟨?_,?_,?_⟩,?_,?_⟩
        · intro g hg
          rcases List.mem_cons.mp hg with rfl|hg
          · exact hs.size
          · exact hsized g hg
        · refine ⟨hs.addr,?_⟩
          change Segments.Tiles (_+f.len.toNat) _ _
          rw [← hs.addr,← hs.stop]
          exact htiles
        · intro g hg
          rw [List.tail_cons] at hg
          have hc : 0 < st'.count := by
            rw [← hlen]
            exact List.length_pos_of_mem hg
          rcases hrest : st'.collect n with _|⟨g',gs⟩
          · rw [hrest] at hg
            simp at hg
          · rw [hrest] at hg htiles haligned
            rcases List.mem_cons.mp hg with rfl|hg
            · have hstart : g.addr.toNat=st'.currentAddr.toNat := htiles.1
              rw [hstart]
              exact hs.aligned hc
            · exact haligned g hg
        · rw [List.length_cons,hlen,hs.count]
        · rw [List.map_cons,hmap,hs.pos]

end FragmentIter

theorem Fragmenter.intoIter_inside (h : Stride k seg) (f : Fragmenter) (hal : f.align.toNat=2^k)
    (hsz : f.segmentSize.toNat=seg) (hlt : f.baseAddr.toNat < f.endAddr.toNat)
    (hfit : f.baseAddr.toNat+seg<2^64) (hp : P f.baseAddr.toNat) :
    f.intoIter.Inside k seg f.endAddr.toNat P := by
  refine ⟨hal,hsz,rfl,hp,?_,hlt.le,?_⟩
  · change f.numSegments=pieces k seg f.baseAddr.toNat f.endAddr.toNat
    rw [f.numSegments_eq h hal hsz hlt hfit,pieces,if_pos hlt]
  · refine ⟨?_,?_⟩
    · intro hc
      exact Or.inl (if_pos hc)
    · intro hc
      have hne : f.numSegments≠1 := by
        intro he
        change 2 ≤ f.numSegments at hc
        omega
      exact Or.inl (if_neg hne)

end Partition

/-- A fragmenter cuts its range into as many fragments as its length formula says, at multiples
of the alignment and in order. -/
theorem fragmenter_partitions (segmentSize align baseAddr length : UInt64)
    (hal : ∃ k,align.toNat=2^k) (hpos : 0 < segmentSize.toNat)
    (hmul : align.toNat∣segmentSize.toNat) (hlen : 1 ≤ length.toNat)
    (hfit : baseAddr.toNat+length.toNat+segmentSize.toNat<2^64) :
    let st := (Fragmenter.new segmentSize align baseAddr length).intoIter
    st.toList.length=st.len ∧
    (∀ f∈st.toList,0<f.len.toNat ∧ f.len.toNat ≤ segmentSize.toNat) ∧
    Segments.Tiles baseAddr.toNat (st.toList.map (fun f => (f.addr.toNat,f.len.toNat)))
      (baseAddr.toNat+length.toNat) ∧
    (∀ f∈st.toList.tail,align.toNat∣f.addr.toNat) ∧
    st.toList.map Fragment.pos=positions st.len := by
  obtain ⟨k,hk⟩ := hal
  have hk64 : k<64 := by
    have := align.toNat_lt
    rw [hk] at this
    exact (Nat.pow_lt_pow_iff_right (by decide)).mp this
  have hs : Stride k segmentSize.toNat := ⟨hk64,hpos,Nat.mod_eq_zero_of_dvd (hk ▸ hmul)⟩
  have hend : (Fragmenter.new segmentSize align baseAddr length).endAddr.toNat=
      baseAddr.toNat+length.toNat := by
    change (baseAddr+length).toNat=_
    rw [UInt64.toNat_add]
    omega
  have hroom := roomy_of_margin k segmentSize.toNat _ hfit
  have hi := Fragmenter.intoIter_inside (P := fun _ => True) hs
    (Fragmenter.new segmentSize align baseAddr length) hk rfl
    (by rw [hend]; change baseAddr.toNat<_; omega) (by change baseAddr.toNat+_<_; omega) trivial
  rw [hend] at hi
  intro st
  obtain ⟨⟨hsized,htiles,haligned⟩,hlength,hpositions⟩ := hi.collect hs hroom (st.count+1) st
    (by omega)
  refine ⟨hlength,hsized,htiles,?_,?_⟩
  · intro f hf
    rw [hk]
    exact Nat.dvd_of_mod_eq_zero (haligned f hf)
  · exact hpositions.trans (positionsFrom_start _)

/-- 8000 bytes from address 100 on in segments of 4096 bytes. -/
theorem fragmenter_partitions_page :
    let st := (Fragmenter.new 4096 1024 100 8000).intoIter
    st.toList.length=st.len ∧
    (∀ f∈st.toList,0<f.len.toNat ∧ f.len.toNat≤4096) ∧
    Segments.Tiles 100 (st.toList.map (fun f => (f.addr.toNat,f.len.toNat))) 8100 ∧
    (∀ f∈st.toList.tail,1024∣f.addr.toNat) ∧
    st.toList.map Fragment.pos=positions st.len :=
  fragmenter_partitions 4096 1024 100 8000 ⟨10,rfl⟩ (by decide) (by decide) (by decide) (by decide)

end BlueRdma

import BlueRdma.Math.Segments
import BlueRdma.Mem.VirtToPhy

namespace BlueRdma

def PgtEntry.segment (e : PgtEntry) : Nat × Nat := (e.index.toNat,e.count.toNat)

def PgtUpdate.segment (x : PgtUpdate) : Nat × Nat :=
  (x.pgtOffset.toNat,x.zeroBasedEntryCount.toNat+1)

/-- The device copies the entries of an update from the buffer before it answers. -/
def updatePgtTable (t : Nat → Option UInt64) : CmdQueueDesc → Nat → Option UInt64
  | .updatePgt x buf => fun i =>
    if x.segment.1 ≤ i ∧ i<x.segment.1+x.segment.2 then buf[i-x.segment.1]? else t i
  | .updateMrTable _ | .manageQp _ => t

/-- The device's second stage table. -/
def devicePgt (cmds : List CmdQueueDesc) : Nat → Option UInt64 :=
  cmds.foldl updatePgtTable (fun _ => none)

/-- The numbers of the pages that a region meets. -/
def regionPages (p : PageSize) (addr length : UInt64) : Finset Nat :=
  (Finset.Ico addr.toNat (addr.toNat+length.toNat)).image (fun a => a/p.bytes.toNat)

/-- The page-table range of a region and the updates that fill it. Every page of the region gets
the physical address that the resolver has for it. -/
structure Translates (p : PageSize) (r : AddressResolver p) (addr length : UInt64)
    (entry : PgtEntry) (updates : List (PgtUpdate × List UInt64))
    (table : Nat → Option UInt64) : Prop where
  count : entry.count.toNat=(regionPages p addr length).card
  sizes : ∀ u∈updates,1≤u.2.length ∧ u.2.length≤16 ∧ u.1.zeroBasedEntryCount.toNat+1=u.2.length
  partition : updates.flatMap (fun u => List.range' u.1.segment.1 u.1.segment.2)=
    List.range' entry.index.toNat entry.count.toNat
  entries : ∀ k<entry.count.toNat,∃ phys pa,r.virtToPhysRange addr entry.count.toNat=.ok phys ∧
    phys[k]?=some (some pa) ∧ r.virtToPhys (addr+UInt64.ofNat k*p.bytes)=.ok (some pa) ∧
    table (entry.index.toNat+k)=some pa
  page : ∀ k<entry.count.toNat,(addr+UInt64.ofNat k*p.bytes).toNat/p.bytes.toNat=
    addr.toNat/p.bytes.toNat+k
  complete : ∀ a,addr.toNat≤a → a<addr.toNat+length.toNat →
    ∃ k<entry.count.toNat,a/p.bytes.toNat=addr.toNat/p.bytes.toNat+k

section Pages
variable (p : PageSize) (addr length : UInt64)

theorem getNumPage_eq (hend : addr.toNat+length.toNat<2^63) (hlen : 0<length.toNat) :
    getNumPage p addr length=
      (addr.toNat+length.toNat-1)/p.bytes.toNat-addr.toNat/p.bytes.toNat+1 := by
  have hne : length≠0 := by
    rintro rfl
    exact absurd hlen (by decide)
  have hlast : (Word.saturatingSub (Word.saturatingAdd addr length) 1).toNat=
      addr.toNat+length.toNat-1 := by
    rw [Word.saturatingSub_toNat,Word.saturatingAdd_toNat _ _ (by omega)]
    rfl
  rw [getNumPage,if_neg hne]
  dsimp only
  rw [UInt64.toNat_add,Word.saturatingSub_toNat,UInt64.toNat_div,UInt64.toNat_div,hlast,
    UInt64.toNat_one]
  apply Nat.mod_eq_of_lt
  have hdiv := Nat.div_le_self (addr.toNat+length.toNat-1) p.bytes.toNat
  generalize addr.toNat/p.bytes.toNat=q,(addr.toNat+length.toNat-1)/p.bytes.toNat=q' at hdiv ⊢
  omega

theorem regionPages_eq (hlen : 0<length.toNat) : regionPages p addr length=
    Finset.Icc (addr.toNat/p.bytes.toNat) ((addr.toNat+length.toNat-1)/p.bytes.toNat) := by
  have hpos := p.bytes_pos
  ext q
  simp only [regionPages,Finset.mem_image,Finset.mem_Ico,Finset.mem_Icc]
  constructor
  · rintro ⟨a,⟨hlo,hhi⟩,rfl⟩
    exact ⟨Nat.div_le_div_right hlo,Nat.div_le_div_right (by omega)⟩
  · rintro ⟨hlo,hhi⟩
    rw [Nat.le_div_iff_mul_le hpos] at hhi
    rcases Nat.eq_or_lt_of_le hlo with heq|hlt
    · exact ⟨addr.toNat,by omega,heq⟩
    -- the start of a later page lies in the region
    · rw [Nat.div_lt_iff_lt_mul hpos] at hlt
      exact ⟨q*p.bytes.toNat,by omega,Nat.mul_div_cancel q hpos⟩

theorem getNumPage_eq_card (hend : addr.toNat+length.toNat<2^63) (hlen : 0<length.toNat) :
    getNumPage p addr length=(regionPages p addr length).card := by
  have hle : addr.toNat/p.bytes.toNat≤(addr.toNat+length.toNat-1)/p.bytes.toNat :=
    Nat.div_le_div_right (by omega)
  rw [getNumPage_eq p addr length hend hlen,regionPages_eq p addr length hlen,Nat.card_Icc]
  omega

/-- The address at which a page of a region is resolved is less than a page behind its end. -/
theorem page_addr_lt_end (hend : addr.toNat+length.toNat<2^63) (hlen : 0<length.toNat) (k : Nat)
    (hk : k<getNumPage p addr length) :
    addr.toNat+k*p.bytes.toNat<addr.toNat+length.toNat+p.bytes.toNat := by
  have hpos := p.bytes_pos
  rw [getNumPage_eq p addr length hend hlen] at hk
  have hle : addr.toNat/p.bytes.toNat≤(addr.toNat+length.toNat-1)/p.bytes.toNat :=
    Nat.div_le_div_right (by omega)
  have hq : addr.toNat/p.bytes.toNat+k≤(addr.toNat+length.toNat-1)/p.bytes.toNat := by omega
  rw [Nat.le_div_iff_mul_le hpos,Nat.add_mul] at hq
  have hmod := Nat.div_add_mod' addr.toNat p.bytes.toNat
  have hlt := Nat.mod_lt addr.toNat hpos
  omega

/-- The addresses at which the pages of a region are resolved do not overflow. -/
theorem page_addr_lt (hend : addr.toNat+length.toNat<2^63) (hlen : 0<length.toNat) (k : Nat)
    (hk : k<getNumPage p addr length) :
    addr.toNat+k*p.bytes.toNat<2^64 := by
  have hsize : p.bytes.toNat≤2^21 := by cases p <;> decide
  have hlt := page_addr_lt_end p addr length hend hlen k hk
  omega

end Pages

theorem chunks_segments (entry : PgtEntry) (h : entry.index.toNat+entry.count.toNat≤pgtLen) :
    (chunks entry).map PgtEntry.segment=
      Segments.stride entry.index.toNat entry.count.toNat maxNumPgtEntryPerAlloc := by
  have hlen : pgtLen=2^17 := rfl
  have hmax : maxNumPgtEntryPerAlloc=16 := rfl
  rw [chunks,List.map_map,Segments.stride]
  apply List.map_congr_left
  intro k hk
  rw [List.mem_range,hmax] at hk
  simp only [Function.comp,PgtEntry.segment,Prod.mk.injEq,hmax]
  constructor
  · rw [UInt32.toNat_add,UInt32.toNat_ofNat_of_lt' (show k*16<2^32 by omega)]
    exact Nat.mod_eq_of_lt (by omega)
  · exact UInt32.toNat_ofNat_of_lt' (show min 16 (entry.count.toNat-k*16)<2^32 by omega)

/-- An update with as many addresses as it announces. -/
def WellSized (u : PgtUpdate × List UInt64) : Prop :=
  1≤u.2.length ∧ u.2.length≤16 ∧ u.1.zeroBasedEntryCount.toNat+1=u.2.length

theorem updatePgtTable_eq (t : Nat → Option UInt64) (u : PgtUpdate × List UInt64)
    (h : WellSized u) :
    updatePgtTable t (.updatePgt u.1 u.2)=Segments.write t u.1.segment.1 u.2 := by
  funext i
  rw [updatePgtTable,Segments.write,PgtUpdate.segment,h.2.2]

/-- The updates of consecutive chunks carry the addresses segment by segment. -/
theorem pgtUpdates_spec (dmaAddr : UInt64) (es : List PgtEntry) (phys : List UInt64)
    (lo hi : Nat) (htiles : Segments.Tiles lo (es.map PgtEntry.segment) hi)
    (hsize : ∀ e∈es,0 < e.count.toNat ∧ e.count.toNat≤16) (hlen : phys.length=hi-lo) :
    ∃ us : List (PgtUpdate × List UInt64),
      pgtUpdates dmaAddr es phys=us.map (fun u => .updatePgt u.1 u.2) ∧ (∀ u∈us,WellSized u) ∧
      us.map (fun u => u.1.segment)=es.map PgtEntry.segment ∧
      ∀ t,(pgtUpdates dmaAddr es phys).foldl updatePgtTable t=
        Segments.writeAll t (es.map PgtEntry.segment) phys := by
  induction es generalizing phys lo with
  | nil => exact ⟨[],rfl,by simp,rfl,fun _ => rfl⟩
  | cons e es ih =>
      obtain ⟨hpos,hmax⟩ := hsize e (by simp)
      have hle := htiles.2.le
      have hcount : e.segment.2=e.count.toNat := rfl
      obtain ⟨us,heq,hall,hseg,hfold⟩ := ih (phys.drop e.count.toNat) _ htiles.2
        (fun e he => hsize e (by simp [he])) (by rw [List.length_drop]; omega)
      have hzero : (e.count-1).toNat+1=e.count.toNat := by
        rw [UInt32.toNat_sub_of_le e.count 1 (UInt32.le_iff_toNat_le.mpr hpos)]
        exact Nat.sub_add_cancel hpos
      have htake : (phys.take e.count.toNat).length=e.count.toNat := by
        rw [List.length_take]
        omega
      have hcar : WellSized (⟨dmaAddr,e.index,e.count-1⟩,phys.take e.count.toNat) := by
        rw [WellSized,htake]
        exact ⟨hpos,hmax,hzero⟩
      refine ⟨(⟨dmaAddr,e.index,e.count-1⟩,phys.take e.count.toNat)::us,?_,?_,?_,?_⟩
      · rw [pgtUpdates,heq]
        rfl
      · intro u hu
        rcases List.mem_cons.mp hu with rfl|hu
        · exact hcar
        · exact hall u hu
      · rw [List.map_cons,List.map_cons,hseg]
        congr 1
        rw [PgtUpdate.segment,hzero]
        rfl
      · intro t
        have hone := updatePgtTable_eq t _ hcar
        rw [pgtUpdates,List.foldl_cons,hone,hfold]
        rfl

/-- All updates of a region together write the addresses of its pages as one run of the table. -/
theorem chunks_updates (dmaAddr : UInt64) (entry : PgtEntry) (phys : List UInt64)
    (hin : entry.index.toNat+entry.count.toNat≤pgtLen) (hlen : phys.length=entry.count.toNat) :
    ∃ us : List (PgtUpdate × List UInt64),
      pgtUpdates dmaAddr (chunks entry) phys=us.map (fun u => .updatePgt u.1 u.2) ∧
      (∀ u∈us,WellSized u) ∧
      us.flatMap (fun u => List.range' u.1.segment.1 u.1.segment.2)=
        List.range' entry.index.toNat entry.count.toNat ∧
      ∀ t,(pgtUpdates dmaAddr (chunks entry) phys).foldl updatePgtTable t=
        Segments.write t entry.index.toNat phys := by
  have hseg := chunks_segments entry hin
  have htiles : Segments.Tiles entry.index.toNat ((chunks entry).map PgtEntry.segment)
      (entry.index.toNat+entry.count.toNat) := by
    rw [hseg]
    exact Segments.stride_tiles _ _ _ (by decide)
  have hsize : ∀ e∈chunks entry,0 < e.count.toNat ∧ e.count.toNat≤16 := by
    intro e he
    have hmem := List.mem_map_of_mem (f := PgtEntry.segment) he
    rw [hseg] at hmem
    exact Segments.stride_size _ _ _ (by decide) _ hmem
  obtain ⟨us,heq,hall,hus,hfold⟩ := pgtUpdates_spec dmaAddr (chunks entry) phys _ _ htiles hsize
    (by omega)
  refine ⟨us,heq,hall,?_,?_⟩
  · have hplaces := htiles.places
    rw [← hus,List.flatMap_map,Nat.add_sub_cancel_left] at hplaces
    exact hplaces
  · intro t
    rw [hfold,htiles.writeAll_eq _ _ _ _ _ (by omega)]

/-- A table that holds what the range method of the resolver gave translates the whole region. -/
theorem translates_of_table (p : PageSize) (r : AddressResolver p) (addr length : UInt64)
    (entry : PgtEntry) (updates : List (PgtUpdate × List UInt64)) (table : Nat → Option UInt64)
    (phys : List UInt64) (hend : addr.toNat+length.toNat<2^63) (hpos : 0<length.toNat)
    (hcount : entry.count.toNat=getNumPage p addr length)
    (hrange : r.virtToPhysRange addr (getNumPage p addr length)=.ok (phys.map some))
    (hsizes : ∀ u∈updates,WellSized u)
    (hparts : updates.flatMap (fun u => List.range' u.1.segment.1 u.1.segment.2)=
      List.range' entry.index.toNat entry.count.toNat)
    (htable : ∀ k<entry.count.toNat,table (entry.index.toNat+k)=phys[k]?) :
    Translates p r addr length entry updates table := by
  have hphys : phys.length=entry.count.toNat := (r.found_length _ _ _ hrange).trans hcount.symm
  have haddr : ∀ k<entry.count.toNat,addr.toNat+k*p.bytes.toNat<2^64 := by
    intro k hk
    exact page_addr_lt p addr length hend hpos k (by omega)
  refine ⟨hcount.trans (getNumPage_eq_card p addr length hend hpos),hsizes,hparts,?_,?_,?_⟩
  · intro k hk
    have hget : phys[k]?=some phys[k] := List.getElem?_eq_getElem (by omega)
    have hsome : (phys.map some)[k]?=some (some phys[k]) := by
      rw [List.getElem?_map,hget]
      rfl
    refine ⟨phys.map some,phys[k],?_,hsome,r.range_sound _ _ _ k _ hrange (haddr k hk) hsome,?_⟩
    · rw [hcount]
      exact hrange
    · rw [htable k hk,hget]
  · intro k hk
    rw [page_addr_toNat p addr k (haddr k hk),Nat.add_mul_div_right _ _ p.bytes_pos]
  · intro a hlo hhi
    rw [hcount,getNumPage_eq p addr length hend hpos]
    have hfirst : addr.toNat/p.bytes.toNat≤a/p.bytes.toNat := Nat.div_le_div_right hlo
    have hlast : a/p.bytes.toNat≤(addr.toNat+length.toNat-1)/p.bytes.toNat :=
      Nat.div_le_div_right (by omega)
    exact ⟨a/p.bytes.toNat-addr.toNat/p.bytes.toNat,by omega,by omega⟩

/-- A registration that succeeds has given the device a translation for every page of the
region. -/
theorem regMr_translates (b : BuildConfig) (s : MrCtx) (addr length : UInt64) (pdHandle : UInt32)
    (access : UInt8) (pinned : Except IoError Unit) (r : AddressResolver b.pageSize) (key : UInt8)
    (mrKey : UInt32) (hend : addr.toNat+length.toNat<2^63)
    (hok : (s.regMr b addr length pdHandle access
      ⟨pinned,r.virtToPhysRange addr (getNumPage b.pageSize addr length)⟩ key).result=
        some (.ok mrKey)) :
    ∃ entry updates,(s.attempt b addr length key).result=some (.ok (mrKey,entry)) ∧
      (s.regMr b addr length pdHandle access
        ⟨pinned,r.virtToPhysRange addr (getNumPage b.pageSize addr length)⟩ key).next.cmds=
          s.cmds++.updateMrTable ⟨addr,length.toUInt32,mrKey,pdHandle,access,entry.index⟩::
            updates.map (fun u => .updatePgt u.1 u.2) ∧
      Translates b.pageSize r addr length entry updates (devicePgt (s.regMr b addr length pdHandle
        access ⟨pinned,r.virtToPhysRange addr (getNumPage b.pageSize addr length)⟩ key).next.cmds) := by
  obtain ⟨entry,lengthU32,phys,hres,hlen,hrange,hcmds⟩ := s.regMr_ok _ _ _ _ _ _ _ _ hok
  obtain ⟨idx,ht⟩ := Mtt.register_ok _ _ _ _ _ _ hres
  have hcount := ht.count
  have hpos := length_pos_of_getNumPage b.pageSize addr length (hcount ▸ ht.pos)
  have hphys : phys.length=entry.count.toNat := (r.found_length _ _ _ hrange).trans hcount.symm
  obtain ⟨us,heq,hall,hparts,hwrite⟩ :=
    chunks_updates s.mttBufferPhysAddr entry phys ht.inside hphys
  refine ⟨entry,us,hres,?_,?_⟩
  · rw [hcmds,heq,(Word.toU32?_some length lengthU32 hlen).2]
    simp
  · refine translates_of_table _ r addr length entry us _ phys hend hpos hcount hrange hall hparts ?_
    intro k hk
    rw [hcmds,devicePgt,List.foldl_append,hwrite,Segments.write,if_pos (by omega),
      Nat.add_sub_cancel_left]

/-- A debug build for small pages. -/
def debug4k : BuildConfig := ⟨true,.k4⟩

/-- A resolver for a system whose pages are all present and mapped to themselves. -/
def identityResolver : AddressResolver debug4k.pageSize :=
  .physAddrResolverLinuxX86 debug4k.pageSize ⟨fun vpn => 0x8000000000000000+vpn,none⟩

/-- A region of twenty pages, which takes two updates. -/
theorem regMr_translates_twentyPages :
    ∃ entry updates,(MrCtx.attempt debug4k {} 0x5800 0x13000 7).result=
        some (.ok (0x1FFF07,entry)) ∧
      Translates debug4k.pageSize identityResolver 0x5800 0x13000 entry updates
        (devicePgt (MrCtx.regMr debug4k {} 0x5800 0x13000 0 0 ⟨.ok (),
          identityResolver.virtToPhysRange 0x5800 (getNumPage debug4k.pageSize 0x5800 0x13000)⟩
          7).next.cmds) := by
  have hok : (MrCtx.regMr debug4k {} 0x5800 0x13000 0 0 ⟨.ok (),
      identityResolver.virtToPhysRange 0x5800 (getNumPage debug4k.pageSize 0x5800 0x13000)⟩
      7).result=some (.ok 0x1FFF07) := by
    decide +kernel
  obtain ⟨entry,updates,hres,-,ht⟩ := regMr_translates debug4k {} 0x5800 0x13000 0 0 (.ok ())
    identityResolver 7 0x1FFF07 (by decide) hok
  exact ⟨entry,updates,hres,ht⟩

end BlueRdma

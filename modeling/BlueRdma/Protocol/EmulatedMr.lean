import BlueRdma.Framework.Run
import BlueRdma.Mem.Umem
import BlueRdma.Protocol.PageTable

namespace BlueRdma
namespace EmulatedMr

/-- A call of the application on an emulated device. -/
inductive Label
  | regMr (addr length : UInt64) (pdHandle : UInt32) (access : UInt8) (sys : SystemView)
    (key : UInt8)
  | deregMr (mrKey : UInt32)

/-- The device context and the map, with the pages of the regions that are registered. -/
structure State where
  ctx : MrCtx := {}
  map : PaVaMap := {}
  registered : List (UInt32 × List Page) := []
  insertPanicked : Bool := false

/-- Deregistration does not touch the map. -/
def step (b : BuildConfig) (s : State) : Label → State
  | .regMr addr length pdHandle access sys key =>
    match EmulatedUmemHandler.pinPages b s.map addr length sys with
    | (m,.overlap) => {s with map := m,insertPanicked := true}
    | (m,.notPresent) => {s with map := m}
    | (m,.done r) =>
      let umem : Umem := ⟨r,(EmulatedUmemHandler.resolver b.pageSize m).virtToPhysRange addr
        (getNumPage b.pageSize addr length)⟩
      let c := s.ctx.regMr b addr length pdHandle access umem key
      {s with
        ctx := c.next
        map := m
        registered := match c.result with
          | some (.ok mrKey) => s.registered++[(mrKey,sys.pages b.pageSize addr length)]
          | _ => s.registered}
  | .deregMr mrKey =>
    let r := s.ctx.deregMr mrKey
    {s with
      ctx := r.1
      registered := match r.2 with
        | .ok () => s.registered.filter (fun x => x.1≠mrKey)
        | .error _ => s.registered}

def run (b : BuildConfig) (ls : List Label) : State := Run.run (step b) {} ls

/-- The pages of all registered regions. -/
def State.pages (s : State) : List Page := s.registered.flatMap Prod.snd

/-- No insertion has panicked. The addresses of a registered page lead to it, and no others lead
anywhere. -/
structure Mirrors (b : BuildConfig) (s : State) : Prop where
  noPanic : s.insertPanicked=false
  found : ∀ g∈s.pages,∀ pa,g.Has b.pageSize.bytes pa →
    s.map.lookup pa=some (g.va+(pa-g.pa),g.pa+b.pageSize.bytes-pa)
  foundVa : ∀ g∈s.pages,(s.map.lookupByVa g.va).isSome
  absent : ∀ pa,(∀ g∈s.pages,¬g.Has b.pageSize.bytes pa) → s.map.lookup pa=none
  absentVa : ∀ va,(∀ g∈s.pages,g.va≠va) → s.map.lookupByVa va=none

/-- A region that gets locked is one the device has room for, in user space, with its pages present
and apart from each other and from the registered ones. No registered key is given up. -/
def Fresh (b : BuildConfig) (s : State) : Label → Prop
  | .regMr addr length _ _ sys _ => sys.locked=true → length≠0 →
    addr.toNat+length.toNat<2^63 ∧ length.toNat<2^32 ∧ s.ctx.mtt.alloc.mr.freeList≠[] ∧
    (∃ start,start+getNumPage b.pageSize addr length≤pgtLen ∧
      ∀ i<getNumPage b.pageSize addr length,
        s.ctx.mtt.alloc.pgt.freeList.getLsbD (start+i)=false) ∧
    (∀ k<getNumPage b.pageSize addr length,
      pagePresent (sys.files.pagemap.entry (addr+UInt64.ofNat k*b.pageSize.bytes))=true) ∧
    (∀ g∈sys.pages b.pageSize addr length,g.pa.toNat+b.pageSize.bytes.toNat<2^64) ∧
    (sys.pages b.pageSize addr length).Pairwise (Page.Apart b.pageSize.bytes) ∧
    ∀ g∈sys.pages b.pageSize addr length,∀ f∈s.pages,f.Apart b.pageSize.bytes g
  | .deregMr mrKey => s.ctx.mtt.mrkeyMap mrKey=none

structure Inv (b : BuildConfig) (s : State) : Prop where
  tracks : ∃ live,s.ctx.mtt.Tracks b.debugAssertions live
  holds : s.map.Holds b.pageSize.bytes s.pages
  noPanic : s.insertPanicked=false

theorem init_inv (b : BuildConfig) : Inv b {} :=
  ⟨⟨[],Mtt.new_tracks b.debugAssertions⟩,PaVaMap.holds_empty _,rfl⟩

theorem Inv.mirrors (b : BuildConfig) (s : State) (h : Inv b s) : Mirrors b s := by
  refine ⟨h.noPanic,h.holds.lookup_eq_some _ _ _,?_,?_,?_⟩
  · intro g hg
    exact (h.holds.vas g.va).mpr ⟨g,hg,rfl⟩
  · intro pa hpa
    exact (h.holds.lookup_eq_none _ _ _ pa).mpr hpa
  · intro va hva
    rw [← Option.not_isSome_iff_eq_none,h.holds.vas va]
    rintro ⟨g,hg,heq⟩
    exact hva g hg heq

/-- Every page of a region the map has is resolved. -/
theorem resolver_range (p : PageSize) (m : PaVaMap) (pages : List Page) (sys : SystemView)
    (addr length : UInt64) (h : m.Holds p.bytes (pages++sys.pages p addr length))
    (hend : addr.toNat+length.toNat<2^63) (hlen : 0<length.toNat)
    (hpresent : ∀ k<getNumPage p addr length,
      pagePresent (sys.files.pagemap.entry (addr+UInt64.ofNat k*p.bytes))=true) :
    ∃ phys : List UInt64,(EmulatedUmemHandler.resolver p m).virtToPhysRange addr
      (getNumPage p addr length)=.ok (phys.map some) := by
  obtain ⟨phys,hphys⟩ := Collect.exists_map_some
    ((List.range (getNumPage p addr length)).map (fun k =>
      m.lookupByVa (Word.saturatingAdd addr (UInt64.ofNat k*p.bytes)))) (by
    intro x hx
    obtain ⟨k,hk,rfl⟩ := List.mem_map.mp hx
    rw [List.mem_range] at hk
    obtain ⟨pa,hpa⟩ := sys.mem_pages p addr length k hk (hpresent k hk)
    have hlt := page_addr_lt p addr length hend hlen k hk
    rw [Word.saturatingAdd,if_pos (by rw [page_offset_toNat p k (by omega)]; exact hlt)]
    exact (h.vas _).mpr ⟨_,List.mem_append_right _ hpa,rfl⟩)
  refine ⟨phys,?_⟩
  rw [← hphys]
  exact List.mapM_pure

/-- A call that locks nothing, or nothing but an empty region, gets no key and leaves the map as it
is. -/
theorem step_nothing (b : BuildConfig) (s : State) (addr length : UInt64) (pdHandle : UInt32)
    (access : UInt8) (sys : SystemView) (key : UInt8) (h : Inv b s)
    (hnone : sys.locked=false ∨ length=0) :
    Inv b (step b s (.regMr addr length pdHandle access sys key)) := by
  obtain ⟨live,ht⟩ := h.tracks
  obtain ⟨r,hpin,hr⟩ : ∃ r,EmulatedUmemHandler.pinPages b s.map addr length sys=
      (s.map,.done r) ∧ ((∃ e,r=.error e) ∨ length=0) := by
    rw [EmulatedUmemHandler.pinPages]
    rcases hl : sys.locked with _|_
    · exact ⟨_,if_neg Bool.false_ne_true,Or.inl ⟨_,rfl⟩⟩
    · have hz : length=0 := hnone.resolve_left (by rw [hl]; decide)
      refine ⟨.ok (),?_,Or.inr hz⟩
      rw [if_pos rfl,PhysAddrResolverLinuxX86.virtToPhysRange_eq,hz,getNumPage_zero]
      rfl
  rw [step,hpin]
  dsimp only
  have hspec := s.ctx.regMr_spec b addr length pdHandle access
    ⟨r,(EmulatedUmemHandler.resolver b.pageSize s.map).virtToPhysRange addr
      (getNumPage b.pageSize addr length)⟩ key live ht
  generalize s.ctx.regMr b addr length pdHandle access _ key=c at hspec ⊢
  -- the table grants no empty region
  have hgrant : ∀ mrKey entry,length=0 →
      (s.ctx.attempt b addr length key).result≠some (.ok (mrKey,entry)) := by
    intro mrKey entry hz hres
    obtain ⟨idx,htakes⟩ := Mtt.register_ok _ _ _ _ _ _ hres
    have hpos := htakes.pos
    rw [htakes.count,hz,getNumPage_zero] at hpos
    exact absurd hpos (Nat.lt_irrefl 0)
  have hgone : r=.ok () → ∀ mrKey entry,
      (s.ctx.attempt b addr length key).result≠some (.ok (mrKey,entry)) := by
    rintro rfl mrKey entry
    rcases hr with ⟨e,he⟩|hz
    · cases he
    · exact hgrant mrKey entry hz
  cases hspec with
  | notPinned e hpinned => exact ⟨⟨live,ht⟩,h.holds,h.noPanic⟩
  | refused hpinned hres =>
      rcases Mtt.register_cases b.debugAssertions s.ctx.mtt live ht _ key with
        ⟨-,-,-,hnext⟩|⟨idx,mrKey,entry,hok,-⟩
      · exact ⟨⟨live,hnext⟩,h.holds,h.noPanic⟩
      · exact absurd hok (hgone hpinned mrKey entry)
  | dropped hpinned mrKey entry hres e => exact absurd hres (hgone hpinned mrKey entry)
  | done hpinned mrKey entry hres lengthU32 hlen phys =>
      exact absurd hres (hgone hpinned mrKey entry)

/-- A fresh region is added to the map and gets its key. -/
theorem step_pins (b : BuildConfig) (s : State) (addr length : UInt64) (pdHandle : UInt32)
    (access : UInt8) (sys : SystemView) (key : UInt8) (h : Inv b s)
    (hlocked : sys.locked=true) (hne : length≠0)
    (hfresh : Fresh b s (.regMr addr length pdHandle access sys key)) :
    Inv b (step b s (.regMr addr length pdHandle access sys key)) := by
  obtain ⟨hend,hlen,hkey,⟨start,hroom,hfree⟩,hpresent,hin,hself,hold⟩ := hfresh hlocked hne
  obtain ⟨live,ht⟩ := h.tracks
  have hpos : 0<length.toNat := by
    rw [Nat.pos_iff_ne_zero]
    intro hz
    exact hne (UInt64.toNat_inj.mp hz)
  obtain ⟨m,hpin,hm⟩ := EmulatedUmemHandler.pinPages_holds b s.map s.pages h.holds addr length sys
    hlocked hpresent hin hself hold
  obtain ⟨phys,hrange⟩ := resolver_range b.pageSize m s.pages sys addr length hm hend hpos hpresent
  -- there is a free key and a free range, so that the table does not refuse
  have hnum : 0<getNumPage b.pageSize addr length := by
    rw [getNumPage_eq _ addr length hend hpos]
    exact Nat.succ_pos _
  have hsearch := FirstFit.search_isSome s.ctx.mtt.alloc.pgt.freeList _ start hnum hroom (by
    intro j hj hlt
    have := hfree (j-start) (by omega)
    rwa [Nat.add_sub_cancel' hj] at this)
  rcases Mtt.register_cases b.debugAssertions s.ctx.mtt live ht _ key with
    ⟨hout,-⟩|⟨idx,mrKey,entry,hres,-,hnext⟩
  · exact absurd hout (Mtt.register_free _ _ _ key hkey hsearch)
  obtain ⟨hok,hmtt⟩ := s.ctx.regMr_done b addr length pdHandle access
    ⟨.ok (),(EmulatedUmemHandler.resolver b.pageSize m).virtToPhysRange addr
      (getNumPage b.pageSize addr length)⟩ key mrKey entry phys rfl hres hlen hrange
  rw [step,hpin]
  dsimp only
  rw [hok]
  refine ⟨⟨live++[(mrKey,entry)],?_⟩,?_,h.noPanic⟩
  · rw [hmtt]
    exact hnext
  · rw [State.pages,List.flatMap_append,List.flatMap_singleton]
    exact hm

theorem step_inv (b : BuildConfig) (s : State) (l : Label) (hl : Fresh b s l) (h : Inv b s) :
    Inv b (step b s l) := by
  cases l with
  | regMr addr length pdHandle access sys key =>
      by_cases hlocked : sys.locked=true
      · by_cases hne : length=0
        · exact step_nothing b s addr length pdHandle access sys key h (Or.inr hne)
        · exact step_pins b s addr length pdHandle access sys key h hlocked hne hl
      · exact step_nothing b s addr length pdHandle access sys key h (Or.inl (by simpa using hlocked))
  | deregMr mrKey =>
      have hnone : s.ctx.mtt.mrkeyMap mrKey=none := hl
      rw [step,MrCtx.deregMr,Mtt.deregister,hnone]
      exact ⟨h.tracks,h.holds,h.noPanic⟩

end EmulatedMr

open EmulatedMr in
/-- In a run in which every region that gets locked is fresh, and no registered region is given up,
the map has the pages of the registered regions and no others. -/
theorem emulated_map_mirrors (b : BuildConfig) (ls : List EmulatedMr.Label)
    (hls : Run.Along (EmulatedMr.step b) (Fresh b) {} ls) : Mirrors b (EmulatedMr.run b ls) := by
  have h := Run.run_inv (EmulatedMr.step b) (Fresh b) (Inv b) (step_inv b) {} ls hls (init_inv b)
  exact h.mirrors

namespace EmulatedMr

/-- One page of memory at its own physical address. -/
def onePage (addr : UInt64) : Label :=
  .regMr addr 0x1000 0 0 ⟨true,⟨fun vpn => 0x8000000000000000+vpn,none⟩⟩ 0

end EmulatedMr

open EmulatedMr in
/-- Two regions with pages of their own. -/
theorem emulated_map_mirrors_twoPages :
    (EmulatedMr.run ⟨true,.k4⟩ [onePage 0x5000,onePage 0x7000]).pages=
      [⟨0x5000,0x5000⟩,⟨0x7000,0x7000⟩] ∧
    Mirrors ⟨true,.k4⟩ (EmulatedMr.run ⟨true,.k4⟩ [onePage 0x5000,onePage 0x7000]) := by
  refine ⟨by decide +kernel,emulated_map_mirrors _ _ ⟨fun _ _ => ?_,fun _ _ => ?_,trivial⟩⟩
  · exact ⟨by decide,by decide,by decide +kernel,⟨0,by decide +kernel,by decide +kernel⟩,
      by decide +kernel,by decide +kernel,by decide +kernel,by decide +kernel⟩
  · exact ⟨by decide,by decide,by decide +kernel,⟨1,by decide +kernel,by decide +kernel⟩,
      by decide +kernel,by decide +kernel,by decide +kernel,by decide +kernel⟩

open EmulatedMr in
/-- A page that is registered twice is fatal. After `dereg_mr` it is still found, and registering it
again is fatal too. -/
theorem emulated_map_keeps_pages :
    (EmulatedMr.run ⟨true,.k4⟩ [onePage 0x5000,onePage 0x5000]).insertPanicked=true ∧
    (EmulatedMr.run ⟨true,.k4⟩ [onePage 0x5000,.deregMr 0x1FFF00]).pages=[] ∧
    (EmulatedMr.run ⟨true,.k4⟩ [onePage 0x5000,.deregMr 0x1FFF00]).map.lookup 0x5000=
      some (0x5000,0x1000) ∧
    (EmulatedMr.run ⟨true,.k4⟩ [onePage 0x5000,.deregMr 0x1FFF00,onePage 0x5000]).insertPanicked=
      true := by
  decide +kernel

end BlueRdma

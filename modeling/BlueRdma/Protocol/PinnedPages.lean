import BlueRdma.Mem.Umem
import BlueRdma.Protocol.PageTable

namespace BlueRdma

open PhysAddrResolverLinuxX86

/-- A virtual page is present and lies in a frame of its size. Its entries in the `pagemap` are those
of its base pages. Physical addresses have 52 bits. -/
structure PageFile.InFrame (p : PageSize) (file : PageFile) (frame : Nat → Nat) (v : Nat) :
    Prop where
  present : ∀ a : UInt64,a.toNat/p.bytes.toNat=v → pagePresent (file.entry a)=true
  pfn : ∀ a : UInt64,a.toNat/p.bytes.toNat=v → (file.entry a&&&pfnMask).toNat*4096=
    frame v*p.bytes.toNat+a.toNat%p.bytes.toNat/4096*4096
  small : (frame v+1)*p.bytes.toNat≤2^52

namespace PinnedPages

/-- The physical address of a byte is its place in the frame of its page. -/
theorem phys_of_inFrame (p : PageSize) (file : PageFile) (frame : Nat → Nat) (a : UInt64)
    (h : file.InFrame p frame (a.toNat/p.bytes.toNat)) :
    ∃ pa,getPaFromFile a file=some pa ∧
      pa.toNat=frame (a.toNat/p.bytes.toNat)*p.bytes.toNat+a.toNat%p.bytes.toNat ∧
      pa.toNat<2^52 := by
  have hpfn := h.pfn a rfl
  have hsmall := h.small
  have hlt := Nat.mod_lt a.toNat p.bytes_pos
  have hmod : a.toNat%p.bytes.toNat%4096=a.toNat%4096 :=
    Nat.mod_mod_of_dvd _ (Nat.dvd_of_mod_eq_zero p.bytes_toNat_mod)
  refine ⟨_,by rw [getPaFromFile,entryAddr,if_pos (h.present a rfl)],?_⟩
  rw [Nat.add_mul,Nat.one_mul] at hsmall
  rw [UInt64.toNat_add,UInt64.toNat_mul,UInt64.toNat_mod,show getBasePageSize.toNat=4096 from rfl,
    hpfn]
  omega

/-- The piece of frame `x` has an address of frame `y` behind its offset if it is the same frame,
and one before it if it is the frame below. -/
theorem piece_has_iff (P off r x y : Nat) (hoff : off<P) (hr : r<P) :
    (x*P+off≤y*P+r ∧ y*P+r<x*P+off+P) ↔ (off ≤ r ∧ x=y) ∨ (r<off ∧ y=x+1) := by
  rcases Nat.lt_trichotomy x y with hlt|rfl|hgt
  · obtain ⟨d,rfl⟩ := Nat.exists_eq_add_of_lt hlt
    rw [Nat.add_mul,Nat.add_mul]
    rcases d with _|d
    · omega
    · rw [Nat.add_mul]
      omega
  · omega
  · obtain ⟨d,rfl⟩ := Nat.exists_eq_add_of_lt hgt
    rw [Nat.add_mul,Nat.add_mul]
    omega

section
variable (p : PageSize) (addr length : UInt64) (file : PageFile) (frame : Nat → Nat)

/-- The piece of the page `k`: where it is mapped and where it starts. -/
def IsPiece (g : Page) (k : Nat) : Prop :=
  g.va.toNat=addr.toNat+k*p.bytes.toNat ∧
    g.pa.toNat=frame (addr.toNat/p.bytes.toNat+k)*p.bytes.toNat+addr.toNat%p.bytes.toNat ∧
    g.pa.toNat<2^52

/-- The pieces that have the physical address of a byte, by the frames. -/
theorem has_byte_iff (va pa : UInt64) (k : Nat)
    (hframed : file.InFrame p frame (addr.toNat/p.bytes.toNat+k))
    (hpage : va.toNat/p.bytes.toNat=addr.toNat/p.bytes.toNat+k)
    (hpa : getPaFromFile va file=some pa) :
    pa.toNat=frame (addr.toNat/p.bytes.toNat+k)*p.bytes.toNat+va.toNat%p.bytes.toNat ∧
    ∀ g l,IsPiece p addr frame g l → (g.Has p.bytes pa ↔
      (addr.toNat%p.bytes.toNat≤va.toNat%p.bytes.toNat ∧
        frame (addr.toNat/p.bytes.toNat+l)=frame (addr.toNat/p.bytes.toNat+k)) ∨
      (va.toNat%p.bytes.toNat<addr.toNat%p.bytes.toNat ∧
        frame (addr.toNat/p.bytes.toNat+k)=frame (addr.toNat/p.bytes.toNat+l)+1)) := by
  obtain ⟨pa',hpa',hnat,-⟩ := phys_of_inFrame p file frame va (by
    rw [hpage]
    exact hframed)
  obtain rfl := Option.some.inj (hpa.symm.trans hpa')
  rw [hpage] at hnat
  refine ⟨hnat,fun g l hl => ?_⟩
  rw [Page.has_iff,hl.2.1,hnat]
  exact piece_has_iff _ _ _ _ _ (Nat.mod_lt addr.toNat p.bytes_pos) (Nat.mod_lt va.toNat p.bytes_pos)

variable (hend : addr.toNat+length.toNat<2^63) (hlen : 0<length.toNat)
include hend hlen

theorem piece_end_lt (k : Nat) (hk : k<getNumPage p addr length) :
    addr.toNat+k*p.bytes.toNat+p.bytes.toNat<2^64 := by
  have hsize : p.bytes.toNat≤2^21 := by cases p <;> decide
  have hlt := page_addr_lt_end p addr length hend hlen k hk
  omega

/-- What is found in a piece, in numbers. -/
theorem lookup_eq_iff (m : PaVaMap) (pages : List Page) (hm : m.Holds p.bytes pages) (g : Page)
    (hg : g∈pages) (k : Nat) (hk : k<getNumPage p addr length) (hpiece : IsPiece p addr frame g k)
    (pa : UInt64) (hpa : g.Has p.bytes pa) (va : UInt64) :
    (m.lookup pa).map Prod.fst=some va ↔
      va.toNat=addr.toNat+k*p.bytes.toNat+(pa.toNat-g.pa.toNat) := by
  have hlt := piece_end_lt p addr length hend hlen k hk
  obtain ⟨hva,-⟩ := hpiece
  rw [Page.has_iff] at hpa
  have hvalue : (g.va+(pa-g.pa)).toNat=addr.toNat+k*p.bytes.toNat+(pa.toNat-g.pa.toNat) := by
    rw [UInt64.toNat_add,UInt64.toNat_sub_of_le _ _ (UInt64.le_iff_toNat_le.mpr hpa.1),hva]
    exact Nat.mod_eq_of_lt (by omega)
  rw [hm.lookup_eq_some _ m pages g hg pa hpa,Option.map_some,Option.some_inj,← UInt64.toNat_inj,
    hvalue,eq_comm]

variable (hframed : ∀ k<getNumPage p addr length,
    file.InFrame p frame (addr.toNat/p.bytes.toNat+k))
include hframed

theorem isPiece_of_lt (k : Nat) (hk : k<getNumPage p addr length) :
    ∃ pa,getPaFromFile (addr+UInt64.ofNat k*p.bytes) file=some pa ∧
      IsPiece p addr frame ⟨pa,addr+UInt64.ofNat k*p.bytes⟩ k := by
  have hva := page_addr_toNat p addr k (page_addr_lt p addr length hend hlen k hk)
  have hpage : (addr+UInt64.ofNat k*p.bytes).toNat/p.bytes.toNat=addr.toNat/p.bytes.toNat+k := by
    rw [hva,Nat.add_mul_div_right _ _ p.bytes_pos]
  obtain ⟨pa,hpa,hnat,hsmall⟩ := phys_of_inFrame p file frame _ (by rw [hpage]; exact hframed k hk)
  refine ⟨pa,hpa,hva,?_,hsmall⟩
  rw [hnat,hpage,hva,Nat.add_mul_mod_self_right]

theorem isPiece_of_some (k : Nat) (hk : k<getNumPage p addr length) (pa : UInt64)
    (hpa : getPaFromFile (addr+UInt64.ofNat k*p.bytes) file=some pa) :
    IsPiece p addr frame ⟨pa,addr+UInt64.ofNat k*p.bytes⟩ k := by
  obtain ⟨pa',hpa',hpiece⟩ := isPiece_of_lt p addr length file frame hend hlen hframed k hk
  obtain rfl := Option.some.inj (hpa.symm.trans hpa')
  exact hpiece

theorem exists_isPiece (g : Page) (hg : g∈pagesFrom p file addr 0 (getNumPage p addr length)) :
    ∃ k<getNumPage p addr length,IsPiece p addr frame g k := by
  obtain ⟨k,hk,hpage⟩ := List.mem_filterMap.mp hg
  have hk : k<getNumPage p addr length := by simpa using hk
  obtain ⟨pa,hpa,rfl⟩ := Option.map_eq_some_iff.mp hpage
  exact ⟨k,hk,isPiece_of_some p addr length file frame hend hlen hframed k hk pa hpa⟩

theorem exists_page (k : Nat) (hk : k<getNumPage p addr length) :
    ∃ g∈pagesFrom p file addr 0 (getNumPage p addr length),IsPiece p addr frame g k := by
  obtain ⟨pa,hpa,hpiece⟩ := isPiece_of_lt p addr length file frame hend hlen hframed k hk
  refine ⟨_,List.mem_filterMap.mpr ⟨k,by simpa using hk,?_⟩,hpiece⟩
  rw [hpa]
  rfl

/-- The pieces of different frames start whole frames from each other. -/
theorem pieces_apart (hinj : ∀ k<getNumPage p addr length,∀ l<getNumPage p addr length,
      frame (addr.toNat/p.bytes.toNat+k)=frame (addr.toNat/p.bytes.toNat+l) → k=l) :
    (pagesFrom p file addr 0 (getNumPage p addr length)).Pairwise (Page.Apart p.bytes) := by
  rw [pagesFrom,List.pairwise_filterMap]
  refine List.Pairwise.imp_of_mem ?_ List.pairwise_lt_range'
  intro k l hk hl hlt g hg g' hg'
  have hk : k<getNumPage p addr length := by simpa using hk
  have hl : l<getNumPage p addr length := by simpa using hl
  obtain ⟨pa,hpa,rfl⟩ := Option.map_eq_some_iff.mp hg
  obtain ⟨pa',hpa',rfl⟩ := Option.map_eq_some_iff.mp hg'
  obtain ⟨-,hx,-⟩ := isPiece_of_some p addr length file frame hend hlen hframed k hk pa hpa
  obtain ⟨-,hy,-⟩ := isPiece_of_some p addr length file frame hend hlen hframed l hl pa' hpa'
  have hne : frame (addr.toNat/p.bytes.toNat+k)≠frame (addr.toNat/p.bytes.toNat+l) :=
    fun heq => hlt.ne (hinj k hk l hl heq)
  dsimp only at hx hy
  rw [Page.apart_iff,hx,hy]
  rcases Nat.lt_or_gt_of_ne hne with hless|hless
  · have := Nat.mul_le_mul_right p.bytes.toNat (Nat.succ_le_of_lt hless)
    rw [Nat.succ_mul] at this
    exact Or.inl (by omega)
  · have := Nat.mul_le_mul_right p.bytes.toNat (Nat.succ_le_of_lt hless)
    rw [Nat.succ_mul] at this
    exact Or.inr (by omega)

/-- A byte behind the offset of its page is found in the piece of the page. One before it is found
only if the frame of the page before is the one below. -/
theorem lookup_byte_iff (m : PaVaMap)
    (hm : m.Holds p.bytes (pagesFrom p file addr 0 (getNumPage p addr length)))
    (va pa : UInt64) (k : Nat) (hk : k<getNumPage p addr length)
    (hpage : va.toNat/p.bytes.toNat=addr.toNat/p.bytes.toNat+k)
    (hpa : getPaFromFile va file=some pa) :
    (m.lookup pa).map Prod.fst=some va ↔
      addr.toNat%p.bytes.toNat≤va.toNat%p.bytes.toNat ∨
        ∃ l,k=l+1 ∧ frame (addr.toNat/p.bytes.toNat+k)=frame (addr.toNat/p.bytes.toNat+l)+1 := by
  have hoff := Nat.mod_lt addr.toNat p.bytes_pos
  have hr := Nat.mod_lt va.toNat p.bytes_pos
  have hva : va.toNat+addr.toNat%p.bytes.toNat=addr.toNat+k*p.bytes.toNat+
      va.toNat%p.bytes.toNat := by
    have h₁ := Nat.div_add_mod' va.toNat p.bytes.toNat
    have h₂ := Nat.div_add_mod' addr.toNat p.bytes.toNat
    rw [hpage,Nat.add_mul] at h₁
    omega
  obtain ⟨hnat,hhas⟩ := has_byte_iff p addr file frame va pa k (hframed k hk) hpage hpa
  constructor
  · intro hfound
    by_contra hno
    rw [not_or,Nat.not_le] at hno
    obtain ⟨g,hg,hgpa⟩ : ∃ g∈pagesFrom p file addr 0 (getNumPage p addr length),
        g.Has p.bytes pa := by
      by_contra hnone
      rw [(hm.lookup_eq_none _ m _ pa).mpr (fun g hg hh => hnone ⟨g,hg,hh⟩)] at hfound
      cases hfound
    obtain ⟨l,hl,hpiece⟩ := exists_isPiece p addr length file frame hend hlen hframed g hg
    rcases (hhas g l hpiece).mp hgpa with ⟨hle,-⟩|⟨hlt,hframe⟩
    · omega
    refine hno.2 ⟨l,?_,hframe⟩
    have hvalue := (lookup_eq_iff p addr length frame hend hlen m _ hm g hg l hl hpiece pa hgpa va).mp
      hfound
    rw [hnat,hpiece.2.1,hframe,Nat.add_mul,Nat.one_mul] at hvalue
    have hmul : k*p.bytes.toNat=(l+1)*p.bytes.toNat := by
      rw [Nat.add_mul,Nat.one_mul]
      omega
    exact Nat.eq_of_mul_eq_mul_right p.bytes_pos hmul
  · intro hcase
    by_cases hle : addr.toNat%p.bytes.toNat≤va.toNat%p.bytes.toNat
    · obtain ⟨g,hg,hpiece⟩ := exists_page p addr length file frame hend hlen hframed k hk
      have hgpa := (hhas g k hpiece).mpr (Or.inl ⟨hle,rfl⟩)
      rw [lookup_eq_iff p addr length frame hend hlen m _ hm g hg k hk hpiece pa hgpa va,hnat,
        hpiece.2.1]
      omega
    · obtain ⟨l,rfl,hframe⟩ := hcase.resolve_left hle
      have hl : l<getNumPage p addr length := by omega
      obtain ⟨g,hg,hpiece⟩ := exists_page p addr length file frame hend hlen hframed l hl
      have hgpa := (hhas g l hpiece).mpr (Or.inr ⟨by omega,hframe⟩)
      rw [lookup_eq_iff p addr length frame hend hlen m _ hm g hg l hl hpiece pa hgpa va,hnat,
        hpiece.2.1,hframe,Nat.add_mul,Nat.one_mul]
      rw [Nat.add_mul,Nat.one_mul] at hva
      omega

/-- The first byte of a page lies before the offset, so the frames of all pages but the first must
follow the one before. -/
theorem addressable_iff (m : PaVaMap)
    (hm : m.Holds p.bytes (pagesFrom p file addr 0 (getNumPage p addr length))) :
    (∀ va pa : UInt64,addr.toNat≤va.toNat → va.toNat<addr.toNat+length.toNat →
        getPaFromFile va file=some pa → (m.lookup pa).map Prod.fst=some va) ↔
      addr.toNat%p.bytes.toNat=0 ∨ ∀ k,k+1<getNumPage p addr length →
        frame (addr.toNat/p.bytes.toNat+(k+1))=frame (addr.toNat/p.bytes.toNat+k)+1 := by
  have hpos := p.bytes_pos
  have hnum := getNumPage_eq p addr length hend hlen
  constructor
  · intro hall
    by_contra hno
    rw [not_or] at hno
    refine hno.2 (fun k hk => ?_)
    have hlast : addr.toNat/p.bytes.toNat+(k+1)≤(addr.toNat+length.toNat-1)/p.bytes.toNat := by
      omega
    have hin := (Nat.le_div_iff_mul_le hpos).mp hlast
    have hstart : addr.toNat≤(addr.toNat/p.bytes.toNat+(k+1))*p.bytes.toNat := by
      have hmod := Nat.div_add_mod' addr.toNat p.bytes.toNat
      have hlt := Nat.mod_lt addr.toNat hpos
      rw [Nat.add_mul,Nat.add_mul]
      omega
    have hva : (UInt64.ofNat ((addr.toNat/p.bytes.toNat+(k+1))*p.bytes.toNat)).toNat=
        (addr.toNat/p.bytes.toNat+(k+1))*p.bytes.toNat :=
      UInt64.toNat_ofNat_of_lt' (show _<2^64 by omega)
    have hpage : (UInt64.ofNat ((addr.toNat/p.bytes.toNat+(k+1))*p.bytes.toNat)).toNat/
        p.bytes.toNat=addr.toNat/p.bytes.toNat+(k+1) := by
      rw [hva,Nat.mul_div_cancel _ hpos]
    obtain ⟨pa,hpa,-⟩ := phys_of_inFrame p file frame _ (by
      rw [hpage]
      exact hframed (k+1) hk)
    have hfound := hall _ pa (by rw [hva]; exact hstart) (by rw [hva]; omega) hpa
    rw [lookup_byte_iff p addr length file frame hend hlen hframed m hm _ pa (k+1) hk hpage hpa,
      hva,Nat.mul_mod_left] at hfound
    obtain ⟨l,hl,hframe⟩ := hfound.resolve_left (by omega)
    rw [Nat.add_right_cancel hl]
    rw [Nat.add_right_cancel hl] at hframe
    exact hframe
  · intro hcond va pa hlo hhi hpa
    have hfirst : addr.toNat/p.bytes.toNat≤va.toNat/p.bytes.toNat := Nat.div_le_div_right hlo
    have hlast : va.toNat/p.bytes.toNat≤(addr.toNat+length.toNat-1)/p.bytes.toNat :=
      Nat.div_le_div_right (by omega)
    obtain ⟨k,hk⟩ := Nat.exists_eq_add_of_le hfirst
    rw [lookup_byte_iff p addr length file frame hend hlen hframed m hm va pa k (by omega) hk hpa]
    rcases hcond with hzero|hnext
    · exact Or.inl (by omega)
    rcases k with _|k
    -- a byte of the first page lies behind the start of the region
    · refine Or.inl ?_
      have h₁ := Nat.div_add_mod' va.toNat p.bytes.toNat
      have h₂ := Nat.div_add_mod' addr.toNat p.bytes.toNat
      rw [hk,Nat.add_zero] at h₁
      omega
    · exact Or.inr ⟨k,rfl,hnext k (by omega)⟩

end

/-- Pinning on an empty map makes exactly those regions addressable that start on a page or lie in
frames that follow each other. -/
theorem pinned_addressable_iff (b : BuildConfig) (sys : SystemView) (frame : Nat → Nat)
    (addr length : UInt64) (hlocked : sys.locked=true) (hend : addr.toNat+length.toNat<2^63)
    (hlen : 0<length.toNat)
    (hframed : ∀ k<getNumPage b.pageSize addr length,
      sys.files.pagemap.InFrame b.pageSize frame (addr.toNat/b.pageSize.bytes.toNat+k))
    (hinj : ∀ k<getNumPage b.pageSize addr length,∀ l<getNumPage b.pageSize addr length,
      frame (addr.toNat/b.pageSize.bytes.toNat+k)=frame (addr.toNat/b.pageSize.bytes.toNat+l) →
        k=l) :
    ∃ m,EmulatedUmemHandler.pinPages b {} addr length sys=(m,.done (.ok ())) ∧
      ((∀ va pa : UInt64,addr.toNat≤va.toNat → va.toNat<addr.toNat+length.toNat →
          getPaFromFile va sys.files.pagemap=some pa → (m.lookup pa).map Prod.fst=some va) ↔
        addr.toNat%b.pageSize.bytes.toNat=0 ∨ ∀ k,k+1<getNumPage b.pageSize addr length →
          frame (addr.toNat/b.pageSize.bytes.toNat+(k+1))=
            frame (addr.toNat/b.pageSize.bytes.toNat+k)+1) := by
  have hpresent : ∀ k<getNumPage b.pageSize addr length,pagePresent
      (sys.files.pagemap.entry (addr+UInt64.ofNat k*b.pageSize.bytes))=true := by
    intro k hk
    obtain ⟨pa,hpa,-⟩ := isPiece_of_lt _ _ _ _ frame hend hlen hframed k hk
    rw [← getPaFromFile_isSome,hpa]
    rfl
  have hin : ∀ g∈sys.pages b.pageSize addr length,g.pa.toNat+b.pageSize.bytes.toNat<2^64 := by
    intro g hg
    obtain ⟨k,-,-,-,hsmall⟩ := exists_isPiece _ _ _ _ frame hend hlen hframed g hg
    have hsize : b.pageSize.bytes.toNat≤2^21 := by cases b.pageSize <;> decide
    omega
  obtain ⟨m,hpin,hm⟩ := EmulatedUmemHandler.pinPages_holds b {} [] (PaVaMap.holds_empty _) addr
    length sys hlocked hpresent hin (pieces_apart _ _ _ _ frame hend hlen hframed hinj) (by simp)
  exact ⟨m,hpin,addressable_iff _ _ _ _ frame hend hlen hframed m hm⟩

/-- Two virtual pages in frames that do not follow each other. -/
def scattered : SystemView := ⟨true,⟨fun vpn => if vpn=1 then 0x8000000000000005 else
  0x8000000000000009,none⟩⟩

def scatteredFrame (v : Nat) : Nat := if v=1 then 5 else 9

theorem scattered_inFrame (v : Nat) :
    scattered.files.pagemap.InFrame .k4 scatteredFrame v := by
  have hvpn (a : UInt64) (ha : a.toNat/4096=v) : a/getBasePageSize=1 ↔ v=1 := by
    rw [← UInt64.toNat_inj,UInt64.toNat_div,show getBasePageSize.toNat=4096 from rfl,ha]
    rfl
  refine ⟨?_,?_,?_⟩
  · intro a ha
    rw [PageFile.entry]
    change pagePresent (if a/getBasePageSize=1 then _ else _)=true
    split_ifs <;> decide
  · intro a ha
    have hmod : a.toNat%4096/4096=0 := Nat.div_eq_of_lt (Nat.mod_lt _ (by decide))
    rw [PageFile.entry]
    change ((if a/getBasePageSize=1 then _ else _)&&&pfnMask).toNat*4096=
      (if v=1 then 5 else 9)*4096+a.toNat%4096/4096*4096
    rw [hmod]
    by_cases hv : v=1
    · rw [if_pos hv,if_pos ((hvpn a ha).mpr hv)]
      decide
    · rw [if_neg hv,if_neg (fun h => hv ((hvpn a ha).mp h))]
      decide
  · change ((if v=1 then 5 else 9)+1)*4096≤2^52
    split_ifs <;> decide

theorem pinned_addressable_iff_scattered :
    ∃ m,EmulatedUmemHandler.pinPages ⟨true,.k4⟩ {} 0x1800 0x1000 scattered=(m,.done (.ok ())) ∧
      ¬∀ va pa : UInt64,0x1800≤va.toNat → va.toNat<0x2800 →
        getPaFromFile va scattered.files.pagemap=some pa → (m.lookup pa).map Prod.fst=some va := by
  obtain ⟨m,hpin,hiff⟩ := pinned_addressable_iff ⟨true,.k4⟩ scattered scatteredFrame 0x1800 0x1000 rfl
    (by decide) (by decide) (fun k _ => scattered_inFrame _) (by decide)
  refine ⟨m,hpin,fun hall => ?_⟩
  rcases hiff.mp hall with hzero|hnext
  · exact absurd hzero (by decide)
  · exact absurd (hnext 0 (by decide)) (by decide)

/-- The first byte of the second page is not found. -/
theorem scattered_not_found :
    let r := EmulatedUmemHandler.pinPages ⟨true,.k4⟩ {} 0x1800 0x1000 scattered
    r.2=.done (.ok ()) ∧ getPaFromFile 0x2000 scattered.files.pagemap=some 0x9000 ∧
      r.1.lookup 0x9000=none := by
  exact ⟨rfl,by decide,by decide +kernel⟩

end PinnedPages
end BlueRdma

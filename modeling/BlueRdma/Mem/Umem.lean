import BlueRdma.Mem.PaVaMap
import BlueRdma.Mem.VirtToPhy

namespace BlueRdma

/-- What the operating system does during a call: whether it locks the pages, and where it says
they are. -/
structure SystemView where
  locked : Bool
  files : PageFiles

/-- How pinning ends. It panics on a page that is not present and on one that overlaps with a page
of the map. -/
inductive Pin
  | done (r : Except IoError Unit)
  | notPresent
  | overlap

namespace EmulatedUmemHandler

/-- The pages inserted before a panic stay in the map. -/
def insertPages (b : BuildConfig) (addr : UInt64) :
    Nat → List (Option UInt64) → PaVaMap → PaVaMap × Pin
  | _,[],m => (m,.done (.ok ()))
  | _,none::_,m => (m,.notPresent)
  | i,some pa::pas,m =>
    let va := addr+UInt64.ofNat i*b.pageSize.bytes
    match m.insert b.debugAssertions pa va b.pageSize.bytes with
    | none => (m,.overlap)
    | some m => insertPages b addr (i+1) pas m

def pinPages (b : BuildConfig) (m : PaVaMap) (addr length : UInt64) (sys : SystemView) :
    PaVaMap × Pin :=
  if sys.locked then
    insertPages b addr 0 (PhysAddrResolverLinuxX86.virtToPhysRange b.pageSize sys.files addr
      (getNumPage b.pageSize addr length)) m
  else (m,.done (.error (.other "failed to lock pages")))

/-- Addresses are looked up in the map, not in the files. -/
def resolver (p : PageSize) (m : PaVaMap) : AddressResolver p :=
  .ofVirtToPhys p (fun virtAddr => .ok (m.lookupByVa virtAddr))

end EmulatedUmemHandler

open PhysAddrResolverLinuxX86

/-- The pages `i` to `i+n-1` counted from an address, as far as they are present. -/
def pagesFrom (p : PageSize) (file : PageFile) (addr : UInt64) (i n : Nat) : List Page :=
  (List.range' i n).filterMap (fun k =>
    (getPaFromFile (addr+UInt64.ofNat k*p.bytes) file).map
      (fun pa => ⟨pa,addr+UInt64.ofNat k*p.bytes⟩))

/-- The pages of a region. -/
def SystemView.pages (sys : SystemView) (p : PageSize) (addr length : UInt64) : List Page :=
  pagesFrom p sys.files.pagemap addr 0 (getNumPage p addr length)

theorem pagesFrom_succ (p : PageSize) (file : PageFile) (addr : UInt64) (i n : Nat) (pa : UInt64)
    (h : getPaFromFile (addr+UInt64.ofNat i*p.bytes) file=some pa) :
    pagesFrom p file addr i (n+1)=
      ⟨pa,addr+UInt64.ofNat i*p.bytes⟩::pagesFrom p file addr (i+1) n := by
  rw [pagesFrom,List.range'_succ,List.filterMap_cons,h]
  rfl

theorem SystemView.mem_pages (sys : SystemView) (p : PageSize) (addr length : UInt64) (k : Nat)
    (hk : k<getNumPage p addr length)
    (h : pagePresent (sys.files.pagemap.entry (addr+UInt64.ofNat k*p.bytes))=true) :
    ∃ pa,⟨pa,addr+UInt64.ofNat k*p.bytes⟩∈sys.pages p addr length := by
  obtain ⟨pa,hpa⟩ := Option.isSome_iff_exists.mp ((getPaFromFile_isSome _ _).mpr h)
  refine ⟨pa,List.mem_filterMap.mpr ⟨k,?_,by rw [hpa]; rfl⟩⟩
  rw [List.mem_range'_1]
  omega

/-- Page by page, the map gets a region that is present and lies apart from its pages. -/
theorem EmulatedUmemHandler.insertPages_holds (b : BuildConfig) (file : PageFile) (addr : UInt64)
    (n i : Nat) (m : PaVaMap) (old : List Page) (h : m.Holds b.pageSize.bytes old)
    (hpresent : ∀ k,i≤k → k < i+n →
      (getPaFromFile (addr+UInt64.ofNat k*b.pageSize.bytes) file).isSome)
    (hin : ∀ g∈pagesFrom b.pageSize file addr i n,g.pa.toNat+b.pageSize.bytes.toNat<2^64)
    (hself : (pagesFrom b.pageSize file addr i n).Pairwise (Page.Apart b.pageSize.bytes))
    (hold : ∀ g∈pagesFrom b.pageSize file addr i n,∀ f∈old,f.Apart b.pageSize.bytes g) :
    ∃ m',insertPages b addr i ((List.range' i n).map
        (fun k => getPaFromFile (addr+UInt64.ofNat k*b.pageSize.bytes) file)) m=
          (m',.done (.ok ())) ∧
      m'.Holds b.pageSize.bytes (old++pagesFrom b.pageSize file addr i n) := by
  induction n generalizing i m old with
  | zero => exact ⟨m,rfl,by simpa [pagesFrom] using h⟩
  | succ n ih =>
      obtain ⟨pa,hpa⟩ := Option.isSome_iff_exists.mp (hpresent i (by omega) (by omega))
      rw [pagesFrom_succ _ _ _ _ _ pa hpa] at hin hself hold ⊢
      obtain ⟨hfirst,hrest⟩ := List.pairwise_cons.mp hself
      obtain ⟨m',hins,hm'⟩ := h.insert _ m old b.pageSize.bytes_pos b.debugAssertions
        ⟨pa,addr+UInt64.ofNat i*b.pageSize.bytes⟩ (hin _ (by simp)) (hold _ (by simp))
      obtain ⟨m'',hpages,hm''⟩ := ih (i+1) m' _ hm' (fun k hk hlt => hpresent k (by omega) (by omega))
        (fun g hg => hin g (by simp [hg])) hrest (by
          intro g hg f hf
          rcases List.mem_append.mp hf with hf|hf
          · exact hold g (by simp [hg]) f hf
          · obtain rfl := List.mem_singleton.mp hf
            exact hfirst g hg)
      refine ⟨m'',?_,by simpa using hm''⟩
      rw [List.range'_succ,List.map_cons,hpa,insertPages]
      dsimp only at hins ⊢
      rw [hins]
      exact hpages

/-- A region that is locked, present and apart from the others is pinned. -/
theorem EmulatedUmemHandler.pinPages_holds (b : BuildConfig) (m : PaVaMap) (old : List Page)
    (h : m.Holds b.pageSize.bytes old) (addr length : UInt64) (sys : SystemView)
    (hlocked : sys.locked=true)
    (hpresent : ∀ k<getNumPage b.pageSize addr length,
      pagePresent (sys.files.pagemap.entry (addr+UInt64.ofNat k*b.pageSize.bytes))=true)
    (hin : ∀ g∈sys.pages b.pageSize addr length,g.pa.toNat+b.pageSize.bytes.toNat<2^64)
    (hself : (sys.pages b.pageSize addr length).Pairwise (Page.Apart b.pageSize.bytes))
    (hold : ∀ g∈sys.pages b.pageSize addr length,∀ f∈old,f.Apart b.pageSize.bytes g) :
    ∃ m',pinPages b m addr length sys=(m',.done (.ok ())) ∧
      m'.Holds b.pageSize.bytes (old++sys.pages b.pageSize addr length) := by
  rw [pinPages,if_pos hlocked,virtToPhysRange_eq,present,List.range_eq_range']
  refine insertPages_holds b sys.files.pagemap addr _ 0 m old h ?_ hin hself hold
  intro k _ hk
  exact (getPaFromFile_isSome _ _).mpr (hpresent k (by omega))

end BlueRdma

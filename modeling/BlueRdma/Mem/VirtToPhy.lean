import BlueRdma.Math.Collect
import BlueRdma.Verbs.Mr

namespace BlueRdma

/-- Page frame numbers are bits 0 to 54 of a `pagemap` entry. -/
def pfnMask : UInt64 := 0x7fffffffffffff

def pagePresentBit : UInt64 := 63

/-- The page size of the system, which need not be the one the driver is built for. -/
def getBasePageSize : UInt64 := 0x1000

/-- A file with one entry for each virtual page number. -/
abbrev PageFile := UInt64 → UInt64

/-- What the resolver reads: `/proc/self/pagemap`, and `/dev/gpu_ptr_translator` where there is
one. -/
structure PageFiles where
  pagemap : PageFile
  gpuPtrTranslator : Option PageFile

def pagePresent (entry : UInt64) : Bool := (entry>>>pagePresentBit)&&&1≠0

/-- The physical address an entry gives for a virtual address. -/
def entryAddr (entry virtAddr : UInt64) : Option UInt64 :=
  if pagePresent entry then
    some ((entry&&&pfnMask)*getBasePageSize+virtAddr%getBasePageSize)
  else none

/-- The entry of the page of an address. -/
def PageFile.entry (file : PageFile) (virtAddr : UInt64) : UInt64 :=
  file (virtAddr/getBasePageSize)

/-- What resolves virtual addresses. The addresses that a range gives are those of its pages one
by one, but it may miss some. -/
structure AddressResolver (p : PageSize) where
  virtToPhys : UInt64 → Except IoError (Option UInt64)
  virtToPhysRange : UInt64 → Nat → Except IoError (List (Option UInt64))
  range_length : ∀ start numPages phys,virtToPhysRange start numPages=.ok phys →
    phys.length=numPages
  range_sound : ∀ start numPages phys k pa,virtToPhysRange start numPages=.ok phys →
    start.toNat+k*p.bytes.toNat<2^64 → phys[k]?=some (some pa) →
    virtToPhys (start+UInt64.ofNat k*p.bytes)=.ok (some pa)

namespace PhysAddrResolverLinuxX86

def getPaFromFile (virtAddr : UInt64) (file : PageFile) : Option UInt64 :=
  entryAddr (file.entry virtAddr) virtAddr

def virtToPhys (files : PageFiles) (virtAddr : UInt64) : Option UInt64 :=
  match getPaFromFile virtAddr files.pagemap with
  | some pa => some pa
  | none => match files.gpuPtrTranslator with
    | some translator => getPaFromFile virtAddr translator
    | none => none

/-- One pass over the addresses of a range, from the page of `addr` on. A page that is present
gets its address, with the offset of the start of the range; the others keep what they have. The
flag says whether some page was present. -/
def fill (p : PageSize) (file : PageFile) (startAddr : UInt64) :
    UInt64 → List (Option UInt64) → List (Option UInt64) × Bool
  | _,[] => ([],false)
  | addr,pa::pas =>
    let rest := fill p file startAddr (addr+p.bytes) pas
    match entryAddr (file.entry addr) startAddr with
    | some physAddr => (some physAddr::rest.1,true)
    | none => (pa::rest.1,rest.2)

/-- Both passes read the `pagemap`; that the translator can be opened only decides whether there
is a second one. -/
def virtToPhysRange (p : PageSize) (files : PageFiles) (startAddr : UInt64) (numPages : Nat) :
    List (Option UInt64) :=
  let (physAddrs,found) := fill p files.pagemap startAddr startAddr (List.replicate numPages none)
  if found then physAddrs
  else match files.gpuPtrTranslator with
    | none => physAddrs
    | some _ => (fill p files.pagemap startAddr startAddr physAddrs).1

end PhysAddrResolverLinuxX86

theorem PageSize.bytes_toNat_mod (p : PageSize) : p.bytes.toNat%4096=0 := by
  cases p <;> rfl

theorem PageSize.bytes_pos (p : PageSize) : 0<p.bytes.toNat := by
  cases p <;> decide

/-- The pages of a range have the offset of its start. -/
theorem PageSize.add_mul_mod (p : PageSize) (start x : UInt64) :
    (start+x*p.bytes)%getBasePageSize=start%getBasePageSize := by
  have hx : x.toNat*p.bytes.toNat%4096=0 := by rw [Nat.mul_mod,p.bytes_toNat_mod]; simp
  rw [← UInt64.toNat_inj,UInt64.toNat_mod,UInt64.toNat_mod,UInt64.toNat_add,UInt64.toNat_mul,
    show getBasePageSize.toNat=4096 from rfl]
  generalize x.toNat*p.bytes.toNat=y at hx ⊢
  omega

theorem page_offset_toNat (p : PageSize) (k : Nat) (h : k*p.bytes.toNat<2^64) :
    (UInt64.ofNat k*p.bytes).toNat=k*p.bytes.toNat := by
  have hkp : k*1≤k*p.bytes.toNat := Nat.mul_le_mul_left k p.bytes_pos
  rw [UInt64.toNat_mul,UInt64.toNat_ofNat_of_lt' (show k<2^64 by omega),Nat.mod_eq_of_lt h]

/-- The resolved address of a page as a number. -/
theorem page_addr_toNat (p : PageSize) (addr : UInt64) (k : Nat)
    (h : addr.toNat+k*p.bytes.toNat<2^64) :
    (addr+UInt64.ofNat k*p.bytes).toNat=addr.toNat+k*p.bytes.toNat := by
  rw [UInt64.toNat_add,page_offset_toNat p k (by omega),Nat.mod_eq_of_lt h]

namespace PhysAddrResolverLinuxX86

/-- The addresses that the `pagemap` alone gives for the pages of a range. -/
def present (p : PageSize) (file : PageFile) (addr : UInt64) (numPages : Nat) :
    List (Option UInt64) :=
  (List.range numPages).map (fun k => getPaFromFile (addr+UInt64.ofNat k*p.bytes) file)

theorem present_succ (p : PageSize) (file : PageFile) (addr : UInt64) (n : Nat) :
    present p file addr (n+1)=getPaFromFile addr file::present p file (addr+p.bytes) n := by
  rw [present,List.range_succ_eq_map,List.map_cons,List.map_map,present]
  congr 1
  · simp
  · apply List.map_congr_left
    intro k _
    dsimp only [Function.comp]
    congr 1
    rw [show k.succ=k+1 from rfl,UInt64.ofNat_add,UInt64.add_mul,UInt64.add_assoc]
    simp [UInt64.add_comm]

theorem fill_none (p : PageSize) (file : PageFile) (start addr : UInt64) (n : Nat)
    (hoff : start%getBasePageSize=addr%getBasePageSize) :
    (fill p file start addr (List.replicate n none)).1=present p file addr n := by
  induction n generalizing addr with
  | zero => rfl
  | succ n ih =>
      have hstep : start%getBasePageSize=(addr+p.bytes)%getBasePageSize := by
        have := p.add_mul_mod addr 1
        rw [UInt64.one_mul] at this
        rw [hoff,this]
      have hpa : entryAddr (file.entry addr) start=getPaFromFile addr file := by
        rw [getPaFromFile,entryAddr,entryAddr,hoff]
      rw [List.replicate_succ,fill,present_succ,← ih (addr+p.bytes) hstep,← hpa]
      rcases entryAddr (file.entry addr) start with _|pa <;> rfl

/-- A second pass over the same file finds nothing new. -/
theorem fill_fill (p : PageSize) (file : PageFile) (start addr : UInt64)
    (pas : List (Option UInt64)) :
    (fill p file start addr (fill p file start addr pas).1).1=(fill p file start addr pas).1 := by
  induction pas generalizing addr with
  | nil => rfl
  | cons pa pas ih =>
      rw [fill]
      rcases h : entryAddr (file.entry addr) start with _|q <;>
      · dsimp only
        rw [fill,h]
        dsimp only
        rw [ih]

/-- The range method never gets an address from the translator. -/
theorem virtToPhysRange_eq (p : PageSize) (files : PageFiles) (start : UInt64) (n : Nat) :
    virtToPhysRange p files start n=present p files.pagemap start n := by
  rw [← fill_none p files.pagemap start start n rfl,virtToPhysRange]
  dsimp only
  split_ifs with hfound
  · rfl
  · rcases files.gpuPtrTranslator with _|translator
    · rfl
    · exact fill_fill ..

theorem virtToPhys_eq (files : PageFiles) (a pa : UInt64)
    (h : getPaFromFile a files.pagemap=some pa) : virtToPhys files a=some pa := by
  rw [virtToPhys,h]

theorem getPaFromFile_eq_none (a : UInt64) (file : PageFile) :
    getPaFromFile a file=none ↔ pagePresent (file.entry a)=false := by
  rw [getPaFromFile,entryAddr]
  split_ifs with h <;> simp [h]

theorem getPaFromFile_isSome (a : UInt64) (file : PageFile) :
    (getPaFromFile a file).isSome ↔ pagePresent (file.entry a)=true := by
  rw [Option.isSome_iff_ne_none,Ne,getPaFromFile_eq_none,Bool.not_eq_false]

/-- One address is resolved from the `pagemap` alone exactly when its page is there, or not in the
translator either. -/
theorem getPaFromFile_eq_virtToPhys_iff (files : PageFiles) (a : UInt64) :
    getPaFromFile a files.pagemap=virtToPhys files a ↔
      pagePresent (files.pagemap.entry a)=true ∨
        ∀ translator,files.gpuPtrTranslator=some translator →
          pagePresent (translator.entry a)=false := by
  rw [virtToPhys]
  rcases hpa : getPaFromFile a files.pagemap with _|pa
  · have habs := (getPaFromFile_eq_none a _).mp hpa
    rcases files.gpuPtrTranslator with _|translator
    · simp
    · dsimp only
      rw [eq_comm,getPaFromFile_eq_none]
      simp [habs]
  · have hpres := (getPaFromFile_isSome a files.pagemap).mp (by rw [hpa]; rfl)
    simp [hpres]

/-- The range method agrees with the method for single addresses exactly when the translator has
no page of the range that the `pagemap` has not. -/
theorem virtToPhysRange_eq_map_iff (p : PageSize) (files : PageFiles) (startAddr : UInt64)
    (numPages : Nat) :
    virtToPhysRange p files startAddr numPages=
        (List.range numPages).map (fun k => virtToPhys files (startAddr+UInt64.ofNat k*p.bytes)) ↔
      ∀ k<numPages,pagePresent (files.pagemap.entry (startAddr+UInt64.ofNat k*p.bytes))=true ∨
        ∀ translator,files.gpuPtrTranslator=some translator →
          pagePresent (translator.entry (startAddr+UInt64.ofNat k*p.bytes))=false := by
  rw [virtToPhysRange_eq,present,List.map_inj_left]
  refine forall_congr' (fun k => ?_)
  rw [List.mem_range]
  exact forall_congr' (fun _ => getPaFromFile_eq_virtToPhys_iff files _)

/-- A page that only the translator has: the second pass reads the wrong file. -/
theorem virtToPhysRange_misses_gpu :
    let files : PageFiles := ⟨fun _ => 0,some (fun vpn => 0x8000000000000000+vpn)⟩
    virtToPhys files 0x5000=some 0x5000 ∧ virtToPhysRange .k4 files 0x5000 1=[none] := by
  decide +kernel

end PhysAddrResolverLinuxX86

namespace AddressResolver

theorem found_length {p : PageSize} (r : AddressResolver p) (start : UInt64) (n : Nat)
    (phys : List UInt64) (h : r.virtToPhysRange start n=.ok (phys.map some)) : phys.length=n := by
  rw [← r.range_length _ _ _ h,List.length_map]

/-- The range method that a resolver has unless it brings its own. -/
def defaultRange (p : PageSize) (virtToPhys : UInt64 → Except IoError (Option UInt64))
    (startAddr : UInt64) (numPages : Nat) : Except IoError (List (Option UInt64)) :=
  (List.range numPages).mapM
    (fun x => virtToPhys (Word.saturatingAdd startAddr (UInt64.ofNat x*p.bytes)))

theorem defaultRange_getElem (p : PageSize) (f : UInt64 → Except IoError (Option UInt64))
    (start : UInt64) (n : Nat) (phys : List (Option UInt64)) (k : Nat) (pa : Option UInt64)
    (h : defaultRange p f start n=.ok phys) (hk : start.toNat+k*p.bytes.toNat<2^64)
    (hpa : phys[k]?=some pa) : f (start+UInt64.ofNat k*p.bytes)=.ok pa := by
  have hall := Collect.mapM_ok _ _ _ h
  have hlen := hall.length_eq
  obtain ⟨hlt,hget⟩ := List.getElem?_eq_some_iff.mp hpa
  have hf := hall.get (i := k) (by omega) hlt
  rw [List.get_eq_getElem,List.get_eq_getElem,List.getElem_range,hget] at hf
  rwa [Word.saturatingAdd,if_pos (by rw [page_offset_toNat p k (by omega)]; exact hk)] at hf

/-- A resolver with the default range method. -/
def ofVirtToPhys (p : PageSize) (virtToPhys : UInt64 → Except IoError (Option UInt64)) :
    AddressResolver p where
  virtToPhys := virtToPhys
  virtToPhysRange := defaultRange p virtToPhys
  range_length start n phys h := by
    rw [← (Collect.mapM_ok _ _ _ h).length_eq,List.length_range]
  range_sound start n phys k pa h hk hpa := defaultRange_getElem p _ start n phys k _ h hk hpa

/-- The resolver of the operating system, for files that can be read. -/
def physAddrResolverLinuxX86 (p : PageSize) (files : PageFiles) : AddressResolver p where
  virtToPhys a := .ok (PhysAddrResolverLinuxX86.virtToPhys files a)
  virtToPhysRange start n := .ok (PhysAddrResolverLinuxX86.virtToPhysRange p files start n)
  range_length start n phys h := by
    cases h
    rw [PhysAddrResolverLinuxX86.virtToPhysRange_eq,PhysAddrResolverLinuxX86.present,
      List.length_map,List.length_range]
  range_sound start n phys k pa h hk hpa := by
    cases h
    rw [PhysAddrResolverLinuxX86.virtToPhysRange_eq,PhysAddrResolverLinuxX86.present,
      List.getElem?_map,Option.map_eq_some_iff] at hpa
    obtain ⟨j,hj,hpa⟩ := hpa
    obtain ⟨hlt,hget⟩ := List.getElem?_eq_some_iff.mp hj
    rw [List.getElem_range] at hget
    rw [← hget] at hpa
    exact congrArg _ (PhysAddrResolverLinuxX86.virtToPhys_eq files _ pa hpa)

end AddressResolver
end BlueRdma

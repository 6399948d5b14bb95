import BlueRdma.Cmd.Configurator
import BlueRdma.Math.Collect
import BlueRdma.Math.Word

namespace BlueRdma

/-- The page sizes the driver can be built for. -/
inductive PageSize
  | k4
  | m2
  deriving DecidableEq

def PageSize.bytes : PageSize → UInt64
  | .k4 => 0x1000
  | .m2 => 0x200000

structure BuildConfig where
  debugAssertions : Bool
  pageSize : PageSize

/-- Number of pages a memory region spans. -/
def getNumPage (pageSize : PageSize) (addr length : UInt64) : Nat :=
  if length=0 then 0
  else
    let last := Word.saturatingSub (Word.saturatingAdd addr length) 1
    let startPage := addr/pageSize.bytes
    let endPage := last/pageSize.bytes
    (Word.saturatingSub endPage startPage+1).toNat

@[simp] theorem getNumPage_zero (p : PageSize) (addr : UInt64) : getNumPage p addr 0=0 := if_pos rfl

theorem length_pos_of_getNumPage (p : PageSize) (addr length : UInt64)
    (h : 0<getNumPage p addr length) : 0<length.toNat := by
  rw [Nat.pos_iff_ne_zero]
  intro hz
  have hlen : length=0 := UInt64.toNat_inj.mp hz
  rw [hlen,getNumPage_zero] at h
  exact absurd h (Nat.lt_irrefl 0)

/-- A region that is not empty has a page, wherever it ends. -/
theorem getNumPage_pos (p : PageSize) (addr length : UInt64) (h : 0<length.toNat) :
    0<getNumPage p addr length := by
  have hne : length≠0 := by
    rintro rfl
    exact absurd h (by decide)
  have hbytes : 0x1000≤p.bytes.toNat := by cases p <;> decide
  rw [getNumPage,if_neg hne]
  dsimp only
  rw [UInt64.toNat_add,Word.saturatingSub_toNat,UInt64.toNat_div]
  generalize Word.saturatingSub (Word.saturatingAdd addr length) 1=last
  have hlast : last.toNat/p.bytes.toNat≤last.toNat/0x1000 := Nat.div_le_div_left hbytes (by decide)
  have hlt := last.toNat_lt
  rw [show (1 : UInt64).toNat=1 from rfl,Nat.mod_eq_of_lt (by omega)]
  exact Nat.succ_pos _

/-- What the operating system answers: whether the pages can be pinned, and their physical
addresses, which are missing for pages that are not present. -/
structure Umem where
  pinPages : Except IoError Unit
  virtToPhysRange : Except IoError (List (Option UInt64))

/-- The fields of the device context that memory registration uses, with the commands issued
so far. -/
structure MrCtx where
  mtt : Mtt := .new
  mttBufferPhysAddr : UInt64 := 0
  cmds : List CmdQueueDesc := []

/-- Maximum number of page-table entries in one update. -/
def maxNumPgtEntryPerAlloc : Nat := 16

def chunks (entry : PgtEntry) : List PgtEntry :=
  (List.range ((entry.count.toNat+maxNumPgtEntryPerAlloc-1)/maxNumPgtEntryPerAlloc)).map (fun k =>
    ⟨entry.index+UInt32.ofNat (k*maxNumPgtEntryPerAlloc),
      UInt32.ofNat (min maxNumPgtEntryPerAlloc (entry.count.toNat-k*maxNumPgtEntryPerAlloc))⟩)

/-- One update for each chunk, with the next physical addresses. -/
def pgtUpdates (dmaAddr : UInt64) : List PgtEntry → List UInt64 → List CmdQueueDesc
  | [],_ => []
  | e::es,phys => .updatePgt ⟨dmaAddr,e.index,e.count-1⟩ (phys.take e.count.toNat)::
      pgtUpdates dmaAddr es (phys.drop e.count.toNat)

namespace MrCtx

/-- Nothing is given back when a step after the registration in the table fails. -/
def regMr (b : BuildConfig) (s : MrCtx) (addr length : UInt64) (pdHandle : UInt32) (access : UInt8)
    (umem : Umem) (key : UInt8) : Call MrCtx RdmaError UInt32 :=
  match umem.pinPages with
  | .error e => ⟨s,some (.error (.ioError e))⟩
  | .ok () =>
    let c := s.mtt.register b.debugAssertions (getNumPage b.pageSize addr length) key
    let s := {s with mtt := c.next}
    match c.result with
    | none => ⟨s,none⟩
    | some (.error e) => ⟨s,some (.error (.ioError e))⟩
    | some (.ok (mrKey,pgtEntry)) => match Word.toU32? length with
      | none => ⟨s,some (.error (.invalidInput "Length too large"))⟩
      | some lengthU32 => match umem.virtToPhysRange with
        | .error e => ⟨s,some (.error (.ioError e))⟩
        | .ok physAddrs => match physAddrs.mapM id with
          | none => ⟨s,some (.error (.memoryError "Physical address not found"))⟩
          | some physAddrs =>
            let update : MttUpdate := ⟨addr,lengthU32,mrKey,pdHandle,access,pgtEntry.index⟩
            match CommandConfigurator.updateMtt update with
            | none => ⟨s,none⟩
            | some cmd =>
              let updates := pgtUpdates s.mttBufferPhysAddr (chunks pgtEntry) physAddrs
              ⟨{s with cmds := s.cmds++[cmd]++updates},some (.ok mrKey)⟩

def deregMr (s : MrCtx) (mrKey : UInt32) : MrCtx × Except RdmaError Unit :=
  let r := s.mtt.deregister mrKey
  ({s with mtt := r.1},r.2)

end MrCtx

theorem pgtUpdates_kind (dmaAddr : UInt64) (es : List PgtEntry) (phys : List UInt64) :
    ∀ c∈pgtUpdates dmaAddr es phys,∃ x buf,c=.updatePgt x buf := by
  induction es generalizing phys with
  | nil => simp [pgtUpdates]
  | cons e es ih =>
      intro c hc
      rcases List.mem_cons.mp hc with rfl|hc
      · exact ⟨_,_,rfl⟩
      · exact ih _ c hc

namespace MrCtx

/-- The registration in the translation table that a call makes once the pages are pinned. -/
def attempt (b : BuildConfig) (s : MrCtx) (addr length : UInt64) (key : UInt8) :
    Call Mtt IoError (UInt32 × PgtEntry) :=
  s.mtt.register b.debugAssertions (getNumPage b.pageSize addr length) key

/-- What a registration can do, in the order of its failure points: only a call that gets past
all of them tells the device. -/
inductive RegMr (b : BuildConfig) (s : MrCtx) (addr length : UInt64) (pdHandle : UInt32)
    (access : UInt8) (umem : Umem) (key : UInt8) : Call MrCtx RdmaError UInt32 → Prop
  | notPinned (e : IoError) (hpin : umem.pinPages=.error e) :
    RegMr b s addr length pdHandle access umem key ⟨s,some (.error (.ioError e))⟩
  | refused (hpin : umem.pinPages=.ok ())
    (hres : (s.attempt b addr length key).result=some (.error .outOfMemory)) :
    RegMr b s addr length pdHandle access umem key
      ⟨{s with mtt := (s.attempt b addr length key).next},some (.error (.ioError .outOfMemory))⟩
  | dropped (hpin : umem.pinPages=.ok ()) (mrKey : UInt32) (entry : PgtEntry)
    (hres : (s.attempt b addr length key).result=some (.ok (mrKey,entry))) (e : RdmaError) :
    RegMr b s addr length pdHandle access umem key
      ⟨{s with mtt := (s.attempt b addr length key).next},some (.error e)⟩
  | done (hpin : umem.pinPages=.ok ()) (mrKey : UInt32) (entry : PgtEntry)
    (hres : (s.attempt b addr length key).result=some (.ok (mrKey,entry))) (lengthU32 : UInt32)
    (hlen : Word.toU32? length=some lengthU32) (phys : List UInt64) :
    RegMr b s addr length pdHandle access umem key
      ⟨{s with
        mtt := (s.attempt b addr length key).next
        cmds := s.cmds++[.updateMrTable ⟨addr,lengthU32,mrKey,pdHandle,access,entry.index⟩]++
          pgtUpdates s.mttBufferPhysAddr (chunks entry) phys},some (.ok mrKey)⟩

theorem regMr_spec (b : BuildConfig) (s : MrCtx) (addr length : UInt64) (pdHandle : UInt32)
    (access : UInt8) (umem : Umem) (key : UInt8) (live : List (UInt32 × PgtEntry))
    (h : s.mtt.Tracks b.debugAssertions live) :
    RegMr b s addr length pdHandle access umem key
      (s.regMr b addr length pdHandle access umem key) := by
  rcases hpin : umem.pinPages with e|⟨⟩
  · rw [regMr,hpin]
    exact .notPinned e hpin
  rw [regMr,hpin]
  dsimp only
  rcases Mtt.register_cases b.debugAssertions s.mtt live h (getNumPage b.pageSize addr length) key
    with ⟨hres,-⟩|⟨idx,mrKey,entry,hres,ht,-⟩
  · rw [hres]
    exact .refused hpin hres
  rw [hres]
  dsimp only
  rcases hlen : Word.toU32? length with _|lengthU32
  · exact .dropped hpin mrKey entry hres _
  dsimp only
  rcases umem.virtToPhysRange with e|phys
  · exact .dropped hpin mrKey entry hres _
  dsimp only
  rcases phys.mapM id with _|phys
  · exact .dropped hpin mrKey entry hres _
  -- the offset lies inside the table, so the descriptor can be built
  have hfits : entry.index.toNat<2^17 := ht.index_lt
  dsimp only
  rw [CommandConfigurator.updateMtt,if_pos hfits]
  exact .done hpin mrKey entry hres lengthU32 hlen phys

/-- A call that succeeds has resolved every page and tells the device what it found. -/
theorem regMr_ok (b : BuildConfig) (s : MrCtx) (addr length : UInt64) (pdHandle : UInt32)
    (access : UInt8) (umem : Umem) (key : UInt8) (mrKey : UInt32)
    (h : (s.regMr b addr length pdHandle access umem key).result=some (.ok mrKey)) :
    ∃ entry lengthU32 phys,(s.attempt b addr length key).result=some (.ok (mrKey,entry)) ∧
      Word.toU32? length=some lengthU32 ∧ umem.virtToPhysRange=.ok (phys.map some) ∧
      (s.regMr b addr length pdHandle access umem key).next.cmds=
        s.cmds++[.updateMrTable ⟨addr,lengthU32,mrKey,pdHandle,access,entry.index⟩]++
          pgtUpdates s.mttBufferPhysAddr (chunks entry) phys := by
  revert h
  rw [regMr]
  rcases umem.pinPages with e|⟨⟩
  · intro h
    cases h
  dsimp only
  rcases hres : (s.mtt.register b.debugAssertions (getNumPage b.pageSize addr length) key).result
    with _|e|⟨k,entry⟩
  · intro h
    cases h
  · intro h
    cases h
  dsimp only
  rcases hlen : Word.toU32? length with _|lengthU32
  · intro h
    cases h
  dsimp only
  rcases hrange : umem.virtToPhysRange with e|found
  · intro h
    cases h
  dsimp only
  rcases hphys : found.mapM id with _|phys
  · intro h
    cases h
  dsimp only
  rw [CommandConfigurator.updateMtt]
  split_ifs with hfits
  · intro h
    obtain rfl : k=mrKey := Except.ok.inj (Option.some.inj h)
    exact ⟨entry,lengthU32,phys,hres,rfl,
      congrArg Except.ok ((Collect.mapM_id_eq_some found phys).mp hphys),rfl⟩
  · intro h
    cases h

/-- A call that is granted a region, and resolves every page, succeeds. -/
theorem regMr_done (b : BuildConfig) (s : MrCtx) (addr length : UInt64) (pdHandle : UInt32)
    (access : UInt8) (umem : Umem) (key : UInt8) (mrKey : UInt32) (entry : PgtEntry)
    (phys : List UInt64) (hpin : umem.pinPages=.ok ())
    (hres : (s.attempt b addr length key).result=some (.ok (mrKey,entry)))
    (hlen : length.toNat<2^32) (hrange : umem.virtToPhysRange=.ok (phys.map some)) :
    (s.regMr b addr length pdHandle access umem key).result=some (.ok mrKey) ∧
    (s.regMr b addr length pdHandle access umem key).next.mtt=
      (s.attempt b addr length key).next := by
  obtain ⟨idx,ht⟩ := Mtt.register_ok _ _ _ _ _ _ hres
  have hfits : entry.index.toNat<2^17 := ht.index_lt
  rw [attempt] at hres
  have hcollect := (Collect.mapM_id_eq_some (phys.map some) phys).mpr rfl
  rw [regMr,hpin]
  dsimp only
  rw [hres]
  dsimp only
  rw [Word.toU32?_eq_some length hlen,hrange]
  dsimp only
  rw [hcollect]
  dsimp only
  rw [CommandConfigurator.updateMtt,if_pos hfits]
  exact ⟨rfl,rfl⟩

end MrCtx
end BlueRdma

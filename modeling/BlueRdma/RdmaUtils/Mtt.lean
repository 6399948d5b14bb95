import BlueRdma.Error
import BlueRdma.Math.FirstFit

namespace BlueRdma

def maxMrCnt : Nat := 8192

/-- Width of the random part of a memory region key. -/
def lrKeyKeyPartWidth : UInt32 := 8

/-- Maximum number of entries in the second stage table. -/
def pgtLen : Nat := 0x20000

structure PgtEntry where
  index : UInt32
  count : UInt32
  deriving DecidableEq

/-- The page-table indices of an entry. -/
def PgtEntry.Covers (e : PgtEntry) (i : Nat) : Prop :=
  e.index.toNat ≤ i ∧ i<e.index.toNat+e.count.toNat

instance (e : PgtEntry) (i : Nat) : Decidable (e.Covers i) := inferInstanceAs (Decidable (_ ∧ _))

/-- First stage table allocator: the free key indices, the one freed last in front. -/
structure MrTableAlloc where
  freeList : List UInt32

namespace MrTableAlloc

def fillUpFreeList : Nat → List UInt32
  | 0 => []
  | n+1 => UInt32.ofNat n::fillUpFreeList n

def new : MrTableAlloc := ⟨fillUpFreeList maxMrCnt⟩

def allocMrKeyIdx (a : MrTableAlloc) : MrTableAlloc × Option UInt32 :=
  match a.freeList with
  | [] => (a,none)
  | idx::rest => (⟨rest⟩,some idx)

def deallocMrKey (a : MrTableAlloc) (key : UInt32) : MrTableAlloc := ⟨key::a.freeList⟩

end MrTableAlloc

/-- Page table allocator: a set bit marks a used entry. -/
structure PgtAlloc where
  freeList : BitVec pgtLen
  deriving DecidableEq

namespace PgtAlloc

def new : PgtAlloc := ⟨0⟩

def alloc (a : PgtAlloc) (len : Nat) : PgtAlloc × Option Nat :=
  match FirstFit.search a.freeList len with
  | none => (a,none)
  | some start => (⟨FirstFit.mark a.freeList start len⟩,some start)

def dealloc (a : PgtAlloc) (index len : Nat) : PgtAlloc × Bool :=
  if index+len<2^64 ∧ index+len≤pgtLen then (⟨FirstFit.clear a.freeList index len⟩,true)
  else (a,false)

end PgtAlloc

/-- Table memory allocator of the translation table. -/
structure Alloc where
  mr : MrTableAlloc
  pgt : PgtAlloc

namespace Alloc

def new : Alloc := ⟨.new,.new⟩

/-- The random part of the key is passed in. -/
def allocMrKey (a : Alloc) (key : UInt8) : Alloc × Option UInt32 :=
  match a.mr.allocMrKeyIdx with
  | (mr,none) => ({a with mr := mr},none)
  | (mr,some idx) => ({a with mr := mr},some (idx<<<lrKeyKeyPartWidth ||| key.toUInt32))

def allocPgt (a : Alloc) (numPages : Nat) : Alloc × Option PgtEntry :=
  match a.pgt.alloc numPages with
  | (pgt,none) => ({a with pgt := pgt},none)
  | (pgt,some index) =>
    ({a with pgt := pgt},some ⟨UInt32.ofNat index,UInt32.ofNat numPages⟩)

/-- The key is taken before the page-table entries and not given back when these run out. -/
def alloc (a : Alloc) (numPages : Nat) (key : UInt8) : Alloc × Option (UInt32 × PgtEntry) :=
  match a.allocMrKey key with
  | (a,none) => (a,none)
  | (a,some x) => match a.allocPgt numPages with
    | (a,none) => (a,none)
    | (a,some y) => (a,some (x,y))

def dealloc (a : Alloc) (mrKey : UInt32) (mrIndex length : Nat) : Alloc × Bool :=
  let mr := a.mr.deallocMrKey (mrKey>>>lrKeyKeyPartWidth)
  let (pgt,ok) := a.pgt.dealloc mrIndex length
  (⟨mr,pgt⟩,ok)

end Alloc

/-- Memory translation table: the allocators and the map from keys to page-table entries. -/
structure Mtt where
  alloc : Alloc
  mrkeyMap : UInt32 → Option PgtEntry

namespace Mtt

def new : Mtt := ⟨.new,fun _ => none⟩

/-- The key is entered into the map by the argument of a `debug_assert!`, so only in builds
that have debug assertions. -/
def register (debugAssertions : Bool) (m : Mtt) (numPages : Nat) (key : UInt8) :
    Call Mtt IoError (UInt32 × PgtEntry) :=
  match m.alloc.alloc numPages key with
  | (alloc,none) => ⟨{m with alloc := alloc},some (.error .outOfMemory)⟩
  | (alloc,some (mrKey,entry)) =>
    if debugAssertions then
      ⟨⟨alloc,Function.update m.mrkeyMap mrKey (some entry)⟩,
        if (m.mrkeyMap mrKey).isNone then some (.ok (mrKey,entry)) else none⟩
    else ⟨{m with alloc := alloc},some (.ok (mrKey,entry))⟩

def deregister (m : Mtt) (mrKey : UInt32) : Mtt × Except RdmaError Unit :=
  match m.mrkeyMap mrKey with
  | none => (m,.error (.invalidInput "failed to remove mr key"))
  | some entry =>
    let (alloc,ok) := m.alloc.dealloc mrKey entry.index.toNat entry.count.toNat
    (⟨alloc,Function.update m.mrkeyMap mrKey none⟩,
      if ok then .ok () else .error (.invalidInput "failed to dealloc mr key"))

/-- The part of a key that selects its entry in the first stage table. -/
def keyIndex (mrKey : UInt32) : UInt32 := mrKey>>>lrKeyKeyPartWidth

end Mtt

theorem Mtt.keyIndex_key (idx : UInt32) (key : UInt8) (h : idx.toNat < maxMrCnt) :
    keyIndex (idx<<<lrKeyKeyPartWidth ||| key.toUInt32)=idx := by
  have hkey : key.toNat<2^8 := key.toNat_lt
  have hidx : idx.toNat<2^13 := h
  rw [← UInt32.toNat_inj,keyIndex,UInt32.toNat_shiftRight,UInt32.toNat_or,UInt32.toNat_shiftLeft,
    UInt8.toNat_toUInt32,show lrKeyKeyPartWidth.toNat%32=8 from rfl,Nat.shiftLeft_eq,
    Nat.mod_eq_of_lt (show idx.toNat*2^8<2^32 by omega),← Nat.shiftLeft_eq,
    ← Nat.shiftLeft_add_eq_or_of_lt hkey,Nat.shiftLeft_eq,Nat.shiftRight_eq_div_pow]
  omega

theorem MrTableAlloc.mem_fillUpFreeList (n : Nat) (hn : n ≤ maxMrCnt) (i : UInt32) :
    i∈fillUpFreeList n ↔ i.toNat<n := by
  induction n with
  | zero => simp [fillUpFreeList]
  | succ n ih =>
      have hlt : n<2^32 := by
        simp only [maxMrCnt] at hn
        omega
      rw [fillUpFreeList,List.mem_cons,ih (by omega),← UInt32.toNat_inj,
        UInt32.toNat_ofNat_of_lt' hlt]
      omega

theorem MrTableAlloc.nodup_fillUpFreeList (n : Nat) (hn : n ≤ maxMrCnt) :
    (fillUpFreeList n).Nodup := by
  induction n with
  | zero => exact List.nodup_nil
  | succ n ih =>
      have hlt : n<2^32 := by
        simp only [maxMrCnt] at hn
        omega
      refine List.nodup_cons.mpr ⟨?_,ih (by omega)⟩
      rw [mem_fillUpFreeList n (by omega),UInt32.toNat_ofNat_of_lt' hlt]
      omega

namespace Alloc

/-- A successful allocation takes the key index in front and a free range of entries. -/
structure Takes (a a' : Alloc) (numPages : Nat) (key : UInt8) (idx : UInt32) (mrKey : UInt32)
    (entry : PgtEntry) : Prop where
  front : a.mr.freeList=idx::a'.mr.freeList
  key : mrKey=idx<<<lrKeyKeyPartWidth ||| key.toUInt32
  count : entry.count.toNat=numPages
  pos : 0<entry.count.toNat
  inside : entry.index.toNat+entry.count.toNat≤pgtLen
  free : ∀ i,entry.Covers i → a.pgt.freeList.getLsbD i=false
  bits : ∀ i,a'.pgt.freeList.getLsbD i=(a.pgt.freeList.getLsbD i || decide (entry.Covers i))

theorem Takes.index_lt {a a' : Alloc} {numPages : Nat} {key : UInt8} {idx mrKey : UInt32}
    {entry : PgtEntry} (h : Takes a a' numPages key idx mrKey entry) :
    entry.index.toNat<2^17 := by
  have hpos := h.pos
  have hin := h.inside
  have hlen : pgtLen=2^17 := rfl
  omega

theorem alloc_some (a a' : Alloc) (numPages : Nat) (key : UInt8) (mrKey : UInt32)
    (entry : PgtEntry) (h : a.alloc numPages key=(a',some (mrKey,entry))) :
    ∃ idx,Takes a a' numPages key idx mrKey entry := by
  obtain ⟨⟨free⟩,pgt⟩ := a
  cases free with
  | nil => simp [alloc,allocMrKey,MrTableAlloc.allocMrKeyIdx] at h
  | cons idx rest =>
      rcases hs : FirstFit.search pgt.freeList numPages with _|start
      · simp [alloc,allocMrKey,MrTableAlloc.allocMrKeyIdx,allocPgt,PgtAlloc.alloc,hs] at h
      simp only [alloc,allocMrKey,MrTableAlloc.allocMrKeyIdx,allocPgt,PgtAlloc.alloc,hs,
        Prod.mk.injEq,Option.some.injEq] at h
      obtain ⟨rfl,rfl,rfl⟩ := h
      obtain ⟨hpos,hin,hfree⟩ := FirstFit.search_spec pgt.freeList numPages start hs
      have hlen : pgtLen<UInt32.size := by decide
      have hindex : (UInt32.ofNat start).toNat=start := UInt32.toNat_ofNat_of_lt' (by omega)
      have hcount : (UInt32.ofNat numPages).toNat=numPages :=
        UInt32.toNat_ofNat_of_lt' (by omega)
      refine ⟨idx,rfl,rfl,hcount,?_,?_,?_,?_⟩
      · rw [hcount]
        exact hpos
      · rw [hindex,hcount]
        exact hin
      · intro i hi
        simp only [PgtEntry.Covers,hindex,hcount] at hi
        exact hfree i hi.1 hi.2
      · intro i
        rw [FirstFit.getLsbD_mark]
        congr 1
        simp only [PgtEntry.Covers,hindex,hcount,decide_eq_decide]
        omega

/-- A failed allocation changes nothing when the keys have run out, and costs a key when it
finds no page-table entries. -/
structure Refuses (a a' : Alloc) : Prop where
  pgt : a'.pgt=a.pgt
  mr : a.mr.freeList=[] ∧ a'.mr.freeList=[] ∨ ∃ idx,a.mr.freeList=idx::a'.mr.freeList

theorem alloc_none (a a' : Alloc) (numPages : Nat) (key : UInt8)
    (h : a.alloc numPages key=(a',none)) : Refuses a a' := by
  obtain ⟨⟨free⟩,pgt⟩ := a
  cases free with
  | nil =>
      simp only [alloc,allocMrKey,MrTableAlloc.allocMrKeyIdx,Prod.mk.injEq,and_true] at h
      subst h
      exact ⟨rfl,Or.inl ⟨rfl,rfl⟩⟩
  | cons idx rest =>
      rcases hs : FirstFit.search pgt.freeList numPages with _|start
      · simp only [alloc,allocMrKey,MrTableAlloc.allocMrKeyIdx,allocPgt,PgtAlloc.alloc,hs,
          Prod.mk.injEq,and_true] at h
        subst h
        exact ⟨rfl,Or.inr ⟨idx,rfl⟩⟩
      · simp [alloc,allocMrKey,MrTableAlloc.allocMrKeyIdx,allocPgt,PgtAlloc.alloc,hs] at h

/-- The key in front is gone after the attempt, whatever becomes of it. -/
theorem alloc_mr (a : Alloc) (numPages : Nat) (key : UInt8) :
    (a.alloc numPages key).1.mr.freeList=a.mr.freeList.tail := by
  obtain ⟨⟨free⟩,pgt⟩ := a
  cases free with
  | nil => rfl
  | cons idx rest =>
      rcases hs : FirstFit.search pgt.freeList numPages with _|start <;>
        simp [alloc,allocMrKey,MrTableAlloc.allocMrKeyIdx,allocPgt,PgtAlloc.alloc,hs]

/-- An allocation that finds a key and a free range succeeds. -/
theorem alloc_isSome (a : Alloc) (numPages : Nat) (key : UInt8) (hkey : a.mr.freeList≠[])
    (hpgt : (FirstFit.search a.pgt.freeList numPages).isSome) :
    (a.alloc numPages key).2.isSome := by
  obtain ⟨⟨free⟩,pgt⟩ := a
  obtain ⟨idx,rest,rfl⟩ := List.exists_cons_of_ne_nil hkey
  obtain ⟨start,hs⟩ := Option.isSome_iff_exists.mp hpgt
  simp [alloc,allocMrKey,MrTableAlloc.allocMrKeyIdx,allocPgt,PgtAlloc.alloc,hs]

theorem dealloc_inside (a : Alloc) (mrKey : UInt32) (entry : PgtEntry)
    (h : entry.index.toNat+entry.count.toNat≤pgtLen) :
    a.dealloc mrKey entry.index.toNat entry.count.toNat=
      (⟨⟨Mtt.keyIndex mrKey::a.mr.freeList⟩,
        ⟨FirstFit.clear a.pgt.freeList entry.index.toNat entry.count.toNat⟩⟩,true) := by
  have hlen : pgtLen<2^64 := by decide
  rw [dealloc,PgtAlloc.dealloc,if_pos ⟨by omega,h⟩]
  rfl

end Alloc

namespace Mtt

/-- The table while the regions `live` are registered. The key map has their entries, but only
in builds with debug assertions. -/
structure Tracks (debugAssertions : Bool) (m : Mtt) (live : List (UInt32 × PgtEntry)) : Prop where
  freeNodup : m.alloc.mr.freeList.Nodup
  freeBound : ∀ i∈m.alloc.mr.freeList,i.toNat < maxMrCnt
  keys : (live.map (fun r => keyIndex r.1)).Nodup
  taken : ∀ r∈live,keyIndex r.1∉m.alloc.mr.freeList ∧ (keyIndex r.1).toNat < maxMrCnt
  disjoint : live.Pairwise (fun r s => ∀ i,r.2.Covers i → ¬s.2.Covers i)
  inside : ∀ r∈live,0 < r.2.count.toNat ∧ r.2.index.toNat+r.2.count.toNat≤pgtLen
  used : ∀ r∈live,∀ i,r.2.Covers i → m.alloc.pgt.freeList.getLsbD i=true
  map : ∀ k e,m.mrkeyMap k=some e ↔ debugAssertions=true ∧ (k,e)∈live

theorem new_tracks (d : Bool) : Tracks d new [] := by
  refine ⟨MrTableAlloc.nodup_fillUpFreeList _ le_rfl,?_,List.nodup_nil,by simp,
    List.Pairwise.nil,by simp,by simp,by simp [new]⟩
  intro i hi
  exact (MrTableAlloc.mem_fillUpFreeList _ le_rfl i).mp hi

/-- Regions with the same key index are the same. -/
theorem Tracks.unique (d : Bool) (m : Mtt) (live : List (UInt32 × PgtEntry)) (h : Tracks d m live)
    (r s : UInt32 × PgtEntry) (hr : r∈live) (hs : s∈live) (hkey : keyIndex r.1=keyIndex s.1) :
    r=s :=
  List.inj_on_of_nodup_map h.keys hr hs hkey

/-- A refused request leaves the regions as they are, though it may use up a key. -/
theorem Tracks.refuse (d : Bool) (m : Mtt) (live : List (UInt32 × PgtEntry)) (h : Tracks d m live)
    (alloc : Alloc) (hr : Alloc.Refuses m.alloc alloc) :
    Tracks d {m with alloc := alloc} live := by
  have hsub : alloc.mr.freeList.Sublist m.alloc.mr.freeList := by
    rcases hr.mr with ⟨hm,ha⟩|⟨idx,hm⟩
    · rw [hm,ha]
    · rw [hm]
      exact List.sublist_cons_self ..
  refine ⟨h.freeNodup.sublist hsub,?_,h.keys,?_,h.disjoint,h.inside,?_,h.map⟩
  · intro i hi
    exact h.freeBound i (hsub.subset hi)
  · intro x hx
    exact ⟨fun hmem => (h.taken x hx).1 (hsub.subset hmem),(h.taken x hx).2⟩
  · intro x hx i hi
    change alloc.pgt.freeList.getLsbD i=true
    rw [hr.pgt]
    exact h.used x hx i hi

/-- A granted request adds a region. -/
theorem Tracks.grant (d : Bool) (m m' : Mtt) (live : List (UInt32 × PgtEntry)) (h : Tracks d m live)
    (numPages : Nat) (key : UInt8) (idx mrKey : UInt32) (entry : PgtEntry)
    (ht : Alloc.Takes m.alloc m'.alloc numPages key idx mrKey entry)
    (hmap : ∀ k e,m'.mrkeyMap k=some e ↔ d=true ∧ (k,e)∈live++[(mrKey,entry)]) :
    Tracks d m' (live++[(mrKey,entry)]) := by
  have hfree := h.freeNodup
  rw [ht.front] at hfree
  obtain ⟨hidx,hnodup⟩ := List.nodup_cons.mp hfree
  have hmem : idx∈m.alloc.mr.freeList := by simp [ht.front]
  have hkey : keyIndex mrKey=idx := by
    rw [ht.key]
    exact keyIndex_key idx key (h.freeBound idx hmem)
  have hold : ∀ i,m.alloc.pgt.freeList.getLsbD i=true → m'.alloc.pgt.freeList.getLsbD i=true := by
    intro i hi
    simp [ht.bits,hi]
  refine ⟨hnodup,?_,?_,?_,?_,?_,?_,hmap⟩
  · intro i hi
    exact h.freeBound i (by simp [ht.front,hi])
  · rw [List.map_append,List.map_singleton,hkey]
    refine List.nodup_append.mpr ⟨h.keys,List.nodup_singleton _,?_⟩
    intro k hk k' hk' heq
    obtain rfl := List.mem_singleton.mp hk'
    obtain ⟨r,hr,rfl⟩ := List.mem_map.mp hk
    exact (h.taken r hr).1 (heq ▸ hmem)
  · intro r hr
    rcases List.mem_append.mp hr with hr|hr
    · refine ⟨?_,(h.taken r hr).2⟩
      intro hin
      exact (h.taken r hr).1 (by simp [ht.front,hin])
    · obtain rfl := List.mem_singleton.mp hr
      rw [hkey]
      exact ⟨hidx,h.freeBound idx hmem⟩
  · refine List.pairwise_append.mpr ⟨h.disjoint,List.pairwise_singleton ..,?_⟩
    intro r hr s hs i hri hsi
    obtain rfl := List.mem_singleton.mp hs
    have hused := h.used r hr i hri
    rw [ht.free i hsi] at hused
    cases hused
  · intro r hr
    rcases List.mem_append.mp hr with hr|hr
    · exact h.inside r hr
    · obtain rfl := List.mem_singleton.mp hr
      exact ⟨ht.pos,ht.inside⟩
  · intro r hr i hi
    rcases List.mem_append.mp hr with hr|hr
    · exact hold i (h.used r hr i hi)
    · obtain rfl := List.mem_singleton.mp hr
      simp [ht.bits,hi]

/-- A registration that succeeds has allocated what it returns, in whatever state. -/
theorem register_ok (d : Bool) (m : Mtt) (numPages : Nat) (key : UInt8) (mrKey : UInt32)
    (entry : PgtEntry) (h : (m.register d numPages key).result=some (.ok (mrKey,entry))) :
    ∃ idx,Alloc.Takes m.alloc (m.register d numPages key).next.alloc numPages key idx mrKey
      entry := by
  revert h
  rw [register]
  rcases ha : m.alloc.alloc numPages key with ⟨alloc,_|⟨k,e⟩⟩
  · intro h
    cases h
  obtain ⟨idx,ht⟩ := Alloc.alloc_some _ _ _ _ _ _ ha
  cases d with
  | false =>
      intro h
      cases h
      exact ⟨idx,ht⟩
  | true =>
      dsimp only
      rw [if_pos rfl]
      dsimp only
      split_ifs with hnone
      · intro h
        cases h
        exact ⟨idx,ht⟩
      · intro h
        cases h

theorem register_mr (d : Bool) (m : Mtt) (numPages : Nat) (key : UInt8) :
    (m.register d numPages key).next.alloc.mr.freeList=m.alloc.mr.freeList.tail := by
  rw [← Alloc.alloc_mr m.alloc numPages key,register]
  rcases m.alloc.alloc numPages key with ⟨alloc,_|⟨mrKey,entry⟩⟩
  · rfl
  · cases d <;> rfl

theorem register_free (d : Bool) (m : Mtt) (numPages : Nat) (key : UInt8)
    (hkey : m.alloc.mr.freeList≠[])
    (hpgt : (FirstFit.search m.alloc.pgt.freeList numPages).isSome) :
    (m.register d numPages key).result≠some (.error .outOfMemory) := by
  have hsome := Alloc.alloc_isSome m.alloc numPages key hkey hpgt
  rw [register]
  rcases ha : m.alloc.alloc numPages key with ⟨alloc,_|⟨mrKey,entry⟩⟩
  · rw [ha] at hsome
    cases hsome
  · dsimp only
    split_ifs <;> simp

/-- What a registration does: it runs out of memory, or it adds a region. It never panics. -/
theorem register_cases (d : Bool) (m : Mtt) (live : List (UInt32 × PgtEntry)) (h : Tracks d m live)
    (numPages : Nat) (key : UInt8) :
    (m.register d numPages key).result=some (.error .outOfMemory) ∧
      Alloc.Refuses m.alloc (m.register d numPages key).next.alloc ∧
      (m.register d numPages key).next.mrkeyMap=m.mrkeyMap ∧
      Tracks d (m.register d numPages key).next live ∨
    ∃ idx mrKey entry,(m.register d numPages key).result=some (.ok (mrKey,entry)) ∧
      Alloc.Takes m.alloc (m.register d numPages key).next.alloc numPages key idx mrKey entry ∧
      Tracks d (m.register d numPages key).next (live++[(mrKey,entry)]) := by
  rcases ha : m.alloc.alloc numPages key with ⟨alloc,_|⟨mrKey,entry⟩⟩
  · have hr := Alloc.alloc_none _ _ _ _ ha
    left
    rw [register,ha]
    exact ⟨rfl,hr,rfl,h.refuse d m live alloc hr⟩
  · obtain ⟨idx,ht⟩ := Alloc.alloc_some _ _ _ _ _ _ ha
    have hidx : idx∈m.alloc.mr.freeList := by simp [ht.front]
    -- the index of a free key belongs to no region, so the map has no entry for the new key
    have hnew : ∀ e,(mrKey,e)∉live := by
      intro e he
      have hout := (h.taken _ he).1
      rw [ht.key,keyIndex_key idx key (h.freeBound idx hidx)] at hout
      exact hout hidx
    have hmap : m.mrkeyMap mrKey=none := by
      rcases hk : m.mrkeyMap mrKey with _|e
      · rfl
      · exact absurd ((h.map mrKey e).mp hk).2 (hnew e)
    right
    refine ⟨idx,mrKey,entry,?_⟩
    rw [register,ha]
    cases d with
    | false =>
        refine ⟨rfl,ht,h.grant _ m _ live numPages key idx mrKey entry ht ?_⟩
        intro k e
        simpa using h.map k e
    | true =>
        refine ⟨by simp [hmap],ht,h.grant _ m _ live numPages key idx mrKey entry ht ?_⟩
        intro k e
        simp only [if_true,true_and,List.mem_append,List.mem_singleton,Prod.mk.injEq]
        by_cases hk : k=mrKey
        · subst hk
          rw [Function.update_self,Option.some.injEq]
          exact ⟨fun he => Or.inr ⟨rfl,he.symm⟩,
            fun he => (he.resolve_left (hnew e)).2.symm⟩
        · rw [Function.update_of_ne hk,h.map]
          simp [hk]

/-- What is left after the region of a key has been freed. -/
theorem Tracks.free (m : Mtt) (live : List (UInt32 × PgtEntry)) (h : Tracks true m live)
    (mrKey : UInt32) (entry : PgtEntry) (hmem : (mrKey,entry)∈live) :
    Tracks true ⟨⟨⟨keyIndex mrKey::m.alloc.mr.freeList⟩,
      ⟨FirstFit.clear m.alloc.pgt.freeList entry.index.toNat entry.count.toNat⟩⟩,
      Function.update m.mrkeyMap mrKey none⟩ (live.filter (fun r => r.1≠mrKey)) := by
  have hsub : (live.filter (fun r => r.1≠mrKey)).Sublist live := List.filter_sublist
  have hne : ∀ r∈live.filter (fun r => r.1≠mrKey),r.1≠mrKey ∧ r∈live := by
    intro r hr
    simpa [and_comm] using List.mem_filter.mp hr
  have hkept : ∀ r∈live,r.1≠mrKey → ∀ i,r.2.Covers i → ¬entry.Covers i := by
    intro r hr hk i hi he
    have hother : (mrKey,entry)≠r := fun heq => hk (by rw [← heq])
    have : Std.Symm (fun r s : UInt32 × PgtEntry => ∀ i,r.2.Covers i → ¬s.2.Covers i) :=
      ⟨fun _ _ hxy i hy hx => hxy i hx hy⟩
    exact h.disjoint.forall hmem hr hother i he hi
  refine ⟨?_,?_,h.keys.sublist (hsub.map _),?_,h.disjoint.sublist hsub,?_,?_,?_⟩
  · exact List.nodup_cons.mpr ⟨(h.taken _ hmem).1,h.freeNodup⟩
  · intro i hi
    rcases List.mem_cons.mp hi with rfl|hi
    · exact (h.taken _ hmem).2
    · exact h.freeBound i hi
  · intro r hr
    obtain ⟨hk,hr⟩ := hne r hr
    refine ⟨?_,(h.taken r hr).2⟩
    intro hin
    rcases List.mem_cons.mp hin with heq|hin
    · exact hk (congrArg Prod.fst (h.unique _ m live r (mrKey,entry) hr hmem heq))
    · exact (h.taken r hr).1 hin
  · intro r hr
    exact h.inside r (hne r hr).2
  · intro r hr i hi
    obtain ⟨hk,hr⟩ := hne r hr
    have hout : ¬(entry.index.toNat ≤ i ∧ i<entry.index.toNat+entry.count.toNat) :=
      hkept r hr hk i hi
    change (FirstFit.clear m.alloc.pgt.freeList _ _).getLsbD i=true
    rw [FirstFit.getLsbD_clear,h.used r hr i hi,decide_eq_false hout]
    rfl
  · intro k e
    simp only [true_and,List.mem_filter,decide_eq_true_eq]
    by_cases hk : k=mrKey
    · subst hk
      simp
    · rw [Function.update_of_ne hk,h.map]
      simp [hk]

/-- What a deregistration does: it refuses a key the map does not have, or it frees the region
of the key. -/
theorem deregister_cases (d : Bool) (m : Mtt) (live : List (UInt32 × PgtEntry))
    (h : Tracks d m live) (mrKey : UInt32) :
    ((∀ e,d=true → (mrKey,e)∉live) ∧
      m.deregister mrKey=(m,.error (.invalidInput "failed to remove mr key"))) ∨
    ∃ entry,d=true ∧ (mrKey,entry)∈live ∧
      m.deregister mrKey=(⟨⟨⟨keyIndex mrKey::m.alloc.mr.freeList⟩,
        ⟨FirstFit.clear m.alloc.pgt.freeList entry.index.toNat entry.count.toNat⟩⟩,
        Function.update m.mrkeyMap mrKey none⟩,.ok ()) ∧
      Tracks d (m.deregister mrKey).1 (live.filter (fun r => r.1≠mrKey)) := by
  rcases hk : m.mrkeyMap mrKey with _|entry
  · left
    refine ⟨?_,by rw [deregister,hk]⟩
    intro e hd hmem
    rw [(h.map mrKey e).mpr ⟨hd,hmem⟩] at hk
    cases hk
  · obtain ⟨hd,hmem⟩ := (h.map mrKey entry).mp hk
    have heq : m.deregister mrKey=(⟨⟨⟨keyIndex mrKey::m.alloc.mr.freeList⟩,
        ⟨FirstFit.clear m.alloc.pgt.freeList entry.index.toNat entry.count.toNat⟩⟩,
        Function.update m.mrkeyMap mrKey none⟩,.ok ()) := by
      rw [deregister,hk]
      dsimp only
      rw [Alloc.dealloc_inside _ _ _ (h.inside _ hmem).2]
      rfl
    right
    refine ⟨entry,hd,hmem,heq,?_⟩
    rw [heq]
    subst hd
    exact h.free m live mrKey entry hmem

end Mtt
end BlueRdma

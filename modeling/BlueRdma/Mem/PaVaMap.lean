import BlueRdma.Math.SortedMap

namespace BlueRdma

/-- A range of physical addresses, its end not included, and where it is mapped. -/
structure AddressRange where
  paStart : UInt64
  paEnd : UInt64
  vaStart : UInt64
  deriving DecidableEq

namespace AddressRange

def contains (r : AddressRange) (pa : UInt64) : Bool := r.paStart≤pa && pa < r.paEnd

/-- The virtual address, and the bytes from there to the end of the range. -/
def paToVaWithLen (r : AddressRange) (pa : UInt64) : Option (UInt64 × UInt64) :=
  if r.contains pa then some (r.vaStart+(pa-r.paStart),r.paEnd-pa) else none

end AddressRange

/-- The mapping between physical and virtual addresses that the simulator uses. -/
structure PaVaMap where
  ranges : SortedMap UInt64 AddressRange := .empty
  vaToPa : SortedMap UInt64 UInt64 := .empty

namespace PaVaMap

/-- There is no result when the call panics: a range that overlaps with the new one is a fatal
error, and so is an end beyond the word size in builds that check for overflow. -/
def insert (overflowChecks : Bool) (m : PaVaMap) (pa va size : UInt64) : Option PaVaMap :=
  if overflowChecks && 2^64≤pa.toNat+size.toNat then none
  else
    let range : AddressRange := ⟨pa,pa+size,va⟩
    if m.ranges.entries.any
        (fun e => range.paStart<e.2.paEnd && e.2.paStart < range.paEnd) then none
    else some ⟨m.ranges.insert pa range,m.vaToPa.insert va pa⟩

def lookup (m : PaVaMap) (pa : UInt64) : Option (UInt64 × UInt64) :=
  (m.ranges.upTo pa).findSome? (fun e => e.2.paToVaWithLen pa)

/-- Only the exact start of a range is found. -/
def lookupByVa (m : PaVaMap) (va : UInt64) : Option UInt64 := m.vaToPa.get? va

/-- Without a range that starts there the call panics. -/
def remove (m : PaVaMap) (pa : UInt64) : Option PaVaMap :=
  match m.ranges.get? pa with
  | none => none
  | some range => some ⟨m.ranges.erase pa,m.vaToPa.erase range.vaStart⟩

/-- The physical address is looked up first; the call panics if either map has no entry. -/
def removeByVa (m : PaVaMap) (va : UInt64) : Option PaVaMap :=
  match m.vaToPa.get? va with
  | none => none
  | some pa => match m.ranges.get? pa with
    | none => none
    | some _ => some ⟨m.ranges.erase pa,m.vaToPa.erase va⟩

end PaVaMap

/-- A mapped range by its addresses and its size. -/
structure Region where
  pa : UInt64
  va : UInt64
  size : UInt64
  deriving DecidableEq

namespace Region

def Has (g : Region) (pa : UInt64) : Prop :=
  g.pa.toNat≤pa.toNat ∧ pa.toNat<g.pa.toNat+g.size.toNat

/-- The physical addresses of two ranges do not overlap. -/
def Apart (g h : Region) : Prop :=
  g.pa.toNat+g.size.toNat≤h.pa.toNat ∨ h.pa.toNat+h.size.toNat≤g.pa.toNat

def range (g : Region) : AddressRange := ⟨g.pa,g.pa+g.size,g.va⟩

theorem Apart.symm {g h : Region} (hap : g.Apart h) : h.Apart g := Or.symm hap

theorem Apart.pa_ne {g h : Region} (hap : g.Apart h) (hg : 0 < g.size.toNat)
    (hh : 0 < h.size.toNat) : g.pa≠h.pa := by
  intro heq
  rw [Apart,heq] at hap
  omega

/-- Ranges with an address in common are the same. -/
theorem eq_of_has (gs : List Region) (hap : gs.Pairwise Apart) (g h : Region) (hg : g∈gs)
    (hh : h∈gs) (pa : UInt64) (hgpa : g.Has pa) (hhpa : h.Has pa) : g=h := by
  by_contra hne
  have : Std.Symm Apart := ⟨fun _ _ => Apart.symm⟩
  have hapart := hap.forall hg hh hne
  rw [Apart] at hapart
  rw [Has] at hgpa hhpa
  omega

theorem paEnd_toNat (g : Region) (h : g.pa.toNat+g.size.toNat<2^64) :
    g.range.paEnd.toNat=g.pa.toNat+g.size.toNat := by
  rw [range,UInt64.toNat_add,Nat.mod_eq_of_lt h]

theorem range_contains (g : Region) (h : g.pa.toNat+g.size.toNat<2^64) (pa : UInt64) :
    g.range.contains pa=true ↔ g.Has pa := by
  rw [AddressRange.contains,Bool.and_eq_true,decide_eq_true_eq,decide_eq_true_eq,
    UInt64.le_iff_toNat_le,UInt64.lt_iff_toNat_lt,g.paEnd_toNat h]
  rfl

end Region

namespace PaVaMap

/-- The map has exactly the given ranges, which lie apart. -/
structure Covers (m : PaVaMap) (gs : List Region) : Prop where
  ranges : ∀ e,e∈m.ranges.entries ↔ ∃ g∈gs,e=(g.pa,g.range)
  apart : gs.Pairwise Region.Apart
  inside : ∀ g∈gs,g.pa.toNat+g.size.toNat<2^64

section
variable (m : PaVaMap) (gs : List Region) (h : Covers m gs)
include h

/-- The check for overlaps lets exactly the ranges pass that lie apart from the others. -/
theorem Covers.insert_eq_some (d : Bool) (g : Region) (hin : g.pa.toNat+g.size.toNat<2^64)
    (m' : PaVaMap) : m.insert d g.pa g.va g.size=some m' ↔ (∀ f∈gs,f.Apart g) ∧
      m'=⟨m.ranges.insert g.pa g.range,m.vaToPa.insert g.va g.pa⟩ := by
  have hany : m.ranges.entries.any
      (fun e => g.range.paStart<e.2.paEnd && e.2.paStart < g.range.paEnd)=false ↔
      ∀ f∈gs,f.Apart g := by
    have hend := g.paEnd_toNat hin
    have hmeet (f : Region) (hf : f∈gs) :
        ¬(g.range.paStart<f.range.paEnd && f.range.paStart < g.range.paEnd)=true ↔ f.Apart g := by
      have hend' := f.paEnd_toNat (h.inside f hf)
      rw [Bool.and_eq_true,decide_eq_true_eq,decide_eq_true_eq,UInt64.lt_iff_toNat_lt,
        UInt64.lt_iff_toNat_lt,hend,hend',Region.Apart]
      change ¬(g.pa.toNat < f.pa.toNat+f.size.toNat ∧ f.pa.toNat < g.pa.toNat+g.size.toNat) ↔ _
      omega
    rw [List.any_eq_false]
    constructor
    · intro hno f hf
      exact (hmeet f hf).mp (hno _ ((h.ranges _).mpr ⟨f,hf,rfl⟩))
    · intro hap e he
      obtain ⟨f,hf,rfl⟩ := (h.ranges e).mp he
      exact (hmeet f hf).mpr (hap f hf)
  have hfits : (d && 2^64≤g.pa.toNat+g.size.toNat)=false := by
    rw [decide_eq_false (by omega),Bool.and_false]
  rw [PaVaMap.insert,hfits,if_neg Bool.false_ne_true]
  change (if m.ranges.entries.any
    (fun e => g.range.paStart<e.2.paEnd && e.2.paStart < g.range.paEnd)=true then none else
      some ⟨m.ranges.insert g.pa g.range,m.vaToPa.insert g.va g.pa⟩)=some m' ↔ _
  rw [← hany]
  split_ifs with hover
  · simp [hover]
  · simp [hover,eq_comm]

theorem Covers.insert (g : Region) (hpos : 0 < g.size.toNat) (hin : g.pa.toNat+g.size.toNat<2^64)
    (hall : ∀ f∈gs,0 < f.size.toNat) (hap : ∀ f∈gs,f.Apart g) :
    Covers ⟨m.ranges.insert g.pa g.range,m.vaToPa.insert g.va g.pa⟩ (g::gs) := by
  have hnew : ∀ f∈gs,f.pa≠g.pa := fun f hf => (hap f hf).pa_ne (hall f hf) hpos
  refine ⟨?_,List.pairwise_cons.mpr ⟨fun f hf => (hap f hf).symm,h.apart⟩,?_⟩
  · intro e
    rw [SortedMap.mem_insert,h.ranges]
    constructor
    · rintro (rfl|⟨-,f,hf,rfl⟩)
      · exact ⟨g,List.mem_cons_self,rfl⟩
      · exact ⟨f,List.mem_cons_of_mem g hf,rfl⟩
    · rintro ⟨f,hf,rfl⟩
      rcases List.mem_cons.mp hf with rfl|hf
      · exact Or.inl rfl
      · exact Or.inr ⟨hnew f hf,f,hf,rfl⟩
  · intro f hf
    rcases List.mem_cons.mp hf with rfl|hf
    · exact hin
    · exact h.inside f hf

/-- The order in which the ranges are listed does not matter. -/
theorem Covers.perm (gs' : List Region) (hp : gs.Perm gs') : Covers m gs' := by
  refine ⟨?_,(hp.pairwise_iff Region.Apart.symm).mp h.apart,
    fun g hg => h.inside g (hp.mem_iff.mpr hg)⟩
  intro e
  rw [h.ranges]
  simp only [hp.mem_iff]

/-- The range that starts at an address, if there is one. -/
theorem Covers.get?_eq_some (pa : UInt64) (r : AddressRange) :
    m.ranges.get? pa=some r ↔ ∃ g∈gs,g.pa=pa ∧ g.range=r := by
  rw [SortedMap.get?_eq_some,h.ranges]
  simp only [Prod.mk.injEq,eq_comm]

/-- Taking away what starts at an address leaves the other ranges. -/
theorem Covers.erase (pa : UInt64) (vas : SortedMap UInt64 UInt64) :
    Covers ⟨m.ranges.erase pa,vas⟩ (gs.filter (fun g => g.pa≠pa)) := by
  refine ⟨?_,h.apart.sublist List.filter_sublist,fun g hg => h.inside g (List.mem_filter.mp hg).1⟩
  intro e
  rw [SortedMap.mem_erase,h.ranges]
  constructor
  · rintro ⟨hne,g,hg,rfl⟩
    exact ⟨g,List.mem_filter.mpr ⟨hg,decide_eq_true hne⟩,rfl⟩
  · rintro ⟨g,hg,rfl⟩
    obtain ⟨hg,hne⟩ := List.mem_filter.mp hg
    exact ⟨of_decide_eq_true hne,g,hg,rfl⟩

/-- An address is found exactly when a range has it. -/
theorem Covers.lookup_eq_none (pa : UInt64) : m.lookup pa=none ↔ ∀ g∈gs,¬g.Has pa := by
  rw [lookup,List.findSome?_eq_none_iff]
  constructor
  · intro hnone g hg hhas
    have hle : g.pa≤pa := UInt64.le_iff_toNat_le.mpr hhas.1
    have hmem : (g.pa,g.range)∈m.ranges.upTo pa := by
      rw [SortedMap.upTo,List.mem_reverse,List.mem_filter]
      exact ⟨(h.ranges _).mpr ⟨g,hg,rfl⟩,decide_eq_true hle⟩
    have hfound := hnone _ hmem
    rw [AddressRange.paToVaWithLen,if_pos ((g.range_contains (h.inside g hg) pa).mpr hhas)]
      at hfound
    cases hfound
  · intro hno e he
    rw [SortedMap.upTo,List.mem_reverse,List.mem_filter] at he
    obtain ⟨g,hg,rfl⟩ := (h.ranges e).mp he.1
    rw [AddressRange.paToVaWithLen,if_neg]
    rw [g.range_contains (h.inside g hg)]
    exact hno g hg

/-- What is found is the range that has the address, as no other one does. -/
theorem Covers.lookup_eq_some (g : Region) (hg : g∈gs) (pa : UInt64) (hhas : g.Has pa) :
    m.lookup pa=some (g.va+(pa-g.pa),g.pa+g.size-pa) := by
  rcases hl : m.lookup pa with _|r
  · exact absurd hhas ((h.lookup_eq_none m gs pa).mp hl g hg)
  rw [lookup] at hl
  obtain ⟨e,he,heq⟩ := List.exists_of_findSome?_eq_some hl
  rw [SortedMap.upTo,List.mem_reverse,List.mem_filter] at he
  obtain ⟨f,hf,rfl⟩ := (h.ranges e).mp he.1
  rw [AddressRange.paToVaWithLen] at heq
  split_ifs at heq with hc
  have hfhas := (f.range_contains (h.inside f hf) pa).mp hc
  rw [← heq,Region.eq_of_has gs h.apart f g hf hg pa hfhas hhas]
  rfl

end
end PaVaMap

/-- A page by its addresses. -/
structure Page where
  pa : UInt64
  va : UInt64
  deriving DecidableEq

namespace Page

/-- A page of the given size as a mapped range. -/
def region (size : UInt64) (g : Page) : Region := ⟨g.pa,g.va,size⟩

def Has (size : UInt64) (g : Page) : UInt64 → Prop := (g.region size).Has

def Apart (size : UInt64) (g h : Page) : Prop := (g.region size).Apart (h.region size)

instance (size : UInt64) (g h : Page) : Decidable (Apart size g h) :=
  inferInstanceAs (Decidable (_ ∨ _))

theorem has_iff (size : UInt64) (g : Page) (pa : UInt64) :
    g.Has size pa ↔ g.pa.toNat≤pa.toNat ∧ pa.toNat<g.pa.toNat+size.toNat := Iff.rfl

theorem apart_iff (size : UInt64) (g h : Page) : g.Apart size h ↔
    g.pa.toNat+size.toNat≤h.pa.toNat ∨ h.pa.toNat+size.toNat≤g.pa.toNat := Iff.rfl

end Page

namespace PaVaMap

/-- The map has exactly the given pages, which are also found by their virtual addresses. -/
structure Holds (size : UInt64) (m : PaVaMap) (pages : List Page) : Prop where
  covers : Covers m (pages.map (Page.region size))
  vas : ∀ va,(m.lookupByVa va).isSome ↔ ∃ g∈pages,g.va=va

theorem covers_empty : Covers {} [] := by
  refine ⟨?_,List.Pairwise.nil,by simp⟩
  simp [SortedMap.empty]

theorem holds_empty (size : UInt64) : Holds size {} [] := by
  refine ⟨covers_empty,?_⟩
  simp [lookupByVa,SortedMap.get?,SortedMap.empty]

section
variable (size : UInt64) (m : PaVaMap) (pages : List Page) (h : Holds size m pages)
include h

/-- A page apart from the others can be added. -/
theorem Holds.insert (hsize : 0 < size.toNat) (d : Bool) (g : Page)
    (hin : g.pa.toNat+size.toNat<2^64) (hapart : ∀ f∈pages,f.Apart size g) :
    ∃ m',m.insert d g.pa g.va size=some m' ∧ Holds size m' (pages++[g]) := by
  have hall : ∀ f∈pages.map (Page.region size),f.Apart (g.region size) :=
    List.forall_mem_map.mpr hapart
  have hnext := h.covers.insert m _ (g.region size) hsize hin
    (List.forall_mem_map.mpr fun _ _ => hsize) hall
  refine ⟨_,(h.covers.insert_eq_some m _ d (g.region size) hin _).mpr ⟨hall,rfl⟩,?_,?_⟩
  · apply hnext.perm
    rw [List.map_append]
    exact (List.perm_append_singleton _ _).symm
  · intro va
    have hold := h.vas va
    rw [lookupByVa,Option.isSome_iff_exists] at hold ⊢
    simp only [SortedMap.get?_insert]
    constructor
    · rintro ⟨pa,⟨rfl,-⟩|⟨-,hmem⟩⟩
      · exact ⟨g,by simp,rfl⟩
      · obtain ⟨f,hf,hva⟩ := hold.mp ⟨pa,hmem⟩
        exact ⟨f,by simp [hf],hva⟩
    · rintro ⟨f,hf,hva⟩
      by_cases hgva : va=g.va
      · exact ⟨g.pa,Or.inl ⟨hgva,rfl⟩⟩
      · rcases List.mem_append.mp hf with hf|hf
        · obtain ⟨pa,hmem⟩ := hold.mpr ⟨f,hf,hva⟩
          exact ⟨pa,Or.inr ⟨hgva,hmem⟩⟩
        · obtain rfl := List.mem_singleton.mp hf
          exact absurd hva.symm hgva

/-- An address is found exactly when a page has it. -/
theorem Holds.lookup_eq_none (pa : UInt64) :
    m.lookup pa=none ↔ ∀ g∈pages,¬g.Has size pa := by
  rw [h.covers.lookup_eq_none]
  exact List.forall_mem_map

/-- What is found is the page that has the address, as no other one does. -/
theorem Holds.lookup_eq_some (g : Page) (hg : g∈pages) (pa : UInt64) (hhas : g.Has size pa) :
    m.lookup pa=some (g.va+(pa-g.pa),g.pa+size-pa) :=
  h.covers.lookup_eq_some m _ (g.region size) (List.mem_map_of_mem hg) pa hhas

end
end PaVaMap
end BlueRdma

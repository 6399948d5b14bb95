import BlueRdma.Mem.PaVaMap

namespace BlueRdma

inductive PaVaOp
  | insert (g : Region)
  | remove (pa : UInt64)
  | removeByVa (va : UInt64)

namespace PaVaOp

/-- Ranges are not empty and end inside both address spaces. -/
def Fits : PaVaOp → Prop
  | .insert g => 0 < g.size.toNat ∧ g.pa.toNat+g.size.toNat<2^64 ∧ g.va.toNat+g.size.toNat<2^64
  | _ => True

/-- What an operation makes of the live ranges, the newest first. Of several ranges at one
virtual address the newest is removed. -/
def live (gs : List Region) : PaVaOp → List Region
  | .insert g => g::gs
  | .remove pa => gs.filter (fun g => g.pa≠pa)
  | .removeByVa va => gs.eraseP (fun g => g.va=va)

end PaVaOp

namespace PaVaMap

/-- An operation; there is no map after one that panics. -/
def apply (d : Bool) (m : PaVaMap) : PaVaOp → Option PaVaMap
  | .insert g => m.insert d g.pa g.va g.size
  | .remove pa => m.remove pa
  | .removeByVa va => m.removeByVa va

def applyAll (d : Bool) (m : PaVaMap) (ops : List PaVaOp) : Option PaVaMap :=
  ops.foldlM (apply d) m

/-- The map has the live ranges, none of them empty, and its other index leads to the newest range
at a virtual address. -/
structure Lives (m : PaVaMap) (gs : List Region) : Prop where
  covers : Covers m gs
  fits : ∀ g∈gs,0 < g.size.toNat ∧ g.va.toNat+g.size.toNat<2^64
  newest : ∀ va pa,m.vaToPa.get? va=some pa →
    ∃ g,gs.find? (fun g => g.va=va)=some g ∧ g.pa=pa

theorem lives_empty : Lives {} [] :=
  ⟨⟨by simp [SortedMap.empty],List.Pairwise.nil,by simp⟩,by simp,
    by simp [SortedMap.get?,SortedMap.empty]⟩

section
variable (m m' : PaVaMap) (gs : List Region) (h : Lives m gs)
include h

/-- Two live ranges that start at one address are the same. -/
theorem Lives.eq_of_pa (f g : Region) (hf : f∈gs) (hg : g∈gs) (heq : f.pa=g.pa) : f=g := by
  have hfpos := (h.fits f hf).1
  have hgpos := (h.fits g hg).1
  refine Region.eq_of_has gs h.covers.apart f g hf hg f.pa ⟨le_rfl,by omega⟩ ?_
  rw [heq]
  exact ⟨le_rfl,by omega⟩

theorem Lives.insert (d : Bool) (g : Region) (hg : PaVaOp.Fits (.insert g))
    (hm : m.insert d g.pa g.va g.size=some m') : Lives m' (g::gs) := by
  obtain ⟨hpos,hin,hva⟩ := hg
  obtain ⟨hap,rfl⟩ := (h.covers.insert_eq_some m gs d g hin m').mp hm
  refine ⟨h.covers.insert m gs g hpos hin (fun f hf => (h.fits f hf).1) hap,?_,?_⟩
  · intro f hf
    rcases List.mem_cons.mp hf with rfl|hf
    · exact ⟨hpos,hva⟩
    · exact h.fits f hf
  · intro va pa hget
    rcases (SortedMap.get?_insert ..).mp hget with ⟨rfl,rfl⟩|⟨hne,hold⟩
    · exact ⟨g,List.find?_cons_of_pos (decide_eq_true rfl),rfl⟩
    · rw [List.find?_cons_of_neg (by simpa using Ne.symm hne)]
      exact h.newest va pa hold

theorem Lives.remove (pa : UInt64) (hm : m.remove pa=some m') :
    Lives m' (gs.filter (fun g => g.pa≠pa)) := by
  rw [PaVaMap.remove] at hm
  split at hm
  · cases hm
  next range hget =>
  obtain rfl := Option.some.inj hm
  obtain ⟨g,hg,rfl,rfl⟩ := (h.covers.get?_eq_some m gs pa range).mp hget
  refine ⟨h.covers.erase m gs g.pa _,fun f hf => h.fits f (List.mem_filter.mp hf).1,?_⟩
  intro va pa hva
  obtain ⟨hne,hold⟩ := (SortedMap.get?_erase ..).mp hva
  obtain ⟨f,hfind,rfl⟩ := h.newest va pa hold
  refine ⟨f,?_,rfl⟩
  -- the range that goes is mapped elsewhere, so the search passes it by
  rw [List.find?_filter,← hfind]
  apply List.find?_congr
  intro x hx
  by_cases hxva : x.va=va
  · have hxpa : x.pa≠g.pa := by
      intro heq
      rw [h.eq_of_pa m gs x g hx hg heq] at hxva
      exact hne hxva.symm
    simp [hxva,hxpa]
  · simp [hxva]

theorem Lives.removeByVa (va : UInt64) (hm : m.removeByVa va=some m') :
    Lives m' (gs.eraseP (fun g => g.va=va)) := by
  rw [PaVaMap.removeByVa] at hm
  split at hm
  · cases hm
  next pa hget =>
  split at hm
  · cases hm
  obtain rfl := Option.some.inj hm
  obtain ⟨g,hfind,rfl⟩ := h.newest va pa hget
  obtain ⟨hgva,before,after,rfl,hbefore⟩ := List.find?_eq_some_iff_append.mp hfind
  have hgva : g.va=va := of_decide_eq_true hgva
  have hbefore (f : Region) (hf : f∈before) : ¬f.va=va := by simpa using hbefore f hf
  have herase : (before++g::after).eraseP (fun g => g.va=va)=before++after := by
    rw [List.eraseP_append_right _ (by simpa using hbefore)]
    exact congrArg (before++·) (List.eraseP_cons_of_pos (decide_eq_true hgva))
  -- no other range starts where it does
  have hpos := fun f hf => (h.fits f hf).1
  have hg : g∈before++g::after := by simp
  obtain ⟨-,hapart,hcross⟩ := List.pairwise_append.mp h.covers.apart
  have hfront : ∀ f∈before,f.pa≠g.pa := fun f hf =>
    (hcross f hf g List.mem_cons_self).pa_ne (hpos f (by simp [hf])) (hpos g hg)
  have hback : ∀ f∈after,f.pa≠g.pa := fun f hf =>
    ((List.pairwise_cons.mp hapart).1 f hf).symm.pa_ne (hpos f (by simp [hf])) (hpos g hg)
  have hothers : (before++g::after).filter (fun f => f.pa≠g.pa)=before++after := by
    rw [List.filter_append,List.filter_cons_of_neg (by simp),
      List.filter_eq_self.mpr (by simpa using hfront),List.filter_eq_self.mpr (by simpa using hback)]
  have hcovers := h.covers.erase m _ g.pa (m.vaToPa.erase va)
  rw [hothers] at hcovers
  rw [herase]
  refine ⟨hcovers,fun f hf => h.fits f ?_,?_⟩
  · rcases List.mem_append.mp hf with hf|hf <;> simp [hf]
  · intro va' pa hva
    obtain ⟨hne,hold⟩ := (SortedMap.get?_erase ..).mp hva
    obtain ⟨f,hfind',hf⟩ := h.newest va' pa hold
    refine ⟨f,?_,hf⟩
    rw [List.find?_append,List.find?_cons_of_neg (by simpa [hgva] using hne.symm)] at hfind'
    rw [List.find?_append]
    exact hfind'

/-- One operation that does not panic. -/
theorem Lives.apply (d : Bool) (op : PaVaOp) (hop : op.Fits) (hm : m.apply d op=some m') :
    Lives m' (op.live gs) := by
  cases op with
  | insert g => exact h.insert m m' gs d g hop hm
  | remove pa => exact h.remove m m' gs pa hm
  | removeByVa va => exact h.removeByVa m m' gs va hm

theorem Lives.applyAll (d : Bool) (ops : List PaVaOp) (hops : ∀ op∈ops,op.Fits)
    (hm : m.applyAll d ops=some m') : Lives m' (ops.foldl PaVaOp.live gs) := by
  induction ops generalizing m gs with
  | nil =>
      obtain rfl := Option.some.inj hm
      exact h
  | cons op ops ih =>
      rw [PaVaMap.applyAll,List.foldlM_cons] at hm
      obtain ⟨m₁,h₁,h₂⟩ := Option.bind_eq_some_iff.mp hm
      exact ih m₁ (op.live gs) (h.apply m m₁ gs d op (hops op List.mem_cons_self) h₁)
        (fun x hx => hops x (List.mem_cons_of_mem op hx)) h₂

/-- What a lookup finds, in numbers: the sums do not overflow. -/
theorem Lives.lookup_iff (pa v r : UInt64) : m.lookup pa=some (v,r) ↔
    ∃ g∈gs,g.Has pa ∧ v.toNat=g.va.toNat+(pa.toNat-g.pa.toNat) ∧
      r.toNat=g.pa.toNat+g.size.toNat-pa.toNat := by
  have hvalue (g : Region) (hg : g∈gs) (hhas : g.Has pa) :
      (g.va+(pa-g.pa)).toNat=g.va.toNat+(pa.toNat-g.pa.toNat) ∧
      (g.pa+g.size-pa).toNat=g.pa.toNat+g.size.toNat-pa.toNat := by
    have hin := h.covers.inside g hg
    have hva := (h.fits g hg).2
    have hend : (g.pa+g.size).toNat=g.pa.toNat+g.size.toNat := g.paEnd_toNat hin
    rw [Region.Has] at hhas
    refine ⟨?_,?_⟩
    · rw [UInt64.toNat_add,UInt64.toNat_sub_of_le _ _ (UInt64.le_iff_toNat_le.mpr hhas.1)]
      omega
    · rw [UInt64.toNat_sub_of_le _ _ (UInt64.le_iff_toNat_le.mpr (by omega)),hend]
  constructor
  · intro hfound
    obtain ⟨g,hg,hhas⟩ : ∃ g∈gs,g.Has pa := by
      by_contra hno
      have hnone := (h.covers.lookup_eq_none m gs pa).mpr (fun g hg hhas => hno ⟨g,hg,hhas⟩)
      rw [hnone] at hfound
      cases hfound
    rw [h.covers.lookup_eq_some m gs g hg pa hhas] at hfound
    obtain ⟨rfl,rfl⟩ := Prod.mk.inj (Option.some.inj hfound)
    exact ⟨g,hg,hhas,hvalue g hg hhas⟩
  · rintro ⟨g,hg,hhas,hv,hr⟩
    obtain ⟨hv',hr'⟩ := hvalue g hg hhas
    rw [h.covers.lookup_eq_some m gs g hg pa hhas,UInt64.toNat_inj.mp (hv'.trans hv.symm),
      UInt64.toNat_inj.mp (hr'.trans hr.symm)]

end

/-- After any run of operations that does not panic, the live ranges lie apart, and a physical
address is found exactly if one of them has it, with its place and what is left behind it. -/
theorem phys_lookup_exact (d : Bool) (ops : List PaVaOp) (hops : ∀ op∈ops,op.Fits) (m : PaVaMap)
    (h : applyAll d {} ops=some m) :
    (ops.foldl PaVaOp.live []).Pairwise Region.Apart ∧
    ∀ pa v r,m.lookup pa=some (v,r) ↔ ∃ g∈ops.foldl PaVaOp.live [],
      g.Has pa ∧ v.toNat=g.va.toNat+(pa.toNat-g.pa.toNat) ∧
        r.toNat=g.pa.toNat+g.size.toNat-pa.toNat := by
  have hlives := lives_empty.applyAll {} m [] d ops hops h
  exact ⟨hlives.covers.apart,hlives.lookup_iff m _⟩

/-- Two ranges at one virtual address, of which the newer one is removed, and a range that takes
the place of the removed one. -/
def reinserted : List PaVaOp :=
  [.insert ⟨0x1000,0x7000,0x1000⟩,.insert ⟨0x2000,0x7000,0x1000⟩,.removeByVa 0x7000,
    .insert ⟨0x2000,0x9000,0x800⟩]

theorem phys_lookup_exact_reinserted :
    ∃ m,applyAll true {} reinserted=some m ∧ m.lookup 0x1010=some (0x7010,0xFF0) ∧
      m.lookup 0x2010=some (0x9010,0x7F0) := by
  obtain ⟨m,hm⟩ : ∃ m,applyAll true {} reinserted=some m :=
    Option.isSome_iff_exists.mp (by decide +kernel)
  have hfits : ∀ op∈reinserted,op.Fits := by
    intro op hop
    simp only [reinserted,List.mem_cons,List.not_mem_nil,or_false] at hop
    rcases hop with rfl|rfl|rfl|rfl <;> simp [PaVaOp.Fits]
  have hlookup := (phys_lookup_exact true reinserted hfits m hm).2
  refine ⟨m,hm,(hlookup _ _ _).mpr ⟨⟨0x1000,0x7000,0x1000⟩,?_,?_,?_,?_⟩,
    (hlookup _ _ _).mpr ⟨⟨0x2000,0x9000,0x800⟩,?_,?_,?_,?_⟩⟩
  all_goals first | decide +kernel | exact ⟨by decide,by decide⟩

end PaVaMap
end BlueRdma

import BlueRdma.Framework.Run
import BlueRdma.RdmaUtils.Mtt

namespace BlueRdma

/-- A range of page-table entries by its start and its length. -/
abbrev PgtRange := Nat × Nat

/-- The entries of a range. -/
def PgtRange.Has (r : PgtRange) (i : Nat) : Prop := r.1 ≤ i ∧ i < r.1+r.2

instance (r : PgtRange) (i : Nat) : Decidable (r.Has i) := inferInstanceAs (Decidable (_ ∧ _))

namespace PgtAlloc

/-- Entry `i` is in use. -/
def used (a : PgtAlloc) (i : Nat) : Bool := a.freeList.getLsbD i

/-- All entries of a range exist and are free. -/
def FreeRange (a : PgtAlloc) (r : PgtRange) : Prop :=
  r.1+r.2≤pgtLen ∧ ∀ i,r.Has i → a.used i=false

theorem freeRange_iff (a : PgtAlloc) (start len : Nat) :
    a.FreeRange (start,len) ↔ FirstFit.FreeAt a.freeList len start := by
  refine and_congr_right fun _ => ?_
  exact ⟨fun h j hj hlt => h j ⟨hj,hlt⟩,fun h j hj => h j hj.1 hj.2⟩

theorem alloc_result (a : PgtAlloc) (len : Nat) : (a.alloc len).2=FirstFit.search a.freeList len := by
  rw [alloc]
  split <;> simp_all

/-- What a successful call finds, and what it changes. -/
theorem alloc_some (a : PgtAlloc) (len start : Nat) (h : (a.alloc len).2=some start) :
    0<len ∧ a.FreeRange (start,len) ∧
    ∀ i,(a.alloc len).1.used i=(a.used i || decide (PgtRange.Has (start,len) i)) := by
  have hs := (a.alloc_result len).symm.trans h
  obtain ⟨hpos,hin,hfree⟩ := FirstFit.search_spec a.freeList len start hs
  refine ⟨hpos,(a.freeRange_iff start len).mpr ⟨hin,hfree⟩,?_⟩
  intro i
  rw [alloc,hs]
  change (FirstFit.mark a.freeList start len).getLsbD i=_
  rw [FirstFit.getLsbD_mark]
  refine congrArg (a.used i || ·) (decide_eq_decide.mpr ?_)
  rw [PgtRange.Has]
  omega

theorem alloc_none (a : PgtAlloc) (len : Nat) (h : (a.alloc len).2=none) : (a.alloc len).1=a := by
  rw [alloc,(a.alloc_result len).symm.trans h]

theorem dealloc_inside (a : PgtAlloc) (r : PgtRange) (h : r.1+r.2≤pgtLen) :
    (a.dealloc r.1 r.2).2=true ∧
    ∀ i,(a.dealloc r.1 r.2).1.used i=(a.used i && !decide (r.Has i)) := by
  have hlen : pgtLen<2^64 := by decide
  rw [dealloc,if_pos ⟨by omega,h⟩]
  exact ⟨rfl,FirstFit.getLsbD_clear a.freeList r.1 r.2⟩

/-- An allocator with the ranges it has returned that were not given back. -/
structure Client where
  pgt : PgtAlloc
  live : List PgtRange

inductive Request
  | alloc (len : Nat)
  | dealloc (r : PgtRange)

namespace Client

def step (c : Client) : Request → Client
  | .alloc len =>
    let (pgt,start) := c.pgt.alloc len
    ⟨pgt,c.live++start.toList.map (fun s => (s,len))⟩
  | .dealloc r => ⟨(c.pgt.dealloc r.1 r.2).1,c.live.erase r⟩

/-- Only live ranges are given back. -/
def Fair (c : Client) : Request → Prop
  | .alloc _ => True
  | .dealloc r => r∈c.live

/-- The live ranges are in use and share no entry. -/
structure Sound (c : Client) : Prop where
  inside : ∀ r∈c.live,0 < r.2 ∧ r.1+r.2≤pgtLen
  used : ∀ r∈c.live,∀ i,r.Has i → c.pgt.used i=true
  disjoint : c.live.Pairwise (fun r s => ∀ i,r.Has i → ¬s.Has i)

theorem Sound.alloc (c : Client) (h : Sound c) (len : Nat) : Sound (c.step (.alloc len)) := by
  rcases hs : (c.pgt.alloc len).2 with _|start
  · have hsame : c.step (.alloc len)=c := by
      simp only [step,hs,c.pgt.alloc_none len hs,Option.toList_none,List.map_nil,List.append_nil]
    rw [hsame]
    exact h
  have hnext : c.step (.alloc len)=⟨(c.pgt.alloc len).1,c.live++[(start,len)]⟩ := by
    simp only [step,hs,Option.toList_some,List.map_cons,List.map_nil]
  obtain ⟨hpos,⟨hin,hfree⟩,hbits⟩ := c.pgt.alloc_some len start hs
  rw [hnext]
  refine ⟨?_,?_,?_⟩
  · intro r hr
    rcases List.mem_append.mp hr with hr|hr
    · exact h.inside r hr
    · rw [List.mem_singleton.mp hr]
      exact ⟨hpos,hin⟩
  · intro r hr i hi
    change (c.pgt.alloc len).1.used i=true
    rw [hbits]
    rcases List.mem_append.mp hr with hr|hr
    · rw [h.used r hr i hi,Bool.true_or]
    · rw [List.mem_singleton.mp hr] at hi
      rw [decide_eq_true hi,Bool.or_true]
  · refine List.pairwise_append.mpr ⟨h.disjoint,List.pairwise_singleton ..,?_⟩
    intro r hr s hs' i hri hsi
    rw [List.mem_singleton.mp hs'] at hsi
    have hused := h.used r hr i hri
    rw [hfree i hsi] at hused
    cases hused

/-- A live range has no entry in common with the others. -/
theorem Sound.apart (c : Client) (h : Sound c) (r : PgtRange) (hr : r∈c.live) :
    ∀ s∈c.live.erase r,∀ i,r.Has i → ¬s.Has i := by
  have hperm := h.disjoint.perm (List.perm_cons_erase hr) (fun hxy i hy hx => hxy i hx hy)
  exact (List.pairwise_cons.mp hperm).1

theorem Sound.dealloc (c : Client) (h : Sound c) (r : PgtRange) (hr : r∈c.live) :
    Sound (c.step (.dealloc r)) := by
  have hbits := (c.pgt.dealloc_inside r (h.inside r hr).2).2
  have hsub : (c.live.erase r).Sublist c.live := List.erase_sublist
  refine ⟨fun s hs => h.inside s (hsub.subset hs),?_,h.disjoint.sublist hsub⟩
  intro s hs i hi
  have hnot : ¬r.Has i := fun hri => h.apart c r hr s hs i hri hi
  change (c.pgt.dealloc r.1 r.2).1.used i=true
  rw [hbits,h.used s (hsub.subset hs) i hi,decide_eq_false hnot]
  rfl

theorem step_sound (c : Client) (r : Request) (hr : Fair c r) (h : Sound c) : Sound (c.step r) := by
  cases r with
  | alloc len => exact h.alloc c len
  | dealloc r => exact h.dealloc c r hr

end Client

/-- The allocator takes the lowest range that fits, whatever the fragmentation, and refuses only
when there is none. Over any run of calls that gives back live ranges only, giving one back
succeeds and turns exactly its entries from used to free. -/
theorem first_fit_complete :
    (∀ (a : PgtAlloc) (len : Nat),1≤len →
      (∀ start,(a.alloc len).2=some start ↔
        a.FreeRange (start,len) ∧ ∀ t,a.FreeRange (t,len) → start≤t) ∧
      ((a.alloc len).2.isSome ↔ ∃ start,a.FreeRange (start,len)) ∧
      (∀ start,(a.alloc len).2=some start → ∀ i,
        (PgtRange.Has (start,len) i → a.used i=false ∧ (a.alloc len).1.used i=true) ∧
        (¬PgtRange.Has (start,len) i → (a.alloc len).1.used i=a.used i)) ∧
      ((a.alloc len).2=none → (a.alloc len).1=a)) ∧
    ∀ (a : PgtAlloc) (rs : List Request),Run.Along Client.step Client.Fair ⟨a,[]⟩ rs →
      ∀ r∈(Run.run Client.step ⟨a,[]⟩ rs).live,
        let pgt := (Run.run Client.step ⟨a,[]⟩ rs).pgt
        (pgt.dealloc r.1 r.2).2=true ∧ ∀ i,
          (r.Has i → pgt.used i=true ∧ (pgt.dealloc r.1 r.2).1.used i=false) ∧
          (¬r.Has i → (pgt.dealloc r.1 r.2).1.used i=pgt.used i) := by
  refine ⟨?_,?_⟩
  · intro a len hlen
    have hfound (start : Nat) : (a.alloc len).2=some start ↔
        a.FreeRange (start,len) ∧ ∀ t,a.FreeRange (t,len) → start≤t := by
      simp only [alloc_result,FirstFit.search_eq_some a.freeList len start hlen,freeRange_iff]
    refine ⟨hfound,?_,?_,a.alloc_none len⟩
    · constructor
      · intro h
        obtain ⟨start,hs⟩ := Option.isSome_iff_exists.mp h
        exact ⟨start,((hfound start).mp hs).1⟩
      · rintro ⟨start,hs⟩
        obtain ⟨hle,hfree⟩ := (a.freeRange_iff start len).mp hs
        rw [alloc_result]
        exact FirstFit.search_isSome a.freeList len start hlen hle hfree
    · intro start hs i
      obtain ⟨-,⟨-,hfree⟩,hbits⟩ := a.alloc_some len start hs
      refine ⟨fun hi => ⟨hfree i hi,?_⟩,fun hi => ?_⟩
      · rw [hbits,decide_eq_true hi,Bool.or_true]
      · rw [hbits,decide_eq_false hi,Bool.or_false]
  · intro a rs hrs r hr
    have hsound := Run.run_inv Client.step Client.Fair Client.Sound Client.step_sound ⟨a,[]⟩ rs hrs
      ⟨by simp,by simp,List.Pairwise.nil⟩
    obtain ⟨hok,hbits⟩ := PgtAlloc.dealloc_inside _ r (hsound.inside r hr).2
    refine ⟨hok,fun i => ⟨fun hi => ⟨hsound.used r hr i hi,?_⟩,fun hi => ?_⟩⟩
    · rw [hbits,decide_eq_true hi,Bool.not_true,Bool.and_false]
    · rw [hbits,decide_eq_false hi,Bool.not_false,Bool.and_true]

/-- Two ranges are taken and the first given back. -/
def reuse : List Request := [.alloc 2,.alloc 3,.dealloc (0,2)]

theorem first_fit_complete_reuse :
    (new.alloc 3).2.isSome ∧ (Run.run Client.step ⟨new,[]⟩ reuse).live=[(2,3)] ∧
    ((Run.run Client.step ⟨new,[]⟩ reuse).pgt.dealloc 2 3).2=true := by
  have hempty : new.FreeRange (0,3) := ⟨by decide,fun i _ => BitVec.getLsbD_zero⟩
  have hlive : (Run.run Client.step ⟨new,[]⟩ reuse).live=[(2,3)] := by
    decide +kernel
  have hfair : Run.Along Client.step Client.Fair ⟨new,[]⟩ reuse :=
    ⟨trivial,trivial,show _∈_ by decide +kernel,trivial⟩
  refine ⟨(first_fit_complete.1 new 3 (by decide)).2.1.mpr ⟨0,hempty⟩,hlive,?_⟩
  exact (first_fit_complete.2 new reuse hfair (2,3) (by rw [hlive]; exact List.mem_singleton_self _)).1

end PgtAlloc
end BlueRdma

import Mathlib.Tactic

namespace BlueRdma.FirstFit
variable {w : Nat}

/-- The `len` bits from `start` on. -/
def range (w start len : Nat) : BitVec w := BitVec.ofNat w ((2^len-1)<<<start)

/-- Marks a range as used. -/
def mark (b : BitVec w) (start len : Nat) : BitVec w := b ||| range w start len

/-- Marks a range as free. -/
def clear (b : BitVec w) (start len : Nat) : BitVec w := b &&& ~~~range w start len

/-- The scan at bit `i`, with `count` free bits from `start` on right before it. -/
def scan (b : BitVec w) (len : Nat) : Nat → Nat → Nat → Nat → Option Nat
  | 0,_,_,_ => none
  | left+1,i,count,start =>
    if b.getLsbD i then scan b len left (i+1) 0 start
    else
      let start := if count=0 then i else start
      if count+1=len then some start else scan b len left (i+1) (count+1) start

/-- Start of the first `len` free bits in a row. -/
def search (b : BitVec w) (len : Nat) : Option Nat := scan b len w 0 0 0

theorem getLsbD_range (start len i : Nat) :
    (range w start len).getLsbD i=decide (i<w ∧ start ≤ i ∧ i < start+len) := by
  rw [range,BitVec.getLsbD_ofNat,Nat.testBit_shiftLeft,Nat.testBit_two_pow_sub_one]
  by_cases hi : i<w <;> by_cases hs : start ≤ i
  · have hlen : i-start<len ↔ i < start+len := by omega
    simp [hi,hs,hlen]
  all_goals simp [hi,hs]

theorem getLsbD_mark (b : BitVec w) (start len i : Nat) :
    (mark b start len).getLsbD i=(b.getLsbD i || decide (i<w ∧ start ≤ i ∧ i < start+len)) := by
  rw [mark,BitVec.getLsbD_or,getLsbD_range]

theorem getLsbD_clear (b : BitVec w) (start len i : Nat) :
    (clear b start len).getLsbD i=(b.getLsbD i && !decide (start ≤ i ∧ i < start+len)) := by
  rw [clear,BitVec.getLsbD_and,BitVec.getLsbD_not,getLsbD_range]
  by_cases hi : i<w
  · simp [hi]
  · simp [hi,BitVec.getLsbD_of_ge b i (by omega)]

/-- What the scan finds is free and lies in front of where it stops. -/
theorem scan_spec (b : BitVec w) (len left i count start s : Nat)
    (hseen : count=0 ∨ start+count=i ∧ ∀ j,start≤j → j < i → b.getLsbD j=false)
    (h : scan b len left i count start=some s) :
    0<len ∧ s+len ≤ i+left ∧ ∀ j,s≤j → j < s+len → b.getLsbD j=false := by
  induction left generalizing i count start with
  | zero => cases h
  | succ left ih =>
      rw [scan] at h
      by_cases hused : b.getLsbD i=true
      · rw [if_pos hused] at h
        obtain ⟨hpos,hle,hfree⟩ := ih (i+1) 0 start (Or.inl rfl) h
        exact ⟨hpos,by omega,hfree⟩
      rw [if_neg hused] at h
      -- bit `i` is free: the row it ends starts here or was under way
      have hrow : (if count=0 then i else start)+(count+1)=i+1 ∧
          ∀ j,(if count=0 then i else start)≤j → j < i+1 → b.getLsbD j=false := by
        have hhere : b.getLsbD i=false := by simpa using hused
        by_cases hc : count=0
        · rw [if_pos hc]
          refine ⟨by omega,?_⟩
          intro j hj hji
          obtain rfl : j=i := by omega
          exact hhere
        · rw [if_neg hc]
          obtain ⟨hsum,hfree⟩ := hseen.resolve_left hc
          refine ⟨by omega,?_⟩
          intro j hj hji
          rcases Nat.lt_or_ge j i with hlt|hge
          · exact hfree j hj hlt
          · obtain rfl : j=i := by omega
            exact hhere
      dsimp only at h
      generalize (if count=0 then i else start)=start' at h hrow
      by_cases hlen : count+1=len
      · rw [if_pos hlen] at h
        obtain rfl := Option.some.inj h
        refine ⟨by omega,by omega,?_⟩
        intro j hj hlt
        exact hrow.2 j hj (by omega)
      · rw [if_neg hlen] at h
        obtain ⟨hpos,hle,hfree⟩ := ih (i+1) (count+1) start' (Or.inr hrow) h
        exact ⟨hpos,by omega,hfree⟩

/-- The range found is not empty, free, and inside the bitmap. -/
theorem search_spec (b : BitVec w) (len s : Nat) (h : search b len=some s) :
    0<len ∧ s+len≤w ∧ ∀ j,s≤j → j < s+len → b.getLsbD j=false := by
  have hspec := scan_spec b len w 0 0 0 s (Or.inl rfl) h
  rwa [Nat.zero_add] at hspec

/-- The scan finds something when there are enough free bits, counting those right before it. -/
theorem scan_isSome (b : BitVec w) (len left i count start s : Nat) (hcount : count<len)
    (hs : i ≤ s+count) (hle : s+len ≤ i+left) (hfree : ∀ j,s≤j → j < s+len → b.getLsbD j=false) :
    (scan b len left i count start).isSome := by
  induction left generalizing i count start with
  | zero => omega
  | succ left ih =>
      rw [scan]
      by_cases hused : b.getLsbD i=true
      · -- the free bits start behind a used one
        rw [if_pos hused]
        have hnot : ¬(s ≤ i ∧ i < s+len) := by
          intro hi
          rw [hfree i hi.1 hi.2] at hused
          cases hused
        exact ih (i+1) 0 start (by omega) (by omega) (by omega)
      · rw [if_neg hused]
        dsimp only
        by_cases hlen : count+1=len
        · rw [if_pos hlen]
          rfl
        · rw [if_neg hlen]
          exact ih (i+1) (count+1) _ (by omega) (by omega) (by omega)

/-- A free range of the length asked for is found if there is one. -/
theorem search_isSome (b : BitVec w) (len s : Nat) (hlen : 0<len) (hle : s+len≤w)
    (hfree : ∀ j,s≤j → j < s+len → b.getLsbD j=false) : (search b len).isSome :=
  scan_isSome b len w 0 0 0 s hlen (by omega) (by omega) hfree

/-- A row of `len` free bits starts at `s`. -/
def FreeAt (b : BitVec w) (len s : Nat) : Prop :=
  s+len≤w ∧ ∀ j,s≤j → j < s+len → b.getLsbD j=false

/-- The scan does not pass over a row of free bits that reaches beyond where it is. -/
theorem scan_le (b : BitVec w) (len left i count start s t : Nat)
    (hseen : count=0 ∨ start+count=i) (hcount : count<len) (ht : i ≤ t+count)
    (hfree : ∀ j,t≤j → j < t+len → b.getLsbD j=false)
    (h : scan b len left i count start=some s) : s≤t := by
  induction left generalizing i count start with
  | zero => cases h
  | succ left ih =>
      rw [scan] at h
      by_cases hused : b.getLsbD i=true
      · rw [if_pos hused] at h
        have hnot : ¬(t ≤ i ∧ i < t+len) := by
          intro hi
          rw [hfree i hi.1 hi.2] at hused
          cases hused
        exact ih (i+1) 0 start (Or.inl rfl) (by omega) (by omega) h
      · rw [if_neg hused] at h
        have hrow : (if count=0 then i else start)+(count+1)=i+1 := by
          split_ifs with hc
          · omega
          · have := hseen.resolve_left hc
            omega
        dsimp only at h
        by_cases hlen : count+1=len
        · rw [if_pos hlen] at h
          obtain rfl := Option.some.inj h
          omega
        · rw [if_neg hlen] at h
          exact ih (i+1) (count+1) _ (Or.inr hrow) (by omega) (by omega) h

/-- What is found is the lowest row of free bits. -/
theorem search_eq_some (b : BitVec w) (len s : Nat) (hlen : 0<len) :
    search b len=some s ↔ FreeAt b len s ∧ ∀ t,FreeAt b len t → s≤t := by
  have hlow (r : Nat) (hr : search b len=some r) (t : Nat) (ht : FreeAt b len t) : r≤t :=
    scan_le b len w 0 0 0 r t (Or.inl rfl) hlen (Nat.zero_le _) ht.2 hr
  constructor
  · intro h
    obtain ⟨-,hle,hfree⟩ := search_spec b len s h
    exact ⟨⟨hle,hfree⟩,hlow s h⟩
  · rintro ⟨⟨hle,hfree⟩,hmin⟩
    obtain ⟨r,hr⟩ := Option.isSome_iff_exists.mp (search_isSome b len s hlen hle hfree)
    obtain ⟨-,hrle,hrfree⟩ := search_spec b len r hr
    rw [hr,Nat.le_antisymm (hlow r hr s ⟨hle,hfree⟩) (hmin r ⟨hrle,hrfree⟩)]

/-- Takes the lowest free bit. -/
def take (b : BitVec w) : Option Nat × BitVec w :=
  match search b 1 with
  | none => (none,b)
  | some i => (some i,mark b i 1)

/-- Whether the bit was used, and the bits with it free; there is no result for a bit that does
not exist. -/
def release (b : BitVec w) (i : Nat) : Option (Bool × BitVec w) :=
  if i<w then some (b.getLsbD i,clear b i 1) else none

theorem take_some (b : BitVec w) (i : Nat) (h : (take b).1=some i) :
    i<w ∧ b.getLsbD i=false ∧ ∀ j,(take b).2.getLsbD j=(b.getLsbD j || decide (j=i)) := by
  rw [take] at h ⊢
  split at h
  · cases h
  next k hk =>
  obtain rfl := Option.some.inj h
  obtain ⟨-,hle,hfree⟩ := search_spec b 1 k hk
  refine ⟨by omega,hfree k le_rfl (by omega),?_⟩
  intro j
  dsimp only
  rw [getLsbD_mark]
  refine congrArg (b.getLsbD j || ·) (decide_eq_decide.mpr ?_)
  omega

theorem take_none (b : BitVec w) (h : (take b).1=none) :
    (take b).2=b ∧ ∀ i<w,b.getLsbD i=true := by
  rw [take] at h ⊢
  split at h
  next hnone =>
    refine ⟨rfl,?_⟩
    intro i hi
    by_contra hfree
    have hsome := search_isSome b 1 i Nat.one_pos (by omega) (by
      intro j hj hlt
      obtain rfl : j=i := by omega
      exact Bool.not_eq_true _ ▸ hfree)
    rw [hnone] at hsome
    cases hsome
  · cases h

theorem getLsbD_release (b : BitVec w) (i j : Nat) :
    (clear b i 1).getLsbD j=(b.getLsbD j && !decide (j=i)) := by
  rw [getLsbD_clear]
  refine congrArg (b.getLsbD j && !·) (decide_eq_decide.mpr ?_)
  omega

end BlueRdma.FirstFit

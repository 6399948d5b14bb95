import Mathlib.Tactic

namespace BlueRdma

/-- A growable row of bits, index 0 first; what `bitvec::vec::BitVec` stores. -/
abbrev BitRow := List Bool

namespace BitRow

/-- Bits beyond the stored length read as clear. -/
def bit (v : BitRow) (n : Nat) : Bool := v.getD n false

def resize (v : BitRow) (n : Nat) : BitRow := v.take n++List.replicate (n-v.length) false

/-- Moves every bit toward index 0 and clears the vacated end; the length stays. -/
def shiftLeft (v : BitRow) (n : Nat) : BitRow := v.drop n++List.replicate (min n v.length) false

def fillFalse (v : BitRow) : BitRow := List.replicate v.length false

/-- Sets the bits of `lo..hi` that `p` selects. -/
def setWhere (v : BitRow) (lo hi : Nat) (p : Nat → Bool) : BitRow :=
  (List.range' lo (hi-lo)).foldl (fun v n => if p n then v.set n true else v) v

/-- Resizes only when the row is too short. -/
def growTo (v : BitRow) (n : Nat) : BitRow := if v.length<n then v.resize n else v

def firstZero (v : BitRow) : Option Nat := v.findIdx? (fun b => !b)

/-- Length of the run of set bits at index 0. -/
def leadingOnes (v : BitRow) : Nat := v.firstZero.getD v.length

theorem bit_of_length_le (v : BitRow) (n : Nat) (h : v.length≤n) : v.bit n=false := by
  rw [bit,List.getD,List.getElem?_eq_none h]
  rfl

theorem bit_append_replicate (v : BitRow) (k n : Nat) :
    bit (v++List.replicate k false) n=v.bit n := by
  rcases Nat.lt_or_ge n v.length with h|h
  · simp [bit,List.getD,List.getElem?_append_left h]
  · rw [bit_of_length_le v n h]
    simp only [bit,List.getD,List.getElem?_append_right h,List.getElem?_replicate]
    split_ifs <;> rfl

theorem bit_resize (v : BitRow) (k n : Nat) (h : v.length≤k) : (v.resize k).bit n=v.bit n := by
  rw [resize,List.take_of_length_le h,bit_append_replicate]

@[simp] theorem length_resize (v : BitRow) (k : Nat) : (v.resize k).length=k := by
  simp only [resize,List.length_append,List.length_take,List.length_replicate]
  omega

theorem bit_set (v : BitRow) (k n : Nat) (h : k<v.length) :
    bit (v.set k true) n=(decide (n=k) || v.bit n) := by
  simp only [bit,List.getD,List.getElem?_set]
  by_cases hn : k=n
  · subst hn
    simp [h]
  · simp [hn,Ne.symm hn]

@[simp] theorem length_growTo (v : BitRow) (k : Nat) : (v.growTo k).length=max v.length k := by
  unfold growTo
  split_ifs with h
  · rw [length_resize]; omega
  · omega

@[simp] theorem bit_growTo (v : BitRow) (k n : Nat) : (v.growTo k).bit n=v.bit n := by
  unfold growTo
  split_ifs with h
  · exact bit_resize v k n h.le
  · rfl

/-- Marking a range adds exactly the selected bits. -/
theorem bit_setWhere (v : BitRow) (lo hi : Nat) (p : Nat → Bool) (n : Nat)
    (h : hi≤v.length ∨ hi≤lo) :
    (v.setWhere lo hi p).bit n=true ↔ v.bit n=true ∨ (lo≤n ∧ n<hi ∧ p n=true) := by
  unfold setWhere
  obtain ⟨c,hc⟩ : ∃ c,hi-lo=c := ⟨_,rfl⟩
  rw [hc]
  induction c generalizing v lo with
  | zero =>
      rw [List.range'_zero,List.foldl_nil]
      exact ⟨Or.inl,fun hn => hn.resolve_right (by omega)⟩
  | succ c ih =>
      have hlen : hi≤(if p lo then v.set lo true else v).length ∨ hi≤lo+1 := by
        split_ifs
        · rw [List.length_set]; omega
        · omega
      rw [List.range'_succ,List.foldl_cons,ih _ (lo+1) hlen (by omega)]
      split_ifs with hp
      · rw [bit_set v lo n (by omega),Bool.or_eq_true,decide_eq_true_eq]
        constructor
        · rintro ((rfl|hn)|hn)
          · exact Or.inr ⟨le_rfl,by omega,hp⟩
          · exact Or.inl hn
          · exact Or.inr ⟨by omega,hn.2⟩
        · rintro (hn|⟨hlo,hn⟩)
          · exact Or.inl (Or.inr hn)
          · rcases Nat.eq_or_lt_of_le hlo with rfl|hlt
            · exact Or.inl (Or.inl rfl)
            · exact Or.inr ⟨hlt,hn⟩
      · constructor
        · rintro (hn|hn)
          · exact Or.inl hn
          · exact Or.inr ⟨by omega,hn.2⟩
        · rintro (hn|⟨hlo,hn⟩)
          · exact Or.inl hn
          · rcases Nat.eq_or_lt_of_le hlo with rfl|hlt
            · exact absurd hn.2 hp
            · exact Or.inr ⟨hlt,hn⟩

@[simp] theorem length_setWhere (v : BitRow) (lo hi : Nat) (p : Nat → Bool) :
    (v.setWhere lo hi p).length=v.length := by
  unfold setWhere
  induction List.range' lo (hi-lo) generalizing v with
  | nil => rfl
  | cons n ns ih =>
      rw [List.foldl_cons,ih]
      split_ifs
      · exact List.length_set
      · rfl

theorem bit_fillFalse (v : BitRow) (n : Nat) : v.fillFalse.bit n=false :=
  bit_append_replicate [] v.length n

theorem bit_shiftLeft (v : BitRow) (k n : Nat) : (v.shiftLeft k).bit n=v.bit (n+k) := by
  rw [shiftLeft,bit_append_replicate]
  simp only [bit,List.getD,List.getElem?_drop,Nat.add_comm]

@[simp] theorem length_shiftLeft (v : BitRow) (k : Nat) : (v.shiftLeft k).length=v.length := by
  simp only [shiftLeft,List.length_append,List.length_drop,List.length_replicate]
  omega

theorem leadingOnes_cons (b : Bool) (v : BitRow) :
    leadingOnes (b::v)=if b then v.leadingOnes+1 else 0 := by
  cases b
  · rfl
  · simp only [leadingOnes,firstZero,List.findIdx?_cons,List.length_cons]
    cases List.findIdx? (fun b => !b) v <;> simp

/-- Everything below the first clear bit is set. -/
theorem bit_of_lt_leadingOnes (v : BitRow) (n : Nat) (h : n<v.leadingOnes) : v.bit n=true := by
  induction v generalizing n with
  | nil => simp [leadingOnes,firstZero] at h
  | cons b v ih =>
    rw [leadingOnes_cons] at h
    cases b with
    | false => simp at h
    | true =>
      cases n with
      | zero => rfl
      | succ n => exact ih n (by simpa using h)

/-- The bit behind the run is clear. -/
theorem bit_leadingOnes (v : BitRow) : v.bit v.leadingOnes=false := by
  induction v with
  | nil => rfl
  | cons b v ih =>
    rw [leadingOnes_cons]
    cases b with
    | false => rfl
    | true => exact ih

theorem leadingOnes_eq_zero (v : BitRow) : v.leadingOnes=0 ↔ v.bit 0=false := by
  cases v with
  | nil => exact ⟨fun _ => rfl,fun _ => rfl⟩
  | cons b v =>
      rw [leadingOnes_cons]
      cases b <;> simp [bit]

theorem leadingOnes_le_length (v : BitRow) : v.leadingOnes≤v.length := by
  by_contra h
  have hset := v.bit_of_lt_leadingOnes v.length (by omega)
  rw [bit_of_length_le v _ le_rfl] at hset
  cases hset

/-- Number of set bits. -/
def ones (v : BitRow) : Nat := v.count true

/-- Set bits below an index are at most as many as the index. -/
theorem ones_le_of_bits (v : BitRow) (n : Nat) (h : ∀ i,v.bit i=true → i<n) : v.ones≤n := by
  induction v generalizing n with
  | nil => exact Nat.zero_le _
  | cons b v ih =>
      cases b with
      | false =>
          have hv := ih (n-1) (fun i hi => by have := h (i+1) hi; omega)
          rw [ones,List.count_cons_of_ne (by decide)]
          exact hv.trans (Nat.sub_le ..)
      | true =>
          have h0 := h 0 rfl
          have hv := ih (n-1) (fun i hi => by have := h (i+1) hi; omega)
          rw [ones] at hv ⊢
          rw [List.count_cons_self]
          omega

theorem ones_growTo (v : BitRow) (k : Nat) : (v.growTo k).ones=v.ones := by
  unfold growTo
  split_ifs with h
  · rw [resize,List.take_of_length_le h.le,ones,List.count_append,List.count_replicate]
    rfl
  · rfl

theorem ones_set_le (v : BitRow) (n : Nat) : ones (v.set n true)≤v.ones+1 := by
  induction v generalizing n with
  | nil => exact Nat.zero_le _
  | cons b v ih =>
      cases n with
      | zero =>
          rw [List.set_cons_zero,ones,ones,List.count_cons_self]
          exact Nat.succ_le_succ (List.count_le_count_cons)
      | succ n =>
          have hv := ih n
          rw [ones,ones] at hv
          rw [List.set_cons_succ,ones,ones,List.count_cons,List.count_cons]
          omega

theorem ones_setWhere_le (v : BitRow) (lo hi : Nat) (p : Nat → Bool) :
    (v.setWhere lo hi p).ones≤v.ones+(hi-lo) := by
  unfold setWhere
  generalize hi-lo=c
  induction c generalizing v lo with
  | zero => exact le_rfl
  | succ c ih =>
      rw [List.range'_succ,List.foldl_cons]
      have hrest := ih (if p lo then v.set lo true else v) (lo+1)
      have hone : ones (if p lo then v.set lo true else v)≤v.ones+1 := by
        split_ifs
        · exact ones_set_le v lo
        · exact Nat.le_succ _
      omega

/-- Shifting out the run at the front takes exactly its bits away. -/
theorem ones_shiftLeft_leadingOnes (v : BitRow) :
    (v.shiftLeft v.leadingOnes).ones+v.leadingOnes=v.ones := by
  rw [ones,shiftLeft,List.count_append,List.count_replicate,if_neg (by decide),Nat.add_zero]
  induction v with
  | nil => rfl
  | cons b v ih =>
      rw [leadingOnes_cons]
      cases b with
      | false => rfl
      | true =>
          rw [if_pos rfl,List.drop_succ_cons,ones,List.count_cons_self]
          rw [ones] at ih
          omega

end BitRow
end BlueRdma

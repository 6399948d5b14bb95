import Mathlib.Tactic

namespace BlueRdma.Search
variable {α : Type}

/-- The loop of `slice::binary_search_by` with a two-valued comparison: it keeps a window of
`size` elements from `base` on and halves it. -/
def narrow (p : α → Bool) (xs : List α) : Nat → Nat → Nat → Nat
  | 0,base,_ => base
  | n+1,base,size =>
    if size≤1 then base
    else narrow p xs n (if xs[base+size/2]?.any p then base+size/2 else base) (size-size/2)

/-- `slice::partition_point`. -/
def partitionPoint (p : α → Bool) (xs : List α) : Nat :=
  if xs.isEmpty then 0
  else
    let base := narrow p xs xs.length 0 xs.length
    if xs[base]?.any p then base+1 else base

/-- `VecDeque::partition_point`: the ring buffer is two slices, cut at `split`. -/
def ringPartitionPoint (split : Nat) (p : α → Bool) (xs : List α) : Nat :=
  if (xs.drop split).head?.any p then (xs.take split).length+partitionPoint p (xs.drop split)
  else partitionPoint p (xs.take split)

variable (p : α → Bool)

/-- The window never leaves the list, and its start has moved only to elements that satisfy
the predicate. -/
theorem narrow_spec (xs : List α) (n base size : Nat) (hn : size≤n) (hsize : 0 < size)
    (hfit : base+size≤xs.length) (hbase : base=0 ∨ xs[base]?.any p=true) :
    narrow p xs n base size<xs.length ∧
      (narrow p xs n base size=0 ∨ xs[narrow p xs n base size]?.any p=true) := by
  induction n generalizing base size with
  | zero => omega
  | succ n ih =>
      rw [narrow]
      split_ifs with hone hmid
      · exact ⟨by omega,hbase⟩
      · exact ih _ _ (by omega) (by omega) (by omega) (Or.inr hmid)
      · exact ih _ _ (by omega) (by omega) (by omega) hbase

theorem any_getElem?_eq (l r : List α) (hl : ∀ x∈l,p x=true) (hr : ∀ x∈r,p x=false) (k : Nat) :
    (l++r)[k]?.any p=decide (k<l.length) := by
  rcases Nat.lt_or_ge k l.length with h|h
  · rw [List.getElem?_append_left h,List.getElem?_eq_getElem h,Option.any_some,
      hl _ (List.getElem_mem h),decide_eq_true h]
  · rw [List.getElem?_append_right h,decide_eq_false (by omega)]
    rcases hx : r[k-l.length]? with _|x
    · rfl
    · exact hr x (List.mem_of_getElem? hx)

/-- In a partitioned list the window always contains the boundary. -/
theorem narrow_boundary (l r : List α) (hl : ∀ x∈l,p x=true) (hr : ∀ x∈r,p x=false)
    (n base size : Nat) (hn : size≤n) (hsize : 0 < size) (hbase : base=0 ∨ base<l.length)
    (hwin : l.length≤base+size) :
    l.length≤narrow p (l++r) n base size+1 ∧
      (narrow p (l++r) n base size=0 ∨ narrow p (l++r) n base size<l.length) := by
  induction n generalizing base size with
  | zero => omega
  | succ n ih =>
      rw [narrow,any_getElem?_eq p l r hl hr]
      split_ifs with hone hmid
      · exact ⟨by omega,hbase⟩
      · exact ih _ _ (by omega) (by omega) (Or.inr (of_decide_eq_true hmid)) (by omega)
      · rw [decide_eq_true_eq] at hmid
        exact ih _ _ (by omega) (by omega) hbase (by omega)

/-- Whatever the list, the element before the result satisfies the predicate. -/
theorem partitionPoint_spec (xs : List α) :
    partitionPoint p xs≤xs.length ∧
      (partitionPoint p xs=0 ∨ xs[partitionPoint p xs-1]?.any p=true) := by
  unfold partitionPoint
  split_ifs with hempty
  · exact ⟨Nat.zero_le _,Or.inl rfl⟩
  · have hpos : 0<xs.length := by
      rw [List.isEmpty_iff] at hempty
      exact List.length_pos_iff.mpr hempty
    obtain ⟨hlt,hzero⟩ := narrow_spec p xs xs.length 0 xs.length le_rfl hpos (by omega) (Or.inl rfl)
    dsimp only
    split_ifs with hp
    · exact ⟨hlt,Or.inr hp⟩
    · exact ⟨hlt.le,hzero.imp_right (fun h => absurd h hp)⟩

theorem partitionPoint_pos (x : α) (xs : List α) (hx : p x=true) :
    0<partitionPoint p (x::xs) := by
  obtain ⟨-,hzero⟩ := narrow_spec p (x::xs) (x::xs).length 0 (x::xs).length le_rfl
    (Nat.succ_pos _) (by omega) (Or.inl rfl)
  unfold partitionPoint
  rw [if_neg (by simp)]
  dsimp only
  split_ifs with hp
  · exact Nat.succ_pos _
  · rcases hzero with h0|h
    · rw [h0] at hp
      exact absurd hx hp
    · exact absurd h hp

theorem partitionPoint_eq (l r : List α) (hl : ∀ x∈l,p x=true) (hr : ∀ x∈r,p x=false) :
    partitionPoint p (l++r)=l.length := by
  unfold partitionPoint
  split_ifs with hempty
  · rw [List.isEmpty_iff,List.append_eq_nil_iff] at hempty
    rw [hempty.1]
    rfl
  · have hpos : 0<(l++r).length := by
      rw [List.isEmpty_iff] at hempty
      exact List.length_pos_iff.mpr hempty
    obtain ⟨h1,h2⟩ := narrow_boundary p l r hl hr _ 0 (l++r).length le_rfl hpos (Or.inl rfl)
      (by rw [List.length_append]; omega)
    dsimp only
    rw [any_getElem?_eq p l r hl hr]
    split_ifs with hp <;> rw [decide_eq_true_eq] at hp <;> omega

/-- The result does not depend on the layout of the ring when the list is partitioned. -/
theorem ringPartitionPoint_eq (split : Nat) (l r : List α) (hl : ∀ x∈l,p x=true)
    (hr : ∀ x∈r,p x=false) : ringPartitionPoint split p (l++r)=l.length := by
  have hhead := any_getElem?_eq p l r hl hr split
  unfold ringPartitionPoint
  rw [List.head?_drop,hhead]
  split_ifs with hlt <;> rw [decide_eq_true_eq] at hlt
  · rw [List.drop_append_of_le_length hlt.le,partitionPoint_eq p (l.drop split) r
      (fun x hx => hl x (List.mem_of_mem_drop hx)) hr,List.length_take,List.length_append,
      List.length_drop]
    omega
  · rw [List.take_append,List.take_of_length_le (by omega),partitionPoint_eq p l _ hl
      (fun x hx => hr x (List.mem_of_mem_take hx))]

/-- Whatever the list and its layout, the element before the result satisfies the predicate. -/
theorem ringPartitionPoint_spec (split : Nat) (xs : List α) :
    ringPartitionPoint split p xs≤xs.length ∧ (ringPartitionPoint split p xs=0 ∨
      xs[ringPartitionPoint split p xs-1]?.any p=true) := by
  unfold ringPartitionPoint
  split_ifs with hhead
  · obtain ⟨hle,hz⟩ := partitionPoint_spec p (xs.drop split)
    rcases hd : xs.drop split with _|⟨y,ys⟩
    · rw [hd] at hhead
      cases hhead
    · have hpos : 0<partitionPoint p (xs.drop split) := by
        rw [hd] at hhead ⊢
        exact partitionPoint_pos p y ys hhead
      have hlen : split<xs.length := by
        have := congrArg List.length hd
        rw [List.length_drop,List.length_cons] at this
        omega
      rw [← hd,List.length_take,min_eq_left hlen.le]
      rw [List.length_drop] at hle
      refine ⟨by omega,Or.inr ?_⟩
      rcases hz with hz|hz
      · omega
      · rw [List.getElem?_drop] at hz
        rw [show split+partitionPoint p (xs.drop split)-1=
          split+(partitionPoint p (xs.drop split)-1) by omega]
        exact hz
  · obtain ⟨hle,hz⟩ := partitionPoint_spec p (xs.take split)
    rw [List.length_take] at hle
    refine ⟨by omega,hz.imp_right ?_⟩
    intro h
    rw [List.getElem?_take] at h
    split_ifs at h with hlt
    · exact h
    · cases h

end BlueRdma.Search

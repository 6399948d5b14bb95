import BlueRdma.Math.Word

namespace BlueRdma.Segments

variable {α : Type}

/-- The segments cover `[lo,hi)` one after the other. -/
def Tiles : Nat → List (Nat × Nat) → Nat → Prop
  | lo,[],hi => lo=hi
  | lo,s::ss,hi => s.1=lo ∧ Tiles (lo+s.2) ss hi

/-- `n` places from `lo` on, cut every `step` places. -/
def stride (lo n step : Nat) : List (Nat × Nat) :=
  (List.range ((n+step-1)/step)).map (fun k => (lo+k*step,min step (n-k*step)))

/-- A run of consecutive places is overwritten. -/
def write (t : Nat → Option α) (lo : Nat) (l : List α) : Nat → Option α := fun i =>
  if lo ≤ i ∧ i<lo+l.length then l[i-lo]? else t i

/-- Each segment is overwritten with the next elements. -/
def writeAll (t : Nat → Option α) : List (Nat × Nat) → List α → Nat → Option α
  | [],_ => t
  | s::ss,l => writeAll (write t s.1 (l.take s.2)) ss (l.drop s.2)

theorem Tiles.le (lo hi : Nat) (ss : List (Nat × Nat)) (h : Tiles lo ss hi) : lo≤hi := by
  induction ss generalizing lo with
  | nil => exact Nat.le_of_eq h
  | cons s ss ih =>
      have := ih _ h.2
      omega

/-- The places of the segments are those of the whole, in order and each once. -/
theorem Tiles.places (lo hi : Nat) (ss : List (Nat × Nat)) (h : Tiles lo ss hi) :
    ss.flatMap (fun s => List.range' s.1 s.2)=List.range' lo (hi-lo) := by
  induction ss generalizing lo with
  | nil =>
      obtain rfl : lo=hi := h
      simp
  | cons s ss ih =>
      have hle := h.2.le
      rw [List.flatMap_cons,ih _ h.2,h.1,List.range'_append_1]
      congr 1
      omega

theorem stride_cons (lo n step : Nat) (hs : 0 < step) (hn : 0<n) :
    stride lo n step=(lo,min step n)::stride (lo+step) (n-step) step := by
  rw [stride,Word.ceil_step n step hs hn,List.range_succ_eq_map,List.map_cons,List.map_map,stride]
  congr 1
  · simp
  · apply List.map_congr_left
    intro k _
    have hk : k.succ*step=step+k*step := by rw [Nat.succ_mul,Nat.add_comm]
    simp only [Function.comp,hk,Nat.add_assoc,Nat.sub_sub]

theorem stride_tiles (lo n step : Nat) (hs : 0 < step) : Tiles lo (stride lo n step) (lo+n) := by
  induction n using Nat.strong_induction_on generalizing lo with
  | _ n ih =>
      rcases Nat.eq_zero_or_pos n with rfl|hn
      · rw [stride,Nat.div_eq_of_lt (by omega)]
        rfl
      rw [stride_cons lo n step hs hn]
      refine ⟨rfl,?_⟩
      have hrest := ih (n-step) (by omega) (lo+step)
      rcases Nat.lt_or_ge n step with hlt|hge
      · -- nothing is left after a short segment
        have hz : n-step=0 := by omega
        rw [hz,stride,Nat.div_eq_of_lt (by omega)]
        exact congrArg (lo+·) (Nat.min_eq_right hlt.le)
      · dsimp only
        rw [Nat.min_eq_left hge]
        rwa [show lo+step+(n-step)=lo+n by omega] at hrest

theorem stride_size (lo n step : Nat) (hs : 0 < step) :
    ∀ s∈stride lo n step,0 < s.2 ∧ s.2 ≤ step := by
  intro s hmem
  obtain ⟨k,hk,rfl⟩ := List.mem_map.mp hmem
  have hlt : (k+1)*step≤n+step-1 := (Nat.le_div_iff_mul_le hs).mp (List.mem_range.mp hk)
  rw [Nat.succ_mul] at hlt
  dsimp only
  omega

theorem write_nil (t : Nat → Option α) (lo : Nat) : write t lo []=t := by
  funext i
  rw [write,if_neg (by simp)]

theorem write_append (t : Nat → Option α) (lo : Nat) (l l' : List α) :
    write (write t lo l) (lo+l.length) l'=write t lo (l++l') := by
  funext i
  rw [write,write,write,List.length_append]
  by_cases hhigh : lo+l.length ≤ i ∧ i<lo+l.length+l'.length
  · rw [if_pos hhigh,if_pos (by omega),List.getElem?_append_right (by omega),Nat.sub_sub]
  by_cases hlow : lo ≤ i ∧ i<lo+l.length
  · rw [if_neg hhigh,if_pos hlow,if_pos (by omega),List.getElem?_append_left (by omega)]
  · rw [if_neg hhigh,if_neg hlow,if_neg (by omega)]

/-- Written segment by segment, a list ends up where it would be written at once. -/
theorem Tiles.writeAll_eq (lo hi : Nat) (ss : List (Nat × Nat)) (h : Tiles lo ss hi)
    (t : Nat → Option α) (l : List α) (hl : l.length=hi-lo) : writeAll t ss l=write t lo l := by
  induction ss generalizing lo t l with
  | nil =>
      obtain rfl : lo=hi := h
      obtain rfl : l=[] := List.length_eq_zero_iff.mp (by omega)
      rw [writeAll,write_nil]
  | cons s ss ih =>
      have hle := h.2.le
      have htake : (l.take s.2).length=s.2 := by
        rw [List.length_take]
        omega
      rw [writeAll,ih _ h.2 _ _ (by rw [List.length_drop]; omega),h.1]
      have happ := write_append t lo (l.take s.2) (l.drop s.2)
      rw [htake,List.take_append_drop] at happ
      exact happ

end BlueRdma.Segments

import Mathlib.Tactic

namespace BlueRdma.RoundRobin

/-- How far a place is in front of the position. -/
def offset (n pos j : Nat) : Nat := (j+n-pos)%n

/-- How far the first ready place is in front of the position. -/
def pick (n pos : Nat) (ready : Nat → Bool) : Option Nat :=
  (List.range n).find? (fun i => ready ((pos+i)%n))

theorem offset_lt (n pos j : Nat) (hn : 0<n) : offset n pos j<n := Nat.mod_lt _ hn

variable {n pos j : Nat}

theorem place_offset (hpos : pos<n) (hj : j<n) : (pos+offset n pos j)%n=j := by
  rw [offset,Nat.add_mod_mod,show pos+(j+n-pos)=j+n by omega,Nat.add_mod_right,Nat.mod_eq_of_lt hj]

theorem offset_place (hpos : pos<n) (i : Nat) (hi : i<n) : offset n pos ((pos+i)%n)=i := by
  rw [offset]
  rcases Nat.lt_or_ge (pos+i) n with hlt|hge
  · rw [Nat.mod_eq_of_lt hlt,show pos+i+n-pos=i+n by omega,Nat.add_mod_right,Nat.mod_eq_of_lt hi]
  · rw [Nat.mod_eq_sub_mod hge,Nat.mod_eq_of_lt (show pos+i-n<n by omega),
      show pos+i-n+n-pos=i by omega,Nat.mod_eq_of_lt hi]

/-- Serving a place in front of `j` brings the position closer to `j`. -/
theorem offset_moved (hpos : pos<n) (hj : j<n) (i : Nat) (hi : i<offset n pos j) :
    offset n (((pos+i)%n+1)%n) j+i+1=offset n pos j := by
  have hn : 0<n := by omega
  have hlt := offset_lt n pos j hn
  have hplace := place_offset hpos hj
  have hpos' : ((pos+i)%n+1)%n<n := Nat.mod_lt _ hn
  have hback := offset_place hpos' (offset n pos j-i-1) (by omega)
  rw [show ((((pos+i)%n+1)%n)+(offset n pos j-i-1))%n=j by
    rw [Nat.mod_add_mod,Nat.add_assoc,Nat.mod_add_mod,
      show pos+i+(1+(offset n pos j-i-1))=pos+offset n pos j by omega,hplace]] at hback
  rw [hback]
  omega

variable {ready : Nat → Bool}

/-- A ready place is not passed over. -/
theorem pick_le (hpos : pos<n) (hj : j<n) (hready : ready j=true) :
    ∃ i,pick n pos ready=some i ∧ i ≤ offset n pos j := by
  have hn : 0<n := by omega
  have hplace := place_offset hpos hj
  cases hpick : pick n pos ready with
  | none =>
      have hnone := List.find?_eq_none.mp hpick _ (List.mem_range.mpr (offset_lt n pos j hn))
      rw [hplace] at hnone
      exact absurd hready hnone
  | some i =>
      refine ⟨i,rfl,?_⟩
      by_contra hgt
      rw [pick,List.find?_range_eq_some] at hpick
      have hbefore := hpick.2.2 (offset n pos j) (by omega)
      rw [hplace,hready] at hbefore
      cases hbefore

end BlueRdma.RoundRobin

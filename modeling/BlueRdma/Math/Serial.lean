import Mathlib.Tactic

namespace BlueRdma.Serial

/-- Distance forward from `b` to `a` on a circle of `2*H` numbers. -/
def dist (H a b : Nat) : Nat := (a+(2*H-b%(2*H)))%(2*H)

/-- Serial-number order with half window `H`: a forward distance above `H` counts as behind. -/
def cmp (H a b : Nat) : Ordering :=
  if dist H a b=0 then .eq else if H<dist H a b then .lt else .gt

theorem dist_int (H a b : Nat) (hH : 0<H) :
    (dist H a b : Int)=((a : Int)-b)%(2*H : Nat) := by
  have hb : b%(2*H)≤2*H := (Nat.mod_lt b (by omega)).le
  have hdiv := Nat.div_add_mod b (2*H)
  rw [dist,Int.natCast_mod,Nat.cast_add,Nat.cast_sub hb]
  have he : (a : Int)+((2*H : Nat)-(b%(2*H) : Nat))=
      (a-b)+(2*H : Nat)*(1+(b/(2*H) : Nat)) := by
    have hz : ((2*H : Nat) : Int)*(b/(2*H) : Nat)+(b%(2*H) : Nat)=b := by exact_mod_cast hdiv
    linear_combination -hz
  rw [he,Int.add_mul_emod_self_left]

/-- Both arguments may be moved along the circle together. -/
theorem dist_shift (H a b s : Nat) (hH : 0<H) : dist H (a+s) (b+s)=dist H a b := by
  have h1 := dist_int H (a+s) (b+s) hH
  have h2 := dist_int H a b hH
  push_cast at h1
  rw [add_sub_add_right_eq_sub,← Nat.cast_ofNat,← Nat.cast_mul,← h2] at h1
  exact_mod_cast h1

theorem dist_mod (H a b : Nat) (hH : 0<H) : dist H (a%(2*H)) (b%(2*H))=dist H a b := by
  have h1 := dist_int H (a%(2*H)) (b%(2*H)) hH
  have h2 := dist_int H a b hH
  rw [Int.natCast_mod,Int.natCast_mod,← Int.sub_emod,← h2] at h1
  exact_mod_cast h1

theorem dist_of_le (H a b : Nat) (h : b≤a) (hw : a<b+2*H) : dist H a b=a-b := by
  have h1 := dist_int H a b (by omega)
  rw [Int.emod_eq_of_lt (by omega) (by omega)] at h1
  omega

theorem dist_of_lt (H a b : Nat) (h : a<b) (hw : b≤a+2*H) : dist H a b=(a+2*H)-b := by
  have h1 := dist_int H a b (by omega)
  rw [← Int.add_emod_right,Int.emod_eq_of_lt (by omega) (by omega)] at h1
  omega

theorem cmp_shift (H a b s : Nat) (hH : 0<H) : cmp H (a+s) (b+s)=cmp H a b := by
  simp only [cmp,dist_shift H a b s hH]

theorem cmp_mod (H a b : Nat) (hH : 0<H) : cmp H (a%(2*H)) (b%(2*H))=cmp H a b := by
  simp only [cmp,dist_mod H a b hH]

/-- Numbers less than half a circle apart compare as they would on the line. -/
theorem cmp_near (H a b : Nat) (hab : a<b+H) (hba : b<a+H) : cmp H a b=compare a b := by
  rcases Nat.lt_trichotomy a b with h|h|h
  · rw [cmp,dist_of_lt H a b h (by omega),if_neg (by omega),if_pos (by omega)]
    exact (Nat.compare_eq_lt.mpr h).symm
  · subst h
    rw [cmp,dist_of_le H a a le_rfl (by omega),Nat.sub_self,if_pos rfl]
    exact (Nat.compare_eq_eq.mpr rfl).symm
  · rw [cmp,dist_of_le H a b h.le (by omega),if_neg (by omega),if_neg (by omega)]
    exact (Nat.compare_eq_gt.mpr h).symm

/-- What lies at most half a circle ahead is never taken for passed, however
far the other side of the window reaches. -/
theorem cmp_ahead (H a b : Nat) (hab : a≤b+H) (hba : b<a) : cmp H a b=.gt := by
  rw [cmp,dist_of_le H a b hba.le (by omega),if_neg (by omega),if_neg (by omega)]

theorem lt_of_cmp_lt (H a b : Nat) (hH : 0<H) (hab : a≤b+H) (h : cmp H a b=.lt) : a<b := by
  by_contra hn
  rcases Nat.lt_or_ge b a with hba|hba
  · rw [cmp_ahead H a b hab hba] at h; cases h
  · have he : a=b := by omega
    subst he
    rw [cmp_near H a a (by omega) (by omega),Nat.compare_eq_lt] at h
    omega

theorem le_of_cmp_ne_gt (H a b : Nat) (hab : a≤b+H) (h : cmp H a b≠.gt) : a≤b := by
  by_contra hn
  exact h (cmp_ahead H a b hab (by omega))

end BlueRdma.Serial

import BlueRdma.Math.Serial

namespace BlueRdma

/-- Maximum number of outstanding PSNs: half of the 24-bit PSN space. -/
def maxPsnWindow : Nat := 2^23

/-- Bit mask used to extract the PSN value from a 32-bit number. -/
def psnMask : UInt32 := 0xFFFFFF

/-- A packet sequence number as the driver stores it: a `u32` of which 24 bits count. -/
structure Psn where
  inner : UInt32
  deriving DecidableEq

namespace Psn

instance : Inhabited Psn := ⟨⟨0⟩⟩

/-- Serial-number order on the masked 32-bit difference. -/
def cmp (p q : Psn) : Ordering :=
  let x := (p.inner-q.inner) &&& psnMask
  if x=0 then .eq else if maxPsnWindow<x.toNat then .lt else .gt

instance : LT Psn := ⟨fun p q => p.cmp q=.lt⟩
instance : LE Psn := ⟨fun p q => p.cmp q≠.gt⟩
instance (p q : Psn) : Decidable (p<q) := inferInstanceAs (Decidable (p.cmp q=.lt))
instance (p q : Psn) : Decidable (p≤q) := inferInstanceAs (Decidable (p.cmp q≠.gt))

instance : HAdd Psn UInt32 Psn := ⟨fun p n => ⟨(p.inner+n) &&& psnMask⟩⟩
instance : HSub Psn UInt32 Psn := ⟨fun p n => ⟨(p.inner-n) &&& psnMask⟩⟩
instance : HAdd Psn Psn Psn := ⟨fun p q => ⟨(p.inner+q.inner) &&& psnMask⟩⟩
instance : HSub Psn Psn Psn := ⟨fun p q => ⟨(p.inner-q.inner) &&& psnMask⟩⟩

def toNat (p : Psn) : Nat := p.inner.toNat

/-- The PSN of absolute position `n` in an unbounded stream of packets. -/
def wrap (n : Nat) : Psn := ⟨UInt32.ofNat (n%2^24)⟩

/-- A PSN that fits the 24 bits it has on the wire. -/
def Valid (p : Psn) : Prop := p.toNat<2^24

instance (p : Psn) : Decidable p.Valid := inferInstanceAs (Decidable (_<_))

@[ext] theorem ext_toNat (p q : Psn) (h : p.toNat=q.toNat) : p=q := by
  cases p; cases q
  exact congrArg Psn.mk (UInt32.toNat_inj.mp h)

theorem and_mask_toNat (x : UInt32) : (x &&& psnMask).toNat=x.toNat%2^24 := by
  rw [UInt32.toNat_and,show psnMask.toNat=2^24-1 from rfl,Nat.and_two_pow_sub_one_eq_mod]

theorem add_toNat (p : Psn) (n : UInt32) : (p+n).toNat=(p.toNat+n.toNat)%2^24 := by
  change ((p.inner+n) &&& psnMask).toNat=_
  rw [and_mask_toNat,UInt32.toNat_add,Nat.mod_mod_of_dvd _ (by decide)]
  rfl

theorem sub_psn_toNat (p q : Psn) : (p-q).toNat=Serial.dist (2^23) p.toNat q.toNat := by
  change ((p.inner-q.inner) &&& psnMask).toNat=_
  rw [and_mask_toNat,UInt32.toNat_sub,Nat.mod_mod_of_dvd _ (by decide)]
  have hp := p.inner.toNat_lt
  have hq := q.inner.toNat_lt
  simp only [Serial.dist,toNat]
  omega

theorem cmp_eq (p q : Psn) : p.cmp q=Serial.cmp (2^23) p.toNat q.toNat := by
  have h := sub_psn_toNat p q
  change ((p.inner-q.inner) &&& psnMask).toNat=_ at h
  have hz : ((p.inner-q.inner) &&& psnMask=0) ↔ Serial.dist (2^23) p.toNat q.toNat=0 := by
    rw [← h,← UInt32.toNat_inj]; rfl
  simp only [cmp,Serial.cmp,hz,h,maxPsnWindow]

@[simp] theorem wrap_toNat (n : Nat) : (wrap n).toNat=n%2^24 := by
  simp only [wrap,toNat,UInt32.toNat_ofNat_of_lt' (show n%2^24<2^32 by omega)]

theorem wrap_valid (n : Nat) : (wrap n).Valid := by
  rw [Valid,wrap_toNat]; omega

theorem eq_wrap (p : Psn) (h : p.Valid) : p=wrap p.toNat := by
  apply ext_toNat
  rw [wrap_toNat,Nat.mod_eq_of_lt h]

theorem wrap_add (n : Nat) (k : UInt32) : wrap n+k=wrap (n+k.toNat) := by
  apply ext_toNat
  rw [add_toNat,wrap_toNat,wrap_toNat]
  omega

theorem wrap_eq_iff (a b : Nat) : wrap a=wrap b ↔ a%2^24=b%2^24 := by
  constructor
  · intro h
    simpa using congrArg toNat h
  · intro h
    apply ext_toNat
    simpa using h

/-- A PSN is the one its distance behind any position leads to. -/
theorem wrap_add_sub (b : Nat) (p : Psn) (hp : p.Valid) : wrap (b+(p-wrap b).toNat)=p := by
  have hd : (p-wrap b).toNat=Serial.dist (2^23) p.toNat b := by
    have hmod := Serial.dist_mod (2^23) p.toNat b (by decide)
    rw [Nat.mod_eq_of_lt (show p.toNat<2*2^23 from hp)] at hmod
    rw [sub_psn_toNat,wrap_toNat]
    exact hmod
  have hint := Serial.dist_int (2^23) p.toNat b (by decide)
  apply ext_toNat
  rw [wrap_toNat,hd]
  simp only [Valid] at hp
  generalize Serial.dist (2^23) p.toNat b=d at hint ⊢
  push_cast at hint
  omega

/-- Less than a circle ahead, the difference is that of the positions. -/
theorem wrap_sub_wrap (a b : Nat) (h : b≤a) (hw : a<b+2^24) : (wrap a-wrap b).toNat=a-b := by
  rw [sub_psn_toNat,wrap_toNat,wrap_toNat,show 2^24=2*2^23 from rfl,
    Serial.dist_mod _ _ _ (by decide)]
  exact Serial.dist_of_le _ _ _ h (by omega)

/-- What the serial order does not put ahead of a PSN lies less than half the circle behind it. -/
theorem ahead_of_le (p q : Psn) (hq : q.Valid) (hp : p.Valid) (h : p≤q) :
    ∃ e<2^23,q=wrap (p.toNat+e) := by
  have hwrap := wrap_add_sub p.toNat q hq
  rw [← eq_wrap p hp,sub_psn_toNat] at hwrap
  refine ⟨Serial.dist (2^23) q.toNat p.toNat,?_,hwrap.symm⟩
  have hqp := Serial.dist_int (2^23) q.toNat p.toNat (by decide)
  have hpq := Serial.dist_int (2^23) p.toNat q.toNat (by decide)
  have hcmp : Serial.cmp (2^23) p.toNat q.toNat≠.gt := fun hg => h ((cmp_eq p q).trans hg)
  unfold Serial.cmp at hcmp
  generalize Serial.dist (2^23) q.toNat p.toNat=e at hqp ⊢
  generalize Serial.dist (2^23) p.toNat q.toNat=d at hpq hcmp
  push_cast at hqp hpq
  split_ifs at hcmp
  · omega
  · omega
  · exact absurd rfl hcmp

theorem add_valid (p : Psn) (n : UInt32) : (p+n).Valid := by
  rw [Valid,add_toNat]; omega

theorem add_add (p : Psn) (m n : UInt32) : p+m+n=p+(m+n) := by
  apply ext_toNat
  simp only [add_toNat,UInt32.toNat_add]
  omega

theorem add_right_comm (p : Psn) (m n : UInt32) : p+m+n=p+n+m := by
  apply ext_toNat
  simp only [add_toNat]
  omega

theorem cmp_wrap (a b : Nat) : (wrap a).cmp (wrap b)=Serial.cmp (2^23) a b := by
  rw [cmp_eq,wrap_toNat,wrap_toNat]
  exact Serial.cmp_mod (2^23) a b (by decide)

/-- Within half the circle the serial order is the order of positions. -/
theorem wrap_lt (a b : Nat) (hab : a<b+2^23) (hba : b<a+2^23) : wrap a<wrap b ↔ a<b := by
  change (wrap a).cmp (wrap b)=.lt ↔ _
  rw [cmp_wrap,Serial.cmp_near _ a b hab hba,Nat.compare_eq_lt]

theorem wrap_le (a b : Nat) (hab : a<b+2^23) (hba : b<a+2^23) : wrap a≤wrap b ↔ a≤b := by
  change (wrap a).cmp (wrap b)≠.gt ↔ _
  rw [cmp_wrap,Serial.cmp_near _ a b hab hba,ne_eq,Nat.compare_eq_gt,not_lt]

theorem lt_of_wrap_lt (a b : Nat) (hab : a≤b+2^23) (h : wrap a<wrap b) : a<b :=
  Serial.lt_of_cmp_lt (2^23) a b (by decide) hab ((cmp_wrap a b).symm.trans h)

theorem le_of_wrap_le (a b : Nat) (hab : a≤b+2^23) (h : wrap a≤wrap b) : a≤b :=
  Serial.le_of_cmp_ne_gt (2^23) a b hab (fun hg => h ((cmp_wrap a b).trans hg))

/-- The order only sees the distance of its arguments. -/
theorem cmp_add (p q : Psn) (s : UInt32) : (p+s).cmp (q+s)=p.cmp q := by
  rw [cmp_eq,cmp_eq,add_toNat,add_toNat,show 2^24=2*2^23 from rfl,
    Serial.cmp_mod _ _ _ (by decide),Serial.cmp_shift _ _ _ _ (by decide)]

theorem add_le_add_iff (p q : Psn) (s : UInt32) : p+s≤q+s ↔ p≤q := by
  change (p+s).cmp (q+s)≠.gt ↔ p.cmp q≠.gt
  rw [cmp_add]

end Psn
end BlueRdma

import Mathlib.Tactic

namespace BlueRdma.Word

/-- `u64::saturating_add`. -/
def saturatingAdd (a b : UInt64) : UInt64 := if a.toNat+b.toNat<2^64 then a+b else -1

/-- `u64::saturating_sub`. -/
def saturatingSub (a b : UInt64) : UInt64 := if b≤a then a-b else 0

/-- `u64::checked_sub`. -/
def checkedSub (a b : UInt64) : Option UInt64 := if b≤a then some (a-b) else none

/-- `u64::div_ceil`; the divisor is never zero here. -/
def divCeil (a b : UInt64) : UInt64 := if 0<a%b then a/b+1 else a/b

/-- `u32::try_from(u64).ok()`. -/
def toU32? (a : UInt64) : Option UInt32 := if a.toNat<2^32 then some a.toUInt32 else none

/-- `x & !(align - 1)`. -/
def alignDown (x align : UInt64) : UInt64 := x &&& ~~~(align-1)

theorem saturatingAdd_toNat (a b : UInt64) (h : a.toNat+b.toNat<2^64) :
    (saturatingAdd a b).toNat=a.toNat+b.toNat := by
  rw [saturatingAdd,if_pos h,UInt64.toNat_add,Nat.mod_eq_of_lt h]

theorem sub_toNat (a b : UInt64) (h : b.toNat≤a.toNat) : (a-b).toNat=a.toNat-b.toNat :=
  UInt64.toNat_sub_of_le a b (UInt64.le_iff_toNat_le.mpr h)

theorem saturatingSub_toNat (a b : UInt64) : (saturatingSub a b).toNat=a.toNat-b.toNat := by
  unfold saturatingSub
  split_ifs with h
  · exact sub_toNat a b (UInt64.le_iff_toNat_le.mp h)
  · have hn : ¬b.toNat≤a.toNat := fun hb => h (UInt64.le_iff_toNat_le.mpr hb)
    rw [UInt64.toNat_zero]
    omega

/-- The default of a failed subtraction is the minuend itself. -/
theorem checkedSub_getD_toNat (a b : UInt64) :
    ((checkedSub a b).getD a).toNat=if b.toNat≤a.toNat then a.toNat-b.toNat else a.toNat := by
  unfold checkedSub
  by_cases h : b.toNat≤a.toNat
  · rw [if_pos (UInt64.le_iff_toNat_le.mpr h),if_pos h]
    exact sub_toNat a b h
  · rw [if_neg (fun hb => h (UInt64.le_iff_toNat_le.mp hb)),if_neg h]
    rfl

theorem divCeil_toNat (a b : UInt64) (hb : 0<b.toNat) :
    (divCeil a b).toNat=(a.toNat+b.toNat-1)/b.toNat := by
  have hd := Nat.div_add_mod a.toNat b.toNat
  have hm := Nat.mod_lt a.toNat hb
  unfold divCeil
  split_ifs with h
  · have hr : 0<a.toNat%b.toNat := by simpa [UInt64.lt_iff_toNat_lt] using h
    have hlt : a.toNat/b.toNat+1<2^64 := by
      have hq : 1*(a.toNat/b.toNat)≤b.toNat*(a.toNat/b.toNat) := Nat.mul_le_mul_right _ hb
      have := a.toNat_lt
      omega
    have hq : a.toNat+b.toNat-1=b.toNat*(a.toNat/b.toNat+1)+(a.toNat%b.toNat-1) := by
      rw [Nat.mul_add,Nat.mul_one]; omega
    rw [UInt64.toNat_add,UInt64.toNat_div,UInt64.toNat_one,Nat.mod_eq_of_lt hlt,hq,
      Nat.mul_add_div hb,Nat.div_eq_of_lt (show a.toNat%b.toNat-1<b.toNat by omega),Nat.add_zero]
  · have hr : a.toNat%b.toNat=0 := by
      simpa [UInt64.lt_iff_toNat_lt] using h
    have hq : a.toNat+b.toNat-1=b.toNat*(a.toNat/b.toNat)+(b.toNat-1) := by omega
    rw [UInt64.toNat_div,hq,Nat.mul_add_div hb,
      Nat.div_eq_of_lt (show b.toNat-1<b.toNat by omega),Nat.add_zero]

theorem toU32?_eq_some (a : UInt64) (h : a.toNat<2^32) : toU32? a=some a.toUInt32 := if_pos h

theorem toU32?_some (a : UInt64) (b : UInt32) (h : toU32? a=some b) :
    a.toNat<2^32 ∧ b=a.toUInt32 := by
  unfold toU32? at h
  split_ifs at h with hlt
  exact ⟨hlt,(Option.some.inj h).symm⟩

theorem toU32?_toUInt64 (a : UInt64) (b : UInt32) (h : toU32? a=some b) : b.toUInt64=a := by
  obtain ⟨hlt,rfl⟩ := toU32?_some a b h
  rw [← UInt64.toNat_inj,UInt32.toNat_toUInt64,UInt64.toNat_toUInt32,Nat.mod_eq_of_lt hlt]

/-- Clearing the low bits of a word rounds it down to a multiple of a power of two. -/
theorem alignDown_toNat (x align : UInt64) (k : Nat) (hk : k<64) (ha : align.toNat=2^k) :
    (alignDown x align).toNat=2^k*(x.toNat/2^k) := by
  have hpos : 0<2^k := Nat.two_pow_pos k
  have hmask : (align-1).toNat=2^k-1 := by
    rw [sub_toNat align 1 (by rw [ha,UInt64.toNat_one]; omega),ha,UInt64.toNat_one]
  have hlt : 2^k<2^64 := Nat.pow_lt_pow_right (by omega) hk
  apply Nat.eq_of_testBit_eq
  intro j
  rw [alignDown,UInt64.toNat_and,UInt64.toNat_not,hmask,Nat.testBit_and,
    show UInt64.size-1-(2^k-1)=2^64-((2^k-1)+1) from by
      rw [show UInt64.size=2^64 from rfl]; omega,
    Nat.testBit_two_pow_sub_succ (by omega),Nat.testBit_two_pow_sub_one,
    mul_comm,Nat.testBit_mul_two_pow,Nat.testBit_div_two_pow]
  by_cases hj : k≤j
  · rw [Nat.sub_add_cancel hj]
    by_cases h64 : j<64
    · simp [hj,h64]
    · rw [Nat.testBit_lt_two_pow
        (x.toNat_lt.trans_le (Nat.pow_le_pow_right (by decide) (by omega)))]
      simp
  · simp [hj,show j<k by omega]

theorem min_toNat (a b : UInt64) : (min a b).toNat=min a.toNat b.toNat := by
  change (if a≤b then a else b).toNat=_
  split_ifs with h
  · exact (min_eq_left (UInt64.le_iff_toNat_le.mp h)).symm
  · exact (min_eq_right (by rw [UInt64.le_iff_toNat_le] at h; omega)).symm

/-- Taking one block of `s` off a non-empty rest lowers the block count by one. -/
theorem ceil_step (x s : Nat) (hs : 0 < s) (hx : 0<x) : (x+s-1)/s=(x-s+s-1)/s+1 := by
  rcases le_total x s with h|h
  · rw [Nat.sub_eq_zero_of_le h,Nat.div_eq_of_lt (show 0+s-1 < s by omega),
      show x+s-1=(x-1)+s by omega,Nat.add_div_right _ hs,Nat.div_eq_of_lt (show x-1 < s by omega)]
  · rw [show x+s-1=(x-s+s-1)+s by omega,Nat.add_div_right _ hs]

/-- The gap between a number and the next multiple of `m`. -/
theorem roundUp_sub (m a : Nat) (hm : 0 < m) : m*((a+(m-1))/m)-a=(m-a%m)%m := by
  have hd := Nat.div_add_mod a m
  have hr := Nat.mod_lt a hm
  rcases Nat.eq_zero_or_pos (a%m) with h0|h0
  · have hq : a+(m-1)=m*(a/m)+(m-1) := by omega
    rw [hq,Nat.mul_add_div hm,Nat.div_eq_of_lt (show m-1 < m by omega),h0,Nat.sub_zero,
      Nat.mod_self,Nat.add_zero]
    omega
  · have hq : a+(m-1)=m*(a/m+1)+(a%m-1) := by rw [Nat.mul_add,Nat.mul_one]; omega
    rw [hq,Nat.mul_add_div hm,Nat.div_eq_of_lt (show a%m-1 < m by omega),
      Nat.mod_eq_of_lt (show m-a%m < m by omega),Nat.add_zero,Nat.mul_add,Nat.mul_one]
    omega

/-- The low word of a double word, `(x & 0xFFFF_FFFF) as u32`. -/
def lowHalf (x : UInt64) : UInt32 := (x &&& 0xFFFFFFFF).toUInt32

/-- The high word of a double word, `(x >> 32) as u32`. -/
def highHalf (x : UInt64) : UInt32 := (x >>> 32).toUInt32

/-- The double word of two words, `u64::from(lo) | (u64::from(hi) << 32)`. -/
def joinHalves (lo hi : UInt32) : UInt64 := lo.toUInt64 ||| (hi.toUInt64 <<< 32)

theorem lowHalf_toNat (x : UInt64) : (lowHalf x).toNat=x.toNat%2^32 := by
  rw [lowHalf,UInt64.toNat_toUInt32,UInt64.toNat_and,
    show (0xFFFFFFFF : UInt64).toNat=2^32-1 from rfl,Nat.and_two_pow_sub_one_eq_mod,Nat.mod_mod]

theorem highHalf_toNat (x : UInt64) : (highHalf x).toNat=x.toNat/2^32 := by
  have hlt := x.toNat_lt
  rw [highHalf,UInt64.toNat_toUInt32,UInt64.toNat_shiftRight,
    show (32 : UInt64).toNat%64=32 from rfl,Nat.shiftRight_eq_div_pow]
  omega

theorem joinHalves_toNat (lo hi : UInt32) :
    (joinHalves lo hi).toNat=2^32*hi.toNat+lo.toNat := by
  have hlo := lo.toNat_lt
  have hhi := hi.toNat_lt
  rw [joinHalves,UInt64.toNat_or,UInt64.toNat_shiftLeft,UInt32.toNat_toUInt64,
    UInt32.toNat_toUInt64,show (32 : UInt64).toNat%64=32 from rfl,Nat.shiftLeft_eq,
    Nat.mod_eq_of_lt (by omega),Nat.or_comm,mul_comm,Nat.two_pow_add_eq_or_of_lt hlo]

@[simp] theorem lowHalf_joinHalves (lo hi : UInt32) : lowHalf (joinHalves lo hi)=lo := by
  have hlo := lo.toNat_lt
  rw [← UInt32.toNat_inj,lowHalf_toNat,joinHalves_toNat]
  omega

@[simp] theorem highHalf_joinHalves (lo hi : UInt32) : highHalf (joinHalves lo hi)=hi := by
  have hlo := lo.toNat_lt
  rw [← UInt32.toNat_inj,highHalf_toNat,joinHalves_toNat]
  omega

@[simp] theorem joinHalves_halves (x : UInt64) : joinHalves (lowHalf x) (highHalf x)=x := by
  rw [← UInt64.toNat_inj,joinHalves_toNat,lowHalf_toNat,highHalf_toNat]
  omega

end BlueRdma.Word

import BlueRdma.Math.Serial

namespace BlueRdma

/-- Maximum number of outstanding send work requests that can be posted to a queue pair. -/
def maxSendWr : Nat := 0x8000

/-- A 16-bit message sequence number under its serial order. -/
structure Msn where
  inner : UInt16
  deriving DecidableEq

namespace Msn

def partialCmp (m n : Msn) : Ordering :=
  let x := m.inner-n.inner
  if x=0 then .eq else if maxSendWr<x.toNat then .lt else .gt

instance : LT Msn := ⟨fun m n => m.partialCmp n=.lt⟩
instance (m n : Msn) : Decidable (m<n) := inferInstanceAs (Decidable (m.partialCmp n=.lt))

/-- The MSN of the `n`-th message of an unbounded stream. -/
def wrap (n : Nat) : UInt16 := UInt16.ofNat n

@[simp] theorem wrap_toNat (n : Nat) : (wrap n).toNat=n%2^16 := UInt16.toNat_ofNat'

theorem partialCmp_eq (m n : Msn) :
    m.partialCmp n=Serial.cmp (2^15) m.inner.toNat n.inner.toNat := by
  have h : (m.inner-n.inner).toNat=Serial.dist (2^15) m.inner.toNat n.inner.toNat := by
    have hm := m.inner.toNat_lt
    have hn := n.inner.toNat_lt
    rw [UInt16.toNat_sub,Serial.dist]
    omega
  have hz : (m.inner-n.inner=0) ↔ Serial.dist (2^15) m.inner.toNat n.inner.toNat=0 := by
    rw [← h,← UInt16.toNat_inj]; rfl
  simp only [partialCmp,Serial.cmp,hz,h,maxSendWr]
  rfl

theorem wrap_lt (a b : Nat) (hab : a<b+2^15) (hba : b<a+2^15) :
    (⟨wrap a⟩ : Msn)<⟨wrap b⟩ ↔ a<b := by
  change partialCmp _ _=.lt ↔ _
  rw [partialCmp_eq,wrap_toNat,wrap_toNat,show 2^16=2*2^15 from rfl,
    Serial.cmp_mod _ _ _ (by decide),Serial.cmp_near _ a b hab hba,Nat.compare_eq_lt]

theorem wrap_inj (a b : Nat) (hab : a<b+2^16) (hba : b<a+2^16) : wrap a=wrap b ↔ a=b := by
  rw [← UInt16.toNat_inj,wrap_toNat,wrap_toNat]
  omega

theorem wrap_succ (n : Nat) : wrap n+1=wrap (n+1) := (UInt16.ofNat_add n 1).symm

theorem wrap_sub_wrap (a b : Nat) (h : b≤a) (hw : a<b+2^16) : (wrap a-wrap b).toNat=a-b := by
  rw [UInt16.toNat_sub,wrap_toNat,wrap_toNat]
  omega

end Msn
end BlueRdma

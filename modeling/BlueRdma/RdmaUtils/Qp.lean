import BlueRdma.Math.Word
import BlueRdma.RdmaUtils.Msn
import BlueRdma.RdmaUtils.Types

namespace BlueRdma

/-- Path MTU in bytes of an `ibv_mtu` code. -/
def convertIbvMtuToU16 (ibvMtu : UInt8) : Option UInt16 :=
  match ibvMtu.toNat with
  | 1 => some 256
  | 2 => some 512
  | 3 => some 1024
  | 4 => some 2048
  | 5 => some 4096
  | _ => none

/-- Number of PSNs a work request is charged for. The path MTU is never zero,
so the `checked_sub` of the mask cannot fail. -/
def numPsn (pmtu : UInt8) (addr : UInt64) (length : UInt32) : Option UInt32 := do
  let pmtu ← convertIbvMtuToU16 pmtu
  let pmtuMask := (pmtu-1).toUInt64
  let nextAlignAddr := Word.saturatingAdd addr pmtuMask &&& ~~~pmtuMask
  let gap := Word.saturatingSub nextAlignAddr addr
  let lengthU64 := length.toUInt64
  Word.toU32? (Word.divCeil ((Word.checkedSub lengthU64 gap).getD lengthU64) pmtu.toUInt64)

structure SendQueueContext where
  msn : UInt16
  psn : Psn
  psnAcked : Psn
  msnAcked : UInt16
  deriving DecidableEq

namespace SendQueueContext

def init : SendQueueContext := ⟨0,⟨0⟩,⟨0⟩,0⟩

/-- Reserves `numPsn` PSNs and one MSN, or nothing when a window is full. -/
def nextWr (ctx : SendQueueContext) (numPsn : UInt32) :
    SendQueueContext × Option (UInt16 × Psn) :=
  let outstandingNumPsn := ctx.psn-ctx.psnAcked
  let outstandingNumMsn := ctx.msn-ctx.msnAcked
  if maxPsnWindow<(outstandingNumPsn+numPsn).toNat ∨ maxSendWr≤outstandingNumMsn.toNat then
    (ctx,none)
  else
    ({ctx with msn := ctx.msn+1,psn := ctx.psn+numPsn},some (ctx.msn,ctx.psn))

def updatePsnAcked (ctx : SendQueueContext) (psn : Psn) : SendQueueContext :=
  {ctx with psnAcked := psn}

def updateMsnAcked (ctx : SendQueueContext) (msn : UInt16) : SendQueueContext :=
  {ctx with msnAcked := msn}

/-- An accepted request takes the current PSN and MSN and moves both counters. -/
theorem nextWr_some (ctx : SendQueueContext) (n : UInt32) (m : UInt16) (p : Psn)
    (h : (ctx.nextWr n).2=some (m,p)) :
    m=ctx.msn ∧ p=ctx.psn ∧ (ctx.nextWr n).1={ctx with msn := ctx.msn+1,psn := ctx.psn+n} ∧
    (ctx.psn-ctx.psnAcked+n).toNat ≤ maxPsnWindow ∧ (ctx.msn-ctx.msnAcked).toNat < maxSendWr := by
  unfold nextWr at h ⊢
  dsimp only at h ⊢
  split_ifs at h ⊢ with hc
  rw [not_or,not_lt,not_le] at hc
  simp only [Option.some.injEq,Prod.mk.injEq] at h
  exact ⟨h.1.symm,h.2.symm,rfl,hc.1,hc.2⟩

theorem nextWr_none (ctx : SendQueueContext) (n : UInt32) (h : (ctx.nextWr n).2=none) :
    (ctx.nextWr n).1=ctx := by
  unfold nextWr at h ⊢
  dsimp only at h ⊢
  split_ifs at h ⊢
  rfl

theorem nextWr_isSome (ctx : SendQueueContext) (n : UInt32) :
    (ctx.nextWr n).2.isSome ↔
      (ctx.psn-ctx.psnAcked+n).toNat ≤ maxPsnWindow ∧ (ctx.msn-ctx.msnAcked).toNat < maxSendWr := by
  rw [nextWr]
  split_ifs with hc
  · rcases hc with hc|hc
    · simp [hc]
    · simp [hc]
  · rw [not_or,not_lt,not_le] at hc
    simp [hc]

end SendQueueContext

/-- The accepted codes are the powers of two from `2^8` to `2^12`. -/
theorem convertIbvMtuToU16_pow (c : UInt8) (m : UInt16) (h : convertIbvMtuToU16 c=some m) :
    ∃ k,8≤k ∧ k≤12 ∧ m.toNat=2^k := by
  unfold convertIbvMtuToU16 at h
  split at h <;> simp only [Option.some.injEq,reduceCtorEq] at h <;> subst h
  exacts [⟨8,by decide⟩,⟨9,by decide⟩,⟨10,by decide⟩,⟨11,by decide⟩,⟨12,by decide⟩]

/-- Closed form of the PSN count over the naturals: the bytes up to the next
path-MTU boundary are left out as soon as the request reaches that boundary. -/
theorem numPsn_eq (c : UInt8) (m : UInt16) (addr : UInt64) (length : UInt32)
    (hm : convertIbvMtuToU16 c=some m) (hfit : addr.toNat+2^16<2^64) :
    ∃ n : UInt32,numPsn c addr length=some n ∧
      n.toNat=((if (m.toNat-addr.toNat%m.toNat)%m.toNat≤length.toNat
        then length.toNat-(m.toNat-addr.toNat%m.toNat)%m.toNat else length.toNat)+m.toNat-1)/m.toNat := by
  obtain ⟨k,hk8,hk12,hmk⟩ := convertIbvMtuToU16_pow c m hm
  have hpos : 0<2^k := Nat.two_pow_pos k
  have hle : 2^k≤2^12 := Nat.pow_le_pow_right (by decide) hk12
  have hm64 : m.toUInt64.toNat=2^k := by rw [UInt16.toNat_toUInt64,hmk]
  have hmask : (m-1).toUInt64=m.toUInt64-1 := by
    rw [← UInt64.toNat_inj,UInt16.toNat_toUInt64,UInt16.toNat_sub_of_le _ _ (by
      rw [UInt16.le_iff_toNat_le,hmk]; exact hpos),Word.sub_toNat _ _ (by
      rw [hm64]; exact hpos),UInt16.toNat_toUInt64]
    rfl
  have hmaskNat : (m-1).toUInt64.toNat=2^k-1 := by
    rw [hmask,Word.sub_toNat _ _ (by rw [hm64]; exact hpos),hm64]; rfl
  have hadd : (Word.saturatingAdd addr (m-1).toUInt64).toNat=addr.toNat+(2^k-1) := by
    rw [Word.saturatingAdd_toNat _ _ (by rw [hmaskNat]; omega),hmaskNat]
  have halign : (Word.saturatingAdd addr (m-1).toUInt64 &&& ~~~(m-1).toUInt64).toNat=
      2^k*((addr.toNat+(2^k-1))/2^k) := by
    have h := Word.alignDown_toNat (Word.saturatingAdd addr (m-1).toUInt64) m.toUInt64 k
      (by omega) hm64
    rw [hadd] at h
    rw [← h,Word.alignDown,hmask]
  have hgap : (Word.saturatingSub (Word.saturatingAdd addr (m-1).toUInt64 &&& ~~~(m-1).toUInt64)
      addr).toNat=(2^k-addr.toNat%2^k)%2^k := by
    rw [Word.saturatingSub_toNat,halign,Word.roundUp_sub _ _ hpos]
  have hlen : length.toUInt64.toNat=length.toNat := UInt32.toNat_toUInt64 length
  have hrest := Word.checkedSub_getD_toNat length.toUInt64
    (Word.saturatingSub (Word.saturatingAdd addr (m-1).toUInt64 &&& ~~~(m-1).toUInt64) addr)
  rw [hgap,hlen] at hrest
  have hdiv := Word.divCeil_toNat ((Word.checkedSub length.toUInt64 (Word.saturatingSub
    (Word.saturatingAdd addr (m-1).toUInt64 &&& ~~~(m-1).toUInt64) addr)).getD length.toUInt64)
    m.toUInt64 (by rw [hm64]; exact hpos)
  rw [hrest,hm64] at hdiv
  have hsmall : ((if (2^k-addr.toNat%2^k)%2^k≤length.toNat
      then length.toNat-(2^k-addr.toNat%2^k)%2^k else length.toNat)+2^k-1)/2^k<2^32 := by
    have hl := length.toNat_lt
    rw [Nat.div_lt_iff_lt_mul hpos]
    have h256 : 2^8≤2^k := Nat.pow_le_pow_right (by decide) hk8
    split_ifs <;> omega
  refine ⟨_,by simp only [numPsn,hm,Option.bind_eq_bind,Option.bind_some]
               exact Word.toU32?_eq_some _ (hdiv ▸ hsmall),?_⟩
  rw [UInt64.toNat_toUInt32,hdiv,Nat.mod_eq_of_lt hsmall,hmk]

end BlueRdma

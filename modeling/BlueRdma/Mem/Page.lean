import Mathlib.Tactic

namespace BlueRdma

/-- Mapped memory, byte by byte. -/
structure MmapMut where
  bytes : Nat → UInt8
  len : Nat

namespace MmapMut

def writeBytes (bytes : Nat → UInt8) (offset : Nat) : List UInt8 → Nat → UInt8
  | [] => bytes
  | x::xs => writeBytes (Function.update bytes offset x) (offset+1) xs

/-- There is no result when the copy would leave the mapping. -/
def copyFrom (m : MmapMut) (offset : Nat) (src : List UInt8) : Option MmapMut :=
  if offset+src.length ≤ m.len then some {m with bytes := writeBytes m.bytes offset src} else none

def get (m : MmapMut) (offset len : Nat) : Option (List UInt8) :=
  if offset+len ≤ m.len then some ((List.range' offset len).map m.bytes) else none

theorem writeBytes_apply (bytes : Nat → UInt8) (offset : Nat) (src : List UInt8) (p : Nat) :
    writeBytes bytes offset src p=
      if offset ≤ p then src[p-offset]?.getD (bytes p) else bytes p := by
  induction src generalizing bytes offset with
  | nil =>
      rw [writeBytes]
      split_ifs <;> rfl
  | cons x xs ih =>
      rw [writeBytes,ih]
      rcases Nat.lt_trichotomy p offset with hp|rfl|hp
      · rw [if_neg (by omega),if_neg (by omega),Function.update_of_ne hp.ne]
      · rw [if_neg (by omega),if_pos le_rfl,Function.update_self,Nat.sub_self]
        rfl
      · rw [if_pos (Nat.succ_le_of_lt hp),if_pos hp.le,Function.update_of_ne hp.ne',
          show p-offset=p-(offset+1)+1 by omega,List.getElem?_cons_succ]

/-- The bytes from `offset` on are those of `src`. -/
def Holds (m : MmapMut) (offset : Nat) (src : List UInt8) : Prop :=
  ∀ j a,src[j]?=some a → m.bytes (offset+j)=a

theorem get_eq_some (m : MmapMut) (offset : Nat) (src : List UInt8)
    (hfits : offset+src.length ≤ m.len) :
    m.get offset src.length=some src ↔ m.Holds offset src := by
  rw [get,if_pos hfits,Option.some.injEq,List.ext_getElem?_iff]
  refine forall_congr' fun j => ?_
  rcases Nat.lt_or_ge j src.length with hj|hj
  · rw [List.getElem?_map,List.getElem?_range' hj,Option.map_some,List.getElem?_eq_getElem hj,
      Nat.one_mul]
    exact ⟨fun h a ha => (Option.some.inj h).trans (Option.some.inj ha),
      fun h => congrArg some (h _ rfl)⟩
  · rw [List.getElem?_eq_none (by rw [List.length_map,List.length_range']; exact hj),
      List.getElem?_eq_none hj]
    simp

section Copy
variable (m m' : MmapMut) (offset : Nat) (src : List UInt8) (h : m.copyFrom offset src=some m')
include h

theorem copyFrom_eq_some : m'={m with bytes := writeBytes m.bytes offset src} := by
  rw [copyFrom] at h
  split_ifs at h
  exact (Option.some.inj h).symm

theorem holds_copyFrom_self : m'.Holds offset src := by
  intro j a ha
  rw [copyFrom_eq_some m m' offset src h]
  dsimp only
  rw [writeBytes_apply,if_pos (by omega),Nat.add_sub_cancel_left,ha]
  rfl

/-- Bytes elsewhere are not touched. -/
theorem holds_copyFrom_apart (offset' : Nat) (src' : List UInt8)
    (hapart : offset+src.length ≤ offset' ∨ offset'+src'.length ≤ offset) :
    m'.Holds offset' src' ↔ m.Holds offset' src' := by
  rw [copyFrom_eq_some m m' offset src h]
  refine forall_congr' fun j => forall_congr' fun a => imp_congr_right fun ha => ?_
  have hj := (List.getElem?_eq_some_iff.mp ha).1
  dsimp only
  rw [writeBytes_apply]
  split_ifs with hle
  · rw [List.getElem?_eq_none (by omega)]
    rfl
  · rfl

/-- In the same place older bytes stay if the new ones agree with them. -/
theorem holds_copyFrom_over (old : List UInt8) (hold : m.Holds offset old) :
    m'.Holds offset old ↔ ∀ (j : Nat) (a b : UInt8),old[j]?=some a → src[j]?=some b → a=b := by
  rw [copyFrom_eq_some m m' offset src h]
  refine forall_congr' fun j => forall_congr' fun a => ?_
  dsimp only
  rw [writeBytes_apply,if_pos (by omega),Nat.add_sub_cancel_left]
  constructor
  · intro heq b ha hb
    rw [← heq ha,hb]
    rfl
  · intro heq ha
    rcases hb : src[j]? with _|b
    · exact hold j a ha
    · exact (heq b ha hb).symm

end Copy
end MmapMut
end BlueRdma

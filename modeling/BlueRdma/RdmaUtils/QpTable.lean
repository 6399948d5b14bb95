import Mathlib.Logic.Function.Basic

namespace BlueRdma

/-- Maximum number of QPs of a device. -/
def maxQpCnt : Nat := 1024

/-- Width of the random part of a QP number. -/
def qpnKeyPartWidth : UInt32 := 8

def qpnToIndex (qpn : UInt32) : Nat := (qpn>>>qpnKeyPartWidth).toNat

/-- One entry for each QP index. -/
@[reducible] def QpTable (α : Type) : Type := Fin maxQpCnt → α

namespace QpTable
variable {α : Type}

def newWith (a : α) : QpTable α := fun _ => a

/-- The entry a QP number selects, unless its index lies outside the table. -/
def index? (qpn : UInt32) : Option (Fin maxQpCnt) :=
  if h : qpnToIndex qpn < maxQpCnt then some ⟨qpnToIndex qpn,h⟩ else none

theorem index?_val (qpn : UInt32) (i : Fin maxQpCnt) (h : index? qpn=some i) :
    qpnToIndex qpn=i.val := by
  unfold index? at h
  split at h
  · rw [← Option.some.inj h]
  · cases h

def getQp (t : QpTable α) (qpn : UInt32) : Option α := (index? qpn).map t

theorem getQp_of_index (t : QpTable α) (qpn : UInt32) (i : Fin maxQpCnt) (h : index? qpn=some i) :
    t.getQp qpn=some (t i) := by
  rw [getQp,h,Option.map_some]

def mapQpMut (t : QpTable α) (qpn : UInt32) (f : α → α) : QpTable α :=
  match index? qpn with
  | none => t
  | some i => Function.update t i (f (t i))

/-- What holds of every entry still does if the change of the selected entry keeps it. -/
theorem mapQpMut_forall (t : QpTable α) (qpn : UInt32) (f : α → α) (P : Fin maxQpCnt → α → Prop)
    (h : ∀ i,P i (t i)) (hf : ∀ i,index? qpn=some i → P i (t i) → P i (f (t i))) :
    ∀ i,P i (t.mapQpMut qpn f i) := by
  intro i
  rw [mapQpMut]
  rcases hk : index? qpn with _|k
  · exact h i
  · dsimp only
    by_cases hi : i=k
    · subst hi
      rw [Function.update_self]
      exact hf i hk (h i)
    · rw [Function.update_of_ne hi]
      exact h i

theorem mapQpMut_of_index (t : QpTable α) (qpn : UInt32) (f : α → α) (i : Fin maxQpCnt)
    (h : index? qpn=some i) : t.mapQpMut qpn f=Function.update t i (f (t i)) := by
  rw [mapQpMut,h]

end QpTable
end BlueRdma

import BlueRdma.Framework.Handles
import BlueRdma.RdmaUtils.QpManager
import BlueRdma.Workers.Completion

namespace BlueRdma

def maxPdCnt : Nat := 256

/-- The protection domains in use. -/
structure PdTable where
  bitmap : BitVec maxPdCnt
  deriving DecidableEq

namespace PdTable

/-- Handle 0 is never given out. -/
def new : PdTable := ⟨FirstFit.mark 0 0 1⟩

def alloc (t : PdTable) : Option UInt32 × PdTable :=
  ((FirstFit.take t.bitmap).1.map UInt32.ofNat,⟨(FirstFit.take t.bitmap).2⟩)

/-- Whether the handle was in use; a handle outside the bitmap panics. -/
def dealloc (t : PdTable) (handle : UInt32) : Option (Bool × PdTable) :=
  (FirstFit.release t.bitmap handle.toNat).map (fun r => (r.1,⟨r.2⟩))

end PdTable

/-- The completion queues in use. -/
structure CqManager where
  bitmap : BitVec maxCqCnt
  deriving DecidableEq

namespace CqManager

def new : CqManager := ⟨0⟩

def createCq (m : CqManager) : Option UInt32 × CqManager :=
  ((FirstFit.take m.bitmap).1.map UInt32.ofNat,⟨(FirstFit.take m.bitmap).2⟩)

/-- Whether the handle was in use; a handle outside the bitmap panics. -/
def destroyCq (m : CqManager) (handle : UInt32) : Option (Bool × CqManager) :=
  (FirstFit.release m.bitmap handle.toNat).map (fun r => (r.1,⟨r.2⟩))

end CqManager

/-- `QpManager` as a manager of handles: the key part of a QP number is random. -/
def qpHandles : HandleManager QpManager UInt8 UInt32 where
  new := .new
  create := QpManager.createQp
  destroy := QpManager.destroyQp
  size := maxQpCnt
  reserved := 1
  bits := QpManager.bitmap
  index := qpnToIndex

def pdHandles : HandleManager PdTable Unit UInt32 where
  new := .new
  create := fun t _ => t.alloc
  destroy := PdTable.dealloc
  size := maxPdCnt
  reserved := 1
  bits := PdTable.bitmap
  index := UInt32.toNat

def cqHandles : HandleManager CqManager Unit UInt32 where
  new := .new
  create := fun m _ => m.createCq
  destroy := CqManager.destroyCq
  size := maxCqCnt
  reserved := 0
  bits := CqManager.bitmap
  index := UInt32.toNat

/-- The bitmap of a manager that keeps index 0 back. -/
theorem getLsbD_reserve (w i : Nat) (hi : i<w) :
    (FirstFit.mark (0 : BitVec w) 0 1).getLsbD i=decide (i<1) := by
  rw [FirstFit.getLsbD_mark]
  simp only [BitVec.ofNat_eq_ofNat,BitVec.getLsbD_zero,Bool.false_or,decide_eq_decide]
  omega

theorem qpHandles_onBits : qpHandles.OnBits
    (fun i key => (UInt32.ofNat i <<< qpnKeyPartWidth) ||| key.toUInt32) QpManager.mk := by
  refine ⟨getLsbD_reserve maxQpCnt,fun _ => rfl,fun _ => rfl,?_,?_,?_⟩
  · intro m key
    change m.createQp key=((FirstFit.take m.bitmap).1.map _,QpManager.mk (FirstFit.take m.bitmap).2)
    rw [QpManager.createQp,FirstFit.take]
    cases FirstFit.search m.bitmap 1 <;> rfl
  · intro m qpn
    change m.destroyQp qpn=(FirstFit.release m.bitmap (qpnToIndex qpn)).map _
    rw [QpManager.destroyQp,QpTable.index?,FirstFit.release]
    split_ifs <;> rfl
  · intro i hi key
    exact QpManager.qpnToIndex_or i key hi

theorem pdHandles_onBits : pdHandles.OnBits (fun i _ => UInt32.ofNat i) PdTable.mk :=
  ⟨getLsbD_reserve maxPdCnt,fun _ => rfl,fun _ => rfl,fun _ _ => rfl,fun _ _ => rfl,
    fun _ hi _ => UInt32.toNat_ofNat_of_lt' (hi.trans (show maxPdCnt<2^32 by decide))⟩

theorem cqHandles_onBits : cqHandles.OnBits (fun i _ => UInt32.ofNat i) CqManager.mk :=
  ⟨fun _ _ => BitVec.getLsbD_zero,fun _ => rfl,fun _ => rfl,fun _ _ => rfl,fun _ _ => rfl,
    fun _ hi _ => UInt32.toNat_ofNat_of_lt' (hi.trans (show maxCqCnt<2^32 by decide))⟩

end BlueRdma

import BlueRdma.Math.FirstFit
import BlueRdma.RdmaUtils.QpTable

namespace BlueRdma

/-- The QP numbers in use, by index. -/
structure QpManager where
  bitmap : BitVec maxQpCnt
  deriving DecidableEq

namespace QpManager

/-- Index 0 is never given out. -/
def new : QpManager := ⟨FirstFit.mark 0 0 1⟩

/-- The lowest free index, with a random key in the low bits. -/
def createQp (m : QpManager) (key : UInt8) : Option UInt32 × QpManager :=
  match FirstFit.search m.bitmap 1 with
  | none => (none,m)
  | some index =>
    (some ((UInt32.ofNat index <<< qpnKeyPartWidth) ||| key.toUInt32),⟨FirstFit.mark m.bitmap index 1⟩)

/-- Whether the QP was in use; an index outside the bitmap panics. -/
def destroyQp (m : QpManager) (qpn : UInt32) : Option (Bool × QpManager) :=
  (QpTable.index? qpn).map (fun i => (m.bitmap.getLsbD i,⟨FirstFit.clear m.bitmap i 1⟩))

/-- A QP number selects the table entries of the index it was made from. -/
theorem qpnToIndex_or (index : Nat) (key : UInt8) (h : index < maxQpCnt) :
    qpnToIndex ((UInt32.ofNat index <<< qpnKeyPartWidth) ||| key.toUInt32)=index := by
  have hindex : index%2^32=index := Nat.mod_eq_of_lt (h.trans (by decide))
  have hshift : index<<<8%2^32=index*2^8 := by
    rw [Nat.shiftLeft_eq]
    exact Nat.mod_eq_of_lt (by unfold maxQpCnt at h; omega)
  have hkey : key.toNat<2^8 := UInt8.toNat_lt key
  simp only [qpnToIndex,qpnKeyPartWidth,UInt32.toNat_shiftRight,UInt32.toNat_or,
    UInt32.toNat_shiftLeft,UInt32.toNat_ofNat',UInt8.toNat_toUInt32,hindex]
  change (index<<<8%2^32 ||| key.toNat)>>>8=index
  rw [hshift,Nat.shiftRight_eq_div_pow,Nat.mul_comm,← Nat.two_pow_add_eq_or_of_lt hkey]
  omega

/-- The new QP's index was free. -/
theorem createQp_some (m m' : QpManager) (key : UInt8) (qpn : UInt32)
    (h : m.createQp key=(some qpn,m')) :
    ∃ i : Fin maxQpCnt,QpTable.index? qpn=some i ∧ FirstFit.search m.bitmap 1=some i.val := by
  unfold createQp at h
  split at h
  · cases h
  next index hsearch =>
  obtain ⟨rfl,-⟩ := Prod.mk.inj h |>.imp Option.some.inj id
  have hlt : index < maxQpCnt := by
    have := (FirstFit.search_spec m.bitmap 1 index hsearch).2.1
    omega
  refine ⟨⟨index,hlt⟩,?_,hsearch⟩
  have hindex := qpnToIndex_or index key hlt
  rw [QpTable.index?,dif_pos (by rw [hindex]; exact hlt)]
  simp only [hindex]

end QpManager
end BlueRdma

import BlueRdma.RingBuf.DmaRb

namespace BlueRdma.DmaRingBuf
variable {T : Type} [Zeroed T]

/-- The ring holds exactly `l`, whatever the copy of the head. -/
def Filled (r : DmaRingBuf T) (l : List T) : Prop := ∃ head,Stores {r with head := head} l

theorem new_filled : Filled (new fun _ => (Zeroed.zeroed : T)) [] := ⟨0,new_stores⟩

theorem succ_wrapMask (t : UInt64) : ((t+1)&&&ringBufLenWrapMask).toNat=(t.toNat+1)%8192 := by
  rw [and_wrapMask,UInt64.toNat_add,UInt64.toNat_one]
  omega

theorem pop_withHead (r : DmaRingBuf T) (head : UInt64) (cond : T → Bool) :
    ({r with head := head} : DmaRingBuf T).pop cond=
      ({(r.pop cond).1 with head := head},(r.pop cond).2) := by
  rw [pop,pop]
  change (if cond (r.slots r.tailIdx) then _ else _)=_
  split_ifs <;> rfl

theorem popTwo_withHead (r : DmaRingBuf T) (head : UInt64) (cond requireNext : T → Bool) :
    ({r with head := head} : DmaRingBuf T).popTwo cond requireNext=
      ({(r.popTwo cond requireNext).1 with head := head},(r.popTwo cond requireNext).2) := by
  rw [Stores.popTwo_eq,Stores.popTwo_eq]
  change (if cond (r.slots r.tailIdx) then if requireNext (r.slots r.tailIdx) then
    if cond (r.slots (r.readAndAdvance r.tailIdx).1.tailIdx) then _ else _ else _ else _)=_
  split_ifs <;> rfl

namespace Filled
variable {r : DmaRingBuf T} {l : List T} {cond : T → Bool}

theorem length_le (h : Filled r l) : l.length ≤ 4096 := by
  obtain ⟨head,hstores⟩ := h
  exact hstores.window.fits

theorem setHead (h : Filled r l) (head : UInt32) : Filled (r.setHead head) l := h

/-- The device writes the slot behind the last entry. -/
theorem arrive (h : Filled r l) (hroom : l.length<4096) (x : T) (k : Nat)
    (hk : r.tail.toNat=k%8192) : Filled (r.write ((k+l.length)%4096) x) (l++[x]) := by
  obtain ⟨head,hstores⟩ := h
  obtain ⟨hok,hpush⟩ := hstores.push_stores hroom x
  have hidx := hstores.window.headIdx_eq
  have hroom' : ({r with head := head} : DmaRingBuf T).len≠ringBufLen := by
    rw [hstores.window.len_eq]
    exact hroom.ne
  change _=(r.tail.toNat+l.length)%4096 at hidx
  refine ⟨(head+1)&&&ringBufLenWrapMask,?_⟩
  rw [push,if_neg hroom',hidx,hk] at hpush
  rwa [show (k%8192+l.length)%4096=(k+l.length)%4096 by omega] at hpush

theorem pop_filled (h : Filled r l) (hzero : cond Zeroed.zeroed=false)
    (hl : ∀ x∈l,cond x=true) :
    (r.pop cond).2=l.head? ∧ Filled (r.pop cond).1 l.tail ∧ (l=[] → r.pop cond=(r,none)) := by
  obtain ⟨head,hstores⟩ := h
  have hslot := hstores.slot_tail
  obtain ⟨hvalue,hnext,-⟩ := hstores.pop_stores hzero hl
  rw [pop_withHead] at hvalue hnext
  refine ⟨hvalue,⟨head,hnext⟩,?_⟩
  rintro rfl
  change r.slots r.tailIdx=Zeroed.zeroed at hslot
  rw [pop,hslot,hzero]
  rfl

/-- Taking an entry moves the tail. -/
theorem pop_tail (r : DmaRingBuf T) (cond : T → Bool) (h : (r.pop cond).2.isSome) :
    (r.pop cond).1.tail.toNat=(r.tail.toNat+1)%8192 := by
  rw [pop] at h ⊢
  split_ifs at h ⊢ with hcond
  · exact succ_wrapMask r.tail
  · cases h

theorem popTwo_filled (h : Filled r l) (requireNext : T → Bool) (hzero : cond Zeroed.zeroed=false)
    (hl : ∀ x∈l,cond x=true) :
    (r.popTwo cond requireNext).2=(Fifo.popTwo requireNext l).2 ∧
      Filled (r.popTwo cond requireNext).1 (Fifo.popTwo requireNext l).1 := by
  obtain ⟨head,hstores⟩ := h
  obtain ⟨hvalue,hnext,-⟩ := hstores.popTwo_stores requireNext hzero hl
  rw [popTwo_withHead] at hvalue hnext
  exact ⟨hvalue,head,hnext⟩

theorem tail_lt (h : Filled r l) : r.tail.toNat<8192 := by
  obtain ⟨head,hstores⟩ := h
  have htail := hstores.window.tail
  change r.tail.toNat=r.tail.toNat%8192 at htail
  omega

/-- The tail moves by the number of entries taken. -/
theorem popTwo_tail (h : Filled r l) (cond requireNext : T → Bool) :
    (r.popTwo cond requireNext).1.tail.toNat=
    (r.tail.toNat+((r.popTwo cond requireNext).2.1.toList.length+
      (r.popTwo cond requireNext).2.2.toList.length))%8192 := by
  have hlt := h.tail_lt
  rw [Stores.popTwo_eq]
  split_ifs
  · change ((((r.tail+1)&&&ringBufLenWrapMask)+1)&&&ringBufLenWrapMask).toNat=(r.tail.toNat+2)%8192
    rw [succ_wrapMask,succ_wrapMask]
    omega
  · exact (Nat.mod_eq_of_lt hlt).symm
  · exact succ_wrapMask r.tail
  · exact (Nat.mod_eq_of_lt hlt).symm

end Filled
end BlueRdma.DmaRingBuf

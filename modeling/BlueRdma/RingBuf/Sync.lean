import BlueRdma.RingBuf.DmaRb

namespace BlueRdma.DmaRingBuf
variable {T : Type}

/-- The driver's copy of the tail (`low`) is behind the device, the device behind the head it was
told (`told`), and that behind the ring's head. -/
structure Synced (r : DmaRingBuf T) (headReg tailReg : UInt32) (pushed : List T)
    (consumed low told : Nat) : Prop where
  window : Window r low (pushed.drop low)
  tail : tailReg.toNat=consumed%8192
  head : headReg.toNat=told%8192
  behind : low ≤ consumed
  told_ge : consumed ≤ told
  told_le : told ≤ pushed.length

/-- Descriptors between the two registers, which are 13-bit pointers. -/
def published (headReg tailReg : UInt32) : Nat := (headReg.toNat+8192-tailReg.toNat)%8192

theorem new_synced (slots : Nat → T) : Synced (new slots) 0 0 [] 0 0 0 :=
  ⟨⟨rfl,rfl,Nat.zero_le _,fun i x hx => by cases hx⟩,rfl,rfl,le_rfl,le_rfl,le_rfl⟩

namespace Synced
variable {r : DmaRingBuf T} {headReg tailReg : UInt32} {pushed : List T} {consumed low told : Nat}

theorem low_le (h : Synced r headReg tailReg pushed consumed low told) : low ≤ pushed.length :=
  h.behind.trans (h.told_ge.trans h.told_le)

theorem length_le (h : Synced r headReg tailReg pushed consumed low told) :
    pushed.length ≤ low+4096 := by
  have hfits := h.window.fits
  rw [List.length_drop] at hfits
  omega

theorem len_eq (h : Synced r headReg tailReg pushed consumed low told) :
    r.len=pushed.length-low := by
  rw [h.window.len_eq,List.length_drop]

theorem head_eq (h : Synced r headReg tailReg pushed consumed low told) :
    r.head.toNat=pushed.length%8192 := by
  have hhead := h.window.head
  have hlow := h.low_le
  rwa [List.length_drop,show low+(pushed.length-low)=pushed.length by omega] at hhead

/-- The registers tell how many descriptors the device may take. -/
theorem published_eq (h : Synced r headReg tailReg pushed consumed low told) :
    published headReg tailReg=told-consumed := by
  have hlen := h.length_le
  have hlow := h.behind
  have hge := h.told_ge
  have hle := h.told_le
  rw [published,h.head,h.tail]
  omega

/-- An entry the device has not consumed is in its slot. -/
theorem slot_eq (h : Synced r headReg tailReg pushed consumed low told) (k : Nat) (x : T)
    (hx : pushed[k]?=some x) (hk : consumed ≤ k) : r.slots (k%4096)=x := by
  have hlow := h.behind
  have hslot := h.window.stored (k-low) x (by
    rw [List.getElem?_drop]
    rwa [show low+(k-low)=k by omega])
  rwa [show low+(k-low)=k by omega] at hslot

/-- The slots from the device's tail on hold what was pushed next. -/
theorem slots_eq (h : Synced r headReg tailReg pushed consumed low told) (n : Nat)
    (hn : n ≤ published headReg tailReg) :
    (List.range n).map (fun m => r.slots ((tailReg.toNat+m)%ringBufLen))=
      (pushed.drop consumed).take n := by
  have hpub := h.published_eq
  have hle := h.told_le
  apply List.ext_getElem?
  intro m
  rcases Nat.lt_or_ge m n with hm|hm
  · have hin : consumed+m<pushed.length := by omega
    have hslot := h.slot_eq (consumed+m) pushed[consumed+m] (List.getElem?_eq_getElem hin) (by omega)
    have hidx : (tailReg.toNat+m)%ringBufLen=(consumed+m)%4096 := by
      rw [h.tail,ringBufLen]
      omega
    rw [List.getElem?_map,List.getElem?_range hm,List.getElem?_take_of_lt hm,List.getElem?_drop,
      List.getElem?_eq_getElem hin,Option.map_some,hidx,hslot]
  · rw [List.getElem?_eq_none (by simpa using hm),List.getElem?_eq_none (by
      rw [List.length_take]
      omega)]

theorem consume (h : Synced r headReg tailReg pushed consumed low told) (n : Nat)
    (hn : n ≤ published headReg tailReg) :
    Synced r headReg (UInt32.ofNat ((tailReg.toNat+n)%8192)) pushed (consumed+n) low told := by
  have hpub := h.published_eq
  have hlow := h.behind
  have hge := h.told_ge
  refine ⟨h.window,?_,h.head,by omega,by omega,h.told_le⟩
  rw [UInt32.toNat_ofNat_of_lt' (show _<2^32 by omega),h.tail]
  omega

theorem push (h : Synced r headReg tailReg pushed consumed low told)
    (hroom : r.len < ringBufLen) (x : T) :
    (r.push x).2=true ∧ Synced (r.push x).1 headReg tailReg (pushed++[x]) consumed low told := by
  have hlen := h.len_eq
  have hlow := h.low_le
  have hdrop : (pushed.drop low).length<4096 := by
    rw [List.length_drop,← hlen]
    exact hroom
  obtain ⟨hok,hwindow,-⟩ := h.window.push_window hdrop x
  refine ⟨hok,?_,h.tail,h.head,h.behind,h.told_ge,?_⟩
  · rwa [List.drop_append_of_le_length hlow]
  · rw [List.length_append]
    exact h.told_le.trans (Nat.le_add_right ..)

/-- Writing the head register tells the device about everything pushed. -/
theorem writeHead (h : Synced r headReg tailReg pushed consumed low told) :
    Synced r r.head.toUInt32 tailReg pushed consumed low pushed.length := by
  refine ⟨h.window,h.tail,?_,h.behind,h.told_ge.trans h.told_le,le_rfl⟩
  rw [UInt64.toNat_toUInt32,h.head_eq]
  omega

/-- Reading the tail register frees the slots of everything consumed. -/
theorem readTail (h : Synced r headReg tailReg pushed consumed low told) :
    Synced (r.setTail tailReg) headReg tailReg pushed consumed consumed told := by
  have hlow := h.behind
  have hwindow := h.window.setTail_window consumed h.behind (by
    rw [List.length_drop]
    have hle := h.told_ge.trans h.told_le
    omega) tailReg h.tail
  refine ⟨?_,h.tail,h.head,le_rfl,h.told_ge,h.told_le⟩
  rwa [List.drop_drop,show low+(consumed-low)=consumed by omega] at hwindow

end Synced
end BlueRdma.DmaRingBuf

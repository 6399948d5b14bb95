import BlueRdma.Framework.Run
import BlueRdma.Math.Fifo

namespace BlueRdma

/-- Types with an all-zero value, as `std::mem::zeroed` gives. -/
class Zeroed (T : Type) where
  zeroed : T

/-- Number of slots of a ring buffer. -/
def ringBufLen : Nat := 4096

/-- Mask for slot indices. -/
def ringBufLenMask : UInt64 := 0xFFF

/-- Mask for the head and tail pointers; their highest bit tells a full ring from an empty one. -/
def ringBufLenWrapMask : UInt64 := 0x1FFF

/-- A ring buffer in memory shared with the device. -/
structure DmaRingBuf (T : Type) where
  slots : Nat → T
  head : UInt64
  tail : UInt64

namespace DmaRingBuf
variable {T : Type}

def new (slots : Nat → T) : DmaRingBuf T := ⟨slots,0,0⟩

def len (r : DmaRingBuf T) : Nat := ((r.head-r.tail)&&&ringBufLenWrapMask).toNat

def headIdx (r : DmaRingBuf T) : Nat := (r.head&&&ringBufLenMask).toNat

def tailIdx (r : DmaRingBuf T) : Nat := (r.tail&&&ringBufLenMask).toNat

def incHead (r : DmaRingBuf T) : DmaRingBuf T := {r with head := (r.head+1)&&&ringBufLenWrapMask}

def incTail (r : DmaRingBuf T) : DmaRingBuf T := {r with tail := (r.tail+1)&&&ringBufLenWrapMask}

def setTail (r : DmaRingBuf T) (tail : UInt32) : DmaRingBuf T := {r with tail := tail.toUInt64}

def setHead (r : DmaRingBuf T) (head : UInt32) : DmaRingBuf T := {r with head := head.toUInt64}

def remaining (r : DmaRingBuf T) : UInt64 := UInt64.ofNat ringBufLen-UInt64.ofNat r.len

def write (r : DmaRingBuf T) (index : Nat) (value : T) : DmaRingBuf T :=
  {r with slots := Function.update r.slots index value}

def push (r : DmaRingBuf T) (value : T) : DmaRingBuf T × Bool :=
  if r.len=ringBufLen then (r,false) else ((r.write r.headIdx value).incHead,true)

/-- The slot is zeroed after it was read. -/
def readAndAdvance [Zeroed T] (r : DmaRingBuf T) (index : Nat) : DmaRingBuf T × T :=
  ((r.write index Zeroed.zeroed).incTail,r.slots index)

/-- The head pointer is not looked at: `cond` decides whether the slot at the tail is occupied. -/
def pop [Zeroed T] (r : DmaRingBuf T) (cond : T → Bool) : DmaRingBuf T × Option T :=
  if cond (r.slots r.tailIdx) then
    let (r,value) := r.readAndAdvance r.tailIdx
    (r,some value)
  else (r,none)

def popTwo [Zeroed T] (r : DmaRingBuf T) (cond requireNext : T → Bool) :
    DmaRingBuf T × Option T × Option T :=
  let idxFirst := r.tailIdx
  let idxNext := ((r.tail&&&ringBufLenMask)+1&&&ringBufLenMask).toNat
  let valueFirst := r.slots idxFirst
  let valueNext := r.slots idxNext
  match cond valueFirst,cond valueNext,requireNext valueFirst with
  | true,true,true =>
      let (r,first) := r.readAndAdvance idxFirst
      let (r,next) := r.readAndAdvance idxNext
      (r,some first,some next)
  | true,_,false =>
      let (r,first) := r.readAndAdvance idxFirst
      (r,some first,none)
  | _,_,_ => (r,none,none)

theorem and_mask (x : UInt64) : (x&&&ringBufLenMask).toNat=x.toNat%4096 := by
  rw [UInt64.toNat_and]
  exact Nat.and_two_pow_sub_one_eq_mod x.toNat 12

theorem and_wrapMask (x : UInt64) : (x&&&ringBufLenWrapMask).toNat=x.toNat%8192 := by
  rw [UInt64.toNat_and]
  exact Nat.and_two_pow_sub_one_eq_mod x.toNat 13

/-- The pointers delimit the entries `l`, the oldest of them pushed as number `t`. -/
structure Window (r : DmaRingBuf T) (t : Nat) (l : List T) : Prop where
  tail : r.tail.toNat=t%8192
  head : r.head.toNat=(t+l.length)%8192
  fits : l.length≤4096
  stored : ∀ i x,l[i]?=some x → r.slots ((t+i)%4096)=x

namespace Window
variable {r : DmaRingBuf T} {t : Nat} {l : List T}

theorem tailIdx_eq (h : Window r t l) : r.tailIdx=t%4096 := by
  rw [tailIdx,and_mask,h.tail]
  omega

theorem headIdx_eq (h : Window r t l) : r.headIdx=(t+l.length)%4096 := by
  rw [headIdx,and_mask,h.head]
  omega

theorem len_eq (h : Window r t l) : r.len=l.length := by
  have ht := h.tail
  have hh := h.head
  have hfit := h.fits
  rw [len,and_wrapMask,UInt64.toNat_sub,ht,hh]
  omega

theorem remaining_toNat (h : Window r t l) : r.remaining.toNat=4096-l.length := by
  have hfit := h.fits
  have hlen : (UInt64.ofNat l.length).toNat=l.length := UInt64.toNat_ofNat_of_lt' (show l.length<2^64 by omega)
  rw [remaining,h.len_eq,UInt64.toNat_sub,hlen]
  change (2^64-l.length+4096)%2^64=_
  omega

theorem incHead_toNat (h : Window r t l) :
    ((r.head+1)&&&ringBufLenWrapMask).toNat=(t+(l.length+1))%8192 := by
  have hh := h.head
  rw [and_wrapMask,UInt64.toNat_add,UInt64.toNat_one,hh]
  omega

theorem incTail_toNat (h : Window r t l) :
    ((r.tail+1)&&&ringBufLenWrapMask).toNat=(t+1)%8192 := by
  have ht := h.tail
  rw [and_wrapMask,UInt64.toNat_add,UInt64.toNat_one,ht]
  omega

/-- A full ring refuses. -/
theorem push_full (h : Window r t l) (hfull : l.length=4096) (x : T) : r.push x=(r,false) := by
  rw [push,if_pos (by rw [h.len_eq,hfull]; rfl)]

/-- The new entry takes the slot behind the last one and no slot of an older entry. -/
theorem push_window (h : Window r t l) (hroom : l.length<4096) (x : T) :
    (r.push x).2=true ∧ Window (r.push x).1 t (l++[x]) ∧
      ∀ i<4096,i≠l.length → (r.push x).1.slots ((t+i)%4096)=r.slots ((t+i)%4096) := by
  have hpush : r.push x=((r.write r.headIdx x).incHead,true) :=
    if_neg (by rw [h.len_eq]; exact hroom.ne)
  have hother (i : Nat) (hi : i<4096) (hne : i≠l.length) :
      (r.push x).1.slots ((t+i)%4096)=r.slots ((t+i)%4096) := by
    rw [hpush]
    change Function.update r.slots r.headIdx x _=_
    rw [Function.update_of_ne]
    rw [h.headIdx_eq]
    omega
  have hself : (r.push x).1.slots ((t+l.length)%4096)=x := by
    rw [hpush,← h.headIdx_eq]
    exact Function.update_self ..
  refine ⟨by rw [hpush],⟨?_,?_,?_,?_⟩,hother⟩
  · rw [hpush]
    exact h.tail
  · rw [hpush,List.length_append]
    exact h.incHead_toNat
  · rw [List.length_append]
    exact hroom
  · intro i y hy
    rcases Nat.lt_trichotomy i l.length with hi|rfl|hi
    · rw [List.getElem?_append_left hi] at hy
      rw [hother i (by omega) hi.ne]
      exact h.stored i y hy
    · rw [List.getElem?_append_right le_rfl,Nat.sub_self] at hy
      rw [hself]
      exact Option.some.inj hy
    · rw [List.getElem?_append_right hi.le,
        List.getElem?_eq_none (by rw [List.length_singleton]; omega)] at hy
      cases hy

/-- The tail pointer may move over entries that have been taken. -/
theorem setTail_window (h : Window r t l) (t' : Nat) (htt : t≤t') (hth : t'≤t+l.length)
    (p : UInt32) (hp : p.toNat=t'%8192) : Window (r.setTail p) t' (l.drop (t'-t)) := by
  have hh := h.head
  have hfit := h.fits
  refine ⟨?_,?_,?_,?_⟩
  · change p.toUInt64.toNat=_
    rw [UInt32.toNat_toUInt64,hp]
  · change r.head.toNat=_
    rw [List.length_drop,hh]
    congr 1
    omega
  · rw [List.length_drop]
    omega
  · intro i x hx
    rw [List.getElem?_drop] at hx
    have hslot := h.stored _ x hx
    change r.slots _=x
    rw [← hslot]
    congr 2
    omega

end Window

/-- The ring holds exactly `l`: every other slot is zeroed. -/
structure Stores [Zeroed T] (r : DmaRingBuf T) (l : List T) : Prop where
  window : Window r r.tail.toNat l
  zeroed : ∀ i<4096,l.length ≤ i → r.slots ((r.tail.toNat+i)%4096)=Zeroed.zeroed

theorem new_stores [Zeroed T] : Stores (new fun _ => (Zeroed.zeroed : T)) [] :=
  ⟨⟨rfl,rfl,Nat.zero_le _,fun i x hx => by cases hx⟩,fun _ _ _ => rfl⟩

namespace Stores
variable [Zeroed T] {r : DmaRingBuf T} {l : List T}

theorem push_stores (h : Stores r l) (hroom : l.length<4096) (x : T) :
    (r.push x).2=true ∧ Stores (r.push x).1 (l++[x]) := by
  obtain ⟨hok,hwindow,hother⟩ := h.window.push_window hroom x
  have htail : (r.push x).1.tail=r.tail := by
    rw [push]
    split_ifs <;> rfl
  refine ⟨hok,by rw [htail]; exact hwindow,?_⟩
  intro i hi hle
  rw [List.length_append,List.length_singleton] at hle
  rw [htail,hother i hi (by omega)]
  exact h.zeroed i hi (by omega)

/-- The slot at the tail tells whether anything is stored. -/
theorem slot_tail (h : Stores r l) : r.slots r.tailIdx=l.head?.getD Zeroed.zeroed := by
  rw [h.window.tailIdx_eq]
  cases l with
  | nil => exact h.zeroed 0 (by decide) le_rfl
  | cons x xs => exact h.window.stored 0 x rfl

theorem slot_next (h : Stores r l) :
    r.slots ((r.tail&&&ringBufLenMask)+1&&&ringBufLenMask).toNat=l[1]?.getD Zeroed.zeroed := by
  have hidx : ((r.tail&&&ringBufLenMask)+1&&&ringBufLenMask).toNat=(r.tail.toNat+1)%4096 := by
    rw [and_mask,UInt64.toNat_add,and_mask,UInt64.toNat_one]
    omega
  rw [hidx]
  rcases Nat.lt_or_ge 1 l.length with hlt|hge
  · rw [List.getElem?_eq_getElem hlt]
    exact h.window.stored 1 _ (List.getElem?_eq_getElem hlt)
  · rw [List.getElem?_eq_none hge]
    exact h.zeroed 1 (by decide) hge

/-- Reading the oldest entry frees its slot. -/
theorem advance_stores (x : T) (h : Stores r (x::l)) :
    (r.readAndAdvance r.tailIdx).2=x ∧ Stores (r.readAndAdvance r.tailIdx).1 l := by
  have htail := h.window.incTail_toNat
  have hsmall := h.window.tail
  have hhead := h.window.head
  have hfits := h.window.fits
  rw [List.length_cons] at hhead hfits
  have hidx := h.window.tailIdx_eq
  have hslot (i : Nat) (hi : i<4096) : (r.readAndAdvance r.tailIdx).1.slots
      (((r.readAndAdvance r.tailIdx).1.tail.toNat+i)%4096)=
        if i=4095 then Zeroed.zeroed else r.slots ((r.tail.toNat+(i+1))%4096) := by
    change Function.update r.slots r.tailIdx Zeroed.zeroed
      ((((r.tail+1)&&&ringBufLenWrapMask).toNat+i)%4096)=_
    rw [htail,hidx]
    split_ifs with hlast
    · rw [show ((r.tail.toNat+1)%8192+i)%4096=r.tail.toNat%4096 by omega,Function.update_self]
    · rw [Function.update_of_ne (by omega)]
      congr 1
      omega
  refine ⟨h.slot_tail,⟨?_,?_,by omega,?_⟩,?_⟩
  · change ((r.tail+1)&&&ringBufLenWrapMask).toNat=((r.tail+1)&&&ringBufLenWrapMask).toNat%8192
    rw [htail]
    omega
  · change r.head.toNat=(((r.tail+1)&&&ringBufLenWrapMask).toNat+l.length)%8192
    rw [htail,hhead]
    omega
  · intro i y hy
    have hi := (List.getElem?_eq_some_iff.mp hy).1
    rw [hslot i (by omega),if_neg (by omega)]
    exact h.window.stored (i+1) y hy
  · intro i hi hle
    rw [hslot i hi]
    split_ifs with hlast
    · rfl
    · exact h.zeroed (i+1) (by omega) (by rw [List.length_cons]; omega)

variable {cond requireNext : T → Bool}

theorem pop_stores (h : Stores r l) (hzero : cond Zeroed.zeroed=false)
    (hl : ∀ x∈l,cond x=true) :
    (r.pop cond).2=l.head? ∧ Stores (r.pop cond).1 l.tail ∧ (l=[] → r.pop cond=(r,none)) := by
  cases l with
  | nil =>
      have hpop : r.pop cond=(r,none) := by
        rw [pop,h.slot_tail,List.head?_nil,Option.getD_none,hzero]
        rfl
      rw [hpop]
      exact ⟨rfl,h,fun _ => rfl⟩
  | cons x xs =>
      obtain ⟨hvalue,hstores⟩ := advance_stores x h
      have hpop : r.pop cond=((r.readAndAdvance r.tailIdx).1,some x) := by
        rw [pop,h.slot_tail,List.head?_cons,Option.getD_some,if_pos (hl x List.mem_cons_self)]
        exact congrArg (fun y => ((r.readAndAdvance r.tailIdx).1,some y)) hvalue
      rw [hpop]
      exact ⟨rfl,hstores,fun hnil => by cases hnil⟩

/-- The look-ahead index is the tail index after one entry has been taken. -/
theorem idxNext_eq (r : DmaRingBuf T) : ((r.tail&&&ringBufLenMask)+1&&&ringBufLenMask).toNat=
    (r.readAndAdvance r.tailIdx).1.tailIdx := by
  change _=(((r.tail+1)&&&ringBufLenWrapMask)&&&ringBufLenMask).toNat
  rw [and_mask,and_mask,UInt64.toNat_add,and_mask,and_wrapMask,UInt64.toNat_add,UInt64.toNat_one]
  omega

theorem popTwo_eq (r : DmaRingBuf T) :
    r.popTwo cond requireNext=
      if cond (r.slots r.tailIdx) then
        if requireNext (r.slots r.tailIdx) then
          if cond (r.slots (r.readAndAdvance r.tailIdx).1.tailIdx) then
            (((r.readAndAdvance r.tailIdx).1.readAndAdvance
              (r.readAndAdvance r.tailIdx).1.tailIdx).1,some (r.readAndAdvance r.tailIdx).2,
              some ((r.readAndAdvance r.tailIdx).1.readAndAdvance
                (r.readAndAdvance r.tailIdx).1.tailIdx).2)
          else (r,none,none)
        else ((r.readAndAdvance r.tailIdx).1,some (r.readAndAdvance r.tailIdx).2,none)
      else (r,none,none) := by
  rw [popTwo,← idxNext_eq]
  dsimp only
  generalize cond (r.slots r.tailIdx)=first
  generalize cond (r.slots _)=next
  generalize requireNext (r.slots r.tailIdx)=both
  cases first <;> cases next <;> cases both <;> rfl

theorem popTwo_stores (requireNext : T → Bool) (h : Stores r l) (hzero : cond Zeroed.zeroed=false)
    (hl : ∀ x∈l,cond x=true) :
    (r.popTwo cond requireNext).2=(Fifo.popTwo requireNext l).2 ∧
      Stores (r.popTwo cond requireNext).1 (Fifo.popTwo requireNext l).1 ∧
      ((Fifo.popTwo requireNext l).1=l → (r.popTwo cond requireNext).1=r) := by
  have hnext := h.slot_next
  rw [idxNext_eq] at hnext
  rw [popTwo_eq,h.slot_tail,hnext]
  rcases l with _|⟨x,l⟩
  · rw [List.head?_nil,Option.getD_none,if_neg (by simp [hzero])]
    exact ⟨rfl,h,fun _ => rfl⟩
  obtain ⟨hvalue,hstores⟩ := advance_stores x h
  rw [List.head?_cons,Option.getD_some,if_pos (hl x List.mem_cons_self),hvalue]
  rcases l with _|⟨y,l⟩
  · rw [show [x][1]?=none from rfl,Option.getD_none,hzero]
    cases hr : requireNext x with
    | true =>
        simp only [Fifo.popTwo,hr,Bool.false_eq_true,if_true,if_false]
        exact ⟨trivial,h,fun _ => trivial⟩
    | false =>
        simp only [Fifo.popTwo,hr,Bool.false_eq_true,if_false]
        exact ⟨trivial,hstores,fun hnil => by cases hnil⟩
  · obtain ⟨hvalue',hstores'⟩ := advance_stores y hstores
    rw [show (x::y::l)[1]?=some y from rfl,Option.getD_some,
      if_pos (hl y (List.mem_cons_of_mem x List.mem_cons_self)),hvalue']
    cases hr : requireNext x with
    | true =>
        simp only [Fifo.popTwo,hr,if_true]
        refine ⟨trivial,hstores',fun hsame => ?_⟩
        have := congrArg List.length hsame
        simp only [List.length_cons] at this
        omega
    | false =>
        simp only [Fifo.popTwo,hr,Bool.false_eq_true,if_false]
        refine ⟨trivial,hstores,fun hsame => ?_⟩
        have := congrArg List.length hsame
        simp only [List.length_cons] at this
        omega

end Stores
end DmaRingBuf
end BlueRdma

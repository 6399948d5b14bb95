import Mathlib.Tactic

namespace BlueRdma

abbrev Memory := UInt64 → UInt8

namespace Memory

/-- Data laid out from an address on: every byte with its place. -/
def placed (addr : UInt64) (data : List UInt8) : List (UInt64 × UInt8) :=
  data.mapIdx (fun i byte => (addr+UInt64.ofNat i,byte))

/-- Stores one after another. -/
def write (mem : Memory) (stores : List (UInt64 × UInt8)) : Memory :=
  stores.foldl (fun mem s => Function.update mem s.1 s.2) mem

/-- The bytes from an address on. -/
def read (mem : Memory) (addr : UInt64) (n : Nat) : List UInt8 :=
  (List.range n).map (fun i => mem (addr+UInt64.ofNat i))

theorem mem_placed (addr : UInt64) (data : List UInt8) (s : UInt64 × UInt8) :
    s∈placed addr data ↔ ∃ i,data[i]?=some s.2 ∧ s.1=addr+UInt64.ofNat i := by
  rw [placed,List.mem_mapIdx]
  constructor
  · rintro ⟨i,hi,rfl⟩
    exact ⟨i,List.getElem?_eq_getElem hi,rfl⟩
  · rintro ⟨i,hi,haddr⟩
    obtain ⟨hlt,hbyte⟩ := List.getElem?_eq_some_iff.mp hi
    exact ⟨i,hlt,Prod.ext haddr.symm hbyte⟩

/-- Where nothing is stored the memory stays as it is. -/
theorem write_of_not_stored (mem : Memory) (stores : List (UInt64 × UInt8)) (a : UInt64)
    (h : ∀ s∈stores,s.1≠a) : write mem stores a=mem a := by
  induction stores generalizing mem with
  | nil => rfl
  | cons s stores ih =>
      have hrest := ih (Function.update mem s.1 s.2) (fun x hx => h x (List.mem_cons_of_mem s hx))
      rw [write] at hrest ⊢
      rw [List.foldl_cons,hrest,Function.update_of_ne (h s List.mem_cons_self).symm]

/-- The distance of a byte from the start of a block it lies `off` bytes behind. -/
theorem placed_distance (base : UInt64) (off i : Nat) (h : off+i<2^64) :
    (base+UInt64.ofNat off+UInt64.ofNat i-base).toNat=off+i := by
  have hsum : base+UInt64.ofNat off+UInt64.ofNat i-base=UInt64.ofNat (off+i) := by
    rw [UInt64.ofNat_add,UInt64.add_assoc,UInt64.add_comm,UInt64.add_sub_cancel]
  rw [hsum,UInt64.toNat_ofNat_of_lt' h]

/-- Data that starts in a block stays in it exactly if it is not longer than what is left. -/
theorem placed_inside_iff (base : UInt64) (off size : Nat) (hoff : off ≤ size) (hsize : size<2^64)
    (data : List UInt8) :
    (∀ s∈placed (base+UInt64.ofNat off) data,(s.1-base).toNat < size) ↔
      off+data.length ≤ size := by
  constructor
  · intro hall
    by_contra hlong
    -- the first byte behind the block
    have hlt : size-off<data.length := by omega
    have hlast := hall (_,data[size-off])
      ((mem_placed ..).mpr ⟨size-off,List.getElem?_eq_getElem hlt,rfl⟩)
    rw [placed_distance base off (size-off) (by omega)] at hlast
    omega
  · intro hfits s hs
    obtain ⟨i,hi,haddr⟩ := (mem_placed ..).mp hs
    have hlt := (List.getElem?_eq_some_iff.mp hi).1
    rw [haddr,placed_distance base off i (by omega)]
    omega

end Memory
end BlueRdma

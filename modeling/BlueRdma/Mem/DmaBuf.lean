import BlueRdma.Mem.PaVaMap
import BlueRdma.Verbs.Mr

namespace BlueRdma

inductive DmaError
  | outOfMemory (msg : Option String)
  | invalidData (msg : String)
  | other (msg : String)
  deriving DecidableEq

/-- A mapping of `len` bytes at `ptr`, with the physical address of its first byte. -/
structure DmaBuf where
  ptr : Nat
  len : Nat
  physAddr : UInt64
  deriving DecidableEq

namespace DmaBuf

/-- The physical addresses of two buffers have none in common. -/
def Apart (x y : DmaBuf) : Prop :=
  x.physAddr.toNat+x.len≤y.physAddr.toNat ∨ y.physAddr.toNat+y.len≤x.physAddr.toNat

end DmaBuf

/-- What an allocator does with a request of some length. -/
abbrev DmaBufAllocator (α : Type) := α → Nat → α × Except DmaError DmaBuf

/-- What the driver asks the system for: two attributes of the device, and a mapping of `len` bytes
of its file from `offset` on. -/
structure UDmaBufSystem where
  sizeTotal : Except DmaError Nat
  physAddr : Except DmaError UInt64
  mmap : (len offset : Nat) → Option Nat

structure UDmaBufAllocator where
  offset : Nat

namespace UDmaBufAllocator

def «open» : UDmaBufAllocator := ⟨0⟩

/-- Regions are handed out one behind another and never taken back. -/
def create (sys : UDmaBufSystem) : DmaBufAllocator UDmaBufAllocator := fun a len =>
  match sys.sizeTotal with
  | .error e => (a,.error e)
  | .ok sizeTotal =>
      if 2^64≤a.offset+len ∨ sizeTotal<a.offset+len then
        (a,.error (.outOfMemory (some s!"Failed to allocate memory of length: {len} bytes")))
      else match sys.mmap len a.offset with
        | none => (a,.error (.other "Failed to map memory"))
        | some ptr => match sys.physAddr with
          | .error e => (a,.error e)
          | .ok physAddr =>
              (⟨a.offset+len⟩,.ok ⟨ptr,len,physAddr+UInt64.ofNat a.offset⟩)

end UDmaBufAllocator

/-- The pages not handed out yet, by their addresses; all are of one size. -/
structure EmulatedPageAllocator where
  pageSize : Nat
  inner : List Nat

namespace EmulatedPageAllocator

def defaultAllocatorSize : Nat := 128*1024*1024

/-- `size` bytes of anonymous memory at `ptr`, cut into pages; the address map gets the whole of
it, with physical addresses equal to the virtual ones, and panics if they are taken. -/
def new (overflowChecks : Bool) (pageSize : PageSize) (ptr : UInt64) (size : Option Nat)
    (m : PaVaMap) : Option (EmulatedPageAllocator × PaVaMap) :=
  let size := size.getD defaultAllocatorSize
  let bytes := pageSize.bytes.toNat
  (m.insert overflowChecks ptr ptr (UInt64.ofNat size)).map fun m =>
    (⟨bytes,(List.range ((size+bytes-1)/bytes)).map (fun i => ptr.toNat+i*bytes)⟩,m)

/-- The last page, whatever length is asked for. -/
def alloc : DmaBufAllocator EmulatedPageAllocator := fun a _ =>
  match a.inner.getLast? with
  | none => (a,.error (.outOfMemory none))
  | some ptr => ({ a with inner := a.inner.dropLast },.ok ⟨ptr,a.pageSize,UInt64.ofNat ptr⟩)

end EmulatedPageAllocator

end BlueRdma

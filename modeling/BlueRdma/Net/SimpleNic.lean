import BlueRdma.Descriptors.SimpleNic
import BlueRdma.Mem.Page
import BlueRdma.Workers.SendWorker

namespace BlueRdma

/-- A transmit queue for the simple NIC device. -/
structure SimpleNicTxQueue where
  inner : DescRingBuffer

namespace SimpleNicTxQueue

def push (q : SimpleNicTxQueue) (desc : SimpleNicTxQueueDesc) : SimpleNicTxQueue × Bool :=
  let (inner,ok) := q.inner.push desc
  (⟨inner⟩,ok)

def head (q : SimpleNicTxQueue) : UInt32 := q.inner.head.toUInt32

def setTail (q : SimpleNicTxQueue) (tail : UInt32) : SimpleNicTxQueue := ⟨q.inner.setTail tail⟩

end SimpleNicTxQueue

/-- Size of the slot of a single frame in the buffer. -/
def frameSlotSize : Nat := 128

/-- `DESC_SIZE`, in bytes. -/
def descSize : Nat := 32

/-- Length of the buffers `DescRingBufAllocator` allocates. -/
def descRingBufSize : Nat := ringBufLen*descSize

/-- Sends frames through a `SimpleNicTxQueue`. -/
structure FrameTxQueue where
  inner : SimpleNicTxQueue
  csrRing : SendRing
  buf : MmapMut
  bufBasePhysAddr : UInt64
  bufHead : Nat

namespace FrameTxQueue

def new (inner : SimpleNicTxQueue) (buf : MmapMut) (bufBasePhysAddr : UInt64) (csrRing : SendRing) :
    FrameTxQueue := ⟨inner,csrRing,buf,bufBasePhysAddr,0⟩

/-- Copies the frame to the next slot. There is no result when it does not fit a slot or the slot
does not fit the buffer. -/
def writeNext (q : FrameTxQueue) (data : List UInt8) : Option (FrameTxQueue × UInt64) :=
  if frameSlotSize<data.length then none
  else do
    let physAddr := q.bufBasePhysAddr+UInt64.ofNat q.bufHead
    let buf ← q.buf.copyFrom q.bufHead data
    if buf.len=0 then none
    else some ({q with buf := buf,bufHead := (q.bufHead+frameSlotSize)%2^64%buf.len},physAddr)

def buildDesc (q : FrameTxQueue) (data : List UInt8) :
    Option (FrameTxQueue × SimpleNicTxQueueDesc) := do
  let (q,addr) ← q.writeNext data
  if data.length<2^32 then some (q,.new addr (UInt32.ofNat data.length)) else none

/-- One round of the loop of `send`. -/
def pushDesc (q : FrameTxQueue) (desc : SimpleNicTxQueueDesc) : FrameTxQueue × Bool :=
  let (inner,ok) := q.inner.push desc
  ({q with inner := inner},ok)

/-- `csr_ring.write_head`, whose failure is ignored. -/
def writeHead (q : FrameTxQueue) (ok : Bool) : FrameTxQueue :=
  if ok then {q with csrRing := {q.csrRing with head := q.inner.head}} else q

/-- The tail is taken over if it can be read. -/
def readTail (q : FrameTxQueue) (ok : Bool) : FrameTxQueue :=
  if ok then {q with inner := q.inner.setTail q.csrRing.tail} else q

end FrameTxQueue
end BlueRdma

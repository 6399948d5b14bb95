import BlueRdma.Descriptors.Send

namespace BlueRdma

/-- Send queue descriptor types that can be submitted. -/
inductive SendQueueDesc
  | seg0 (desc : SendQueueReqDescSeg0)
  | seg1 (desc : SendQueueReqDescSeg1)

instance : DescSerialize SendQueueDesc where
  serialize
    | .seg0 desc => DescSerialize.serialize desc
    | .seg1 desc => DescSerialize.serialize desc

structure SendQueue where
  inner : DescRingBuffer

namespace SendQueue

def push (q : SendQueue) (desc : SendQueueDesc) : SendQueue × Bool :=
  let (inner,ok) := q.inner.push desc
  (⟨inner⟩,ok)

def head (q : SendQueue) : UInt32 := q.inner.head.toUInt32

def setTail (q : SendQueue) (tail : UInt32) : SendQueue := ⟨q.inner.setTail tail⟩

def remaining (q : SendQueue) : UInt64 := q.inner.remaining

/-- Pushes the descriptors; `none` when the assertion "full send queue" fails. -/
def pushAll (q : SendQueue) : List SendQueueDesc → Option SendQueue
  | [] => some q
  | desc::descs => if (q.push desc).2 then (q.push desc).1.pushAll descs else none

end SendQueue

/-- The head and tail registers of a ring the driver writes. -/
structure SendRing where
  head : UInt32
  tail : UInt32

structure SendQueueSync where
  sendQueue : SendQueue
  csrRing : SendRing

namespace SendQueueSync

def syncHead (sq : SendQueueSync) : SendQueueSync :=
  {sq with csrRing := {sq.csrRing with head := sq.sendQueue.head}}

def syncTail (sq : SendQueueSync) : SendQueueSync :=
  {sq with sendQueue := sq.sendQueue.setTail sq.csrRing.tail}

/-- The tail register is only read when the ring looks too full. -/
def send (sq : SendQueueSync) (descs : List SendQueueDesc) : Option (SendQueueSync × Bool) :=
  let sq := if sq.sendQueue.remaining.toNat<descs.length then sq.syncTail else sq
  if sq.sendQueue.remaining.toNat<descs.length then some (sq,false)
  else (sq.sendQueue.pushAll descs).map (fun q => ({sq with sendQueue := q},true))

end SendQueueSync

/-- A send thread: the chunks that `process` has put back into its local queue, and its ring. -/
structure SendWorker where
  localQueue : List WrChunk
  sq : SendQueueSync

namespace SendWorker

/-- One round of the loop of `process`, with whether descriptors were pushed. -/
def submit (w : SendWorker) (wr : WrChunk) : Option (SendWorker × Bool) := do
  let (sq,sent) ← w.sq.send [.seg0 wr.seg0,.seg1 wr.seg1]
  if sent then some ({w with sq := sq},true)
  else some ({w with localQueue := w.localQueue++[wr],sq := sq},false)

def syncHead (w : SendWorker) : SendWorker := {w with sq := w.sq.syncHead}

/-- The rest of a `process` call. -/
def processFrom (w : SendWorker) (hasNewDesc : Bool) : List (Option WrChunk) → Option SendWorker
  | [] => some (if hasNewDesc then w.syncHead else w)
  | none::wrs => w.processFrom hasNewDesc wrs
  | some wr::wrs => do
      let (w,pushed) ← w.submit wr
      w.processFrom (hasNewDesc || pushed) wrs

def process (w : SendWorker) (wrs : List (Option WrChunk)) : Option SendWorker :=
  w.processFrom false wrs

end SendWorker
end BlueRdma

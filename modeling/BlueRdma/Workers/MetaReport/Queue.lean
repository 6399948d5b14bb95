import BlueRdma.Descriptors.MetaReport
import BlueRdma.Workers.Device

namespace BlueRdma

/-- Meta report queue descriptors. -/
inductive MetaReportQueueDesc
  | writePacketInfo (d : MetaReportQueuePacketBasicInfoDesc)
  | readPacketInfo (f : MetaReportQueuePacketBasicInfoDesc)
      (n : MetaReportQueueReadReqExtendInfoDesc)
  | cnpPacketInfo (d : MetaReportQueuePacketBasicInfoDesc)
  | ack (d : MetaReportQueueAckDesc)
  | nak (f : MetaReportQueueAckDesc) (n : MetaReportQueueAckExtraDesc)

structure MetaReportQueue where
  inner : DescRingBuffer

namespace MetaReportQueue

/-- How the two descriptors are taken together; `none` is `unreachable!`. -/
def classify : Option (Option MetaReportQueueDescFirst) → Option (Option MetaReportQueueDescNext) →
    Option (Option MetaReportQueueDesc)
  | none,none => some none
  | some (some (.packetInfo d)),none =>
      some (some (if d.ecnMarked then .cnpPacketInfo d else .writePacketInfo d))
  | some (some (.ack d)),none => some (some (.ack d))
  | some (some (.packetInfo f)),some (some (.readInfo n)) => some (some (.readPacketInfo f n))
  | some (some (.ack f)),some (some (.ackExtra n)) => some (some (.nak f n))
  | _,_ => none

/-- Tries to poll next valid entry from the queue; `none` after a panic. -/
def pop (q : MetaReportQueue) : Option (MetaReportQueue × Option MetaReportQueueDesc) :=
  let (inner,first,next) :=
    q.inner.popTwo (Option MetaReportQueueDescFirst) (Option MetaReportQueueDescNext)
  (classify first next).map (fun desc => (⟨inner⟩,desc))

def tail (q : MetaReportQueue) : UInt32 := q.inner.tail.toUInt32

def setHead (q : MetaReportQueue) (head : UInt32) : MetaReportQueue := ⟨q.inner.setHead head⟩

end MetaReportQueue

/-- The registers of a ring the device writes; `none` stands for a head that cannot be read. -/
structure MetaReportRing where
  head : Option UInt32
  tail : UInt32

structure MetaReportQueueCtx where
  queue : MetaReportQueue
  ring : MetaReportRing

/-- Handler for meta report queues, polled round robin from `pos` on. -/
structure MetaReportQueueHandler where
  inner : List MetaReportQueueCtx
  pos : Nat := 0

namespace MetaReportQueueHandler

def remapPsn (psn : Psn) : Psn := psn-(112 : UInt32)

/-- The report for a descriptor, with the QP it is about; `none` is `unreachable!`. -/
def toMeta : MetaReportQueueDesc → Option (UInt32 × ReportMeta)
  | .writePacketInfo d => do
      let pos ← d.packetPos
      let headerType ← d.headerType
      some (d.dqpn,.headerWrite ⟨pos,d.msn,⟨d.psn⟩,d.ackReq,d.isRetry,d.immData,headerType⟩)
  | .readPacketInfo f n => some (f.dqpn,
      .headerRead ⟨f.msn,⟨f.psn⟩,f.raddr,f.rkey,n.totalLen,n.laddr,n.lkey,f.ackReq⟩)
  | .cnpPacketInfo d => some (d.dqpn,.cnp)
  | .ack d => match d.isSendByDriver,d.isSendByLocalHw with
      | true,false => some (d.qpn,.ackRemoteDriver ⟨⟨d.psnNow⟩⟩)
      | false,true => some (d.qpn,.ackLocalHw ⟨remapPsn ⟨d.psnNow⟩,d.nowBitmap⟩)
      | _,_ => none
  | .nak f n => match f.isSendByDriver,f.isSendByLocalHw with
      | true,false => some (f.qpn,.nakRemoteDriver ⟨⟨f.psnNow⟩,⟨f.psnBeforeSlide⟩⟩)
      | false,true => some (f.qpn,.nakLocalHw ⟨remapPsn ⟨f.psnNow⟩,f.nowBitmap,
          remapPsn ⟨f.psnBeforeSlide⟩,n.preBitmap⟩)
      | false,false => some (f.qpn,.nakRemoteHw ⟨f.msn,remapPsn ⟨f.psnNow⟩,f.nowBitmap,
          remapPsn ⟨f.psnBeforeSlide⟩,n.preBitmap⟩)
      | true,true => none

/-- The queue after a descriptor was taken: the device learns the tail and the head is reread. -/
def popped (ctx : MetaReportQueueCtx) (queue : MetaReportQueue) : MetaReportQueueCtx where
  queue := match ctx.ring.head with
    | some head => queue.setHead head
    | none => queue
  ring := {ctx.ring with tail := queue.tail}

/-- The queues `pos+i`, in turn; `none` after a panic. -/
def tryQueues (h : MetaReportQueueHandler) :
    List Nat → Option (MetaReportQueueHandler × Option (UInt32 × ReportMeta))
  | [] => some (h,none)
  | i::is =>
    let idx := (h.pos+i)%h.inner.length
    match h.inner[idx]? with
    | none => none
    | some ctx => match ctx.queue.pop with
      | none => none
      | some (_,none) => h.tryQueues is
      | some (queue,some desc) =>
        (toMeta desc).map (fun x =>
          (⟨h.inner.set idx (popped ctx queue),(idx+1)%h.inner.length⟩,some x))

def tryRecvMeta (h : MetaReportQueueHandler) :
    Option (MetaReportQueueHandler × Option (UInt32 × ReportMeta)) :=
  h.tryQueues (List.range h.inner.length)

end MetaReportQueueHandler

/-- What one round of the meta worker does: the tasks it sends, and its state unless it panicked. -/
structure MetaTurn where
  msgs : List QpMsg
  next : Option (MetaReportQueueHandler × QpTable MetaHandler)

/-- `poll` followed by `process`. -/
def metaTurn (attrs : QpTable QpAttr) (c : Fin maxQpCnt → Nat) (h : MetaReportQueueHandler)
    (t : QpTable MetaHandler) : MetaTurn :=
  match h.tryRecvMeta with
  | none => ⟨[],none⟩
  | some (h,none) => ⟨[],some (h,t)⟩
  | some (h,some (qpn,x)) =>
    let o := Driver.processTable attrs .metaReport c t (qpn,.report x)
    ⟨o.msgs,o.next.map (fun t => (h,t))⟩

end BlueRdma

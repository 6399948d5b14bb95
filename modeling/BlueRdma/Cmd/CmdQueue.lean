import BlueRdma.Cmd.Configurator
import BlueRdma.Descriptors.Cmd

namespace BlueRdma

/-- What `set_network` reads of the configuration. -/
structure NetworkConfig where
  ip : UInt32
  mask : UInt32
  gateway : Option UInt32

structure RecvBufferMeta where
  physAddr : UInt64

/-- The calls that go through the command queue. -/
inductive CmdCall
  | updateMtt (update : MttUpdate)
  | updatePgt (update : PgtUpdate)
  | updateQp (entry : UpdateQp)
  | setNetwork (param : NetworkConfig)
  | setRawPacketRecvBuffer (recvMeta : RecvBufferMeta)

/-- The descriptor a call builds before it takes the lock; `none` if it panics there. -/
def CmdCall.desc : CmdCall → Option DescWords
  | .updateMtt x => CmdQueueReqDescUpdateMrTable.new 0 x.mrBaseVa x.mrLength x.mrKey x.pdHandler
      x.accFlags x.basePgtOffset
  | .updatePgt x => some (CmdQueueReqDescUpdatePGT.new 0 x.dmaAddr x.pgtOffset
      x.zeroBasedEntryCount)
  | .updateQp x => some (CmdQueueReqDescQpManagement.new 0 x.ipAddr x.qpn false true x.peerQpn
      x.rqAccessFlags x.qpType x.pmtu x.localUdpPort x.peerMacAddr)
  | .setNetwork x => some (CmdQueueReqDescSetNetworkParam.new 0 (x.gateway.getD 0) x.mask x.ip
      cardMacAddress)
  | .setRawPacketRecvBuffer x => some (CmdQueueReqDescSetRawPacketReceiveMeta.new 0 x.physAddr)

structure CmdQueue where
  inner : DescRingBuffer

namespace CmdQueue

def push (q : CmdQueue) (desc : DescWords) : CmdQueue × Bool :=
  let (inner,ok) := q.inner.push desc.toBytes
  (⟨inner⟩,ok)

def head (q : CmdQueue) : UInt32 := q.inner.head.toUInt32

def setTail (q : CmdQueue) (tail : UInt32) : CmdQueue := ⟨q.inner.setTail tail⟩

end CmdQueue

structure CmdRespQueue where
  inner : DescRingBuffer

namespace CmdRespQueue

def tryPop (q : CmdRespQueue) : CmdRespQueue × Option DescBytes :=
  let (inner,resp) := q.inner.pop DescBytes
  (⟨inner⟩,resp)

def tail (q : CmdRespQueue) : UInt32 := q.inner.tail.toUInt32

def setHead (q : CmdRespQueue) (head : UInt32) : CmdRespQueue := ⟨q.inner.setHead head⟩

end CmdRespQueue

/-- An update handle: the queues of the locked `CmdQp` and the number of responses to wait for. -/
structure QpUpdate where
  num : UInt64
  reqQueue : CmdQueue
  respQueue : CmdRespQueue

namespace QpUpdate

/-- `CmdQp::update` on the queues left by the last handle. -/
def update (u : QpUpdate) : QpUpdate := {u with num := 0}

/-- The result of the queue's `push` is ignored; it is kept here as the second component. -/
def push (u : QpUpdate) (desc : DescWords) : QpUpdate × Bool :=
  ({u with num := u.num+1,reqQueue := (u.reqQueue.push desc).1},(u.reqQueue.push desc).2)

/-- The second half of `flush`; a tail that cannot be read leaves the queue alone. -/
def readTail (u : QpUpdate) (tail : Option UInt32) : QpUpdate :=
  match tail with
  | some tailPtr => {u with reqQueue := u.reqQueue.setTail tailPtr}
  | none => u

/-- The test inside the loop of `wait`: a response is taken if there is one. -/
def tryPop (u : QpUpdate) : QpUpdate × Option DescBytes :=
  match u.respQueue.tryPop with
  | (respQueue,some resp) => ({u with num := u.num-1,respQueue := respQueue},some resp)
  | (respQueue,none) => ({u with respQueue := respQueue},none)

def readHead (u : QpUpdate) (head : Option UInt32) : QpUpdate :=
  match head with
  | some headPtr => {u with respQueue := u.respQueue.setHead headPtr}
  | none => u

end QpUpdate
end BlueRdma

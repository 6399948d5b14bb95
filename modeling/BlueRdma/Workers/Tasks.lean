import BlueRdma.Framework.Actors
import BlueRdma.RdmaUtils.Msn
import BlueRdma.Workers.MetaReport.Types
import BlueRdma.Workers.Send

namespace BlueRdma

structure MessageMeta where
  msn : UInt16
  endPsn : Psn
  deriving DecidableEq

inductive SendEventOp
  | writeSignaled
  | sendSignaled
  | readSignaled
  deriving DecidableEq

/-- Registered when a signalled work request is transmitted. -/
structure SendEvent where
  op : SendEventOp
  msgMeta : MessageMeta
  wrId : UInt64
  deriving DecidableEq

inductive RecvEventOp
  | write
  | writeWithImm (imm : UInt32)
  | recv
  | recvWithImm (imm : UInt32)
  | readResp
  | recvRead
  deriving DecidableEq

/-- Registered when the last packet of a message arrives. -/
structure RecvEvent where
  op : RecvEventOp
  msgMeta : MessageMeta
  ackReq : Bool
  deriving DecidableEq

/-- Registered when the application posts a receive buffer. -/
structure PostRecvEvent where
  wrId : UInt64
  deriving DecidableEq

inductive Event
  | send (e : SendEvent)
  | recv (e : RecvEvent)
  | postRecv (e : PostRecvEvent)
  deriving DecidableEq

inductive Completion
  | send (wrId : UInt64)
  | rdmaWrite (wrId : UInt64)
  | rdmaRead (wrId : UInt64)
  | recv (wrId : UInt64) (imm : Option UInt32)
  | recvRdmaWithImm (imm : UInt32)
  deriving DecidableEq

/-- A completion that names a posted buffer. -/
def Completion.isRecv : Completion → Bool
  | .recv _ _ => true
  | _ => false

inductive CompletionTask
  | register (event : Event)
  | ackSend (basePsn : Psn)
  | ackRecv (basePsn : Psn)
  deriving DecidableEq

inductive AckResponse
  | ack (msn : UInt16) (lastPsn : Psn)
  | nak (basePsn ackReqPacketPsn : Psn)
  deriving DecidableEq

inductive AckTimeoutTask
  | newAckReq
  | recvMeta
  | ack
  deriving DecidableEq

/-- A work request kept for retransmission. -/
structure SendQueueElem where
  psn : Psn
  wr : SendWrRdma
  qpParam : QpParams
  deriving DecidableEq

inductive PacketRetransmitTask
  | newWr (wr : SendQueueElem)
  | retransmitRange (psnLow psnHigh : Psn)
  | retransmitAll
  | ack (psn : Psn)
  deriving DecidableEq

inductive RdmaWriteTask
  | write (wr : SendWrRdma)
  | ack (basePsn : Psn)
  | newComplete (msn : UInt16)
  deriving DecidableEq

/-- The fields of a driver-generated acknowledge frame. -/
structure AckFrame where
  srcIp : UInt32
  dstIp : UInt32
  dqpn : UInt32
  nowPsn : Psn
  nowBitmap : BitVec 128
  prePsn : Psn
  prevBitmap : BitVec 128
  isPacketLoss : Bool
  isWindowSlided : Bool
  deriving DecidableEq

/-- Everything that travels between the workers of a driver or leaves it. A push on a
completion queue is kept together with the event it completes; `tick` is the timeout worker's
periodic maintenance. -/
inductive Msg
  | report (m : ReportMeta)
  | tick
  | rdma (t : RdmaWriteTask)
  | completion (t : CompletionTask)
  | retransmit (t : PacketRetransmitTask)
  | ack (t : AckResponse)
  | timeout (t : AckTimeoutTask)
  | chunk (c : WrChunk)
  | frame (f : AckFrame)
  | sendCq (e : SendEvent) (c : Completion)
  | recvCq (e : RecvEvent) (c : Option Completion)
  deriving DecidableEq

/-- Pushes on the send completion queue, oldest first. -/
def sendPushes (ms : List Msg) : List (SendEvent × Completion) :=
  ms.filterMap (fun | .sendCq e c => some (e,c) | _ => none)

/-- Receive events that left the completion worker, with the completion pushed for them. -/
def recvPolls (ms : List Msg) : List (RecvEvent × Option Completion) :=
  ms.filterMap (fun | .recvCq e c => some (e,c) | _ => none)

def ackResponses (ms : List Msg) : List AckResponse :=
  ms.filterMap (fun | .ack t => some t | _ => none)

@[simp] theorem sendPushes_append (ms ns : List Msg) :
    sendPushes (ms++ns)=sendPushes ms++sendPushes ns := List.filterMap_append

@[simp] theorem recvPolls_append (ms ns : List Msg) :
    recvPolls (ms++ns)=recvPolls ms++recvPolls ns := List.filterMap_append

@[simp] theorem ackResponses_append (ms ns : List Msg) :
    ackResponses (ms++ns)=ackResponses ms++ackResponses ns := List.filterMap_append

end BlueRdma

import BlueRdma.Workers.Tasks

namespace BlueRdma

structure AckFrameBuilder where
  srcIp : UInt32
  dstIp : UInt32
  dqpn : UInt32

/-- `u24::from_u32` panics on a value that does not fit. -/
def fitsU24 (x : UInt32) : Bool := x.toNat<2^24

def AckFrameBuilder.buildAck (b : AckFrameBuilder) (nowPsn : Psn) (nowBitmap : BitVec 128)
    (prePsn : Psn) (prevBitmap : BitVec 128) (isPacketLoss isWindowSlided : Bool) :
    Option AckFrame :=
  if fitsU24 nowPsn.inner && fitsU24 b.dqpn && fitsU24 prePsn.inner then
    some ⟨b.srcIp,b.dstIp,b.dqpn,nowPsn,nowBitmap,prePsn,prevBitmap,isPacketLoss,isWindowSlided⟩
  else none

/-- `AckResponder::process`: the worker keeps no state. -/
def AckResponder.process (qp : QpAttr) (task : AckResponse) : Outcome Msg Unit :=
  let b : AckFrameBuilder := ⟨qp.ip,qp.dqpIp,qp.dqpn⟩
  let frame := match task with
    | .ack _ lastPsn => b.buildAck lastPsn (BitVec.allOnes 128) ⟨0⟩ 0 false false
    | .nak basePsn ackReqPacketPsn =>
      b.buildAck (ackReqPacketPsn+(1 : UInt32)) 0 basePsn 0 true true
  match frame with
  | none => ⟨[],none⟩
  | some f => ⟨[.frame f],some ()⟩

/-- How the peer's device reports a driver-generated frame. -/
def AckFrame.report (f : AckFrame) : ReportMeta :=
  if f.isPacketLoss then .nakRemoteDriver ⟨f.nowPsn,f.prePsn⟩ else .ackRemoteDriver ⟨f.nowPsn⟩

end BlueRdma

import BlueRdma.Cmd.Configurator
import BlueRdma.Net.RecvChan
import BlueRdma.RdmaUtils.QpManager
import BlueRdma.Verbs.Post
import BlueRdma.Workers.Tasks

namespace BlueRdma

/-- `IBV_MTU_4096`, the path MTU of a QP until it is set. -/
def ibvMtu4096 : UInt8 := 5

/-- Local write, remote read and remote write, whatever the application asks for. -/
def rqAccessFlags : UInt8 := 7

def QpAttr.newWithIp (ip : UInt32) : QpAttr := ⟨0,0,0,ip,0,0,0,0,none,none⟩

structure IbvQpInitAttr where
  qpType : UInt8
  sendCq : Option UInt32
  recvCq : Option UInt32

/-- The attributes an update sets, of those the driver reads. -/
structure IbvQpAttr where
  destQpIp : Option UInt32 := none
  destQpNum : Option UInt32 := none
  pathMtu : Option UInt8 := none

/-- What `create_qp` writes into the attributes; the peer's stay as they are. -/
def QpAttr.create (current : QpAttr) (qpn : UInt32) (attr : IbvQpInitAttr) : QpAttr :=
  {current with
    qpn := qpn
    qpType := attr.qpType
    sendCq := attr.sendCq
    recvCq := attr.recvCq
    macAddr := cardMacAddress
    pmtu := ibvMtu4096}

/-- What `update_qp` tells the device. -/
def QpAttr.updateEntry (current : QpAttr) (qpn : UInt32) (attr : IbvQpAttr) : UpdateQp where
  qpn := qpn
  ipAddr := (attr.destQpIp.or (if current.dqpIp≠0 then some current.dqpIp else none)).getD 0
  localUdpPort := 0x100
  peerMacAddr := cardMacAddress
  qpType := current.qpType
  peerQpn := attr.destQpNum.getD current.dqpn
  rqAccessFlags := rqAccessFlags
  pmtu := attr.pathMtu.getD current.pmtu

def QpAttr.update (current : QpAttr) (entry : UpdateQp) : QpAttr :=
  {current with
    dqpn := entry.peerQpn
    accessFlags := entry.rqAccessFlags
    pmtu := entry.pmtu
    dqpIp := entry.ipAddr}

/-- The part of the device context that is about QPs. -/
structure HwDeviceCtx where
  qpManager : QpManager := .new
  qpAttrTable : QpTable QpAttr
  postRecvTxTable : QpTable (Option TcpChannelTx) := .newWith none
  recvWrQueueTable : QpTable (List RecvWr) := .newWith []
  cmds : List CmdQueueDesc := []

namespace HwDeviceCtx

/-- The part of a freshly initialised device. -/
def initialized (ip : UInt32) : HwDeviceCtx where
  qpAttrTable := .newWith (.newWithIp ip)

def createQp (d : HwDeviceCtx) (attr : IbvQpInitAttr) (key : UInt8) :
    Call HwDeviceCtx RdmaError UInt32 :=
  match d.qpManager.createQp key with
  | (none,m) => ⟨{d with qpManager := m},some (.error (.resourceExhausted "No QP numbers available"))⟩
  | (some qpn,m) =>
    let entry : UpdateQp := {localUdpPort := 0x100,qpType := attr.qpType,qpn := qpn}
    ⟨{d with
      qpManager := m
      qpAttrTable := d.qpAttrTable.mapQpMut qpn (fun current => current.create qpn attr)
      cmds := d.cmds++[.manageQp entry]},some (.ok qpn)⟩

theorem createQp_ok (d : HwDeviceCtx) (attr : IbvQpInitAttr) (key : UInt8) (qpn : UInt32)
    (h : (d.createQp attr key).result=some (.ok qpn)) :
    (∃ i,QpTable.index? qpn=some i) ∧ (d.createQp attr key).next.qpAttrTable=
      d.qpAttrTable.mapQpMut qpn (fun current => current.create qpn attr) := by
  unfold createQp at h ⊢
  split at h
  · cases h
  next qpn' m hm =>
  obtain rfl := Except.ok.inj (Option.some.inj h)
  obtain ⟨i,hi,-⟩ := d.qpManager.createQp_some m key qpn' hm
  exact ⟨⟨i,hi⟩,rfl⟩

/-- A new QP finds the channel and the receives its index was left with. -/
theorem createQp_frame (d : HwDeviceCtx) (attr : IbvQpInitAttr) (key : UInt8) :
    (d.createQp attr key).next.postRecvTxTable=d.postRecvTxTable ∧
    (d.createQp attr key).next.recvWrQueueTable=d.recvWrQueueTable := by
  unfold createQp
  split <;> exact ⟨rfl,rfl⟩

/-- The channel for posted receives is made as soon as the peer is known, and only once. -/
def updateQp (d : HwDeviceCtx) (qpn : UInt32) (attr : IbvQpAttr) (io : ChannelIo) :
    Call HwDeviceCtx RdmaError Unit :=
  match QpTable.index? qpn with
  | none => ⟨d,some (.error (.notFound ("QP "++toString qpn++" not found")))⟩
  | some i =>
    let entry := (d.qpAttrTable i).updateEntry qpn attr
    let qp := (d.qpAttrTable i).update entry
    let d := {d with
      qpAttrTable := Function.update d.qpAttrTable i qp
      cmds := d.cmds++[.manageQp entry]}
    if qp.dqpn≠0 ∧ qp.dqpIp≠0 ∧ d.postRecvTxTable i=none then
      match postRecvChannel qp.dqpIp qp.dqpn io with
      | .error e => ⟨d,some (.error (.ioError e))⟩
      | .ok tx =>
        ⟨{d with postRecvTxTable := Function.update d.postRecvTxTable i (some tx)},some (.ok ())⟩
    else ⟨d,some (.ok ())⟩

theorem updateQp_receives (d : HwDeviceCtx) (qpn : UInt32) (attr : IbvQpAttr) (io : ChannelIo) :
    (d.updateQp qpn attr io).next.recvWrQueueTable=d.recvWrQueueTable := by
  unfold updateQp
  split
  · rfl
  dsimp only
  split_ifs
  · split <;> rfl
  · rfl

/-- Nothing but the number is given back. -/
def destroyQp (d : HwDeviceCtx) (qpn : UInt32) : Call HwDeviceCtx RdmaError Unit :=
  match d.qpManager.destroyQp qpn with
  | none => ⟨d,none⟩
  | some (present,m) =>
    ⟨{d with qpManager := m},some (if present then .ok ()
      else .error (.invalidInput ("QPN "++toString qpn++" not present")))⟩

theorem destroyQp_receives (d : HwDeviceCtx) (qpn : UInt32) :
    (d.destroyQp qpn).next.recvWrQueueTable=d.recvWrQueueTable := by
  unfold destroyQp
  split <;> rfl

/-- `post_send` on a QP, with the task for the send worker. -/
def postSendOn (d : HwDeviceCtx) (qpn : UInt32) (wr : SendWr) :
    Call (HwDeviceCtx × List RdmaWriteTask) RdmaError Unit :=
  match QpTable.index? qpn,wr with
  | none,.rdma wr => ⟨(d,[.write wr]),some (.ok ())⟩
  | none,.send _ => ⟨(d,[]),none⟩
  | some i,wr =>
    let c := postSend (d.recvWrQueueTable i) wr
    let d := {d with recvWrQueueTable := Function.update d.recvWrQueueTable i c.next}
    match c.result with
    | none => ⟨(d,[]),none⟩
    | some (.error e) => ⟨(d,[]),some (.error e)⟩
    | some (.ok wr) => ⟨(d,[.write wr]),some (.ok ())⟩

/-- `post_recv` on a QP, with the task for the completion worker: the receive is registered
before it is known whether the peer can be told. -/
def postRecv (d : HwDeviceCtx) (qpn : UInt32) (wr : RecvWr) (io : ChannelIo) :
    Call (HwDeviceCtx × List CompletionTask) RdmaError Unit :=
  match QpTable.index? qpn with
  | none => ⟨(d,[]),some (.error (.qpError ("QP "++toString qpn++" not found")))⟩
  | some i =>
    let tasks : List CompletionTask := [.register (.postRecv ⟨wr.wrId⟩)]
    match d.postRecvTxTable i with
    | none => ⟨(d,tasks),
        some (.error (.qpError ("Post receive channel for QP "++toString qpn++" not found")))⟩
    | some tx =>
      let r := tx.send io
      let d := {d with postRecvTxTable := Function.update d.postRecvTxTable i (some r.1)}
      ⟨(d,tasks),some (r.2.mapError .ioError)⟩

theorem postRecv_receives (d : HwDeviceCtx) (qpn : UInt32) (wr : RecvWr) (io : ChannelIo) :
    (d.postRecv qpn wr io).next.1.recvWrQueueTable=d.recvWrQueueTable := by
  unfold postRecv
  split
  · rfl
  · dsimp only
    split <;> rfl

theorem postSendOn_write (d : HwDeviceCtx) (qpn : UInt32) (wr : SendWr) (t : RdmaWriteTask)
    (h : t∈(d.postSendOn qpn wr).next.2) : ∃ wr',t=.write wr' := by
  unfold postSendOn at h
  split at h
  · exact ⟨_,List.mem_singleton.mp h⟩
  · cases h
  · dsimp only at h
    split at h
    · cases h
    · cases h
    · exact ⟨_,List.mem_singleton.mp h⟩

theorem postRecv_register (d : HwDeviceCtx) (qpn : UInt32) (wr : RecvWr) (io : ChannelIo)
    (t : CompletionTask) (h : t∈(d.postRecv qpn wr io).next.2) : ∃ e,t=.register (.postRecv e) := by
  unfold postRecv at h
  split at h
  · cases h
  · dsimp only at h
    split at h <;> exact ⟨_,List.mem_singleton.mp h⟩

/-- `RecvWorker::run` of the index has read a receive the peer has posted. -/
def recvArrived (d : HwDeviceCtx) (i : Fin maxQpCnt) (wr : RecvWr) : HwDeviceCtx :=
  {d with recvWrQueueTable := Function.update d.recvWrQueueTable i (d.recvWrQueueTable i++[wr])}

end HwDeviceCtx
end BlueRdma

import BlueRdma.Verbs.Mock.Thread
import BlueRdma.Verbs.Qp

namespace BlueRdma
namespace Mock

def portStartAddr : UInt16 := 10000

/-- The low half of the QP number decides; in builds that check for overflow the sum may panic. -/
def getPort (overflowChecks : Bool) (qpn : UInt32) : Option UInt16 :=
  if overflowChecks && 2^16≤portStartAddr.toNat+qpn.toUInt16.toNat then none
  else some (portStartAddr+qpn.toUInt16)

/-- `TcpListener::bind` on a host with the given listeners. Port 0 stands for any free port. -/
def bind (bound : List SocketAddr) (addr : SocketAddr) : Except IoError SocketAddr :=
  if addr.2≠0 ∧ bound.contains addr=true then .error (.other "Address already in use (os error 98)")
  else .ok addr

/-- A connection: where it listens, and the peer as far as it is known and has been connected to.
A stream is accepted once. -/
structure QpConnection where
  qpn : UInt32
  listener : SocketAddr
  addr : Option SocketAddr := none
  txChan : Option SocketAddr := none
  rxChan : Bool := false
  deriving DecidableEq

/-- There is no connection after a panic: the port overflows or cannot be bound. -/
def QpConnection.new (overflowChecks : Bool) (bound : List SocketAddr) (selfIp qpn : UInt32) :
    Option QpConnection :=
  match getPort overflowChecks qpn with
  | none => none
  | some port => match bind bound (selfIp,port) with
    | .error _ => none
    | .ok listener => some {qpn := qpn,listener := listener}

def QpConnection.connect (overflowChecks : Bool) (c : QpConnection) (qpn ip : UInt32) :
    Option QpConnection :=
  (getPort overflowChecks qpn).map (fun port => {c with addr := some (ip,port)})

/-- The abort signal and the handle of a thread are known by its number. -/
structure QpCtx where
  dpqIp : Option UInt32 := none
  dpqn : Option UInt32 := none
  conn : Option QpConnection := none
  abortSignal : Option Nat := none
  handle : Option Nat := none
  deriving DecidableEq

structure MockDeviceCtx where
  mrKey : UInt32 := 0
  cqHandle : UInt32 := 0
  selfIp : UInt32 := 0
  cqTable : List UInt32 := []
  qpCtxTable : QpTable QpCtx := .newWith {}
  qpLocalTaskTx : Option Nat := none
  qpManager : QpManager := .new
  mrTable : List Mr := []

/-- A device with the threads it has started, by number, and the sockets they listen on. A
connection that is kept keeps its socket. -/
structure Host where
  ctx : MockDeviceCtx := {}
  threads : List QpThread := []
  bound : List SocketAddr := []

/-- The text of an I/O error. -/
def ioErrorText : IoError → String
  | .outOfMemory => "out of memory"
  | .notFound => "entity not found"
  | .other msg => msg

def localhost : UInt32 := 0x7F000001

namespace Host

/-- The region is registered if its first address can be resolved. -/
def regMr (overflowChecks : Bool) (h : Host) (addr length : UInt64)
    (pa : Except IoError (Option UInt64)) : Call Host RdmaError UInt32 :=
  match pa with
  | .error e =>
    ⟨h,some (.error (.memoryError ("Failed to resolve physical address: "++ioErrorText e)))⟩
  | .ok none => ⟨h,some (.error (.memoryError "Physical address not found"))⟩
  | .ok (some _) =>
    let h := {h with ctx.mrTable := h.ctx.mrTable++[⟨addr,length⟩]}
    if overflowChecks && h.ctx.mrKey.toNat+1=2^32 then ⟨h,none⟩
    else ⟨{h with ctx.mrKey := h.ctx.mrKey+1},some (.ok (h.ctx.mrKey+1))⟩

def createCq (overflowChecks : Bool) (h : Host) : Call Host RdmaError UInt32 :=
  if overflowChecks && h.ctx.cqHandle.toNat+1=2^32 then ⟨h,none⟩
  else
    let handle := h.ctx.cqHandle+1
    ⟨{h with ctx.cqHandle := handle,ctx.cqTable := handle::h.ctx.cqTable},some (.ok handle)⟩

/-- The channel of the new thread takes the place of the one before. -/
def createQp (overflowChecks : Bool) (h : Host) (attr : IbvQpInitAttr) (key : UInt8) :
    Call Host RdmaError UInt32 :=
  match h.ctx.qpManager.createQp key with
  | (none,m) => ⟨{h with ctx.qpManager := m},some (.error (.qpError "No available QP slots"))⟩
  | (some qpn,m) =>
    let sendCq := attr.sendCq.filter (fun cq => cq∈h.ctx.cqTable)
    let recvCq := attr.recvCq.filter (fun cq => cq∈h.ctx.cqTable)
    match QpConnection.new overflowChecks h.bound h.ctx.selfIp qpn with
    | none => ⟨{h with ctx.qpManager := m},none⟩
    | some conn =>
      let thread := h.threads.length
      let h := {h with
        ctx.qpManager := m
        ctx.qpLocalTaskTx := some thread
        threads := h.threads++[{qpn := qpn,sendCq := sendCq,recvCq := recvCq}]
        bound := conn.listener::h.bound}
      match QpTable.index? qpn with
      | none => ⟨h,none⟩
      | some i =>
        let c := h.ctx.qpCtxTable i
        if c.conn.isSome then ⟨h,none⟩
        else
          let c := {c with conn := some conn,abortSignal := some thread,handle := some thread}
          ⟨{h with ctx.qpCtxTable := Function.update h.ctx.qpCtxTable i c},some (.ok qpn)⟩

/-- The peer is connected to as soon as its number is known. An unspecified address counts as
none. -/
def updateQp (overflowChecks : Bool) (h : Host) (qpn : UInt32) (attr : IbvQpAttr) :
    Call Host RdmaError Unit :=
  match QpTable.index? qpn with
  | none => ⟨h,some (.error (.qpError ("QP "++toString qpn++" not found")))⟩
  | some i =>
    let c := h.ctx.qpCtxTable i
    let c := {c with
      dpqn := attr.destQpNum.or c.dpqn
      dpqIp := if attr.destQpIp.getD 0≠0 then attr.destQpIp else c.dpqIp}
    let store (c : QpCtx) : Host :=
      {h with ctx.qpCtxTable := Function.update h.ctx.qpCtxTable i c}
    match c.dpqn with
    | none => ⟨store c,some (.ok ())⟩
    | some dqpn =>
      let ip := c.dpqIp.getD localhost
      let c := {c with dpqIp := some ip}
      match c.conn with
      | none => ⟨store c,none⟩
      | some conn => match conn.connect overflowChecks dqpn ip with
        | none => ⟨store c,none⟩
        | some conn => ⟨store {c with conn := some conn},some (.ok ())⟩

/-- The thread is told to stop and waited for. Its connection and the peer stay in the table. -/
def destroyQp (h : Host) (qpn : UInt32) : Call Host RdmaError Unit :=
  match QpTable.index? qpn with
  | none => ⟨h,none⟩
  | some i =>
    let c := h.ctx.qpCtxTable i
    match c.abortSignal,c.handle with
    | some _,some t =>
      let h := {h with ctx.qpCtxTable :=
        Function.update h.ctx.qpCtxTable i {c with abortSignal := none,handle := none}}
      match h.threads[t]?.map QpThread.status with
      | some .running =>
        let h := {h with threads := h.threads.modify t (fun x => {x with status := .stopped})}
        match h.ctx.qpManager.destroyQp qpn with
        | none => ⟨h,none⟩
        | some (_,m) => ⟨{h with ctx.qpManager := m},some (.ok ())⟩
      | _ => ⟨h,none⟩
    | _,_ => ⟨h,none⟩

/-- The receive goes to the channel of the device, whatever the QP number is. -/
def postRecv (h : Host) (_qpn : UInt32) (wr : RecvWr) : Call Host RdmaError Unit :=
  match h.ctx.qpLocalTaskTx with
  | none => ⟨h,some (.error (.qpError "Task channel not initialized"))⟩
  | some t => match h.threads[t]?.map QpThread.status with
    | some .running =>
      ⟨{h with threads := h.threads.modify t (fun x => {x with tasks := x.tasks++[wr]})},
        some (.ok ())⟩
    | _ => ⟨h,some (.error (.qpError
        "Failed to post receive request: sending on a closed channel"))⟩

/-- The message of a work request and where it is sent. The stream is made for the first one, to a
peer that accepts it; a QP without a peer panics. -/
def postSend (h : Host) (mem : Memory) (qpn : UInt32) (wr : SendWr) :
    Call Host RdmaError (SocketAddr × QpTransportMessage) :=
  match toSend mem wr with
  | .error e => ⟨h,some (.error e)⟩
  | .ok msg => match QpTable.index? qpn with
    | none => ⟨h,some (.error (.qpError ("QP "++toString qpn++" not found")))⟩
    | some i =>
      let c := h.ctx.qpCtxTable i
      match c.conn with
      | none => ⟨h,none⟩
      | some conn => match conn.txChan.or conn.addr with
        | none => ⟨h,none⟩
        | some peer =>
          let c := {c with conn := some {conn with txChan := some peer}}
          ⟨{h with ctx.qpCtxTable := Function.update h.ctx.qpCtxTable i c},some (.ok (peer,msg))⟩

end Host
end Mock
end BlueRdma

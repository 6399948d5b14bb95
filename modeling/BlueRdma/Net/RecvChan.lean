import BlueRdma.Error
import BlueRdma.RdmaUtils.Types

namespace BlueRdma

/-- The responder's end of the channel on which it tells the initiator of its posted receives. -/
structure TcpChannelTx where
  addr : UInt32
  dqpn : UInt32
  connected : Bool := false
  deriving DecidableEq

/-- The operating system's answers to what a channel asks of it. -/
structure ChannelIo where
  connect : Except IoError Unit := .ok ()
  writeAll : Except IoError Unit := .ok ()
  bind : Except IoError Unit := .ok ()

/-- The connection is made with the first receive. -/
def TcpChannelTx.send (tx : TcpChannelTx) (io : ChannelIo) : TcpChannelTx × Except IoError Unit :=
  if tx.connected then (tx,io.writeAll)
  else match io.connect with
    | .error e => (tx,.error e)
    | .ok () => ({tx with connected := true},io.writeAll)

theorem TcpChannelTx.send_ok_iff (tx : TcpChannelTx) (io : ChannelIo) :
    (tx.send io).2=.ok () ↔ (tx.connected=true ∨ io.connect=.ok ()) ∧ io.writeAll=.ok () := by
  rw [send]
  split_ifs with hconn
  · simp [hconn]
  · rcases hc : io.connect with e|⟨⟩
    · simp [hconn]
    · simp

def basePort : UInt16 := 60000

/-- Ports 60000 to 65534 are used. -/
def portRange : UInt32 := 5535

/-- Fibonacci hashing: `0x9E3779B9` is `2^32` divided by the golden ratio. -/
def qpnHash (qpn : UInt32) : UInt32 := qpn*0x9E3779B9

def qpnToPort (qpn : UInt32) : UInt16 := basePort+(qpnHash qpn%portRange).toUInt16

/-- An address and port a listener is bound to. -/
abbrev SocketAddr := UInt32 × UInt16

/-- `TcpListener::bind` for the posted receives of a QP, on a host with the given listeners. -/
def TcpChannelRx.listen (bound : List SocketAddr) (addr qpn : UInt32) : Except IoError SocketAddr :=
  if (addr,qpnToPort qpn)∈bound then .error (.other "Address already in use (os error 98)")
  else .ok (addr,qpnToPort qpn)

/-- The initiator's end: whether a connection was accepted, and what `read_exact` has read of the
next receive. -/
structure TcpChannelRx where
  accepted : Bool := false
  buf : List UInt8 := []
  deriving DecidableEq

/-- The thread that takes the receives from the channel. -/
structure RecvWorker where
  rx : TcpChannelRx := {}
  running : Bool := true
  deriving DecidableEq

/-- What the call the thread waits in comes back with: a connection, the next bytes of the stream,
or an error, among them the end of the stream. -/
inductive RecvIo
  | accept
  | read (bytes : List UInt8)
  | error (e : IoError)

namespace RecvWorker

/-- The bytes `read_exact` still asks for. -/
def missing (w : RecvWorker) : Nat := RecvWr.size-w.rx.buf.length

/-- `RecvWorker::run`: the receive the thread puts in the queue when the call returns. -/
def run (w : RecvWorker) : RecvIo → RecvWorker × Option RecvWr
  | .accept => ({w with rx := {w.rx with accepted := true}},none)
  | .read bytes =>
    let buf := w.rx.buf++bytes
    if buf.length=RecvWr.size then ({w with rx := {w.rx with buf := []}},some (.fromBytes buf))
    else ({w with rx := {w.rx with buf := buf}},none)
  | .error _ => ({w with running := false},none)

end RecvWorker

/-- Only the local end can fail: the other one connects later. -/
def postRecvChannel (destAddr destQpn : UInt32) (io : ChannelIo) : Except IoError TcpChannelTx :=
  io.bind.map (fun _ => ⟨destAddr,destQpn,false⟩)

end BlueRdma

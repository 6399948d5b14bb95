import BlueRdma.Csr.Rings

namespace BlueRdma.Csr

structure CsrAccessRpcMessage where
  isWrite : Bool
  addr : Nat
  value : UInt32
  deriving DecidableEq

/-- What a thread asks the device for. -/
inductive RpcCall
  | read (addr : Nat)
  | write (addr : Nat) (data : UInt32)
  deriving DecidableEq

/-- The message `read_csr` and `write_csr` send. -/
def RpcCall.message : RpcCall → CsrAccessRpcMessage
  | .read addr => ⟨false,addr,0⟩
  | .write addr data => ⟨true,addr,data⟩

/-- A datagram as `from_slice` finds it: a message, or bytes that are none. -/
abbrev Datagram := Except String CsrAccessRpcMessage

/-- What `read_csr` makes of a datagram: it looks at the value only. -/
def Datagram.response (d : Datagram) : Except String UInt32 := d.map (·.value)

/-- The socket as one thread sees it: how its next calls end, and the messages it got through. -/
structure UdpSocket where
  sends : Nat → Except String Unit
  recvs : Nat → Except String Datagram
  sent : List CsrAccessRpcMessage

namespace RpcClient

def send (m : CsrAccessRpcMessage) : Access UdpSocket Unit :=
  ExceptT.mk fun s =>
    match s.sends 0 with
    | .ok _ => (.ok (),{ s with sends := fun k => s.sends (k+1),sent := s.sent++[m] })
    | .error e => (.error (.io e),{ s with sends := fun k => s.sends (k+1) })

def recvFrom : Access UdpSocket Datagram :=
  ExceptT.mk fun s => ((s.recvs 0).mapError .io,{ s with recvs := fun k => s.recvs (k+1) })

def readCsr (addr : Nat) : Access UdpSocket UInt32 := do
  send (RpcCall.read addr).message
  let d ← recvFrom
  liftM (d.response.mapError CsrFault.io)

def writeCsr (addr : Nat) (data : UInt32) : Access UdpSocket Unit :=
  send (RpcCall.write addr data).message

end RpcClient

def EmulatedDevice.adaptor : DeviceAdaptor UdpSocket := ⟨RpcClient.readCsr,RpcClient.writeCsr⟩

/-- A `read_csr` that took a datagram: who called it for which register, and what it returned. -/
structure RpcReturn where
  thread : Nat
  addr : Nat
  result : Except String UInt32
  deriving DecidableEq

/-- The threads on their one socket. The network and the simulator behind it are left open: any
datagram may arrive at any time. The last three fields record what happened. -/
structure RpcSystem where
  /-- datagrams the socket has received -/
  inbox : List Datagram
  /-- threads blocked in `recv_from`, with the register they asked for -/
  waiting : List (Nat × Nat)
  sent : List (Nat × RpcCall)
  arrived : List Datagram
  returned : List RpcReturn
  deriving DecidableEq

/-- What happens: a thread's call, whose `send` ends as given, a datagram that arrives, a blocked
thread whose `recv_from` takes the next one, and one whose `recv_from` fails. -/
inductive RpcStep
  | call (thread : Nat) (c : RpcCall) (io : Except String Unit)
  | arrive (d : Datagram)
  | recv (thread : Nat)
  | recvFails (thread : Nat)

namespace RpcSystem

def init : RpcSystem := ⟨[],[],[],[],[]⟩

/-- `send` of `read_csr` and `write_csr`; a reader then blocks for the answer. -/
def send (s : RpcSystem) (t : Nat) (c : RpcCall) : RpcSystem :=
  { s with
    sent := s.sent++[(t,c)]
    waiting := match c with
      | .read addr => s.waiting++[(t,addr)]
      | .write _ _ => s.waiting }

/-- The rest of `read_csr`: the next datagram of the socket is taken for the answer, whoever asked
for it. -/
def recv (s : RpcSystem) (t : Nat) : RpcSystem :=
  match s.waiting.lookup t,s.inbox with
  | some addr,d::rest =>
      { s with
        inbox := rest
        waiting := s.waiting.filter (·.1≠t)
        returned := s.returned++[⟨t,addr,d.response⟩] }
  | _,_ => s

def step (s : RpcSystem) : RpcStep → RpcSystem
  -- an error of `send` ends the call and leaves nothing behind
  | .call t c io => if s.waiting.lookup t=none ∧ io.isOk then s.send t c else s
  | .arrive d => { s with inbox := s.inbox++[d],arrived := s.arrived++[d] }
  | .recv t => s.recv t
  | .recvFails t => { s with waiting := s.waiting.filter (·.1≠t) }

end RpcSystem

end BlueRdma.Csr

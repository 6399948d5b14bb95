import BlueRdma.Math.BigEndian
import BlueRdma.RdmaUtils.Psn

namespace BlueRdma

inductive WorkReqOpCode
  | rdmaWrite
  | rdmaWriteWithImm
  | send
  | sendWithImm
  | rdmaRead
  | atomicCmpAndSwp
  | atomicFetchAndAdd
  | localInv
  | bindMw
  | sendWithInv
  | tso
  | driver1
  | rdmaReadResp
  | rdmaAck
  | flush
  | atomicWrite
  deriving DecidableEq

/-- `IBV_SEND_SIGNALED`: the poster wants a completion. -/
def ibvSendSignaled : UInt32 := 2

/-- `IBV_SEND_SOLICITED`. -/
def ibvSendSolicited : UInt32 := 4

structure SendWrBase where
  wrId : UInt64
  sendFlags : UInt32
  laddr : UInt64
  length : UInt32
  lkey : UInt32
  immData : UInt32
  opcode : WorkReqOpCode
  deriving DecidableEq

/-- A send work request together with the remote memory it addresses. -/
structure SendWrRdma where
  base : SendWrBase
  raddr : UInt64
  rkey : UInt32
  deriving DecidableEq

namespace SendWrRdma

def laddr (wr : SendWrRdma) : UInt64 := wr.base.laddr
def length (wr : SendWrRdma) : UInt32 := wr.base.length
def lkey (wr : SendWrRdma) : UInt32 := wr.base.lkey
def imm (wr : SendWrRdma) : UInt32 := wr.base.immData
def sendFlags (wr : SendWrRdma) : UInt32 := wr.base.sendFlags
def wrId (wr : SendWrRdma) : UInt64 := wr.base.wrId
def opcode (wr : SendWrRdma) : WorkReqOpCode := wr.base.opcode

def newFromBase (base : SendWrBase) (raddr : UInt64) (rkey : UInt32) : SendWrRdma :=
  ⟨base,raddr,rkey⟩

def signaled (wr : SendWrRdma) : Bool := wr.sendFlags &&& ibvSendSignaled != 0

end SendWrRdma

/-- A receive work request, as the responder posts it and as the initiator learns it. -/
structure RecvWr where
  wrId : UInt64
  addr : UInt64
  length : UInt32
  lkey : UInt32
  deriving DecidableEq

namespace RecvWr

/-- `size_of::<RecvWr>()`. -/
def size : Nat := 24

def toBytes (wr : RecvWr) : List UInt8 :=
  BigEndian.bytes 8 wr.wrId.toNat++(BigEndian.bytes 8 wr.addr.toNat++
    (BigEndian.bytes 4 wr.length.toNat++BigEndian.bytes 4 wr.lkey.toNat))

def fromBytes (bytes : List UInt8) : RecvWr where
  wrId := .ofNat (BigEndian.read bytes 0 8)
  addr := .ofNat (BigEndian.read bytes 8 8)
  length := .ofNat (BigEndian.read bytes 16 4)
  lkey := .ofNat (BigEndian.read bytes 20 4)

@[simp] theorem length_toBytes (wr : RecvWr) : wr.toBytes.length=size := by
  simp [toBytes,size]

theorem fromBytes_toBytes (wr : RecvWr) : fromBytes wr.toBytes=wr := by
  have hwrId := BigEndian.read_append [] (BigEndian.bytes 8 wr.addr.toNat++
    (BigEndian.bytes 4 wr.length.toNat++BigEndian.bytes 4 wr.lkey.toNat)) 8 wr.wrId.toNat
  have haddr := BigEndian.read_append (BigEndian.bytes 8 wr.wrId.toNat)
    (BigEndian.bytes 4 wr.length.toNat++BigEndian.bytes 4 wr.lkey.toNat) 8 wr.addr.toNat
  have hlength := BigEndian.read_append
    (BigEndian.bytes 8 wr.wrId.toNat++BigEndian.bytes 8 wr.addr.toNat)
    (BigEndian.bytes 4 wr.lkey.toNat) 4 wr.length.toNat
  have hlkey := BigEndian.read_append (BigEndian.bytes 8 wr.wrId.toNat++
    (BigEndian.bytes 8 wr.addr.toNat++BigEndian.bytes 4 wr.length.toNat)) [] 4 wr.lkey.toNat
  simp only [List.append_assoc,List.append_nil,List.nil_append,List.length_append,List.length_nil,
    BigEndian.length_bytes] at hwrId haddr hlength hlkey
  have hmod64 (x : UInt64) : x.toNat%256^8=x.toNat := Nat.mod_eq_of_lt x.toNat_lt
  have hmod32 (x : UInt32) : x.toNat%256^4=x.toNat := Nat.mod_eq_of_lt x.toNat_lt
  rw [fromBytes,toBytes,hwrId,haddr,hlength,hlkey,hmod64,hmod64,hmod32,hmod32]
  simp

end RecvWr

structure QpAttr where
  qpType : UInt8
  qpn : UInt32
  dqpn : UInt32
  ip : UInt32
  dqpIp : UInt32
  macAddr : UInt64
  pmtu : UInt8
  accessFlags : UInt8
  sendCq : Option UInt32
  recvCq : Option UInt32
  deriving DecidableEq

/-- An RDMA write for concrete runs. -/
def shortWrite (raddr : UInt64) (length : UInt32) : SendWrRdma :=
  ⟨⟨1,ibvSendSignaled,0x1000,length,0,0,.rdmaWrite⟩,raddr,0⟩

/-- A QP with a path MTU of 256 bytes for concrete runs. -/
def shortPathQp : QpAttr := ⟨2,0x100,0x100,0,0,0,1,0,some 0,some 0⟩

end BlueRdma

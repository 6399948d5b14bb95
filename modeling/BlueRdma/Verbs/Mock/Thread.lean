import BlueRdma.Math.Memory
import BlueRdma.Verbs.Post
import BlueRdma.Workers.Tasks

namespace BlueRdma

namespace SendWr

def wrId : SendWr → UInt64
  | .rdma wr => wr.base.wrId
  | .send wr => wr.wrId

def sendFlags : SendWr → UInt32
  | .rdma wr => wr.base.sendFlags
  | .send wr => wr.sendFlags

def immData : SendWr → UInt32
  | .rdma wr => wr.base.immData
  | .send wr => wr.immData

end SendWr

/-- The name of an opcode in debug output. -/
def WorkReqOpCode.debugName : WorkReqOpCode → String
  | .rdmaWrite => "RdmaWrite"
  | .rdmaWriteWithImm => "RdmaWriteWithImm"
  | .send => "Send"
  | .sendWithImm => "SendWithImm"
  | .rdmaRead => "RdmaRead"
  | .atomicCmpAndSwp => "AtomicCmpAndSwp"
  | .atomicFetchAndAdd => "AtomicFetchAndAdd"
  | .localInv => "LocalInv"
  | .bindMw => "BindMw"
  | .sendWithInv => "SendWithInv"
  | .tso => "Tso"
  | .driver1 => "Driver1"
  | .rdmaReadResp => "RdmaReadResp"
  | .rdmaAck => "RdmaAck"
  | .flush => "Flush"
  | .atomicWrite => "AtomicWrite"

namespace Mock

/-- A registered memory region. -/
structure Mr where
  addr : UInt64
  length : UInt64
  deriving DecidableEq

/-- `MrTable::valid`. The sums are formed only for a region that starts at or before the address;
in builds that check for overflow they may panic. -/
def valid (overflowChecks : Bool) (a l : UInt64) : List Mr → Option Bool
  | [] => some false
  | mr::mrs =>
    if mr.addr≤a then
      if overflowChecks && (2^64≤a.toNat+l.toNat || 2^64 ≤ mr.addr.toNat+mr.length.toNat) then none
      else if a+l < mr.addr+mr.length then some true
      else valid overflowChecks a l mrs
    else valid overflowChecks a l mrs

/-- The stores of a write to local memory, of which there are none outside the regions. -/
def writeLocalAddr (overflowChecks : Bool) (table : List Mr) (addr : UInt64) (data : List UInt8) :
    Option (List (UInt64 × UInt8)) :=
  (valid overflowChecks addr (UInt64.ofNat data.length) table).map
    (fun ok => if ok then Memory.placed addr data else [])

def readLocalAddr (mem : Memory) (addr : UInt64) (len : UInt32) : List UInt8 :=
  mem.read addr len.toNat

structure RdmaWriteReq where
  raddr : UInt64
  imm : UInt32
  data : List UInt8
  wrId : UInt64
  ackReq : Bool

structure RdmaReadReq where
  laddr : UInt64
  raddr : UInt64
  len : UInt32
  ackReq : Bool
  wrId : UInt64

structure RdmaReadResp where
  laddr : UInt64
  raddr : UInt64
  data : List UInt8
  wrId : UInt64
  ackReq : Bool

structure WriteOrSendResp where
  wrId : UInt64
  ackReq : Bool

structure SendReq where
  wrId : UInt64
  data : List UInt8
  imm : Option UInt32
  ackReq : Bool

inductive QpTransportMessage
  | writeReq (r : RdmaWriteReq)
  | writeWithImmReq (r : RdmaWriteReq)
  | readReq (r : RdmaReadReq)
  | sendReq (r : SendReq)
  | writeResp (r : WriteOrSendResp)
  | writeWithImmResp (r : WriteOrSendResp)
  | readResp (r : RdmaReadResp)
  | sendResp (r : WriteOrSendResp)

/-- The message that `post_send` makes of a work request. -/
def toSend (mem : Memory) (wr : SendWr) : Except RdmaError QpTransportMessage :=
  let ackReq := wr.sendFlags&&&ibvSendSignaled≠0
  match wr with
  | .rdma x => match x.opcode with
    | .rdmaWrite =>
      .ok (.writeReq ⟨x.raddr,x.imm,readLocalAddr mem x.laddr x.length,x.wrId,ackReq⟩)
    | .rdmaWriteWithImm =>
      .ok (.writeWithImmReq ⟨x.raddr,x.imm,readLocalAddr mem x.laddr x.length,x.wrId,ackReq⟩)
    | .rdmaRead => .ok (.readReq ⟨x.laddr,x.raddr,x.length,ackReq,x.wrId⟩)
    | opcode => .error (.unimplemented ("Unsupported opcode: "++opcode.debugName))
  | .send x =>
    .ok (.sendReq ⟨wr.wrId,readLocalAddr mem x.laddr x.length,
      if wr.immData≠0 then some wr.immData else none,ackReq⟩)

inductive ThreadStatus
  | running
  | stopped
  | panicked
  deriving DecidableEq

/-- The thread of a QP. It knows its completion queues by their handles, gets posted receives
through a channel and keeps those it has taken from there. -/
structure QpThread where
  qpn : UInt32
  sendCq : Option UInt32
  recvCq : Option UInt32
  tasks : List RecvWr := []
  recvReqs : List RecvWr := []
  status : ThreadStatus := .running

/-- What a message makes the thread do: a write to local memory, a completion for one of its
queues, and a reply. -/
structure Turn where
  thread : QpThread
  write : Option (UInt64 × List UInt8) := none
  completion : Option (UInt32 × Completion) := none
  reply : Option QpTransportMessage := none

/-- The stores of a turn. They come before the completion and the reply, and do not matter for
either unless the check of the addresses panics. -/
def Turn.stores (overflowChecks : Bool) (table : List Mr) (turn : Turn) :
    Option (List (UInt64 × UInt8)) :=
  match turn.write with
  | none => some []
  | some (addr,data) => writeLocalAddr overflowChecks table addr data

namespace QpThread

/-- The first part of a round of the loop: the tasks in the channel. -/
def drain (t : QpThread) : QpThread := {t with tasks := [],recvReqs := t.recvReqs++t.tasks}

/-- The second part: one message. A send without a posted receive panics. Messages are read whole: a
read timeout inside one, after which the bytes read so far are missing, is left out. -/
def handle (mem : Memory) (t : QpThread) : QpTransportMessage → Option Turn
  | .writeReq r => some {
      thread := t
      write := some (r.raddr,r.data)
      reply := some (.writeResp ⟨r.wrId,r.ackReq⟩) }
  | .writeWithImmReq r => some {
      thread := t
      write := some (r.raddr,r.data)
      completion := t.recvCq.map (fun cq => (cq,.recvRdmaWithImm r.imm))
      reply := some (.writeResp ⟨r.wrId,r.ackReq⟩) }
  | .sendReq r => match t.recvReqs with
    | [] => none
    | wr::rest => some {
        thread := {t with recvReqs := rest}
        write := some (wr.addr,r.data)
        completion := t.recvCq.map (fun cq => (cq,.recv r.wrId r.imm))
        reply := some (.writeResp ⟨r.wrId,r.ackReq⟩) }
  | .readReq r => some {
      thread := t
      reply := some (.readResp ⟨r.laddr,r.raddr,readLocalAddr mem r.raddr r.len,r.wrId,r.ackReq⟩) }
  | .writeResp r | .writeWithImmResp r => some {
      thread := t
      completion := if r.ackReq then t.sendCq.map (fun cq => (cq,.rdmaWrite r.wrId)) else none }
  | .sendResp r => some {
      thread := t
      completion := if r.ackReq then t.sendCq.map (fun cq => (cq,.send r.wrId)) else none }
  | .readResp r => some {
      thread := t
      write := some (r.laddr,r.data)
      completion := if r.ackReq then t.recvCq.map (fun cq => (cq,.rdmaRead r.wrId)) else none }

end QpThread

theorem valid_cons (d : Bool) (a l : UInt64) (mr : Mr) (mrs : List Mr)
    (hl : a.toNat+l.toNat<2^64) (hmr : mr.addr.toNat+mr.length.toNat<2^64) :
    valid d a l (mr::mrs)=
      if mr.addr.toNat≤a.toNat ∧ a.toNat+l.toNat < mr.addr.toNat+mr.length.toNat then some true
      else valid d a l mrs := by
  have hno : (d && (2^64≤a.toNat+l.toNat || 2^64 ≤ mr.addr.toNat+mr.length.toNat))=false := by
    rw [decide_eq_false (by omega),decide_eq_false (by omega)]
    simp
  have hlt : a+l < mr.addr+mr.length ↔ a.toNat+l.toNat < mr.addr.toNat+mr.length.toNat := by
    rw [UInt64.lt_iff_toNat_lt,UInt64.toNat_add,UInt64.toNat_add,Nat.mod_eq_of_lt hl,
      Nat.mod_eq_of_lt hmr]
  rw [valid,hno]
  simp only [UInt64.le_iff_toNat_le,hlt,Bool.false_eq_true,if_false]
  split_ifs with h₁ h₂ h₃ h₄
  · rfl
  · exact absurd ⟨h₁,h₂⟩ h₃
  · exact absurd h₄.2 h₂
  · rfl
  · exact absurd (by tauto) h₁
  · rfl

/-- The end of the range has to lie before the end of the region, not at it. -/
theorem valid_eq (d : Bool) (a l : UInt64) (table : List Mr) (hl : a.toNat+l.toNat<2^64)
    (htable : ∀ mr∈table,mr.addr.toNat+mr.length.toNat<2^64) :
    valid d a l table=some (table.any (fun mr =>
      mr.addr.toNat≤a.toNat ∧ a.toNat+l.toNat < mr.addr.toNat+mr.length.toNat)) := by
  induction table with
  | nil => rfl
  | cons mr mrs ih =>
      rw [valid_cons d a l mr mrs hl (htable mr List.mem_cons_self),
        ih (fun x hx => htable x (List.mem_cons_of_mem mr hx)),List.any_cons]
      split_ifs with h <;> simp [h]

end Mock
end BlueRdma

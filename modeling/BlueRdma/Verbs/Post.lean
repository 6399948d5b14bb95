import BlueRdma.Error
import BlueRdma.RdmaUtils.Types

namespace BlueRdma

/-- The scatter-gather element a work request points to. -/
structure IbvSge where
  addr : UInt64
  length : UInt32
  lkey : UInt32

/-- The fields of an `ibv_send_wr` that the driver reads. -/
structure IbvSendWr where
  wrId : UInt64
  numSge : Int32
  sge : IbvSge
  opcode : UInt32
  sendFlags : UInt32
  immData : UInt32
  remoteAddr : UInt64
  rkey : UInt32

inductive SendWr
  | rdma (wr : SendWrRdma)
  | send (wr : SendWrBase)

/-- The `ibv_wr_opcode` values the driver takes. -/
def workReqOpCode? (opcode : UInt32) : Option WorkReqOpCode :=
  match opcode.toNat with
  | 0 => some .rdmaWrite
  | 1 => some .rdmaWriteWithImm
  | 2 => some .send
  | 3 => some .sendWithImm
  | 4 => some .rdmaRead
  | _ => none

def SendWr.new (wr : IbvSendWr) : Except RdmaError SendWr :=
  if wr.numSge<0 then
    .error (.invalidInput "Invalid SGE count: out of range integral type conversion attempted")
  else if wr.numSge≠1 then .error (.unimplemented "Only support for single SGE")
  else match workReqOpCode? wr.opcode with
    | none => .error (.unimplemented ("Opcode "++toString wr.opcode++" not supported"))
    | some opcode =>
      let base : SendWrBase :=
        ⟨wr.wrId,wr.sendFlags,wr.sge.addr,wr.sge.length,wr.sge.lkey,wr.immData,opcode⟩
      match opcode with
      | .rdmaWrite | .rdmaWriteWithImm | .rdmaRead => .ok (.rdma ⟨base,wr.remoteAddr,wr.rkey⟩)
      | .send | .sendWithImm => .ok (.send base)
      | _ => .error (.unimplemented "opcode not supported")

namespace HwDeviceCtx

/-- `HwDeviceCtx::send` on the receives the peer has announced: it takes the oldest one even if
the lengths do not match, and hits a `todo!` if there is none. -/
def send (recvWrQueue : List RecvWr) (wr : SendWrBase) : Call (List RecvWr) RdmaError SendWrRdma :=
  match recvWrQueue with
  | [] => ⟨[],none⟩
  | x::rest =>
    if wr.length≠x.length then
      ⟨rest,some (.error (.invalidInput "Send length does not match receive length"))⟩
    else ⟨rest,some (.ok (SendWrRdma.newFromBase wr x.addr x.lkey))⟩

/-- What `post_send` hands to the worker when it returns `Ok`. -/
def postSend (recvWrQueue : List RecvWr) : SendWr → Call (List RecvWr) RdmaError SendWrRdma
  | .rdma wr => ⟨recvWrQueue,some (.ok wr)⟩
  | .send wr => send recvWrQueue wr

end HwDeviceCtx

/-- The requests an application can post. -/
def SendWrRdma.Postable (wr : SendWrRdma) : Prop :=
  wr.opcode∈[WorkReqOpCode.rdmaWrite,.rdmaWriteWithImm,.send,.sendWithImm,.rdmaRead]

theorem workReqOpCode?_mem (opcode : UInt32) (op : WorkReqOpCode)
    (h : workReqOpCode? opcode=some op) :
    op∈[WorkReqOpCode.rdmaWrite,.rdmaWriteWithImm,.send,.sendWithImm,.rdmaRead] := by
  unfold workReqOpCode? at h
  split at h <;> first | (obtain rfl := Option.some.inj h; decide) | cases h

/-- What is handed to the worker is a write, a read or a send. -/
theorem HwDeviceCtx.postSend_postable (ibv : IbvSendWr) (sendWr : SendWr)
    (hnew : SendWr.new ibv=.ok sendWr) (queue rest : List RecvWr) (wr : SendWrRdma)
    (hpost : postSend queue sendWr=⟨rest,some (.ok wr)⟩) : wr.Postable := by
  have hop : ∃ op,workReqOpCode? ibv.opcode=some op ∧ wr.opcode=op := by
    unfold SendWr.new at hnew
    split_ifs at hnew
    split at hnew
    · cases hnew
    next op hop =>
    refine ⟨op,hop,?_⟩
    dsimp only at hnew
    split at hnew
    iterate 3
      obtain rfl := Except.ok.inj hnew
      simp only [postSend,Call.mk.injEq,Option.some.injEq,Except.ok.injEq] at hpost
      rw [← hpost.2]
      rfl
    iterate 2
      obtain rfl := Except.ok.inj hnew
      rcases queue with _|⟨x,q⟩
      · simp [postSend,send] at hpost
      · simp only [postSend,send] at hpost
        split_ifs at hpost
        · simp at hpost
        · simp only [Call.mk.injEq,Option.some.injEq,Except.ok.injEq] at hpost
          rw [← hpost.2]
          rfl
    cases hnew
  obtain ⟨op,hop,hwr⟩ := hop
  rw [SendWrRdma.Postable,hwr]
  exact workReqOpCode?_mem ibv.opcode op hop

end BlueRdma

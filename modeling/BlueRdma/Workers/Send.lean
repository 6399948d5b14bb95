import BlueRdma.RdmaUtils.Types

namespace BlueRdma

inductive ChunkPos
  | first
  | middle
  | last
  | only
  deriving DecidableEq

structure QpParams where
  msn : UInt16
  qpType : UInt8
  sqpn : UInt32
  macAddr : UInt64
  dqpn : UInt32
  dqpIp : UInt32
  pmtu : UInt8
  deriving DecidableEq

def QpParams.ofAttr (msn : UInt16) (qp : QpAttr) : QpParams :=
  ⟨msn,qp.qpType,qp.qpn,qp.macAddr,qp.dqpn,qp.dqpIp,qp.pmtu⟩

/-- The part of a work request that one send descriptor pair describes. -/
structure WrChunk where
  opcode : WorkReqOpCode := .rdmaWrite
  qpType : UInt8 := 0
  sqpn : UInt32 := 0
  macAddr : UInt64 := 0
  dqpn : UInt32 := 0
  dqpIp : UInt32 := 0
  pmtu : UInt8 := 0
  flags : UInt8 := 0
  raddr : UInt64 := 0
  rkey : UInt32 := 0
  totalLen : UInt32 := 0
  lkey : UInt32 := 0
  imm : UInt32 := 0
  laddr : UInt64 := 0
  len : UInt32 := 0
  isFirst : Bool := false
  isLast : Bool := false
  msn : UInt16 := 0
  psn : Psn := ⟨0⟩
  isRetry : Bool := false
  enableEcn : Bool := false
  deriving DecidableEq

def WrChunk.setIsRetry (c : WrChunk) : WrChunk := {c with isRetry := true}

/-- Stages of the chunk builder; each setter exists at one stage only. -/
inductive BuilderStage
  | initial
  | withQpParams
  | withIbvParams
  | withChunkInfo

structure WrChunkBuilder (s : BuilderStage) where
  inner : WrChunk

namespace WrChunkBuilder

def newWithOpcode (opcode : WorkReqOpCode) : WrChunkBuilder .initial := ⟨{opcode := opcode}⟩

def setQpParams (b : WrChunkBuilder .initial) (q : QpParams) : WrChunkBuilder .withQpParams :=
  ⟨{b.inner with
    qpType := q.qpType,sqpn := q.sqpn,macAddr := q.macAddr,dqpn := q.dqpn,
    dqpIp := q.dqpIp,pmtu := q.pmtu,msn := q.msn}⟩

def setIbvParams (b : WrChunkBuilder .withQpParams) (flags : UInt8)
    (rkey totalLen lkey imm : UInt32) : WrChunkBuilder .withIbvParams :=
  ⟨{b.inner with flags := flags,rkey := rkey,totalLen := totalLen,lkey := lkey,imm := imm}⟩

def setChunkMeta (b : WrChunkBuilder .withIbvParams) (psn : Psn) (laddr raddr : UInt64)
    (len : UInt32) (pos : ChunkPos) : WrChunkBuilder .withChunkInfo :=
  let c := {b.inner with psn := psn,laddr := laddr,raddr := raddr,len := len}
  match pos with
  | .first => ⟨{c with isFirst := true}⟩
  | .last => ⟨{c with isLast := true}⟩
  | .middle => ⟨c⟩
  | .only => ⟨{c with isFirst := true,isLast := true}⟩

def setIsRetry (b : WrChunkBuilder .withChunkInfo) : WrChunkBuilder .withChunkInfo :=
  ⟨{b.inner with isRetry := true}⟩

def build (b : WrChunkBuilder .withChunkInfo) : WrChunk := b.inner

@[simp] theorem setChunkMeta_psn (b : WrChunkBuilder .withIbvParams) (psn : Psn)
    (laddr raddr : UInt64) (len : UInt32) (pos : ChunkPos) :
    (b.setChunkMeta psn laddr raddr len pos).inner.psn=psn := by
  cases pos <;> rfl

theorem setChunkMeta_fields (b : WrChunkBuilder .withIbvParams) (psn : Psn)
    (laddr raddr : UInt64) (len : UInt32) (pos : ChunkPos) (hf : b.inner.isFirst=false)
    (hl : b.inner.isLast=false) :
    (b.setChunkMeta psn laddr raddr len pos).inner.laddr=laddr ∧
    (b.setChunkMeta psn laddr raddr len pos).inner.raddr=raddr ∧
    (b.setChunkMeta psn laddr raddr len pos).inner.len=len ∧
    ((b.setChunkMeta psn laddr raddr len pos).inner.isFirst=true ↔ pos=.first ∨ pos=.only) ∧
    ((b.setChunkMeta psn laddr raddr len pos).inner.isLast=true ↔ pos=.last ∨ pos=.only) := by
  cases pos <;> simp [setChunkMeta,hf,hl]

/-- The fields of the request stay as they were set. -/
theorem setChunkMeta_kept (b : WrChunkBuilder .withIbvParams) (psn : Psn) (laddr raddr : UInt64)
    (len : UInt32) (pos : ChunkPos) : (b.setChunkMeta psn laddr raddr len pos).inner=
      {b.inner with
        psn := psn
        laddr := laddr
        raddr := raddr
        len := len
        isFirst := (b.setChunkMeta psn laddr raddr len pos).inner.isFirst
        isLast := (b.setChunkMeta psn laddr raddr len pos).inner.isLast} := by
  cases pos <;> rfl

end WrChunkBuilder
end BlueRdma

import BlueRdma.RdmaUtils.Fragmenter
import BlueRdma.Workers.Tasks

namespace BlueRdma.RdmaWriteWorker

/-- The send event a signalled request of this kind completes with. -/
def sendEventOp : WorkReqOpCode → Option SendEventOp
  | .rdmaWrite | .rdmaWriteWithImm => some .writeSignaled
  | .send | .sendWithImm => some .sendSignaled
  | .rdmaRead => some .readSignaled
  | _ => none

/-- The single packet of a read request. -/
def readChunk (wr : SendWrRdma) (qpParams : QpParams) (psn : Psn) : WrChunk :=
  WrChunkBuilder.newWithOpcode .rdmaRead
    |>.setQpParams qpParams
    |>.setIbvParams wr.sendFlags.toUInt8 wr.rkey wr.length wr.lkey wr.imm
    |>.setChunkMeta psn wr.laddr wr.raddr wr.length .only
    |>.build

/-- What a read that got its PSN sends; nothing when it is signalled and the QP has no send
completion queue. -/
def readMsgs (qp : QpAttr) (wr : SendWrRdma) (msn : UInt16) (psn : Psn) : List Msg :=
  let qpParams := QpParams.ofAttr msn qp
  let request : List Msg := [.retransmit (.newWr ⟨psn,wr,qpParams⟩),.chunk (readChunk wr qpParams psn)]
  if wr.signaled then
    match qp.sendCq with
    | none => []
    | some _ =>
      .completion (.register (.send ⟨.readSignaled,⟨msn,psn+(1 : UInt32)⟩,wr.wrId⟩))::
        .timeout .newAckReq::request
  else request

def rdmaRead (qp : QpAttr) (ctx : SendQueueContext) (wr : SendWrRdma) :
    Outcome Msg SendQueueContext :=
  match ctx.nextWr 1 with
  | (ctx,none) => ⟨[],some ctx⟩
  | (ctx,some (msn,psn)) => ⟨readMsgs qp wr msn psn,some ctx⟩

/-- The retransmission entry and the chunks; the thread panics on an unknown path MTU. -/
def transmit (wr : SendWrRdma) (qpParams : QpParams) (psn : Psn) (ctx : SendQueueContext) :
    Outcome Msg SendQueueContext :=
  match wrChunkFragmenter wr qpParams psn with
  | none => ⟨[.retransmit (.newWr ⟨psn,wr,qpParams⟩)],none⟩
  | some chunks => ⟨.retransmit (.newWr ⟨psn,wr,qpParams⟩)::chunks.map .chunk,some ctx⟩

/-- A signalled request whose fragmentation is empty is dropped after its event has been
registered. -/
def transmitSignaled (wr : SendWrRdma) (qpParams : QpParams) (psn : Psn) (event : SendEvent)
    (ctx : SendQueueContext) : Outcome Msg SendQueueContext :=
  let register : Msg := .completion (.register (.send event))
  match wrPacketFragmenter wr qpParams psn with
  | none => ⟨[register],none⟩
  | some [] => ⟨[register],some ctx⟩
  | some (_::_) =>
    let o := transmit wr qpParams psn ctx
    ⟨register::.timeout .newAckReq::o.msgs,o.next⟩

def write (qp : QpAttr) (ctx : SendQueueContext) (wr : SendWrRdma) :
    Outcome Msg SendQueueContext :=
  match numPsn qp.pmtu wr.raddr wr.length with
  | none => ⟨[],some ctx⟩
  | some n => match ctx.nextWr n with
    | (ctx,none) => ⟨[],some ctx⟩
    | (ctx,some (msn,psn)) =>
      let qpParams := QpParams.ofAttr msn qp
      if wr.signaled then
        match qp.sendCq,sendEventOp wr.opcode with
        | some _,some op => transmitSignaled wr qpParams psn ⟨op,⟨msn,psn+n⟩,wr.wrId⟩ ctx
        | _,_ => ⟨[],some ctx⟩
      else transmit wr qpParams psn ctx

/-- `RdmaWriteWorker::process` for the send queue of one QP. Errors of a request are dropped;
an opcode the worker does not know panics. -/
def process (qp : QpAttr) (ctx : SendQueueContext) :
    RdmaWriteTask → Outcome Msg SendQueueContext
  | .write wr => match wr.opcode with
    | .rdmaWrite | .rdmaWriteWithImm | .send | .sendWithImm | .rdmaReadResp => write qp ctx wr
    | .rdmaRead => rdmaRead qp ctx wr
    | _ => ⟨[],none⟩
  | .ack basePsn => ⟨[],some (ctx.updatePsnAcked basePsn)⟩
  | .newComplete msn => ⟨[],some (ctx.updateMsnAcked msn)⟩

/-- PSNs a work request is charged for; `none` when it is refused before it gets any. -/
def psnCount (qp : QpAttr) (wr : SendWrRdma) : Option UInt32 :=
  match wr.opcode with
  | .rdmaWrite | .rdmaWriteWithImm | .send | .sendWithImm | .rdmaReadResp =>
    numPsn qp.pmtu wr.raddr wr.length
  | .rdmaRead => some 1
  | _ => none

/-- The send queue has room for the work request. -/
def accepts (qp : QpAttr) (ctx : SendQueueContext) (wr : SendWrRdma) : Bool :=
  (psnCount qp wr).any (fun n => (ctx.nextWr n).2.isSome)

/-- The general form of what an accepted work request sends. -/
def requestMsgs (qp : QpAttr) (wr : SendWrRdma) (n : UInt32) (msn : UInt16) (psn : Psn)
    (op : Option SendEventOp) (timer stored : Bool) (chunks : List WrChunk) : List Msg :=
  (op.map (fun op => Msg.completion (.register (.send ⟨op,⟨msn,psn+n⟩,wr.wrId⟩)))).toList++
  (if timer then [.timeout .newAckReq] else [])++
  (if stored then [.retransmit (.newWr ⟨psn,wr,QpParams.ofAttr msn qp⟩)] else [])++
  chunks.map .chunk

/-- The worker takes a work request with PSNs from `psn` on and the MSN `msn`. -/
structure Accepts (qp : QpAttr) (ctx : SendQueueContext) (wr : SendWrRdma) (n : UInt32)
    (msn : UInt16) (psn : Psn) (o : Outcome Msg SendQueueContext) : Prop where
  count : psnCount qp wr=some n
  assigned : (ctx.nextWr n).2=some (msn,psn)
  next : o.next=some (ctx.nextWr n).1 ∨ o.next=none
  msgs : ∃ op timer stored chunks,o.msgs=requestMsgs qp wr n msn psn op timer stored chunks ∧
    (∀ x∈op,wr.signaled=true ∧ sendEventOp wr.opcode=some x) ∧
    (wr.opcode=.rdmaRead → wr.signaled=true → o.msgs≠[] → op=some .readSignaled)

theorem transmit_accepts (qp : QpAttr) (wr : SendWrRdma) (n : UInt32) (msn : UInt16) (psn : Psn)
    (ctx : SendQueueContext) :
    ((transmit wr (QpParams.ofAttr msn qp) psn ctx).next=some ctx ∨
      (transmit wr (QpParams.ofAttr msn qp) psn ctx).next=none) ∧
    ∃ chunks,(transmit wr (QpParams.ofAttr msn qp) psn ctx).msgs=
      requestMsgs qp wr n msn psn none false true chunks := by
  unfold transmit
  split
  · exact ⟨Or.inr rfl,[],rfl⟩
  · next chunks _ => exact ⟨Or.inl rfl,chunks,rfl⟩

theorem transmitSignaled_accepts (qp : QpAttr) (wr : SendWrRdma) (n : UInt32) (msn : UInt16)
    (psn : Psn) (op : SendEventOp) (ctx : SendQueueContext) (o : Outcome Msg SendQueueContext)
    (ho : o=transmitSignaled wr (QpParams.ofAttr msn qp) psn ⟨op,⟨msn,psn+n⟩,wr.wrId⟩ ctx) :
    (o.next=some ctx ∨ o.next=none) ∧
    ∃ timer stored chunks,o.msgs=requestMsgs qp wr n msn psn (some op) timer stored chunks := by
  subst ho
  unfold transmitSignaled
  split
  · exact ⟨Or.inr rfl,false,false,[],rfl⟩
  · exact ⟨Or.inl rfl,false,false,[],rfl⟩
  · obtain ⟨hnext,chunks,hmsgs⟩ := transmit_accepts qp wr n msn psn ctx
    refine ⟨hnext,true,true,chunks,?_⟩
    dsimp only
    rw [hmsgs]
    rfl

theorem write_cases (qp : QpAttr) (ctx : SendQueueContext) (wr : SendWrRdma)
    (hcount : psnCount qp wr=numPsn qp.pmtu wr.raddr wr.length) (hop : wr.opcode≠.rdmaRead) :
    write qp ctx wr=⟨[],some ctx⟩ ∧ accepts qp ctx wr=false ∨
      ∃ n msn psn,Accepts qp ctx wr n msn psn (write qp ctx wr) := by
  unfold write
  split
  · next hn => exact Or.inl ⟨rfl,by rw [accepts,hcount,hn]; rfl⟩
  next n hn =>
  split
  · next ctx' hnone =>
      have hsame := ctx.nextWr_none n (by rw [hnone])
      rw [hnone] at hsame
      refine Or.inl ⟨by rw [show ctx'=ctx from hsame],?_⟩
      rw [accepts,hcount,hn,Option.any_some,hnone]
      rfl
  next ctx' msn psn hsome =>
  have hctx : (ctx.nextWr n).1=ctx' := by rw [hsome]
  refine Or.inr ⟨n,msn,psn,hcount.trans hn,by rw [hsome],?_,?_⟩
  · rw [hctx]
    dsimp only
    split_ifs
    · split
      · exact (transmitSignaled_accepts qp wr n msn psn _ ctx' _ rfl).1
      · exact Or.inl rfl
    · exact (transmit_accepts qp wr n msn psn ctx').1
  · dsimp only
    split_ifs with hsig
    · split
      · next op _ hevent =>
          obtain ⟨-,timer,stored,chunks,hmsgs⟩ :=
            transmitSignaled_accepts qp wr n msn psn op ctx' _ rfl
          refine ⟨some op,timer,stored,chunks,hmsgs,?_,fun h => absurd h hop⟩
          rintro x ⟨⟩
          exact ⟨hsig,hevent⟩
      · exact ⟨none,false,false,[],rfl,by simp,fun h => absurd h hop⟩
    · obtain ⟨-,chunks,hmsgs⟩ := transmit_accepts qp wr n msn psn ctx'
      exact ⟨none,false,true,chunks,hmsgs,by simp,fun h => absurd h hop⟩

theorem rdmaRead_cases (qp : QpAttr) (ctx : SendQueueContext) (wr : SendWrRdma)
    (hop : wr.opcode=.rdmaRead) :
    rdmaRead qp ctx wr=⟨[],some ctx⟩ ∧ accepts qp ctx wr=false ∨
      ∃ n msn psn,Accepts qp ctx wr n msn psn (rdmaRead qp ctx wr) := by
  have hcount : psnCount qp wr=some 1 := by rw [psnCount,hop]
  unfold rdmaRead
  split
  · next ctx' hnone =>
      have hsame := ctx.nextWr_none 1 (by rw [hnone])
      rw [hnone] at hsame
      refine Or.inl ⟨by rw [show ctx'=ctx from hsame],?_⟩
      rw [accepts,hcount,Option.any_some,hnone]
      rfl
  next ctx' msn psn hsome =>
  refine Or.inr ⟨1,msn,psn,hcount,by rw [hsome],Or.inl (by rw [hsome]),?_⟩
  dsimp only [readMsgs]
  split_ifs with hsig
  · split
    · exact ⟨none,false,false,[],rfl,by simp,fun _ _ h => absurd rfl h⟩
    · refine ⟨some .readSignaled,true,true,[readChunk wr (QpParams.ofAttr msn qp) psn],rfl,?_,
        fun _ _ _ => rfl⟩
      rintro x ⟨⟩
      exact ⟨hsig,by rw [hop]; rfl⟩
  · exact ⟨none,false,true,[readChunk wr (QpParams.ofAttr msn qp) psn],rfl,by simp,
      fun _ h => absurd h hsig⟩

/-- A posted work request is refused without a trace, kills the worker, or is accepted. -/
theorem process_write (qp : QpAttr) (ctx : SendQueueContext) (wr : SendWrRdma) :
    process qp ctx (.write wr)=⟨[],some ctx⟩ ∧ accepts qp ctx wr=false ∨
      process qp ctx (.write wr)=⟨[],none⟩ ∨
      ∃ n msn psn,Accepts qp ctx wr n msn psn (process qp ctx (.write wr)) := by
  have hwrite : psnCount qp wr=numPsn qp.pmtu wr.raddr wr.length → wr.opcode≠.rdmaRead →
      process qp ctx (.write wr)=write qp ctx wr →
      process qp ctx (.write wr)=⟨[],some ctx⟩ ∧ accepts qp ctx wr=false ∨
      process qp ctx (.write wr)=⟨[],none⟩ ∨
      ∃ n msn psn,Accepts qp ctx wr n msn psn (process qp ctx (.write wr)) := by
    intro hcount hop hp
    rw [hp]
    rcases write_cases qp ctx wr hcount hop with h|h
    · exact Or.inl h
    · exact Or.inr (Or.inr h)
  cases hop : wr.opcode
  case rdmaWrite | rdmaWriteWithImm | send | sendWithImm | rdmaReadResp =>
    exact hwrite (by simp only [psnCount,hop]) (by rw [hop]; decide) (by simp only [process,hop])
  case rdmaRead =>
    rw [show process qp ctx (.write wr)=rdmaRead qp ctx wr by simp only [process,hop]]
    rcases rdmaRead_cases qp ctx wr hop with h|h
    · exact Or.inl h
    · exact Or.inr (Or.inr h)
  all_goals exact Or.inr (Or.inl (by simp only [process,hop]))

theorem Accepts.accepts (qp : QpAttr) (ctx : SendQueueContext) (wr : SendWrRdma) (n : UInt32)
    (msn : UInt16) (psn : Psn) (o : Outcome Msg SendQueueContext)
    (h : Accepts qp ctx wr n msn psn o) : accepts qp ctx wr=true := by
  rw [RdmaWriteWorker.accepts,h.count,Option.any_some,h.assigned]
  rfl

/-- A worker that survives the request has moved past its numbers. -/
theorem Accepts.next_eq (qp : QpAttr) (ctx ctx' : SendQueueContext) (wr : SendWrRdma) (n : UInt32)
    (msn : UInt16) (psn : Psn) (o : Outcome Msg SendQueueContext)
    (h : Accepts qp ctx wr n msn psn o) (hnext : o.next=some ctx') : ctx'=(ctx.nextWr n).1 := by
  rcases h.next with hsome|hnone
  · exact Option.some.inj (hnext.symm.trans hsome)
  · cases hnext.symm.trans hnone

end BlueRdma.RdmaWriteWorker

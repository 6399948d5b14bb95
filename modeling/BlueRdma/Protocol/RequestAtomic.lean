import BlueRdma.Error
import BlueRdma.Workers.Device

namespace BlueRdma
namespace RdmaWriteWorker

/-- The kinds of errors with which a work request is refused. -/
inductive RequestError
  | invalidInput
  | unsupported
  deriving DecidableEq

/-- What `write` and `rdma_read` leave behind: the contexts of all QPs, the messages sent, and the
result. -/
abbrev Reply := Call (QpTable SendQueueContext × List Msg) RequestError Unit

def Reply.refused (t : QpTable SendQueueContext) (e : RequestError) : Reply :=
  ⟨(t,[]),some (.error e)⟩

/-- A request that went through to its last message or to a panic. The outcome's context is not
used: the table has it already. -/
def Reply.sent (t : QpTable SendQueueContext) (o : Outcome Msg SendQueueContext) : Reply :=
  ⟨(t,o.msgs),o.next.map (fun _ => .ok ())⟩

/-- `get_qp_mut(qpn).and_then(|ctx| ctx.next_wr(num_psn))`. -/
def nextWrOf (t : QpTable SendQueueContext) (qpn : UInt32) (n : UInt32) :
    QpTable SendQueueContext × Option (UInt16 × Psn) :=
  match QpTable.index? qpn with
  | none => (t,none)
  | some i => (Function.update t i ((t i).nextWr n).1,((t i).nextWr n).2)

def rdmaReadCall (attrs : QpTable QpAttr) (t : QpTable SendQueueContext) (qpn : UInt32)
    (wr : SendWrRdma) : Reply :=
  match attrs.getQp qpn with
  | none => .refused t .invalidInput
  | some qp => match nextWrOf t qpn 1 with
    | (t,none) => .refused t .invalidInput
    | (t,some (msn,psn)) =>
      let qpParams := QpParams.ofAttr msn qp
      let request : List Msg :=
        [.retransmit (.newWr ⟨psn,wr,qpParams⟩),.chunk (readChunk wr qpParams psn)]
      if wr.signaled then
        match qp.sendCq with
        | none => .refused t .invalidInput
        | some _ =>
          ⟨(t,.completion (.register (.send ⟨.readSignaled,⟨msn,psn+(1 : UInt32)⟩,wr.wrId⟩))::
            .timeout .newAckReq::request),some (.ok ())⟩
      else ⟨(t,request),some (.ok ())⟩

def writeCall (attrs : QpTable QpAttr) (t : QpTable SendQueueContext) (qpn : UInt32)
    (wr : SendWrRdma) : Reply :=
  match attrs.getQp qpn with
  | none => .refused t .invalidInput
  | some qp => match numPsn qp.pmtu wr.raddr wr.length with
    | none => .refused t .invalidInput
    | some n => match nextWrOf t qpn n with
      | (t,none) => .refused t .invalidInput
      | (t,some (msn,psn)) =>
        let qpParams := QpParams.ofAttr msn qp
        if wr.signaled then
          match qp.sendCq with
          | none => .refused t .invalidInput
          | some _ => match sendEventOp wr.opcode with
            | none => .refused t .unsupported
            | some op => .sent t (transmitSignaled wr qpParams psn ⟨op,⟨msn,psn+n⟩,wr.wrId⟩ .init)
        else .sent t (transmit wr qpParams psn .init)

/-- The two functions that send a work request. -/
inductive SendCall
  | write
  | rdmaRead
  deriving DecidableEq

def SendCall.run : SendCall → QpTable QpAttr → QpTable SendQueueContext → UInt32 → SendWrRdma → Reply
  | .write => writeCall
  | .rdmaRead => rdmaReadCall

/-- PSNs the function asks for. -/
def SendCall.psns : SendCall → QpAttr → SendWrRdma → Option UInt32
  | .write,qp,wr => numPsn qp.pmtu wr.raddr wr.length
  | .rdmaRead,_,_ => some 1

/-- The completion of the request cannot be delivered: it is signalled, and there is no send
completion queue or no event for its opcode. -/
def SendCall.Undeliverable (f : SendCall) (qp : QpAttr) (wr : SendWrRdma) : Prop :=
  wr.signaled=true ∧ (qp.sendCq=none ∨ f=.write ∧ sendEventOp wr.opcode=none)

instance (f : SendCall) (qp : QpAttr) (wr : SendWrRdma) : Decidable (f.Undeliverable qp wr) :=
  inferInstanceAs (Decidable (_ ∧ (_ ∨ _ ∧ _)))

/-- The windows of the send queue leave room for `n` PSNs and a message. -/
def Room (ctx : SendQueueContext) (n : UInt32) : Prop :=
  (ctx.psn-ctx.psnAcked+n).toNat ≤ maxPsnWindow ∧ (ctx.msn-ctx.msnAcked).toNat < maxSendWr

/-- The request gets its PSNs before the function finds out that it must refuse it. -/
def SendCall.Late (f : SendCall) (attrs : QpTable QpAttr) (t : QpTable SendQueueContext)
    (qpn : UInt32) (wr : SendWrRdma) : Prop :=
  ∃ i n,QpTable.index? qpn=some i ∧ f.psns (attrs i) wr=some n ∧ Room (t i) n ∧
    f.Undeliverable (attrs i) wr

/-- A call that got PSNs for a QP and fails exactly under the condition `late`. -/
structure Taken (late : Prop) (t : QpTable SendQueueContext) (i : Fin maxQpCnt) (n : UInt32)
    (r : Reply) : Prop where
  room : Room (t i) n
  table : r.next.1=Function.update t i ((t i).nextWr n).1
  error : (∃ e,r.result=some (.error e)) ↔ late

/-- A call is refused before it got PSNs, or it got them. -/
inductive Outcomes (f : SendCall) (attrs : QpTable QpAttr) (t : QpTable SendQueueContext)
    (qpn : UInt32) (wr : SendWrRdma) (r : Reply) : Prop
  | refused (e : RequestError) (hr : r=.refused t e) (h : ¬f.Late attrs t qpn wr)
  | taken (i : Fin maxQpCnt) (n : UInt32) (hi : QpTable.index? qpn=some i)
      (hn : f.psns (attrs i) wr=some n) (h : Taken (f.Undeliverable (attrs i) wr) t i n r)

theorem nextWr_ne (ctx : SendQueueContext) (n : UInt32) (h : Room ctx n) : (ctx.nextWr n).1≠ctx := by
  intro heq
  obtain ⟨⟨m,p⟩,hmp⟩ := Option.isSome_iff_exists.mp ((ctx.nextWr_isSome n).mpr h)
  obtain ⟨-,-,hnext,-,-⟩ := ctx.nextWr_some n m p hmp
  have hmsn := congrArg SendQueueContext.msn (hnext.symm.trans heq)
  have hone : ctx.msn+1-ctx.msn=0 := by
    change ctx.msn+1=ctx.msn at hmsn
    rw [hmsn,UInt16.sub_self]
  rw [UInt16.add_comm,UInt16.add_sub_cancel] at hone
  exact absurd hone (by decide)

/-- Once the PSNs are taken a refusal leaves a trace. -/
theorem Taken.untouched_iff (late : Prop) (t : QpTable SendQueueContext) (i : Fin maxQpCnt)
    (n : UInt32) (r : Reply) (h : Taken late t i n r) :
    (∀ e,r.result=some (.error e) → r.next=(t,[])) ↔ ¬late := by
  constructor
  · intro hclean hlate
    obtain ⟨e,he⟩ := h.error.mpr hlate
    have htable := h.table
    rw [hclean e he] at htable
    have hi := congrFun htable i
    rw [Function.update_self] at hi
    exact nextWr_ne (t i) n h.room hi.symm
  · intro hlate e he
    exact absurd (h.error.mp ⟨e,he⟩) hlate

theorem not_late_of_index (f : SendCall) (attrs : QpTable QpAttr) (t : QpTable SendQueueContext)
    (qpn : UInt32) (wr : SendWrRdma) (hi : QpTable.index? qpn=none) : ¬f.Late attrs t qpn wr := by
  intro hlate
  obtain ⟨i,n,h,-⟩ := hlate
  rw [hi] at h
  cases h

theorem late_room (f : SendCall) (attrs : QpTable QpAttr) (t : QpTable SendQueueContext)
    (qpn : UInt32) (wr : SendWrRdma) (i : Fin maxQpCnt) (n : UInt32)
    (hi : QpTable.index? qpn=some i) (hn : f.psns (attrs i) wr=some n)
    (h : f.Late attrs t qpn wr) : Room (t i) n := by
  obtain ⟨j,k,hj,hk,hroom,-⟩ := h
  obtain rfl : i=j := Option.some.inj (hi.symm.trans hj)
  obtain rfl : n=k := Option.some.inj (hn.symm.trans hk)
  exact hroom

/-- A full window refuses the request and leaves the contexts alone. -/
theorem nextWrOf_full (t : QpTable SendQueueContext) (qpn : UInt32) (i : Fin maxQpCnt)
    (n : UInt32) (hi : QpTable.index? qpn=some i) (h : ¬Room (t i) n) : nextWrOf t qpn n=(t,none) := by
  have hnone : ((t i).nextWr n).2=none := by
    rw [← Option.not_isSome_iff_eq_none,(t i).nextWr_isSome n]
    exact h
  rw [nextWrOf,hi]
  dsimp only
  rw [hnone,(t i).nextWr_none n hnone,Function.update_eq_self]

theorem nextWrOf_room (t : QpTable SendQueueContext) (qpn : UInt32) (i : Fin maxQpCnt)
    (n : UInt32) (hi : QpTable.index? qpn=some i) (h : Room (t i) n) :
    ∃ msn psn,nextWrOf t qpn n=
      (Function.update t i ((t i).nextWr n).1,some (msn,psn)) := by
  obtain ⟨⟨m,p⟩,hmp⟩ := Option.isSome_iff_exists.mp (((t i).nextWr_isSome n).mpr h)
  refine ⟨m,p,?_⟩
  rw [nextWrOf,hi]
  dsimp only
  rw [hmp]

theorem sent_ok (t : QpTable SendQueueContext) (o : Outcome Msg SendQueueContext)
    (e : RequestError) : (Reply.sent t o).result≠some (.error e) := by
  rw [Reply.sent]
  cases o.next <;> simp

theorem rdmaReadCall_outcomes (attrs : QpTable QpAttr) (t : QpTable SendQueueContext)
    (qpn : UInt32) (wr : SendWrRdma) :
    Outcomes .rdmaRead attrs t qpn wr (rdmaReadCall attrs t qpn wr) := by
  rcases hi : QpTable.index? qpn with _|i
  · exact .refused .invalidInput (by simp [rdmaReadCall,QpTable.getQp,hi])
      (not_late_of_index .rdmaRead attrs t qpn wr hi)
  have hqp := attrs.getQp_of_index qpn i hi
  by_cases hroom : Room (t i) 1
  · obtain ⟨msn,psn,hnext⟩ := nextWrOf_room t qpn i 1 hi hroom
    refine .taken i 1 hi rfl ?_
    rw [rdmaReadCall,hqp]
    dsimp only
    rw [hnext]
    dsimp only
    split_ifs with hsig
    · rcases hcq : (attrs i).sendCq with _|cq
      · exact ⟨hroom,rfl,by simp [Reply.refused,SendCall.Undeliverable,hsig,hcq]⟩
      · exact ⟨hroom,rfl,by simp [SendCall.Undeliverable,hcq]⟩
    · exact ⟨hroom,rfl,by simp [SendCall.Undeliverable,hsig]⟩
  · refine .refused .invalidInput ?_ ?_
    · rw [rdmaReadCall,hqp]
      dsimp only
      rw [nextWrOf_full t qpn i 1 hi hroom]
    · intro hlate
      exact hroom (late_room .rdmaRead attrs t qpn wr i 1 hi rfl hlate)

theorem writeCall_outcomes (attrs : QpTable QpAttr) (t : QpTable SendQueueContext)
    (qpn : UInt32) (wr : SendWrRdma) :
    Outcomes .write attrs t qpn wr (writeCall attrs t qpn wr) := by
  rcases hi : QpTable.index? qpn with _|i
  · exact .refused .invalidInput (by simp [writeCall,QpTable.getQp,hi])
      (not_late_of_index .write attrs t qpn wr hi)
  have hqp := attrs.getQp_of_index qpn i hi
  rcases hn : numPsn (attrs i).pmtu wr.raddr wr.length with _|n
  · refine .refused .invalidInput (by simp [writeCall,hqp,hn]) ?_
    rintro ⟨j,n,hj,h,-⟩
    obtain rfl : i=j := Option.some.inj (hi.symm.trans hj)
    rw [SendCall.psns,hn] at h
    cases h
  by_cases hroom : Room (t i) n
  · obtain ⟨msn,psn,hnext⟩ := nextWrOf_room t qpn i n hi hroom
    refine .taken i n hi hn ?_
    rw [writeCall,hqp]
    dsimp only
    rw [hn]
    dsimp only
    rw [hnext]
    dsimp only
    split_ifs with hsig
    · rcases hcq : (attrs i).sendCq with _|cq
      · exact ⟨hroom,rfl,by simp [Reply.refused,SendCall.Undeliverable,hsig,hcq]⟩
      · rcases hop : sendEventOp wr.opcode with _|op
        · exact ⟨hroom,rfl,by simp [Reply.refused,SendCall.Undeliverable,hsig,hop]⟩
        · exact ⟨hroom,rfl,by simp [SendCall.Undeliverable,hcq,hop,sent_ok]⟩
    · exact ⟨hroom,rfl,by simp [SendCall.Undeliverable,hsig,sent_ok]⟩
  · refine .refused .invalidInput ?_ ?_
    · rw [writeCall,hqp]
      dsimp only
      rw [hn]
      dsimp only
      rw [nextWrOf_full t qpn i n hi hroom]
    · intro hlate
      exact hroom (late_room .write attrs t qpn wr i n hi hn hlate)

/-- What `transmit` does depends on the context only in that it hands it on. -/
theorem transmit_context (wr : SendWrRdma) (q : QpParams) (psn : Psn) (ctx ctx' : SendQueueContext) :
    (transmit wr q psn ctx).msgs=(transmit wr q psn ctx').msgs ∧
    (transmit wr q psn ctx).next=(transmit wr q psn ctx').next.map (fun _ => ctx) := by
  unfold transmit
  split <;> exact ⟨rfl,rfl⟩

theorem transmitSignaled_context (wr : SendWrRdma) (q : QpParams) (psn : Psn) (e : SendEvent)
    (ctx ctx' : SendQueueContext) :
    (transmitSignaled wr q psn e ctx).msgs=(transmitSignaled wr q psn e ctx').msgs ∧
    (transmitSignaled wr q psn e ctx).next=
      (transmitSignaled wr q psn e ctx').next.map (fun _ => ctx) := by
  unfold transmitSignaled
  split
  · exact ⟨rfl,rfl⟩
  · exact ⟨rfl,rfl⟩
  · obtain ⟨hmsgs,hnext⟩ := transmit_context wr q psn ctx ctx'
    exact ⟨by dsimp only; rw [hmsgs],hnext⟩

/-- What the worker's loop keeps of a call. -/
def Reply.outcome (qpn : UInt32) (r : Reply) : Outcome QpMsg (QpTable SendQueueContext) :=
  ⟨r.next.2.map (fun m => (qpn,m)),r.result.map (fun _ => r.next.1)⟩

theorem outcome_sent (qpn : UInt32) (t : QpTable SendQueueContext) (i : Fin maxQpCnt)
    (ctx : SendQueueContext) (o o' : Outcome Msg SendQueueContext) (hmsgs : o.msgs=o'.msgs)
    (hnext : o.next=o'.next.map (fun _ => ctx)) :
    (⟨o.msgs.map (fun m => (qpn,m)),o.next.map (Function.update t i)⟩ :
      Outcome QpMsg (QpTable SendQueueContext))=
      (Reply.sent (Function.update t i ctx) o').outcome qpn := by
  rw [Reply.outcome,Reply.sent,hmsgs,hnext]
  dsimp only
  rw [Option.map_map,Option.map_map]
  rfl

theorem writeCall_outcome (attrs : QpTable QpAttr) (t : QpTable SendQueueContext) (qpn : UInt32)
    (wr : SendWrRdma) (i : Fin maxQpCnt) (hi : QpTable.index? qpn=some i) :
    (writeCall attrs t qpn wr).outcome qpn=
      ⟨(write (attrs i) (t i) wr).msgs.map (fun m => (qpn,m)),
        (write (attrs i) (t i) wr).next.map (Function.update t i)⟩ := by
  have hqp := attrs.getQp_of_index qpn i hi
  rw [writeCall,hqp,write]
  dsimp only
  rcases hn : numPsn (attrs i).pmtu wr.raddr wr.length with _|n
  · simp [Reply.outcome,Reply.refused]
  dsimp only
  rw [nextWrOf,hi]
  dsimp only
  rcases hr : (t i).nextWr n with ⟨ctx,_|⟨msn,psn⟩⟩
  · simp [Reply.outcome,Reply.refused]
  dsimp only
  split_ifs with hsig
  · rcases hcq : (attrs i).sendCq with _|cq
    · simp [Reply.outcome,Reply.refused]
    rcases hop : sendEventOp wr.opcode with _|op
    · simp [Reply.outcome,Reply.refused]
    obtain ⟨hmsgs,hnext⟩ := transmitSignaled_context wr (QpParams.ofAttr msn (attrs i)) psn
      ⟨op,⟨msn,psn+n⟩,wr.wrId⟩ ctx .init
    exact (outcome_sent qpn t i ctx _ _ hmsgs hnext).symm
  · obtain ⟨hmsgs,hnext⟩ := transmit_context wr (QpParams.ofAttr msn (attrs i)) psn ctx .init
    exact (outcome_sent qpn t i ctx _ _ hmsgs hnext).symm

theorem rdmaReadCall_outcome (attrs : QpTable QpAttr) (t : QpTable SendQueueContext)
    (qpn : UInt32) (wr : SendWrRdma) (i : Fin maxQpCnt) (hi : QpTable.index? qpn=some i) :
    (rdmaReadCall attrs t qpn wr).outcome qpn=
      ⟨(rdmaRead (attrs i) (t i) wr).msgs.map (fun m => (qpn,m)),
        (rdmaRead (attrs i) (t i) wr).next.map (Function.update t i)⟩ := by
  have hqp := attrs.getQp_of_index qpn i hi
  rw [rdmaReadCall,hqp,rdmaRead,nextWrOf,hi]
  dsimp only
  rcases hr : (t i).nextWr 1 with ⟨ctx,_|⟨msn,psn⟩⟩
  · simp [Reply.outcome,Reply.refused]
  dsimp only [readMsgs]
  split_ifs with hsig
  · rcases hcq : (attrs i).sendCq with _|cq <;> simp [Reply.outcome,Reply.refused]
  · simp [Reply.outcome]

/-- The worker's loop calls `rdma_read` for reads and `write` for the other requests it knows,
and drops the result. -/
theorem processTable_call (attrs : QpTable QpAttr) (t : QpTable SendQueueContext)
    (c : Fin maxQpCnt → Nat) (qpn : UInt32) (wr : SendWrRdma)
    (hop : wr.opcode=.rdmaReadResp ∨ sendEventOp wr.opcode≠none) :
    Driver.processTable attrs .rdmaWrite c t (qpn,.rdma (.write wr))=
      ((if wr.opcode=.rdmaRead then SendCall.rdmaRead else .write).run attrs t qpn wr).outcome
        qpn := by
  rcases hi : QpTable.index? qpn with _|i
  · have hqp : attrs.getQp qpn=none := by rw [QpTable.getQp,hi]; rfl
    rw [Driver.processTable,hi]
    dsimp only
    cases hk : wr.opcode <;>
      simp_all [Driver.processUnknown,SendCall.run,writeCall,rdmaReadCall,Reply.refused,
        Reply.outcome,sendEventOp]
  · rw [Driver.processTable,hi]
    dsimp only [Driver.process]
    cases hk : wr.opcode
    case rdmaRead =>
      rw [if_pos rfl,SendCall.run,rdmaReadCall_outcome attrs t qpn wr i hi,process]
      rw [hk]
    case rdmaWrite | rdmaWriteWithImm | send | sendWithImm | rdmaReadResp =>
      rw [if_neg (by decide),SendCall.run,writeCall_outcome attrs t qpn wr i hi,process]
      rw [hk]
    all_goals simp [hk,sendEventOp] at hop

/-- A refused work request leaves no trace exactly when the refusal does not come after the PSNs
have been taken. -/
theorem rejected_untouched_iff (f : SendCall) (attrs : QpTable QpAttr)
    (t : QpTable SendQueueContext) (qpn : UInt32) (wr : SendWrRdma) :
    (∀ e,(f.run attrs t qpn wr).result=some (.error e) → (f.run attrs t qpn wr).next=(t,[])) ↔
      ¬f.Late attrs t qpn wr := by
  have hout : Outcomes f attrs t qpn wr (f.run attrs t qpn wr) := by
    cases f with
    | write => exact writeCall_outcomes attrs t qpn wr
    | rdmaRead => exact rdmaReadCall_outcomes attrs t qpn wr
  rcases hout with ⟨e,hr,hlate⟩|⟨i,n,hi,hn,h⟩
  · rw [hr]
    exact iff_of_true (fun _ _ => rfl) hlate
  · rw [h.untouched_iff]
    constructor
    · rintro hnot ⟨j,k,hj,-,-,hu⟩
      obtain rfl : i=j := Option.some.inj (hi.symm.trans hj)
      exact hnot hu
    · intro hlate hu
      exact hlate ⟨i,n,hi,hn,h.room,hu⟩

/-- A signalled write on a QP that has no send completion queue. -/
theorem refused_write_takes_psn :
    let attrs : QpTable QpAttr := .newWith {shortPathQp with sendCq := none}
    let r := writeCall attrs (.newWith .init) 0x100 (shortWrite 0x2000 256)
    r.result=some (.error .invalidInput) ∧ r.next.2=[] ∧
      r.next.1 ⟨1,by decide⟩=⟨1,⟨1⟩,⟨0⟩,0⟩ := by
  decide +kernel

end RdmaWriteWorker
end BlueRdma

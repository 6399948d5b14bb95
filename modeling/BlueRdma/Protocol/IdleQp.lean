import Mathlib.Logic.Relation
import BlueRdma.Protocol.PathMtu
import BlueRdma.Protocol.SendSide
import BlueRdma.Workers.Driver

namespace BlueRdma

namespace Driver

/-- Acknowledgements for the send worker. -/
def ackOf : Msg → Option Psn
  | .rdma (.ack p) => some p
  | _ => none

/-- Completions the send worker is told of. -/
def doneOf : Msg → Option UInt16
  | .rdma (.newComplete m) => some m
  | _ => none

def noticeOf : Msg → Option SendNotice
  | .completion (.register (.send e)) => some (.register e)
  | .completion (.ackSend p) => some (.ack p)
  | _ => none

theorem dest_of_ackOf (m : Msg) (p : Psn) (h : ackOf m=some p) : dest m=some .rdmaWrite := by
  unfold ackOf at h
  split at h
  · rfl
  · cases h

theorem dest_of_doneOf (m : Msg) (k : UInt16) (h : doneOf m=some k) : dest m=some .rdmaWrite := by
  unfold doneOf at h
  split at h
  · rfl
  · cases h

theorem dest_of_noticeOf (m : Msg) (x : SendNotice) (h : noticeOf m=some x) :
    dest m=some .completion := by
  unfold noticeOf at h
  split at h
  · rfl
  · rfl
  · cases h

theorem Emits.ackOf (w : Worker) (m : Msg) (h : Emits w m) (hw : w≠.metaReport) :
    ackOf m=none := by
  cases h <;> first | rfl | exact absurd rfl hw

theorem Emits.doneOf (w : Worker) (m : Msg) (h : Emits w m) (hw : w≠.completion) :
    doneOf m=none := by
  cases h <;> first | rfl | exact absurd rfl hw

theorem Emits.noticeOf (w : Worker) (m : Msg) (h : Emits w m) (hw : w≠.rdmaWrite)
    (hw' : w≠.metaReport) : noticeOf m=none := by
  cases h <;> first | rfl | exact absurd rfl hw | exact absurd rfl hw'

theorem External.silent (m : Msg) (h : External m=true) :
    ackOf m=none ∧ doneOf m=none ∧ noticeOf m=none := by
  unfold External at h
  split at h
  · exact ⟨rfl,rfl,rfl⟩
  · exact ⟨rfl,rfl,rfl⟩
  · exact ⟨rfl,rfl,rfl⟩
  · exact ⟨rfl,rfl,rfl⟩
  · cases h

/-- The three workers of the send side are alive. -/
structure Alive (n : Net Worker Worker.State Msg) (ctx : SendQueueContext) (h : MetaHandler)
    (t : QueuePairMessageTracker) : Prop where
  rdmaWrite : n.state .rdmaWrite=some ctx
  metaReport : n.state .metaReport=some h
  completion : n.state .completion=some t

/-- The send side of the QP as it stands in the workers and their channels. -/
def sendSide (n : Net Worker Worker.State Msg) (ctx : SendQueueContext) (h : MetaHandler)
    (t : QueuePairMessageTracker) : SendSide where
  ctx := ctx
  acks := (n.inbox .rdmaWrite).filterMap ackOf
  dones := (n.inbox .rdmaWrite).filterMap doneOf
  tracker := h.sendTable.psnTracker
  merged := t.merge.send
  waiting := t.send
  notices := (n.inbox .completion).filterMap noticeOf

/-- The work request the send worker takes up next, and the PSNs it is charged for. -/
def taking (qp : QpAttr) (n : Net Worker Worker.State Msg) : Option (SendWrRdma × UInt32) :=
  (n.inbox .rdmaWrite).head?.bind (fun
    | .rdma (.write wr) => (RdmaWriteWorker.psnCount qp wr).map (fun k => (wr,k))
    | _ => none)

/-- The report the meta report worker handles next. -/
def hearing (n : Net Worker Worker.State Msg) : Option ReportMeta :=
  (n.inbox .metaReport).head?.bind (fun | .report m => some m | _ => none)

end Driver

/-- The event an accepted request registers. -/
def RdmaWriteWorker.completes (qp : QpAttr) (wr : SendWrRdma) : Option SendEventOp :=
  if wr.signaled && qp.sendCq.isSome then sendEventOp wr.opcode else none

namespace Driver
open RdmaWriteWorker (completes)

/-- Work requests are paced, and acknowledgements name PSNs handed out and do not end at a PSN
recorded already. -/
def Paced (qp : QpAttr) (n : Net Worker Worker.State Msg) : NetLabel Worker Nat Msg → Prop
  | .post m => External m=true
  | .work .rdmaWrite _ => ∀ ctx∈n.state .rdmaWrite,∀ h∈n.state .metaReport,
      ∀ t∈n.state .completion,∀ r∈taking qp n,
        (sendSide n ctx h t).Paced r.2 r.1.signaled (completes qp r.1)
  | .work .metaReport _ => ∀ ctx∈n.state .rdmaWrite,∀ h∈n.state .metaReport,∀ m∈hearing n,
      m.Valid ∧ h.Unrecorded m ∧
        Run.Along PsnTracker.next (PsnTracker.Within ctx.psn) h.sendTable.psnTracker (h.sendCalls m)
  | _ => True

instance (qp : QpAttr) (n : Net Worker Worker.State Msg) (l : NetLabel Worker Nat Msg) :
    Decidable (Paced qp n l) :=
  match l with
  | .post m => inferInstanceAs (Decidable (External m=true))
  | .work .rdmaWrite _ => inferInstanceAs (Decidable (∀ ctx∈n.state .rdmaWrite,
      ∀ h∈n.state .metaReport,∀ t∈n.state .completion,∀ r∈taking qp n,
        (sendSide n ctx h t).Paced r.2 r.1.signaled (completes qp r.1)))
  | .work .metaReport _ => inferInstanceAs (Decidable (∀ ctx∈n.state .rdmaWrite,
      ∀ h∈n.state .metaReport,∀ m∈hearing n,m.Valid ∧ h.Unrecorded m ∧
        Run.Along PsnTracker.next (PsnTracker.Within ctx.psn) h.sendTable.psnTracker (h.sendCalls m)))
  | .work .completion _ | .work .packetRetransmit _ | .work .ackResponder _
  | .work .ackTimeout _ | .crash _ => inferInstanceAs (Decidable True)

/-- Every PSN handed out is recorded as acknowledged and all tasks of it are processed. -/
structure Idle (n : Net Worker Worker.State Msg) (ctx : SendQueueContext) (h : MetaHandler)
    (t : QueuePairMessageTracker) : Prop extends Alive n ctx h t where
  acked : h.sendTable.psnTracker.frontier=ctx.psn
  rdmaWriteDone : n.inbox .rdmaWrite=[]
  completionDone : n.inbox .completion=[]

end Driver

namespace RdmaWriteWorker
open Driver (noticeOf)

theorem transmit_notices (wr : SendWrRdma) (q : QpParams) (psn : Psn) (ctx : SendQueueContext) :
    (transmit wr q psn ctx).msgs.filterMap noticeOf=[] := by
  unfold transmit
  split
  · rfl
  · next chunks _ =>
      refine List.filterMap_eq_nil_iff.mpr ?_
      intro m hm
      rcases List.mem_cons.mp hm with rfl|hm
      · rfl
      · obtain ⟨c,-,rfl⟩ := List.mem_map.mp hm
        rfl

theorem transmitSignaled_notices (wr : SendWrRdma) (q : QpParams) (psn : Psn) (e : SendEvent)
    (ctx : SendQueueContext) :
    (transmitSignaled wr q psn e ctx).msgs.filterMap noticeOf=[.register e] := by
  unfold transmitSignaled
  split
  · rfl
  · rfl
  · exact congrArg (List.cons (SendNotice.register e)) (transmit_notices wr q psn ctx)

theorem write_notices (qp : QpAttr) (ctx : SendQueueContext) (wr : SendWrRdma) (n : UInt32)
    (msn : UInt16) (psn : Psn) (hn : numPsn qp.pmtu wr.raddr wr.length=some n)
    (hnext : (ctx.nextWr n).2=some (msn,psn)) :
    (write qp ctx wr).msgs.filterMap noticeOf=
      ((completes qp wr).map (fun op => SendNotice.register ⟨op,⟨msn,psn+n⟩,wr.wrId⟩)).toList := by
  obtain ⟨ctx',hctx⟩ : ∃ ctx',ctx.nextWr n=(ctx',some (msn,psn)) := ⟨_,Prod.ext rfl hnext⟩
  simp only [write,hn,hctx,completes]
  cases wr.signaled with
  | false => exact transmit_notices wr _ psn ctx'
  | true =>
      cases qp.sendCq with
      | none => rfl
      | some cq =>
          cases sendEventOp wr.opcode with
          | none => rfl
          | some op => exact transmitSignaled_notices wr _ psn _ ctx'

theorem rdmaRead_notices (qp : QpAttr) (ctx : SendQueueContext) (wr : SendWrRdma) (msn : UInt16)
    (psn : Psn) (hop : wr.opcode=.rdmaRead) (hnext : (ctx.nextWr 1).2=some (msn,psn)) :
    (rdmaRead qp ctx wr).msgs.filterMap noticeOf=
      ((completes qp wr).map (fun op =>
        SendNotice.register ⟨op,⟨msn,psn+(1 : UInt32)⟩,wr.wrId⟩)).toList := by
  obtain ⟨ctx',hctx⟩ : ∃ ctx',ctx.nextWr 1=(ctx',some (msn,psn)) := ⟨_,Prod.ext rfl hnext⟩
  simp only [rdmaRead,hctx,readMsgs,completes,hop]
  cases wr.signaled with
  | false => rfl
  | true => cases qp.sendCq <;> rfl

/-- An accepted request registers the event it completes with. -/
theorem Accepts.notices (qp : QpAttr) (ctx : SendQueueContext) (wr : SendWrRdma) (n : UInt32)
    (msn : UInt16) (psn : Psn) (h : Accepts qp ctx wr n msn psn (process qp ctx (.write wr))) :
    (process qp ctx (.write wr)).msgs.filterMap noticeOf=
      ((completes qp wr).map (fun op => SendNotice.register ⟨op,⟨msn,psn+n⟩,wr.wrId⟩)).toList := by
  have hcount := h.count
  cases hop : wr.opcode
  case rdmaWrite | rdmaWriteWithImm | send | sendWithImm | rdmaReadResp =>
    simp only [psnCount,hop] at hcount
    simp only [process,hop]
    exact write_notices qp ctx wr n msn psn hcount h.assigned
  case rdmaRead =>
    simp only [psnCount,hop,Option.some.injEq] at hcount
    subst hcount
    simp only [process,hop]
    exact rdmaRead_notices qp ctx wr msn psn hop h.assigned
  all_goals simp [psnCount,hop] at hcount

end RdmaWriteWorker

namespace MetaHandler
open Driver (ackOf noticeOf)

theorem senderUpdates_acks (x : Option Psn) :
    (onAdvance senderUpdates x).filterMap ackOf=x.toList := by
  cases x <;> rfl

theorem senderUpdates_notices (x : Option Psn) :
    (onAdvance senderUpdates x).filterMap noticeOf=(x.map SendNotice.ack).toList := by
  cases x <;> rfl

theorem ackRecvMsg_silent (x : Option Psn) :
    (onAdvance ackRecvMsg x).filterMap ackOf=[] ∧
      (onAdvance ackRecvMsg x).filterMap noticeOf=[] := by
  cases x <;> exact ⟨rfl,rfl⟩

theorem receiverUpdates_silent (x : Option Psn) :
    (onAdvance receiverUpdates x).filterMap ackOf=[] ∧
      (onAdvance receiverUpdates x).filterMap noticeOf=[] := by
  cases x <;> exact ⟨rfl,rfl⟩

/-- A report that is no business of the send side. -/
theorem sends_of_silent (h : MetaHandler) (m : ReportMeta) (hop : sendOp m=none)
    (hacks : (h.handleMeta m).msgs.filterMap ackOf=[])
    (hnotices : (h.handleMeta m).msgs.filterMap noticeOf=[]) :
    (h.handleMeta m).msgs.filterMap ackOf=
        (h.sendTable.psnTracker.applyAll (h.sendCalls m)).2.toList ∧
      (h.handleMeta m).msgs.filterMap noticeOf=
        ((h.sendTable.psnTracker.applyAll (h.sendCalls m)).2.map SendNotice.ack).toList := by
  rw [hacks,hnotices,sendCalls,hop]
  exact ⟨rfl,rfl⟩

/-- A report of the remote side. -/
theorem sends_of_op (h : MetaHandler) (m : ReportMeta) (op : RemoteAckOp) (hop : sendOp m=some op)
    (tail : List Msg) (hmsgs : (h.handleMeta m).msgs=
      .timeout .recvMeta::(onAdvance senderUpdates (h.sendTable.apply op).2++tail))
    (hacks : tail.filterMap ackOf=[]) (hnotices : tail.filterMap noticeOf=[]) :
    (h.handleMeta m).msgs.filterMap ackOf=
        (h.sendTable.psnTracker.applyAll (h.sendCalls m)).2.toList ∧
      (h.handleMeta m).msgs.filterMap noticeOf=
        ((h.sendTable.psnTracker.applyAll (h.sendCalls m)).2.map SendNotice.ack).toList := by
  rw [hmsgs,sendCalls,hop,Option.map_some,Option.getD_some,← h.sendTable.apply_eq op,
    List.filterMap_cons_none rfl,List.filterMap_cons_none rfl,List.filterMap_append,
    List.filterMap_append,hacks,hnotices,senderUpdates_acks,senderUpdates_notices,List.append_nil,
    List.append_nil]
  exact ⟨rfl,rfl⟩

/-- What the send-side tracker reports goes to the send worker and the completion worker, and
nothing else a report leads to acknowledges a request. -/
theorem handleMeta_sends (h : MetaHandler) (m : ReportMeta) :
    (h.handleMeta m).msgs.filterMap ackOf=
        (h.sendTable.psnTracker.applyAll (h.sendCalls m)).2.toList ∧
      (h.handleMeta m).msgs.filterMap noticeOf=
        ((h.sendTable.psnTracker.applyAll (h.sendCalls m)).2.map SendNotice.ack).toList := by
  cases m with
  | cnp => exact h.sends_of_silent _ rfl rfl rfl
  | ackLocalHw x =>
      obtain ⟨hacks,hnotices⟩ := receiverUpdates_silent (h.recvTable.ackBitmap x.psnNow x.nowBitmap).2
      refine h.sends_of_silent _ rfl ?_ ?_
      · simp only [handleMeta,handleAckLocalHw,List.filterMap_cons,ackOf,hacks]
      · simp only [handleMeta,handleAckLocalHw,List.filterMap_cons,noticeOf,hnotices]
  | nakLocalHw x =>
      obtain ⟨hacks,hnotices⟩ := receiverUpdates_silent
        (h.recvTable.nakBitmap x.psnPre x.preBitmap x.psnNow x.nowBitmap).2
      refine h.sends_of_silent _ rfl ?_ ?_
      · simp only [handleMeta,handleNakLocalHw,List.filterMap_cons,ackOf,hacks]
      · simp only [handleMeta,handleNakLocalHw,List.filterMap_cons,noticeOf,hnotices]
  | ackRemoteDriver x =>
      refine h.sends_of_op _ (.ackBefore x.psnNow) rfl [] ?_ rfl rfl
      rw [List.append_nil]
      rfl
  | nakRemoteHw x =>
      exact h.sends_of_op _ (.nakBitmap x.msn x.psnPre x.preBitmap x.psnNow x.nowBitmap) rfl _ rfl rfl
        rfl
  | nakRemoteDriver x => exact h.sends_of_op _ (.ackBefore x.psnPre) rfl _ rfl rfl rfl
  | headerRead x =>
      obtain ⟨hacks,hnotices⟩ := ackRecvMsg_silent (h.recvTable.ackOne x.psn).2
      refine h.sends_of_silent _ rfl ?_ ?_
      · simp only [handleMeta,handleHeaderRead]
        split_ifs
        · simp only [List.filterMap_cons,List.filterMap_append,hacks]
          rfl
        · rfl
      · simp only [handleMeta,handleHeaderRead]
        split_ifs
        · simp only [List.filterMap_cons,List.filterMap_append,hnotices]
          rfl
        · rfl
  | headerWrite x =>
      obtain ⟨hacks,hnotices⟩ := ackRecvMsg_silent (h.recvTable.ackOne x.psn).2
      refine h.sends_of_silent _ rfl ?_ ?_
      · simp only [handleMeta,handleHeaderWrite,List.filterMap_cons,List.filterMap_append,hacks]
        split_ifs <;> rfl
      · simp only [handleMeta,handleHeaderWrite,List.filterMap_cons,List.filterMap_append,hnotices]
        split_ifs <;> rfl

theorem sendCalls_valid (h : MetaHandler) (m : ReportMeta) (hm : m.Valid)
    (hs : h.sendTable.Sound) : ∀ op∈h.sendCalls m,op.Valid := by
  rw [sendCalls]
  cases hop : sendOp m with
  | none => simp
  | some op => exact h.sendTable.calls_valid op (sendOp_valid m op hm hop) hs.psnPre

theorem next_tracker (h h' : MetaHandler) (m : ReportMeta) (hnext : (h.handleMeta m).next=some h') :
    h'.sendTable.psnTracker=(h.sendTable.psnTracker.applyAll (h.sendCalls m)).1 ∧
      (m.Valid → h.sendTable.Sound → h'.sendTable.Sound) := by
  obtain rfl : h.next m=h' := by rw [next,hnext,Option.getD_some]
  rcases h.next_sendTable m with ⟨hop,hsame⟩|⟨op,hop,happly,-⟩
  · rw [hsame,sendCalls,hop]
    exact ⟨rfl,fun _ hs => hs⟩
  · rw [happly,sendCalls,hop,Option.map_some,Option.getD_some,← h.sendTable.apply_eq op]
    exact ⟨rfl,fun hm hs => h.sendTable.apply_sound op (sendOp_valid m op hm hop) hs⟩

end MetaHandler

namespace Driver
open CompletionWorker QueuePairMessageTracker

theorem sendMsgs_dones (es : List SendEvent) :
    (es.flatMap sendMsgs).filterMap doneOf=es.map (fun e => e.msgMeta.msn) := by
  induction es with
  | nil => rfl
  | cons e es ih =>
      rw [List.flatMap_cons,List.filterMap_append,ih]
      rfl

theorem recvMsgs_dones (ps : List (RecvEvent × Option Completion)) :
    (ps.flatMap (fun p => recvMsgs p.1 p.2)).filterMap doneOf=[] := by
  refine List.filterMap_eq_nil_iff.mpr ?_
  intro m hm
  obtain ⟨p,-,hm⟩ := List.mem_flatMap.mp hm
  rw [recvMsgs] at hm
  split_ifs at hm
  · simp only [List.cons_append,List.nil_append,List.mem_cons,List.not_mem_nil,or_false] at hm
    rcases hm with rfl|rfl <;> rfl
  · obtain rfl := List.mem_singleton.mp hm
    rfl

section Turns
variable (qp : QpAttr) (n n' : Net Worker Worker.State Msg) (c : Nat) (rest sent : List Msg)

/-- What a turn of a worker sends is of its kinds. -/
theorem sent_emits (w : Worker) (s : w.State) (x : Msg)
    (ht : Net.Turn (driver qp) n w c s x rest sent n') : ∀ m∈sent,Emits w m :=
  fun m hm => process_emits qp w c s x m (ht.sent_prefix.subset hm)

theorem sent_acks (w : Worker) (s : w.State) (x : Msg)
    (ht : Net.Turn (driver qp) n w c s x rest sent n') (hw : w≠.metaReport) :
    sent.filterMap ackOf=[] :=
  List.filterMap_eq_nil_iff.mpr
    (fun m hm => (sent_emits qp n n' c rest sent w s x ht m hm).ackOf w m hw)

theorem sent_dones (w : Worker) (s : w.State) (x : Msg)
    (ht : Net.Turn (driver qp) n w c s x rest sent n') (hw : w≠.completion) :
    sent.filterMap doneOf=[] :=
  List.filterMap_eq_nil_iff.mpr
    (fun m hm => (sent_emits qp n n' c rest sent w s x ht m hm).doneOf w m hw)

theorem sent_notices (w : Worker) (s : w.State) (x : Msg)
    (ht : Net.Turn (driver qp) n w c s x rest sent n') (hw : w≠.rdmaWrite) (hw' : w≠.metaReport) :
    sent.filterMap noticeOf=[] :=
  List.filterMap_eq_nil_iff.mpr
    (fun m hm => (sent_emits qp n n' c rest sent w s x ht m hm).noticeOf w m hw hw')

/-- A turn of a worker that is alive after it: its next state, and everything sent. -/
theorem turn_alive (w : Worker) (s s' : w.State) (x : Msg)
    (ht : Net.Turn (driver qp) n w c s x rest sent n') (hs : n'.state w=some s') :
    (process qp w c s x).next=some s' ∧ sent=(process qp w c s x).msgs := by
  rcases ht.state_self with hdead|⟨hnext,hsent⟩
  · rw [hdead] at hs
    cases hs
  · exact ⟨hnext.symm.trans hs,hsent⟩

theorem accept_side (ctx : SendQueueContext) (h : MetaHandler) (t : QueuePairMessageTracker)
    (wr : SendWrRdma) (k : UInt32)
    (ha : RdmaWriteWorker.Accepts qp ctx wr k ctx.msn ctx.psn
      (RdmaWriteWorker.process qp ctx (.write wr)))
    (hpaced : (sendSide n ctx h t).Paced k wr.signaled (RdmaWriteWorker.completes qp wr)) :
    SendSide.Step (sendSide n ctx h t) {sendSide n ctx h t with
      ctx := (ctx.nextWr k).1
      notices := (sendSide n ctx h t).notices++
        (RdmaWriteWorker.process qp ctx (.write wr)).msgs.filterMap noticeOf} := by
  have hops : ((RdmaWriteWorker.completes qp wr).map (fun op =>
      (⟨op,⟨ctx.msn,ctx.psn+k⟩,wr.wrId⟩ : SendEvent))).map SendEvent.op=
      RdmaWriteWorker.completes qp wr := by
    rw [Option.map_map]
    exact congrFun Option.map_id _
  have hstep := SendSide.Step.accept (sendSide n ctx h t) k wr.signaled
    ((RdmaWriteWorker.completes qp wr).map (fun op => ⟨op,⟨ctx.msn,ctx.psn+k⟩,wr.wrId⟩))
    (Option.isSome_iff_exists.mpr ⟨_,ha.assigned⟩) (by rw [hops]; exact hpaced) ?_
  · rw [Option.map_map] at hstep
    rw [ha.notices qp ctx wr k _ _]
    exact hstep
  · intro e he
    obtain ⟨op,hop,rfl⟩ := Option.map_eq_some_iff.mp he
    refine ⟨?_,rfl⟩
    rw [RdmaWriteWorker.completes] at hop
    split_ifs at hop with hsig
    rw [Bool.and_eq_true] at hsig
    exact hsig.1

/-- The send side after a turn of the send worker. -/
theorem rdmaWrite_sendSide (ctx ctx' : SendQueueContext) (h : MetaHandler)
    (t : QueuePairMessageTracker) (x : Msg)
    (ht : Net.Turn (driver qp) n .rdmaWrite c ctx x rest sent n') :
    sendSide n' ctx' h t={sendSide n ctx h t with
      ctx := ctx'
      acks := rest.filterMap ackOf
      dones := rest.filterMap doneOf
      notices := (sendSide n ctx h t).notices++sent.filterMap noticeOf} := by
  rw [sendSide,ht.filterMap_self (driver qp) n n' .rdmaWrite c ctx x rest sent ackOf dest_of_ackOf,
    ht.filterMap_self (driver qp) n n' .rdmaWrite c ctx x rest sent doneOf dest_of_doneOf,
    ht.filterMap_other (driver qp) n n' .rdmaWrite c ctx x rest sent .completion (by decide)
      noticeOf dest_of_noticeOf,sent_acks qp n n' c rest sent .rdmaWrite ctx x ht (by decide),
    sent_dones qp n n' c rest sent .rdmaWrite ctx x ht (by decide),List.append_nil,List.append_nil]
  rfl

theorem rdmaWrite_side (ctx ctx' : SendQueueContext) (h : MetaHandler)
    (t : QueuePairMessageTracker) (x : Msg)
    (ht : Net.Turn (driver qp) n .rdmaWrite c ctx x rest sent n')
    (hs : n'.state .rdmaWrite=some ctx')
    (hpaced : ∀ wr,x=.rdma (.write wr) → ∀ k∈RdmaWriteWorker.psnCount qp wr,
      (sendSide n ctx h t).Paced k wr.signaled (RdmaWriteWorker.completes qp wr)) :
    Relation.ReflGen SendSide.Step (sendSide n ctx h t) (sendSide n' ctx' h t) := by
  obtain ⟨hnext,hsent⟩ := turn_alive qp n n' c rest sent .rdmaWrite ctx ctx' x ht hs
  have hside := rdmaWrite_sendSide qp n n' c rest sent ctx ctx' h t x ht
  have hacks : (sendSide n ctx h t).acks=(x::rest).filterMap ackOf := by rw [sendSide,ht.head]
  have hdones : (sendSide n ctx h t).dones=(x::rest).filterMap doneOf := by rw [sendSide,ht.head]
  -- a message that is neither an acknowledgement nor a completion and leaves the context alone
  have hsame : ackOf x=none → doneOf x=none → process qp .rdmaWrite c ctx x=⟨[],some ctx⟩ →
      Relation.ReflGen SendSide.Step (sendSide n ctx h t) (sendSide n' ctx' h t) := by
    intro hack hdone hproc
    rw [hproc] at hnext hsent
    obtain rfl := Option.some.inj hnext
    rw [List.filterMap_cons_none hack] at hacks
    rw [List.filterMap_cons_none hdone] at hdones
    rw [hside,hsent,← hacks,← hdones,List.filterMap_nil,List.append_nil]
    exact .refl
  cases x with
  | rdma task =>
      cases task with
      | ack p =>
          obtain rfl := Option.some.inj hnext
          rw [List.filterMap_cons_none rfl] at hdones
          rw [hside,hsent,← hdones]
          change Relation.ReflGen _ _ {sendSide n ctx h t with
            ctx := ctx.updatePsnAcked p
            acks := rest.filterMap ackOf
            notices := (sendSide n ctx h t).notices++[]}
          rw [List.append_nil]
          exact .single (.hear (sendSide n ctx h t) p (rest.filterMap ackOf) hacks)
      | newComplete m =>
          obtain rfl := Option.some.inj hnext
          rw [List.filterMap_cons_none rfl] at hacks
          rw [hside,hsent,← hacks]
          change Relation.ReflGen _ _ {sendSide n ctx h t with
            ctx := ctx.updateMsnAcked m
            dones := rest.filterMap doneOf
            notices := (sendSide n ctx h t).notices++[]}
          rw [List.append_nil]
          exact .single (.finish (sendSide n ctx h t) m (rest.filterMap doneOf) hdones)
      | write wr =>
          rcases RdmaWriteWorker.process_write qp ctx wr with ⟨hproc,-⟩|hproc|⟨k,msn,psn,haccepts⟩
          · exact hsame rfl rfl hproc
          · change (RdmaWriteWorker.process qp ctx (.write wr)).next=_ at hnext
            rw [hproc] at hnext
            cases hnext
          · have hpaced := hpaced wr rfl k haccepts.count
            obtain ⟨rfl,rfl,-,-,-⟩ := ctx.nextWr_some k msn psn haccepts.assigned
            have hctx := haccepts.next_eq qp ctx ctx' wr k _ _ _ hnext
            rw [List.filterMap_cons_none rfl] at hacks hdones
            rw [hside,hsent,hctx,← hacks,← hdones]
            exact .single (accept_side qp n ctx h t wr k haccepts hpaced)
  | _ => exact hsame rfl rfl rfl

/-- The send side after a turn of the meta report worker. -/
theorem metaReport_sendSide (ctx : SendQueueContext) (h h' : MetaHandler)
    (t : QueuePairMessageTracker) (x : Msg)
    (ht : Net.Turn (driver qp) n .metaReport c h x rest sent n') :
    sendSide n' ctx h' t={sendSide n ctx h t with
      tracker := h'.sendTable.psnTracker
      acks := (sendSide n ctx h t).acks++sent.filterMap ackOf
      notices := (sendSide n ctx h t).notices++sent.filterMap noticeOf} := by
  rw [sendSide,ht.filterMap_other (driver qp) n n' .metaReport c h x rest sent .rdmaWrite
      (by decide) ackOf dest_of_ackOf,
    ht.filterMap_other (driver qp) n n' .metaReport c h x rest sent .rdmaWrite (by decide) doneOf
      dest_of_doneOf,
    ht.filterMap_other (driver qp) n n' .metaReport c h x rest sent .completion (by decide)
      noticeOf dest_of_noticeOf,sent_dones qp n n' c rest sent .metaReport h x ht (by decide),
    List.append_nil]
  rfl

theorem metaReport_side (ctx : SendQueueContext) (h h' : MetaHandler)
    (t : QueuePairMessageTracker) (x : Msg)
    (ht : Net.Turn (driver qp) n .metaReport c h x rest sent n')
    (hs : n'.state .metaReport=some h') (hsound : h.sendTable.Sound)
    (hpaced : ∀ m,x=.report m → m.Valid ∧ h.Unrecorded m ∧
      Run.Along PsnTracker.next (PsnTracker.Within ctx.psn) h.sendTable.psnTracker (h.sendCalls m)) :
    h'.sendTable.Sound ∧
      Relation.ReflGen SendSide.Step (sendSide n ctx h t) (sendSide n' ctx h' t) := by
  obtain ⟨hnext,hsent⟩ := turn_alive qp n n' c rest sent .metaReport h h' x ht hs
  have hside := metaReport_sendSide qp n n' c rest sent ctx h h' t x ht
  have hsame : process qp .metaReport c h x=⟨[],some h⟩ → h'.sendTable.Sound ∧
      Relation.ReflGen SendSide.Step (sendSide n ctx h t) (sendSide n' ctx h' t) := by
    intro hproc
    rw [hproc] at hnext hsent
    obtain rfl := Option.some.inj hnext
    rw [hside,hsent,List.filterMap_nil,List.filterMap_nil,List.append_nil,List.append_nil]
    exact ⟨hsound,.refl⟩
  cases x with
  | report m =>
      obtain ⟨hm,hun,hw⟩ := hpaced m rfl
      obtain ⟨htracker,hkept⟩ := h.next_tracker h' m hnext
      obtain ⟨hacks,hnotices⟩ := h.handleMeta_sends m
      refine ⟨hkept hm hsound,?_⟩
      rw [hside,hsent,htracker]
      change Relation.ReflGen _ _ {sendSide n ctx h t with
        tracker := (h.sendTable.psnTracker.applyAll (h.sendCalls m)).1
        acks := (sendSide n ctx h t).acks++(h.handleMeta m).msgs.filterMap ackOf
        notices := (sendSide n ctx h t).notices++(h.handleMeta m).msgs.filterMap noticeOf}
      rw [hacks,hnotices]
      exact .single (.report (sendSide n ctx h t) (h.sendCalls m)
        (h.sendCalls_valid m hm hsound) hw hun)
  | _ => exact hsame rfl

/-- The send side after a turn of the completion worker. -/
theorem completion_sendSide (ctx : SendQueueContext) (h : MetaHandler)
    (t t' : QueuePairMessageTracker) (x : Msg)
    (ht : Net.Turn (driver qp) n .completion c t x rest sent n') :
    sendSide n' ctx h t'={sendSide n ctx h t with
      merged := t'.merge.send
      waiting := t'.send
      dones := (sendSide n ctx h t).dones++sent.filterMap doneOf
      notices := rest.filterMap noticeOf} := by
  rw [sendSide,ht.filterMap_other (driver qp) n n' .completion c t x rest sent .rdmaWrite
      (by decide) ackOf dest_of_ackOf,
    ht.filterMap_other (driver qp) n n' .completion c t x rest sent .rdmaWrite (by decide) doneOf
      dest_of_doneOf,
    ht.filterMap_self (driver qp) n n' .completion c t x rest sent noticeOf dest_of_noticeOf,
    sent_acks qp n n' c rest sent .completion t x ht (by decide),
    sent_notices qp n n' c rest sent .completion t x ht (by decide) (by decide),List.append_nil,
    List.append_nil]
  rfl

theorem completion_side (ctx : SendQueueContext) (h : MetaHandler)
    (t t' : QueuePairMessageTracker) (x : Msg)
    (ht : Net.Turn (driver qp) n .completion c t x rest sent n')
    (hs : n'.state .completion=some t') :
    Relation.ReflGen SendSide.Step (sendSide n ctx h t) (sendSide n' ctx h t') := by
  obtain ⟨hnext,hsent⟩ := turn_alive qp n n' c rest sent .completion t t' x ht hs
  have hside := completion_sendSide qp n n' c rest sent ctx h t t' x ht
  have hnotices : (sendSide n ctx h t).notices=(x::rest).filterMap noticeOf := by
    rw [sendSide,ht.head]
  have hsame : noticeOf x=none → sent=[] → t'.merge.send=t.merge.send → t'.send=t.send →
      Relation.ReflGen SendSide.Step (sendSide n ctx h t) (sendSide n' ctx h t') := by
    intro hstep hnone hmerge hsend
    rw [List.filterMap_cons_none hstep] at hnotices
    rw [hside,hnone,hmerge,hsend,← hnotices,List.filterMap_nil,List.append_nil]
    exact .refl
  have hother : noticeOf x=none → process qp .completion c t x=⟨[],some t⟩ →
      Relation.ReflGen SendSide.Step (sendSide n ctx h t) (sendSide n' ctx h t') := by
    intro hstep hproc
    rw [hproc] at hnext hsent
    obtain rfl := Option.some.inj hnext
    exact hsame hstep hsent rfl rfl
  cases x with
  | completion task =>
      cases task with
      | register event =>
          obtain rfl := Option.some.inj hnext
          cases event with
          | send e =>
              rw [hside,hsent]
              change Relation.ReflGen _ _ {sendSide n ctx h t with
                waiting := t.send.append e
                dones := (sendSide n ctx h t).dones++[]
                notices := rest.filterMap noticeOf}
              rw [List.append_nil]
              exact .single (.register (sendSide n ctx h t) e (rest.filterMap noticeOf) hnotices)
          | recv e => exact hsame rfl hsent rfl rfl
          | postRecv e => exact hsame rfl hsent rfl rfl
      | ackSend p =>
          change (CompletionWorker.process qp t (.ackSend p)).next=_ at hnext
          change sent=(CompletionWorker.process qp t (.ackSend p)).msgs at hsent
          rcases process_ackSend_cases qp t p with hproc|⟨es,left,hsplit,⟨-,hleft⟩,hproc⟩ <;>
            rw [hproc] at hnext hsent
          · cases hnext
          · obtain rfl := Option.some.inj hnext
            rw [hside,hsent,sendMsgs_dones]
            exact .single (.ack (sendSide n ctx h t) p (rest.filterMap noticeOf) es left hnotices
              hsplit hleft)
      | ackRecv p =>
          change (CompletionWorker.process qp t (.ackRecv p)).next=_ at hnext
          change sent=(CompletionWorker.process qp t (.ackRecv p)).msgs at hsent
          rcases process_ackRecv_cases qp t p with hproc|⟨es,left,hsplit,⟨-,hleft⟩,hproc⟩ <;>
            rw [hproc] at hnext hsent
          · cases hnext
          obtain ⟨posts,-,rfl⟩ := Option.map_eq_some_iff.mp hnext
          rw [List.filterMap_cons_none rfl] at hnotices
          rw [hside,hsent,List.filterMap_append,sendMsgs_dones,recvMsgs_dones,List.append_nil,
            ← hnotices]
          exact .single (.poll (sendSide n ctx h t) es left hsplit hleft)
  | _ => exact hother rfl rfl

/-- The other workers take no part in the send side. -/
theorem other_side (w : Worker) (s : w.State) (x : Msg) (ctx : SendQueueContext) (h : MetaHandler)
    (t : QueuePairMessageTracker) (ht : Net.Turn (driver qp) n w c s x rest sent n')
    (hw : w≠.rdmaWrite) (hw' : w≠.metaReport) (hw'' : w≠.completion) :
    sendSide n' ctx h t=sendSide n ctx h t := by
  rw [sendSide,ht.filterMap_other (driver qp) n n' w c s x rest sent .rdmaWrite hw.symm ackOf
      dest_of_ackOf,
    ht.filterMap_other (driver qp) n n' w c s x rest sent .rdmaWrite hw.symm doneOf dest_of_doneOf,
    ht.filterMap_other (driver qp) n n' w c s x rest sent .completion hw''.symm noticeOf
      dest_of_noticeOf,sent_acks qp n n' c rest sent w s x ht hw',
    sent_dones qp n n' c rest sent w s x ht hw'',sent_notices qp n n' c rest sent w s x ht hw hw',
    List.append_nil,List.append_nil,List.append_nil]
  rfl

end Turns

theorem send_side (qp : QpAttr) (n : Net Worker Worker.State Msg) (ms : List Msg)
    (hms : ∀ m∈ms,External m=true) (ctx : SendQueueContext) (h : MetaHandler)
    (t : QueuePairMessageTracker) :
    sendSide (n.send (driver qp) ms) ctx h t=sendSide n ctx h t := by
  have hinbox : ∀ {β : Type} (f : Msg → Option β) (w : Worker),
      (∀ m b,f m=some b → dest m=some w) → (∀ m,External m=true → f m=none) →
      ((n.send (driver qp) ms).inbox w).filterMap f=(n.inbox w).filterMap f := by
    intro β f w hf hext
    rw [Net.send,List.filterMap_append,Net.filterMap_addressed (driver qp) f w hf,
      List.filterMap_eq_nil_iff.mpr (fun m hm => hext m (hms m hm)),List.append_nil]
  rw [sendSide,hinbox ackOf .rdmaWrite dest_of_ackOf (fun m hm => (External.silent m hm).1),
    hinbox doneOf .rdmaWrite dest_of_doneOf (fun m hm => (External.silent m hm).2.1),
    hinbox noticeOf .completion dest_of_noticeOf (fun m hm => (External.silent m hm).2.2)]
  rfl

/-- A step of the driver is a step of the send side or leaves it alone. -/
theorem step_side (qp : QpAttr) (n : Net Worker Worker.State Msg) (l : NetLabel Worker Nat Msg)
    (hl : Paced qp n l) (hsound : ∀ ctx h t,Alive n ctx h t → h.sendTable.Sound)
    (ctx' : SendQueueContext) (h' : MetaHandler) (t' : QueuePairMessageTracker)
    (ha : Alive (n.step (driver qp) l) ctx' h' t') :
    ∃ ctx h t,Alive n ctx h t ∧ h'.sendTable.Sound ∧ Relation.ReflGen SendSide.Step
      (sendSide n ctx h t) (sendSide (n.step (driver qp) l) ctx' h' t') := by
  obtain ⟨hctx,hh,ht'⟩ := ha
  have hsame : Alive n ctx' h' t' →
      sendSide (n.step (driver qp) l) ctx' h' t'=sendSide n ctx' h' t' →
      ∃ ctx h t,Alive n ctx h t ∧ h'.sendTable.Sound ∧ Relation.ReflGen SendSide.Step
        (sendSide n ctx h t) (sendSide (n.step (driver qp) l) ctx' h' t') := by
    intro ha hside
    rw [hside]
    exact ⟨ctx',h',t',ha,hsound ctx' h' t' ha,.refl⟩
  cases l with
  | post m =>
      have hpost : ∃ ms,(∀ x∈ms,External x=true) ∧
          n.step (driver qp) (.post m)=n.send (driver qp) ms := by
        rcases Net.step_post (driver qp) n m with ⟨-,heq⟩|heq
        · exact ⟨[m],fun x hx => List.mem_singleton.mp hx ▸ hl,heq⟩
        · exact ⟨[],by simp,heq⟩
      obtain ⟨ms,hms,heq⟩ := hpost
      rw [heq] at hctx hh ht'
      exact hsame ⟨hctx,hh,ht'⟩ (by rw [heq,send_side qp n ms hms])
  | crash w =>
      exact hsame ⟨Net.step_crash (driver qp) n w .rdmaWrite ctx' hctx,
        Net.step_crash (driver qp) n w .metaReport h' hh,
        Net.step_crash (driver qp) n w .completion t' ht'⟩ rfl
  | work w c =>
      rcases Net.work_cases (driver qp) n w c with heq|⟨s,x,rest,sent,hturn⟩
      · rw [Net.step,heq] at hctx hh ht'
        exact hsame ⟨hctx,hh,ht'⟩ (by rw [Net.step,heq])
      have hstate := hturn.state_other
      have hother : w≠.rdmaWrite → w≠.metaReport → w≠.completion →
          ∃ ctx h t,Alive n ctx h t ∧ h'.sendTable.Sound ∧ Relation.ReflGen SendSide.Step
            (sendSide n ctx h t) (sendSide (n.step (driver qp) (.work w c)) ctx' h' t') := by
        intro hw hw' hw''
        exact hsame ⟨(hstate .rdmaWrite hw.symm).symm.trans hctx,
          (hstate .metaReport hw'.symm).symm.trans hh,(hstate .completion hw''.symm).symm.trans ht'⟩
          (other_side qp n _ c rest sent w s x ctx' h' t' hturn hw hw' hw'')
      cases w with
      | rdmaWrite =>
          have hh := (hstate .metaReport (by decide)).symm.trans hh
          have ht' := (hstate .completion (by decide)).symm.trans ht'
          refine ⟨s,h',t',⟨hturn.alive,hh,ht'⟩,hsound s h' t' ⟨hturn.alive,hh,ht'⟩,
            rdmaWrite_side qp n _ c rest sent s ctx' h' t' x hturn hctx ?_⟩
          rintro wr rfl k hk
          refine hl s hturn.alive h' hh t' ht' (wr,k) ?_
          rw [taking,hturn.head]
          exact Option.map_eq_some_iff.mpr ⟨k,hk,rfl⟩
      | metaReport =>
          have hctx := (hstate .rdmaWrite (by decide)).symm.trans hctx
          have ht' := (hstate .completion (by decide)).symm.trans ht'
          have hside := metaReport_side qp n _ c rest sent ctx' s h' t' x hturn hh
            (hsound ctx' s t' ⟨hctx,hturn.alive,ht'⟩) (by
              rintro m rfl
              exact hl ctx' hctx s hturn.alive m (by rw [hearing,hturn.head]; rfl))
          exact ⟨ctx',s,t',⟨hctx,hturn.alive,ht'⟩,hside⟩
      | completion =>
          have hctx := (hstate .rdmaWrite (by decide)).symm.trans hctx
          have hh := (hstate .metaReport (by decide)).symm.trans hh
          exact ⟨ctx',h',s,⟨hctx,hh,hturn.alive⟩,hsound ctx' h' s ⟨hctx,hh,hturn.alive⟩,
            completion_side qp n _ c rest sent ctx' h' s t' x hturn ht'⟩
      | packetRetransmit => exact hother (by decide) (by decide) (by decide)
      | ackResponder => exact hother (by decide) (by decide) (by decide)
      | ackTimeout => exact hother (by decide) (by decide) (by decide)

/-- The books of the send side balance while its workers are alive. -/
def Balanced (n : Net Worker Worker.State Msg) : Prop :=
  ∀ ctx h t,Alive n ctx h t → h.sendTable.Sound ∧ ∃ l,SendSide.Books l (sendSide n ctx h t)

theorem init_balanced (config : AckTimeoutConfig) : Balanced (init config) := by
  rintro ctx h t ⟨hctx,hh,ht⟩
  obtain rfl := Option.some.inj hctx
  obtain rfl := Option.some.inj hh
  obtain rfl := Option.some.inj ht
  exact ⟨⟨PsnTracker.init_sound,Psn.wrap_valid 0⟩,_,SendSide.fresh_books⟩

theorem step_balanced (qp : QpAttr) (n : Net Worker Worker.State Msg)
    (l : NetLabel Worker Nat Msg) (hl : Paced qp n l) (hn : Balanced n) :
    Balanced (n.step (driver qp) l) := by
  intro ctx' h' t' ha
  obtain ⟨ctx,h,t,halive,hsound,hside⟩ :=
    step_side qp n l hl (fun ctx h t ha => (hn ctx h t ha).1) ctx' h' t' ha
  obtain ⟨-,books,hbooks⟩ := hn ctx h t halive
  refine ⟨hsound,?_⟩
  rcases (Relation.reflGen_iff _ _ _).mp hside with heq|hstep
  · rw [heq]
    exact ⟨books,hbooks⟩
  · exact hbooks.step books _ _ hstep

end Driver

/-- In every paced run of a driver, once every PSN handed out has been acknowledged and all tasks
are processed, a request of any length up to the whole PSN window is accepted. -/
theorem idle_qp_accepts (qp : QpAttr) (config : AckTimeoutConfig)
    (ls : List (NetLabel Worker Nat Msg))
    (hls : Run.Along (Net.step (driver qp)) (Driver.Paced qp) (Driver.init config) ls)
    (ctx : SendQueueContext) (h : MetaHandler) (t : QueuePairMessageTracker)
    (hidle : Driver.Idle (Run.run (Net.step (driver qp)) (Driver.init config) ls) ctx h t)
    (k : UInt32) (hk : k.toNat ≤ maxPsnWindow) : (ctx.nextWr k).2.isSome=true := by
  have hbalanced := Run.run_inv (Net.step (driver qp)) (Driver.Paced qp) Driver.Balanced
    (Driver.step_balanced qp) (Driver.init config) ls hls (Driver.init_balanced config)
  obtain ⟨-,books,hbooks⟩ := hbalanced ctx h t hidle.toAlive
  refine hbooks.can_send books _ ?_ ?_ ?_ hidle.acked k hk
  · exact congrArg (List.filterMap Driver.ackOf) hidle.rdmaWriteDone
  · exact congrArg (List.filterMap Driver.doneOf) hidle.rdmaWriteDone
  · exact congrArg (List.filterMap Driver.noticeOf) hidle.completionDone

namespace IdleQp

abbrev Label := NetLabel Worker Nat Msg

/-- A signalled write, acknowledged and completed. -/
def signaledRun : List Label :=
  [.post (.rdma (.write (shortWrite 0x2000 600))),.work .rdmaWrite 0,.work .completion 0,
    .post (.report (.ackRemoteDriver ⟨⟨3⟩⟩)),.work .metaReport 0,.work .completion 0,
    .work .rdmaWrite 0,.work .rdmaWrite 0]

end IdleQp

theorem idle_qp_accepts_window :
    ∃ ctx h t,Driver.Idle (Run.run (Net.step (driver shortPathQp)) (Driver.init .default)
        IdleQp.signaledRun) ctx h t ∧
      ctx.psn=⟨3⟩ ∧ (ctx.nextWr 0x800000).2.isSome=true :=
  have hidle : Driver.Idle (Run.run (Net.step (driver shortPathQp)) (Driver.init .default)
      IdleQp.signaledRun) ⟨1,⟨3⟩,⟨3⟩,0⟩ ⟨⟨⟨⟨3⟩,[]⟩,0,⟨0⟩⟩,{}⟩ ⟨⟨[],⟨3⟩⟩,{},[],{}⟩ :=
    ⟨⟨by decide +kernel,by decide +kernel,by decide +kernel⟩,by decide +kernel,by decide +kernel,
      by decide +kernel⟩
  ⟨_,_,_,hidle,rfl,idle_qp_accepts shortPathQp .default IdleQp.signaledRun (by decide +kernel)
    _ _ _ hidle 0x800000 (by decide)⟩

namespace IdleQp
open Driver (dest)

def unsignaledWrite : SendWrRdma := ⟨⟨1,0,0x1000,1,0,0,.rdmaWrite⟩,0x2000,0⟩

/-- An unsignalled write of one packet, and its entry in the retransmit queue. -/
def writeRound : List Label :=
  [.post (.rdma (.write unsignaledWrite)),.work .rdmaWrite 0,.work .packetRetransmit 0]

/-- The peer acknowledges the first `0x8000` PSNs and the workers process what follows. -/
def ackRound : List Label :=
  [.post (.report (.ackRemoteDriver ⟨⟨0x8000⟩⟩)),.work .metaReport 0,.work .ackTimeout 0,
    .work .completion 0,.work .packetRetransmit 0,.work .rdmaWrite 0]

/-- After `k` writes of one PSN each: nothing waits, and nothing has been acknowledged. -/
structure Sent (k : Nat) (n : Net Worker Worker.State Msg) (st : (w : Worker) → w.State) : Prop
    extends Net.Serves (driver shortPathQp) n st [] where
  rdmaWrite : st .rdmaWrite=⟨Msn.wrap k,Psn.wrap k,⟨0⟩,0⟩
  metaReport : st .metaReport={}
  completion : st .completion={}

theorem process_unsignaledWrite (k : Nat) (hk : k<2^15) :
    ∃ chunks : List WrChunk,RdmaWriteWorker.process shortPathQp ⟨Msn.wrap k,Psn.wrap k,⟨0⟩,0⟩
        (.write unsignaledWrite)=
      ⟨.retransmit (.newWr ⟨Psn.wrap k,unsignaledWrite,QpParams.ofAttr (Msn.wrap k) shortPathQp⟩)::
          chunks.map .chunk,some ⟨Msn.wrap (k+1),Psn.wrap (k+1),⟨0⟩,0⟩⟩ := by
  obtain ⟨chunks,hchunks⟩ := RdmaWriteWorker.wrChunkFragmenter_some unsignaledWrite
    (QpParams.ofAttr (Msn.wrap k) shortPathQp) (Psn.wrap k) rfl
  have hn : numPsn shortPathQp.pmtu unsignaledWrite.raddr unsignaledWrite.length=some 1 := by
    decide +kernel
  have hroom : SendQueueContext.nextWr ⟨Msn.wrap k,Psn.wrap k,⟨0⟩,0⟩ 1=
      (⟨Msn.wrap (k+1),Psn.wrap (k+1),⟨0⟩,0⟩,some (Msn.wrap k,Psn.wrap k)) := by
    have hpsn : (Psn.wrap k-(⟨0⟩ : Psn)).toNat=k := Psn.wrap_sub_wrap k 0 (by omega) (by omega)
    have hmsn : (Msn.wrap k-0).toNat=k := Msn.wrap_sub_wrap k 0 (by omega) (by omega)
    have hone : (1 : UInt32).toNat=1 := rfl
    have hwindow : ¬(maxPsnWindow<(Psn.wrap k-(⟨0⟩ : Psn)+(1 : UInt32)).toNat ∨
        maxSendWr≤(Msn.wrap k-0).toNat) := by
      rw [Psn.add_toNat,hpsn,hmsn,hone,maxPsnWindow,maxSendWr]
      omega
    rw [SendQueueContext.nextWr]
    dsimp only
    rw [if_neg hwindow,Psn.wrap_add,Msn.wrap_succ,hone]
  refine ⟨chunks,?_⟩
  change RdmaWriteWorker.write shortPathQp _ unsignaledWrite=_
  rw [RdmaWriteWorker.write,hn]
  dsimp only
  rw [hroom]
  dsimp only
  rw [if_neg (by decide),RdmaWriteWorker.transmit,hchunks]

theorem addressed_request (w : Worker) (m : Msg) (chunks : List WrChunk) :
    Net.addressed (driver shortPathQp) w (m::chunks.map .chunk)=
      Net.addressed (driver shortPathQp) w [m] := by
  have hchunks : (chunks.map Msg.chunk).filter (fun m => dest m==some w)=[] := by
    refine List.filter_eq_nil_iff.mpr ?_
    intro m hm
    obtain ⟨c,-,rfl⟩ := List.mem_map.mp hm
    exact Bool.false_ne_true
  change (m::chunks.map Msg.chunk).filter (fun m => dest m==some w)=_
  rw [← List.singleton_append,List.filter_append,hchunks,List.append_nil]
  rfl

/-- One more write, from a state in which nothing waits. -/
theorem sent_round (k : Nat) (hk : k<2^15) (n : Net Worker Worker.State Msg)
    (st : (w : Worker) → w.State) (h : Sent k n st) :
    ∃ st',Sent (k+1) (Run.run (Net.step (driver shortPathQp)) n writeRound) st' := by
  obtain ⟨chunks,hproc⟩ := process_unsignaledWrite k hk
  rw [← h.rdmaWrite] at hproc
  have hposted := h.toServes.post (driver shortPathQp) n st [] (.rdma (.write unsignaledWrite))
  have hsent := hposted.work (driver shortPathQp) _ st [] .rdmaWrite _ rfl 0 _ _ hproc
  have hqueued := Net.Serves.work (driver shortPathQp) _ _ [] .packetRetransmit _
    ⟨hsent.state,fun w => (hsent.inbox w).trans (addressed_request w _ chunks)⟩ rfl 0 _ _ rfl
  exact ⟨_,hqueued,rfl,h.metaReport,h.completion⟩

theorem sent_rounds (config : AckTimeoutConfig) (k : Nat) (hk : k≤2^15) :
    ∃ st,Sent k (Run.run (Net.step (driver shortPathQp)) (Driver.init config)
      (List.replicate k writeRound).flatten) st := by
  induction k with
  | zero => exact ⟨Driver.fresh config,⟨fun _ => rfl,fun _ => rfl⟩,rfl,rfl,rfl⟩
  | succ k ih =>
      obtain ⟨st,h⟩ := ih (Nat.le_of_succ_le hk)
      rw [List.replicate_succ',List.flatten_concat,Run.run_append]
      exact sent_round k hk _ st h

/-- The acknowledgement of all writes reopens the window of PSNs and not that of MSNs. -/
theorem ack_round (n : Net Worker Worker.State Msg) (st : (w : Worker) → w.State)
    (h : Sent 0x8000 n st) :
    ∃ st',Net.Serves (driver shortPathQp) (Run.run (Net.step (driver shortPathQp)) n ackRound) st' [] ∧
      st' .rdmaWrite=⟨0x8000,⟨0x8000⟩,⟨0x8000⟩,0⟩ ∧
      st' .metaReport=⟨⟨⟨⟨0x8000⟩,[]⟩,0,⟨0⟩⟩,{}⟩ := by
  have hproc : (driver shortPathQp).process .metaReport 0 (st .metaReport)
      (.report (.ackRemoteDriver ⟨⟨0x8000⟩⟩))=⟨[.timeout .recvMeta,.completion (.ackSend ⟨0x8000⟩),
        .retransmit (.ack ⟨0x8000⟩),.rdma (.ack ⟨0x8000⟩)],
        some ⟨⟨⟨⟨0x8000⟩,[]⟩,0,⟨0⟩⟩,{}⟩⟩ := by
    rw [h.metaReport]
    rfl
  have hpop : (driver shortPathQp).process .completion 0 (st .completion)
      (.completion (.ackSend ⟨0x8000⟩))=⟨[],some ⟨⟨[],⟨0x8000⟩⟩,{},[],{}⟩⟩ := by
    rw [h.completion]
    rfl
  have hposted := h.toServes.post (driver shortPathQp) n st [] (.report (.ackRemoteDriver ⟨⟨0x8000⟩⟩))
  have hheard := hposted.work (driver shortPathQp) _ st [] .metaReport _ rfl 0 _ _ hproc
  have htimed := hheard.work (driver shortPathQp) _ _ _ .ackTimeout _ rfl 0 _ [] rfl
  have hpopped := htimed.work (driver shortPathQp) _ _ _ .completion _ rfl 0 _ [] hpop
  have hdropped := hpopped.work (driver shortPathQp) _ _ _ .packetRetransmit _ rfl 0 _ [] rfl
  have hacked := hdropped.work (driver shortPathQp) _ _ _ .rdmaWrite _ rfl 0 _ [] rfl
  refine ⟨_,hacked,?_,rfl⟩
  change SendQueueContext.updatePsnAcked (st .rdmaWrite) _=_
  rw [h.rdmaWrite]
  rfl

end IdleQp

/-- After `0x8000` unsignalled writes, all acknowledged and with nothing left to process, the QP
accepts no request. -/
theorem unsignaled_writes_block :
    ∃ ctx h t,Driver.Idle (Run.run (Net.step (driver shortPathQp)) (Driver.init .default)
        ((List.replicate 0x8000 IdleQp.writeRound).flatten++IdleQp.ackRound)) ctx h t ∧
      (∀ w,(Run.run (Net.step (driver shortPathQp)) (Driver.init .default)
        ((List.replicate 0x8000 IdleQp.writeRound).flatten++IdleQp.ackRound)).inbox w=[]) ∧
      ∀ k,(ctx.nextWr k).2=none := by
  rw [Run.run_append]
  obtain ⟨st,hsent⟩ := IdleQp.sent_rounds .default 0x8000 le_rfl
  obtain ⟨st',hserves,hctx,hh⟩ := IdleQp.ack_round _ st hsent
  have hstate := hserves.state
  refine ⟨_,_,_,⟨⟨(hstate .rdmaWrite).trans (congrArg some hctx),
    (hstate .metaReport).trans (congrArg some hh),hstate .completion⟩,rfl,hserves.inbox _,
    hserves.inbox _⟩,hserves.inbox,?_⟩
  intro k
  rw [SendQueueContext.nextWr]
  dsimp only
  rw [if_pos (Or.inr (by decide))]

end BlueRdma

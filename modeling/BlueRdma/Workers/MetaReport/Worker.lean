import BlueRdma.RdmaUtils.PsnTracker
import BlueRdma.Workers.Tasks

namespace BlueRdma

/-- The ack trackers of one QP, one for each direction. -/
structure MetaHandler where
  sendTable : RemoteAckTracker := {}
  recvTable : LocalAckTracker := {}
  deriving DecidableEq

namespace MetaHandler

def senderUpdates (basePsn : Psn) : List Msg :=
  [.completion (.ackSend basePsn),.retransmit (.ack basePsn),.rdma (.ack basePsn)]

/-- Also acknowledges the send queue of the same QP, as the source does and doubts. -/
def receiverUpdates (basePsn : Psn) : List Msg :=
  [.completion (.ackRecv basePsn),.retransmit (.ack basePsn)]

/-- `if let Some(psn) = .. { f(psn) }`. -/
def onAdvance (f : Psn → List Msg) (x : Option Psn) : List Msg := x.elim [] f

def handleAckLocalHw (h : MetaHandler) (x : AckMetaLocalHw) : MetaHandler × List Msg :=
  let (tracker,adv) := h.recvTable.ackBitmap x.psnNow x.nowBitmap
  ({h with recvTable := tracker},onAdvance receiverUpdates adv)

def handleAckRemoteDriver (h : MetaHandler) (x : AckMetaRemoteDriver) : MetaHandler × List Msg :=
  let (tracker,adv) := h.sendTable.ackBefore x.psnNow
  ({h with sendTable := tracker},onAdvance senderUpdates adv)

def handleNakLocalHw (h : MetaHandler) (x : NakMetaLocalHw) : MetaHandler × List Msg :=
  let (tracker,adv) := h.recvTable.nakBitmap x.psnPre x.preBitmap x.psnNow x.nowBitmap
  ({h with recvTable := tracker},onAdvance receiverUpdates adv)

def handleNakRemoteHw (h : MetaHandler) (x : NakMetaRemoteHw) : MetaHandler × List Msg :=
  let (tracker,adv) := h.sendTable.nakBitmap x.msn x.psnPre x.preBitmap x.psnNow x.nowBitmap
  ({h with sendTable := tracker},
    onAdvance senderUpdates adv++[.retransmit (.retransmitRange x.psnPre (x.psnNow+(128 : UInt32)))])

def handleNakRemoteDriver (h : MetaHandler) (x : NakMetaRemoteDriver) : MetaHandler × List Msg :=
  let (tracker,adv) := h.sendTable.ackBefore x.psnPre
  ({h with sendTable := tracker},
    onAdvance senderUpdates adv++[.retransmit (.retransmitRange x.psnPre x.psnNow)])

def ackRecvMsg (basePsn : Psn) : List Msg := [.completion (.ackRecv basePsn)]

/-- The work request that answers a read: local and remote side are swapped. -/
def readResp (x : HeaderReadMeta) : SendWrRdma :=
  .newFromBase ⟨0,if x.ackReq then ibvSendSolicited else 0,x.raddr,x.totalLen,x.rkey,0,.rdmaReadResp⟩
    x.laddr x.lkey

/-- A request without the ack bit is not recorded in the tracker. -/
def handleHeaderRead (h : MetaHandler) (x : HeaderReadMeta) : MetaHandler × List Msg :=
  let task : Msg := .rdma (.write (readResp x))
  if x.ackReq then
    let event : Event := .recv ⟨.recvRead,⟨x.msn,x.psn+(1 : UInt32)⟩,true⟩
    let (tracker,adv) := h.recvTable.ackOne x.psn
    ({h with recvTable := tracker},.completion (.register event)::(onAdvance ackRecvMsg adv++[task]))
  else (h,[task])

def recvOp (x : HeaderWriteMeta) : RecvEventOp :=
  match x.headerType with
  | .write => .write
  | .writeWithImm => .writeWithImm x.imm
  | .send => .recv
  | .sendWithImm => .recvWithImm x.imm
  | .readResp => .readResp

def recvEvent (x : HeaderWriteMeta) : RecvEvent := ⟨recvOp x,⟨x.msn,x.psn+(1 : UInt32)⟩,x.ackReq⟩

/-- The event of the message's last packet is registered before the packet is recorded. -/
def handleHeaderWrite (h : MetaHandler) (x : HeaderWriteMeta) : MetaHandler × List Msg :=
  let (tracker,adv) := h.recvTable.ackOne x.psn
  ({h with recvTable := tracker},
    (if x.pos.endsMessage then [.completion (.register (.recv (recvEvent x)))] else [])++
    onAdvance ackRecvMsg adv++
    (if x.pos.endsMessage && x.isRetry && x.ackReq
      then [.ack (.nak tracker.basePsn (x.psn-(1 : UInt32)))] else []))

/-- `MetaHandler::handle_meta` for a QP that exists. Congestion notifications hit a `todo!`. -/
def handleMeta (h : MetaHandler) (m : ReportMeta) : Outcome Msg MetaHandler :=
  let done : MetaHandler × List Msg → Outcome Msg MetaHandler :=
    fun r => ⟨.timeout .recvMeta::r.2,some r.1⟩
  match m with
  | .headerWrite x => done (h.handleHeaderWrite x)
  | .headerRead x => done (h.handleHeaderRead x)
  | .ackLocalHw x => done (h.handleAckLocalHw x)
  | .ackRemoteDriver x => done (h.handleAckRemoteDriver x)
  | .nakLocalHw x => done (h.handleNakLocalHw x)
  | .nakRemoteHw x => done (h.handleNakRemoteHw x)
  | .nakRemoteDriver x => done (h.handleNakRemoteDriver x)
  | .cnp => ⟨[.timeout .recvMeta],none⟩

/-- The MSN of the message a packet belongs to. -/
def msn : ReportMeta → Option UInt16
  | .headerWrite x => some x.msn
  | .headerRead x => some x.msn
  | _ => none

theorem not_mem_onAdvance (f : Psn → List Msg) (x : Option Psn) (m : Msg) (h : ∀ p,m∉f p) :
    m∉onAdvance f x := by
  cases x with
  | none => exact List.not_mem_nil
  | some p => exact h p

def readEvent (x : HeaderReadMeta) : RecvEvent := ⟨.recvRead,⟨x.msn,x.psn+(1 : UInt32)⟩,true⟩

/-- The receive event a report registers is that of the reported packet. -/
theorem handleMeta_event (h : MetaHandler) (m : ReportMeta) (e : RecvEvent)
    (hm : Msg.completion (.register (.recv e))∈(h.handleMeta m).msgs) :
    (∃ x,m=.headerWrite x ∧ e=recvEvent x) ∨ ∃ x,m=.headerRead x ∧ e=readEvent x := by
  have hadv := fun f x hf => not_mem_onAdvance f x (Msg.completion (.register (.recv e))) hf
  have hsend := hadv senderUpdates
  have hrecv := hadv receiverUpdates
  have hack := hadv ackRecvMsg
  cases m with
  | headerWrite x =>
      refine Or.inl ⟨x,rfl,?_⟩
      simp only [handleMeta,handleHeaderWrite,List.mem_cons,List.mem_append,reduceCtorEq,
        false_or] at hm
      rcases hm with (hm|hm)|hm
      · split_ifs at hm
        · simpa using hm
        · cases hm
      · exact absurd hm (hack _ (by simp [ackRecvMsg]))
      · split_ifs at hm
        · simp at hm
        · cases hm
  | headerRead x =>
      refine Or.inr ⟨x,rfl,?_⟩
      simp only [handleMeta,handleHeaderRead] at hm
      split_ifs at hm
      · simp only [List.mem_cons,List.mem_append,reduceCtorEq,false_or,List.not_mem_nil,or_false,
          Msg.completion.injEq,CompletionTask.register.injEq,Event.recv.injEq] at hm
        rcases hm with hm|hm
        · exact hm
        · exact absurd hm (hack _ (by simp [ackRecvMsg]))
      · simp at hm
  | ackLocalHw x =>
      simp only [handleMeta,handleAckLocalHw,List.mem_cons,reduceCtorEq,false_or] at hm
      exact absurd hm (hrecv _ (by simp [receiverUpdates]))
  | nakLocalHw x =>
      simp only [handleMeta,handleNakLocalHw,List.mem_cons,reduceCtorEq,false_or] at hm
      exact absurd hm (hrecv _ (by simp [receiverUpdates]))
  | ackRemoteDriver x =>
      simp only [handleMeta,handleAckRemoteDriver,List.mem_cons,reduceCtorEq,false_or] at hm
      exact absurd hm (hsend _ (by simp [senderUpdates]))
  | nakRemoteHw x =>
      simp only [handleMeta,handleNakRemoteHw,List.mem_cons,List.mem_append,reduceCtorEq,false_or,
        List.not_mem_nil,or_false] at hm
      exact absurd hm (hsend _ (by simp [senderUpdates]))
  | nakRemoteDriver x =>
      simp only [handleMeta,handleNakRemoteDriver,List.mem_cons,List.mem_append,reduceCtorEq,
        false_or,List.not_mem_nil,or_false] at hm
      exact absurd hm (hsend _ (by simp [senderUpdates]))
  | cnp => simp [handleMeta] at hm

/-- The receive event a report registers belongs to the message of the reported packet. -/
theorem handleMeta_register (h : MetaHandler) (m : ReportMeta) (e : RecvEvent)
    (hm : Msg.completion (.register (.recv e))∈(h.handleMeta m).msgs) :
    msn m=some e.msgMeta.msn := by
  rcases h.handleMeta_event m e hm with ⟨x,rfl,rfl⟩|⟨x,rfl,rfl⟩ <;> rfl

/-- What an acknowledgement by the local hardware adds to the receive tracker's left edge. -/
def localAdvance (h : MetaHandler) : ReportMeta → Option Psn
  | .ackLocalHw x => (h.recvTable.ackBitmap x.psnNow x.nowBitmap).2
  | .nakLocalHw x => (h.recvTable.nakBitmap x.psnPre x.preBitmap x.psnNow x.nowBitmap).2
  | _ => none

/-- Acknowledgements for the retransmit worker and the send worker. -/
def isSendAck : Msg → Bool
  | .retransmit (.ack _) | .rdma (.ack _) => true
  | _ => false

theorem not_sendAck_ackRecv (x : Option Psn) : ∀ m∈onAdvance ackRecvMsg x,isSendAck m=false := by
  cases x with
  | none => simp [onAdvance]
  | some p => simp [onAdvance,ackRecvMsg,isSendAck]

/-- A report that acknowledges nothing of the send queue and leaves its tracker alone. -/
theorem sendAcks_of_silent (h : MetaHandler) (m : ReportMeta)
    (hmsgs : ∀ x∈(h.handleMeta m).msgs,isSendAck x=false)
    (hnext : ∀ h',(h.handleMeta m).next=some h' → h'.sendTable=h.sendTable) :
    ∃ front adv tail,(h.handleMeta m).msgs=front++(onAdvance senderUpdates adv++tail) ∧
      (∀ x∈front,isSendAck x=false) ∧ (∀ x∈tail,isSendAck x=false) ∧
      ((h.handleMeta m).next=none → adv=none) ∧ ∀ h',(h.handleMeta m).next=some h' →
        h.sendTable.psnTracker.Reports (h'.sendTable.psnTracker,adv) := by
  refine ⟨(h.handleMeta m).msgs,none,[],by simp [onAdvance],hmsgs,by simp,fun _ => rfl,?_⟩
  intro h' hh
  rw [hnext h' hh]
  exact PsnTracker.reports_none _

/-- Apart from acknowledgements by the local hardware, the send queue is acknowledged exactly
where the send-side tracker has its left edge. -/
theorem handleMeta_sendAcks (h : MetaHandler) (m : ReportMeta) (hm : m.Valid)
    (hlocal : h.localAdvance m=none) :
    ∃ front adv tail,(h.handleMeta m).msgs=front++(onAdvance senderUpdates adv++tail) ∧
      (∀ x∈front,isSendAck x=false) ∧ (∀ x∈tail,isSendAck x=false) ∧
      ((h.handleMeta m).next=none → adv=none) ∧ ∀ h',(h.handleMeta m).next=some h' →
        h.sendTable.psnTracker.Reports (h'.sendTable.psnTracker,adv) := by
  have hfront : ∀ x∈[Msg.timeout .recvMeta],isSendAck x=false := by simp [isSendAck]
  cases m with
  | headerWrite x =>
      refine h.sendAcks_of_silent _ ?_ ?_
      · intro y hy
        simp only [handleMeta,handleHeaderWrite,List.mem_cons,List.mem_append] at hy
        rcases hy with rfl|(hy|hy)|hy
        · rfl
        · split_ifs at hy <;> simp_all [isSendAck]
        · exact not_sendAck_ackRecv _ y hy
        · split_ifs at hy <;> simp_all [isSendAck]
      · rintro h' ⟨⟩
        rfl
  | headerRead x =>
      refine h.sendAcks_of_silent _ ?_ ?_
      · intro y hy
        simp only [handleMeta,handleHeaderRead] at hy
        split_ifs at hy
        · simp only [List.mem_cons,List.mem_append,List.not_mem_nil,or_false] at hy
          rcases hy with rfl|rfl|hy|rfl
          · rfl
          · rfl
          · exact not_sendAck_ackRecv _ y hy
          · rfl
        · simp only [List.mem_cons,List.not_mem_nil,or_false] at hy
          rcases hy with rfl|rfl <;> rfl
      · intro h' hh
        simp only [handleMeta,handleHeaderRead] at hh
        split_ifs at hh <;> obtain rfl := Option.some.inj hh <;> rfl
  | ackLocalHw x =>
      have hadv : (h.recvTable.ackBitmap x.psnNow x.nowBitmap).2=none := hlocal
      refine h.sendAcks_of_silent _ ?_ ?_
      · simpa only [handleMeta,handleAckLocalHw,hadv,onAdvance,Option.elim_none] using hfront
      · rintro h' ⟨⟩
        rfl
  | nakLocalHw x =>
      have hadv : (h.recvTable.nakBitmap x.psnPre x.preBitmap x.psnNow x.nowBitmap).2=none := hlocal
      refine h.sendAcks_of_silent _ ?_ ?_
      · simpa only [handleMeta,handleNakLocalHw,hadv,onAdvance,Option.elim_none] using hfront
      · rintro h' ⟨⟩
        rfl
  | ackRemoteDriver x =>
      refine ⟨[.timeout .recvMeta],(h.sendTable.ackBefore x.psnNow).2,[],
        by simp [handleMeta,handleAckRemoteDriver],hfront,by simp,(fun hn => by cases hn),?_⟩
      rintro h' ⟨⟩
      exact h.sendTable.ackBefore_reports x.psnNow hm
  | nakRemoteHw x =>
      refine ⟨[.timeout .recvMeta],
        (h.sendTable.nakBitmap x.msn x.psnPre x.preBitmap x.psnNow x.nowBitmap).2,_,rfl,hfront,by simp [isSendAck],
        (fun hn => by cases hn),?_⟩
      rintro h' ⟨⟩
      exact h.sendTable.nakBitmap_reports x.msn x.psnPre x.preBitmap x.psnNow x.nowBitmap hm.2
  | nakRemoteDriver x =>
      refine ⟨[.timeout .recvMeta],(h.sendTable.ackBefore x.psnPre).2,_,rfl,hfront,by simp [isSendAck],
        (fun hn => by cases hn),?_⟩
      rintro h' ⟨⟩
      exact h.sendTable.ackBefore_reports x.psnPre hm.2
  | cnp =>
      refine h.sendAcks_of_silent _ hfront ?_
      rintro h' ⟨⟩

end MetaHandler
end BlueRdma

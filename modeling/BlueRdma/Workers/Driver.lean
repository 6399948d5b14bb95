import BlueRdma.Workers.AckResponder
import BlueRdma.Workers.Completion
import BlueRdma.Workers.MetaReport.Worker
import BlueRdma.Workers.QpTimeout
import BlueRdma.Workers.RdmaWrite
import BlueRdma.Workers.Retransmit

namespace BlueRdma

/-- The threads of a driver. -/
inductive Worker
  | rdmaWrite
  | completion
  | metaReport
  | packetRetransmit
  | ackResponder
  | ackTimeout
  deriving DecidableEq

/-- The entry of one QP in the tables of each worker. -/
@[reducible] def Worker.State : Worker → Type
  | .rdmaWrite => SendQueueContext
  | .completion => QueuePairMessageTracker
  | .metaReport => MetaHandler
  | .packetRetransmit => IbvSendQueue
  | .ackResponder => Unit
  | .ackTimeout => QpAckTimeout

namespace Driver

/-- The channel a message is sent on. -/
def dest : Msg → Option Worker
  | .report _ => some .metaReport
  | .tick => some .ackTimeout
  | .rdma _ => some .rdmaWrite
  | .completion _ => some .completion
  | .retransmit _ => some .packetRetransmit
  | .ack _ => some .ackResponder
  | .timeout _ => some .ackTimeout
  | .chunk _ | .frame _ | .sendCq _ _ | .recvCq _ _ => none

/-- What each thread does with a message from its channel. The choice is the clock for the
timeout worker and the wrap position of the ring buffer for the retransmit worker. -/
def process (qp : QpAttr) : (w : Worker) → Nat → w.State → Msg → Outcome Msg w.State
  | .rdmaWrite,_,s,.rdma t => RdmaWriteWorker.process qp s t
  | .completion,_,s,.completion t => CompletionWorker.process qp s t
  | .metaReport,_,s,.report m => s.handleMeta m
  | .packetRetransmit,c,s,.retransmit t => PacketRetransmitWorker.process c s t
  | .ackResponder,_,_,.ack t => AckResponder.process qp t
  | .ackTimeout,c,s,.timeout t => QpAckTimeoutWorker.process c s t
  | .ackTimeout,c,s,.tick => QpAckTimeoutWorker.maintainance c s
  | _,_,s,_ => ⟨[],some s⟩

end Driver

/-- The workers of a driver, as they treat one QP. -/
def driver (qp : QpAttr) : Program Worker Worker.State Nat Msg := ⟨Driver.dest,Driver.process qp⟩

/-- The entries of a QP that has just been created. -/
def Driver.fresh (config : AckTimeoutConfig) : (w : Worker) → w.State
  | .rdmaWrite => .init
  | .completion => {}
  | .metaReport => {}
  | .packetRetransmit => {}
  | .ackResponder => ()
  | .ackTimeout => QpAckTimeoutWorker.new config

def Driver.init (config : AckTimeoutConfig) : Net Worker Worker.State Msg where
  state := fun w => some (fresh config w)

namespace Driver

/-- The same with auxiliary data for proofs. -/
def initWith {G : Worker → Type} {T : Type} (config : AckTimeoutConfig) (aux : (w : Worker) → G w) :
    Net Worker (fun w => w.State × G w) (Msg × T) where
  state := fun w => some (fresh config w,aux w)

/-- What is proved about a driver with auxiliary data holds of the driver itself. -/
theorem erase_run (qp : QpAttr) (config : AckTimeoutConfig) {G : Worker → Type} {T : Type}
    (gh : Ghost (driver qp) G T) (aux : (w : Worker) → G w)
    (ls : List (NetLabel Worker Nat (Msg × T))) :
    (Run.run (Net.step ((driver qp).instrument gh)) (initWith config aux) ls).erase=
      Run.run (Net.step (driver qp)) (init config) (ls.map NetLabel.erase) :=
  Net.erase_run (driver qp) gh (initWith config aux) ls

/-- Messages that reach the workers from outside: posted work requests and receive buffers,
device reports, and the clock. -/
def External : Msg → Bool
  | .report _ | .tick | .rdma (.write _) | .completion (.register (.postRecv _)) => true
  | _ => false

theorem report_of_dest (m : Msg) (h : dest m=some .metaReport) : ∃ r,m=.report r := by
  unfold dest at h
  split at h <;> first | exact ⟨_,rfl⟩ | cases h

theorem completion_of_dest (m : Msg) (h : dest m=some .completion) : ∃ t,m=.completion t := by
  unfold dest at h
  split at h <;> first | exact ⟨_,rfl⟩ | cases h

theorem rdma_of_dest (m : Msg) (h : dest m=some .rdmaWrite) : ∃ t,m=.rdma t := by
  unfold dest at h
  split at h <;> first | exact ⟨_,rfl⟩ | cases h

theorem retransmit_of_dest (m : Msg) (h : dest m=some .packetRetransmit) : ∃ t,m=.retransmit t := by
  unfold dest at h
  split at h <;> first | exact ⟨_,rfl⟩ | cases h

/-- The kinds of messages each worker sends. -/
inductive Emits : Worker → Msg → Prop
  | registerSend (e : SendEvent) : Emits .rdmaWrite (.completion (.register (.send e)))
  | newAckReq : Emits .rdmaWrite (.timeout .newAckReq)
  | newWr (wr : SendQueueElem) : Emits .rdmaWrite (.retransmit (.newWr wr))
  | chunk (c : WrChunk) : Emits .rdmaWrite (.chunk c)
  | sendCq (e : SendEvent) : Emits .completion (.sendCq e e.completion)
  | timeoutAck : Emits .completion (.timeout .ack)
  | newComplete (msn : UInt16) : Emits .completion (.rdma (.newComplete msn))
  | ack (msn : UInt16) (lastPsn : Psn) : Emits .completion (.ack (.ack msn lastPsn))
  | recvCq (e : RecvEvent) (c : Option Completion) : Emits .completion (.recvCq e c)
  | recvMeta : Emits .metaReport (.timeout .recvMeta)
  | registerRecv (e : RecvEvent) : Emits .metaReport (.completion (.register (.recv e)))
  | ackSend (p : Psn) : Emits .metaReport (.completion (.ackSend p))
  | ackRecv (p : Psn) : Emits .metaReport (.completion (.ackRecv p))
  | retransmitAck (p : Psn) : Emits .metaReport (.retransmit (.ack p))
  | retransmitRange (lo hi : Psn) : Emits .metaReport (.retransmit (.retransmitRange lo hi))
  | rdmaAck (p : Psn) : Emits .metaReport (.rdma (.ack p))
  | readResp (wr : SendWrRdma) : Emits .metaReport (.rdma (.write wr))
  | nak (p q : Psn) : Emits .metaReport (.ack (.nak p q))
  | resend (c : WrChunk) : Emits .packetRetransmit (.chunk c)
  | frame (f : AckFrame) : Emits .ackResponder (.frame f)
  | retransmitAll : Emits .ackTimeout (.retransmit .retransmitAll)

/-- What no message of a worker contributes to, its sent messages do not contribute to. -/
theorem filterMap_emits {τ β : Type} (f : Msg × τ → Option β) (w : Worker)
    (hf : ∀ m y,Emits w m → f (m,y)=none) (ms : List (Msg × τ)) (h : ∀ x∈ms,Emits w x.1) :
    ms.filterMap f=[] := by
  apply List.filterMap_eq_nil_iff.mpr
  intro x hx
  exact hf x.1 x.2 (h x hx)

theorem emits_requestMsgs (qp : QpAttr) (wr : SendWrRdma) (n : UInt32) (msn : UInt16) (psn : Psn)
    (op : Option SendEventOp) (timer stored : Bool) (chunks : List WrChunk) :
    ∀ m∈RdmaWriteWorker.requestMsgs qp wr n msn psn op timer stored chunks,Emits .rdmaWrite m := by
  intro m hm
  simp only [RdmaWriteWorker.requestMsgs,List.mem_append,Option.mem_toList,
    Option.map_eq_some_iff,List.mem_map] at hm
  rcases hm with ((⟨x,-,rfl⟩|hm)|hm)|⟨c,-,rfl⟩
  · constructor
  · split_ifs at hm
    · obtain rfl := List.mem_singleton.mp hm
      constructor
    · cases hm
  · split_ifs at hm
    · obtain rfl := List.mem_singleton.mp hm
      constructor
    · cases hm
  · constructor

theorem emits_rdmaWrite (qp : QpAttr) (ctx : SendQueueContext) (t : RdmaWriteTask) :
    ∀ m∈(RdmaWriteWorker.process qp ctx t).msgs,Emits .rdmaWrite m := by
  intro m hm
  cases t with
  | ack p => cases hm
  | newComplete p => cases hm
  | write wr =>
      rcases RdmaWriteWorker.process_write qp ctx wr with h|h|⟨n,msn,psn,h⟩
      · rw [h.1] at hm
        cases hm
      · rw [h] at hm
        cases hm
      · obtain ⟨op,timer,stored,chunks,hmsgs,-⟩ := h.msgs
        rw [hmsgs] at hm
        exact emits_requestMsgs qp wr n msn psn op timer stored chunks m hm

theorem emits_completion (qp : QpAttr) (t : QueuePairMessageTracker) (task : CompletionTask) :
    ∀ m∈(CompletionWorker.process qp t task).msgs,Emits .completion m := by
  have hsends : ∀ es : List SendEvent,
      ∀ m∈es.flatMap QueuePairMessageTracker.sendMsgs,Emits .completion m := by
    intro es m hm
    obtain ⟨e,-,hm⟩ := List.mem_flatMap.mp hm
    simp only [QueuePairMessageTracker.sendMsgs,List.mem_cons,List.not_mem_nil,or_false] at hm
    rcases hm with rfl|rfl|rfl <;> constructor
  intro m hm
  cases task with
  | register e => cases hm
  | ackSend psn =>
      rcases CompletionWorker.process_ackSend_cases qp t psn with hproc|⟨es,rest,-,-,hproc⟩ <;>
        rw [hproc] at hm
      · cases hm
      · exact hsends es m hm
  | ackRecv psn =>
      rcases CompletionWorker.process_ackRecv_cases qp t psn with hproc|⟨es,rest,-,-,hproc⟩ <;>
        rw [hproc] at hm
      · cases hm
      rcases List.mem_append.mp hm with hm|hm
      · exact hsends es m hm
      · obtain ⟨p,-,hm⟩ := List.mem_flatMap.mp hm
        simp only [QueuePairMessageTracker.recvMsgs,List.mem_append,List.mem_singleton] at hm
        rcases hm with hm|rfl
        · split_ifs at hm
          · obtain rfl := List.mem_singleton.mp hm
            constructor
          · cases hm
        · constructor

theorem emits_onAdvance (f : Psn → List Msg) (x : Option Psn)
    (hf : ∀ p,∀ m∈f p,Emits .metaReport m) :
    ∀ m∈MetaHandler.onAdvance f x,Emits .metaReport m := by
  intro m hm
  cases x with
  | none => cases hm
  | some p => exact hf p m hm

theorem emits_metaReport (h : MetaHandler) (x : ReportMeta) :
    ∀ m∈(h.handleMeta x).msgs,Emits .metaReport m := by
  have hsender := fun x => emits_onAdvance MetaHandler.senderUpdates x (by
    intro p m hm
    simp only [MetaHandler.senderUpdates,List.mem_cons,List.not_mem_nil,or_false] at hm
    rcases hm with rfl|rfl|rfl <;> constructor)
  have hreceiver := fun x => emits_onAdvance MetaHandler.receiverUpdates x (by
    intro p m hm
    simp only [MetaHandler.receiverUpdates,List.mem_cons,List.not_mem_nil,or_false] at hm
    rcases hm with rfl|rfl <;> constructor)
  have hrecv := fun x => emits_onAdvance MetaHandler.ackRecvMsg x (by
    intro p m hm
    obtain rfl := List.mem_singleton.mp hm
    constructor)
  intro m hm
  rcases List.mem_cons.mp (show m∈Msg.timeout .recvMeta::(h.handleMeta x).msgs.tail by
    cases x <;> exact hm) with rfl|hm
  · constructor
  cases x with
  | cnp => cases hm
  | ackLocalHw x => exact hreceiver _ m hm
  | nakLocalHw x => exact hreceiver _ m hm
  | ackRemoteDriver x => exact hsender _ m hm
  | nakRemoteHw x =>
      rcases List.mem_append.mp hm with hm|hm
      · exact hsender _ m hm
      · obtain rfl := List.mem_singleton.mp hm
        constructor
  | nakRemoteDriver x =>
      rcases List.mem_append.mp hm with hm|hm
      · exact hsender _ m hm
      · obtain rfl := List.mem_singleton.mp hm
        constructor
  | headerRead x =>
      change m∈(h.handleHeaderRead x).2 at hm
      unfold MetaHandler.handleHeaderRead at hm
      dsimp only at hm
      split_ifs at hm
      · rcases List.mem_cons.mp hm with rfl|hm
        · constructor
        rcases List.mem_append.mp hm with hm|hm
        · exact hrecv _ m hm
        · obtain rfl := List.mem_singleton.mp hm
          constructor
      · obtain rfl := List.mem_singleton.mp hm
        constructor
  | headerWrite x =>
      change m∈(h.handleHeaderWrite x).2 at hm
      unfold MetaHandler.handleHeaderWrite at hm
      rcases List.mem_append.mp hm with hm|hm
      · rcases List.mem_append.mp hm with hm|hm
        · split_ifs at hm
          · obtain rfl := List.mem_singleton.mp hm
            constructor
          · cases hm
        · exact hrecv _ m hm
      · split_ifs at hm
        · obtain rfl := List.mem_singleton.mp hm
          constructor
        · cases hm

theorem emits_packetRetransmit (split : Nat) (sq : IbvSendQueue) (t : PacketRetransmitTask) :
    ∀ m∈(PacketRetransmitWorker.process split sq t).msgs,Emits .packetRetransmit m := by
  have hsent : ∀ keep (ps : List (Option WrChunk)),
      ∀ m∈(PacketRetransmitWorker.transmit keep ps).1,Emits .packetRetransmit m := by
    intro keep ps m hm
    induction ps with
    | nil => cases hm
    | cons x xs ih =>
        cases x with
        | none => cases hm
        | some c =>
            unfold PacketRetransmitWorker.transmit at hm
            split_ifs at hm
            · rcases List.mem_cons.mp hm with rfl|hm
              · constructor
              · exact ih hm
            · cases hm
  intro m hm
  cases t with
  | newWr wr => cases hm
  | ack psn => cases hm
  | retransmitAll => exact hsent _ _ m hm
  | retransmitRange lo hi => exact hsent _ _ m hm

theorem emits_ackResponder (qp : QpAttr) (t : AckResponse) :
    ∀ m∈(AckResponder.process qp t).msgs,Emits .ackResponder m := by
  intro m hm
  unfold AckResponder.process at hm
  dsimp only at hm
  split at hm
  · cases hm
  · obtain rfl := List.mem_singleton.mp hm
    constructor

theorem emits_ackTimeout (now : Nat) (w : QpAckTimeout) :
    ∀ m∈(QpAckTimeoutWorker.maintainance now w).msgs,Emits .ackTimeout m := by
  intro m hm
  unfold QpAckTimeoutWorker.maintainance at hm
  split at hm
  · cases hm
  · obtain rfl := List.mem_singleton.mp hm
    constructor
  · cases hm

/-- Each worker sends messages of its own kinds only. -/
theorem process_emits (qp : QpAttr) (w : Worker) (c : Nat) (s : w.State) (m : Msg) :
    ∀ m'∈(process qp w c s m).msgs,Emits w m' := by
  intro m' hm'
  unfold process at hm'
  split at hm'
  · exact emits_rdmaWrite qp _ _ m' hm'
  · exact emits_completion qp _ _ m' hm'
  · exact emits_metaReport _ _ m' hm'
  · exact emits_packetRetransmit _ _ _ m' hm'
  · exact emits_ackResponder qp _ m' hm'
  · next t => cases t <;> cases hm'
  · exact emits_ackTimeout _ _ m' hm'
  · cases hm'

/-- The same of what it sends in a turn, with any auxiliary data. -/
theorem emits_sent (qp : QpAttr) {G : Worker → Type} {T : Type} (gh : Ghost (driver qp) G T)
    (n n' : Net Worker (fun w => w.State × G w) (Msg × T)) (w : Worker) (c : Nat)
    (s : w.State × G w) (x : Msg × T) (rest sent : List (Msg × T))
    (ht : Net.Turn ((driver qp).instrument gh) n w c s x rest sent n') : ∀ y∈sent,Emits w y.1 := by
  intro y hy
  obtain ⟨m,hm,rfl⟩ := List.mem_map.mp (ht.sent_prefix.subset hy)
  exact process_emits qp w c s.1 x.1 m hm

/-- Every message came from outside or is of a kind one of the workers sends. -/
def Origin {G : Worker → Type} {T : Type} (n : Net Worker (fun w => w.State × G w) (Msg × T)) : Prop :=
  ∀ x∈n.log,External x.1=true ∨ ∃ w,Emits w x.1

theorem step_origin (qp : QpAttr) {G : Worker → Type} {T : Type} (gh : Ghost (driver qp) G T)
    (n : Net Worker (fun w => w.State × G w) (Msg × T)) (l : NetLabel Worker Nat (Msg × T))
    (hl : ∀ x,l=.post x → External x.1=true) (h : Origin n) :
    Origin (n.step ((driver qp).instrument gh) l) := by
  intro y hy
  cases l with
  | post x =>
      rcases List.mem_append.mp hy with hy|hy
      · exact h y hy
      · have heq := List.mem_singleton.mp ((List.takeWhile_prefix _).subset hy)
        exact Or.inl (heq ▸ hl x rfl)
  | crash w => exact h y hy
  | work w c =>
      rcases Net.work_cases ((driver qp).instrument gh) n w c with heq|⟨s,x,rest,sent,ht⟩
      · rw [Net.step,heq] at hy
        exact h y hy
      · rw [Net.step,ht.log] at hy
        rcases List.mem_append.mp hy with hy|hy
        · exact h y hy
        · exact Or.inr ⟨w,emits_sent qp gh n _ w c s x rest sent ht y hy⟩

/-- What is pushed on the send completion queue is the completion of the event. -/
theorem Origin.sendCq {G : Worker → Type} {T : Type}
    (n : Net Worker (fun w => w.State × G w) (Msg × T)) (h : Origin n) (e : SendEvent)
    (c : Completion) (t : T) (hx : (Msg.sendCq e c,t)∈n.log) : c=e.completion := by
  rcases h _ hx with hext|⟨w,hem⟩
  · cases hext
  · cases hem
    rfl

end Driver
end BlueRdma

import BlueRdma.Workers.Device

namespace BlueRdma

/-- Path MTU codes the fragmenters accept. -/
def knownMtu (pmtu : UInt8) : Bool := (convertIbvMtuToU16 pmtu).isSome

namespace RdmaWriteWorker

/-- The opcodes `RdmaWriteWorker::process` has a branch for. -/
def served : WorkReqOpCode → Bool
  | .rdmaWrite | .rdmaWriteWithImm | .send | .sendWithImm | .rdmaReadResp | .rdmaRead => true
  | _ => false

theorem wrChunkFragmenter_some (wr : SendWrRdma) (q : QpParams) (psn : Psn)
    (h : knownMtu q.pmtu=true) : ∃ cs,wrChunkFragmenter wr q psn=some cs := by
  obtain ⟨m,hm⟩ := Option.isSome_iff_exists.mp h
  refine Option.isSome_iff_exists.mp ?_
  simp [wrChunkFragmenter,ChunkFragmenter.intoIter,hm]

theorem transmit_alive (wr : SendWrRdma) (q : QpParams) (psn : Psn) (ctx : SendQueueContext)
    (h : knownMtu q.pmtu=true) : (transmit wr q psn ctx).next=some ctx := by
  obtain ⟨cs,hcs⟩ := wrChunkFragmenter_some wr q psn h
  rw [transmit,hcs]

theorem transmitSignaled_alive (wr : SendWrRdma) (q : QpParams) (psn : Psn) (e : SendEvent)
    (ctx : SendQueueContext) (h : knownMtu q.pmtu=true) :
    (transmitSignaled wr q psn e ctx).next=some ctx := by
  obtain ⟨m,hm⟩ := Option.isSome_iff_exists.mp h
  obtain ⟨ps,hps,-⟩ := wrPacketFragmenter_spec wr q m psn hm
  rw [transmitSignaled,hps]
  cases ps with
  | nil => rfl
  | cons p ps => exact transmit_alive wr q psn ctx h

/-- A write gets its PSN count before it is cut, and the count needs the path MTU. -/
theorem knownMtu_of_numPsn (pmtu : UInt8) (addr : UInt64) (length n : UInt32)
    (h : numPsn pmtu addr length=some n) : knownMtu pmtu=true := by
  rcases hm : convertIbvMtuToU16 pmtu with _|m
  · simp [numPsn,hm] at h
  · rw [knownMtu,hm]
    rfl

/-- The send worker survives every request it has a branch for. -/
theorem process_alive (qp : QpAttr) (ctx : SendQueueContext) (wr : SendWrRdma)
    (h : served wr.opcode=true) : (process qp ctx (.write wr)).next.isSome=true := by
  have hwrite : (write qp ctx wr).next.isSome=true := by
    unfold write
    split
    · rfl
    next n hn =>
    have hmtu := knownMtu_of_numPsn _ _ _ _ hn
    split
    · rfl
    next ctx' msn psn _ =>
    dsimp only
    split_ifs
    · split
      · rw [transmitSignaled_alive _ _ _ _ _ hmtu]
        rfl
      · rfl
    · rw [transmit_alive _ _ _ _ hmtu]
      rfl
  have hread : (rdmaRead qp ctx wr).next.isSome=true := by
    unfold rdmaRead
    split <;> rfl
  cases hop : wr.opcode
  case rdmaWrite | rdmaWriteWithImm | send | sendWithImm | rdmaReadResp =>
    simpa only [process,hop] using hwrite
  case rdmaRead => simpa only [process,hop] using hread
  all_goals simp [hop,served] at h

/-- What goes to the retransmit queue has the path MTU of the QP, which is known unless the
request is a read. -/
theorem process_newWr (qp : QpAttr) (ctx : SendQueueContext) (t : RdmaWriteTask)
    (e : SendQueueElem) (h : Msg.retransmit (.newWr e)∈(process qp ctx t).msgs) :
    ∃ wr,t=.write wr ∧ e.qpParam.pmtu=qp.pmtu ∧ (wr.opcode=.rdmaRead ∨ knownMtu qp.pmtu=true) := by
  cases t with
  | ack p => cases h
  | newComplete m => cases h
  | write wr =>
      refine ⟨wr,rfl,?_⟩
      rcases process_write qp ctx wr with hp|hp|⟨n,msn,psn,ha⟩
      · rw [hp.1] at h
        cases h
      · rw [hp] at h
        cases h
      · obtain ⟨op,timer,stored,chunks,hmsgs,-⟩ := ha.msgs
        rw [hmsgs] at h
        refine ⟨?_,?_⟩
        · have he : e=⟨psn,wr,QpParams.ofAttr msn qp⟩ := by
            simp only [requestMsgs,List.mem_append,Option.mem_toList,Option.map_eq_some_iff,
              List.mem_map] at h
            rcases h with ((⟨x,-,hx⟩|h)|h)|⟨c,-,hc⟩
            · cases hx
            · split_ifs at h <;> simp at h
            · split_ifs at h
              · simpa using h
              · cases h
            · cases hc
          rw [he]
          rfl
        · have hcount := ha.count
          unfold psnCount at hcount
          cases hop : wr.opcode <;> rw [hop] at hcount <;>
            first | exact Or.inl rfl | cases hcount | exact Or.inr (knownMtu_of_numPsn _ _ _ _ hcount)

end RdmaWriteWorker

/-- Every request in the queue can be cut into packets. -/
def IbvSendQueue.Known (sq : IbvSendQueue) : Prop := ∀ e∈sq.inner,knownMtu e.qpParam.pmtu=true

namespace PacketRetransmitWorker

theorem transmit_alive (keep skip : WrChunk → Bool) (sqes : List SendQueueElem)
    (h : ∀ e∈sqes,knownMtu e.qpParam.pmtu=true) :
    (transmit keep (skipWhile skip (packetStream sqes))).2=true := by
  rw [packetStream_eq sqes h,skipWhile_map_some,transmit_map_some]

/-- The retransmit worker survives as long as its queue can be cut. -/
theorem process_known (split : Nat) (sq : IbvSendQueue) (t : PacketRetransmitTask) (h : sq.Known)
    (ht : ∀ e,t=.newWr e → knownMtu e.qpParam.pmtu=true) :
    ∃ sq',(process split sq t).next=some sq' ∧ sq'.Known := by
  cases t with
  | newWr e =>
      refine ⟨_,rfl,?_⟩
      intro x hx
      rcases List.mem_append.mp hx with hx|hx
      · exact h x hx
      · rw [List.mem_singleton.mp hx]
        exact ht e rfl
  | ack psn =>
      refine ⟨_,rfl,?_⟩
      intro x hx
      exact h x (List.mem_of_mem_drop hx)
  | retransmitAll =>
      refine ⟨sq,?_,h⟩
      rw [process]
      dsimp only
      rw [if_pos (transmit_alive _ _ _ h)]
  | retransmitRange lo hi =>
      have hrange : ∀ e∈sq.range split lo hi,knownMtu e.qpParam.pmtu=true := by
        intro e he
        rw [IbvSendQueue.range] at he
        split_ifs at he
        · cases he
        · exact h e (List.mem_of_mem_take (List.mem_of_mem_drop he))
      refine ⟨sq,?_,h⟩
      rw [process]
      dsimp only
      rw [if_pos (transmit_alive _ _ _ hrange)]

end PacketRetransmitWorker

/-- The messages for which a worker builds a fragmenter. -/
def cuts : Worker → Msg → Bool
  | .rdmaWrite,.rdma (.write wr) => RdmaWriteWorker.served wr.opcode
  | .packetRetransmit,.retransmit _ => true
  | _,_ => false

namespace Device

/-- The worker's next turn runs into `unreachable!("invalid ibv_mtu")`: it panics on a message
for which nothing else makes it panic. -/
def reachesInvalidMtu (d : Device) (w : Worker) (c : Fin maxQpCnt → Nat) : Bool :=
  match d.net.state w,d.net.inbox w with
  | some t,x::_ => cuts w x.2 && (Driver.processDevice d.ctx.qpAttrTable w c t x).next.isNone
  | _,_ => false

/-- A read request is taken only while the path MTU stored for its QP is a known one. -/
def readsKnownMtu (d : Device) : DeviceLabel → Bool
  | .work .rdmaWrite _ => match d.net.state .rdmaWrite,d.net.inbox .rdmaWrite with
    | some _,(qpn,.rdma (.write wr))::_ => wr.opcode != .rdmaRead ||
        (QpTable.index? qpn).all (fun i => knownMtu (d.ctx.qpAttrTable i).pmtu)
    | _,_ => true
  | _ => true

end Device

/-- All requests that wait for retransmission, or to be recorded for it, can be cut. -/
structure MtuKnown (n : Net Worker (fun w => QpTable w.State) QpMsg) : Prop where
  queues : ∀ t,n.state .packetRetransmit=some t → ∀ i,(t i).Known
  inbox : ∀ x∈n.inbox .packetRetransmit,∀ e,x.2=.retransmit (.newWr e) → knownMtu e.qpParam.pmtu=true

namespace Driver

/-- Only the send worker hands over requests, and only one it was given for a QP it knows. -/
theorem processDevice_newWr (attrs : QpTable QpAttr) (w : Worker) (c : Fin maxQpCnt → Nat)
    (t : QpTable w.State) (qpn : UInt32) (m : Msg) (x : QpMsg) (e : SendQueueElem)
    (hx : x∈(processDevice attrs w c t (qpn,m)).msgs) (he : x.2=.retransmit (.newWr e)) :
    w=.rdmaWrite ∧ ∃ i wr,QpTable.index? qpn=some i ∧ m=.rdma (.write wr) ∧
      e.qpParam.pmtu=(attrs i).pmtu ∧ (wr.opcode=.rdmaRead ∨ knownMtu (attrs i).pmtu=true) := by
  have hem := processDevice_emits attrs w c t qpn m x hx
  rw [he] at hem
  obtain rfl : w=.rdmaWrite := by
    cases hem
    rfl
  rw [processDevice_task attrs .rdmaWrite c t qpn m (fun h => nomatch h.1),processTable] at hx
  rcases hi : QpTable.index? qpn with _|i
  · rw [hi] at hx
    obtain ⟨y,hy,rfl⟩ := List.mem_map.mp hx
    unfold processUnknown at hy
    split at hy
    case h_1 => split at hy <;> cases hy
    all_goals simp_all
  · rw [hi] at hx
    obtain ⟨y,hy,rfl⟩ := List.mem_map.mp hx
    obtain rfl : y=.retransmit (.newWr e) := he
    refine ⟨rfl,i,?_⟩
    cases m with
    | rdma task =>
        obtain ⟨wr,rfl,hpmtu,hknown⟩ := RdmaWriteWorker.process_newWr (attrs i) (t i) task e hy
        exact ⟨wr,rfl,rfl,hpmtu,hknown⟩
    | _ => cases hy

end Driver

theorem MtuKnown.post (attrs : QpTable QpAttr) (n : Net Worker (fun w => QpTable w.State) QpMsg)
    (x : QpMsg) (hx : Driver.External x.2=true) (h : MtuKnown n) :
    MtuKnown (n.step (deviceProgram attrs) (.post x)) := by
  refine ⟨h.queues,?_⟩
  intro y hy e he
  rcases List.mem_append.mp hy with hy|hy
  · exact h.inbox y hy e he
  · have hmem := ((Net.mem_addressed _ _ _ y).mp hy).1
    obtain rfl := List.mem_singleton.mp ((List.takeWhile_prefix _).subset hmem)
    rw [he] at hx
    cases hx

theorem MtuKnown.crash (attrs : QpTable QpAttr) (n : Net Worker (fun w => QpTable w.State) QpMsg)
    (w : Worker) (h : MtuKnown n) : MtuKnown (n.step (deviceProgram attrs) (.crash w)) :=
  ⟨fun t ht => h.queues t (Net.step_crash _ n w .packetRetransmit t ht),h.inbox⟩

/-- The retransmit worker's turn on a queue that can be cut. -/
theorem processDevice_known (attrs : QpTable QpAttr) (c : Fin maxQpCnt → Nat)
    (t : QpTable IbvSendQueue) (x : QpMsg) (h : ∀ i,(t i).Known)
    (hx : ∀ e,x.2=.retransmit (.newWr e) → knownMtu e.qpParam.pmtu=true) :
    ∃ t',(Driver.processDevice attrs .packetRetransmit c t x).next=some t' ∧ ∀ i,(t' i).Known := by
  obtain ⟨qpn,m⟩ := x
  rw [Driver.processDevice_task _ _ _ _ _ _ (by simp),Driver.processTable]
  rcases QpTable.index? qpn with _|i
  · exact ⟨t,by cases m <;> rfl,h⟩
  cases m with
  | retransmit task =>
      obtain ⟨sq,hsq,hknown⟩ := PacketRetransmitWorker.process_known (c i) (t i) task (h i)
        (fun e he => hx e (congrArg Msg.retransmit he))
      refine ⟨Function.update t i sq,by dsimp only [Driver.process]; rw [hsq]; rfl,?_⟩
      intro j
      by_cases hj : j=i
      · subst hj
        rw [Function.update_self]
        exact hknown
      · rw [Function.update_of_ne hj]
        exact h j
  | _ => exact ⟨t,by simp [Driver.process],h⟩

/-- The send worker's turn on a request it has a branch for. -/
theorem processDevice_served (attrs : QpTable QpAttr) (c : Fin maxQpCnt → Nat)
    (t : QpTable SendQueueContext) (qpn : UInt32) (wr : SendWrRdma)
    (h : RdmaWriteWorker.served wr.opcode=true) :
    (Driver.processDevice attrs .rdmaWrite c t (qpn,.rdma (.write wr))).next.isSome=true := by
  rw [Driver.processDevice_task _ _ _ _ _ _ (by simp),Driver.processTable]
  rcases QpTable.index? qpn with _|i
  · dsimp only [Driver.processUnknown]
    cases hop : wr.opcode <;> first | rfl | simp [hop,RdmaWriteWorker.served] at h
  · dsimp only [Driver.process]
    rw [Option.isSome_map]
    exact RdmaWriteWorker.process_alive (attrs i) (t i) wr h

theorem MtuKnown.work (d : Device) (w : Worker) (c : Fin maxQpCnt → Nat)
    (hread : d.readsKnownMtu (.work w c)=true) (h : MtuKnown d.net) :
    MtuKnown (d.net.step (deviceProgram d.ctx.qpAttrTable) (.work w c)) := by
  rcases Net.work_cases (deviceProgram d.ctx.qpAttrTable) d.net w c with heq|⟨t,x,rest,sent,ht⟩
  · rw [Net.step,heq]
    exact h
  rw [Net.step]
  refine ⟨?_,?_⟩
  · intro t' ht'
    by_cases hw : w=.packetRetransmit
    · subst hw
      obtain ⟨t'',hnext,hknown⟩ := processDevice_known d.ctx.qpAttrTable c t x
        (h.queues t ht.alive) (h.inbox x (by rw [ht.head]; exact List.mem_cons_self))
      rcases ht.state_self with hnone|⟨hsome,-⟩
      · rw [hnone] at ht'
        cases ht'
      · obtain rfl : t''=t' := Option.some.inj (hnext.symm.trans (hsome.symm.trans ht'))
        exact hknown
    · rw [ht.state_other _ (Ne.symm hw)] at ht'
      exact h.queues t' ht'
  · intro y hy e he
    rcases Net.Turn.mem_inbox _ _ _ _ _ _ _ _ _ ht _ y hy with hy|hy
    · exact h.inbox y hy e he
    · obtain ⟨rfl,i,wr,hi,hm,hpmtu,hknown⟩ := Driver.processDevice_newWr d.ctx.qpAttrTable w c t x.1
        x.2 y e (ht.sent_prefix.subset hy) he
      rw [hpmtu]
      rcases hknown with hop|hknown
      · have hx : d.net.inbox .rdmaWrite=(x.1,.rdma (.write wr))::rest := by rw [ht.head,← hm]
        simpa [Device.readsKnownMtu,ht.alive,hx,hop,hi] using hread
      · exact hknown

theorem MtuKnown.unreached (d : Device) (h : MtuKnown d.net) (w : Worker)
    (c : Fin maxQpCnt → Nat) : d.reachesInvalidMtu w c=false := by
  unfold Device.reachesInvalidMtu
  split
  · next t x rest ht hx =>
      obtain ⟨qpn,m⟩ := x
      rw [Bool.and_eq_false_iff]
      cases w with
      | packetRetransmit =>
          right
          obtain ⟨t',hnext,-⟩ := processDevice_known d.ctx.qpAttrTable c t (qpn,m) (h.queues t ht)
            (h.inbox _ (by rw [hx]; exact List.mem_cons_self))
          rw [hnext]
          rfl
      | rdmaWrite =>
          cases m with
          | rdma task =>
              cases task with
              | write wr =>
                  cases hs : RdmaWriteWorker.served wr.opcode with
                  | false => exact Or.inl hs
                  | true =>
                      right
                      have halive := processDevice_served d.ctx.qpAttrTable c t qpn wr hs
                      rw [Option.isNone_eq_false_iff]
                      exact halive
              | _ => exact Or.inl rfl
          | _ => exact Or.inl rfl
      | _ => exact Or.inl (by cases m <;> rfl)
  · rfl

/-- When every read request is taken with a known path MTU, no turn of the workers reaches the
branch for an unknown one. -/
theorem invalid_mtu_unreached (ip : UInt32) (config : AckTimeoutConfig) (ls : List DeviceLabel)
    (h : Run.Along Device.step (fun d l => d.readsKnownMtu l=true) (.initialized ip config) ls)
    (w : Worker) (c : Fin maxQpCnt → Nat) :
    (Device.run ip config ls).reachesInvalidMtu w c=false := by
  have hinit : MtuKnown (Device.initialized ip config).net := by
    refine ⟨?_,by intro x hx; cases hx⟩
    intro t ht i e he
    obtain rfl := Option.some.inj ht
    cases he
  have hrun : MtuKnown (Device.run ip config ls).net := by
    refine Run.run_inv Device.step _ (fun d => MtuKnown d.net) ?_ _ ls h hinit
    intro d l hl hd
    refine d.step_net MtuKnown l MtuKnown.post MtuKnown.crash ?_ hd
    rintro w c rfl
    exact hd.work d w c hl
  exact hrun.unreached _ w c

/-- A QP with the given path MTU, a signalled read on it, and a request of the peer to send its
packet again. -/
def readAgain (pathMtu : UInt8) : List DeviceLabel :=
  [.createQp ⟨2,some 0,some 0⟩ 0,.updateQp 0x100 {pathMtu := some pathMtu} {},
    .postSend 0x100 (.rdma ⟨⟨1,ibvSendSignaled,0x1000,64,0,0,.rdmaRead⟩,0x2000,0⟩),
    .work .rdmaWrite (fun _ => 0),.report 0x100 (.nakRemoteDriver ⟨⟨1⟩,⟨0⟩⟩),
    .work .metaReport (fun _ => 0),.work .packetRetransmit (fun _ => 0),
    .work .packetRetransmit (fun _ => 0)]

theorem invalid_mtu_unreached_1024 :
    (Device.run 0x0A000001 .default (readAgain 3)).reachesInvalidMtu .packetRetransmit
      (fun _ => 0)=false :=
  invalid_mtu_unreached 0x0A000001 .default (readAgain 3) (by decide +kernel) .packetRetransmit
    (fun _ => 0)

/-- `update_qp` with path MTU 0 is accepted, the read is sent, and its retransmission panics. -/
theorem read_with_invalid_mtu :
    let d := Device.run 0x0A000001 .default (readAgain 0)
    (d.net.inbox .packetRetransmit)=[(0x100,.retransmit (.retransmitRange ⟨0⟩ ⟨1⟩))] ∧
    d.reachesInvalidMtu .packetRetransmit (fun _ => 0)=true := by
  decide +kernel

end BlueRdma

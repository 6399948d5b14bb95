import BlueRdma.Protocol.RequestChunks
import BlueRdma.Verbs.Post
import BlueRdma.Workers.Driver

namespace BlueRdma
namespace RequestLoss

/-- The chunks among the messages, which go to the device. -/
def chunksOf (ms : List Msg) : List WrChunk := ms.filterMap (fun | .chunk c => some c | _ => none)

/-- The request is handed over in chunks or a completion is pushed. -/
def Answered (qp : QpAttr) (wr : SendWrRdma) (ms : List Msg) : Prop :=
  HandsOver qp wr (chunksOf ms) ∨ ∃ e c,Msg.sendCq e c∈ms

/-- The request has a PSN count and both windows have room for it, a completion queue exists if
one is asked for, and a write or send has bytes that can be cut into chunks. -/
structure Transmittable (qp : QpAttr) (ctx : SendQueueContext) (wr : SendWrRdma) : Prop where
  window : ∃ n,RdmaWriteWorker.psnCount qp wr=some n ∧
    (ctx.psn-ctx.psnAcked+n).toNat ≤ maxPsnWindow ∧ (ctx.msn-ctx.msnAcked).toNat < maxSendWr
  queue : wr.signaled=true → qp.sendCq.isSome=true
  bytes : wr.opcode≠.rdmaRead → ∀ m,convertIbvMtuToU16 qp.pmtu=some m → wr.InChunks m

/-- The threads the request is announced to are alive. -/
structure Announced (n : Net Worker Worker.State Msg) (wr : SendWrRdma) : Prop where
  retransmit : (n.state .packetRetransmit).isSome=true
  signaled : wr.signaled=true →
    (n.state .completion).isSome=true ∧ (n.state .ackTimeout).isSome=true

theorem chunksOf_map (cs : List WrChunk) : chunksOf (cs.map .chunk)=cs := by
  induction cs with
  | nil => rfl
  | cons c cs ih => rw [List.map_cons,chunksOf,List.filterMap_cons,← chunksOf,ih]

/-- If every announcement arrives the chunks follow, else none does. -/
theorem chunksOf_delivered (qp : QpAttr) (n : Net Worker Worker.State Msg) (pre : List Msg)
    (cs : List WrChunk) (hpre : chunksOf pre=[]) :
    chunksOf (n.delivered (driver qp) (pre++cs.map .chunk))=
      if ∀ m∈pre,n.reaches (driver qp) m=true then cs else [] := by
  have hall : (cs.map Msg.chunk).takeWhile (n.reaches (driver qp))=cs.map .chunk := by
    rw [List.takeWhile_eq_self_iff]
    intro m hm
    obtain ⟨c,-,rfl⟩ := List.mem_map.mp hm
    rfl
  rw [Net.delivered]
  split_ifs with hreach
  · rw [List.takeWhile_append_of_pos hreach,hall,chunksOf,List.filterMap_append,← chunksOf,
      ← chunksOf,hpre,chunksOf_map,List.nil_append]
  · rw [List.takeWhile_append,if_neg]
    · apply List.eq_nil_of_sublist_nil
      rw [← hpre]
      exact (List.takeWhile_sublist _).filterMap _
    · intro hlen
      have heq := (List.takeWhile_prefix (n.reaches (driver qp))).eq_of_length hlen
      exact hreach (List.takeWhile_eq_self_iff.mp heq)

/-- The worker pushes no completions itself. -/
theorem answered_iff (qp : QpAttr) (n : Net Worker Worker.State Msg) (ctx : SendQueueContext)
    (wr : SendWrRdma) (t : RdmaWriteTask) :
    Answered qp wr (n.delivered (driver qp) (RdmaWriteWorker.process qp ctx t).msgs) ↔
      HandsOver qp wr
        (chunksOf (n.delivered (driver qp) (RdmaWriteWorker.process qp ctx t).msgs)) := by
  refine or_iff_left ?_
  rintro ⟨e,c,h⟩
  cases Driver.emits_rdmaWrite qp ctx t _ ((List.takeWhile_prefix _).subset h)

theorem numPsn_pmtu (c : UInt8) (addr : UInt64) (length n : UInt32)
    (h : numPsn c addr length=some n) :
    ∃ m,convertIbvMtuToU16 c=some m := by
  rcases hm : convertIbvMtuToU16 c with _|m
  · rw [numPsn,hm] at h
    cases h
  · exact ⟨m,rfl⟩

section Messages
variable (qp : QpAttr) (wr : SendWrRdma) (m msn : UInt16) (psn : Psn) (ctx : SendQueueContext)
  (hm : convertIbvMtuToU16 qp.pmtu=some m)
include hm

/-- What a write that got its numbers sends. -/
theorem transmit_msgs : ∃ cs,(RdmaWriteWorker.transmit wr (QpParams.ofAttr msn qp) psn ctx).msgs=
      [.retransmit (.newWr ⟨psn,wr,QpParams.ofAttr msn qp⟩)]++cs.map .chunk ∧
    (HandsOver qp wr cs ↔ wr.InChunks m) := by
  obtain ⟨cs,hcs,hover⟩ := wrChunkFragmenter_handsOver qp wr m msn psn hm
  exact ⟨cs,by rw [RdmaWriteWorker.transmit,hcs]; rfl,hover⟩

theorem transmitSignaled_msgs (event : SendEvent) :
    ∃ pre cs,(RdmaWriteWorker.transmitSignaled wr (QpParams.ofAttr msn qp) psn event ctx).msgs=
        pre++cs.map .chunk ∧ (HandsOver qp wr cs ↔ wr.InChunks m) ∧ chunksOf pre=[] ∧
      (wr.InChunks m → pre=[.completion (.register (.send event)),.timeout .newAckReq,
        .retransmit (.newWr ⟨psn,wr,QpParams.ofAttr msn qp⟩)]) := by
  obtain ⟨ps,hps,hlen,-⟩ := wrPacketFragmenter_spec wr (QpParams.ofAttr msn qp) m psn hm
  have hpos := Fragmenter.numSegments_pos m.toUInt64 m.toUInt64 wr
  rw [← packetFragmenter,← hlen] at hpos
  rcases ps with _|⟨p,ps⟩
  · have hno : ¬wr.InChunks m := fun h => absurd (hpos.mpr h.spans) (lt_irrefl 0)
    refine ⟨[.completion (.register (.send event))],[],?_,?_,rfl,fun h => absurd h hno⟩
    · rw [RdmaWriteWorker.transmitSignaled,hps]
      rfl
    · exact iff_of_false (not_handsOver_nil qp wr) hno
  · obtain ⟨cs,hcs,hover⟩ := transmit_msgs qp wr m msn psn ctx hm
    refine ⟨_,cs,?_,hover,?_,fun _ => rfl⟩
    · rw [RdmaWriteWorker.transmitSignaled,hps]
      dsimp only
      rw [hcs]
      rfl
    · rfl

end Messages

/-- A request whose announcements and chunks are as given is handed over exactly if its chunks are
its own and its announcements arrive. -/
theorem handsOver_delivered (qp : QpAttr) (n : Net Worker Worker.State Msg) (wr : SendWrRdma)
    (pre : List Msg) (cs : List WrChunk) (P : Prop) (hpre : chunksOf pre=[])
    (hcs : HandsOver qp wr cs ↔ P) :
    HandsOver qp wr (chunksOf (n.delivered (driver qp) (pre++cs.map .chunk))) ↔
      P ∧ ∀ m∈pre,n.reaches (driver qp) m=true := by
  rw [chunksOf_delivered qp n pre cs hpre]
  split_ifs with h
  · rw [hcs,and_iff_left h]
  · exact iff_of_false (not_handsOver_nil qp wr) (fun hp => h hp.2)

/-- The window part of the condition, once the number of PSNs is known. -/
theorem window_iff (qp : QpAttr) (ctx : SendQueueContext) (wr : SendWrRdma) (n : UInt32)
    (hn : RdmaWriteWorker.psnCount qp wr=some n) :
    (∃ n,RdmaWriteWorker.psnCount qp wr=some n ∧ (ctx.psn-ctx.psnAcked+n).toNat ≤ maxPsnWindow ∧
      (ctx.msn-ctx.msnAcked).toNat < maxSendWr) ↔ (ctx.nextWr n).2.isSome=true := by
  rw [SendQueueContext.nextWr_isSome]
  constructor
  · rintro ⟨k,hk,h⟩
    rw [hn] at hk
    obtain rfl := Option.some.inj hk
    exact h
  · exact fun h => ⟨n,hn,h⟩

theorem announced_plain (qp : QpAttr) (n : Net Worker Worker.State Msg) (wr : SendWrRdma)
    (hsig : wr.signaled=false) (elem : SendQueueElem) :
    (∀ m∈[Msg.retransmit (.newWr elem)],n.reaches (driver qp) m=true) ↔ Announced n wr := by
  have hreach : (∀ m∈[Msg.retransmit (.newWr elem)],n.reaches (driver qp) m=true) ↔
      (n.state .packetRetransmit).isSome=true := by
    simp [Net.reaches,driver,Driver.dest]
  rw [hreach]
  exact ⟨fun h => ⟨h,by rw [hsig]; simp⟩,fun h => h.retransmit⟩

theorem announced_signaled (qp : QpAttr) (n : Net Worker Worker.State Msg) (wr : SendWrRdma)
    (hsig : wr.signaled=true) (event : SendEvent) (elem : SendQueueElem) :
    (∀ m∈[Msg.completion (.register (.send event)),.timeout .newAckReq,
      .retransmit (.newWr elem)],n.reaches (driver qp) m=true) ↔ Announced n wr := by
  have hreach : (∀ m∈[Msg.completion (.register (.send event)),.timeout .newAckReq,
      .retransmit (.newWr elem)],n.reaches (driver qp) m=true) ↔
      (n.state .completion).isSome=true ∧ (n.state .ackTimeout).isSome=true ∧
        (n.state .packetRetransmit).isSome=true := by
    simp [Net.reaches,driver,Driver.dest]
  rw [hreach]
  constructor
  · rintro ⟨hc,ht,hr⟩
    exact ⟨hr,fun _ => ⟨hc,ht⟩⟩
  · intro h
    obtain ⟨hc,ht⟩ := h.signaled hsig
    exact ⟨hc,ht,h.retransmit⟩

/-- The condition that is left when the windows are known to have room. -/
theorem transmittable_iff (qp : QpAttr) (ctx : SendQueueContext) (wr : SendWrRdma) (n : UInt32)
    (hn : RdmaWriteWorker.psnCount qp wr=some n) (hroom : (ctx.nextWr n).2.isSome=true)
    (hqueue : wr.signaled=true → qp.sendCq.isSome=true) :
    Transmittable qp ctx wr ↔
      (wr.opcode≠.rdmaRead → ∀ m,convertIbvMtuToU16 qp.pmtu=some m → wr.InChunks m) :=
  ⟨fun h => h.bytes,fun h => ⟨(window_iff qp ctx wr n hn).mpr hroom,hqueue,h⟩⟩

theorem not_transmittable_full (qp : QpAttr) (ctx : SendQueueContext) (wr : SendWrRdma) (n : UInt32)
    (hn : RdmaWriteWorker.psnCount qp wr=some n) (hfull : (ctx.nextWr n).2=none) :
    ¬Transmittable qp ctx wr := by
  intro h
  have hsome := (window_iff qp ctx wr n hn).mp h.window
  rw [hfull] at hsome
  cases hsome

theorem not_transmittable_queue (qp : QpAttr) (ctx : SendQueueContext) (wr : SendWrRdma)
    (hsig : wr.signaled=true) (hcq : qp.sendCq=none) : ¬Transmittable qp ctx wr := by
  intro h
  have hqueue := h.queue hsig
  rw [hcq] at hqueue
  cases hqueue

theorem write_handsOver (qp : QpAttr) (n : Net Worker Worker.State Msg) (ctx : SendQueueContext)
    (wr : SendWrRdma) (op : SendEventOp)
    (hcount : RdmaWriteWorker.psnCount qp wr=numPsn qp.pmtu wr.raddr wr.length)
    (hread : wr.opcode≠.rdmaRead) (hop : RdmaWriteWorker.sendEventOp wr.opcode=some op) :
    HandsOver qp wr (chunksOf (n.delivered (driver qp) (RdmaWriteWorker.write qp ctx wr).msgs)) ↔
      Transmittable qp ctx wr ∧ Announced n wr := by
  rw [RdmaWriteWorker.write]
  rcases hn : numPsn qp.pmtu wr.raddr wr.length with _|k
  · refine iff_of_false (not_handsOver_nil qp wr) ?_
    rintro ⟨⟨⟨j,hj,-⟩,-,-⟩,-⟩
    rw [hcount,hn] at hj
    cases hj
  rw [hn] at hcount
  obtain ⟨m,hm⟩ := numPsn_pmtu _ _ _ _ hn
  dsimp only
  rcases hnext : ctx.nextWr k with ⟨ctx',_|⟨msn,psn⟩⟩
  · exact iff_of_false (not_handsOver_nil qp wr)
      (fun h => not_transmittable_full qp ctx wr k hcount (by rw [hnext]) h.1)
  have hroom : (ctx.nextWr k).2.isSome=true := by rw [hnext]; rfl
  have hbytes : (wr.opcode≠.rdmaRead → ∀ m,convertIbvMtuToU16 qp.pmtu=some m → wr.InChunks m) ↔
      wr.InChunks m :=
    ⟨fun h => h hread m hm,fun h _ m' hm' => Option.some.inj (hm.symm.trans hm') ▸ h⟩
  dsimp only
  rcases hsig : wr.signaled with _|_
  · obtain ⟨cs,hmsgs,hover⟩ := transmit_msgs qp wr m msn psn ctx' hm
    rw [if_neg Bool.false_ne_true,hmsgs,handsOver_delivered qp n wr _ cs _ rfl hover,
      transmittable_iff qp ctx wr k hcount hroom (by rw [hsig]; simp),
      announced_plain qp n wr hsig,hbytes]
  · rw [if_pos rfl]
    rcases hcq : qp.sendCq with _|cq
    · exact iff_of_false (not_handsOver_nil qp wr)
        (fun h => not_transmittable_queue qp ctx wr hsig hcq h.1)
    obtain ⟨pre,cs,hmsgs,hover,hpre,hform⟩ := transmitSignaled_msgs qp wr m msn psn ctx' hm
      ⟨op,⟨msn,psn+k⟩,wr.wrId⟩
    rw [hop]
    dsimp only
    rw [hmsgs,handsOver_delivered qp n wr pre cs _ hpre hover,
      transmittable_iff qp ctx wr k hcount hroom (by rw [hcq]; simp),hbytes]
    refine and_congr_right (fun hin => ?_)
    rw [hform hin]
    exact announced_signaled qp n wr hsig _ _

/-- The one chunk of a read covers all its bytes. -/
theorem readChunk_handsOver (qp : QpAttr) (wr : SendWrRdma) (msn : UInt16) (psn : Psn)
    (hread : wr.opcode=.rdmaRead) :
    HandsOver qp wr [RdmaWriteWorker.readChunk wr (QpParams.ofAttr msn qp) psn] := by
  refine ⟨⟨_,rfl,rfl⟩,⟨_,rfl,rfl⟩,?_,rfl,rfl⟩
  intro c hc
  obtain rfl := List.mem_singleton.mp hc
  refine ⟨hread.symm,rfl,rfl,rfl,rfl,rfl,rfl,rfl,rfl,rfl,rfl,rfl,?_⟩
  change wr.laddr=wr.laddr+(wr.raddr-wr.raddr)
  rw [UInt64.sub_self,UInt64.add_zero]

theorem read_handsOver (qp : QpAttr) (n : Net Worker Worker.State Msg) (ctx : SendQueueContext)
    (wr : SendWrRdma) (hread : wr.opcode=.rdmaRead) :
    HandsOver qp wr
        (chunksOf (n.delivered (driver qp) (RdmaWriteWorker.rdmaRead qp ctx wr).msgs)) ↔
      Transmittable qp ctx wr ∧ Announced n wr := by
  have hcount : RdmaWriteWorker.psnCount qp wr=some 1 := by rw [RdmaWriteWorker.psnCount,hread]
  have hbytes : wr.opcode≠.rdmaRead → ∀ m,convertIbvMtuToU16 qp.pmtu=some m → wr.InChunks m :=
    fun h => absurd hread h
  rw [RdmaWriteWorker.rdmaRead]
  rcases hnext : ctx.nextWr 1 with ⟨ctx',_|⟨msn,psn⟩⟩
  · exact iff_of_false (not_handsOver_nil qp wr)
      (fun h => not_transmittable_full qp ctx wr 1 hcount (by rw [hnext]) h.1)
  have hroom : (ctx.nextWr 1).2.isSome=true := by rw [hnext]; rfl
  have hchunk := iff_of_true (readChunk_handsOver qp wr msn psn hread) hbytes
  dsimp only [RdmaWriteWorker.readMsgs]
  rcases hsig : wr.signaled with _|_
  · rw [transmittable_iff qp ctx wr 1 hcount hroom (by rw [hsig]; simp),
      ← announced_plain qp n wr hsig ⟨psn,wr,QpParams.ofAttr msn qp⟩]
    exact handsOver_delivered qp n wr [.retransmit (.newWr _)] _ _ rfl hchunk
  · rcases hcq : qp.sendCq with _|cq
    · exact iff_of_false (not_handsOver_nil qp wr)
        (fun h => not_transmittable_queue qp ctx wr hsig hcq h.1)
    rw [transmittable_iff qp ctx wr 1 hcount hroom (by rw [hcq]; simp),
      ← announced_signaled qp n wr hsig ⟨.readSignaled,⟨msn,psn+(1 : UInt32)⟩,wr.wrId⟩
        ⟨psn,wr,QpParams.ofAttr msn qp⟩]
    exact handsOver_delivered qp n wr
      [.completion (.register (.send _)),.timeout .newAckReq,.retransmit (.newWr _)] _ _ rfl hchunk

theorem process_answered (qp : QpAttr) (n : Net Worker Worker.State Msg) (ctx : SendQueueContext)
    (wr : SendWrRdma) (hwr : wr.Postable) :
    Answered qp wr (n.delivered (driver qp) (RdmaWriteWorker.process qp ctx (.write wr)).msgs) ↔
      Transmittable qp ctx wr ∧ Announced n wr := by
  rw [answered_iff]
  cases hop : wr.opcode
  case rdmaWrite | rdmaWriteWithImm | send | sendWithImm =>
    rw [show RdmaWriteWorker.process qp ctx (.write wr)=RdmaWriteWorker.write qp ctx wr by
      simp only [RdmaWriteWorker.process,hop]]
    exact write_handsOver qp n ctx wr _ (by simp only [RdmaWriteWorker.psnCount,hop])
      (by rw [hop]; decide) (by rw [hop]; rfl)
  case rdmaRead =>
    rw [show RdmaWriteWorker.process qp ctx (.write wr)=RdmaWriteWorker.rdmaRead qp ctx wr by
      simp only [RdmaWriteWorker.process,hop]]
    exact read_handsOver qp n ctx wr hop
  all_goals
    rw [SendWrRdma.Postable,hop] at hwr
    simp at hwr

/-- The address arithmetic of both fragmenters stays inside the word. -/
def Unwrapped (qp : QpAttr) (wr : SendWrRdma) : Prop :=
  ∀ m msn psn size isRetry,convertIbvMtuToU16 qp.pmtu=some m → size=wrChunkSize ∨ size=m.toUInt64 →
    wr.raddr.toNat+wr.length.toNat<2^64 ∧ wr.raddr.toNat+size.toNat<2^64 ∧
    ∃ st,ChunkFragmenter.intoIter ⟨wr,QpParams.ofAttr msn qp,psn,size,isRetry⟩=some st ∧
      st.NoOverflow (st.inner.count+1)

theorem Transmittable.unwrapped {qp : QpAttr} {ctx : SendQueueContext} {wr : SendWrRdma}
    (h : Transmittable qp ctx wr) (hread : wr.opcode≠.rdmaRead)
    (hladdr : wr.laddr.toNat+wr.length.toNat<2^64) : Unwrapped qp wr := by
  intro m msn psn size isRetry hm hsize
  have hin := h.bytes hread m hm
  exact ⟨hin.spans.2,fragmenters_noOverflow qp wr m msn psn hm hin hladdr size hsize isRetry⟩

end RequestLoss

open RequestLoss in
/-- When the worker takes a posted request, it hands over chunks that cover the request, the first
and the last one marked, exactly if the request can be transmitted and the threads it is announced
to are alive; otherwise nothing at all comes of it. A request that can be transmitted is cut up
without overflow when its local bytes end in the address space. -/
theorem posted_request_answered_iff (qp : QpAttr) (ibv : IbvSendWr) (sendWr : SendWr)
    (hnew : SendWr.new ibv=.ok sendWr) (queue rest : List RecvWr) (wr : SendWrRdma)
    (hpost : HwDeviceCtx.postSend queue sendWr=⟨rest,some (.ok wr)⟩)
    (n : Net Worker Worker.State Msg) (ctx : SendQueueContext) (inbox : List Msg) (c : Nat)
    (hstate : n.state .rdmaWrite=some ctx)
    (htask : n.inbox .rdmaWrite=.rdma (.write wr)::inbox) :
    ∃ sent,(n.step (driver qp) (.work .rdmaWrite c)).log=n.log++sent ∧
      (Answered qp wr sent ↔ Transmittable qp ctx wr ∧ Announced n wr) ∧
      (Transmittable qp ctx wr → wr.opcode≠.rdmaRead → wr.laddr.toNat+wr.length.toNat<2^64 →
        Unwrapped qp wr) := by
  refine ⟨n.delivered (driver qp) (RdmaWriteWorker.process qp ctx (.write wr)).msgs,?_,
    process_answered qp n ctx wr
      (HwDeviceCtx.postSend_postable ibv sendWr hnew queue rest wr hpost),
    fun h => h.unwrapped⟩
  rw [Net.step,Net.work,hstate,htask]
  rfl

namespace RequestLoss

/-- A signalled work request on 256-byte aligned memory, as the application writes it. -/
def request (opcode length : UInt32) : IbvSendWr :=
  ⟨1,1,⟨0x1000,length,0⟩,opcode,ibvSendSignaled,7,0x2000,0⟩

/-- The driver of `shortPathQp` with a work request waiting for the worker. -/
def posted (wr : SendWrRdma) : Net Worker Worker.State Msg :=
  (Driver.init .default).step (driver shortPathQp) (.post (.rdma (.write wr)))

end RequestLoss

open RequestLoss in
theorem posted_request_answered_iff_write :
    ∃ sent,((posted ⟨⟨1,2,0x1000,300,0,7,.rdmaWrite⟩,0x2000,0⟩).step (driver shortPathQp)
        (.work .rdmaWrite 0)).log=
          (posted ⟨⟨1,2,0x1000,300,0,7,.rdmaWrite⟩,0x2000,0⟩).log++sent ∧
      Answered shortPathQp ⟨⟨1,2,0x1000,300,0,7,.rdmaWrite⟩,0x2000,0⟩ sent ∧
      Unwrapped shortPathQp ⟨⟨1,2,0x1000,300,0,7,.rdmaWrite⟩,0x2000,0⟩ := by
  obtain ⟨sent,hlog,hanswered,hsafe⟩ := posted_request_answered_iff shortPathQp (request 0 300)
    (.rdma _) rfl [] [] _ rfl (posted ⟨⟨1,2,0x1000,300,0,7,.rdmaWrite⟩,0x2000,0⟩) .init [] 0 rfl rfl
  have htransmit : Transmittable shortPathQp .init
      ⟨⟨1,2,0x1000,300,0,7,.rdmaWrite⟩,0x2000,0⟩ :=
    ⟨⟨2,by decide +kernel,by decide +kernel,by decide +kernel⟩,fun _ => rfl,
      fun _ m _ => SendWrRdma.inChunks_of_margin m _ (by decide) (by decide)⟩
  exact ⟨sent,hlog,hanswered.mpr ⟨htransmit,⟨rfl,fun _ => ⟨rfl,rfl⟩⟩⟩,
    hsafe htransmit (by decide) (by decide)⟩

open RequestLoss in
/-- An empty RDMA write with immediate data is posted with success; the worker registers its
completion event and sends nothing. -/
theorem empty_write_with_imm_lost :
    SendWr.new (request 1 0)=.ok (.rdma ⟨⟨1,2,0x1000,0,0,7,.rdmaWriteWithImm⟩,0x2000,0⟩) ∧
    ((posted ⟨⟨1,2,0x1000,0,0,7,.rdmaWriteWithImm⟩,0x2000,0⟩).step (driver shortPathQp)
      (.work .rdmaWrite 0)).log=
        [.rdma (.write ⟨⟨1,2,0x1000,0,0,7,.rdmaWriteWithImm⟩,0x2000,0⟩),
          .completion (.register (.send ⟨.writeSignaled,⟨0,⟨0⟩⟩,1⟩))] ∧
    ((posted ⟨⟨1,2,0x1000,0,0,7,.rdmaWriteWithImm⟩,0x2000,0⟩).step (driver shortPathQp)
      (.work .rdmaWrite 0)).inbox .rdmaWrite=[] :=
  ⟨rfl,by decide +kernel,by decide +kernel⟩

end BlueRdma

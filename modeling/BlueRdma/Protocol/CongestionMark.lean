import BlueRdma.Workers.MetaReport.Queue

namespace BlueRdma
open DmaRingBuf

namespace MetaReportQueue

def ring (q : MetaReportQueue) : DmaRingBuf DescBytes := q.inner.ring

/-- The descriptor at the tail. -/
def front (q : MetaReportQueue) : DescBytes := q.ring.slots q.ring.tailIdx

def putFront (q : MetaReportQueue) (d : DescBytes) : MetaReportQueue :=
  ⟨⟨q.ring.write q.ring.tailIdx d⟩⟩

@[simp] theorem front_putFront (q : MetaReportQueue) (d : DescBytes) : (q.putFront d).front=d :=
  Function.update_self ..

theorem pop_empty (q : MetaReportQueue) (h : DescRingBuffer.isValid q.front=false) :
    q.pop=some (q,none) := by
  have hpop : q.ring.popTwo DescRingBuffer.isValid DescRingBuffer.hasNext=(q.ring,none,none) := by
    rw [Stores.popTwo_eq,if_neg]
    rw [show q.ring.slots q.ring.tailIdx=q.front from rfl,h]
    decide
  simp only [pop,DescRingBuffer.popTwo]
  rw [show q.inner.ring=q.ring from rfl,hpop]
  rfl

/-- A descriptor without a successor is taken alone. -/
theorem pop_single (q : MetaReportQueue) (h : DescRingBuffer.isValid q.front=true)
    (hnext : DescRingBuffer.hasNext q.front=false) :
    q.pop=(classify (some (MetaReportQueueDescFirst.deserialize q.front)) none).map
      (fun desc => (⟨⟨(q.ring.readAndAdvance q.ring.tailIdx).1⟩⟩,desc)) := by
  have hpop : q.ring.popTwo DescRingBuffer.isValid DescRingBuffer.hasNext=
      ((q.ring.readAndAdvance q.ring.tailIdx).1,some q.front,none) := by
    rw [Stores.popTwo_eq,show q.ring.slots q.ring.tailIdx=q.front from rfl,if_pos h,if_neg]
    · rfl
    · rw [hnext]
      decide
  simp only [pop,DescRingBuffer.popTwo]
  rw [show q.inner.ring=q.ring from rfl,hpop]
  rfl

end MetaReportQueue

namespace MetaReportQueueHandler

/-- The descriptor is put at the tail of queue `idx`. -/
def withFront (h : MetaReportQueueHandler) (idx : Nat) (d : DescBytes) : MetaReportQueueHandler :=
  {h with inner := h.inner.modify idx (fun ctx => {ctx with queue := ctx.queue.putFront d})}

/-- Queue `idx` is the one the poll reaches: it is `i` places after `pos`, and the queues before it
are empty. -/
structure Reaches (h : MetaReportQueueHandler) (idx i : Nat) : Prop where
  lt : i<h.inner.length
  place : (h.pos+i)%h.inner.length=idx
  empty : ∀ j < i,∀ ctx,h.inner[(h.pos+j)%h.inner.length]?=some ctx →
    DescRingBuffer.isValid ctx.queue.front=false

theorem tryQueues_skip (h : MetaReportQueueHandler) (is rest : List Nat)
    (hne : 0<h.inner.length)
    (hempty : ∀ j∈is,∀ ctx,h.inner[(h.pos+j)%h.inner.length]?=some ctx →
      DescRingBuffer.isValid ctx.queue.front=false) :
    h.tryQueues (is++rest)=h.tryQueues rest := by
  induction is with
  | nil => rfl
  | cons j is ih =>
      have hlt : (h.pos+j)%h.inner.length<h.inner.length := Nat.mod_lt _ hne
      have hget := List.getElem?_eq_getElem hlt
      rw [List.cons_append,tryQueues,hget]
      dsimp only
      rw [MetaReportQueue.pop_empty _ (hempty j List.mem_cons_self _ hget)]
      exact ih fun k hk => hempty k (List.mem_cons_of_mem j hk)

theorem length_withFront (h : MetaReportQueueHandler) (idx : Nat) (d : DescBytes) :
    (h.withFront idx d).inner.length=h.inner.length := List.length_modify ..

theorem withFront_other (h : MetaReportQueueHandler) (idx j : Nat) (d : DescBytes)
    (hne : idx≠j) : (h.withFront idx d).inner[j]?=h.inner[j]? := by
  rw [withFront,List.getElem?_modify]
  simp only [if_neg hne]
  exact Option.map_id' ..

theorem withFront_self (h : MetaReportQueueHandler) (idx : Nat) (d : DescBytes)
    (hidx : idx<h.inner.length) :
    ∃ ctx,(h.withFront idx d).inner[idx]?=some ctx ∧ ctx.queue.front=d := by
  refine ⟨{h.inner[idx] with queue := h.inner[idx].queue.putFront d},?_,
    MetaReportQueue.front_putFront ..⟩
  rw [withFront,List.getElem?_modify,List.getElem?_eq_getElem hidx]
  simp

/-- The poll takes the descriptor at the tail of the queue it reaches. -/
theorem tryRecvMeta_withFront (h : MetaReportQueueHandler) (idx i : Nat) (hr : h.Reaches idx i)
    (d : DescBytes) (hvalid : DescRingBuffer.isValid d=true)
    (hnext : DescRingBuffer.hasNext d=false) (x : MetaReportQueueDesc)
    (hx : MetaReportQueue.classify (some (MetaReportQueueDescFirst.deserialize d)) none=
      some (some x)) :
    ∃ next,(h.withFront idx d).tryRecvMeta=(toMeta x).map (fun y => (next,some y)) := by
  obtain ⟨hlt,rfl,hempty⟩ := hr
  have hidx : (h.pos+i)%h.inner.length<h.inner.length := Nat.mod_lt _ (by omega)
  have hrange : List.range h.inner.length=
      List.range i++i::List.range' (i+1) (h.inner.length-(i+1)) := by
    rw [List.range_eq_range',List.range_eq_range',← List.range'_succ,
      show h.inner.length-(i+1)+1=h.inner.length-i by omega]
    have := List.range'_append_1 (s := 0) (m := i) (n := h.inner.length-i)
    rw [Nat.zero_add,show i+(h.inner.length-i)=h.inner.length by omega] at this
    exact this.symm
  obtain ⟨h',hh'⟩ : ∃ h',h'=h.withFront ((h.pos+i)%h.inner.length) d := ⟨_,rfl⟩
  have hlen : h'.inner.length=h.inner.length := by rw [hh',length_withFront]
  have hpos : h'.pos=h.pos := by rw [hh']; rfl
  have hskip : ∀ j∈List.range i,∀ ctx,h'.inner[(h'.pos+j)%h'.inner.length]?=some ctx →
      DescRingBuffer.isValid ctx.queue.front=false := by
    intro j hj ctx hctx
    have hji := List.mem_range.mp hj
    have hne : (h.pos+i)%h.inner.length≠(h.pos+j)%h.inner.length := by
      intro heq
      have hmod : i≡j [MOD h.inner.length] := Nat.ModEq.add_left_cancel' h.pos heq
      have := Nat.ModEq.eq_of_lt_of_lt hmod hlt (by omega)
      omega
    rw [hlen,hpos,hh',withFront_other h _ _ d hne] at hctx
    exact hempty j hji ctx hctx
  obtain ⟨ctx,hctx,hfront⟩ := withFront_self h _ d hidx
  have hpop := ctx.queue.pop_single (by rw [hfront,hvalid]) (by rw [hfront,hnext])
  rw [hfront,hx,Option.map_some] at hpop
  rw [← hh',tryRecvMeta,hlen,hrange,tryQueues_skip h' _ _ (by omega) hskip,tryQueues,hlen,hpos,hh',
    hctx]
  dsimp only
  rw [hpop]
  exact ⟨_,rfl⟩

/-- The mark decides between a packet and a congestion notification. -/
theorem classify_packet (d : MetaReportQueuePacketBasicInfoDesc) (ty : HeaderType)
    (hty : d.headerType=some ty) :
    MetaReportQueue.classify
        (some (MetaReportQueueDescFirst.deserialize (DescSerialize.serialize d))) none=
      some (some (if d.ecnMarked then .cnpPacketInfo d else .writePacketInfo d)) := by
  obtain ⟨op,hop,hheader⟩ := Option.bind_eq_some_iff.mp hty
  have hpacket := (op.headerType_some ty hheader).1
  have hback : DescWords.ofBytes (DescSerialize.serialize d)=DescLayout.words d :=
    DescWords.ofBytes_toBytes _
  have hfirst : MetaReportQueueDescFirst.deserialize (DescSerialize.serialize d)=
      some (.packetInfo d) := by
    rw [MetaReportQueueDescFirst.deserialize,hback,d.words_header]
    rw [MetaReportQueuePacketBasicInfoDesc.opCode] at hop
    simp only [hop,hpacket,Option.bind_eq_bind,Option.bind_some,if_true,d.ofWords_words]
  rw [hfirst]
  rfl

end MetaReportQueueHandler
/-- Tasks of the completion, ack and retransmission threads. -/
def Msg.isReliability : Msg → Bool
  | .completion _ | .ack _ | .retransmit _ => true
  | _ => false

/-- Two rounds send the same tasks to these threads and leave the same receive trackers. -/
structure SameReliability (r r' : MetaTurn) : Prop where
  tasks : r.msgs.filter (fun x => x.2.isReliability)=r'.msgs.filter (fun x => x.2.isReliability)
  trackers : r.next.map (fun x i => (x.2 i).recvTable)=r'.next.map (fun x i => (x.2 i).recvTable)

/-- Only a congestion notification makes the handler panic. -/
theorem processTable_report (attrs : QpTable QpAttr) (c : Fin maxQpCnt → Nat)
    (t : QpTable MetaHandler) (qpn : UInt32) (x : ReportMeta) :
    (Driver.processTable attrs .metaReport c t (qpn,.report x)).next.isSome=true ↔ x≠.cnp := by
  cases hidx : QpTable.index? qpn with
  | none =>
      simp only [Driver.processTable,hidx]
      cases x <;> simp [Driver.processUnknown]
  | some i =>
      simp only [Driver.processTable,hidx]
      cases x <;> simp [Driver.process,MetaHandler.handleMeta]

section Turn
variable (attrs : QpTable QpAttr) (c : Fin maxQpCnt → Nat) (h : MetaReportQueueHandler)
  (t : QpTable MetaHandler) (idx i : Nat) (d : MetaReportQueuePacketBasicInfoDesc) (ty : HeaderType)

/-- A marked packet makes the worker panic, an unmarked one does not. -/
theorem metaTurn_alive_iff (hr : h.Reaches idx i) (hvalid : d.c3.commonHeader.valid=true)
    (hnext : d.c3.commonHeader.hasNext=false) (hty : d.headerType=some ty) :
    (metaTurn attrs c (h.withFront idx (DescSerialize.serialize d)) t).next.isSome=true ↔
      d.ecnMarked=false := by
  obtain ⟨op,hop,hheader⟩ := Option.bind_eq_some_iff.mp hty
  obtain ⟨pos,hpos⟩ := (op.headerType_some ty hheader).2
  have hpacketPos : d.packetPos=some pos := Option.bind_eq_some_iff.mpr ⟨op,hop,hpos⟩
  obtain ⟨next,hrecv⟩ := MetaReportQueueHandler.tryRecvMeta_withFront h idx i hr
    (DescSerialize.serialize d)
    ((isValid_toBytes _).trans ((congrArg _ d.words_header).trans hvalid))
    ((hasNext_toBytes _).trans ((congrArg _ d.words_header).trans hnext)) _
    (MetaReportQueueHandler.classify_packet d ty hty)
  cases hecn : d.ecnMarked with
  | true =>
      have hmeta : (h.withFront idx (DescSerialize.serialize d)).tryRecvMeta=
          some (next,some (d.dqpn,.cnp)) := by
        rw [hrecv,hecn]
        rfl
      have hpanic := processTable_report attrs c t d.dqpn .cnp
      rw [metaTurn,hmeta]
      simpa using hpanic
  | false =>
      obtain ⟨x,hmeta⟩ : ∃ x,(h.withFront idx (DescSerialize.serialize d)).tryRecvMeta=
          some (next,some (d.dqpn,.headerWrite x)) := by
        rw [hrecv,hecn]
        simp [MetaReportQueueHandler.toMeta,hpacketPos,hty]
      have hpanic := processTable_report attrs c t d.dqpn (.headerWrite x)
      rw [metaTurn,hmeta]
      simpa using hpanic

/-- Reporting a packet of a write, send or read response has the effect it has without the
congestion mark, and does not panic, exactly if the mark is not set. -/
theorem ecn_mark_harmless_iff (hr : h.Reaches idx i) (hvalid : d.c3.commonHeader.valid=true)
    (hnext : d.c3.commonHeader.hasNext=false) (hty : d.headerType=some ty) :
    (SameReliability (metaTurn attrs c (h.withFront idx (DescSerialize.serialize d)) t)
        (metaTurn attrs c (h.withFront idx (DescSerialize.serialize (d.setEcnMarked false))) t) ∧
      (metaTurn attrs c (h.withFront idx (DescSerialize.serialize d)) t).next.isSome=true) ↔
    d.ecnMarked=false := by
  have halive := metaTurn_alive_iff attrs c h t idx i d ty hr hvalid hnext hty
  constructor
  · exact fun hsame => halive.mp hsame.2
  · intro hecn
    have hclear : d.setEcnMarked false=d := by
      rw [← hecn]
      rfl
    rw [hclear]
    exact ⟨⟨rfl,rfl⟩,halive.mpr hecn⟩

end Turn

/-- A write of one packet to QP 0x100. -/
def writeOnlyPacket (ecnMarked : Bool) : MetaReportQueuePacketBasicInfoDesc :=
  ⟨⟨0,1⟩,⟨0x1000⟩,⟨64,0,0x100⟩,⟨0,false,true,false,ecnMarked,0,0,⟨0x0A,false,0,false,true⟩⟩⟩

/-- The round of the worker that reads this packet from the first of two queues. -/
def writeOnlyTurn (ecnMarked : Bool) : MetaTurn :=
  metaTurn (.newWith shortPathQp) (fun _ => 0)
    (MetaReportQueueHandler.withFront ⟨[⟨⟨.zeroed⟩,⟨some 1,0⟩⟩,⟨⟨.zeroed⟩,⟨some 0,0⟩⟩],0⟩ 0
      (DescSerialize.serialize (writeOnlyPacket ecnMarked))) (.newWith {})

theorem ecn_mark_harmless_unmarked :
    SameReliability (writeOnlyTurn false) (writeOnlyTurn false) ∧
      (writeOnlyTurn false).next.isSome=true :=
  (ecn_mark_harmless_iff (.newWith shortPathQp) (fun _ => 0) _ (.newWith {}) 0 0
    (writeOnlyPacket false) .write ⟨by decide,rfl,fun j hj => absurd hj (Nat.not_lt_zero j)⟩ rfl rfl
    rfl).mpr rfl

/-- With the mark the worker panics and the tasks for the packet are lost. -/
theorem ecn_mark_panics :
    (writeOnlyTurn true).next.isSome=false ∧ (writeOnlyTurn true).msgs=[(0x100,.timeout .recvMeta)] ∧
    (writeOnlyTurn false).next.isSome=true ∧
    (writeOnlyTurn false).msgs=[(0x100,.timeout .recvMeta),
      (0x100,.completion (.register (.recv ⟨.write,⟨0,⟨1⟩⟩,true⟩))),
      (0x100,.completion (.ackRecv ⟨1⟩)) ] := by
  refine ⟨?_,?_,?_,?_⟩ <;> decide +kernel

end BlueRdma

import BlueRdma.Math.Lists
import BlueRdma.Protocol.RetransmitRange
import BlueRdma.Workers.RdmaWrite

namespace BlueRdma

/-- Runs of the retransmission worker on one queue. The requests `es` occupy consecutive PSN
positions from `f` on, and an ack neither goes back nor past the next unused position. -/
inductive QueueRun (f : Nat) : List SendQueueElem → Nat → IbvSendQueue → Prop
  | start : QueueRun f [] f ⟨[],Psn.wrap f⟩
  | newWr (split : Nat) (es : List SendQueueElem) (e : SendQueueElem) (a : Nat)
      (q q' : IbvSendQueue) (h : QueueRun f es a q)
      (hpsn : e.psn=Psn.wrap (f+(queuedPackets es).length))
      (hmtu : (convertIbvMtuToU16 e.qpParam.pmtu).isSome=true)
      (hnext : (PacketRetransmitWorker.process split q (.newWr e)).next=some q') :
      QueueRun f (es++[e]) a q'
  | ack (split : Nat) (es : List SendQueueElem) (a b : Nat) (q q' : IbvSendQueue)
      (h : QueueRun f es a q) (hab : a≤b) (hb : b≤f+(queuedPackets es).length)
      (hnext : (PacketRetransmitWorker.process split q (.ack (Psn.wrap b))).next=some q') :
      QueueRun f es b q'

/-- The request starts before the acked PSN and none of its packets is left. -/
def SendQueueElem.FullyAcked (base : Psn) (e : SendQueueElem) : Prop :=
  e.psn<base ∧ ∀ c∈e.packets,c.psn<base

instance (base : Psn) (e : SendQueueElem) : Decidable (e.FullyAcked base) :=
  inferInstanceAs (Decidable (_ ∧ _))

/-- The queue is what is left of the requests after those in `gone`, all of whose PSNs are acked.
Only the first of what is left may start before the acked position. -/
structure Kept (f : Nat) (gone es : List SendQueueElem) (a : Nat) (q : IbvSendQueue) : Prop where
  split : es=gone++q.inner
  contiguous : Contiguous f es
  base : q.basePsn=Psn.wrap a
  passed : f+(queuedPackets gone).length≤a
  bound : a≤f+(queuedPackets es).length
  behind : ∀ e∈q.inner.tail,¬e.psn<Psn.wrap a

namespace Kept

theorem push (f a : Nat) (gone es : List SendQueueElem) (e : SendQueueElem) (q : IbvSendQueue)
    (h : Kept f gone es a q) (hpsn : e.psn=Psn.wrap (f+(queuedPackets es).length))
    (hmtu : (convertIbvMtuToU16 e.qpParam.pmtu).isSome=true)
    (hlen : (queuedPackets es).length<2^23) : Kept f gone (es++[e]) a (q.push e) := by
  obtain ⟨hsplit,hcont,hbase,hpassed,hbound,hbehind⟩ := h
  refine ⟨?_,?_,hbase,hpassed,?_,?_⟩
  · rw [hsplit,List.append_assoc]
    rfl
  · exact (Contiguous.append f es [e]).mpr ⟨hcont,hpsn,hmtu,trivial⟩
  · rw [queuedPackets_append,List.length_append]
    omega
  · have hnew : ¬e.psn<Psn.wrap a := by
      rw [hpsn,psn_lt_iff (w := f) _ _ ⟨by omega,by omega⟩ ⟨by omega,by omega⟩]
      omega
    intro x hx
    change x∈(q.inner++[e]).tail at hx
    cases hq : q.inner with
    | nil =>
        rw [hq] at hx
        cases hx
    | cons y ys =>
        rw [hq] at hx hbehind
        rcases List.mem_append.mp hx with hx|hx
        · exact hbehind x hx
        · rw [List.mem_singleton.mp hx]
          exact hnew

/-- The elements before the last one that starts below the acked position have all their PSNs
below the start of that one. -/
theorem pop (split f a b : Nat) (gone es : List SendQueueElem) (q : IbvSendQueue)
    (h : Kept f gone es a q) (hab : a≤b) (hb : b≤f+(queuedPackets es).length)
    (hlen : (queuedPackets es).length<2^23) :
    ∃ gone',Kept f gone' es b (q.popUntil split (Psn.wrap b)) := by
  obtain ⟨hsplit,hcont,-,hpassed,hbound,-⟩ := h
  have hes : (queuedPackets es).length=
      (queuedPackets gone).length+(queuedPackets q.inner).length := by
    rw [hsplit,queuedPackets_append,List.length_append]
  have hinner := hcont
  rw [hsplit,Contiguous.append] at hinner
  obtain ⟨A,R,hAR,hA,hR,-⟩ := split_before (w := f) b ⟨by omega,by omega⟩ q.inner _ hinner.2
    ⟨by omega,by omega⟩
  have hbefore : q.before split (Psn.wrap b)=A.length := by
    rw [IbvSendQueue.before,hAR]
    exact Search.ringPartitionPoint_eq _ split A R hA hR
  have hlate : ∀ e∈R,¬e.psn<Psn.wrap b := fun e he => of_decide_eq_false (hR e he)
  rcases List.eq_nil_or_concat A with rfl|⟨A,x,rfl⟩
  · have hpop : q.popUntil split (Psn.wrap b)=⟨R,Psn.wrap b⟩ := by
      rw [IbvSendQueue.popUntil,hbefore,hAR]
      rfl
    rw [hpop]
    exact ⟨gone,by rw [hsplit,hAR]; rfl,hcont,rfl,by omega,hb,
      fun e he => hlate e (List.mem_of_mem_tail he)⟩
  · have hpop : q.popUntil split (Psn.wrap b)=⟨x::R,Psn.wrap b⟩ := by
      rw [IbvSendQueue.popUntil,hbefore,hAR]
      simp
    have hx := hinner.2
    rw [hAR,List.concat_eq_append,List.append_assoc,Contiguous.append] at hx
    have hlt := of_decide_eq_true (hA x (by simp))
    have hA' : (queuedPackets A).length≤(queuedPackets q.inner).length := by
      rw [hAR,List.concat_eq_append,List.append_assoc,queuedPackets_append,List.length_append]
      omega
    rw [hx.2.1,psn_lt_iff (w := f) _ _ ⟨by omega,by omega⟩ ⟨by omega,by omega⟩] at hlt
    rw [hpop]
    refine ⟨gone++A,?_,hcont,rfl,?_,hb,hlate⟩
    · rw [hsplit,hAR]
      simp
    · rw [queuedPackets_append,List.length_append]
      omega

end Kept

theorem QueueRun.kept (f : Nat) (es : List SendQueueElem) (a : Nat) (q : IbvSendQueue)
    (h : QueueRun f es a q) (hlen : (queuedPackets es).length<2^23) :
    ∃ gone,Kept f gone es a q := by
  induction h with
  | start => exact ⟨[],rfl,trivial,rfl,le_rfl,le_rfl,fun e he => by cases he⟩
  | newWr split es e a q q' _ hpsn hmtu hnext ih =>
      rw [queuedPackets_append,List.length_append] at hlen
      obtain ⟨gone,hk⟩ := ih (by omega)
      obtain rfl := Option.some.inj hnext
      exact ⟨gone,hk.push f a gone es e q hpsn hmtu (by omega)⟩
  | ack split es a b q q' _ hab hb hnext ih =>
      obtain ⟨gone,hk⟩ := ih hlen
      obtain rfl := Option.some.inj hnext
      exact hk.pop split f a b gone es q hab hb hlen

/-- What a complete retransmission sends when no element makes the fragmenter panic. -/
theorem retransmitAll_eq (split : Nat) (q : IbvSendQueue)
    (h : ∀ e∈q.inner,(convertIbvMtuToU16 e.qpParam.pmtu).isSome=true) :
    PacketRetransmitWorker.process split q .retransmitAll=
      ⟨((queuedPackets q.inner).dropWhile (fun c => decide (c.psn < q.basePsn))).map
        (fun c => .chunk c.setIsRetry),some q⟩ := by
  rw [PacketRetransmitWorker.process,PacketRetransmitWorker.packetStream_eq q.inner h,
    PacketRetransmitWorker.skipWhile_map_some,PacketRetransmitWorker.transmit_map_some,
    List.takeWhile_eq_self_iff.mpr (fun _ _ => rfl)]
  rfl

/-- A complete retransmission sends the packets from the acked PSN on, each once and in order, and
at most one fully acked request is kept. -/
theorem retransmitAll_exact (f : Nat) (es : List SendQueueElem) (a : Nat) (q : IbvSendQueue)
    (h : QueueRun f es a q) (hlen : (queuedPackets es).length<2^23) (split : Nat) :
    PacketRetransmitWorker.process split q .retransmitAll=
      ⟨((queuedPackets es).drop (a-f)).map (fun c => .chunk c.setIsRetry),some q⟩ ∧
    ((queuedPackets es).drop (a-f)).map WrChunk.psn=
      (List.range' a (f+(queuedPackets es).length-a)).map Psn.wrap ∧
    (q.inner.filter (fun e => decide (e.FullyAcked (Psn.wrap a)))).length≤1 := by
  obtain ⟨gone,hk⟩ := h.kept f es a q hlen
  obtain ⟨hsplit,hcont,hbase,hpassed,hbound,hbehind⟩ := hk
  have hpackets : queuedPackets es=queuedPackets gone++queuedPackets q.inner := by
    rw [hsplit,queuedPackets_append]
  have hcount := congrArg List.length hpackets
  rw [List.length_append] at hcount
  have hinner := hcont
  rw [hsplit,Contiguous.append] at hinner
  refine ⟨?_,?_,?_⟩
  · have hpsns := hinner.2.packets_psn _ _ (by omega)
    have hdrop := (takeWhile_before (w := f) a ⟨by omega,by omega⟩ _ _ hpsns ⟨by omega,by omega⟩).2
    rw [retransmitAll_eq split q (hinner.2.mtu _ _),hbase,hdrop,hpackets,
      show a-f=(queuedPackets gone).length+(a-(f+(queuedPackets gone).length)) by omega,
      List.drop_length_add_append]
  · rw [List.map_drop,hcont.packets_psn f es (by omega),← List.map_drop,List.drop_range',
      Nat.mul_one,show f+(a-f)=a by omega,show (queuedPackets es).length-(a-f)=
        f+(queuedPackets es).length-a by omega]
  · cases hq : q.inner with
    | nil => exact Nat.zero_le 1
    | cons x xs =>
        rw [hq] at hbehind
        have hnone : xs.filter (fun e => decide (e.FullyAcked (Psn.wrap a)))=[] := by
          rw [List.filter_eq_nil_iff]
          intro e he hacked
          exact hbehind e he (of_decide_eq_true hacked).1
        rw [List.filter_cons,hnone]
        split_ifs <;> simp

/-- Two writes of three packets each, the first acked and the second from its second packet on. -/
def ackedInSecond : IbvSendQueue := ⟨twoWrites.inner.drop 1,Psn.wrap 4⟩

theorem ackedInSecond_run : QueueRun 0 twoWrites.inner 4 ackedInSecond :=
  .ack 0 _ 0 4 twoWrites _
    (.newWr 0 (twoWrites.inner.take 1) _ 0 ⟨twoWrites.inner.take 1,⟨0⟩⟩ _
      (.newWr 0 [] _ 0 ⟨[],⟨0⟩⟩ _ .start (by decide) (by decide) rfl) (by decide) (by decide) rfl)
    (by decide) (by decide) (by decide)

theorem retransmitAll_exact_second :
    (PacketRetransmitWorker.process 0 ackedInSecond .retransmitAll).msgs=
      ((queuedPackets twoWrites.inner).drop 4).map (fun c => .chunk c.setIsRetry) :=
  congrArg Outcome.msgs
    (retransmitAll_exact 0 twoWrites.inner 4 ackedInSecond ackedInSecond_run (by decide) 0).1

section Reads

/-- What an accepted read hands to the retransmission worker and to the send thread. -/
theorem rdmaRead_msgs (qp : QpAttr) (ctx : SendQueueContext) (wr : SendWrRdma) (e : SendQueueElem)
    (c : WrChunk) (he : .retransmit (.newWr e)∈(RdmaWriteWorker.rdmaRead qp ctx wr).msgs)
    (hc : .chunk c∈(RdmaWriteWorker.rdmaRead qp ctx wr).msgs) :
    ∃ msn psn,(ctx.nextWr 1).2=some (msn,psn) ∧ e=⟨psn,wr,QpParams.ofAttr msn qp⟩ ∧
      c=RdmaWriteWorker.readChunk wr (QpParams.ofAttr msn qp) psn := by
  unfold RdmaWriteWorker.rdmaRead at he hc
  generalize ctx.nextWr 1=r at *
  rcases r with ⟨ctx',_|⟨msn,psn⟩⟩
  · cases he
  · refine ⟨msn,psn,rfl,?_⟩
    dsimp only [RdmaWriteWorker.readMsgs] at he hc
    split_ifs at he hc
    · cases hcq : qp.sendCq with
      | none => simp [hcq] at he
      | some cq =>
          simp only [hcq,List.mem_cons,reduceCtorEq,false_or,List.not_mem_nil,or_false,
            Msg.retransmit.injEq,PacketRetransmitTask.newWr.injEq,Msg.chunk.injEq] at he hc
          exact ⟨he,hc⟩
    · simp only [List.mem_cons,reduceCtorEq,false_or,List.not_mem_nil,or_false,
        Msg.retransmit.injEq,PacketRetransmitTask.newWr.injEq,Msg.chunk.injEq] at he hc
      exact ⟨he,hc⟩

/-- The chunk asks for the same transfer on the same PSN. -/
structure SameRequest (c c' : WrChunk) : Prop where
  opcode : c'.opcode=c.opcode
  psn : c'.psn=c.psn
  raddr : c'.raddr=c.raddr
  laddr : c'.laddr=c.laddr
  len : c'.len=c.len
  isFirst : c'.isFirst=c.isFirst
  isLast : c'.isLast=c.isLast

/-- A request is one packet exactly if it ends within the first path MTU it touches. -/
theorem packetFragmenter_single_iff (code : UInt8) (m : UInt16) (raddr : UInt64) (length : UInt32)
    (hm : convertIbvMtuToU16 code=some m) (hpos : 0<length.toNat) :
    (packetFragmenter m raddr length).numSegments=1 ↔
      raddr.toNat+m.toNat<2^64 ∧ raddr.toNat%m.toNat+length.toNat ≤ m.toNat := by
  obtain ⟨k,hm64,hs,hle⟩ := packet_segmentSize code m hm
  have hmk : m.toNat=2^k := by rw [← UInt16.toNat_toUInt64,hm64]
  have hr := raddr.toNat_lt
  have hl := length.toNat_lt
  have hend : (raddr+length.toUInt64).toNat=(raddr.toNat+length.toNat)%2^64 := by
    rw [UInt64.toNat_add,UInt32.toNat_toUInt64]
  have hdiv := Nat.div_add_mod raddr.toNat (2^k)
  have hmod := Nat.mod_lt raddr.toNat hs.pos
  rw [hmk]
  by_cases hspan : raddr.toNat+length.toNat<2^64
  · have hlt : (packetFragmenter m raddr length).baseAddr.toNat<
        (packetFragmenter m raddr length).endAddr.toNat := by
      change raddr.toNat<(raddr+length.toUInt64).toNat
      rw [hend]
      omega
    by_cases hfit : raddr.toNat+2^k<2^64
    · rw [Fragmenter.numSegments_eq hs.stride _ hm64 hm64 hlt hfit]
      change ((raddr+length.toUInt64).toNat-2^k*((raddr.toNat+2^k)/2^k)+2^k-1)/2^k+1=1 ↔ _
      rw [hend,Nat.mod_eq_of_lt hspan,Nat.add_div_right _ hs.pos,Nat.mul_succ,
        Nat.add_eq_right,Nat.div_eq_zero_iff]
      omega
    · refine iff_of_false ?_ (fun h => hfit h.1)
      intro hone
      exact hfit (Fragmenter.first_fits hs (by omega) _ hm64 hm64 hlt (by omega))
  · refine iff_of_false ?_ (by omega)
    rw [Fragmenter.numSegments,if_pos]
    · decide
    · change raddr+length.toUInt64 ≤ raddr
      rw [UInt64.le_iff_toNat_le,hend]
      omega

theorem ChunkIter.toList_single (st : ChunkIter) (hcount : st.inner.count=1)
    (hretry : st.isRetry=true) :
    st.toList=[(st.builder.setChunkMeta st.psn st.laddr st.inner.currentAddr
      (segmentEnd st.inner.currentAddr st.inner.segmentSize st.inner.align st.inner.endAddr-
        st.inner.currentAddr).toUInt32 st.inner.currentPos).setIsRetry.build] := by
  obtain ⟨pos,hnext⟩ := st.inner.next_eq (by omega)
  rw [toList,hcount,collect,next,hnext]
  dsimp only
  rw [if_pos hretry,collect_done _ _ (by dsimp only; omega)]

theorem ChunkIter.toList_head (st : ChunkIter) (c : WrChunk) (cs : List WrChunk)
    (h : st.toList=c::cs) : c.psn=st.psn := by
  rw [toList,collect] at h
  cases hi : st.inner.next with
  | none =>
      rw [next,hi] at h
      cases h
  | some r =>
      obtain ⟨x,st',hx,-,-,-,hpsn,-⟩ := st.next_inner r.1 r.2 hi
      rw [hx] at h
      obtain ⟨rfl,-⟩ := List.cons.inj h
      exact hpsn

theorem SendQueueElem.packets_head (e : SendQueueElem) (m : UInt16) (c : WrChunk)
    (cs : List WrChunk) (hm : convertIbvMtuToU16 e.qpParam.pmtu=some m) (h : e.packets=c::cs) :
    c.psn=e.psn := by
  simp only [packets,wrPacketFragmenter,ChunkFragmenter.intoIter,hm,Option.bind_eq_bind,
    Option.bind_some,Option.map_some,Option.getD_some] at h
  exact ChunkIter.toList_head _ c cs h

/-- A read that is one packet is cut into the chunk it was first sent as. -/
theorem packets_single (e : SendQueueElem) (m : UInt16)
    (hm : convertIbvMtuToU16 e.qpParam.pmtu=some m) (hop : e.wr.opcode=.rdmaRead)
    (hpos : 0<e.wr.length.toNat) (hfit : e.wr.raddr.toNat+m.toNat<2^64)
    (hone : e.wr.raddr.toNat%m.toNat+e.wr.length.toNat ≤ m.toNat) :
    e.packets=[(RdmaWriteWorker.readChunk e.wr e.qpParam e.psn).setIsRetry] := by
  have hcount := (packetFragmenter_single_iff _ m e.wr.raddr e.wr.length hm hpos).mpr ⟨hfit,hone⟩
  obtain ⟨k,hm64,hs,hle⟩ := packet_segmentSize _ m hm
  have hmk : m.toNat=2^k := by rw [← UInt16.toNat_toUInt64,hm64]
  have hdiv := Nat.div_add_mod e.wr.raddr.toNat (2^k)
  rw [hmk] at hfit hone
  have hend : (e.wr.raddr+e.wr.length.toUInt64).toNat=e.wr.raddr.toNat+e.wr.length.toNat := by
    rw [UInt64.toNat_add,UInt32.toNat_toUInt64,Nat.mod_eq_of_lt (by omega)]
  have hlen : (segmentEnd e.wr.raddr m.toUInt64 m.toUInt64 (e.wr.raddr+e.wr.length.toUInt64)-
      e.wr.raddr).toUInt32=e.wr.length := by
    apply UInt32.toNat_inj.mp
    rw [UInt64.toNat_toUInt32,segment_len hs.stride _ _ _ _ hm64 hm64 (by omega) hfit,hend,
      Nat.add_div_right _ hs.pos,Nat.mul_succ,min_eq_right (by omega)]
    have := e.wr.length.toNat_lt
    omega
  have hst : ChunkFragmenter.intoIter ⟨e.wr,e.qpParam,e.psn,m.toUInt64,true⟩=
      some ⟨(packetFragmenter m e.wr.raddr e.wr.length).intoIter,e.psn,e.wr,
        ((WrChunkBuilder.newWithOpcode e.wr.opcode).setQpParams e.qpParam).setIbvParams
          e.wr.sendFlags.toUInt8 e.wr.rkey e.wr.length e.wr.lkey e.wr.imm,
        e.wr.laddr,m.toUInt64,true⟩ := by
    simp only [ChunkFragmenter.intoIter,hm,Option.bind_eq_bind,Option.bind_some]
    rfl
  have hpos : (packetFragmenter m e.wr.raddr e.wr.length).intoIter.currentPos=.only :=
    if_pos hcount
  rw [SendQueueElem.packets,wrPacketFragmenter,hm,Option.bind_eq_bind,Option.bind_some,hst,
    Option.map_some,Option.getD_some,ChunkIter.toList_single _ hcount rfl]
  dsimp only
  rw [hpos]
  change [((WrChunkBuilder.setChunkMeta _ e.psn e.wr.laddr e.wr.raddr (segmentEnd e.wr.raddr
    m.toUInt64 m.toUInt64 (e.wr.raddr+e.wr.length.toUInt64)-e.wr.raddr).toUInt32 _).setIsRetry).build]=_
  rw [hlen,hop]
  rfl

/-- The packets of the elements in front, from the acked PSN on. -/
def resentBefore (q : IbvSendQueue) (front : List SendQueueElem) : List WrChunk :=
  (queuedPackets front).dropWhile (fun c => decide (c.psn < q.basePsn))

theorem read_resent_iff (e : SendQueueElem) (m : UInt16)
    (hm : convertIbvMtuToU16 e.qpParam.pmtu=some m) (hop : e.wr.opcode=.rdmaRead)
    (hpos : 0<e.wr.length.toNat) (split : Nat) (q : IbvSendQueue)
    (front back : List SendQueueElem) (hq : q.inner=front++e::back)
    (hmtu : ∀ x∈q.inner,(convertIbvMtuToU16 x.qpParam.pmtu).isSome=true)
    (hopen : ¬e.psn < q.basePsn) :
    (∃ c',SameRequest (RdmaWriteWorker.readChunk e.wr e.qpParam e.psn) c' ∧
      (PacketRetransmitWorker.process split q .retransmitAll).msgs=
        (resentBefore q front++c'::queuedPackets back).map (fun x => .chunk x.setIsRetry)) ↔
      e.wr.raddr.toNat+m.toNat<2^64 ∧ e.wr.raddr.toNat%m.toNat+e.wr.length.toNat ≤ m.toNat := by
  obtain ⟨skip,hskip⟩ : ∃ skip : WrChunk → Bool,skip=fun c => decide (c.psn < q.basePsn) := ⟨_,rfl⟩
  have hstop (c : WrChunk) (hc : c.psn=e.psn) : skip c=false := by
    rw [hskip]
    exact decide_eq_false (by rw [hc]; exact hopen)
  have hsent : (PacketRetransmitWorker.process split q .retransmitAll).msgs=
      ((queuedPackets front++(e.packets++queuedPackets back)).dropWhile skip).map
        (fun c => .chunk c.setIsRetry) := by
    rw [retransmitAll_eq split q hmtu,hq,queuedPackets_append,hskip]
    rfl
  have hsegments := packetFragmenter_single_iff _ m e.wr.raddr e.wr.length hm hpos
  obtain ⟨ps,hps,hlen,-⟩ := wrPacketFragmenter_spec e.wr e.qpParam m e.psn hm
  have hpackets : e.packets=ps := by
    rw [SendQueueElem.packets,hps]
    rfl
  rw [hsent,← hsegments,← hlen,← hpackets,resentBefore,← hskip]
  constructor
  · rintro ⟨c',-,hmsgs⟩
    have hcount := congrArg List.length hmsgs
    cases hp : e.packets with
    | nil =>
        have hle := Lists.length_dropWhile_append_le skip (queuedPackets front) (queuedPackets back)
        rw [hp,List.nil_append] at hcount
        simp only [List.length_map,List.length_append,List.length_cons] at hcount
        omega
    | cons x xs =>
        rw [hp,Lists.dropWhile_block skip _ _ x xs (hstop x (e.packets_head m x xs hm hp))] at hcount
        simp only [List.length_map,List.length_append,List.length_cons] at hcount
        rw [List.length_cons]
        omega
  · intro hone
    rw [hpackets,hlen,hsegments] at hone
    have hp := packets_single e m hm hop hpos hone.1 hone.2
    refine ⟨(RdmaWriteWorker.readChunk e.wr e.qpParam e.psn).setIsRetry,
      ⟨rfl,rfl,rfl,rfl,rfl,rfl,rfl⟩,?_⟩
    rw [hp,Lists.dropWhile_block skip _ _ _ [] (hstop _ rfl)]
    rfl

/-- A retransmitted read goes out as the one chunk it was exactly if it was one packet of the
path MTU; longer reads are cut up like writes. -/
theorem read_repeated_iff (qp : QpAttr) (ctx : SendQueueContext) (wr : SendWrRdma)
    (e : SendQueueElem) (c : WrChunk) (m : UInt16) (hm : convertIbvMtuToU16 qp.pmtu=some m)
    (hop : wr.opcode=.rdmaRead) (hpos : 0<wr.length.toNat)
    (he : .retransmit (.newWr e)∈(RdmaWriteWorker.rdmaRead qp ctx wr).msgs)
    (hc : .chunk c∈(RdmaWriteWorker.rdmaRead qp ctx wr).msgs)
    (split : Nat) (q : IbvSendQueue) (front back : List SendQueueElem)
    (hq : q.inner=front++e::back)
    (hmtu : ∀ x∈q.inner,(convertIbvMtuToU16 x.qpParam.pmtu).isSome=true)
    (hopen : ¬e.psn < q.basePsn) :
    (∃ c',SameRequest c c' ∧ (PacketRetransmitWorker.process split q .retransmitAll).msgs=
        (resentBefore q front++c'::queuedPackets back).map (fun x => .chunk x.setIsRetry)) ↔
      wr.raddr.toNat+m.toNat<2^64 ∧ wr.raddr.toNat%m.toNat+wr.length.toNat ≤ m.toNat := by
  obtain ⟨msn,psn,-,rfl,rfl⟩ := rdmaRead_msgs qp ctx wr e c he hc
  exact read_resent_iff ⟨psn,wr,QpParams.ofAttr msn qp⟩ m hm hop hpos split q front back hq hmtu
    hopen

/-- A read of `length` bytes from address 0. -/
def readOf (length : UInt32) : SendWrRdma := ⟨⟨1,ibvSendSignaled,0x1000,length,0,0,.rdmaRead⟩,0,0⟩

def readElem (length : UInt32) : SendQueueElem :=
  ⟨⟨0⟩,readOf length,QpParams.ofAttr 0 shortPathQp⟩

theorem read_repeated_iff_one_packet :
    ∃ c',SameRequest (RdmaWriteWorker.readChunk (readOf 256) (QpParams.ofAttr 0 shortPathQp) ⟨0⟩) c' ∧
      (PacketRetransmitWorker.process 0 ⟨[readElem 256],⟨0⟩⟩ .retransmitAll).msgs=
        (resentBefore ⟨[readElem 256],⟨0⟩⟩ []++c'::queuedPackets []).map
          (fun x => .chunk x.setIsRetry) :=
  (read_repeated_iff shortPathQp .init (readOf 256) (readElem 256) _ 256 rfl rfl (by decide)
    (by decide) (by decide) 0 ⟨[readElem 256],⟨0⟩⟩ [] [] rfl (by decide) (by decide)).mpr
    (by decide)

/-- A read of 600 bytes gets one PSN and goes out as one chunk; its retransmission is three chunks
on three PSNs, none of them with the length of the request. -/
theorem read_retransmitted_in_pieces :
    .retransmit (.newWr (readElem 600))∈
      (RdmaWriteWorker.rdmaRead shortPathQp .init (readOf 600)).msgs ∧
    (RdmaWriteWorker.readChunk (readOf 600) (QpParams.ofAttr 0 shortPathQp) ⟨0⟩).len=600 ∧
    (PacketRetransmitWorker.process 0 ⟨[readElem 600],⟨0⟩⟩ .retransmitAll).msgs=
      (queuedPackets [readElem 600]).map (fun c => .chunk c.setIsRetry) ∧
    (queuedPackets [readElem 600]).map (fun c => (c.psn,c.len))=
      [(⟨0⟩,256),(⟨1⟩,256),(⟨2⟩,88)] :=
  ⟨by decide,rfl,by decide,by decide⟩

end Reads

end BlueRdma

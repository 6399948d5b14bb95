import BlueRdma.Math.Lists
import BlueRdma.Workers.Retransmit

namespace BlueRdma

/-- The work requests occupy consecutive blocks of PSN positions from `p` on, one position
for each packet. -/
def Contiguous : Nat → List SendQueueElem → Prop
  | _,[] => True
  | p,e::es => e.psn=Psn.wrap p ∧ (convertIbvMtuToU16 e.qpParam.pmtu).isSome=true ∧
      Contiguous (p+e.packets.length) es

/-- All packets of the queue. -/
def queuedPackets (es : List SendQueueElem) : List WrChunk := es.flatMap SendQueueElem.packets

/-- Position `low` lies inside a work request and is not its first. -/
def Straddled (low : Nat) : Nat → List SendQueueElem → Prop
  | _,[] => False
  | p,e::es => p<low ∧ low<p+e.packets.length ∨ Straddled low (p+e.packets.length) es

namespace Contiguous

theorem mtu (p : Nat) (es : List SendQueueElem) (h : Contiguous p es) :
    ∀ e∈es,(convertIbvMtuToU16 e.qpParam.pmtu).isSome=true := by
  induction es generalizing p with
  | nil => intro e he; cases he
  | cons x xs ih =>
      intro e he
      rcases List.mem_cons.mp he with rfl|he
      · exact h.2.1
      · exact ih _ h.2.2 e he

theorem append (p : Nat) (es fs : List SendQueueElem) :
    Contiguous p (es++fs) ↔ Contiguous p es ∧ Contiguous (p+(queuedPackets es).length) fs := by
  induction es generalizing p with
  | nil => simp [Contiguous,queuedPackets]
  | cons e es ih =>
      simp only [List.cons_append,Contiguous,ih,queuedPackets,List.flatMap_cons,List.length_append,
        and_assoc,Nat.add_assoc]

theorem psn_pos (p : Nat) (es : List SendQueueElem) (h : Contiguous p es) (e : SendQueueElem)
    (he : e∈es) : ∃ q,e.psn=Psn.wrap q ∧ p≤q ∧ q≤p+(queuedPackets es).length := by
  induction es generalizing p with
  | nil => cases he
  | cons x xs ih =>
      have hlen : (queuedPackets (x::xs)).length=x.packets.length+(queuedPackets xs).length :=
        List.length_append
      rcases List.mem_cons.mp he with rfl|he
      · exact ⟨p,h.1,le_rfl,Nat.le_add_right ..⟩
      · obtain ⟨q,hq,h1,h2⟩ := ih _ h.2.2 he
        exact ⟨q,hq,by omega,by omega⟩

/-- The packets carry the positions of the blocks, in order. -/
theorem packets_psn (p : Nat) (es : List SendQueueElem) (h : Contiguous p es)
    (hlen : (queuedPackets es).length<2^40) :
    (queuedPackets es).map WrChunk.psn=(List.range' p (queuedPackets es).length).map Psn.wrap := by
  induction es generalizing p with
  | nil => rfl
  | cons e es ih =>
      obtain ⟨hpsn,hmtu,hrest⟩ := h
      obtain ⟨m,hm⟩ := Option.isSome_iff_exists.mp hmtu
      obtain ⟨ps,hps,-,-,hpsns⟩ := wrPacketFragmenter_spec e.wr e.qpParam m e.psn hm
      have he : e.packets=ps := by rw [SendQueueElem.packets,hps]; rfl
      change (e.packets++queuedPackets es).length<_ at hlen
      rw [List.length_append] at hlen
      have hhead : e.packets.map WrChunk.psn=(List.range' p e.packets.length).map Psn.wrap := by
        rw [he] at hlen ⊢
        exact hpsns p hpsn (by omega)
      change (e.packets++queuedPackets es).map _=
        (List.range' p (e.packets++queuedPackets es).length).map _
      rw [List.map_append,List.length_append,← List.range'_append_1,List.map_append,hhead,
        ih _ hrest (by omega)]

end Contiguous

section Positions
variable {w l h : Nat}

/-- The window of fewer than half the PSN space in which the serial order is exact. -/
structure InWindow (w l h p n : Nat) : Prop where
  low : w≤l
  ordered : l≤h
  high : h<w+2^23
  start : w≤p
  stop : p+n<w+2^23

theorem psn_lt_iff (a b : Nat) (ha : w≤a ∧ a<w+2^23) (hb : w≤b ∧ b<w+2^23) :
    Psn.wrap a<Psn.wrap b ↔ a<b := Psn.wrap_lt a b (by omega) (by omega)

theorem takeWhile_before (b : Nat) (hb : w≤b ∧ b<w+2^23) (cs : List WrChunk) (p : Nat)
    (hps : cs.map WrChunk.psn=(List.range' p cs.length).map Psn.wrap)
    (hp : w≤p ∧ p+cs.length<w+2^23) :
    cs.takeWhile (fun c => decide (c.psn<Psn.wrap b))=cs.take (b-p) ∧
      cs.dropWhile (fun c => decide (c.psn<Psn.wrap b))=cs.drop (b-p) := by
  induction cs generalizing p with
  | nil => simp
  | cons c cs ih =>
      rw [List.length_cons,List.range'_succ,List.map_cons,List.map_cons] at hps
      rw [List.length_cons] at hp
      obtain ⟨hc,hps⟩ := List.cons.inj hps
      obtain ⟨ih1,ih2⟩ := ih (p+1) hps (by omega)
      have hlt := psn_lt_iff p b ⟨hp.1,by omega⟩ hb
      by_cases hpb : p<b
      · have hc' : decide (c.psn<Psn.wrap b)=true := by rw [hc]; exact decide_eq_true (hlt.mpr hpb)
        rw [List.takeWhile_cons,List.dropWhile_cons,if_pos hc',if_pos hc',ih1,ih2,
          show b-p=(b-(p+1))+1 by omega]
        exact ⟨rfl,rfl⟩
      · have hc' : ¬decide (c.psn<Psn.wrap b)=true := by
          rw [hc,decide_eq_true_eq,hlt]; exact hpb
        rw [List.takeWhile_cons,List.dropWhile_cons,if_neg hc',if_neg hc',show b-p=0 by omega]
        exact ⟨rfl,rfl⟩

/-- The packets with a PSN in the range are a block of the packet list. -/
theorem filter_range (cs : List WrChunk) (p : Nat)
    (hps : cs.map WrChunk.psn=(List.range' p cs.length).map Psn.wrap)
    (hw : InWindow w l h p cs.length) :
    cs.filter (fun c => decide (Psn.wrap l ≤ c.psn) && decide (c.psn<Psn.wrap h))=
      (cs.take (h-p)).drop (l-p) := by
  induction cs generalizing p with
  | nil => simp
  | cons c cs ih =>
      rw [List.length_cons,List.range'_succ,List.map_cons,List.map_cons] at hps
      obtain ⟨hl,hlh,hh,hp,hstop⟩ := hw
      rw [List.length_cons] at hstop
      obtain ⟨hc,hps⟩ := List.cons.inj hps
      have ih := ih (p+1) hps ⟨hl,hlh,hh,by omega,by omega⟩
      have hlt := psn_lt_iff p h ⟨hp,by omega⟩ ⟨by omega,hh⟩
      have hle : Psn.wrap l≤Psn.wrap p ↔ l≤p := Psn.wrap_le l p (by omega) (by omega)
      rw [List.filter_cons,hc,ih]
      simp only [hlt,hle,Bool.and_eq_true,decide_eq_true_eq]
      split_ifs with hin
      · rw [show l-p=0 by omega,show l-(p+1)=0 by omega,show h-p=(h-(p+1))+1 by omega]
        rfl
      · rcases Nat.lt_or_ge p l with hpl|hpl
        · rw [show l-p=(l-(p+1))+1 by omega,show h-p=(h-(p+1))+1 by omega]
          rfl
        · rw [show h-p=0 by omega,show h-(p+1)=0 by omega,List.take_zero,List.take_zero,
            List.drop_nil,List.drop_nil]

/-- From position `b` on no element starts before `b`, and none reaches over it. -/
theorem none_before (b : Nat) (hb : w≤b ∧ b<w+2^23) (es : List SendQueueElem) (p : Nat)
    (hes : Contiguous p es) (hbp : b≤p) (hp : p+(queuedPackets es).length<w+2^23) :
    (∀ e∈es,decide (e.psn<Psn.wrap b)=false) ∧ ¬Straddled b p es := by
  induction es generalizing p with
  | nil => exact ⟨by simp,id⟩
  | cons x xs ih =>
      change p+(x.packets++queuedPackets xs).length<_ at hp
      rw [List.length_append] at hp
      obtain ⟨ih1,ih2⟩ := ih (p+x.packets.length) hes.2.2 (by omega) (by omega)
      refine ⟨?_,?_⟩
      · intro e he
        rcases List.mem_cons.mp he with rfl|he
        · rw [hes.1,decide_eq_false_iff_not,psn_lt_iff p b ⟨by omega,by omega⟩ hb]
          omega
        · exact ih1 e he
      · rintro (h|h)
        · omega
        · exact ih2 h

/-- The elements that start before position `b` are a block at the front, and `b` is inside a
work request exactly if that block reaches past it. -/
theorem split_before (b : Nat) (hb : w≤b ∧ b<w+2^23) (es : List SendQueueElem) (p : Nat)
    (hes : Contiguous p es) (hp : w≤p ∧ p+(queuedPackets es).length<w+2^23) :
    ∃ A R,es=A++R ∧ (∀ e∈A,decide (e.psn<Psn.wrap b)=true) ∧
      (∀ e∈R,decide (e.psn<Psn.wrap b)=false) ∧ (A=[] ∨ p<b) ∧
      (R=[] ∨ b≤p+(queuedPackets A).length) ∧
      (Straddled b p es ↔ p<b ∧ b<p+(queuedPackets A).length) := by
  induction es generalizing p with
  | nil =>
      refine ⟨[],[],rfl,by simp,by simp,Or.inl rfl,Or.inl rfl,iff_of_false id ?_⟩
      simp only [queuedPackets,List.flatMap_nil,List.length_nil]
      omega
  | cons x xs ih =>
      rcases Nat.lt_or_ge p b with hpb|hpb
      · change w≤p ∧ p+(x.packets++queuedPackets xs).length<_ at hp
        rw [List.length_append] at hp
        obtain ⟨A,R,rfl,hA,hR,hA0,hR0,hstr⟩ := ih (p+x.packets.length) hes.2.2 (by omega)
        have hlen : (queuedPackets (x::A)).length=x.packets.length+(queuedPackets A).length :=
          List.length_append
        refine ⟨x::A,R,rfl,?_,hR,Or.inr hpb,?_,?_⟩
        · intro e he
          rcases List.mem_cons.mp he with rfl|he
          · rw [hes.1,decide_eq_true_eq,psn_lt_iff p b ⟨hp.1,by omega⟩ hb]
            exact hpb
          · exact hA e he
        · exact hR0.imp_right (fun h => by rw [hlen]; omega)
        · rw [Straddled,hstr,hlen]
          rcases hA0 with rfl|hA0
          · simp only [queuedPackets,List.flatMap_nil,List.length_nil]
            omega
          · omega
      · obtain ⟨hnone,hstr⟩ := none_before b hb (x::xs) p hes hpb hp.2
        exact ⟨[],x::xs,rfl,by simp,hnone,Or.inl rfl,Or.inr hpb,iff_of_false hstr (by omega)⟩

end Positions

/-- The queue part that `range` selects, and where it starts. -/
theorem range_eq (split w l h p : Nat) (q : IbvSendQueue) (hq : Contiguous p q.inner)
    (hw : InWindow w l h p (queuedPackets q.inner).length) :
    ∃ A M Z,q.inner=A++M++Z ∧ q.range split (Psn.wrap l) (Psn.wrap h)=M ∧
      (M=[] ∨ l≤p+(queuedPackets A).length) ∧
      (Z=[] ∨ h≤p+(queuedPackets A).length+(queuedPackets M).length) ∧
      (A=[] ∨ p<l) ∧
      (Straddled l p q.inner ↔ p<l ∧ l<p+(queuedPackets A).length) := by
  obtain ⟨hl,hlh,hh,hp,hstop⟩ := hw
  obtain ⟨A,R,hAR,hA,hR,hA0,hR0,hstr⟩ :=
    split_before l ⟨hl,by omega⟩ q.inner p hq ⟨hp,hstop⟩
  rw [hAR,Contiguous.append] at hq
  have hlen : (queuedPackets q.inner).length=(queuedPackets A).length+(queuedPackets R).length := by
    rw [hAR]
    simp [queuedPackets]
  obtain ⟨M,Z,rfl,hM,hZ,hM0,hZ0,-⟩ :=
    split_before h ⟨by omega,hh⟩ R (p+(queuedPackets A).length) hq.2 ⟨by omega,by omega⟩
  have hAh : ∀ e∈A,decide (e.psn<Psn.wrap h)=true := by
    intro e he
    obtain ⟨P,hP,h1,h2⟩ := hq.1.psn_pos p A e he
    have hlt := of_decide_eq_true (hA e he)
    rw [hP,psn_lt_iff P l ⟨by omega,by omega⟩ ⟨hl,by omega⟩] at hlt
    rw [hP,decide_eq_true_eq,psn_lt_iff P h ⟨by omega,by omega⟩ ⟨by omega,hh⟩]
    omega
  have ha : q.before split (Psn.wrap l)=A.length := by
    rw [IbvSendQueue.before,hAR]
    exact Search.ringPartitionPoint_eq _ split A (M++Z) hA hR
  have hb : q.before split (Psn.wrap h)=(A++M).length := by
    rw [IbvSendQueue.before,hAR,← List.append_assoc]
    refine Search.ringPartitionPoint_eq _ split (A++M) Z ?_ hZ
    intro e he
    rcases List.mem_append.mp he with he|he
    · exact hAh e he
    · exact hM e he
  refine ⟨A,M,Z,by rw [hAR,List.append_assoc],?_,?_,hZ0,hA0,hstr⟩
  · rw [IbvSendQueue.range,ha,hb,List.length_append]
    split_ifs with hempty
    · exact (List.length_eq_zero_iff.mp (by omega)).symm
    · rw [hAR,← List.append_assoc,← List.length_append,List.take_left',List.drop_left']
      · rfl
      · rfl
  · rcases hR0 with hnil|hle
    · exact Or.inl (List.append_eq_nil_iff.mp hnil).1
    · exact Or.inr hle

theorem queuedPackets_append (es fs : List SendQueueElem) :
    queuedPackets (es++fs)=queuedPackets es++queuedPackets fs := List.flatMap_append

/-- Retransmitting a PSN range sends exactly the queued packets of the range unless the range
starts inside a work request: then the rest of that request is left out. -/
theorem retransmitRange_exact_iff (split w l h p : Nat) (q : IbvSendQueue)
    (hq : Contiguous p q.inner) (hw : InWindow w l h p (queuedPackets q.inner).length) :
    (queuedPackets q.inner).map WrChunk.psn=
        (List.range' p (queuedPackets q.inner).length).map Psn.wrap ∧
      ((PacketRetransmitWorker.process split q (.retransmitRange (Psn.wrap l) (Psn.wrap h))).msgs=
          ((queuedPackets q.inner).filter (fun c =>
            decide (Psn.wrap l ≤ c.psn) && decide (c.psn<Psn.wrap h))).map
              (fun c => .chunk c.setIsRetry) ↔
        l=h ∨ ¬Straddled l p q.inner) := by
  have hlen : (queuedPackets q.inner).length<2^23 := by
    have := hw.stop
    have := hw.start
    omega
  have hpsn := hq.packets_psn p q.inner (by omega)
  refine ⟨hpsn,?_⟩
  obtain ⟨A,M,Z,hAMZ,hrange,hM,hZ,hA,hstr⟩ := range_eq split w l h p q hq hw
  obtain ⟨hl,hlh,hh,hp,hstop⟩ := hw
  have hqp : queuedPackets q.inner=queuedPackets A++queuedPackets M++queuedPackets Z := by
    rw [hAMZ,queuedPackets_append,queuedPackets_append]
  have hlens : (queuedPackets q.inner).length=
      (queuedPackets A).length+(queuedPackets M).length+(queuedPackets Z).length := by
    rw [hqp,List.length_append,List.length_append]
  have hmtu := hq.mtu p q.inner
  rw [hAMZ,Contiguous.append,Contiguous.append] at hq
  have hMpsn := hq.1.2.packets_psn _ M (by omega)
  have hstream := PacketRetransmitWorker.packetStream_eq M (fun e he => hmtu e (by
    rw [hAMZ]
    exact List.mem_append_left _ (List.mem_append_right _ he)))
  have hskip : (queuedPackets M).dropWhile (fun c => decide (c.psn<Psn.wrap l))=
      queuedPackets M := by
    rcases hM with rfl|hM
    · rfl
    · rw [(takeWhile_before l ⟨hl,by omega⟩ _ _ hMpsn ⟨by omega,by omega⟩).2,
        Nat.sub_eq_zero_of_le hM,List.drop_zero]
  have hsent : (PacketRetransmitWorker.process split q
      (.retransmitRange (Psn.wrap l) (Psn.wrap h))).msgs=
        ((queuedPackets M).take (h-(p+(queuedPackets A).length))).map
          (fun c => .chunk c.setIsRetry) := by
    rw [PacketRetransmitWorker.process,hrange,hstream]
    dsimp only
    rw [PacketRetransmitWorker.skipWhile_map_some,PacketRetransmitWorker.transmit_map_some]
    change ((((queuedPackets M).dropWhile _).takeWhile _).map _)=_
    rw [hskip,(takeWhile_before h ⟨by omega,hh⟩ _ _ hMpsn ⟨by omega,by omega⟩).1]
  rw [hsent,filter_range _ p hpsn ⟨hl,hlh,hh,hp,hstop⟩,hqp,hstr]
  constructor
  · intro heq
    have hcount := congrArg List.length heq
    simp only [List.length_map,List.length_take,List.length_drop,List.length_append] at hcount
    have hZ' : (queuedPackets Z).length=0 ∨
        h≤p+(queuedPackets A).length+(queuedPackets M).length :=
      hZ.imp_left (fun hz => by rw [hz]; rfl)
    omega
  · intro hok
    rw [Lists.middle_eq (queuedPackets A) (queuedPackets M) (queuedPackets Z) p l h hlh
      (hA.imp_left (fun hz => by rw [hz]; rfl)) (hM.imp_left (fun hz => by rw [hz]; rfl))
      (hZ.imp_left (fun hz => by rw [hz]; rfl)) hok]

/-- Two writes of three packets each, at PSNs 0 and 3. -/
def twoWrites : IbvSendQueue :=
  ⟨[⟨⟨0⟩,shortWrite 0 600,QpParams.ofAttr 0 shortPathQp⟩,
    ⟨⟨3⟩,shortWrite 0 600,QpParams.ofAttr 1 shortPathQp⟩],⟨0⟩⟩

theorem retransmitRange_second_write :
    (PacketRetransmitWorker.process 0 twoWrites (.retransmitRange ⟨3⟩ ⟨5⟩)).msgs=
      ((queuedPackets twoWrites.inner).filter (fun c =>
        decide (Psn.mk 3 ≤ c.psn) && decide (c.psn<Psn.mk 5))).map (fun c => .chunk c.setIsRetry) :=
  (retransmitRange_exact_iff 0 0 3 5 0 twoWrites (by simp only [Contiguous,twoWrites]; decide)
    ⟨by decide,by decide,by decide,by decide,by decide⟩).2.mpr
    (Or.inr (by simp only [Straddled,twoWrites]; decide))

/-- A range that starts at the second packet of the first write: that packet and the third are
left out. -/
theorem retransmitRange_skips_straddling :
    Contiguous 0 twoWrites.inner ∧ InWindow 0 1 4 0 (queuedPackets twoWrites.inner).length ∧
    (PacketRetransmitWorker.process 0 twoWrites (.retransmitRange ⟨1⟩ ⟨4⟩)).msgs.length=1 ∧
    ((queuedPackets twoWrites.inner).filter (fun c =>
        decide (Psn.mk 1 ≤ c.psn) && decide (c.psn<Psn.mk 4))).length=3 :=
  ⟨by simp only [Contiguous,twoWrites]; decide,⟨by decide,by decide,by decide,by decide,by decide⟩,
    by decide,by decide⟩

end BlueRdma

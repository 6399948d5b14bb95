import BlueRdma.Framework.Run
import BlueRdma.RdmaUtils.Fragmenter

namespace BlueRdma

/-- The request starts on a path-MTU boundary or ends before the next one. -/
def Unsplit (m : UInt16) (wr : SendWrRdma) : Prop :=
  wr.raddr.toNat%m.toNat=0 ∨ wr.raddr.toNat%m.toNat+wr.length.toNat < m.toNat

instance (m : UInt16) (wr : SendWrRdma) : Decidable (Unsplit m wr) :=
  inferInstanceAs (Decidable (_ ∨ _))

/-- A non-empty request away from the top of the address space. -/
def InRange (wr : SendWrRdma) : Prop :=
  0<wr.length.toNat ∧ wr.raddr.toNat+wr.length.toNat+2^16<2^64

instance (wr : SendWrRdma) : Decidable (InRange wr) := inferInstanceAs (Decidable (_ ∧ _))

/-- The charged PSNs and the packets agree unless a first partial packet is followed
by more data: that packet is cut off the length but not counted. -/
theorem numPsn_agrees_iff (wr : SendWrRdma) (qp : QpParams) (psn : Psn) (m : UInt16)
    (hm : convertIbvMtuToU16 qp.pmtu=some m) (hwr : InRange wr) :
    (numPsn qp.pmtu wr.raddr wr.length).map UInt32.toNat=
      (wrPacketFragmenter wr qp psn).map List.length ↔ Unsplit m wr := by
  obtain ⟨n,hn,hnval⟩ := numPsn_eq qp.pmtu m wr.raddr wr.length hm (by have := hwr.2; omega)
  obtain ⟨ps,hps,hlen,-⟩ := wrPacketFragmenter_spec wr qp m psn hm
  obtain ⟨k,-,-,hmk⟩ := convertIbvMtuToU16_pow qp.pmtu m hm
  have hpos : 0 < m.toNat := by rw [hmk]; exact Nat.two_pow_pos k
  have hr := Nat.mod_lt wr.raddr.toNat hpos
  have hl := hwr.1
  rw [packetFragmenter_numSegments qp.pmtu m wr.raddr wr.length hm hwr.1 hwr.2] at hlen
  rw [hn,hps,Option.map_some,Option.map_some,Option.some.injEq,hnval,hlen,Unsplit]
  generalize m.toNat=m at *
  generalize wr.raddr.toNat%m=r at *
  generalize wr.length.toNat=l at *
  rcases Nat.eq_zero_or_pos r with h0|h0
  · have hstep := Word.ceil_step l m hpos hl
    rw [h0,Nat.sub_zero,Nat.mod_self,if_pos (Nat.zero_le _),Nat.sub_zero,hstep]
    exact iff_of_true rfl (Or.inl rfl)
  · rw [Nat.mod_eq_of_lt (show m-r < m by omega)]
    split_ifs with hgap
    · exact iff_of_false (by omega) (by omega)
    · rw [Nat.sub_eq_zero_of_le (show l ≤ m-r by omega),Nat.div_eq_of_lt (show 0+m-1 < m by omega),
        Word.ceil_step l m hpos hl,Nat.sub_eq_zero_of_le (show l ≤ m by omega),
        Nat.div_eq_of_lt (show 0+m-1 < m by omega)]
      exact iff_of_true rfl (Or.inr (by omega))

/-- A work request that `nextWr` accepted, with the numbers it was given. -/
structure AcceptedWr where
  wr : SendWrRdma
  params : QpParams
  psn : Psn
  numPsn : UInt32

def AcceptedWr.packets (a : AcceptedWr) : List WrChunk :=
  (wrPacketFragmenter a.wr a.params a.psn).getD []

/-- The send queue context of one QP and the requests it has accepted so far. -/
structure PsnLedger where
  ctx : SendQueueContext
  accepted : List AcceptedWr

inductive LedgerOp
  | post (wr : SendWrRdma)
  | ackPsn (psn : Psn)
  | ackMsn (msn : UInt16)

namespace PsnLedger

/-- The numbering part of `RdmaWriteWorker::write`, mixed with acknowledgements. -/
def step (qp : QpAttr) (s : PsnLedger) : LedgerOp → PsnLedger
  | .post wr => match numPsn qp.pmtu wr.raddr wr.length with
    | none => s
    | some n => match s.ctx.nextWr n with
      | (ctx,none) => {s with ctx := ctx}
      | (ctx,some (msn,psn)) => ⟨ctx,s.accepted++[⟨wr,QpParams.ofAttr msn qp,psn,n⟩]⟩
  | .ackPsn psn => {s with ctx := s.ctx.updatePsnAcked psn}
  | .ackMsn msn => {s with ctx := s.ctx.updateMsnAcked msn}

def run (qp : QpAttr) (ctx : SendQueueContext) (ops : List LedgerOp) : PsnLedger :=
  Run.run (step qp) ⟨ctx,[]⟩ ops

def handedOut (l : List AcceptedWr) : Nat := (l.map (fun a => a.numPsn.toNat)).sum

/-- The requests occupy consecutive blocks of positions from `p` on. -/
def Laid (qp : QpAttr) : Nat → List AcceptedWr → Prop
  | _,[] => True
  | p,a::l => a.psn=Psn.wrap p ∧ a.params.pmtu=qp.pmtu ∧
      numPsn qp.pmtu a.wr.raddr a.wr.length=some a.numPsn ∧ Laid qp (p+a.numPsn.toNat) l

@[simp] theorem handedOut_cons (a : AcceptedWr) (l : List AcceptedWr) :
    handedOut (a::l)=a.numPsn.toNat+handedOut l := rfl

theorem handedOut_concat (l : List AcceptedWr) (a : AcceptedWr) :
    handedOut (l++[a])=handedOut l+a.numPsn.toNat := by
  simp [handedOut]

theorem laid_concat (qp : QpAttr) (l : List AcceptedWr) (a : AcceptedWr) (p : Nat)
    (hl : Laid qp p l) (hpsn : a.psn=Psn.wrap (p+handedOut l)) (hm : a.params.pmtu=qp.pmtu)
    (hn : numPsn qp.pmtu a.wr.raddr a.wr.length=some a.numPsn) : Laid qp p (l++[a]) := by
  induction l generalizing p with
  | nil => exact ⟨hpsn,hm,hn,trivial⟩
  | cons b l ih =>
      obtain ⟨hb,hbm,hbn,hrest⟩ := hl
      refine ⟨hb,hbm,hbn,ih _ hrest ?_⟩
      rw [hpsn,handedOut_cons,Nat.add_assoc]

/-- Where the next request goes. -/
structure Inv (qp : QpAttr) (p : Nat) (s : PsnLedger) : Prop where
  psn : s.ctx.psn=Psn.wrap (p+handedOut s.accepted)
  laid : Laid qp p s.accepted

theorem step_inv (qp : QpAttr) (p : Nat) (s : PsnLedger) (op : LedgerOp) (h : Inv qp p s) :
    Inv qp p (s.step qp op) := by
  cases op with
  | ackPsn psn => exact ⟨h.psn,h.laid⟩
  | ackMsn msn => exact ⟨h.psn,h.laid⟩
  | post wr =>
      rw [step]
      split
      · exact h
      · rename_i n hn
        rcases hnext : s.ctx.nextWr n with ⟨ctx,_|⟨msn,psn⟩⟩
        · have hctx := s.ctx.nextWr_none n (by rw [hnext])
          rw [hnext] at hctx
          dsimp only at hctx ⊢
          rw [hctx]
          exact h
        · obtain ⟨-,hpsn,hctx,-⟩ := s.ctx.nextWr_some n msn psn (by rw [hnext])
          rw [hnext] at hctx
          dsimp only at hctx ⊢
          refine ⟨?_,laid_concat qp _ _ p h.laid (hpsn.trans h.psn) rfl hn⟩
          dsimp only
          rw [hctx,handedOut_concat,h.psn]
          exact (Psn.wrap_add _ _).trans (by rw [Nat.add_assoc])

theorem run_inv (qp : QpAttr) (ctx : SendQueueContext) (hv : ctx.psn.Valid) (ops : List LedgerOp) :
    Inv qp ctx.psn.toNat (run qp ctx ops) :=
  Run.run_inv_all (step qp) (Inv qp ctx.psn.toNat) (step_inv qp _) _ ops
    ⟨Psn.eq_wrap _ hv,trivial⟩

/-- Every packet of a laid-out list has its PSN in the block of the list. -/
theorem packets_within (qp : QpAttr) (m : UInt16) (hm : convertIbvMtuToU16 qp.pmtu=some m)
    (l : List AcceptedWr) (p : Nat) (hl : Laid qp p l)
    (hok : ∀ a∈l,InRange a.wr ∧ Unsplit m a.wr) (a : AcceptedWr) (ha : a∈l) (c : WrChunk)
    (hc : c∈a.packets) : ∃ q,c.psn=Psn.wrap q ∧ p≤q ∧ q<p+handedOut l := by
  induction l generalizing p with
  | nil => cases ha
  | cons b l ih =>
      obtain ⟨hpsn,hpm,hn,hrest⟩ := hl
      rcases List.mem_cons.mp ha with rfl|ha
      · have hma : convertIbvMtuToU16 a.params.pmtu=some m := by rw [hpm,hm]
        obtain ⟨hin,huns⟩ := hok a (List.mem_cons_self ..)
        obtain ⟨ps,hps,-,-,hcons⟩ := wrPacketFragmenter_spec a.wr a.params m a.psn hma
        have hcount := (numPsn_agrees_iff a.wr a.params a.psn m hma hin).mpr huns
        rw [hpm,hn,hps,Option.map_some,Option.map_some,Option.some.injEq] at hcount
        have hlt := a.numPsn.toNat_lt
        have hmap := hcons p hpsn (by omega)
        rw [AcceptedWr.packets,hps,Option.getD_some] at hc
        have hmem : c.psn∈(List.range' p ps.length).map Psn.wrap :=
          hmap ▸ List.mem_map_of_mem hc
        obtain ⟨q,hq,hqc⟩ := List.mem_map.mp hmem
        obtain ⟨hlo,hhi⟩ := List.mem_range'_1.mp hq
        exact ⟨q,hqc.symm,hlo,by rw [handedOut_cons]; omega⟩
      · obtain ⟨q,hq,hlo,hhi⟩ := ih _ hrest (fun b hb => hok b (List.mem_cons_of_mem _ hb)) ha
        exact ⟨q,hq,by omega,by rw [handedOut_cons]; omega⟩

theorem packets_disjoint (qp : QpAttr) (m : UInt16) (hm : convertIbvMtuToU16 qp.pmtu=some m)
    (l : List AcceptedWr) (p : Nat) (hl : Laid qp p l)
    (hok : ∀ a∈l,InRange a.wr ∧ Unsplit m a.wr) (hsum : handedOut l<2^24) :
    l.Pairwise (fun a b => ∀ c∈a.packets,∀ d∈b.packets,c.psn≠d.psn) := by
  induction l generalizing p with
  | nil => exact List.Pairwise.nil
  | cons a l ih =>
      have hone : Laid qp p [a] := ⟨hl.1,hl.2.1,hl.2.2.1,trivial⟩
      have hok' : ∀ b∈l,InRange b.wr ∧ Unsplit m b.wr :=
        fun b hb => hok b (List.mem_cons_of_mem _ hb)
      rw [handedOut_cons] at hsum
      refine List.Pairwise.cons ?_ (ih _ hl.2.2.2 hok' (by omega))
      intro b hb c hc d hd heq
      obtain ⟨q,hq,hqlo,hqhi⟩ := packets_within qp m hm [a] p hone
        (fun x hx => hok x (by rw [List.mem_singleton.mp hx]; exact List.mem_cons_self ..)) a
        (List.mem_singleton_self a) c hc
      obtain ⟨r,hr,hrlo,hrhi⟩ := packets_within qp m hm l _ hl.2.2.2 hok' b hb d hd
      rw [hq,hr,Psn.wrap_eq_iff] at heq
      rw [handedOut_cons] at hqhi
      simp only [handedOut,List.map_nil,List.sum_nil] at hqhi
      omega

end PsnLedger

/-- PSN accounting agrees with packetisation exactly for unsplit requests, and as long as
the accepted requests are unsplit no PSN is used by two of them. -/
theorem psn_accounting (m : UInt16) :
    (∀ (wr : SendWrRdma) (qp : QpParams) (psn : Psn),
      convertIbvMtuToU16 qp.pmtu=some m → InRange wr →
      ((numPsn qp.pmtu wr.raddr wr.length).map UInt32.toNat=
        (wrPacketFragmenter wr qp psn).map List.length ↔ Unsplit m wr)) ∧
    ∀ (qp : QpAttr) (ctx : SendQueueContext) (ops : List LedgerOp),
      convertIbvMtuToU16 qp.pmtu=some m → ctx.psn.Valid →
      (∀ a∈(PsnLedger.run qp ctx ops).accepted,InRange a.wr ∧ Unsplit m a.wr) →
      PsnLedger.handedOut (PsnLedger.run qp ctx ops).accepted<2^24 →
      (PsnLedger.run qp ctx ops).accepted.Pairwise
        (fun a b => ∀ c∈a.packets,∀ d∈b.packets,c.psn≠d.psn) := by
  refine ⟨fun wr qp psn => numPsn_agrees_iff wr qp psn m,?_⟩
  intro qp ctx ops hm hv hok hsum
  exact PsnLedger.packets_disjoint qp m hm _ _ (PsnLedger.run_inv qp ctx hv ops).laid hok hsum

theorem psn_accounting_aligned :
    (numPsn 1 512 600).map UInt32.toNat=
      (wrPacketFragmenter (shortWrite 512 600) (QpParams.ofAttr 0 shortPathQp) ⟨7⟩).map
        List.length ∧
    (PsnLedger.run shortPathQp .init [.post (shortWrite 512 600),.ackPsn ⟨2⟩,
      .post (shortWrite 0 256)]).accepted.Pairwise
        (fun a b => ∀ c∈a.packets,∀ d∈b.packets,c.psn≠d.psn) :=
  ⟨((psn_accounting 256).1 (shortWrite 512 600) (QpParams.ofAttr 0 shortPathQp) ⟨7⟩ (by decide)
      (by decide)).mpr (by decide),
    (psn_accounting 256).2 shortPathQp .init [.post (shortWrite 512 600),.ackPsn ⟨2⟩,
      .post (shortWrite 0 256)] (by decide) (by decide) (by decide) (by decide)⟩

/-- 255 bytes at address 1 are one packet, for which no PSN is charged; the next request
is given the same PSN. -/
theorem numPsn_misses_first_packet :
    convertIbvMtuToU16 1=some 256 ∧ InRange (shortWrite 1 255) ∧
    (numPsn 1 1 255).map UInt32.toNat=some 0 ∧
    (wrPacketFragmenter (shortWrite 1 255) (QpParams.ofAttr 0 shortPathQp) ⟨0⟩).map
      List.length=some 1 ∧
    ¬(PsnLedger.run shortPathQp .init [.post (shortWrite 1 255),
      .post (shortWrite 1 255)]).accepted.Pairwise
        (fun a b => ∀ c∈a.packets,∀ d∈b.packets,c.psn≠d.psn) := by
  decide

end BlueRdma

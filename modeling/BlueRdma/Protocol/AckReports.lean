import BlueRdma.Framework.Run
import BlueRdma.RdmaUtils.TrackerOp

namespace BlueRdma
namespace PsnTracker

/-- What the documentation says of a return value: there is one exactly if the left edge has
moved, and then it is where the edge is now. -/
def Follows (t : PsnTracker) (r : PsnTracker × Option Psn) : Prop :=
  (r.2.isSome=true ↔ r.1.basePsn≠t.basePsn) ∧ ∀ p∈r.2,p=r.1.basePsn

/-- A cumulative acknowledgement that ends where the left edge is. -/
def AtEdge (t : PsnTracker) (op : TrackerOp) : Prop := t.upto op=some t.basePsn

/-- Calls that acknowledge up to the left edge, none of which finds the PSN at the edge
acknowledged. -/
def Stalls (t : PsnTracker) (ops : List TrackerOp) : Prop :=
  (∃ op∈ops,t.AtEdge op) ∧
  ∀ q b,TrackerOp.ackBitmap q b∈ops →
    t.inner.bit 0=false ∧ ¬(TrackerOp.ackBitmap q b).Names t.basePsn

theorem follows_iff (t : PsnTracker) (r : PsnTracker × Option Psn) (h : Reports t r) :
    Follows t r ↔ ¬(r.2.isSome=true ∧ r.1.basePsn=t.basePsn) := by
  have hedge := h.edge
  constructor
  · rintro ⟨hiff,-⟩ ⟨hsome,hsame⟩
    exact hiff.mp hsome hsame
  · intro hno
    refine ⟨⟨fun hsome hsame => hno ⟨hsome,hsame⟩,?_⟩,?_⟩
    · intro hne
      rcases hr : r.2 with _|p
      · rw [hr] at hedge
        exact absurd hedge hne
      · rfl
    · intro p hp
      rw [hedge,Option.mem_def.mp hp]
      rfl

/-- The bit at the left edge is set by exactly the bitmaps that name its PSN. -/
theorem ackBitmap_marks_edge (t : PsnTracker) (q : Psn) (b : BitVec 128) (hb : t.basePsn.Valid)
    (hq : q.Valid) :
    t.Marks (.ackBitmap q b) 0 ↔ (TrackerOp.ackBitmap q b).Names t.basePsn := by
  have hmod := rstart_mod t q hb hq
  have hbound := rstart_bounds t q hb hq
  constructor
  · intro h
    have hnames := (h.names t _ 0 hb (by
      intro p hp
      rwa [List.mem_singleton.mp hp])).1
    rwa [Nat.add_zero,← Psn.eq_wrap _ hb] at hnames
  · rintro ⟨j,hj,hbit,heq⟩
    have hnat := congrArg Psn.toNat heq
    rw [Psn.add_toNat,UInt32.toNat_ofNat_of_lt' (show j<2^32 by omega)] at hnat
    have hstart : t.rstart q=-(j : Int) := by omega
    refine ⟨by omega,by omega,?_⟩
    rw [hstart,show ((0 : Nat) : Int)- -(j : Int)=j by omega,Int.toNat_natCast]
    exact hbit

/-- The left edge has moved `k` PSNs, and at most `n` bits are set beyond it. -/
structure Moved (t t' : PsnTracker) (k n : Nat) : Prop where
  edge : t'.basePsn=Psn.wrap (t.basePsn.toNat+k)
  base : t'.basePsn.Valid
  length : t'.inner.length ≤ rowBound
  ones : k+t'.inner.ones≤n

theorem apply_moved (t : PsnTracker) (op : TrackerOp) (hb : t.basePsn.Valid) (hop : op.Valid)
    (hlen : t.inner.length ≤ rowBound) : ∃ k,Moved t (t.apply op).1 k rowBound := by
  obtain ⟨k,hk⟩ := apply_advance t op hb hop hlen
  have hones := (t.apply op).1.inner.ones_le_of_bits (rowBound-k) (fun i hi => by
    have := (hk.kept i hi).1
    omega)
  have hshort := hk.short
  exact ⟨k,hk.edge,apply_valid t op hb hop,hk.length,by omega⟩

/-- A bitmap reports exactly if the edge moves, and it moves exactly if the PSN at the edge has
been acknowledged or is named now. -/
theorem ackBitmap_moved (t : PsnTracker) (q : Psn) (b : BitVec 128) (hb : t.basePsn.Valid)
    (hq : q.Valid) (hlen : t.inner.length ≤ rowBound) :
    ∃ k,Moved t (t.ackBitmap q b).1 k (t.inner.ones+128) ∧
      ((t.ackBitmap q b).2.isSome=true ↔ k≠0) ∧
      (k=0 ↔ t.inner.bit 0=false ∧ ¬(TrackerOp.ackBitmap q b).Names t.basePsn) ∧
      (k=0 → (t.ackBitmap q b).1.inner.bit 0=false) := by
  obtain ⟨row,heq,hbits,hrow,hones⟩ := ackBitmap_row t q b hb hq
  have hshort : row.length ≤ rowBound := hrow.trans (max_le hlen le_rfl)
  obtain ⟨hedge,hshift,hlength,hsome,hrest⟩ := tryAdvance_eq {t with inner := row} hb hshort
  have hmark := ackBitmap_marks_edge t q b hb hq
  rw [heq]
  refine ⟨row.leadingOnes,⟨hedge,?_,hlength.trans_le hshort,by dsimp only at hrest; omega⟩,hsome,?_,?_⟩
  · rw [hedge]
    exact Psn.wrap_valid _
  · rw [BitRow.leadingOnes_eq_zero,← Bool.not_eq_true,hbits 0,hmark,not_or,Bool.not_eq_true]
  · intro _
    rw [hshift,Nat.zero_add]
    exact row.bit_leadingOnes

/-- Bitmaps report exactly if the edge moves. -/
theorem applyAll_bitmaps (t : PsnTracker) (ops : List TrackerOp) (hb : t.basePsn.Valid)
    (hlen : t.inner.length ≤ rowBound)
    (hops : ∀ op∈ops,op.Valid ∧ ∃ q b,op=TrackerOp.ackBitmap q b) :
    ∃ k,Moved t (t.applyAll ops).1 k (t.inner.ones+128*ops.length) ∧
      ((t.applyAll ops).2.isSome=true ↔ k≠0) ∧
      (k=0 ↔ ∀ op∈ops,t.inner.bit 0=false ∧ ¬op.Names t.basePsn) := by
  induction ops generalizing t with
  | nil =>
      exact ⟨0,⟨Psn.eq_wrap _ hb,hb,hlen,by simp [applyAll]⟩,by simp [applyAll],by simp⟩
  | cons op ops ih =>
      obtain ⟨hop,q,b,rfl⟩ := hops op List.mem_cons_self
      have hq := hop q (List.mem_singleton_self q)
      obtain ⟨k,hk,hsome,hzero,hclear⟩ := ackBitmap_moved t q b hb hq hlen
      obtain ⟨k',hk',hsome',hzero'⟩ := ih (t.ackBitmap q b).1 hk.base hk.length
        (fun op hop => hops op (List.mem_cons_of_mem _ hop))
      have hones := hk.ones
      have hones' := hk'.ones
      refine ⟨k+k',⟨?_,hk'.base,hk'.length,?_⟩,?_,?_⟩
      · change ((t.ackBitmap q b).1.applyAll ops).1.basePsn=_
        rw [hk'.edge,hk.edge,Psn.wrap_eq_iff,Psn.wrap_toNat]
        omega
      · change k+k'+((t.ackBitmap q b).1.applyAll ops).1.inner.ones≤_
        rw [List.length_cons]
        omega
      · change (((t.ackBitmap q b).1.applyAll ops).2.or (t.ackBitmap q b).2).isSome=true ↔ _
        rw [Option.isSome_or,Bool.or_eq_true,hsome,hsome']
        omega
      · rw [List.forall_mem_cons,← hzero,Nat.add_eq_zero_iff]
        constructor
        · rintro ⟨h0,h0'⟩
          refine ⟨h0,fun op hop => ⟨(hzero.mp h0).1,?_⟩⟩
          have hrest := (hzero'.mp h0' op hop).2
          rwa [hk.edge,h0,Nat.add_zero,← Psn.eq_wrap _ hb] at hrest
        · rintro ⟨h0,hrest⟩
          refine ⟨h0,hzero'.mpr (fun op hop => ⟨hclear h0,?_⟩)⟩
          rw [hk.edge,h0,Nat.add_zero,← Psn.eq_wrap _ hb]
          exact (hrest op hop).2

/-- A single call reports an edge that has not moved exactly if it acknowledges up to the edge. -/
theorem apply_stalls (t : PsnTracker) (op : TrackerOp) (hb : t.basePsn.Valid) (hop : op.Valid)
    (hlen : t.inner.length ≤ rowBound) :
    ((t.apply op).2.isSome=true ∧ (t.apply op).1.basePsn=t.basePsn ↔ t.AtEdge op) ∧
    (t.AtEdge op → (t.apply op).1.inner.bit 0=t.inner.bit 0) := by
  have hbound : rowBound<2^24 := by decide
  have heffect := apply_effect t op hb hop
  generalize t.apply op=r at heffect ⊢
  rcases heffect with ⟨p,inner,hupto,hahead,hbits,-⟩|⟨row,hupto,-,hrow⟩|⟨row,hbehind,-,-,-⟩
  · refine ⟨⟨fun h => hupto.trans (congrArg some h.2),?_⟩,?_⟩
    · intro h
      exact ⟨rfl,Option.some.inj (hupto.symm.trans h)⟩
    · intro h
      obtain rfl := Option.some.inj (hupto.symm.trans h)
      have hzero := (rstart_eq_zero t t.basePsn hb hb).mpr rfl
      rw [hbits,hzero]
      rfl
  · have hno : ¬t.AtEdge op := by rw [AtEdge,hupto]; exact Option.some_ne_none _ |>.symm
    have hshort : row.length ≤ rowBound := hrow.trans (max_le hlen le_rfl)
    obtain ⟨hedge,-,-,hsome,-⟩ := tryAdvance_eq {t with inner := row} hb hshort
    have hle := row.leadingOnes_le_length
    refine ⟨iff_of_false ?_ hno,fun h => absurd h hno⟩
    rintro ⟨hs,hsame⟩
    have hmod := congrArg Psn.toNat (hedge.symm.trans hsame)
    rw [Psn.wrap_toNat] at hmod
    have hpos := hsome.mp hs
    dsimp only at hmod hpos
    simp only [Psn.Valid] at hb
    omega
  · have hno : ¬t.AtEdge op := by
      intro h
      have hneg := hbehind _ h
      rw [(rstart_eq_zero t t.basePsn hb hb).mpr rfl] at hneg
      omega
    refine ⟨iff_of_false (fun h => ?_) hno,fun h => absurd h hno⟩
    cases h.1

/-- The same of a call followed by bitmaps. -/
theorem applyAll_follows (t : PsnTracker) (op : TrackerOp) (ops : List TrackerOp)
    (hb : t.basePsn.Valid) (hlen : t.inner.length ≤ rowBound) (hop : op.Valid)
    (hops : ∀ op∈ops,op.Valid ∧ ∃ q b,op=TrackerOp.ackBitmap q b) (hfew : ops.length≤2) :
    Follows t (t.applyAll (op::ops)) ↔ ¬t.Stalls (op::ops) := by
  have hbound : rowBound+256<2^24 := by decide
  have hreports := applyAll_reports t (op::ops) (by
    intro o ho
    rcases List.mem_cons.mp ho with rfl|ho
    · exact hop
    · exact (hops o ho).1)
  obtain ⟨k,hk⟩ := apply_moved t op hb hop hlen
  obtain ⟨k',hk',hsome,hzero⟩ := applyAll_bitmaps (t.apply op).1 ops hk.base hk.length hops
  obtain ⟨hstall,hbit⟩ := apply_stalls t op hb hop hlen
  have hones := hk.ones
  have hones' := hk'.ones
  have hfirst : (t.apply op).1.basePsn=t.basePsn ↔ k=0 := by
    rw [hk.edge]
    nth_rewrite 2 [Psn.eq_wrap _ hb]
    rw [Psn.wrap_eq_iff]
    omega
  have hboth : (t.applyAll (op::ops)).1.basePsn=t.basePsn ↔ k=0 ∧ k'=0 := by
    change ((t.apply op).1.applyAll ops).1.basePsn=_ ↔ _
    rw [hk'.edge,hk.edge]
    nth_rewrite 2 [Psn.eq_wrap _ hb]
    rw [Psn.wrap_toNat,Psn.wrap_eq_iff]
    omega
  have hany : (t.applyAll (op::ops)).2.isSome=true ↔ k'≠0 ∨ (t.apply op).2.isSome=true := by
    change (((t.apply op).1.applyAll ops).2.or (t.apply op).2).isSome=true ↔ _
    rw [Option.isSome_or,Bool.or_eq_true,hsome]
  rw [follows_iff t _ hreports,hany,hboth,not_iff_not]
  constructor
  · rintro ⟨hrep,hk0,hk0'⟩
    have hat := hstall.mp ⟨hrep.resolve_left (absurd hk0'),hfirst.mpr hk0⟩
    refine ⟨⟨op,List.mem_cons_self,hat⟩,?_⟩
    intro q b hmem
    rcases List.mem_cons.mp hmem with heq|hmem
    · rw [← heq] at hat
      cases hat
    · have hquiet := hzero.mp hk0' _ hmem
      rw [hbit hat,hfirst.mpr hk0] at hquiet
      exact hquiet
  · rintro ⟨⟨o,ho,hat⟩,hquiet⟩
    have hat : t.AtEdge op := by
      rcases List.mem_cons.mp ho with rfl|ho
      · exact hat
      · obtain ⟨-,q,b,rfl⟩ := hops o ho
        cases hat
    obtain ⟨hrep,hsame⟩ := hstall.mpr hat
    refine ⟨Or.inr hrep,hfirst.mp hsame,hzero.mpr ?_⟩
    intro o ho
    obtain ⟨-,q,b,rfl⟩ := hops o ho
    rw [hbit hat,hsame]
    exact hquiet q b (List.mem_cons_of_mem _ ho)

/-- The tracker is what some calls make of a fresh one. -/
def Reachable (t : PsnTracker) : Prop :=
  ∃ ops : List TrackerOp,(∀ op∈ops,op.Valid) ∧ (applyAll {} ops).1=t

theorem Reachable.sound (t : PsnTracker) (h : t.Reachable) : Sound t := by
  obtain ⟨ops,hops,rfl⟩ := h
  exact applyAll_sound {} ops hops init_sound

end PsnTracker

namespace LocalAckTracker

def Reachable (t : LocalAckTracker) : Prop :=
  ∃ ops : List LocalAckOp,(∀ op∈ops,op.Valid) ∧ Run.run (fun t op => (apply t op).1) {} ops=t

theorem Reachable.sound (t : LocalAckTracker) (h : t.Reachable) : Sound t := by
  obtain ⟨ops,hops,rfl⟩ := h
  exact Run.run_inv_of_forall _ Sound LocalAckOp.Valid (fun t op hop h => apply_sound t op hop h) {}
    ops hops ⟨PsnTracker.init_sound,by decide⟩

theorem apply_follows (t : LocalAckTracker) (op : LocalAckOp) (h : Sound t) (hop : op.Valid) :
    t.psnTracker.Follows ((t.apply op).1.psnTracker,(t.apply op).2) ↔
      ¬t.psnTracker.Stalls (t.calls op) := by
  have hvalid := calls_valid t op hop h.psnPre
  rw [t.apply_eq op]
  cases op with
  | ackOne p =>
      exact PsnTracker.applyAll_follows _ _ [] h.tracker.base h.tracker.length
        (hvalid _ List.mem_cons_self) (by simp) (Nat.zero_le 2)
  | ackBitmap p b =>
      refine PsnTracker.applyAll_follows _ _ [.ackBitmap p b] h.tracker.base h.tracker.length
        (hvalid _ List.mem_cons_self) ?_ (Nat.le_succ 1)
      intro o ho
      exact ⟨hvalid o (List.mem_cons_of_mem _ ho),p,b,List.mem_singleton.mp ho⟩
  | nakBitmap p b q c =>
      refine PsnTracker.applyAll_follows _ _ [.ackBitmap p b,.ackBitmap q c] h.tracker.base
        h.tracker.length (hvalid _ List.mem_cons_self) ?_ le_rfl
      intro o ho
      refine ⟨hvalid o (List.mem_cons_of_mem _ ho),?_⟩
      rcases List.mem_cons.mp ho with rfl|ho
      · exact ⟨p,b,rfl⟩
      · exact ⟨q,c,List.mem_singleton.mp ho⟩

end LocalAckTracker

namespace RemoteAckTracker

def Reachable (t : RemoteAckTracker) : Prop :=
  ∃ ops : List RemoteAckOp,(∀ op∈ops,op.Valid) ∧ Run.run (fun t op => (apply t op).1) {} ops=t

theorem Reachable.sound (t : RemoteAckTracker) (h : t.Reachable) : Sound t := by
  obtain ⟨ops,hops,rfl⟩ := h
  exact Run.run_inv_of_forall _ Sound RemoteAckOp.Valid (fun t op hop h => apply_sound t op hop h) {}
    ops hops ⟨PsnTracker.init_sound,by decide⟩

theorem apply_follows (t : RemoteAckTracker) (op : RemoteAckOp) (h : Sound t) (hop : op.Valid) :
    t.psnTracker.Follows ((t.apply op).1.psnTracker,(t.apply op).2) ↔
      ¬t.psnTracker.Stalls (t.calls op) := by
  have hvalid := calls_valid t op hop h.psnPre
  rw [t.apply_eq op]
  cases op with
  | ackBefore p =>
      exact PsnTracker.applyAll_follows _ _ [] h.tracker.base h.tracker.length
        (hvalid _ List.mem_cons_self) (by simp) (Nat.zero_le 2)
  | nakBitmap m p b q c =>
      rw [calls] at hvalid ⊢
      split_ifs at hvalid ⊢
      · refine PsnTracker.applyAll_follows _ _ [.ackBitmap p b,.ackBitmap q c] h.tracker.base
          h.tracker.length (hvalid _ List.mem_cons_self) ?_ le_rfl
        intro o ho
        refine ⟨hvalid o (List.mem_cons_of_mem _ ho),?_⟩
        rcases List.mem_cons.mp ho with rfl|ho
        · exact ⟨p,b,rfl⟩
        · exact ⟨q,c,List.mem_singleton.mp ho⟩
      · refine PsnTracker.applyAll_follows _ _ [.ackBitmap q c] h.tracker.base
          h.tracker.length (hvalid _ List.mem_cons_self) ?_ (Nat.le_succ 1)
        intro o ho
        exact ⟨hvalid o (List.mem_cons_of_mem _ ho),q,c,List.mem_singleton.mp ho⟩

end RemoteAckTracker

/-- In every state that calls have led to, an operation of a tracker returns what its
documentation says exactly unless it acknowledges up to the present left edge without finding
the PSN at the edge acknowledged. -/
theorem return_values_iff (t : PsnTracker) (l : LocalAckTracker) (r : RemoteAckTracker)
    (op : TrackerOp) (lop : LocalAckOp) (rop : RemoteAckOp) (ht : t.Reachable) (hl : l.Reachable)
    (hr : r.Reachable) (hop : op.Valid) (hlop : lop.Valid) (hrop : rop.Valid) :
    (t.Follows (t.apply op) ↔ ¬t.Stalls [op]) ∧
    (l.psnTracker.Follows ((l.apply lop).1.psnTracker,(l.apply lop).2) ↔
      ¬l.psnTracker.Stalls (l.calls lop)) ∧
    (r.psnTracker.Follows ((r.apply rop).1.psnTracker,(r.apply rop).2) ↔
      ¬r.psnTracker.Stalls (r.calls rop)) := by
  refine ⟨?_,l.apply_follows lop (hl.sound l) hlop,r.apply_follows rop (hr.sound r) hrop⟩
  have hone := PsnTracker.applyAll_follows t op [] (ht.sound t).base (ht.sound t).length hop
    (by simp) (Nat.zero_le 2)
  rwa [show t.applyAll [op]=t.apply op by
    simp only [PsnTracker.applyAll,Option.none_or]] at hone

/-- PSN 1 has been acknowledged before PSN 0. -/
theorem return_values_iff_zero :
    PsnTracker.apply ⟨⟨0⟩,[false,true]⟩ (.ackOne ⟨0⟩)=(⟨⟨2⟩,[false,false]⟩,some ⟨2⟩) ∧
    (PsnTracker.Follows ⟨⟨0⟩,[false,true]⟩ (PsnTracker.apply ⟨⟨0⟩,[false,true]⟩ (.ackOne ⟨0⟩)) ↔
      ¬PsnTracker.Stalls ⟨⟨0⟩,[false,true]⟩ [.ackOne ⟨0⟩]) :=
  ⟨by decide +kernel,(return_values_iff ⟨⟨0⟩,[false,true]⟩ {} {} (.ackOne ⟨0⟩) (.ackBitmap ⟨0⟩ 1)
    (.ackBefore ⟨1⟩) ⟨[.ackOne ⟨1⟩],by decide,by decide +kernel⟩ ⟨[],by simp,rfl⟩ ⟨[],by simp,rfl⟩
    (by decide) (show Psn.Valid ⟨0⟩ by decide) (show Psn.Valid ⟨1⟩ by decide)).1⟩

/-- An acknowledgement up to the left edge of a fresh tracker is reported as an advance. -/
theorem edge_reported_again :
    ¬PsnTracker.Follows {} (PsnTracker.apply {} (.ackBefore ⟨0⟩)) ∧
    ¬PsnTracker.Follows {} ((LocalAckTracker.apply {} (.ackBitmap ⟨0⟩ 0)).1.psnTracker,
      (LocalAckTracker.apply {} (.ackBitmap ⟨0⟩ 0)).2) ∧
    ¬PsnTracker.Follows {} ((RemoteAckTracker.apply {} (.nakBitmap 1 ⟨0⟩ 0 ⟨0⟩ 0)).1.psnTracker,
      (RemoteAckTracker.apply {} (.nakBitmap 1 ⟨0⟩ 0 ⟨0⟩ 0)).2) := by
  refine ⟨fun h => ?_,fun h => ?_,fun h => ?_⟩
  · exact h.1.mp (by decide +kernel) (by decide +kernel)
  · exact h.1.mp (by decide +kernel) (by decide +kernel)
  · exact h.1.mp (by decide +kernel) (by decide +kernel)

end BlueRdma

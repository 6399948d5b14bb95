import BlueRdma.Framework.Run
import BlueRdma.RdmaUtils.TrackerOp
import BlueRdma.Workers.MetaReport.Worker

namespace BlueRdma
namespace PsnTracker

/-- The PSN at the left edge is not recorded as acknowledged. -/
def Gap (t : PsnTracker) : Prop := t.inner.bit 0=false

/-- The first PSN that is not recorded as acknowledged. -/
def frontier (t : PsnTracker) : Psn := Psn.wrap (t.basePsn.toNat+t.inner.leadingOnes)

def next (t : PsnTracker) (op : TrackerOp) : PsnTracker := (t.apply op).1

/-- After the call the left edge is the first PSN not recorded, and if more PSNs before the
first gap are recorded than before, the call reports where the edge is. -/
def Keeps (t : PsnTracker) (op : TrackerOp) : Prop :=
  (t.next op).Gap ∧
  ((t.next op).frontier≠t.frontier → (t.apply op).2=some (t.next op).frontier)

/-- The PSN at which a cumulative acknowledgement ends is not itself recorded as acknowledged. -/
def Unrecorded (t : PsnTracker) (op : TrackerOp) : Prop :=
  (t.upto op).all (fun p => decide (t.rstart p<0) || !t.inner.bit (t.rstart p).toNat)=true

instance (t : PsnTracker) (op : TrackerOp) : Decidable (Unrecorded t op) :=
  inferInstanceAs (Decidable (_=_))

theorem frontier_eq (t : PsnTracker) (hb : t.basePsn.Valid) (h : t.Gap) : t.frontier=t.basePsn := by
  rw [frontier,t.inner.leadingOnes_eq_zero.mpr h,Nat.add_zero,← Psn.eq_wrap _ hb]

/-- Between trackers with a gap at the edge, what extends the acknowledged PSNs is reported. -/
theorem Reports.frontier (t : PsnTracker) (r : PsnTracker × Option Psn) (h : Reports t r)
    (hb : t.basePsn.Valid) (hgap : t.Gap) (hgap' : r.1.Gap) (hne : r.1.frontier≠t.frontier) :
    r.2=some r.1.frontier := by
  have hedge := h.edge
  rw [frontier_eq t hb hgap,frontier_eq r.1 (h.valid hb) hgap'] at hne
  rw [frontier_eq r.1 (h.valid hb) hgap']
  rcases hr : r.2 with _|p
  · rw [hr] at hedge
    exact absurd hedge hne
  · rw [hr] at hedge
    exact congrArg some hedge.symm

/-- Only a cumulative acknowledgement can leave the left edge at a recorded PSN. -/
theorem gap_iff (t : PsnTracker) (op : TrackerOp) (hop : op.Valid) (hs : t.Sound) (h : t.Gap) :
    (t.next op).Gap ↔ Unrecorded t op := by
  have heffect := apply_effect t op hs.base hop
  rw [Unrecorded,Gap,next]
  generalize t.apply op=r at heffect ⊢
  rcases heffect with ⟨p,inner,hupto,hahead,hbits,-⟩|⟨row,hupto,-,hrow⟩|⟨row,hbehind,hbits,hedge,-⟩
  · rw [hupto,hbits,Nat.zero_add,Option.all_some,decide_eq_false (by omega),Bool.false_or,
      Bool.not_eq_true']
  · have hshort : row.length ≤ rowBound := hrow.trans (max_le hs.length le_rfl)
    obtain ⟨-,hshift,-⟩ := tryAdvance_eq {t with inner := row} hs.base hshort
    rw [hupto,hshift,Nat.zero_add]
    exact iff_of_true row.bit_leadingOnes rfl
  · refine iff_of_true ?_ ?_
    · rw [← Bool.not_eq_true,hbits 0,not_or]
      exact ⟨by rw [Bool.not_eq_true]; exact h,hedge⟩
    · rcases hu : t.upto op with _|p
      · rfl
      · rw [Option.all_some,decide_eq_true (hbehind p hu),Bool.true_or]

theorem keeps_iff (t : PsnTracker) (op : TrackerOp) (hop : op.Valid) (hs : t.Sound) (h : t.Gap) :
    Keeps t op ↔ Unrecorded t op := by
  rw [← gap_iff t op hop hs h]
  exact ⟨And.left,fun hgap => ⟨hgap,(apply_reports t op hop).frontier t _ hs.base h hgap⟩⟩

theorem along_keeps_iff (t : PsnTracker) (ops : List TrackerOp) (hops : ∀ op∈ops,op.Valid)
    (hs : t.Sound) (h : t.Gap) :
    Run.Along next Keeps t ops ↔ Run.Along next Unrecorded t ops := by
  induction ops generalizing t with
  | nil => exact Iff.rfl
  | cons op ops ih =>
      have hop := hops op List.mem_cons_self
      have hiff := keeps_iff t op hop hs h
      have hrest := fun hgap => ih (t.next op) (fun o ho => hops o (List.mem_cons_of_mem _ ho))
        (apply_sound t op hop hs) hgap
      constructor
      · rintro ⟨hfirst,hlater⟩
        exact ⟨hiff.mp hfirst,(hrest hfirst.1).mp hlater⟩
      · rintro ⟨hfirst,hlater⟩
        exact ⟨hiff.mpr hfirst,(hrest (hiff.mpr hfirst).1).mpr hlater⟩

/-- Several calls in a row, each of which ends at a PSN not recorded. -/
theorem applyAll_keeps (t : PsnTracker) (ops : List TrackerOp) (hops : ∀ op∈ops,op.Valid)
    (hs : t.Sound) (h : t.Gap) (hun : Run.Along next Unrecorded t ops) :
    (t.applyAll ops).1.Gap ∧ ((t.applyAll ops).1.frontier≠t.frontier →
      (t.applyAll ops).2=some (t.applyAll ops).1.frontier) := by
  have hgap : (t.applyAll ops).1.Gap := by
    induction ops generalizing t with
    | nil => exact h
    | cons op ops ih =>
        have hop := hops op List.mem_cons_self
        exact ih (t.next op) (fun o ho => hops o (List.mem_cons_of_mem _ ho))
          (apply_sound t op hop hs) ((gap_iff t op hop hs h).mpr hun.1) hun.2
  exact ⟨hgap,(applyAll_reports t ops hops).frontier t _ hs.base h hgap⟩

end PsnTracker

namespace MetaHandler

/-- The operation of the send-side tracker a report leads to. -/
def sendOp : ReportMeta → Option RemoteAckOp
  | .ackRemoteDriver x => some (.ackBefore x.psnNow)
  | .nakRemoteHw x => some (.nakBitmap x.msn x.psnPre x.preBitmap x.psnNow x.nowBitmap)
  | .nakRemoteDriver x => some (.ackBefore x.psnPre)
  | _ => none

def sendCalls (h : MetaHandler) (m : ReportMeta) : List TrackerOp :=
  ((sendOp m).map h.sendTable.calls).getD []

def next (h : MetaHandler) (m : ReportMeta) : MetaHandler := (h.handleMeta m).next.getD h

/-- No completion is withheld: the left edge of the send side is the first PSN not recorded, and
the completion worker is told of every step it takes. -/
def Keeps (h : MetaHandler) (m : ReportMeta) : Prop :=
  (h.next m).sendTable.psnTracker.Gap ∧
  ((h.next m).sendTable.psnTracker.frontier≠h.sendTable.psnTracker.frontier →
    Msg.completion (.ackSend (h.next m).sendTable.psnTracker.frontier)∈(h.handleMeta m).msgs)

def Unrecorded (h : MetaHandler) (m : ReportMeta) : Prop :=
  Run.Along PsnTracker.next PsnTracker.Unrecorded h.sendTable.psnTracker (h.sendCalls m)

instance (h : MetaHandler) (m : ReportMeta) : Decidable (Unrecorded h m) :=
  inferInstanceAs (Decidable (Run.Along ..))

/-- A report changes the send-side tracker by its operation, and what that reports is passed to
the completion worker. -/
theorem next_sendTable (h : MetaHandler) (m : ReportMeta) :
    (sendOp m=none ∧ (h.next m).sendTable=h.sendTable) ∨
    ∃ op,sendOp m=some op ∧ (h.next m).sendTable=(h.sendTable.apply op).1 ∧
      ∀ p∈(h.sendTable.apply op).2,Msg.completion (.ackSend p)∈(h.handleMeta m).msgs := by
  have hmem : ∀ (x : Option Psn) (p : Psn),p∈x →
      Msg.completion (.ackSend p)∈onAdvance senderUpdates x := by
    intro x p hp
    rw [Option.mem_def.mp hp]
    exact List.mem_cons_self
  cases m with
  | headerWrite x => exact Or.inl ⟨rfl,rfl⟩
  | headerRead x =>
      refine Or.inl ⟨rfl,?_⟩
      simp only [next,handleMeta,handleHeaderRead]
      split_ifs <;> rfl
  | ackLocalHw x => exact Or.inl ⟨rfl,rfl⟩
  | nakLocalHw x => exact Or.inl ⟨rfl,rfl⟩
  | cnp => exact Or.inl ⟨rfl,rfl⟩
  | ackRemoteDriver x =>
      exact Or.inr ⟨_,rfl,rfl,fun p hp => List.mem_cons_of_mem _ (hmem _ p hp)⟩
  | nakRemoteHw x =>
      exact Or.inr ⟨_,rfl,rfl,fun p hp =>
        List.mem_cons_of_mem _ (List.mem_append_left _ (hmem _ p hp))⟩
  | nakRemoteDriver x =>
      exact Or.inr ⟨_,rfl,rfl,fun p hp =>
        List.mem_cons_of_mem _ (List.mem_append_left _ (hmem _ p hp))⟩

theorem sendOp_valid (m : ReportMeta) (op : RemoteAckOp) (hm : m.Valid) (h : sendOp m=some op) :
    op.Valid := by
  cases m with
  | ackRemoteDriver x =>
      obtain rfl := Option.some.inj h
      exact hm
  | nakRemoteHw x =>
      obtain rfl := Option.some.inj h
      exact ⟨hm.2,hm.1⟩
  | nakRemoteDriver x =>
      obtain rfl := Option.some.inj h
      exact hm.2
  | _ => cases h

theorem keeps_of_unrecorded (h : MetaHandler) (m : ReportMeta) (hm : m.Valid)
    (hs : h.sendTable.Sound) (hgap : h.sendTable.psnTracker.Gap) (hun : Unrecorded h m) :
    Keeps h m ∧ (h.next m).sendTable.Sound := by
  rcases h.next_sendTable m with ⟨-,hsame⟩|⟨op,hop,hnext,hmsgs⟩
  · rw [Keeps,hsame]
    exact ⟨⟨hgap,fun hne => absurd rfl hne⟩,hs⟩
  · have hvalid := sendOp_valid m op hm hop
    have hcalls := h.sendTable.calls_valid op hvalid hs.psnPre
    rw [Unrecorded,sendCalls,hop] at hun
    obtain ⟨hgap',hreport⟩ := PsnTracker.applyAll_keeps _ _ hcalls hs.tracker hgap hun
    rw [← h.sendTable.apply_eq op] at hgap' hreport
    rw [Keeps,hnext]
    exact ⟨⟨hgap',fun hne => hmsgs _ (hreport hne)⟩,h.sendTable.apply_sound op hvalid hs⟩

theorem along_keeps (h : MetaHandler) (ms : List ReportMeta) (hms : ∀ m∈ms,m.Valid)
    (hs : h.sendTable.Sound) (hgap : h.sendTable.psnTracker.Gap)
    (hun : Run.Along next Unrecorded h ms) : Run.Along next Keeps h ms := by
  induction ms generalizing h with
  | nil => trivial
  | cons m ms ih =>
      obtain ⟨hkeeps,hsound⟩ := keeps_of_unrecorded h m (hms m List.mem_cons_self) hs hgap hun.1
      exact ⟨hkeeps,ih (h.next m) (fun x hx => hms x (List.mem_cons_of_mem _ hx)) hsound hkeeps.1
        hun.2⟩

end MetaHandler

/-- Along any sequence of calls of a fresh tracker, the left edge is the first PSN not recorded
as acknowledged and every call that extends the acknowledged PSNs before it reports the new edge,
exactly if no cumulative acknowledgement ends at a PSN recorded already. Along reports that keep
to this no completion is withheld. -/
theorem base_first_unacked_iff (ops : List TrackerOp) (ms : List ReportMeta)
    (hops : ∀ op∈ops,op.Valid) (hms : ∀ m∈ms,m.Valid) :
    (Run.Along PsnTracker.next PsnTracker.Keeps {} ops ↔
      Run.Along PsnTracker.next PsnTracker.Unrecorded {} ops) ∧
    (Run.Along MetaHandler.next MetaHandler.Unrecorded {} ms →
      Run.Along MetaHandler.next MetaHandler.Keeps {} ms) :=
  ⟨PsnTracker.along_keeps_iff {} ops hops PsnTracker.init_sound rfl,
    MetaHandler.along_keeps {} ms hms ⟨PsnTracker.init_sound,by decide⟩ rfl⟩

/-- A bitmap with a hole, and a cumulative acknowledgement that ends at the hole. -/
theorem base_first_unacked_iff_hole :
    (Run.Along PsnTracker.next PsnTracker.Keeps {} [.ackBitmap ⟨0⟩ 0b1010#128,.ackBefore ⟨2⟩,.ackOne ⟨2⟩] ↔
      Run.Along PsnTracker.next PsnTracker.Unrecorded {}
        [.ackBitmap ⟨0⟩ 0b1010#128,.ackBefore ⟨2⟩,.ackOne ⟨2⟩]) ∧
    Run.Along MetaHandler.next MetaHandler.Keeps {}
      [.nakRemoteHw ⟨0,⟨0⟩,0b1010#128,⟨0⟩,0⟩,.ackRemoteDriver ⟨⟨2⟩⟩] :=
  have h := base_first_unacked_iff [.ackBitmap ⟨0⟩ 0b1010#128,.ackBefore ⟨2⟩,.ackOne ⟨2⟩]
    [.nakRemoteHw ⟨0,⟨0⟩,0b1010#128,⟨0⟩,0⟩,.ackRemoteDriver ⟨⟨2⟩⟩] (by decide) (by decide)
  ⟨h.1,h.2 (by decide +kernel)⟩

/-- PSN 1 is acknowledged out of order, then everything before it. The left edge stops at PSN 1,
which is recorded, and the completion worker is told that PSN 1 is missing. -/
theorem cumulative_ack_stops_short :
    (Run.run PsnTracker.next {} [.ackOne ⟨1⟩,.ackBefore ⟨1⟩])=⟨⟨1⟩,[true,false]⟩ ∧
    ¬Run.Along PsnTracker.next PsnTracker.Keeps {} [.ackOne ⟨1⟩,.ackBefore ⟨1⟩] ∧
    ((Run.run MetaHandler.next {} [.nakRemoteHw ⟨0,⟨0⟩,0b10#128,⟨0⟩,0⟩]).handleMeta
      (.ackRemoteDriver ⟨⟨1⟩⟩)).msgs.take 2=[.timeout .recvMeta,.completion (.ackSend ⟨1⟩)] ∧
    (Run.run MetaHandler.next {} [.nakRemoteHw ⟨0,⟨0⟩,0b10#128,⟨0⟩,0⟩,
      .ackRemoteDriver ⟨⟨1⟩⟩]).sendTable.psnTracker.frontier=⟨2⟩ := by
  refine ⟨by decide +kernel,?_,by decide +kernel,by decide +kernel⟩
  rintro ⟨-,⟨hgap,-⟩,-⟩
  revert hgap
  rw [PsnTracker.Gap]
  decide +kernel

end BlueRdma

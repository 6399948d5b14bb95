import BlueRdma.Math.Lists
import BlueRdma.Protocol.AckGap
import BlueRdma.RdmaUtils.Qp
import BlueRdma.Workers.Completion

namespace BlueRdma
open MessageTracker

namespace PsnTracker

/-- The call names no PSN from `psn` on. -/
def Within (psn : Psn) (t : PsnTracker) : TrackerOp → Prop
  | .ackOne p => t.rstart p<(psn-t.basePsn).toNat
  | .ackBitmap p b => ∀ j<128,b.getLsbD j=true → t.rstart p+j<(psn-t.basePsn).toNat
  | .ackRange _ p | .ackBefore p => t.rstart p≤(psn-t.basePsn).toNat

instance (psn : Psn) (t : PsnTracker) (op : TrackerOp) : Decidable (Within psn t op) :=
  match op with
  | .ackOne p => inferInstanceAs (Decidable (t.rstart p<(psn-t.basePsn).toNat))
  | .ackBitmap p b => inferInstanceAs
      (Decidable (∀ j<128,b.getLsbD j=true → t.rstart p+j<(psn-t.basePsn).toNat))
  | .ackRange _ p | .ackBefore p => inferInstanceAs
      (Decidable (t.rstart p≤(psn-t.basePsn).toNat))

theorem Within.marks (psn : Psn) (t : PsnTracker) (op : TrackerOp) (h : Within psn t op) (i : Nat)
    (hi : t.Marks op i) : i<(psn-t.basePsn).toNat := by
  cases op with
  | ackOne p =>
      change (i : Int)=t.rstart p at hi
      change t.rstart p<_ at h
      omega
  | ackBitmap p b =>
      obtain ⟨hlo,hhi,hbit⟩ := hi
      have := h ((i : Int)-t.rstart p).toNat (by omega) hbit
      omega
  | ackRange lo p =>
      obtain ⟨-,-,-,hend⟩ := hi
      change t.rstart p≤_ at h
      omega
  | ackBefore p => exact hi.elim

theorem Within.upto (psn : Psn) (t : PsnTracker) (op : TrackerOp) (h : Within psn t op) (p : Psn)
    (hp : t.upto op=some p) : t.rstart p≤(psn-t.basePsn).toNat := by
  cases op with
  | ackOne q => cases hp
  | ackBitmap q b => cases hp
  | ackBefore q =>
      obtain rfl := Option.some.inj hp
      exact h
  | ackRange lo q =>
      rw [PsnTracker.upto] at hp
      split_ifs at hp
      obtain rfl := Option.some.inj hp
      exact h

/-- The left edge stands at position `b` of `n` PSNs handed out, and no PSN beyond is recorded. -/
structure Edge (t : PsnTracker) (b n : Nat) : Prop where
  sound : t.Sound
  gap : t.Gap
  base : t.basePsn=Psn.wrap b
  handed : b≤n
  marks : ∀ i,t.inner.bit i=true → b+i<n

/-- A call that names only PSNs handed out moves the edge no further than these reach. -/
theorem Edge.apply (t : PsnTracker) (b n : Nat) (h : t.Edge b n) (hnear : n≤b+2^23)
    (op : TrackerOp) (hop : op.Valid) (hw : t.Within (Psn.wrap n) op) (hun : t.Unrecorded op) :
    ∃ b',b≤b' ∧ (t.next op).Edge b' n := by
  have hout : (Psn.wrap n-t.basePsn).toNat=n-b := by
    rw [h.base,Psn.wrap_sub_wrap n b h.handed (by omega)]
  have hhanded := h.handed
  have hmarks : ∀ (row : BitRow) (i : Nat),
      (∀ i,row.bit i=true ↔ t.inner.bit i=true ∨ t.Marks op i) → row.bit i=true → b+i<n := by
    intro row i hbits hi
    rcases (hbits i).mp hi with hi|hi
    · exact h.marks i hi
    · have := hw.marks (Psn.wrap n) t op i hi
      omega
  have hmoved : ∀ k,Psn.wrap (t.basePsn.toNat+k)=Psn.wrap (b+k) := by
    intro k
    rw [h.base,Psn.wrap_toNat,Psn.wrap_eq_iff]
    omega
  have hgap := (gap_iff t op hop h.sound h.gap).mpr hun
  have hsound := apply_sound t op hop h.sound
  have heffect := apply_effect t op h.sound.base hop
  rw [PsnTracker.next] at hgap ⊢
  generalize t.apply op=r at heffect hgap hsound ⊢
  rcases heffect with ⟨p,inner,hupto,hahead,hbits,-⟩|⟨row,-,hbits,hrow⟩|⟨row,-,hbits,-,-⟩
  · have hle := hw.upto (Psn.wrap n) t op p hupto
    have hwrap := wrap_rstart t p h.sound.base (hop p (upto_mem t op p hupto)) hahead
    refine ⟨b+(t.rstart p).toNat,by omega,hsound,hgap,?_,by omega,?_⟩
    · rw [← hmoved,hwrap]
    · intro i hi
      have := h.marks _ (by rw [← hbits]; exact hi)
      omega
  · obtain ⟨hedge,hshift,-⟩ := tryAdvance_eq {t with inner := row} h.sound.base
      (hrow.trans (max_le h.sound.length le_rfl))
    have hlead : b+row.leadingOnes≤n := by
      by_contra hlt
      have := hmarks row (n-b) hbits (row.bit_of_lt_leadingOnes _ (by omega))
      omega
    refine ⟨b+row.leadingOnes,by omega,hsound,hgap,?_,hlead,?_⟩
    · rw [← hmoved]
      exact hedge
    · intro i hi
      rw [hshift] at hi
      have := hmarks row (i+row.leadingOnes) hbits hi
      omega
  · exact ⟨b,le_rfl,hsound,hgap,h.base,h.handed,fun i hi => hmarks row i hbits hi⟩

theorem Edge.applyAll (ops : List TrackerOp) (t : PsnTracker) (b n : Nat) (h : t.Edge b n)
    (hnear : n≤b+2^23) (hops : ∀ op∈ops,op.Valid)
    (hw : Run.Along next (Within (Psn.wrap n)) t ops) (hun : Run.Along next Unrecorded t ops) :
    ∃ b',b≤b' ∧ (t.applyAll ops).1.Edge b' n := by
  induction ops generalizing t b with
  | nil => exact ⟨b,le_rfl,h⟩
  | cons op ops ih =>
      obtain ⟨b',hb,h'⟩ := h.apply t b n hnear op (hops op List.mem_cons_self) hw.1 hun.1
      obtain ⟨b'',hb',h''⟩ := ih (t.next op) b' h' (by omega)
        (fun o ho => hops o (List.mem_cons_of_mem op ho)) hw.2 hun.2
      exact ⟨b'',hb.trans hb',h''⟩

end PsnTracker

/-- What the completion worker is told about send requests. -/
inductive SendNotice
  | ack (psn : Psn)
  | register (e : SendEvent)

def SendNotice.event : SendNotice → Option SendEvent
  | .ack _ => none
  | .register e => some e

/-- The send side of a QP: the send worker's context and what waits for it, the tracker of
acknowledgements, the events of the completion worker and what waits for it. -/
structure SendSide where
  ctx : SendQueueContext
  acks : List Psn
  dones : List UInt16
  tracker : PsnTracker
  merged : List SendEvent
  waiting : MessageTracker SendEvent
  notices : List SendNotice

namespace SendSide

/-- The events that have not been completed. -/
def events (s : SendSide) : List SendEvent :=
  s.merged++(s.waiting.inner++s.notices.filterMap SendNotice.event)

/-- The request may take its place: its PSNs do not wrap around the circle, it takes a PSN if it
is signalled, and if it takes the last MSN it is a write or send that will complete, with no read
left to complete before it. -/
structure Paced (s : SendSide) (n : UInt32) (signaled : Bool) (op : Option SendEventOp) : Prop where
  fits : (s.ctx.psn-s.ctx.psnAcked).toNat+n.toNat<2^24
  taken : signaled=true → 1≤n.toNat
  last : (s.ctx.msn-s.ctx.msnAcked).toNat+1=maxSendWr →
    (∃ x∈op,x≠.readSignaled) ∧ ∀ x∈s.events,x.op≠.readSignaled

instance (s : SendSide) (n : UInt32) (signaled : Bool) (op : Option SendEventOp) :
    Decidable (s.Paced n signaled op) :=
  decidable_of_iff
    ((s.ctx.psn-s.ctx.psnAcked).toNat+n.toNat<2^24 ∧ (signaled=true → 1≤n.toNat) ∧
      ((s.ctx.msn-s.ctx.msnAcked).toNat+1=maxSendWr →
        (∃ x∈op,x≠.readSignaled) ∧ ∀ x∈s.events,x.op≠.readSignaled))
    ⟨fun h => ⟨h.1,h.2.1,h.2.2⟩,fun h => ⟨h.fits,h.taken,h.last⟩⟩

/-- What the workers do to the send side of a QP. -/
inductive Step : SendSide → SendSide → Prop
  | hear (s : SendSide) (p : Psn) (acks : List Psn) (h : s.acks=p::acks) :
      Step s {s with ctx := s.ctx.updatePsnAcked p,acks := acks}
  | finish (s : SendSide) (m : UInt16) (dones : List UInt16) (h : s.dones=m::dones) :
      Step s {s with ctx := s.ctx.updateMsnAcked m,dones := dones}
  | accept (s : SendSide) (n : UInt32) (signaled : Bool) (e : Option SendEvent)
      (hroom : (s.ctx.nextWr n).2.isSome=true) (hpaced : s.Paced n signaled (e.map SendEvent.op))
      (he : ∀ x∈e,signaled=true ∧ x.msgMeta=⟨s.ctx.msn,s.ctx.psn+n⟩) :
      Step s {s with
        ctx := (s.ctx.nextWr n).1
        notices := s.notices++(e.map SendNotice.register).toList}
  | report (s : SendSide) (ops : List TrackerOp) (hops : ∀ op∈ops,op.Valid)
      (hw : Run.Along PsnTracker.next (PsnTracker.Within s.ctx.psn) s.tracker ops)
      (hun : Run.Along PsnTracker.next PsnTracker.Unrecorded s.tracker ops) :
      Step s {s with
        tracker := (s.tracker.applyAll ops).1
        acks := s.acks++(s.tracker.applyAll ops).2.toList
        notices := s.notices++((s.tracker.applyAll ops).2.map SendNotice.ack).toList}
  | register (s : SendSide) (e : SendEvent) (notices : List SendNotice)
      (h : s.notices=.register e::notices) :
      Step s {s with waiting := s.waiting.append e,notices := notices}
  | ack (s : SendSide) (p : Psn) (notices : List SendNotice) (es rest : List SendEvent)
      (h : s.notices=.ack p::notices) (hsplit : s.merged++s.waiting.inner.takeWhile (due p)=es++rest)
      (hrest : ∀ e∈rest.head?,e.op=.readSignaled) :
      Step s {s with
        merged := rest
        waiting := ⟨s.waiting.inner.dropWhile (due p),p⟩
        dones := s.dones++es.map (fun e => e.msgMeta.msn)
        notices := notices}
  | poll (s : SendSide) (es rest : List SendEvent) (hsplit : s.merged=es++rest)
      (hrest : ∀ e∈rest.head?,e.op=.readSignaled) :
      Step s {s with merged := rest,dones := s.dones++es.map (fun e => e.msgMeta.msn)}

/-- Acknowledgements passed on one after the other, from position `a` to position `b`. -/
def Reaches : Nat → List Psn → Nat → Prop
  | a,[],b => a=b
  | a,p::ps,b => ∃ r,p=Psn.wrap r ∧ a ≤ r ∧ Reaches r ps b

/-- A registered request with its number and the position its PSNs end at. -/
structure Req where
  event : SendEvent
  number : Nat
  stop : Nat

/-- What waits for the completion worker: acknowledgements from position `q` to position `b`, and
requests that end ahead of the acknowledgements before them. -/
def Flow : Nat → List SendNotice → List Req → Nat → Prop
  | q,[],rs,b => rs=[] ∧ q=b
  | q,.ack p::xs,rs,b => ∃ r,p=Psn.wrap r ∧ q ≤ r ∧ r≤q+2^23 ∧ Flow r xs rs b
  | q,.register e::xs,rs,b => ∃ r rs',rs=r::rs' ∧ r.event=e ∧ q < r.stop ∧ r.stop≤q+2^23 ∧
    Flow q xs rs' b

theorem Reaches.le (a b : Nat) (ps : List Psn) (h : Reaches a ps b) : a≤b := by
  induction ps generalizing a with
  | nil => exact Nat.le_of_eq h
  | cons p ps ih =>
      obtain ⟨r,-,hr,hrest⟩ := h
      exact hr.trans (ih r hrest)

theorem Reaches.append (a b c : Nat) (ps qs : List Psn) (h : Reaches a ps b)
    (h' : Reaches b qs c) : Reaches a (ps++qs) c := by
  induction ps generalizing a with
  | nil =>
      obtain rfl : a=b := h
      exact h'
  | cons p ps ih =>
      obtain ⟨r,hp,hr,hrest⟩ := h
      exact ⟨r,hp,hr,ih r hrest⟩

theorem Flow.le (q b : Nat) (xs : List SendNotice) (rs : List Req) (h : Flow q xs rs b) : q≤b := by
  induction xs generalizing q rs with
  | nil => exact Nat.le_of_eq h.2
  | cons x xs ih =>
      cases x with
      | ack p =>
          obtain ⟨r,-,hr,-,hrest⟩ := h
          exact hr.trans (ih r rs hrest)
      | register e =>
          obtain ⟨r,rs',-,-,-,-,hrest⟩ := h
          exact ih q rs' hrest

theorem Flow.append (q b c : Nat) (xs ys : List SendNotice) (rs ss : List Req) (h : Flow q xs rs b)
    (h' : Flow b ys ss c) : Flow q (xs++ys) (rs++ss) c := by
  induction xs generalizing q rs with
  | nil =>
      obtain ⟨rfl,rfl⟩ := h
      exact h'
  | cons x xs ih =>
      cases x with
      | ack p =>
          obtain ⟨r,hp,hr,hnear,hrest⟩ := h
          exact ⟨r,hp,hr,hnear,ih r rs hrest⟩
      | register e =>
          obtain ⟨r,rs',rfl,he,hlo,hhi,hrest⟩ := h
          exact ⟨r,rs'++ss,rfl,he,hlo,hhi,ih q rs' hrest⟩

theorem Flow.events (q b : Nat) (xs : List SendNotice) (rs : List Req) (h : Flow q xs rs b) :
    xs.filterMap SendNotice.event=rs.map Req.event := by
  induction xs generalizing q rs with
  | nil =>
      obtain ⟨rfl,-⟩ := h
      rfl
  | cons x xs ih =>
      cases x with
      | ack p =>
          obtain ⟨r,-,-,-,hrest⟩ := h
          exact ih r rs hrest
      | register e =>
          obtain ⟨r,rs',rfl,rfl,-,-,hrest⟩ := h
          exact congrArg (List.cons r.event) (ih q rs' hrest)

/-- Unbounded counters for a send side: requests given an MSN and the last one heard of as
completed; PSNs handed out and, as known to the send worker, the tracker and the completion
worker, acknowledged; and the signalled requests, the completed ones by their number. -/
structure Ledger where
  sent : Nat
  heard : Nat
  next : Nat
  acked : Nat
  base : Nat
  told : Nat
  dones : List Nat
  merged : List Req
  waiting : List Req
  coming : List Req

namespace Ledger

def reqs (l : Ledger) : List Req := l.merged++(l.waiting++l.coming)

/-- Numbers of the requests whose completion the send worker has not heard of. -/
def numbers (l : Ledger) : List Nat := l.dones++l.reqs.map Req.number

/-- The entry of a new request of `n` PSNs, if it registers an event. -/
def entry (l : Ledger) (n : Nat) (e : Option SendEvent) : List Req :=
  (e.map (fun x => (⟨x,l.sent,l.next+n⟩ : Req))).toList

def accept (l : Ledger) (n : Nat) (e : Option SendEvent) : Ledger :=
  {l with sent := l.sent+1,next := l.next+n,coming := l.coming++l.entry n e}

theorem mem_entry (l : Ledger) (n : Nat) (e : Option SendEvent) (r : Req) :
    r∈l.entry n e ↔ ∃ x∈e,r=⟨x,l.sent,l.next+n⟩ := by
  rw [entry,Option.mem_toList,Option.map_eq_some_iff]
  exact exists_congr fun x => and_congr_right fun _ => eq_comm

theorem entry_pairwise (l : Ledger) (n : Nat) (e : Option SendEvent) (R : Req → Req → Prop) :
    (l.entry n e).Pairwise R := by
  cases e with
  | none => exact List.Pairwise.nil
  | some x => exact List.pairwise_singleton ..

theorem accept_reqs (l : Ledger) (n : Nat) (e : Option SendEvent) :
    (l.accept n e).reqs=l.reqs++l.entry n e := by
  simp only [reqs,accept,List.append_assoc]

theorem accept_numbers (l : Ledger) (n : Nat) (e : Option SendEvent) :
    (l.accept n e).numbers=l.numbers++(l.entry n e).map Req.number := by
  rw [numbers,accept_reqs,List.map_append,← List.append_assoc]
  rfl

end Ledger

structure Counters (l : Ledger) (s : SendSide) : Prop where
  msn : s.ctx.msn=Msn.wrap l.sent
  msnAcked : s.ctx.msnAcked=Msn.wrap l.heard
  order : l.heard ≤ l.sent
  window : l.sent ≤ l.heard+2^15
  psn : s.ctx.psn=Psn.wrap l.next
  psnAcked : s.ctx.psnAcked=Psn.wrap l.acked
  room : l.next ≤ l.acked+2^23
  acks : Reaches l.acked s.acks l.base

structure Queues (l : Ledger) (s : SendSide) : Prop where
  dones : s.dones=l.dones.map Msn.wrap
  merged : s.merged=l.merged.map Req.event
  waiting : s.waiting.inner=l.waiting.map Req.event
  flow : Flow l.told s.notices l.coming l.base
  due : ∀ r∈l.waiting,l.told < r.stop ∧ r.stop ≤ l.told+2^23
  fits : ∀ r∈l.reqs,r.event.msgMeta=⟨Msn.wrap r.number,Psn.wrap r.stop⟩ ∧ r.stop ≤ l.next
  stops : (l.waiting++l.coming).Pairwise (fun r r' => r.stop < r'.stop)
  sorted : l.numbers.Pairwise (·<·)
  span : ∀ k∈l.numbers,l.heard≤k ∧ k < l.sent
  blocked : ∀ r∈l.merged.head?,r.event.op=.readSignaled

/-- When the window of MSNs is full, the last request is on its way to complete. -/
def Full (l : Ledger) : Prop :=
  l.sent=l.heard+2^15 → l.sent-1∈l.numbers ∧ ∀ r∈l.reqs,r.event.op≠.readSignaled

structure Books (l : Ledger) (s : SendSide) : Prop where
  counters : Counters l s
  edge : s.tracker.Edge l.base l.next
  queues : Queues l s
  full : Full l

theorem Books.events (l : Ledger) (s : SendSide) (h : Books l s) :
    s.events=l.reqs.map Req.event := by
  rw [SendSide.events,h.queues.merged,h.queues.waiting,h.queues.flow.events,Ledger.reqs,
    List.map_append,List.map_append]

theorem Books.handed (l : Ledger) (s : SendSide) (h : Books l s) :
    l.acked≤l.base ∧ l.base≤l.next ∧ l.next≤l.acked+2^23 :=
  ⟨h.counters.acks.le,h.edge.handed,h.counters.room⟩

theorem Books.outstanding_psn (l : Ledger) (s : SendSide) (h : Books l s) :
    (s.ctx.psn-s.ctx.psnAcked).toNat=l.next-l.acked := by
  obtain ⟨hacked,hbase,hroom⟩ := h.handed
  rw [h.counters.psn,h.counters.psnAcked,Psn.wrap_sub_wrap _ _ (hacked.trans hbase) (by omega)]

theorem Books.outstanding_msn (l : Ledger) (s : SendSide) (h : Books l s) :
    (s.ctx.msn-s.ctx.msnAcked).toNat=l.sent-l.heard := by
  have hwindow := h.counters.window
  rw [h.counters.msn,h.counters.msnAcked,Msn.wrap_sub_wrap _ _ h.counters.order (by omega)]

theorem Books.hear (l : Ledger) (s : SendSide) (h : Books l s) (p : Psn) (acks : List Psn)
    (hp : s.acks=p::acks) :
    ∃ l',Books l' {s with ctx := s.ctx.updatePsnAcked p,acks := acks} := by
  obtain ⟨hc,hedge,hq,hfull⟩ := h
  have hreach := hc.acks
  rw [hp] at hreach
  obtain ⟨r,rfl,hr,hrest⟩ := hreach
  refine ⟨{l with acked := r},⟨hc.msn,hc.msnAcked,hc.order,hc.window,hc.psn,rfl,?_,hrest⟩,hedge,
    ⟨hq.dones,hq.merged,hq.waiting,hq.flow,hq.due,hq.fits,hq.stops,hq.sorted,hq.span,hq.blocked⟩,
    hfull⟩
  exact hc.room.trans (Nat.add_le_add_right hr _)

theorem Books.finish (l : Ledger) (s : SendSide) (h : Books l s) (m : UInt16)
    (dones : List UInt16) (hm : s.dones=m::dones) :
    ∃ l',Books l' {s with ctx := s.ctx.updateMsnAcked m,dones := dones} := by
  obtain ⟨hc,hedge,hq,hfull⟩ := h
  obtain ⟨k,ks,hks,rfl,rfl⟩ := List.map_eq_cons_iff.mp (hq.dones.symm.trans hm)
  have hnumbers : l.numbers=k::(ks++l.reqs.map Req.number) := by
    rw [Ledger.numbers,hks,List.cons_append]
  have hsorted := hq.sorted
  have hspan := hq.span
  rw [hnumbers] at hsorted hspan
  obtain ⟨hlo,hhi⟩ := hspan k List.mem_cons_self
  have hwindow := hc.window
  refine ⟨{l with heard := k,dones := ks},
    ⟨hc.msn,rfl,hhi.le,by dsimp only; omega,hc.psn,hc.psnAcked,hc.room,hc.acks⟩,hedge,
    ⟨rfl,hq.merged,hq.waiting,hq.flow,hq.due,hq.fits,hq.stops,hsorted.of_cons,?_,hq.blocked⟩,?_⟩
  · intro j hj
    exact ⟨(List.rel_of_pairwise_cons hsorted hj).le,(hspan j (List.mem_cons_of_mem _ hj)).2⟩
  · intro hlast
    dsimp only at hlast ⊢
    -- the window stays full only if the completed request was the first one in it
    obtain ⟨hmem,hreads⟩ := hfull (by omega)
    rw [hnumbers] at hmem
    refine ⟨(List.mem_cons.mp hmem).resolve_left (by omega),hreads⟩

theorem Queues.accept (l : Ledger) (s : SendSide) (h : Queues l s) (ctx : SendQueueContext)
    (n : Nat) (e : Option SendEvent) (horder : l.heard ≤ l.sent) (hbase : l.base≤l.next)
    (hnear : l.next+n≤l.base+2^23)
    (he : ∀ x∈e,1≤n ∧ x.msgMeta=⟨Msn.wrap l.sent,Psn.wrap (l.next+n)⟩) :
    Queues (l.accept n e)
      {s with ctx := ctx,notices := s.notices++(e.map SendNotice.register).toList} := by
  refine ⟨h.dones,h.merged,h.waiting,?_,h.due,?_,?_,?_,?_,h.blocked⟩
  · refine h.flow.append _ _ _ _ _ _ _ ?_
    cases e with
    | none => exact ⟨rfl,rfl⟩
    | some x =>
        have hn := (he x rfl).1
        exact ⟨⟨x,l.sent,l.next+n⟩,[],rfl,rfl,by dsimp only; omega,hnear,rfl,rfl⟩
  · rw [l.accept_reqs]
    intro r hr
    rcases List.mem_append.mp hr with hr|hr
    · obtain ⟨hmeta,hstop⟩ := h.fits r hr
      exact ⟨hmeta,hstop.trans (Nat.le_add_right ..)⟩
    · obtain ⟨x,hx,rfl⟩ := (l.mem_entry n e r).mp hr
      exact ⟨(he x hx).2,le_rfl⟩
  · change (l.waiting++(l.coming++l.entry n e)).Pairwise _
    rw [← List.append_assoc]
    refine List.pairwise_append.mpr ⟨h.stops,l.entry_pairwise n e _,?_⟩
    intro r hr r' hr'
    have hstop := (h.fits r (List.mem_append_right _ hr)).2
    obtain ⟨x,hx,rfl⟩ := (l.mem_entry n e r').mp hr'
    have hn := (he x hx).1
    dsimp only
    omega
  · rw [l.accept_numbers]
    refine List.pairwise_append.mpr ⟨h.sorted,(l.entry_pairwise n e _).map _ fun _ _ hrel => hrel,?_⟩
    intro k hk k' hk'
    obtain ⟨r,hr,rfl⟩ := List.mem_map.mp hk'
    obtain ⟨x,hx,rfl⟩ := (l.mem_entry n e r).mp hr
    exact (h.span k hk).2
  · rw [l.accept_numbers]
    intro k hk
    change l.heard≤k ∧ k < l.sent+1
    rcases List.mem_append.mp hk with hk|hk
    · have := h.span k hk
      omega
    · obtain ⟨r,hr,rfl⟩ := List.mem_map.mp hk
      obtain ⟨x,hx,rfl⟩ := (l.mem_entry n e r).mp hr
      exact ⟨horder,Nat.lt_succ_self _⟩

theorem Full.accept (l : Ledger) (n : Nat) (e : Option SendEvent)
    (h : l.sent+1=l.heard+2^15 →
      (∃ x∈e,x.op≠.readSignaled) ∧ ∀ r∈l.reqs,r.event.op≠.readSignaled) : Full (l.accept n e) := by
  intro hwhole
  obtain ⟨⟨x,hx,hop⟩,hreads⟩ := h hwhole
  have hin := (l.mem_entry n e _).mpr ⟨x,hx,rfl⟩
  rw [l.accept_numbers,l.accept_reqs]
  refine ⟨List.mem_append_right _ (List.mem_map_of_mem hin),fun r hr => ?_⟩
  rcases List.mem_append.mp hr with hr|hr
  · exact hreads r hr
  · obtain ⟨y,hy,rfl⟩ := (l.mem_entry n e r).mp hr
    obtain rfl := Option.mem_unique hx hy
    exact hop

theorem Books.accept (l : Ledger) (s : SendSide) (h : Books l s) (n : UInt32) (signaled : Bool)
    (e : Option SendEvent) (hroom : (s.ctx.nextWr n).2.isSome=true)
    (hpaced : s.Paced n signaled (e.map SendEvent.op))
    (he : ∀ x∈e,signaled=true ∧ x.msgMeta=⟨s.ctx.msn,s.ctx.psn+n⟩) :
    ∃ l',Books l' {s with
      ctx := (s.ctx.nextWr n).1
      notices := s.notices++(e.map SendNotice.register).toList} := by
  obtain ⟨hpsn,hmsn⟩ := (s.ctx.nextWr_isSome n).mp hroom
  obtain ⟨⟨m,p⟩,hnext⟩ := Option.isSome_iff_exists.mp hroom
  obtain ⟨-,-,hctx,-,-⟩ := s.ctx.nextWr_some n m p hnext
  have hevents := h.events
  have hfits := hpaced.fits
  have hlast := hpaced.last
  rw [h.outstanding_psn] at hfits
  rw [h.outstanding_msn] at hmsn hlast
  rw [Psn.add_toNat,h.outstanding_psn,Nat.mod_eq_of_lt hfits,maxPsnWindow] at hpsn
  rw [maxSendWr] at hmsn hlast
  obtain ⟨hacked,hbase,-⟩ := h.handed
  obtain ⟨hc,hedge,hq,-⟩ := h
  have horder := hc.order
  rw [hctx]
  refine ⟨l.accept n.toNat e,⟨?_,hc.msnAcked,?_,?_,?_,hc.psnAcked,?_,hc.acks⟩,
    ⟨hedge.sound,hedge.gap,hedge.base,?_,?_⟩,hq.accept l s _ n.toNat e horder hbase (by omega) ?_,
    Full.accept l n.toNat e ?_⟩
  · change s.ctx.msn+1=Msn.wrap (l.sent+1)
    rw [hc.msn,Msn.wrap_succ]
  · exact horder.trans (Nat.le_succ _)
  · change l.sent+1≤l.heard+2^15
    omega
  · change s.ctx.psn+n=Psn.wrap (l.next+n.toNat)
    rw [hc.psn,Psn.wrap_add]
  · change l.next+n.toNat≤l.acked+2^23
    omega
  · exact hbase.trans (Nat.le_add_right ..)
  · intro i hi
    exact (hedge.marks i hi).trans_le (Nat.le_add_right ..)
  · intro x hx
    obtain ⟨hsig,hmeta⟩ := he x hx
    rw [hmeta,hc.msn,hc.psn,Psn.wrap_add]
    exact ⟨hpaced.taken hsig,rfl⟩
  · intro hwhole
    obtain ⟨⟨op,hmap,hop⟩,hreads⟩ := hlast (by omega)
    obtain ⟨x,hx,rfl⟩ := Option.map_eq_some_iff.mp hmap
    exact ⟨⟨x,hx,hop⟩,fun r hr => hreads r.event (hevents ▸ List.mem_map_of_mem hr)⟩

theorem Books.report (l : Ledger) (s : SendSide) (h : Books l s) (ops : List TrackerOp)
    (hops : ∀ op∈ops,op.Valid)
    (hw : Run.Along PsnTracker.next (PsnTracker.Within s.ctx.psn) s.tracker ops)
    (hun : Run.Along PsnTracker.next PsnTracker.Unrecorded s.tracker ops) :
    ∃ l',Books l' {s with
      tracker := (s.tracker.applyAll ops).1
      acks := s.acks++(s.tracker.applyAll ops).2.toList
      notices := s.notices++((s.tracker.applyAll ops).2.map SendNotice.ack).toList} := by
  obtain ⟨hacked,hbase,hroom⟩ := h.handed
  obtain ⟨hc,hedge,hq,hfull⟩ := h
  rw [hc.psn] at hw
  obtain ⟨b,hb,hedge'⟩ := hedge.applyAll ops s.tracker l.base l.next (by omega) hops hw hun
  have hnear := hedge'.handed
  have hreports := (PsnTracker.applyAll_reports s.tracker ops hops).edge
  rw [hedge'.base,hedge.base] at hreports
  refine ⟨{l with base := b},⟨hc.msn,hc.msnAcked,hc.order,hc.window,hc.psn,hc.psnAcked,hc.room,?_⟩,
    hedge',⟨hq.dones,hq.merged,hq.waiting,?_,hq.due,hq.fits,hq.stops,hq.sorted,hq.span,hq.blocked⟩,
    hfull⟩
  · refine hc.acks.append _ _ _ _ _ ?_
    cases hadv : (s.tracker.applyAll ops).2 with
    | none =>
        rw [hadv] at hreports
        have := (Psn.wrap_eq_iff b l.base).mp hreports
        change l.base=b
        omega
    | some p =>
        rw [hadv] at hreports
        exact ⟨b,hreports.symm,hb,rfl⟩
  · rw [← List.append_nil l.coming]
    refine hq.flow.append _ _ _ _ _ _ _ ?_
    cases hadv : (s.tracker.applyAll ops).2 with
    | none =>
        rw [hadv] at hreports
        have := (Psn.wrap_eq_iff b l.base).mp hreports
        exact ⟨rfl,by dsimp only; omega⟩
    | some p =>
        rw [hadv] at hreports
        exact ⟨b,hreports.symm,hb,by omega,rfl,rfl⟩

theorem Books.register (l : Ledger) (s : SendSide) (h : Books l s) (e : SendEvent)
    (notices : List SendNotice) (he : s.notices=.register e::notices) :
    ∃ l',Books l' {s with waiting := s.waiting.append e,notices := notices} := by
  obtain ⟨hc,hedge,hq,hfull⟩ := h
  have hflow := hq.flow
  rw [he] at hflow
  obtain ⟨r,rs,hcoming,rfl,hlo,hhi,hrest⟩ := hflow
  have hmem : ∀ w∈l.waiting++[r],w∈l.reqs := by
    intro w hw
    refine List.mem_append_right _ ?_
    rw [hcoming,← List.singleton_append,← List.append_assoc]
    exact List.mem_append_left _ hw
  have hnumber : ∀ w∈l.waiting++[r],l.heard≤w.number ∧ w.number < l.sent :=
    fun w hw => hq.span _ (List.mem_append_right _ (List.mem_map_of_mem (hmem w hw)))
  have happend : s.waiting.append r.event={s.waiting with inner := s.waiting.inner++[r.event]} := by
    refine append_last s.waiting r.event ?_
    intro x hx
    rw [hq.waiting] at hx
    obtain ⟨w,hw,rfl⟩ := List.mem_map.mp (List.mem_of_getLast? hx)
    have hlt : w.number < r.number := by
      have hsorted := (List.pairwise_append.mp hq.sorted).2.1
      rw [Ledger.reqs,List.map_append,List.map_append] at hsorted
      refine (List.pairwise_append.mp (List.pairwise_append.mp hsorted).2.1).2.2 w.number
        (List.mem_map_of_mem hw) r.number ?_
      rw [hcoming]
      exact List.mem_cons_self
    have hw' := hnumber w (List.mem_append_left _ hw)
    have hr' := hnumber r (List.mem_append_right _ List.mem_cons_self)
    have hwindow := hc.window
    change Msn.mk w.event.msgMeta.msn<Msn.mk r.event.msgMeta.msn
    rw [(hq.fits w (hmem w (List.mem_append_left _ hw))).1,
      (hq.fits r (hmem r (List.mem_append_right _ List.mem_cons_self))).1]
    exact (Msn.wrap_lt _ _ (by omega) (by omega)).mpr hlt
  have hshift : l.waiting++[r]++rs=l.waiting++l.coming := by
    rw [hcoming,List.append_assoc,List.singleton_append]
  have hreqs : ({l with waiting := l.waiting++[r],coming := rs} : Ledger).reqs=l.reqs := by
    simp only [Ledger.reqs,hshift]
  have hnumbers : ({l with waiting := l.waiting++[r],coming := rs} : Ledger).numbers=l.numbers := by
    rw [Ledger.numbers,hreqs]
    rfl
  refine ⟨{l with waiting := l.waiting++[r],coming := rs},
    ⟨hc.msn,hc.msnAcked,hc.order,hc.window,hc.psn,hc.psnAcked,hc.room,hc.acks⟩,hedge,
    ⟨hq.dones,hq.merged,?_,hrest,?_,?_,?_,?_,?_,hq.blocked⟩,?_⟩
  · rw [happend,List.map_append,← hq.waiting]
    rfl
  · intro w hw
    rcases List.mem_append.mp hw with hw|hw
    · exact hq.due w hw
    · obtain rfl := List.mem_singleton.mp hw
      exact ⟨hlo,hhi⟩
  · rw [hreqs]
    exact hq.fits
  · dsimp only
    rw [hshift]
    exact hq.stops
  · rw [hnumbers]
    exact hq.sorted
  · rw [hnumbers]
    exact hq.span
  · rw [Full,hreqs,hnumbers]
    exact hfull

/-- Requests leave in order: `es` complete, `rest` waits for an answer and `left` for an
acknowledgement. -/
theorem Books.move (l : Ledger) (s : SendSide) (h : Books l s) (es rest left : List Req)
    (hsplit : l.merged++l.waiting=es++(rest++left)) (hleft : left.Sublist l.waiting) (told : Nat)
    (psn : Psn) (notices : List SendNotice) (hflow : Flow told notices l.coming l.base)
    (hdue : ∀ r∈left,told < r.stop ∧ r.stop≤told+2^23)
    (hblocked : ∀ r∈rest.head?,r.event.op=.readSignaled) :
    Books {l with
        told := told,dones := l.dones++es.map Req.number,merged := rest,waiting := left}
      {s with
        merged := rest.map Req.event
        waiting := ⟨left.map Req.event,psn⟩
        dones := s.dones++es.map (fun r => r.event.msgMeta.msn)
        notices := notices} := by
  obtain ⟨hc,hedge,hq,hfull⟩ := h
  have hreqs : l.reqs=es++(rest++(left++l.coming)) := by
    rw [Ledger.reqs,← List.append_assoc,hsplit,List.append_assoc,List.append_assoc]
  set l' : Ledger := {l with
    told := told,dones := l.dones++es.map Req.number,merged := rest,waiting := left} with hl
  have hnumbers : l'.numbers=l.numbers := by
    rw [Ledger.numbers,Ledger.numbers,hreqs,List.map_append,← List.append_assoc]
    rfl
  have hmem : ∀ r∈rest++(left++l.coming),r∈l.reqs :=
    fun r hr => hreqs ▸ List.mem_append_right _ hr
  refine ⟨⟨hc.msn,hc.msnAcked,hc.order,hc.window,hc.psn,hc.psnAcked,hc.room,hc.acks⟩,hedge,
    ⟨?_,rfl,rfl,hflow,hdue,fun r hr => hq.fits r (hmem r hr),?_,?_,?_,hblocked⟩,?_⟩
  · dsimp only
    rw [hq.dones,List.map_append,List.map_map]
    refine congrArg _ (List.map_congr_left fun r hr => ?_)
    rw [(hq.fits r (hreqs ▸ List.mem_append_left _ hr)).1]
    rfl
  · exact hq.stops.sublist (hleft.append (List.Sublist.refl _))
  · rw [hnumbers]
    exact hq.sorted
  · rw [hnumbers]
    exact hq.span
  · rw [Full,hnumbers]
    intro hwhole
    obtain ⟨hin,hreads⟩ := hfull hwhole
    exact ⟨hin,fun r hr => hreads r (hmem r hr)⟩

theorem head_event (es : List Req) (rest : List SendEvent) (hes : es.map Req.event=rest)
    (h : ∀ e∈rest.head?,e.op=.readSignaled) : ∀ r∈es.head?,r.event.op=.readSignaled := by
  intro r hr
  refine h r.event ?_
  rw [← hes,List.head?_map]
  exact Option.mem_map_of_mem _ hr

theorem Books.ack (l : Ledger) (s : SendSide) (h : Books l s) (p : Psn) (notices : List SendNotice)
    (es rest : List SendEvent) (hs : s.notices=.ack p::notices)
    (hsplit : s.merged++s.waiting.inner.takeWhile (due p)=es++rest)
    (hrest : ∀ e∈rest.head?,e.op=.readSignaled) :
    ∃ l',Books l' {s with
      merged := rest
      waiting := ⟨s.waiting.inner.dropWhile (due p),p⟩
      dones := s.dones++es.map (fun e => e.msgMeta.msn)
      notices := notices} := by
  have hq := h.queues
  have hflow := hq.flow
  rw [hs] at hflow
  obtain ⟨r,rfl,hlo,hhi,hflow⟩ := hflow
  rw [hq.merged,hq.waiting,List.takeWhile_map,← List.map_append] at hsplit
  rw [hq.waiting,List.dropWhile_map]
  set q : Req → Bool := due (Psn.wrap r)∘Req.event with hdef
  obtain ⟨ds,bs,hreqs,rfl,hbs⟩ := List.map_eq_append_iff.mp hsplit
  have hreached : ∀ w∈l.waiting,w.stop ≤ r → q w=true := by
    intro w hw hle
    obtain ⟨hlo',hhi'⟩ := hq.due w hw
    refine decide_eq_true ?_
    change w.event.msgMeta.endPsn≤_
    rw [(hq.fits w (List.mem_append_right _ (List.mem_append_left _ hw))).1]
    exact (Psn.wrap_le _ _ (by omega) (by omega)).mpr hle
  have hahead := Lists.lt_of_mem_dropWhile Req.stop q r l.waiting
    (List.pairwise_append.mp hq.stops).1 hreached
  have hmove := h.move l s ds bs (l.waiting.dropWhile q)
    (by rw [← List.append_assoc,← hreqs,List.append_assoc,List.takeWhile_append_dropWhile])
    (List.dropWhile_sublist q) r (Psn.wrap r) notices hflow
    (fun w hw => ⟨hahead w hw,by
      have := (hq.due w ((List.dropWhile_sublist q).subset hw)).2
      omega⟩) (head_event bs rest hbs hrest)
  rw [hbs] at hmove
  rw [List.map_map]
  exact ⟨_,hmove⟩

theorem Books.poll (l : Ledger) (s : SendSide) (h : Books l s) (es rest : List SendEvent)
    (hsplit : s.merged=es++rest) (hrest : ∀ e∈rest.head?,e.op=.readSignaled) :
    ∃ l',Books l' {s with merged := rest,dones := s.dones++es.map (fun e => e.msgMeta.msn)} := by
  have hq := h.queues
  obtain ⟨ds,bs,hreqs,rfl,hbs⟩ := List.map_eq_append_iff.mp (hq.merged.symm.trans hsplit)
  have hmove := h.move l s ds bs l.waiting (by rw [hreqs,List.append_assoc])
    (List.Sublist.refl _) l.told s.waiting.basePsn s.notices hq.flow hq.due
    (head_event bs rest hbs hrest)
  rw [hbs,← hq.waiting] at hmove
  rw [List.map_map]
  exact ⟨_,hmove⟩

theorem Books.step (l : Ledger) (s s' : SendSide) (h : Books l s) (hstep : Step s s') :
    ∃ l',Books l' s' := by
  cases hstep with
  | hear p acks hp => exact h.hear l s p acks hp
  | finish m dones hm => exact h.finish l s m dones hm
  | accept n signaled e hroom hpaced he => exact h.accept l s n signaled e hroom hpaced he
  | report ops hops hw hun => exact h.report l s ops hops hw hun
  | register e notices he => exact h.register l s e notices he
  | ack p notices es rest hs hsplit hrest => exact h.ack l s p notices es rest hs hsplit hrest
  | poll es rest hsplit hrest => exact h.poll l s es rest hsplit hrest

/-- A send side on which nothing has happened. -/
def fresh : SendSide := ⟨.init,[],[],{},[],{},[]⟩

theorem fresh_books : Books ⟨0,0,0,0,0,0,[],[],[],[]⟩ fresh where
  counters := ⟨rfl,rfl,le_rfl,by decide,rfl,rfl,by decide,rfl⟩
  edge := ⟨PsnTracker.init_sound,rfl,rfl,le_rfl,fun i hi => by simp [fresh,BitRow.bit] at hi⟩
  queues := ⟨rfl,rfl,rfl,⟨rfl,rfl⟩,by simp,by simp [Ledger.reqs],List.Pairwise.nil,
    List.Pairwise.nil,by simp [Ledger.numbers,Ledger.reqs],by simp⟩
  full := fun h => absurd h (by decide)

/-- With every PSN acknowledged and nothing left to process, both windows are open. -/
theorem Books.windows_open (l : Ledger) (s : SendSide) (h : Books l s) (hacks : s.acks=[])
    (hdones : s.dones=[]) (hnotices : s.notices=[]) (hfront : s.tracker.frontier=s.ctx.psn) :
    l.acked=l.next ∧ l.sent < l.heard+2^15 := by
  obtain ⟨hacked,hbase,hroom⟩ := h.handed
  obtain ⟨hc,hedge,hq,hfull⟩ := h
  have hreach := hc.acks
  rw [hacks] at hreach
  have hflow := hq.flow
  rw [hnotices] at hflow
  obtain ⟨hcoming,htold⟩ := hflow
  rw [PsnTracker.frontier_eq _ hedge.sound.base hedge.gap,hedge.base,hc.psn,Psn.wrap_eq_iff] at hfront
  have hall : l.base=l.next := by omega
  change l.acked=l.base at hreach
  refine ⟨hreach.trans hall,Nat.lt_of_le_of_ne hc.window ?_⟩
  intro hwhole
  have hwaiting : l.waiting=[] := by
    refine List.eq_nil_iff_forall_not_mem.mpr (fun r hr => ?_)
    have hlo := (hq.due r hr).1
    have hhi := (hq.fits r (List.mem_append_right _ (List.mem_append_left _ hr))).2
    omega
  obtain ⟨hin,hreads⟩ := hfull hwhole
  -- the front of the merge queue is a read, and there is none
  have hmerged : l.merged=[] := by
    refine List.head?_eq_none_iff.mp (Option.eq_none_iff_forall_not_mem.mpr (fun r hr => ?_))
    exact hreads r (List.mem_append_left _ (List.mem_of_mem_head? hr)) (hq.blocked r hr)
  have hdone : l.dones=[] := List.map_eq_nil_iff.mp (hq.dones.symm.trans hdones)
  rw [Ledger.numbers,Ledger.reqs,hdone,hmerged,hwaiting,hcoming] at hin
  cases hin

theorem Books.can_send (l : Ledger) (s : SendSide) (h : Books l s) (hacks : s.acks=[])
    (hdones : s.dones=[]) (hnotices : s.notices=[]) (hfront : s.tracker.frontier=s.ctx.psn)
    (n : UInt32) (hn : n.toNat ≤ maxPsnWindow) : (s.ctx.nextWr n).2.isSome=true := by
  obtain ⟨hpsn,hmsn⟩ := h.windows_open l s hacks hdones hnotices hfront
  have horder := h.counters.order
  rw [maxPsnWindow] at hn
  rw [SendQueueContext.nextWr_isSome,Psn.add_toNat,h.outstanding_psn,h.outstanding_msn,maxPsnWindow,
    maxSendWr]
  omega

end SendSide
end BlueRdma

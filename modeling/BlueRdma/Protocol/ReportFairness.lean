import BlueRdma.Math.RoundRobin
import BlueRdma.RingBuf.Filled
import BlueRdma.Workers.MetaReport.Queue

namespace BlueRdma
open DmaRingBuf (Filled new_filled)

/-- A report as the device writes it: one descriptor, or two of which the first announces the
second. -/
structure MetaReport where
  first : DescBytes
  next : Option DescBytes

namespace MetaReport

def descs (r : MetaReport) : List DescBytes := r.first::r.next.toList

/-- How the driver reads the descriptors. -/
def read (r : MetaReport) : Option (Option MetaReportQueueDesc) :=
  MetaReportQueue.classify (some (DescDeserialize.deserialize r.first))
    (r.next.map DescDeserialize.deserialize)

def toMeta (r : MetaReport) : Option (UInt32 × ReportMeta) :=
  r.read.join.bind MetaReportQueueHandler.toMeta

/-- The valid bits are set, the first descriptor announces the second exactly if there is one, and
the driver knows the format. -/
def WellFormed (r : MetaReport) : Prop :=
  (∀ d∈r.descs,DescRingBuffer.isValid d=true) ∧ DescRingBuffer.hasNext r.first=r.next.isSome ∧
    r.toMeta.isSome=true

instance (r : MetaReport) : Decidable r.WellFormed := inferInstanceAs (Decidable (_ ∧ _))

/-- The descriptors of a report leave a queue together. -/
theorem popTwo_descs (r : MetaReport) (h : r.WellFormed) (rest : List DescBytes) :
    Fifo.popTwo DescRingBuffer.hasNext (r.descs++rest)=(rest,some r.first,r.next) := by
  obtain ⟨first,next⟩ := r
  have hnext := h.2.1
  cases next with
  | some d => exact if_pos hnext
  | none =>
      have hsingle : ¬DescRingBuffer.hasNext first=true := by
        rw [hnext]
        exact Bool.false_ne_true
      cases rest with
      | nil => exact if_neg hsingle
      | cons d rest => exact if_neg hsingle

theorem exists_meta (r : MetaReport) (h : r.WellFormed) :
    ∃ desc x,r.read=some (some desc) ∧ MetaReportQueueHandler.toMeta desc=some x ∧
      r.toMeta=some x := by
  obtain ⟨x,hx⟩ := Option.isSome_iff_exists.mp h.2.2
  obtain ⟨desc,hdesc,hmeta⟩ := Option.bind_eq_some_iff.mp hx
  exact ⟨desc,x,Option.join_eq_some_iff.mp hdesc,hmeta,hx⟩

end MetaReport

/-- What the device has written to a queue: whole reports, and perhaps the first descriptor of one
more. -/
structure ReportFeed where
  reports : List MetaReport := []
  begun : Option MetaReport := none

namespace ReportFeed

/-- The descriptors behind the first `taken` reports. -/
def stored (f : ReportFeed) (taken : Nat) : List DescBytes :=
  (f.reports.drop taken).flatMap MetaReport.descs++(f.begun.map MetaReport.first).toList

/-- The descriptors of the first `taken` reports. -/
def consumed (f : ReportFeed) (taken : Nat) : Nat :=
  ((f.reports.take taken).flatMap MetaReport.descs).length

/-- The number of descriptors written. -/
def written (f : ReportFeed) : Nat := (f.stored 0).length

theorem written_eq (f : ReportFeed) (taken : Nat) :
    f.written=f.consumed taken+(f.stored taken).length := by
  have hsplit := congrArg (fun l => (l.flatMap MetaReport.descs).length)
    (List.take_append_drop taken f.reports)
  simp only [List.flatMap_append,List.length_append] at hsplit
  rw [written,stored,stored,consumed,List.drop_zero,List.length_append,List.length_append,← hsplit]
  omega

section Report
variable (f : ReportFeed) (taken : Nat) (h : taken<f.reports.length)
include h

theorem stored_eq : f.stored taken=f.reports[taken].descs++f.stored (taken+1) := by
  rw [stored,stored,List.drop_eq_getElem_cons h,List.flatMap_cons,List.append_assoc]

theorem consumed_succ :
    f.consumed (taken+1)=f.consumed taken+f.reports[taken].descs.length := by
  rw [consumed,consumed,List.take_succ_eq_append_getElem h,List.flatMap_append,List.length_append,
    List.flatMap_singleton]

end Report

/-- The first descriptor of a report is written. -/
def start (f : ReportFeed) (r : MetaReport) : ReportFeed :=
  match r.next with
  | none => {f with reports := f.reports++[r]}
  | some _ => {f with begun := some r}

end ReportFeed

inductive PollStep
  /-- `try_recv_meta` is called. -/
  | poll
  /-- The device writes the first descriptor of a report; `head` is what its head register reads as
  from then on. -/
  | arrive (k : Nat) (r : MetaReport) (head : Option UInt32)
  /-- The device writes the second descriptor of the report begun last. -/
  | finish (k : Nat) (head : Option UInt32)

def PollStep.isPoll : PollStep → Bool
  | .poll => true
  | _ => false

/-- The handler, what the device has written to each queue, and the reports returned with the queue
each is from. -/
structure PollSystem where
  handler : MetaReportQueueHandler
  feeds : Nat → ReportFeed := fun _ => {}
  metas : List (Nat × (UInt32 × ReportMeta)) := []
  panicked : Bool := false

namespace PollSystem

/-- A number of queues in fresh memory. -/
def init (n : Nat) : PollSystem where
  handler := {inner := List.replicate n ⟨⟨.zeroed⟩,⟨some 0,0⟩⟩}

/-- The device writes a descriptor to the slot behind the last one. -/
def deliver (s : PollSystem) (k : Nat) (d : DescBytes) (head : Option UInt32) :
    MetaReportQueueHandler :=
  {s.handler with inner := s.handler.inner.modify k fun ctx =>
    ⟨⟨⟨ctx.queue.inner.ring.write ((s.feeds k).written%4096) d⟩⟩,{ctx.ring with head := head}⟩}

/-- The tail register leaves room for a descriptor. -/
def Room (s : PollSystem) (k : Nat) : Prop :=
  ∃ ctx∈s.handler.inner[k]?,((s.feeds k).written%8192+8192-ctx.ring.tail.toNat)%8192<4096

instance (s : PollSystem) (k : Nat) : Decidable (s.Room k) :=
  decidable_of_iff ((s.handler.inner[k]?).any fun ctx =>
    ((s.feeds k).written%8192+8192-ctx.ring.tail.toNat)%8192<4096) (by
      rw [Room]
      cases s.handler.inner[k]? <;> simp)

/-- `pos` is moved behind the queue a report was taken from. -/
def source (h : MetaReportQueueHandler) : Nat := (h.pos+h.inner.length-1)%h.inner.length

/-- A step of the device that is not enabled leaves the state alone. -/
def step (s : PollSystem) : PollStep → PollSystem
  | .poll => match s.handler.tryRecvMeta with
    | none => {s with panicked := true}
    | some (h,none) => {s with handler := h}
    | some (h,some x) => {s with handler := h,metas := s.metas++[(source h,x)]}
  | .arrive k r head =>
    if r.WellFormed ∧ (s.feeds k).begun.isNone ∧ s.Room k then
      {s with
        handler := s.deliver k r.first head
        feeds := Function.update s.feeds k ((s.feeds k).start r)}
    else s
  | .finish k head => match (s.feeds k).begun with
    | none => s
    | some r => match r.next with
      | none => s
      | some d =>
        if s.Room k then
          {s with
            handler := s.deliver k d head
            feeds := Function.update s.feeds k ⟨(s.feeds k).reports++[r],none⟩}
        else s

/-- The reports returned from a queue. -/
def metasOf (s : PollSystem) (k : Nat) : List (UInt32 × ReportMeta) :=
  (s.metas.filter (·.1=k)).map Prod.snd

/-- The queue holds a whole report. -/
def Complete (s : PollSystem) (k : Nat) : Prop :=
  (s.metasOf k).length<(s.feeds k).reports.length

/-- The queue's ring holds what was written and not yet returned. -/
structure Feeds (ctx : MetaReportQueueCtx) (f : ReportFeed) (metas : List (UInt32 × ReportMeta)) :
    Prop where
  wellFormed : ∀ r∈f.reports,r.WellFormed
  begun : ∀ r,f.begun=some r → r.WellFormed ∧ r.next.isSome=true
  order : metas.map some<+:f.reports.map MetaReport.toMeta
  filled : Filled ctx.queue.inner.ring (f.stored metas.length)
  tail : ctx.queue.inner.ring.tail.toNat=f.consumed metas.length%8192
  tailReg : ctx.ring.tail.toNat=f.consumed metas.length%8192

theorem zeroed_feeds (head : Option UInt32) : Feeds ⟨⟨.zeroed⟩,⟨head,0⟩⟩ {} [] where
  wellFormed := fun r hr => by cases hr
  begun := fun r hr => by cases hr
  order := List.nil_prefix
  filled := new_filled
  tail := rfl
  tailReg := rfl

namespace Feeds
variable {ctx : MetaReportQueueCtx} {f : ReportFeed} {metas : List (UInt32 × ReportMeta)}

theorem length_le (h : Feeds ctx f metas) : metas.length ≤ f.reports.length := by
  have hlength := h.order.length_le
  rwa [List.length_map,List.length_map] at hlength

/-- Every descriptor in the ring has its valid bit set. -/
theorem valid (h : Feeds ctx f metas) (d : DescBytes) (hd : d∈f.stored metas.length) :
    DescRingBuffer.isValid d=true := by
  rcases List.mem_append.mp hd with hd|hd
  · obtain ⟨r,hr,hd⟩ := List.mem_flatMap.mp hd
    exact (h.wellFormed r (List.mem_of_mem_drop hr)).1 d hd
  · obtain ⟨r,hr,rfl⟩ := Option.map_eq_some_iff.mp (Option.mem_toList.mp hd)
    exact (h.begun r hr).1.1 _ List.mem_cons_self

/-- The tail register tells the device how much room there is. -/
theorem room_iff (h : Feeds ctx f metas) :
    (f.written%8192+8192-ctx.ring.tail.toNat)%8192<4096 ↔ (f.stored metas.length).length<4096 := by
  have hle := h.filled.length_le
  rw [h.tailReg,f.written_eq metas.length]
  omega

/-- The device writes one more descriptor. -/
theorem write (h : Feeds ctx f metas) (hroom : (f.stored metas.length).length<4096) (d : DescBytes)
    (head : Option UInt32) (f' : ReportFeed)
    (hwellFormed : ∀ r∈f'.reports,r.WellFormed)
    (hbegun : ∀ r,f'.begun=some r → r.WellFormed ∧ r.next.isSome=true)
    (hreports : f.reports<+:f'.reports)
    (hstored : f'.stored metas.length=f.stored metas.length++[d]) :
    Feeds ⟨⟨⟨ctx.queue.inner.ring.write (f.written%4096) d⟩⟩,{ctx.ring with head := head}⟩ f'
      metas := by
  have hconsumed : f'.consumed metas.length=f.consumed metas.length := by
    obtain ⟨rest,hrest⟩ := hreports
    rw [ReportFeed.consumed,ReportFeed.consumed,← hrest,
      List.take_append_of_le_length h.length_le]
  refine ⟨hwellFormed,hbegun,h.order.trans (hreports.map _),?_,?_,?_⟩
  · rw [hstored,f.written_eq metas.length]
    exact h.filled.arrive hroom d _ h.tail
  · rw [hconsumed]
    exact h.tail
  · rw [hconsumed]
    exact h.tailReg

/-- `pop` in terms of the descriptors stored. -/
theorem pop_eq (h : Feeds ctx f metas) (rest : List DescBytes) (first next : Option DescBytes)
    (hstored : Fifo.popTwo DescRingBuffer.hasNext (f.stored metas.length)=(rest,first,next)) :
    ∃ ring : DmaRingBuf DescBytes,Filled ring rest ∧
      ring.tail.toNat=(f.consumed metas.length+(first.toList.length+next.toList.length))%8192 ∧
      ctx.queue.pop=(MetaReportQueue.classify (first.map DescDeserialize.deserialize)
        (next.map DescDeserialize.deserialize)).map fun desc => (⟨⟨ring⟩⟩,desc) := by
  obtain ⟨hvalue,hfilled⟩ := h.filled.popTwo_filled DescRingBuffer.hasNext
    DescRingBuffer.zeroed_invalid h.valid
  have htail := h.filled.popTwo_tail DescRingBuffer.isValid DescRingBuffer.hasNext
  have hqueue : ctx.queue.pop=(MetaReportQueue.classify
      ((ctx.queue.inner.ring.popTwo DescRingBuffer.isValid DescRingBuffer.hasNext).2.1.map
        DescDeserialize.deserialize)
      ((ctx.queue.inner.ring.popTwo DescRingBuffer.isValid DescRingBuffer.hasNext).2.2.map
        DescDeserialize.deserialize)).map fun desc =>
      (⟨⟨(ctx.queue.inner.ring.popTwo DescRingBuffer.isValid DescRingBuffer.hasNext).1⟩⟩,desc) := rfl
  rw [hstored] at hvalue hfilled
  rw [hvalue] at htail hqueue
  refine ⟨_,hfilled,?_,hqueue⟩
  rw [htail,h.tail]
  exact Nat.mod_add_mod ..

/-- A whole report is taken by `pop`. -/
theorem pop_complete (h : Feeds ctx f metas) (hlt : metas.length<f.reports.length) :
    ∃ queue desc x,ctx.queue.pop=some (queue,some desc) ∧
      MetaReportQueueHandler.toMeta desc=some x ∧
      Feeds (MetaReportQueueHandler.popped ctx queue) f (metas++[x]) := by
  have hwf := h.wellFormed _ (List.getElem_mem hlt)
  obtain ⟨desc,x,hread,hmeta,hx⟩ := f.reports[metas.length].exists_meta hwf
  have hdescs := f.reports[metas.length].popTwo_descs hwf (f.stored (metas.length+1))
  rw [← f.stored_eq _ hlt] at hdescs
  obtain ⟨ring,hfilled,htail,hpop⟩ := h.pop_eq _ _ _ hdescs
  have hlength : (metas++[x]).length=metas.length+1 := List.length_append
  have hconsumed : ring.tail.toNat=f.consumed (metas++[x]).length%8192 := by
    rw [hlength,f.consumed_succ _ hlt,htail]
    congr 2
    exact Nat.add_comm 1 _
  have hread' : MetaReportQueue.classify
      ((some f.reports[metas.length].first).map DescDeserialize.deserialize)
      (f.reports[metas.length].next.map DescDeserialize.deserialize)=some (some desc) := hread
  rw [hread'] at hpop
  refine ⟨_,desc,x,hpop,hmeta,h.wellFormed,h.begun,?_,?_,?_,?_⟩
  · have hnext := List.concat_get_prefix h.order (by
      rw [List.length_map,List.length_map]
      exact hlt)
    rw [List.map_append]
    simpa [hx] using hnext
  · rw [hlength,MetaReportQueueHandler.popped]
    cases ctx.ring.head with
    | none => exact hfilled
    | some head => exact hfilled
  · rw [MetaReportQueueHandler.popped]
    cases ctx.ring.head with
    | none => exact hconsumed
    | some head => exact hconsumed
  · change ring.tail.toUInt32.toNat=_
    rw [UInt64.toNat_toUInt32,hconsumed]
    omega

/-- Without a whole report there is nothing to take. -/
theorem pop_incomplete (h : Feeds ctx f metas) (hge : metas.length=f.reports.length) :
    ∃ queue,ctx.queue.pop=some (queue,none) := by
  have hstored : f.stored metas.length=(f.begun.map MetaReport.first).toList := by
    rw [ReportFeed.stored,hge,List.drop_length]
    rfl
  have hpop : Fifo.popTwo DescRingBuffer.hasNext (f.stored metas.length)=
      (f.stored metas.length,none,none) := by
    rw [hstored]
    cases hbegun : f.begun with
    | none => rfl
    | some r =>
        obtain ⟨hwf,hnext⟩ := h.begun r hbegun
        exact if_pos (hwf.2.1.trans hnext)
  obtain ⟨ring,-,-,hqueue⟩ := h.pop_eq _ _ _ hpop
  exact ⟨_,hqueue⟩

/-- The device starts a report. -/
theorem start (h : Feeds ctx f metas) (hroom : (f.stored metas.length).length<4096)
    (r : MetaReport) (hr : r.WellFormed) (hbegun : f.begun=none) (head : Option UInt32) :
    Feeds ⟨⟨⟨ctx.queue.inner.ring.write (f.written%4096) r.first⟩⟩,{ctx.ring with head := head}⟩
      (f.start r) metas := by
  have hstored : f.stored metas.length=(f.reports.drop metas.length).flatMap MetaReport.descs := by
    rw [ReportFeed.stored,hbegun]
    exact List.append_nil _
  have hstart : f.start r=match r.next with
    | none => {f with reports := f.reports++[r]}
    | some _ => {f with begun := some r} := rfl
  cases hnext : r.next with
  | none =>
      rw [hnext] at hstart
      rw [hstart]
      refine h.write hroom r.first head _ ?_ h.begun (List.prefix_append ..) ?_
      · exact List.forall_mem_append.mpr ⟨h.wellFormed,List.forall_mem_singleton.mpr hr⟩
      · rw [hstored,ReportFeed.stored,hbegun,List.drop_append_of_le_length h.length_le,
          List.flatMap_append,List.flatMap_singleton,MetaReport.descs,hnext]
        exact List.append_nil _
  | some d =>
      rw [hnext] at hstart
      rw [hstart]
      refine h.write hroom r.first head _ h.wellFormed ?_ (List.prefix_refl _) ?_
      · rintro x ⟨⟩
        exact ⟨hr,by rw [hnext]; rfl⟩
      · rw [hstored]
        rfl

/-- The device writes the second descriptor. -/
theorem finish (h : Feeds ctx f metas) (hroom : (f.stored metas.length).length<4096)
    (r : MetaReport) (d : DescBytes) (hbegun : f.begun=some r) (hnext : r.next=some d)
    (head : Option UInt32) :
    Feeds ⟨⟨⟨ctx.queue.inner.ring.write (f.written%4096) d⟩⟩,{ctx.ring with head := head}⟩
      ⟨f.reports++[r],none⟩ metas := by
  refine h.write hroom d head _ ?_ (fun x hx => (by cases hx)) (List.prefix_append ..) ?_
  · exact List.forall_mem_append.mpr
      ⟨h.wellFormed,List.forall_mem_singleton.mpr (h.begun r hbegun).1⟩
  · rw [ReportFeed.stored,ReportFeed.stored,hbegun,List.drop_append_of_le_length h.length_le,
      List.flatMap_append,List.flatMap_singleton,MetaReport.descs,hnext]
    simp

end Feeds

/-- What holds in every state of a system of `n` queues. -/
structure Inv (n : Nat) (s : PollSystem) : Prop where
  length : s.handler.inner.length=n
  pos : s.handler.pos<n
  alive : s.panicked=false
  queues : ∀ k ctx,s.handler.inner[k]?=some ctx → Feeds ctx (s.feeds k) (s.metasOf k)

instance (s : PollSystem) (k : Nat) : Decidable (s.Complete k) := inferInstanceAs (Decidable (_<_))

/-- How far the first queue with a whole report is in front of the position. -/
def pick (s : PollSystem) : Option Nat :=
  RoundRobin.pick s.handler.inner.length s.handler.pos (fun k => decide (s.Complete k))

/-- The handler after taking a report from a queue. -/
def taken (h : MetaReportQueueHandler) (k : Nat) (ctx : MetaReportQueueCtx) : MetaReportQueueHandler :=
  ⟨h.inner.set k ctx,(k+1)%h.inner.length⟩

theorem source_taken (h : MetaReportQueueHandler) (k : Nat) (ctx : MetaReportQueueCtx)
    (hk : k<h.inner.length) : source (taken h k ctx)=k := by
  rw [source,taken,List.length_set]
  dsimp only
  rcases Nat.lt_or_ge (k+1) h.inner.length with hlt|hge
  · rw [Nat.mod_eq_of_lt hlt,show k+1+h.inner.length-1=k+h.inner.length by omega,Nat.add_mod_right,
      Nat.mod_eq_of_lt hk]
  · rw [show k+1=h.inner.length by omega,Nat.mod_self,Nat.zero_add,Nat.mod_eq_of_lt (by omega)]
    omega

namespace Inv
variable {n : Nat} {s : PollSystem}

theorem exists_ctx (h : Inv n s) (k : Nat) (hk : k<n) : ∃ ctx,s.handler.inner[k]?=some ctx :=
  ⟨_,List.getElem?_eq_getElem (h.length.symm ▸ hk)⟩

/-- The queues are tried in turn, and the first with a whole report gives it. -/
theorem tryQueues_eq (h : Inv n s) (is : List Nat) :
    match is.find? (fun i => decide (s.Complete ((s.handler.pos+i)%n))) with
    | none => s.handler.tryQueues is=some (s.handler,none)
    | some i => ∃ ctx x,Feeds ctx (s.feeds ((s.handler.pos+i)%n))
          (s.metasOf ((s.handler.pos+i)%n)++[x]) ∧
        s.handler.tryQueues is=some (taken s.handler ((s.handler.pos+i)%n) ctx,some x) := by
  induction is with
  | nil => rfl
  | cons i is ih =>
      have hlt : (s.handler.pos+i)%n<n := Nat.mod_lt _ (by have := h.pos; omega)
      obtain ⟨ctx,hctx⟩ := h.exists_ctx _ hlt
      have hfeeds := h.queues _ ctx hctx
      rw [List.find?_cons]
      by_cases hcomplete : s.Complete ((s.handler.pos+i)%n)
      · obtain ⟨queue,desc,x,hpop,hmeta,hnext⟩ := hfeeds.pop_complete hcomplete
        rw [decide_eq_true hcomplete]
        refine ⟨_,x,hnext,?_⟩
        rw [MetaReportQueueHandler.tryQueues]
        simp only [h.length,hctx,hpop,hmeta,Option.map_some,taken]
      · have hall : (s.metasOf ((s.handler.pos+i)%n)).length=
            (s.feeds ((s.handler.pos+i)%n)).reports.length :=
          Nat.le_antisymm hfeeds.length_le (Nat.not_lt.mp hcomplete)
        obtain ⟨queue,hpop⟩ := hfeeds.pop_incomplete hall
        have hskip : s.handler.tryQueues (i::is)=s.handler.tryQueues is := by
          rw [MetaReportQueueHandler.tryQueues]
          simp only [h.length,hctx,hpop]
        rw [decide_eq_false hcomplete,hskip]
        exact ih

/-- No queue holds a whole report. -/
theorem recv_none (h : Inv n s) (hpick : s.pick=none) :
    s.handler.tryRecvMeta=some (s.handler,none) := by
  have htry := h.tryQueues_eq (List.range n)
  rw [pick,RoundRobin.pick,h.length] at hpick
  rw [hpick] at htry
  rw [MetaReportQueueHandler.tryRecvMeta,h.length]
  exact htry

/-- The first queue with a whole report is served. -/
theorem recv_some (h : Inv n s) (i : Nat) (hpick : s.pick=some i) :
    ∃ ctx x,Feeds ctx (s.feeds ((s.handler.pos+i)%n)) (s.metasOf ((s.handler.pos+i)%n)++[x]) ∧
      s.handler.tryRecvMeta=some (taken s.handler ((s.handler.pos+i)%n) ctx,some x) := by
  have htry := h.tryQueues_eq (List.range n)
  rw [pick,RoundRobin.pick,h.length] at hpick
  rw [hpick] at htry
  rw [MetaReportQueueHandler.tryRecvMeta,h.length]
  exact htry

theorem poll_some (h : Inv n s) (i : Nat) (hpick : s.pick=some i) :
    ∃ ctx x,Feeds ctx (s.feeds ((s.handler.pos+i)%n)) (s.metasOf ((s.handler.pos+i)%n)++[x]) ∧
      s.step .poll={s with
        handler := taken s.handler ((s.handler.pos+i)%n) ctx
        metas := s.metas++[((s.handler.pos+i)%n,x)]} := by
  obtain ⟨ctx,x,hfeeds,hrecv⟩ := h.recv_some i hpick
  have hlt : (s.handler.pos+i)%n < s.handler.inner.length := by
    rw [h.length]
    exact Nat.mod_lt _ (by have := h.pos; omega)
  refine ⟨ctx,x,hfeeds,?_⟩
  simp only [step,hrecv,source_taken _ _ _ hlt]

theorem pick_le (h : Inv n s) (j : Nat) (hj : j<n) (hc : s.Complete j) :
    ∃ i,s.pick=some i ∧ i ≤ RoundRobin.offset n s.handler.pos j := by
  rw [pick,h.length]
  exact RoundRobin.pick_le h.pos hj (decide_eq_true hc)

end Inv

theorem metasOf_append (s : PollSystem) (h : MetaReportQueueHandler) (k : Nat)
    (x : UInt32 × ReportMeta) (j : Nat) :
    ({s with handler := h,metas := s.metas++[(k,x)]} : PollSystem).metasOf j=
      if k=j then s.metasOf j++[x] else s.metasOf j := by
  rw [metasOf,metasOf,List.filter_append,List.map_append,List.filter_singleton]
  split_ifs with hk <;> simp [hk]

namespace Inv
variable {n : Nat} {s : PollSystem}

theorem poll (h : Inv n s) : Inv n (s.step .poll) := by
  cases hpick : s.pick with
  | none =>
      have hstay : s.step .poll=s := by simp only [PollSystem.step,h.recv_none hpick]
      rw [hstay]
      exact h
  | some i =>
      obtain ⟨ctx,x,hfeeds,hstep⟩ := h.poll_some i hpick
      rw [hstep]
      refine ⟨?_,?_,h.alive,?_⟩
      · exact List.length_set.trans h.length
      · change _%_<n
        rw [h.length]
        exact Nat.mod_lt _ (by have := h.pos; omega)
      · intro k ctx' hctx
        rw [metasOf_append]
        change (s.handler.inner.set _ ctx)[k]?=_ at hctx
        change Feeds ctx' (s.feeds k) _
        rw [List.getElem?_set] at hctx
        split_ifs at hctx ⊢ with hk hlt
        · subst hk
          obtain rfl := Option.some.inj hctx
          exact hfeeds
        · exact h.queues k ctx' hctx

/-- A descriptor is written to one queue, and what was written to it is kept track of. -/
theorem deliver (h : Inv n s) (k : Nat) (d : DescBytes) (head : Option UInt32) (f : ReportFeed)
    (hf : ∀ ctx,s.handler.inner[k]?=some ctx →
      Feeds ⟨⟨⟨ctx.queue.inner.ring.write ((s.feeds k).written%4096) d⟩⟩,
        {ctx.ring with head := head}⟩ f (s.metasOf k)) :
    Inv n {s with handler := s.deliver k d head,feeds := Function.update s.feeds k f} := by
  refine ⟨(List.length_modify ..).trans h.length,h.pos,h.alive,?_⟩
  intro j ctx hctx
  change (s.handler.inner.modify k _)[j]?=some ctx at hctx
  change Feeds ctx (Function.update s.feeds k f j) (s.metasOf j)
  rw [List.getElem?_modify] at hctx
  by_cases hj : k=j
  · subst hj
    obtain ⟨old,hold,hnew⟩ := Option.map_eq_some_iff.mp hctx
    rw [if_pos rfl] at hnew
    rw [Function.update_self,← hnew]
    exact hf old hold
  · obtain ⟨old,hold,hnew⟩ := Option.map_eq_some_iff.mp hctx
    rw [if_neg hj] at hnew
    rw [Function.update_of_ne (Ne.symm hj),← hnew]
    exact h.queues j old hold

/-- The device finds room where there is. -/
theorem room (h : Inv n s) (k : Nat) (hroom : s.Room k) (ctx : MetaReportQueueCtx)
    (hctx : s.handler.inner[k]?=some ctx) :
    ((s.feeds k).stored (s.metasOf k).length).length<4096 := by
  obtain ⟨ctx',hctx',hroom⟩ := hroom
  rw [hctx] at hctx'
  obtain rfl := Option.some.inj hctx'
  exact (h.queues k ctx hctx).room_iff.mp hroom

theorem step (h : Inv n s) (l : PollStep) : Inv n (s.step l) := by
  cases l with
  | poll => exact h.poll
  | arrive k r head =>
      simp only [PollSystem.step]
      split_ifs with hl
      · obtain ⟨hr,hbegun,hroom⟩ := hl
        exact h.deliver k r.first head _ fun ctx hctx =>
          (h.queues k ctx hctx).start (h.room k hroom ctx hctx) r hr
            (Option.isNone_iff_eq_none.mp hbegun) head
      · exact h
  | finish k head =>
      simp only [PollSystem.step]
      cases hbegun : (s.feeds k).begun with
      | none => exact h
      | some r =>
          cases hnext : r.next with
          | none =>
              simp only [hnext]
              exact h
          | some d =>
              simp only [hnext]
              split_ifs with hroom
              · exact h.deliver k d head _ fun ctx hctx =>
                  (h.queues k ctx hctx).finish (h.room k hroom ctx hctx) r d hbegun hnext head
              · exact h

theorem init_inv (n : Nat) (hn : 0<n) : Inv n (init n) := by
  refine ⟨List.length_replicate,hn,rfl,?_⟩
  intro k ctx hctx
  change (List.replicate n _)[k]?=some ctx at hctx
  rw [List.getElem?_replicate] at hctx
  split_ifs at hctx
  obtain rfl := Option.some.inj hctx
  exact zeroed_feeds (some 0)

end Inv

/-- A step of the device takes nothing from a queue and leaves the position alone. -/
theorem device_step (s : PollSystem) (l : PollStep) (hl : l.isPoll=false) :
    (s.step l).handler.pos=s.handler.pos ∧ (s.step l).metas=s.metas ∧
      ∀ k,(s.feeds k).reports<+:((s.step l).feeds k).reports := by
  have hkeep (k : Nat) (f : ReportFeed) (hf : (s.feeds k).reports<+:f.reports) (j : Nat) :
      (s.feeds j).reports<+:(Function.update s.feeds k f j).reports := by
    by_cases hj : j=k
    · subst hj
      rwa [Function.update_self]
    · rw [Function.update_of_ne hj]
  cases l with
  | poll => cases hl
  | arrive k r head =>
      simp only [step]
      split_ifs
      · refine ⟨rfl,rfl,hkeep k _ ?_⟩
        rw [ReportFeed.start]
        split
        · exact List.prefix_append ..
        · exact List.prefix_refl _
      · exact ⟨rfl,rfl,fun k => List.prefix_refl _⟩
  | finish k head =>
      simp only [step]
      split
      · exact ⟨rfl,rfl,fun k => List.prefix_refl _⟩
      · split
        · exact ⟨rfl,rfl,fun k => List.prefix_refl _⟩
        · split_ifs
          · exact ⟨rfl,rfl,hkeep k _ (List.prefix_append ..)⟩
          · exact ⟨rfl,rfl,fun k => List.prefix_refl _⟩

theorem metas_step (s : PollSystem) (l : PollStep) : s.metas<+:(s.step l).metas := by
  cases l with
  | poll =>
      simp only [step]
      split
      · exact List.prefix_refl _
      · exact List.prefix_refl _
      · exact List.prefix_append ..
  | arrive k r head => rw [(device_step s (.arrive k r head) rfl).2.1]
  | finish k head => rw [(device_step s (.finish k head) rfl).2.1]

/-- Reports that were returned stay returned. -/
theorem length_metasOf_run (s : PollSystem) (ms : List PollStep) (j : Nat) :
    (s.metasOf j).length ≤ ((Run.run step s ms).metasOf j).length := by
  have hmetas : s.metas<+:(Run.run step s ms).metas :=
    Run.run_inv_all step (fun t => s.metas<+:t.metas) (fun t l h => h.trans (metas_step t l)) s ms
      (List.prefix_refl _)
  exact ((hmetas.filter _).map _).length_le

theorem metasOf_congr (s t : PollSystem) (h : t.metas=s.metas) (j : Nat) :
    t.metasOf j=s.metasOf j := by rw [metasOf,metasOf,h]

namespace Inv
variable {n : Nat} {s : PollSystem}

/-- One call: it serves the queue, or another one and then the position is closer to the queue. -/
theorem poll_closer (h : Inv n s) (j : Nat) (hj : j<n) (hc : s.Complete j) :
    (s.metasOf j).length<((s.step .poll).metasOf j).length ∨
      (s.step .poll).Complete j ∧ (s.step .poll).metasOf j=s.metasOf j ∧
        RoundRobin.offset n (s.step .poll).handler.pos j<RoundRobin.offset n s.handler.pos j := by
  obtain ⟨i,hpick,hi⟩ := h.pick_le j hj hc
  obtain ⟨ctx,x,-,hstep⟩ := h.poll_some i hpick
  rw [hstep]
  rcases hi.eq_or_lt with heq|hlt
  · refine Or.inl ?_
    rw [metasOf_append,heq,RoundRobin.place_offset h.pos hj,if_pos rfl,List.length_append]
    exact Nat.lt_succ_self _
  · have hother : (s.handler.pos+i)%n≠j := by
      intro heq
      have hoffset := RoundRobin.offset_place h.pos i
        (hlt.trans (RoundRobin.offset_lt n s.handler.pos j (by omega)))
      rw [heq] at hoffset
      omega
    have hsame : ({s with
        handler := taken s.handler ((s.handler.pos+i)%n) ctx
        metas := s.metas++[((s.handler.pos+i)%n,x)]} : PollSystem).metasOf j=s.metasOf j := by
      rw [metasOf_append,if_neg hother]
    have hmoved := RoundRobin.offset_moved h.pos hj i hlt
    refine Or.inr ⟨?_,hsame,?_⟩
    · rw [Complete,hsame]
      exact hc
    · change RoundRobin.offset n ((_+1)%s.handler.inner.length) j<_
      rw [h.length]
      omega

/-- A queue with a whole report is served before the calls get past it. -/
theorem served (h : Inv n s) (j : Nat) (hj : j<n) (hc : s.Complete j) (ms : List PollStep)
    (hms : RoundRobin.offset n s.handler.pos j < ms.countP PollStep.isPoll) :
    (s.metasOf j).length<((Run.run PollSystem.step s ms).metasOf j).length := by
  induction ms generalizing s with
  | nil => cases hms
  | cons l ms ih =>
      rw [Run.run_cons]
      cases hl : l.isPoll with
      | false =>
          obtain ⟨hpos,hmetas,hreports⟩ := device_step s l hl
          have hsame := metasOf_congr _ _ hmetas j
          rw [List.countP_cons_of_neg (by rw [hl]; exact Bool.false_ne_true)] at hms
          rw [← hsame]
          refine ih (h.step l) ?_ (by rwa [hpos])
          rw [Complete,hsame]
          exact hc.trans_le (hreports j).length_le
      | true =>
          obtain rfl : l=.poll := by cases l <;> first | rfl | cases hl
          rw [List.countP_cons_of_pos hl] at hms
          rcases h.poll_closer j hj hc with hserved|⟨hc',hsame,hcloser⟩
          · exact hserved.trans_le (length_metasOf_run ..)
          · rw [← hsame]
            exact ih (h.step .poll) hc' (by omega)

end Inv

/-- Whatever arrives between the calls: none panics, the reports of a queue are returned in the
order of their arrival, a call returns a report if any queue holds a whole one, and a queue that
does is served by one of the next `n` calls. -/
theorem polled_fairly (n : Nat) (hn : 0<n) (ls : List PollStep) :
    let s := Run.run step (init n) ls
    s.panicked=false ∧
    (∀ j<n,(s.metasOf j).map some<+:(s.feeds j).reports.map MetaReport.toMeta) ∧
    ((∃ j<n,s.Complete j) → ∃ h x,s.handler.tryRecvMeta=some (h,some x)) ∧
    ∀ j<n,s.Complete j → ∀ ms : List PollStep,n ≤ ms.countP PollStep.isPoll →
      (s.metasOf j).length<((Run.run step s ms).metasOf j).length := by
  intro s
  have h : Inv n s := Run.run_inv_all step (Inv n) (fun _ l h => h.step l) _ ls (Inv.init_inv n hn)
  refine ⟨h.alive,?_,?_,?_⟩
  · intro j hj
    obtain ⟨ctx,hctx⟩ := h.exists_ctx j hj
    exact (h.queues j ctx hctx).order
  · rintro ⟨j,hj,hc⟩
    obtain ⟨i,hpick,-⟩ := h.pick_le j hj hc
    obtain ⟨ctx,x,-,hrecv⟩ := h.recv_some i hpick
    exact ⟨_,x,hrecv⟩
  · intro j hj hc ms hms
    exact h.served j hj hc ms ((RoundRobin.offset_lt n _ j hn).trans_le hms)

/-- A report of one descriptor, for a message of one packet. -/
def sendOnlyReport : MetaReport := ⟨((Vector.replicate 32 0).set! 30 4).set! 31 0x80,none⟩

/-- A report arrives at the second of two queues. -/
theorem polled_fairly_second :
    let s := Run.run step (init 2) [.arrive 1 sendOnlyReport (some 1)]
    s.Complete 1 ∧ (s.metasOf 1).length<((Run.run step s [.poll,.poll]).metasOf 1).length := by
  have hc : (Run.run step (init 2) [.arrive 1 sendOnlyReport (some 1)]).Complete 1 := by
    decide +kernel
  exact ⟨hc,(polled_fairly 2 (by decide) _).2.2.2 1 (by decide) hc [.poll,.poll] (by decide)⟩

end PollSystem
end BlueRdma

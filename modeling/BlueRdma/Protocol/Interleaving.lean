import BlueRdma.Math.Lists
import BlueRdma.Framework.Run
import BlueRdma.Workers.Completion

namespace BlueRdma
open QueuePairMessageTracker MessageTracker CompletionWorker

/-- A receive event, given by the positions its sequence numbers stand for. -/
structure RecvAt where
  op : RecvEventOp
  ackReq : Bool
  msnPos : Nat
  endPos : Nat

def RecvAt.event (r : RecvAt) : RecvEvent :=
  ⟨r.op,⟨Msn.wrap r.msnPos,Psn.wrap r.endPos⟩,r.ackReq⟩

/-- The two task streams that reach the completion worker for the receive direction. -/
inductive RecvTask
  | register (r : RecvAt)
  | ackRecv (pos : Nat)

/-- Registrations of a merge, in order. -/
def registrations (ls : List RecvTask) : List RecvAt :=
  ls.filterMap (fun | .register r => some r | .ackRecv _ => none)

/-- Acknowledgements of a merge, in order. -/
def recvAcks (ls : List RecvTask) : List Nat :=
  ls.filterMap (fun | .register _ => none | .ackRecv pos => some pos)

/-- The worker thread, with the positions of the left edge and of the events that are queued. -/
structure RecvRun where
  thread : Thread Msg QueuePairMessageTracker
  base : Nat
  queued : List RecvAt

namespace RecvRun

/-- A tracker with some events queued, buffers posted and responses waiting for reads. -/
def live (queued : List RecvAt) (base : Nat) (posts : List PostRecvEvent)
    (resps : List RecvEvent) : QueuePairMessageTracker where
  recv := ⟨queued.map RecvAt.event,Psn.wrap base⟩
  postRecvQueue := posts
  merge := {recvReadResp := resps}

/-- A fresh tracker with its left edge at `b` and buffers already posted. -/
def init (b : Nat) (posts : List PostRecvEvent) : RecvRun :=
  ⟨{state := some (live [] b posts [])},b,[]⟩

def task : RecvTask → CompletionTask
  | .register r => .register (.recv r.event)
  | .ackRecv pos => .ackRecv (Psn.wrap pos)

def reached (pos : Nat) (r : RecvAt) : Bool := decide (r.endPos≤pos)

def step (qp : QpAttr) (s : RecvRun) (l : RecvTask) : RecvRun where
  thread := s.thread.feed (process qp) (task l)
  base := match l with
    | .register _ => s.base
    | .ackRecv pos => pos
  queued := match l with
    | .register r => s.queued++[r]
    | .ackRecv pos => s.queued.dropWhile (reached pos)

/-- A live worker registers an event only while the event's end is ahead of the left edge. -/
def Ahead (s : RecvRun) : RecvTask → Prop
  | .register r => s.thread.state.isSome=true → s.base < r.endPos
  | .ackRecv _ => True

instance (s : RecvRun) (l : RecvTask) : Decidable (Ahead s l) :=
  match l with
  | .register r => inferInstanceAs (Decidable (s.thread.state.isSome=true → s.base < r.endPos))
  | .ackRecv _ => inferInstanceAs (Decidable True)

/-- A live worker compares only numbers that lie in one half of their space: the MSN of a new event
with the one queued last, the end of an event with the left edge, at its registration and at
every acknowledgement that finds it queued. -/
def Near (s : RecvRun) (l : RecvTask) : Prop :=
  s.thread.state.isSome=true → match l with
    | .register r => (∀ q∈s.queued.getLast?,r.msnPos<q.msnPos+2^15) ∧
        r.endPos < s.base+2^23 ∧ s.base < r.endPos+2^23
    | .ackRecv pos => ∀ q∈s.queued,pos<q.endPos+2^23

instance (s : RecvRun) (l : RecvTask) : Decidable (Near s l) :=
  match l with
  | .register r => inferInstanceAs (Decidable (s.thread.state.isSome=true →
      (∀ q∈s.queued.getLast?,r.msnPos<q.msnPos+2^15) ∧
        r.endPos < s.base+2^23 ∧ s.base < r.endPos+2^23))
  | .ackRecv pos => inferInstanceAs (Decidable (s.thread.state.isSome=true →
      ∀ q∈s.queued,pos<q.endPos+2^23))

/-- No event waits in the tracker although the left edge has reached its end. -/
def NothingDue (s : RecvRun) : Prop :=
  ∀ t∈s.thread.state,∀ e∈t.recv.inner,¬e.msgMeta.endPsn≤t.recv.basePsn

end RecvRun

/-- Increasing MSNs and end positions, and acknowledgements that do not move back. -/
structure Streams (b : Nat) (regs : List RecvAt) (acks : List Nat) : Prop where
  increasing : regs.Pairwise (fun r s => r.msnPos < s.msnPos ∧ r.endPos < s.endPos)
  monotone : (b::acks).Pairwise (·≤·)

/-- Events that have left the tracker and acknowledgements that are over no longer matter. -/
theorem Streams.suffix (b pos : Nat) (pre regs : List RecvAt) (acks : List Nat)
    (h : Streams b (pre++regs) (pos::acks)) : Streams pos regs acks where
  increasing := (List.pairwise_append.mp h.increasing).2.1
  monotone := (List.pairwise_cons.mp h.monotone).2

/-- Completing two blocks one after the other, a panic in the first hiding the second. -/
theorem completeAll_append (xs ys : List RecvEvent) (posts : List PostRecvEvent) :
    completeAll (xs++ys) posts=match completeAll xs posts with
      | (done,none) => (done,none)
      | (done,some posts) => (done++(completeAll ys posts).1,(completeAll ys posts).2) := by
  induction xs generalizing posts with
  | nil => rfl
  | cons x xs ih =>
      rw [List.cons_append,completeAll,completeAll]
      rcases complete x posts with _|⟨c,posts'⟩
      · rfl
      · dsimp only
        rw [ih]
        rcases completeAll xs posts' with ⟨done,_|posts''⟩ <;> rfl

namespace RecvRun

/-- Events of a block that are completed towards the receive queue. -/
def delivered (rs : List RecvAt) : List RecvEvent :=
  (rs.map RecvAt.event).filter (fun e => !e.isReadResp)

/-- Everything the worker sends for a block of due events. -/
def blockMsgs (rs : List RecvAt) (posts : List PostRecvEvent) : List Msg :=
  (completeAll (delivered rs) posts).1.flatMap (fun p => recvMsgs p.1 p.2)

theorem delivered_append (rs ss : List RecvAt) : delivered (rs++ss)=delivered rs++delivered ss := by
  rw [delivered,List.map_append,List.filter_append]
  rfl

/-- The block that an acknowledgement at `pos` releases. -/
def block (pos : Nat) (rs : List RecvAt) : List RecvAt := rs.takeWhile (reached pos)

theorem block_split (pos last : Nat) (hle : pos≤last) (rs ss : List RecvAt) :
    block last (rs++ss)=
      block pos rs++block last (rs.dropWhile (reached pos)++ss) := by
  have hrs : rs++ss=block pos rs++(rs.dropWhile (reached pos)++ss) := by
    rw [← List.append_assoc,block,List.takeWhile_append_dropWhile]
  rw [hrs,block,List.takeWhile_append_of_pos]
  · rfl
  · intro r hr
    have hreached : reached pos r=true := List.mem_takeWhile_imp hr
    exact decide_eq_true ((of_decide_eq_true hreached).trans hle)

/-- What stays behind lies ahead of the acknowledgement. -/
theorem ahead_of_dropWhile (pos : Nat) (rs : List RecvAt)
    (h : rs.Pairwise (fun r s => r.msnPos < s.msnPos ∧ r.endPos < s.endPos)) :
    ∀ r∈rs.dropWhile (reached pos),pos < r.endPos :=
  Lists.lt_of_mem_dropWhile RecvAt.endPos (reached pos) pos rs (h.imp And.right)
    (fun _ _ hr => decide_eq_true hr)

theorem blockMsgs_append (rs ss : List RecvAt) (posts : List PostRecvEvent) :
    blockMsgs (rs++ss) posts=match (completeAll (delivered rs) posts).2 with
      | none => blockMsgs rs posts
      | some posts' => blockMsgs rs posts++blockMsgs ss posts' := by
  rw [blockMsgs,delivered_append,completeAll_append,blockMsgs]
  rcases completeAll (delivered rs) posts with ⟨done,_|posts'⟩
  · rfl
  · exact List.flatMap_append

theorem due_event (pos : Nat) (r : RecvAt) (h : r.endPos<pos+2^23 ∧ pos < r.endPos+2^23) :
    due (Psn.wrap pos) r.event=reached pos r :=
  decide_eq_decide.mpr (Psn.wrap_le r.endPos pos h.1 h.2)

/-- A live worker with some events queued, and their positions. -/
def running (queued : List RecvAt) (base : Nat) (posts : List PostRecvEvent)
    (resps : List RecvEvent) (out : List Msg) : RecvRun :=
  ⟨⟨some (live queued base posts resps),out⟩,base,queued⟩

/-- The queued events end ahead of the left edge, by less than half the PSN space. -/
def InWindow (base : Nat) (queued : List RecvAt) : Prop :=
  ∀ q∈queued,base<q.endPos ∧ q.endPos<base+2^23

theorem InWindow.register (base : Nat) (queued : List RecvAt) (r : RecvAt)
    (h : InWindow base queued) (hr : base < r.endPos ∧ r.endPos<base+2^23) :
    InWindow base (queued++[r]) := by
  intro q hq
  rcases List.mem_append.mp hq with hq|hq
  · exact h q hq
  · rw [List.mem_singleton.mp hq]
    exact hr

theorem step_register (qp : QpAttr) (queued : List RecvAt) (base : Nat)
    (posts : List PostRecvEvent) (resps : List RecvEvent) (out : List Msg) (r : RecvAt)
    (h : ∀ q∈queued.getLast?,q.msnPos < r.msnPos ∧ r.msnPos<q.msnPos+2^15) :
    step qp (running queued base posts resps out) (.register r)=
      running (queued++[r]) base posts resps out := by
  have happ : (live queued base posts resps).recv.append r.event=
      (live (queued++[r]) base posts resps).recv := by
    rw [append_last]
    · simp [live]
    · intro e he
      change (queued.map RecvAt.event).getLast?=some e at he
      rw [List.getLast?_map] at he
      obtain ⟨q,hq,rfl⟩ := Option.map_eq_some_iff.mp he
      obtain ⟨h1,h2⟩ := h q hq
      exact (Msn.wrap_lt q.msnPos r.msnPos (by omega) h2).mpr h1
  simp only [step,running,Thread.feed,task,process,List.append_nil,QueuePairMessageTracker.append,
    happ]
  rfl

/-- The event registered next is ahead of the one queued last in the serial order of MSNs. -/
theorem msn_of_near (b : Nat) (queued : List RecvAt) (r : RecvAt) (regs : List RecvAt)
    (acks : List Nat) (h : Streams b (queued++r::regs) acks)
    (hnear : ∀ q∈queued.getLast?,r.msnPos<q.msnPos+2^15) :
    ∀ q∈queued.getLast?,q.msnPos < r.msnPos ∧ r.msnPos<q.msnPos+2^15 := by
  intro q hq
  have hlt := (List.pairwise_append.mp h.increasing).2.2 q (List.mem_of_getLast? hq) r
    (List.mem_cons_self ..)
  exact ⟨hlt.1,hnear q hq⟩

/-- An acknowledgement that does not move back leaves both serial comparisons in range. -/
theorem InWindow.near (b pos : Nat) (queued regs : List RecvAt) (acks : List Nat)
    (h : Streams b (queued++regs) (pos::acks)) (hq : InWindow b queued)
    (hnear : ∀ q∈queued,pos<q.endPos+2^23) :
    ∀ q∈queued,q.endPos<pos+2^23 ∧ pos<q.endPos+2^23 := by
  intro q hmem
  have hle : b≤pos := (List.pairwise_cons.mp h.monotone).1 pos (List.mem_cons_self ..)
  have := (hq q hmem).2
  exact ⟨by omega,hnear q hmem⟩

theorem step_ackRecv (qp : QpAttr) (cq cq' : UInt32) (hs : getCq qp.sendCq=some cq)
    (hr : getCq qp.recvCq=some cq') (queued : List RecvAt) (base pos : Nat)
    (posts : List PostRecvEvent) (resps : List RecvEvent) (out : List Msg)
    (h : ∀ r∈queued,r.endPos<pos+2^23 ∧ pos < r.endPos+2^23) :
    ∃ resps',step qp (running queued base posts resps out) (.ackRecv pos)=
      ⟨⟨(completeAll (delivered (block pos queued)) posts).2.map (fun posts =>
          live (queued.dropWhile (reached pos)) pos posts resps'),
        out++blockMsgs (block pos queued) posts⟩,pos,queued.dropWhile (reached pos)⟩ := by
  obtain ⟨es,rest,hsplit,-,hproc⟩ :=
    process_ackRecv qp (live queued base posts resps) (Psn.wrap pos) cq cq' hs hr
  obtain ⟨rfl,rfl⟩ := List.append_eq_nil_iff.mp hsplit.symm
  obtain ⟨htake,hdrop⟩ := Lists.takeWhile_congr (due (Psn.wrap pos) ∘ RecvAt.event)
    (reached pos) queued (fun r hr => due_event pos r (h r hr))
  have harr : arrivals (live queued base posts resps) (Psn.wrap pos)=
      delivered (block pos queued) := by
    rw [arrivals,live,List.takeWhile_map,htake]
    rfl
  refine ⟨responses (live queued base posts resps) (Psn.wrap pos),?_⟩
  simp only [step,running,Thread.feed,task]
  rw [hproc,harr]
  simp only [live,List.dropWhile_map,hdrop]
  rfl

/-- What stays behind an acknowledgement is still in its window. -/
theorem InWindow.ackRecv (b pos : Nat) (queued regs : List RecvAt) (acks : List Nat)
    (h : Streams b (queued++regs) (pos::acks)) (hq : InWindow b queued) :
    InWindow pos (queued.dropWhile (reached pos)) := by
  intro q hmem
  have hle : b≤pos := (List.pairwise_cons.mp h.monotone).1 pos (List.mem_cons_self ..)
  have := (hq q (List.dropWhile_subset _ hmem)).2
  exact ⟨ahead_of_dropWhile pos queued (List.pairwise_append.mp h.increasing).1 q hmem,by omega⟩

theorem streams_ackRecv (b pos : Nat) (queued regs : List RecvAt) (acks : List Nat)
    (h : Streams b (queued++regs) (pos::acks)) :
    Streams pos (queued.dropWhile (reached pos)++regs) acks := by
  apply Streams.suffix b pos (block pos queued)
  rwa [← List.append_assoc,block,List.takeWhile_append_dropWhile]

theorem run_dead (qp : QpAttr) (ls : List RecvTask) (out : List Msg) (base : Nat)
    (queued : List RecvAt) : (Run.run (step qp) ⟨⟨none,out⟩,base,queued⟩ ls).thread=⟨none,out⟩ := by
  induction ls generalizing base queued with
  | nil => rfl
  | cons l ls ih => exact ih _ _

/-- What a merge whose registrations come in time sends depends on the two streams only. -/
theorem run_out (qp : QpAttr) (cq cq' : UInt32) (hs : getCq qp.sendCq=some cq)
    (hr : getCq qp.recvCq=some cq') (ls : List RecvTask) (queued : List RecvAt) (base : Nat)
    (posts : List PostRecvEvent) (resps : List RecvEvent) (out : List Msg)
    (h : Streams base (queued++registrations ls) (recvAcks ls)) (hq : InWindow base queued)
    (hnear : Run.Along (step qp) Near (running queued base posts resps out) ls)
    (hls : Run.Along (step qp) Ahead (running queued base posts resps out) ls) :
    (Run.run (step qp) (running queued base posts resps out) ls).thread.out=
      out++blockMsgs (block ((recvAcks ls).getLastD base) (queued++registrations ls)) posts := by
  induction ls generalizing queued base posts resps out with
  | nil =>
      have hnone : block base (queued++[])=[] := by
        rw [List.append_nil,block]
        cases queued with
        | nil => rfl
        | cons q queued =>
            have := (hq q (List.mem_cons_self ..)).1
            rw [List.takeWhile_cons_of_neg (by simpa [reached] using this)]
      change out=out++blockMsgs (block base (queued++[])) posts
      rw [hnone,blockMsgs]
      exact (List.append_nil out).symm
  | cons l ls ih =>
      have hnext := hnear.1 rfl
      have hnear' := hnear.2
      have hrest := hls.2
      rw [Run.run_cons]
      cases l with
      | register r =>
          change Streams base (queued++r::registrations ls) (recvAcks ls) at h
          have hstep := step_register qp queued base posts resps out r
            (msn_of_near base queued r _ _ h hnext.1)
          rw [hstep] at hrest hnear' ⊢
          change _=out++blockMsgs (block ((recvAcks ls).getLastD base)
            (queued++r::registrations ls)) posts
          rw [List.append_cons queued r (registrations ls)] at h ⊢
          exact ih (queued++[r]) base posts resps out h
            (hq.register base queued r ⟨hls.1 rfl,hnext.2.1⟩) hnear' hrest
      | ackRecv pos =>
          change Streams base (queued++registrations ls) (pos::recvAcks ls) at h
          have hle : pos≤(recvAcks ls).getLastD pos :=
            Lists.le_getLastD pos _ (List.pairwise_cons.mp h.monotone).2
          obtain ⟨resps',hstep⟩ := step_ackRecv qp cq cq' hs hr queued base pos posts resps out
            (hq.near base pos queued _ _ h hnext)
          rw [hstep] at hrest hnear' ⊢
          change _=out++blockMsgs (block ((pos::recvAcks ls).getLastD base)
            (queued++registrations ls)) posts
          rw [List.getLastD_cons,block_split pos _ hle,blockMsgs_append]
          rcases hc : (completeAll (delivered (block pos queued)) posts).2 with _|posts'
          · rw [Option.map_none,run_dead]
          · rw [hc,Option.map_some] at hrest hnear'
            rw [Option.map_some,← List.append_assoc]
            exact ih _ pos posts' resps' _ (streams_ackRecv base pos queued _ _ h)
              (hq.ackRecv base pos queued _ _ h) hnear' hrest

/-- Without its completion queues the worker panics at the first acknowledgement. -/
theorem step_ackRecv_panic (qp : QpAttr) (h : getCq qp.sendCq=none ∨ getCq qp.recvCq=none)
    (s : RecvRun) (pos : Nat) :
    step qp s (.ackRecv pos)=⟨⟨none,s.thread.out⟩,pos,s.queued.dropWhile (reached pos)⟩ := by
  obtain ⟨⟨_|t,out⟩,base,queued⟩ := s
  · rfl
  · have hproc : process qp t (.ackRecv (Psn.wrap pos))=⟨[],none⟩ := by
      rw [process]
      rcases h with h|h <;> rw [h]
      cases getCq qp.sendCq <;> rfl
    simp only [step,Thread.feed,task,hproc,List.append_nil]

theorem run_out_panic (qp : QpAttr) (h : getCq qp.sendCq=none ∨ getCq qp.recvCq=none)
    (s : RecvRun) (ls : List RecvTask) : (Run.run (step qp) s ls).thread.out=s.thread.out := by
  induction ls generalizing s with
  | nil => rfl
  | cons l ls ih =>
      rw [Run.run_cons,ih]
      cases l with
      | ackRecv pos => rw [step_ackRecv_panic qp h]
      | register r =>
          obtain ⟨⟨_|t,out⟩,base,queued⟩ := s
          · rfl
          · exact List.append_nil out

theorem nothingDue_running (queued : List RecvAt) (base : Nat) (posts : List PostRecvEvent)
    (resps : List RecvEvent) (out : List Msg)
    (h : ∀ r∈queued,r.endPos<base+2^23 ∧ base < r.endPos+2^23) :
    NothingDue (running queued base posts resps out) ↔ ∀ r∈queued,base < r.endPos := by
  have hkey : ∀ r∈queued,(¬r.event.msgMeta.endPsn≤Psn.wrap base ↔ base < r.endPos) := by
    intro r hr
    obtain ⟨h1,h2⟩ := h r hr
    exact (Psn.wrap_le r.endPos base h1 h2).not.trans not_le
  constructor
  · intro hdue r hr
    exact (hkey r hr).mp (hdue _ rfl _ (List.mem_map_of_mem hr))
  · intro hall t ht e he
    obtain rfl := Option.some.inj ht
    obtain ⟨r,hr,rfl⟩ := List.mem_map.mp he
    exact (hkey r hr).mpr (hall r hr)

/-- A registration leaves nothing due exactly if it comes in time. -/
theorem nothingDue_register (queued : List RecvAt) (base : Nat) (posts : List PostRecvEvent)
    (resps : List RecvEvent) (out : List Msg) (r : RecvAt) (hq : InWindow base queued)
    (hr : r.endPos<base+2^23 ∧ base < r.endPos+2^23) :
    NothingDue (running (queued++[r]) base posts resps out) ↔ base < r.endPos := by
  have hwindow : ∀ q∈queued++[r],q.endPos<base+2^23 ∧ base<q.endPos+2^23 := by
    intro q hmem
    rcases List.mem_append.mp hmem with hmem|hmem
    · have := hq q hmem
      omega
    · rw [List.mem_singleton.mp hmem]
      exact hr
  rw [nothingDue_running (queued++[r]) base posts resps out hwindow]
  constructor
  · exact fun hall => hall r (List.mem_append_right _ (List.mem_singleton_self r))
  · exact fun hlt q hmem => (hq.register base queued r ⟨hlt,hr.1⟩ q hmem).1

theorem along_dead (qp : QpAttr) (P : RecvRun → RecvTask → Prop)
    (hP : ∀ s l,s.thread.state=none → P s l) (ls : List RecvTask) (s : RecvRun)
    (hs : s.thread.state=none) : Run.Along (step qp) P s ls := by
  induction ls generalizing s with
  | nil => trivial
  | cons l ls ih =>
      refine ⟨hP s l hs,ih _ ?_⟩
      simp only [step,Thread.feed,hs]

theorem nothingDue_dead (s : RecvRun) (hs : s.thread.state=none) : NothingDue s := by
  intro t ht
  rw [hs] at ht
  cases ht

theorem along_both_dead (qp : QpAttr) (ls : List RecvTask) (s : RecvRun)
    (hs : s.thread.state=none) :
    Run.Along (step qp) (fun s l => NothingDue (step qp s l)) s ls ↔
      Run.Along (step qp) Ahead s ls := by
  refine iff_of_true (along_dead qp _ ?_ ls s hs) (along_dead qp _ ?_ ls s hs)
  · intro s l hs
    apply nothingDue_dead
    simp only [step,Thread.feed,hs]
  · intro s l hs
    cases l with
    | register r =>
        intro h
        rw [hs] at h
        cases h
    | ackRecv pos => trivial

/-- Nothing due stays queued after any task exactly if every registration comes in time. -/
theorem along_iff (qp : QpAttr) (ls : List RecvTask) (queued : List RecvAt) (base : Nat)
    (posts : List PostRecvEvent) (resps : List RecvEvent) (out : List Msg)
    (h : Streams base (queued++registrations ls) (recvAcks ls)) (hq : InWindow base queued)
    (hnear : Run.Along (step qp) Near (running queued base posts resps out) ls) :
    Run.Along (step qp) (fun s l => NothingDue (step qp s l))
        (running queued base posts resps out) ls ↔
      Run.Along (step qp) Ahead (running queued base posts resps out) ls := by
  induction ls generalizing queued base posts resps out with
  | nil => exact Iff.rfl
  | cons l ls ih =>
      have hnext := hnear.1 rfl
      have hnear' := hnear.2
      rw [Run.Along,Run.Along]
      cases l with
      | register r =>
          change Streams base (queued++r::registrations ls) (recvAcks ls) at h
          have hstep := step_register qp queued base posts resps out r
            (msn_of_near base queued r _ _ h hnext.1)
          have hahead : Ahead (running queued base posts resps out) (.register r) ↔
              base < r.endPos := forall_prop_of_true rfl
          rw [List.append_cons queued r (registrations ls)] at h
          rw [hstep] at hnear' ⊢
          rw [nothingDue_register queued base posts resps out r hq hnext.2,hahead]
          exact and_congr_right (fun hlt => ih (queued++[r]) base posts resps out h
            (hq.register base queued r ⟨hlt,hnext.2.1⟩) hnear')
      | ackRecv pos =>
          change Streams base (queued++registrations ls) (pos::recvAcks ls) at h
          have htrue : ∀ s,Ahead s (.ackRecv pos) ↔ True := fun _ => Iff.rfl
          rw [htrue,true_and]
          rcases hs : getCq qp.sendCq with _|cq
          · rw [step_ackRecv_panic qp (Or.inl hs),along_both_dead _ _ _ rfl]
            exact and_iff_right (nothingDue_dead _ rfl)
          rcases hr : getCq qp.recvCq with _|cq'
          · rw [step_ackRecv_panic qp (Or.inr hr),along_both_dead _ _ _ rfl]
            exact and_iff_right (nothingDue_dead _ rfl)
          have hwindow := hq.near base pos queued _ _ h hnext
          have hrest := hq.ackRecv base pos queued _ _ h
          obtain ⟨resps',hstep⟩ :=
            step_ackRecv qp cq cq' hs hr queued base pos posts resps out hwindow
          rw [hstep] at hnear' ⊢
          rcases hc : (completeAll (delivered (block pos queued)) posts).2 with _|posts'
          · rw [Option.map_none,along_both_dead _ _ _ rfl]
            exact and_iff_right (nothingDue_dead _ rfl)
          · rw [hc,Option.map_some] at hnear'
            rw [Option.map_some]
            have hdue := nothingDue_running (queued.dropWhile (reached pos)) pos posts' resps'
              (out++blockMsgs (block pos queued) posts)
              (fun r hr => hwindow r (List.dropWhile_subset _ hr))
            have hrun := ih _ pos posts' resps' _ (streams_ackRecv base pos queued _ _ h) hrest
              hnear'
            exact (and_iff_right (hdue.mpr (fun q hmem => (hrest q hmem).1))).trans hrun

def run (qp : QpAttr) (b : Nat) (posts : List PostRecvEvent) (ls : List RecvTask) : RecvRun :=
  Run.run (step qp) (init b posts) ls

end RecvRun

/-- Along a merge no event is left behind exactly if every registration is processed while its
end is ahead of the left edge, and all such merges of two streams send the same. The streams may
be of any length: what the serial comparisons ask for concerns only the events that are queued
when a task is processed. -/
theorem recv_interleaving (qp : QpAttr) (b : Nat) (posts : List PostRecvEvent) :
    (∀ ls,Streams b (registrations ls) (recvAcks ls) →
      Run.Along (RecvRun.step qp) RecvRun.Near (RecvRun.init b posts) ls →
      (Run.Along (RecvRun.step qp) (fun s l => RecvRun.NothingDue (RecvRun.step qp s l))
          (RecvRun.init b posts) ls ↔
        Run.Along (RecvRun.step qp) RecvRun.Ahead (RecvRun.init b posts) ls)) ∧
    ∀ ls ls',Streams b (registrations ls) (recvAcks ls) →
      registrations ls=registrations ls' → recvAcks ls=recvAcks ls' →
      Run.Along (RecvRun.step qp) RecvRun.Near (RecvRun.init b posts) ls →
      Run.Along (RecvRun.step qp) RecvRun.Near (RecvRun.init b posts) ls' →
      Run.Along (RecvRun.step qp) RecvRun.Ahead (RecvRun.init b posts) ls →
      Run.Along (RecvRun.step qp) RecvRun.Ahead (RecvRun.init b posts) ls' →
      recvPolls (RecvRun.run qp b posts ls).thread.out=
          recvPolls (RecvRun.run qp b posts ls').thread.out ∧
        ackResponses (RecvRun.run qp b posts ls).thread.out=
          ackResponses (RecvRun.run qp b posts ls').thread.out := by
  have hempty : RecvRun.InWindow b [] := fun _ hq => nomatch hq
  refine ⟨fun ls h => RecvRun.along_iff qp ls [] b posts [] [] h hempty,?_⟩
  intro ls ls' h hregs hacks hnear hnear' hls hls'
  have hout : (RecvRun.run qp b posts ls).thread.out=(RecvRun.run qp b posts ls').thread.out := by
    rcases hs : getCq qp.sendCq with _|cq
    · exact (RecvRun.run_out_panic qp (Or.inl hs) _ ls).trans
        (RecvRun.run_out_panic qp (Or.inl hs) _ ls').symm
    rcases hr : getCq qp.recvCq with _|cq'
    · exact (RecvRun.run_out_panic qp (Or.inr hr) _ ls).trans
        (RecvRun.run_out_panic qp (Or.inr hr) _ ls').symm
    have hout := RecvRun.run_out qp cq cq' hs hr ls [] b posts [] [] h hempty hnear hls
    have hout' := RecvRun.run_out qp cq cq' hs hr ls' [] b posts [] []
      (by rw [← hregs,← hacks]; exact h) hempty hnear' hls'
    rw [← hregs,← hacks] at hout'
    exact hout.trans hout'.symm
  rw [hout]
  exact ⟨rfl,rfl⟩

/-- One-packet writes that ask for an acknowledgement. The second MSN is more than half the space
past the first. -/
def firstWrite : RecvAt := ⟨.write,true,0,1⟩
def secondWrite : RecvAt := ⟨.write,true,40000,2⟩
def thirdWrite : RecvAt := ⟨.write,true,40001,3⟩

theorem recv_interleaving_two_merges :
    Run.Along (RecvRun.step shortPathQp)
      (fun s l => RecvRun.NothingDue (RecvRun.step shortPathQp s l)) (RecvRun.init 0 [])
      [.register firstWrite,.ackRecv 1,.register secondWrite,.ackRecv 2,.register thirdWrite,
        .ackRecv 3] ∧
    ackResponses (RecvRun.run shortPathQp 0 []
      [.register firstWrite,.ackRecv 1,.register secondWrite,.ackRecv 2,.register thirdWrite,
        .ackRecv 3]).thread.out=
      ackResponses (RecvRun.run shortPathQp 0 []
        [.register firstWrite,.ackRecv 1,.register secondWrite,.register thirdWrite,.ackRecv 2,
          .ackRecv 3]).thread.out :=
  ⟨((recv_interleaving shortPathQp 0 []).1
      [.register firstWrite,.ackRecv 1,.register secondWrite,.ackRecv 2,.register thirdWrite,
        .ackRecv 3] ⟨by decide,by decide⟩ (by decide)).mpr (by decide),
    ((recv_interleaving shortPathQp 0 []).2
      [.register firstWrite,.ackRecv 1,.register secondWrite,.ackRecv 2,.register thirdWrite,
        .ackRecv 3]
      [.register firstWrite,.ackRecv 1,.register secondWrite,.register thirdWrite,.ackRecv 2,
        .ackRecv 3]
      ⟨by decide,by decide⟩ rfl rfl (by decide) (by decide) (by decide) (by decide)).2⟩

/-- An acknowledgement that overtakes the registration it covers: the event stays queued although
it is due, and the acknowledgement the other merge sends never goes out. -/
theorem late_registration_lost :
    Streams 0 [firstWrite] [1] ∧
    registrations [.register firstWrite,.ackRecv 1]=[firstWrite] ∧
    registrations [.ackRecv 1,.register firstWrite]=[firstWrite] ∧
    ackResponses (RecvRun.run shortPathQp 0 [] [.register firstWrite,.ackRecv 1]).thread.out≠
      ackResponses (RecvRun.run shortPathQp 0 [] [.ackRecv 1,.register firstWrite]).thread.out ∧
    ¬RecvRun.NothingDue (RecvRun.run shortPathQp 0 [] [.ackRecv 1,.register firstWrite]) :=
  ⟨⟨by decide,by decide⟩,rfl,rfl,by decide,fun h =>
    h _ rfl firstWrite.event (List.mem_singleton_self _) (by decide)⟩

end BlueRdma

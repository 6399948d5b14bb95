import BlueRdma.Framework.Run
import BlueRdma.Workers.Completion

namespace BlueRdma
open QueuePairMessageTracker MessageTracker CompletionWorker

/-- Tasks of one QP as its completion worker sees them. Send events and acknowledgements of
the send direction carry positions in the unbounded PSN stream. -/
inductive SendTask
  | registerSend (op : SendEventOp) (wrId : UInt64) (endPos : Nat)
  | ackSend (pos : Nat)
  | registerRecv (e : RecvEvent)
  | postRecv (e : PostRecvEvent)
  | ackRecv (basePsn : Psn)

/-- The worker thread, and what has been registered, acknowledged and answered so far. -/
structure SendRun where
  thread : Thread Msg QueuePairMessageTracker
  registered : List (SendEvent × Nat) := []
  acks : List Nat := []
  resps : Nat := 0

namespace SendRun

/-- A fresh tracker whose left edge is at position `b`. -/
def init (b : Nat) : SendRun where
  thread := {state := some {send := {basePsn := Psn.wrap b}}}

/-- Position of the latest acknowledgement. -/
def base (b : Nat) (s : SendRun) : Nat := s.acks.headD b

/-- The next send event: MSNs are handed out consecutively from `m` on. -/
def event (m : Nat) (s : SendRun) (op : SendEventOp) (wrId : UInt64) (endPos : Nat) : SendEvent :=
  ⟨op,⟨Msn.wrap (m+s.registered.length),Psn.wrap endPos⟩,wrId⟩

def task (m : Nat) (s : SendRun) : SendTask → CompletionTask
  | .registerSend op wrId endPos => .register (.send (s.event m op wrId endPos))
  | .ackSend pos => .ackSend (Psn.wrap pos)
  | .registerRecv e => .register (.recv e)
  | .postRecv e => .register (.postRecv e)
  | .ackRecv basePsn => .ackRecv basePsn

/-- The worker processes one task, unless it has died. -/
def step (qp : QpAttr) (m : Nat) (s : SendRun) (l : SendTask) : SendRun :=
  match s.thread.state with
  | none => s
  | some t =>
    { thread := s.thread.feed (process qp) (s.task m l)
      registered := match l with
        | .registerSend op wrId endPos => s.registered++[(s.event m op wrId endPos,endPos)]
        | _ => s.registered
      acks := match l with
        | .ackSend pos => pos::s.acks
        | _ => s.acks
      resps := s.resps+readRespsPopped qp t (s.task m l) }

/-- An event ends strictly ahead of the left edge by fewer than half the PSN space, and
acknowledgements do not move backwards. -/
def Allowed (b : Nat) (s : SendRun) : SendTask → Prop
  | .registerSend _ _ endPos => s.base b<endPos ∧ endPos < s.base b+2^23
  | .ackSend pos => s.base b≤pos
  | _ => True

instance (b : Nat) (s : SendRun) (l : SendTask) : Decidable (Allowed b s l) :=
  match l with
  | .registerSend _ _ endPos =>
      inferInstanceAs (Decidable (s.base b<endPos ∧ endPos < s.base b+2^23))
  | .ackSend pos => inferInstanceAs (Decidable (s.base b≤pos))
  | .registerRecv _ => inferInstanceAs (Decidable True)
  | .postRecv _ => inferInstanceAs (Decidable True)
  | .ackRecv _ => inferInstanceAs (Decidable True)

/-- The registered events are the pushed ones, then those in the merge queue, then those in
the tracker. -/
structure Split (m b : Nat) (s : SendRun) (done merged queued : List (SendEvent × Nat)) :
    Prop where
  registered : s.registered=done++merged++queued
  pushed : sendPushes s.thread.out=done.map (fun r => (r.1,r.1.completion))
  acked : ∀ r∈done++merged,∃ pos∈s.acks,r.2≤pos
  near : ∀ r∈queued,r.1.msgMeta.endPsn=Psn.wrap r.2 ∧ r.2 < s.base b+2^23
  msn : ∀ r∈queued.getLast?,r.1.msgMeta.msn=Msn.wrap (m+s.registered.length-1)
  answered : reads (done.map Prod.fst) ≤ s.resps
  live : ∀ t,s.thread.state=some t →
    t.merge.send=merged.map Prod.fst ∧ t.send=⟨queued.map Prod.fst,Psn.wrap (s.base b)⟩ ∧
    reads (done.map Prod.fst)+t.merge.recvReadResp.length=s.resps

def Inv (m b : Nat) (s : SendRun) : Prop := ∃ done merged queued,Split m b s done merged queued

theorem init_inv (m b : Nat) : Inv m b (init b) :=
  ⟨[],[],[],rfl,rfl,by simp,by simp,by simp,le_rfl,fun t ht => by
    obtain rfl := Option.some.inj ht
    exact ⟨rfl,rfl,rfl⟩⟩

theorem step_registerSend (qp : QpAttr) (m b : Nat) (s : SendRun) (t : QueuePairMessageTracker)
    (ht : s.thread.state=some t) (op : SendEventOp) (wrId : UInt64) (endPos : Nat)
    (hl : Allowed b s (.registerSend op wrId endPos)) (h : Inv m b s) :
    Inv m b (s.step qp m (.registerSend op wrId endPos)) := by
  obtain ⟨done,merged,queued,h⟩ := h
  obtain ⟨hmerge,hsend,hresp⟩ := h.live t ht
  set r : SendEvent × Nat := (s.event m op wrId endPos,endPos)
  have happend : t.send.append r.1=⟨(queued++[r]).map Prod.fst,Psn.wrap (s.base b)⟩ := by
    rw [append_last,hsend,List.map_append]
    · rfl
    · intro e he
      rw [hsend,List.getLast?_map] at he
      obtain ⟨q,hq,rfl⟩ := Option.map_eq_some_iff.mp he
      have hpos : 0 < s.registered.length := by
        rw [h.registered,List.length_append]
        have := List.length_pos_of_mem (List.mem_of_getLast? hq)
        omega
      change Msn.mk q.1.msgMeta.msn<Msn.mk (Msn.wrap (m+s.registered.length))
      rw [h.msn q hq,Msn.wrap_lt _ _ (by omega) (by omega)]
      omega
  have hstep : (s.step qp m (.registerSend op wrId endPos))=
      {s with thread := ⟨some {t with send := t.send.append r.1},s.thread.out⟩
              registered := s.registered++[r]} := by
    simp [step,task,Thread.feed,ht,process,readRespsPopped,QueuePairMessageTracker.append,r]
  rw [hstep]
  refine ⟨done,merged,queued++[r],?_,h.pushed,h.acked,?_,?_,h.answered,?_⟩
  · rw [h.registered,List.append_assoc]
  · intro q hq
    rcases List.mem_append.mp hq with hq|hq
    · exact h.near q hq
    · rw [List.mem_singleton.mp hq]
      exact ⟨rfl,hl.2⟩
  · intro q hq
    rw [List.getLast?_concat] at hq
    obtain rfl := Option.some.inj hq
    change Msn.wrap (m+s.registered.length)=_
    rw [List.length_append]
    rfl
  · intro t' ht'
    obtain rfl := Option.some.inj ht'
    exact ⟨hmerge,happend,hresp⟩

/-- Tasks of the receive direction that leave send tracker and merge queue alone. -/
theorem frame_inv (m b : Nat) (s : SendRun) (t t' : QueuePairMessageTracker)
    (hsend : t'.send=t.send) (hmerge : t'.merge=t.merge) (ht : s.thread.state=some t)
    (h : Inv m b s) : Inv m b {s with thread := ⟨some t',s.thread.out⟩} := by
  obtain ⟨done,merged,queued,h⟩ := h
  refine ⟨done,merged,queued,h.registered,h.pushed,h.acked,h.near,h.msn,h.answered,?_⟩
  intro t'' ht''
  obtain rfl := Option.some.inj ht''
  rw [hsend,hmerge]
  exact h.live t ht

theorem step_ackSend (qp : QpAttr) (m b : Nat) (s : SendRun) (t : QueuePairMessageTracker)
    (ht : s.thread.state=some t) (pos : Nat) (hl : Allowed b s (.ackSend pos)) (h : Inv m b s) :
    Inv m b (s.step qp m (.ackSend pos)) := by
  obtain ⟨done,merged,queued,h⟩ := h
  obtain ⟨hmerge,hsend,hresp⟩ := h.live t ht
  have hstep : s.step qp m (.ackSend pos)={s with
      thread := ⟨(process qp t (.ackSend (Psn.wrap pos))).next,
        s.thread.out++(process qp t (.ackSend (Psn.wrap pos))).msgs⟩
      acks := pos::s.acks} := by
    simp only [step,ht,Thread.feed,task,readRespsPopped,Nat.add_zero]
  have hnear : ∀ r∈queued,r.1.msgMeta.endPsn=Psn.wrap r.2 ∧ r.2<pos+2^23 := by
    intro r hr
    obtain ⟨he,hlt⟩ := h.near r hr
    exact ⟨he,by have : s.base b≤pos := hl; omega⟩
  have hacked : ∀ r∈done++merged,∃ q∈pos::s.acks,r.2≤q := by
    intro r hr
    obtain ⟨q,hq,hle⟩ := h.acked r hr
    exact ⟨q,List.mem_cons_of_mem _ hq,hle⟩
  rw [hstep]
  rcases process_ackSend_cases qp t (Psn.wrap pos) with hproc|⟨es,rest,hsplit,⟨hreads,-⟩,hproc⟩
  · -- The worker panics before it touches the tracker.
    rw [hproc,List.append_nil]
    exact ⟨done,merged,queued,h.registered,h.pushed,hacked,hnear,h.msn,h.answered,
      fun t ht => by cases ht⟩
  · set p : SendEvent × Nat → Bool := due (Psn.wrap pos) ∘ Prod.fst
    rw [hmerge,hsend,List.takeWhile_map,← List.map_append] at hsplit
    obtain ⟨l₁,l₂,hl,rfl,rfl⟩ := List.map_eq_append_iff.mp hsplit
    have hqueued : queued=queued.takeWhile p++queued.dropWhile p :=
      List.takeWhile_append_dropWhile.symm
    rw [hproc]
    refine ⟨done++l₁,l₂,queued.dropWhile p,?_,?_,?_,?_,?_,?_,?_⟩
    · rw [List.append_assoc done,← hl,h.registered,List.append_assoc,List.append_assoc,
        List.append_assoc,← hqueued]
    · rw [sendPushes_append,h.pushed,sendPushes_sends,List.map_append,List.map_map]
      rfl
    · intro r hr
      rw [List.append_assoc,← hl,← List.append_assoc] at hr
      rcases List.mem_append.mp hr with hr|hr
      · exact hacked r hr
      · obtain ⟨he,hlt⟩ := hnear r (List.takeWhile_subset p hr)
        have hdue : p r=true := List.mem_takeWhile_imp hr
        have hle := of_decide_eq_true hdue
        change r.1.msgMeta.endPsn≤Psn.wrap pos at hle
        rw [he] at hle
        exact ⟨pos,List.mem_cons_self ..,Psn.le_of_wrap_le _ _ hlt.le hle⟩
    · intro r hr
      exact hnear r (List.dropWhile_subset p hr)
    · intro r hr
      apply h.msn
      rw [hqueued,List.getLast?_append,Option.mem_def.mp hr]
      rfl
    · rw [List.map_append,reads_append]
      dsimp only
      omega
    · intro t' ht'
      obtain rfl := Option.some.inj ht'
      refine ⟨rfl,?_,?_⟩
      · rw [hsend,List.dropWhile_map]
        rfl
      · rw [List.map_append,reads_append,List.length_drop]
        dsimp only
        omega

theorem step_ackRecv (qp : QpAttr) (m b : Nat) (s : SendRun) (t : QueuePairMessageTracker)
    (ht : s.thread.state=some t) (psn : Psn) (h : Inv m b s) :
    Inv m b (s.step qp m (.ackRecv psn)) := by
  obtain ⟨done,merged,queued,h⟩ := h
  obtain ⟨hmerge,hsend,hresp⟩ := h.live t ht
  have hstep : s.step qp m (.ackRecv psn)={s with
      thread := ⟨(process qp t (.ackRecv psn)).next,
        s.thread.out++(process qp t (.ackRecv psn)).msgs⟩
      resps := s.resps+readRespsPopped qp t (.ackRecv psn)} := by
    simp only [step,ht,Thread.feed,task]
  rw [hstep]
  rcases hcq : getCq qp.sendCq with _|cq
  · rw [show process qp t (.ackRecv psn)=⟨[],none⟩ by rw [process,hcq],List.append_nil]
    exact ⟨done,merged,queued,h.registered,h.pushed,h.acked,h.near,h.msn,
      h.answered.trans (Nat.le_add_right ..),fun t ht => by cases ht⟩
  rcases hcq' : getCq qp.recvCq with _|cq'
  · rw [show process qp t (.ackRecv psn)=⟨[],none⟩ by rw [process,hcq,hcq'],List.append_nil]
    exact ⟨done,merged,queued,h.registered,h.pushed,h.acked,h.near,h.msn,
      h.answered.trans (Nat.le_add_right ..),fun t ht => by cases ht⟩
  obtain ⟨es,rest,hsplit,⟨hreads,-⟩,hproc⟩ := process_ackRecv qp t psn cq cq' hcq hcq'
  have hpopped := readRespsPopped_ackRecv qp t psn cq cq' hcq hcq'
  rw [hmerge] at hsplit
  obtain ⟨l₁,l₂,rfl,rfl,rfl⟩ := List.map_eq_append_iff.mp hsplit
  rw [hproc]
  refine ⟨done++l₁,l₂,queued,?_,?_,?_,h.near,h.msn,?_,?_⟩
  · rw [h.registered,← List.append_assoc done]
  · rw [sendPushes_append,sendPushes_append,h.pushed,sendPushes_sends,sendPushes_recvs,
      List.append_nil,List.map_append,List.map_map]
    rfl
  · rw [List.append_assoc]
    exact h.acked
  · rw [List.map_append,reads_append]
    dsimp only
    omega
  · intro t' ht'
    obtain ⟨posts,-,rfl⟩ := Option.map_eq_some_iff.mp ht'
    refine ⟨rfl,hsend,?_⟩
    rw [List.map_append,reads_append,List.length_drop]
    dsimp only
    omega

theorem step_inv (qp : QpAttr) (m b : Nat) (s : SendRun) (l : SendTask) (hl : Allowed b s l)
    (h : Inv m b s) : Inv m b (s.step qp m l) := by
  rcases ht : s.thread.state with _|t
  · unfold step
    rw [ht]
    exact h
  · cases l with
    | registerSend op wrId endPos => exact step_registerSend qp m b s t ht op wrId endPos hl h
    | ackSend pos => exact step_ackSend qp m b s t ht pos hl h
    | ackRecv psn => exact step_ackRecv qp m b s t ht psn h
    | registerRecv e =>
        have hframe := frame_inv m b s t (t.append (.recv e)) rfl rfl ht h
        simpa [step,ht,Thread.feed,task,process,readRespsPopped] using hframe
    | postRecv e =>
        have hframe := frame_inv m b s t (t.append (.postRecv e)) rfl rfl ht h
        simpa [step,ht,Thread.feed,task,process,readRespsPopped] using hframe

def run (qp : QpAttr) (m b : Nat) (ls : List SendTask) : SendRun := Run.run (step qp m) (init b) ls

end SendRun

/-- Completions of the send direction are delivered in posting order, at most once and not
before their acknowledgement; a read also waits for a response. -/
theorem send_completions_ordered (qp : QpAttr) (m b : Nat) (ls : List SendTask)
    (hls : Run.Along (SendRun.step qp m) (SendRun.Allowed b) (SendRun.init b) ls) :
    ∃ k≤(SendRun.run qp m b ls).registered.length,
      sendPushes (SendRun.run qp m b ls).thread.out=
        ((SendRun.run qp m b ls).registered.take k).map (fun r => (r.1,r.1.completion)) ∧
      (∀ r∈(SendRun.run qp m b ls).registered.take k,
        ∃ pos∈(SendRun.run qp m b ls).acks,r.2≤pos) ∧
      reads (((SendRun.run qp m b ls).registered.take k).map Prod.fst)≤
        (SendRun.run qp m b ls).resps := by
  obtain ⟨done,merged,queued,h⟩ := Run.run_inv (SendRun.step qp m) (SendRun.Allowed b)
    (SendRun.Inv m b) (SendRun.step_inv qp m b) (SendRun.init b) ls hls (SendRun.init_inv m b)
  change SendRun.Split m b (SendRun.run qp m b ls) done merged queued at h
  have htake : (SendRun.run qp m b ls).registered.take done.length=done := by
    rw [h.registered,List.append_assoc,List.take_left']
    rfl
  refine ⟨done.length,?_,?_,?_,?_⟩
  · rw [h.registered,List.length_append,List.length_append]
    omega
  · rw [htake]
    exact h.pushed
  · rw [htake]
    exact fun r hr => h.acked r (List.mem_append_left _ hr)
  · rw [htake]
    exact h.answered

/-- A write and a read across the PSN wrap; the read completes with its response. -/
def wrapSchedule : List SendTask :=
  [.registerSend .writeSignaled 7 0x1000001,.registerSend .readSignaled 8 0x1000002,
    .ackSend 0x1000002,.registerRecv ⟨.readResp,⟨0,⟨1⟩⟩,false⟩,.ackRecv ⟨1⟩]

theorem send_completions_ordered_wrap :
    sendPushes (SendRun.run shortPathQp 0xFFFF 0xFFFFFF wrapSchedule).thread.out=
      [(⟨.writeSignaled,⟨0xFFFF,⟨1⟩⟩,7⟩,.rdmaWrite 7),(⟨.readSignaled,⟨0,⟨2⟩⟩,8⟩,.rdmaRead 8)] ∧
    ∃ k≤(SendRun.run shortPathQp 0xFFFF 0xFFFFFF wrapSchedule).registered.length,
      sendPushes (SendRun.run shortPathQp 0xFFFF 0xFFFFFF wrapSchedule).thread.out=
        ((SendRun.run shortPathQp 0xFFFF 0xFFFFFF wrapSchedule).registered.take k).map
          (fun r => (r.1,r.1.completion)) := by
  obtain ⟨k,hk,hpush,-,-⟩ := send_completions_ordered shortPathQp 0xFFFF 0xFFFFFF wrapSchedule
    (by decide)
  exact ⟨by decide,k,hk,hpush⟩

end BlueRdma

import BlueRdma.Workers.Driver
import BlueRdma.Workers.MessageOrder

namespace BlueRdma
open QueuePairMessageTracker MessageTracker CompletionWorker

namespace RecvOnce

/-- Messages of the peer, numbered from the start of the connection: those whose event the
completion worker has registered and those still in its tracker. -/
structure Numbers where
  seen : List Nat := []
  queued : List Nat := []
  posted : Nat := 0

/-- The queued message with this MSN. -/
def Numbers.withMsn (g : Numbers) (msn : UInt16) : Nat :=
  (g.queued.find? (fun k => Msn.wrap k==msn)).getD 0

@[reducible] def Aux : Worker → Type
  | .completion => Numbers
  | _ => Unit

/-- A message carries the number of the peer's message it is about. -/
def tag : (w : Worker) → Aux w → Nat → Msg → Nat
  | .metaReport,_,k,_ => k
  | .completion,g,_,.recvCq e _ => g.withMsn e.msgMeta.msn
  | .completion,g,_,.ack (.ack msn _) => g.withMsn msn
  | _,_,_,_ => 0

def next : (w : Worker) → w.State → Aux w → Msg → Nat → Aux w
  | .completion,_,g,.completion (.register (.recv _)),k =>
    {g with seen := k::g.seen,queued := insertNumber k g.queued}
  | .completion,_,g,.completion (.register (.postRecv _)),_ => {g with posted := g.posted+1}
  | .completion,t,g,.completion (.ackRecv psn),_ =>
    {g with queued := g.queued.drop (t.recv.inner.takeWhile (due psn)).length}
  | _,_,g,_,_ => g

def prog (qp : QpAttr) : Program Worker (fun w => w.State × Aux w) Nat (Msg × Nat) :=
  (driver qp).instrument ⟨fun w _ _ g _ k m => tag w g k m,fun w _ s g m k => next w s g m k⟩

abbrev State := Net Worker (fun w => w.State × Aux w) (Msg × Nat)
abbrev Label := NetLabel Worker Nat (Msg × Nat)

def initAux : (w : Worker) → Aux w
  | .completion => {}
  | .rdmaWrite | .metaReport | .packetRetransmit | .ackResponder | .ackTimeout => ()

def init (config : AckTimeoutConfig) : State := Driver.initWith config initAux

/-- The event of a message of the peer leaves for the receive completion queue. -/
def isPoll : Msg → Bool
  | .recvCq _ _ => true
  | _ => false

/-- A message of the peer is acknowledged. -/
def isAck : Msg → Bool
  | .ack (.ack _ _) => true
  | _ => false

/-- A completion that uses up a posted buffer. -/
def takesPost : Msg → Bool
  | .recvCq _ c => c.any Completion.isRecv
  | _ => false

def polled (log : List (Msg × Nat)) : List Nat := (log.filter (fun x => isPoll x.1)).map Prod.snd
def acked (log : List (Msg × Nat)) : List Nat := (log.filter (fun x => isAck x.1)).map Prod.snd
def taken (log : List (Msg × Nat)) : Nat := log.countP (fun x => takesPost x.1)

/-- The MSN a message is reported, registered, completed or acknowledged under. -/
def msnOf : Msg → Option UInt16
  | .report m => MetaHandler.msn m
  | .completion (.register (.recv e)) => some e.msgMeta.msn
  | .recvCq e _ => some e.msgMeta.msn
  | .ack (.ack msn _) => some msn
  | _ => none

/-- The receive event the completion worker is about to register. -/
def registering (n : State) : Option (QueuePairMessageTracker × Numbers × RecvEvent × Nat) :=
  match n.state .completion,n.inbox .completion with
  | some (t,g),(.completion (.register (.recv e)),k)::_ => some (t,g,e,k)
  | _,_ => none

/-- Packets carry the MSN of their message, and a message is registered while all messages in
the tracker are less than half the MSN space away from it. -/
def Allowed (n : State) : Label → Prop
  | .post x => Driver.External x.1=true ∧ ∀ msn∈msnOf x.1,msn=Msn.wrap x.2
  | .work .completion _ => ∀ x∈registering n,∀ q∈x.2.1.queued,q<x.2.2.2+2^15 ∧ x.2.2.2<q+2^15
  | _ => True

/-- A message that was registered before is registered again only while its event is queued. -/
def Requeued (n : State) : Label → Prop
  | .work .completion _ => ∀ x∈registering n,x.2.2.2∈x.2.1.seen →
    ∃ q∈x.1.recv.inner,q.msgMeta.msn=x.2.2.1.msgMeta.msn
  | _ => True

instance (n : State) (l : Label) : Decidable (Allowed n l) :=
  match l with
  | .post x => @instDecidableAnd _ _ inferInstance (Option.decidableForallMem (msnOf x.1))
  | .work .completion _ => inferInstanceAs (Decidable (∀ x∈registering n,
      ∀ q∈x.2.1.queued,q<x.2.2.2+2^15 ∧ x.2.2.2<q+2^15))
  | .work .rdmaWrite _ | .work .metaReport _ | .work .packetRetransmit _ | .work .ackResponder _
  | .work .ackTimeout _ | .crash _ => inferInstanceAs (Decidable True)

instance (n : State) (l : Label) : Decidable (Requeued n l) :=
  match l with
  | .work .completion _ => inferInstanceAs (Decidable (∀ x∈registering n,x.2.2.2∈x.2.1.seen →
      ∃ q∈x.1.recv.inner,q.msgMeta.msn=x.2.2.1.msgMeta.msn))
  | .work .rdmaWrite _ | .work .metaReport _ | .work .packetRetransmit _ | .work .ackResponder _
  | .work .ackTimeout _ | .crash _ | .post _ => inferInstanceAs (Decidable True)

/-- What a live completion worker knows about the messages. -/
structure Live (log : List (Msg × Nat)) (t : QueuePairMessageTracker) (g : Numbers) : Prop where
  numbered : t.recv.inner.map (fun e => e.msgMeta.msn)=g.queued.map Msn.wrap
  sorted : g.queued.Pairwise (·<·)
  near : ∀ p∈g.queued,∀ q∈g.queued,q<p+2^15
  seen : ∀ q∈g.queued,q∈g.seen
  settled : ∀ q∈polled log++acked log,q∈g.seen ∧ q∉g.queued
  drained : t.merge.recv=[]
  posts : t.postRecvQueue.length+taken log=g.posted

structure Inv (qp : QpAttr) (n : State) : Prop where
  polledOnce : (polled n.log).Nodup
  ackedOnce : (acked n.log).Nodup
  tagged : ∀ x∈n.log,∀ msn∈msnOf x.1,msn=Msn.wrap x.2
  logged : n.Logged (prog qp)
  live : ∀ t g,n.state .completion=some (t,g) → Live n.log t g

theorem polled_append (l l' : List (Msg × Nat)) : polled (l++l')=polled l++polled l' := by
  rw [polled,List.filter_append,List.map_append]
  rfl

theorem acked_append (l l' : List (Msg × Nat)) : acked (l++l')=acked l++acked l' := by
  rw [acked,List.filter_append,List.map_append]
  rfl

theorem taken_append (l l' : List (Msg × Nat)) : taken (l++l')=taken l+taken l' :=
  List.countP_append

theorem isPoll_of_takesPost (m : Msg) (h : takesPost m=true) : isPoll m=true := by
  unfold takesPost at h
  split at h
  · rfl
  · cases h

/-- Messages that neither complete nor acknowledge anything. -/
def Silent (ms : List (Msg × Nat)) : Prop := ∀ x∈ms,isPoll x.1=false ∧ isAck x.1=false

theorem Silent.counts (ms : List (Msg × Nat)) (h : Silent ms) :
    polled ms=[] ∧ acked ms=[] ∧ taken ms=0 := by
  refine ⟨?_,?_,List.countP_eq_zero.mpr ?_⟩
  · rw [polled,List.filter_eq_nil_iff.mpr (fun x hx => by simp [(h x hx).1]),List.map_nil]
  · rw [acked,List.filter_eq_nil_iff.mpr (fun x hx => by simp [(h x hx).2]),List.map_nil]
  · intro x hx ht
    exact absurd (isPoll_of_takesPost x.1 ht) (by rw [(h x hx).1]; decide)

theorem emits_silent (w : Worker) (hw : w≠.completion) (m : Msg) (h : Driver.Emits w m) :
    isPoll m=false ∧ isAck m=false := by
  cases h <;> first | exact absurd rfl hw | exact ⟨rfl,rfl⟩

/-- Outside the completion worker MSNs only travel in the registrations of the report worker. -/
theorem emits_msn (w : Worker) (hw : w≠.completion) (m : Msg) (msn : UInt16)
    (h : Driver.Emits w m) (hm : msn∈msnOf m) :
    w=.metaReport ∧ ∃ e,m=.completion (.register (.recv e)) ∧ msn=e.msgMeta.msn := by
  cases h with
  | registerRecv e => exact ⟨rfl,e,rfl,(Option.some.inj hm).symm⟩
  | _ => first | exact absurd rfl hw | cases hm

theorem external_silent (m : Msg) (h : Driver.External m=true) :
    isPoll m=false ∧ isAck m=false := by
  unfold Driver.External at h
  split at h <;> first | exact ⟨rfl,rfl⟩ | cases h

/-- Silent messages leave the settled messages as they are. -/
theorem Live.frame (log sent : List (Msg × Nat)) (t t' : QueuePairMessageTracker) (g : Numbers)
    (h : Live log t g) (hs : Silent sent) (hrecv : t'.recv=t.recv)
    (hposts : t'.postRecvQueue=t.postRecvQueue) (hmerge : t'.merge.recv=t.merge.recv) :
    Live (log++sent) t' g := by
  obtain ⟨hp,ha,ht⟩ := hs.counts
  refine ⟨by rw [hrecv]; exact h.numbered,h.sorted,h.near,h.seen,?_,by rw [hmerge]; exact h.drained,?_⟩
  · rw [polled_append,acked_append,hp,ha,List.append_nil,List.append_nil]
    exact h.settled
  · rw [taken_append,ht,hposts]
    exact h.posts

theorem withMsn_wrap (g : Numbers) (hnear : ∀ p∈g.queued,∀ q∈g.queued,q<p+2^15) (q : Nat)
    (hq : q∈g.queued) : g.withMsn (Msn.wrap q)=q := by
  unfold Numbers.withMsn
  rcases hf : g.queued.find? (fun k => Msn.wrap k==Msn.wrap q) with _|k
  · have := List.find?_eq_none.mp hf q hq
    simp at this
  · have hk := List.mem_of_find?_eq_some hf
    have heq := List.find?_some hf
    have h1 := hnear k hk q hq
    have h2 := hnear q hq k hk
    rw [beq_iff_eq,Msn.wrap_inj k q (by omega) (by omega)] at heq
    exact heq

theorem polled_tagged (g : Numbers) (k : Nat) (ms : List Msg) :
    polled (ms.map (fun m => (m,tag .completion g k m)))=
      (recvPolls ms).map (fun p => g.withMsn p.1.msgMeta.msn) := by
  induction ms with
  | nil => rfl
  | cons m ms ih =>
      rw [← List.singleton_append,List.map_append,polled_append,ih,recvPolls_append,List.map_append]
      cases m <;> rfl

theorem acked_tagged (g : Numbers) (k : Nat) (ms : List Msg) :
    acked (ms.map (fun m => (m,tag .completion g k m)))=
      (ackResponses ms).filterMap
        (fun | .ack msn _ => some (g.withMsn msn) | .nak _ _ => none) := by
  induction ms with
  | nil => rfl
  | cons m ms ih =>
      rw [← List.singleton_append,List.map_append,acked_append,ih,ackResponses_append,
        List.filterMap_append]
      cases m <;> try rfl
      next r => cases r <;> rfl

theorem taken_tagged (g : Numbers) (k : Nat) (ms : List Msg) :
    taken (ms.map (fun m => (m,tag .completion g k m)))=
      (recvPolls ms).countP (fun p => p.2.any Completion.isRecv) := by
  induction ms with
  | nil => rfl
  | cons m ms ih =>
      rw [← List.singleton_append,List.map_append,taken_append,ih,recvPolls_append,
        List.countP_append]
      cases m <;> rfl

/-- The numbers of the events an acknowledgement pops are the first ones queued. -/
theorem Live.popped (log : List (Msg × Nat)) (t : QueuePairMessageTracker) (g : Numbers)
    (h : Live log t g) (psn : Psn) :
    (t.recv.inner.takeWhile (due psn)).map (fun e => e.msgMeta.msn)=
      (g.queued.take (t.recv.inner.takeWhile (due psn)).length).map Msn.wrap := by
  rw [List.map_take,← h.numbered,← List.map_take,
    ← List.prefix_iff_eq_take.mp (List.takeWhile_prefix (due psn))]

theorem Live.popped_numbers (log : List (Msg × Nat)) (t : QueuePairMessageTracker) (g : Numbers)
    (h : Live log t g) (psn : Psn) :
    (t.recv.inner.takeWhile (due psn)).map (fun e => g.withMsn e.msgMeta.msn)=
      g.queued.take (t.recv.inner.takeWhile (due psn)).length := by
  have hmap := congrArg (List.map g.withMsn) (h.popped log t g psn)
  rw [List.map_map,List.map_map] at hmap
  refine hmap.trans ?_
  rw [List.map_congr_left (g := id),List.map_id]
  intro q hq
  exact withMsn_wrap g h.near q (List.mem_of_mem_take hq)

/-- What one acknowledgement of the receive direction completes: distinct queued messages,
named by their numbers. -/
theorem Live.batch (log : List (Msg × Nat)) (t : QueuePairMessageTracker) (g : Numbers)
    (h : Live log t g) (psn : Psn) (k : Nat) (es : List SendEvent) (posts : List PostRecvEvent)
    (ms : List Msg) (hms : ms=es.flatMap sendMsgs++
      (completeAll (arrivals t psn) posts).1.flatMap (fun p => recvMsgs p.1 p.2)) :
    (polled (ms.map (fun m => (m,tag .completion g k m)))).Sublist
      (g.queued.take (t.recv.inner.takeWhile (due psn)).length) ∧
    (acked (ms.map (fun m => (m,tag .completion g k m)))).Sublist
      (g.queued.take (t.recv.inner.takeWhile (due psn)).length) ∧
    ∀ m∈ms,∀ msn∈msnOf m,msn=Msn.wrap (tag .completion g k m) := by
  set ps := (completeAll (arrivals t psn) posts).1
  have harr : arrivals t psn=(t.recv.inner.takeWhile (due psn)).filter (fun e => !e.isReadResp) := by
    rw [arrivals,h.drained,List.nil_append]
  have hps : (ps.map Prod.fst).Sublist (t.recv.inner.takeWhile (due psn)) := by
    refine (map_fst_completeAll (arrivals t psn) posts).sublist.trans ?_
    rw [harr]
    exact List.filter_sublist
  have hnum : (ps.map (fun p => g.withMsn p.1.msgMeta.msn)).Sublist
      (g.queued.take (t.recv.inner.takeWhile (due psn)).length) := by
    have hs := hps.map (fun e => g.withMsn e.msgMeta.msn)
    rwa [List.map_map,h.popped_numbers] at hs
  have hmsn : ∀ p∈ps,p.1.msgMeta.msn=Msn.wrap (g.withMsn p.1.msgMeta.msn) := by
    intro p hp
    have hmem : p.1.msgMeta.msn∈(t.recv.inner.takeWhile (due psn)).map (fun e => e.msgMeta.msn) :=
      List.mem_map_of_mem (hps.subset (List.mem_map_of_mem hp))
    rw [h.popped] at hmem
    obtain ⟨q,hq,heq⟩ := List.mem_map.mp hmem
    rw [← heq,withMsn_wrap g h.near q (List.mem_of_mem_take hq)]
  subst hms
  refine ⟨?_,?_,?_⟩
  · rw [polled_tagged,recvPolls_append,recvPolls_sends,recvPolls_recvs,List.nil_append]
    exact hnum
  · rw [acked_tagged,ackResponses_append,ackResponses_sends,ackResponses_recvs,List.nil_append,
      List.filterMap_map]
    refine List.Sublist.trans ?_ hnum
    change ((ps.filter (fun p => p.1.ackReq)).filterMap
      (some ∘ fun p => g.withMsn p.1.msgMeta.msn)).Sublist _
    rw [List.filterMap_eq_map]
    exact List.filter_sublist.map _
  · intro m hm msn hmsn'
    rcases List.mem_append.mp hm with hm|hm
    · obtain ⟨e,-,hm⟩ := List.mem_flatMap.mp hm
      simp only [sendMsgs,List.mem_cons,List.not_mem_nil,or_false] at hm
      rcases hm with rfl|rfl|rfl <;> cases hmsn'
    · obtain ⟨p,hp,hm⟩ := List.mem_flatMap.mp hm
      rcases List.mem_append.mp hm with hm|hm
      · split_ifs at hm
        · obtain rfl := List.mem_singleton.mp hm
          obtain rfl := Option.some.inj hmsn'
          exact hmsn p hp
        · cases hm
      · obtain rfl := List.mem_singleton.mp hm
        obtain rfl := Option.some.inj hmsn'
        exact hmsn p hp

/-- Registering a message of the peer. -/
theorem Live.register (log : List (Msg × Nat)) (t : QueuePairMessageTracker) (g : Numbers)
    (h : Live log t g) (e : RecvEvent) (k : Nat) (he : e.msgMeta.msn=Msn.wrap k)
    (hnear : ∀ q∈g.queued,q<k+2^15 ∧ k<q+2^15)
    (hagain : k∈g.seen → ∃ q∈t.recv.inner,q.msgMeta.msn=e.msgMeta.msn) :
    Live log (t.append (.recv e)) {g with seen := k::g.seen,queued := insertNumber k g.queued} := by
  have hqueued : k∈g.seen → k∈g.queued := by
    intro hk
    obtain ⟨q,hq,heq⟩ := hagain hk
    have hmem : q.msgMeta.msn∈t.recv.inner.map (fun e => e.msgMeta.msn) := List.mem_map_of_mem hq
    rw [h.numbered] at hmem
    obtain ⟨p,hp,hp'⟩ := List.mem_map.mp hmem
    rw [heq,he] at hp'
    have hpk := hnear p hp
    rwa [← (Msn.wrap_inj p k (by omega) (by omega)).mp hp']
  refine ⟨?_,insertNumber_sorted k g.queued h.sorted,?_,?_,?_,h.drained,h.posts⟩
  · exact append_numbered t.recv e g.queued k h.numbered h.sorted hnear he
  · intro p hp q hq
    rcases (mem_insertNumber k p g.queued).mp hp with hpk|hp <;>
      rcases (mem_insertNumber k q g.queued).mp hq with hqk|hq
    · omega
    · exact hpk ▸ (hnear q hq).1
    · exact hqk ▸ (hnear p hp).2
    · exact h.near p hp q hq
  · intro q hq
    rcases (mem_insertNumber k q g.queued).mp hq with rfl|hq
    · exact List.mem_cons_self ..
    · exact List.mem_cons_of_mem _ (h.seen q hq)
  · intro q hq
    obtain ⟨hseen,hnot⟩ := h.settled q hq
    refine ⟨List.mem_cons_of_mem _ hseen,?_⟩
    intro hin
    rcases (mem_insertNumber k q g.queued).mp hin with rfl|hin
    · exact hnot (hqueued hseen)
    · exact hnot hin

/-- Numbers that are queued are new to the log, and those dropped from the front are distinct
from those that stay. -/
theorem nodup_append_take (done ks sent : List Nat) (m : Nat) (hdone : done.Nodup)
    (hks : ks.Pairwise (·<·)) (hnew : ∀ q∈done,q∉ks) (hsent : sent.Sublist (ks.take m)) :
    (done++sent).Nodup ∧ ∀ q∈sent,q∈ks ∧ q∉ks.drop m := by
  have hnd : ks.Nodup := hks.imp (fun h => Nat.ne_of_lt h)
  have hcut : (ks.take m++ks.drop m).Nodup := by rwa [List.take_append_drop]
  refine ⟨List.nodup_append.mpr ⟨hdone,hsent.nodup (List.nodup_append.mp hcut).1,?_⟩,?_⟩
  · rintro q hq _ hq' rfl
    exact hnew q hq (List.mem_of_mem_take (hsent.subset hq'))
  · intro q hq
    have hq' := hsent.subset hq
    exact ⟨List.mem_of_mem_take hq',fun hd => (List.nodup_append.mp hcut).2.2 q hq' q hd rfl⟩

theorem mem_sent (qp : QpAttr) (w : Worker) (c : Nat) (s : w.State × Aux w) (x : Msg × Nat)
    (sent : List (Msg × Nat)) (hsent : sent<+:((prog qp).process w c s x).msgs) :
    ∀ y∈sent,y.1∈(Driver.process qp w c s.1 x.1).msgs ∧ y.2=tag w s.2 x.2 y.1 := by
  intro y hy
  obtain ⟨m,hm,rfl⟩ := List.mem_map.mp (hsent.subset hy)
  exact ⟨hm,rfl⟩

/-- Workers other than the completion worker complete nothing. -/
theorem turn_other (qp : QpAttr) (n n' : State) (w : Worker) (hw : w≠.completion) (c : Nat)
    (s : w.State × Aux w) (x : Msg × Nat) (rest sent : List (Msg × Nat))
    (ht : Net.Turn (prog qp) n w c s x rest sent n') (h : Inv qp n) : Inv qp n' := by
  have hmem := mem_sent qp w c s x sent ht.sent_prefix
  have hsilent : Silent sent := fun y hy =>
    emits_silent w hw y.1 (Driver.process_emits qp w c s.1 x.1 y.1 (hmem y hy).1)
  obtain ⟨hp,ha,-⟩ := hsilent.counts
  have hx := h.logged w x (by rw [ht.head]; exact List.mem_cons_self ..)
  refine ⟨?_,?_,?_,ht.logged _ n n' w c s x rest sent h.logged,?_⟩
  · rw [ht.log,polled_append,hp,List.append_nil]
    exact h.polledOnce
  · rw [ht.log,acked_append,ha,List.append_nil]
    exact h.ackedOnce
  · intro y hy msn hmsn
    rw [ht.log] at hy
    rcases List.mem_append.mp hy with hy|hy
    · exact h.tagged y hy msn hmsn
    obtain ⟨hy,htag⟩ := hmem y hy
    obtain ⟨rfl,e,he,rfl⟩ := emits_msn w hw y.1 msn
      (Driver.process_emits qp w c s.1 x.1 y.1 hy) hmsn
    obtain ⟨r,hr⟩ := Driver.report_of_dest x.1 hx.2
    rw [he,hr] at hy
    have hk := h.tagged x hx.1 e.msgMeta.msn
      (by rw [hr]; exact MetaHandler.handleMeta_register s.1 r e hy)
    rw [hk,htag]
    rfl
  · intro t g hst
    rw [ht.state_other _ hw.symm] at hst
    rw [ht.log]
    exact (h.live t g hst).frame _ sent t t g hsilent rfl rfl rfl

theorem Silent.sends (es : List SendEvent) (g : Numbers) (k : Nat) :
    Silent ((es.flatMap sendMsgs).map (fun m => (m,tag .completion g k m))) := by
  intro x hx
  obtain ⟨m,hm,rfl⟩ := List.mem_map.mp hx
  obtain ⟨e,-,hm⟩ := List.mem_flatMap.mp hm
  simp only [sendMsgs,List.mem_cons,List.not_mem_nil,or_false] at hm
  rcases hm with rfl|rfl|rfl <;> exact ⟨rfl,rfl⟩

/-- A turn of the completion worker that completes nothing of the receive direction. -/
theorem turn_silent (qp : QpAttr) (n n' : State) (c : Nat) (t : QueuePairMessageTracker)
    (g : Numbers) (x : Msg × Nat) (rest sent : List (Msg × Nat))
    (ht : Net.Turn (prog qp) n .completion c (t,g) x rest sent n') (h : Inv qp n)
    (hsilent : Silent sent) (htagged : ∀ y∈sent,msnOf y.1=none)
    (hlive : ∀ t' g',n'.state .completion=some (t',g') → Live (n.log++sent) t' g') : Inv qp n' := by
  obtain ⟨hp,ha,-⟩ := hsilent.counts
  refine ⟨?_,?_,?_,ht.logged _ n n' _ c _ x rest sent h.logged,?_⟩
  · rw [ht.log,polled_append,hp,List.append_nil]
    exact h.polledOnce
  · rw [ht.log,acked_append,ha,List.append_nil]
    exact h.ackedOnce
  · intro y hy msn hmsn
    rw [ht.log] at hy
    rcases List.mem_append.mp hy with hy|hy
    · exact h.tagged y hy msn hmsn
    · rw [htagged y hy] at hmsn
      cases hmsn
  · rw [ht.log]
    exact hlive

theorem polled_of_init (l l' : List (Msg × Nat)) (h : l<+:l') : polled l<+:polled l' :=
  (h.filter _).map _

theorem acked_of_init (l l' : List (Msg × Nat)) (h : l<+:l') : acked l<+:acked l' :=
  (h.filter _).map _

/-- The worker's numbers after the due messages have left the tracker. -/
theorem Live.acknowledge (log sent : List (Msg × Nat)) (t : QueuePairMessageTracker) (g : Numbers)
    (h : Live log t g) (psn : Psn) (k : Nat) (posts : List PostRecvEvent) (merge : MergeQueue)
    (hmerge : merge.recv=[]) (hposts : posts.length+taken sent=t.postRecvQueue.length)
    (hsent : ∀ q,q∈polled sent ∨ q∈acked sent → q∈g.queued ∧
      q∉g.queued.drop (t.recv.inner.takeWhile (due psn)).length) :
    Live (log++sent) {t with
      recv := ⟨t.recv.inner.dropWhile (due psn),psn⟩
      postRecvQueue := posts
      merge := merge} (next .completion t g (.completion (.ackRecv psn)) k) := by
  refine ⟨?_,h.sorted.sublist (List.drop_sublist ..),?_,?_,?_,hmerge,?_⟩
  · have hdrop : t.recv.inner.dropWhile (due psn)=
        t.recv.inner.drop (t.recv.inner.takeWhile (due psn)).length := by
      have hd := @List.drop_left _ (t.recv.inner.takeWhile (due psn))
        (t.recv.inner.dropWhile (due psn))
      rw [List.takeWhile_append_dropWhile] at hd
      exact hd.symm
    dsimp only [next]
    rw [hdrop,List.map_drop,List.map_drop,h.numbered]
  · intro p hp q hq
    exact h.near p (List.mem_of_mem_drop hp) q (List.mem_of_mem_drop hq)
  · intro q hq
    exact h.seen q (List.mem_of_mem_drop hq)
  · intro q hq
    rw [polled_append,acked_append] at hq
    have hold : q∈polled log++acked log → q∈g.seen ∧
        q∉g.queued.drop (t.recv.inner.takeWhile (due psn)).length := fun hq =>
      ⟨(h.settled q hq).1,fun hd => (h.settled q hq).2 (List.mem_of_mem_drop hd)⟩
    have hnew : q∈polled sent ∨ q∈acked sent → q∈g.seen ∧
        q∉g.queued.drop (t.recv.inner.takeWhile (due psn)).length := fun hq =>
      ⟨h.seen q (hsent q hq).1,(hsent q hq).2⟩
    simp only [List.mem_append] at hq hold
    rcases hq with (hq|hq)|(hq|hq)
    · exact hold (Or.inl hq)
    · exact hnew (Or.inl hq)
    · exact hold (Or.inr hq)
    · exact hnew (Or.inr hq)
  · have hold := h.posts
    rw [taken_append]
    dsimp only [next]
    omega

section Completion
variable (qp : QpAttr) (n n' : State) (c : Nat) (t : QueuePairMessageTracker) (g : Numbers) (k : Nat)
  (rest sent : List (Msg × Nat))

/-- When nothing is sent it is enough to look at the next state. -/
theorem turn_quiet (task : CompletionTask)
    (ht : Net.Turn (prog qp) n .completion c (t,g) (.completion task,k) rest sent n') (h : Inv qp n)
    (hnil : (process qp t task).msgs=[]) (hnext : ∀ t',(process qp t task).next=some t' →
      Live n.log t' (next .completion t g (.completion task) k)) : Inv qp n' := by
  have hlive := ht.survives (driver qp) _ n n' .completion c (t,g)
  have hsent : sent<+:(process qp t task).msgs.map (fun m => (m,tag .completion g k m)) :=
    ht.sent_prefix
  rw [hnil,List.map_nil,List.prefix_nil] at hsent
  subst hsent
  refine turn_silent qp n n' c t g _ rest [] ht h (by simp [Silent]) (by simp) ?_
  intro t' g' hs
  obtain ⟨ht',rfl,-⟩ := hlive (t',g') hs
  rw [List.append_nil]
  exact hnext t' ht'

theorem turn_ackSend (psn : Psn)
    (ht : Net.Turn (prog qp) n .completion c (t,g) (.completion (.ackSend psn),k) rest sent n')
    (h : Inv qp n) : Inv qp n' := by
  rcases process_ackSend_cases qp t psn with hproc|⟨es,left,-,-,hproc⟩
  · refine turn_quiet qp n n' c t g k rest sent _ ht h (by rw [hproc]) ?_
    rw [hproc]
    rintro t' ⟨⟩
  have hlive := ht.survives (driver qp) _ n n' .completion c (t,g)
  have hsent : sent<+:(process qp t (.ackSend psn)).msgs.map
      (fun m => (m,tag .completion g k m)) := ht.sent_prefix
  rw [hproc] at hsent
  have hsilent : Silent sent := fun y hy => Silent.sends es g k y (hsent.subset hy)
  refine turn_silent qp n n' c t g _ rest sent ht h hsilent ?_ ?_
  · intro y hy
    obtain ⟨m,hm,rfl⟩ := List.mem_map.mp (hsent.subset hy)
    obtain ⟨e,-,hm⟩ := List.mem_flatMap.mp hm
    simp only [sendMsgs,List.mem_cons,List.not_mem_nil,or_false] at hm
    rcases hm with rfl|rfl|rfl <;> rfl
  · intro t' g' hs
    obtain ⟨ht',rfl,-⟩ := hlive (t',g') hs
    change (process qp t (.ackSend psn)).next=some t' at ht'
    rw [hproc] at ht'
    obtain rfl := Option.some.inj ht'
    exact (h.live t _ ht.alive).frame n.log sent t _ _ hsilent rfl rfl rfl

/-- The turn that completes messages of the peer. -/
theorem turn_ackRecv (psn : Psn)
    (ht : Net.Turn (prog qp) n .completion c (t,g) (.completion (.ackRecv psn),k) rest sent n')
    (h : Inv qp n) : Inv qp n' := by
  rcases process_ackRecv_cases qp t psn with hproc|⟨es,left,-,-,hproc⟩
  · refine turn_quiet qp n n' c t g k rest sent _ ht h (by rw [hproc]) ?_
    rw [hproc]
    rintro t' ⟨⟩
  have hlive := h.live t g ht.alive
  have hsurvives := ht.survives (driver qp) _ n n' .completion c (t,g)
  have hsent : sent<+:(process qp t (.ackRecv psn)).msgs.map
      (fun m => (m,tag .completion g k m)) := ht.sent_prefix
  obtain ⟨hpolled,hacked,htag⟩ := hlive.batch n.log t g psn k es t.postRecvQueue
    (process qp t (.ackRecv psn)).msgs (by rw [hproc])
  have hp := nodup_append_take (polled n.log) g.queued (polled sent) _ h.polledOnce hlive.sorted
    (fun q hq => (hlive.settled q (List.mem_append_left _ hq)).2)
    ((polled_of_init sent _ hsent).sublist.trans hpolled)
  have ha := nodup_append_take (acked n.log) g.queued (acked sent) _ h.ackedOnce hlive.sorted
    (fun q hq => (hlive.settled q (List.mem_append_right _ hq)).2)
    ((acked_of_init sent _ hsent).sublist.trans hacked)
  refine ⟨?_,?_,?_,ht.logged _ n n' _ c _ _ rest sent h.logged,?_⟩
  · rw [ht.log,polled_append]
    exact hp.1
  · rw [ht.log,acked_append]
    exact ha.1
  · intro y hy msn hmsn
    rw [ht.log] at hy
    rcases List.mem_append.mp hy with hy|hy
    · exact h.tagged y hy msn hmsn
    · obtain ⟨m,hm,rfl⟩ := List.mem_map.mp (hsent.subset hy)
      exact htag m hm msn hmsn
  · intro t' g' hs
    obtain ⟨ht',rfl,hall⟩ := hsurvives (t',g') hs
    change (process qp t (.ackRecv psn)).next=some t' at ht'
    change sent=(process qp t (.ackRecv psn)).msgs.map (fun m => (m,tag .completion g k m)) at hall
    rw [hproc] at ht'
    obtain ⟨posts,hposts,rfl⟩ := Option.map_eq_some_iff.mp ht'
    rw [ht.log]
    refine hlive.acknowledge n.log sent t g psn k posts _ rfl ?_ ?_
    · have hcount := completeAll_posts _ _ _ hposts
      rwa [hall,taken_tagged,hproc,recvPolls_append,recvPolls_sends,recvPolls_recvs,List.nil_append]
    · exact fun q hq => hq.elim (hp.2 q) (ha.2 q)

end Completion

/-- One turn of the completion worker. -/
theorem turn_completion (qp : QpAttr) (n n' : State) (c : Nat) (s : Worker.State .completion × Aux .completion)
    (x : Msg × Nat) (rest sent : List (Msg × Nat))
    (ht : Net.Turn (prog qp) n .completion c s x rest sent n')
    (hl : Allowed n (.work .completion c)) (hr : Requeued n (.work .completion c)) (h : Inv qp n) :
    Inv qp n' := by
  obtain ⟨t,g⟩ := s
  obtain ⟨m,k⟩ := x
  have hlive := h.live t g ht.alive
  have hx := h.logged .completion (m,k) (by rw [ht.head]; exact List.mem_cons_self ..)
  obtain ⟨task,rfl⟩ := Driver.completion_of_dest m hx.2
  cases task with
  | register e =>
      refine turn_quiet qp n n' c t g k rest sent _ ht h rfl ?_
      rintro t' ⟨⟩
      cases e with
      | send e => exact ⟨hlive.numbered,hlive.sorted,hlive.near,hlive.seen,hlive.settled,
          hlive.drained,hlive.posts⟩
      | postRecv e =>
          refine ⟨hlive.numbered,hlive.sorted,hlive.near,hlive.seen,hlive.settled,hlive.drained,?_⟩
          have hposts := hlive.posts
          simp only [QueuePairMessageTracker.append,next,List.length_append,List.length_singleton]
          omega
      | recv e =>
          have hreg : registering n=some (t,g,e,k) := by
            rw [registering,ht.alive,ht.head]
          exact hlive.register n.log t g e k (h.tagged _ hx.1 _ rfl) (hl _ hreg) (hr _ hreg)
  | ackSend psn => exact turn_ackSend qp n n' c t g k rest sent psn ht h
  | ackRecv psn => exact turn_ackRecv qp n n' c t g k rest sent psn ht h

theorem step_inv (qp : QpAttr) (n : State) (l : Label) (hl : Allowed n l ∧ Requeued n l)
    (h : Inv qp n) : Inv qp (n.step (prog qp) l) := by
  have hlogged := Net.step_logged (prog qp) n l h.logged
  cases l with
  | post x =>
      obtain ⟨⟨hext,hmsn⟩,-⟩ := hl
      have hsub : ∀ y∈n.delivered (prog qp) [x],y=x := fun y hy =>
        List.mem_singleton.mp ((List.takeWhile_prefix _).subset hy)
      have hsilent : Silent (n.delivered (prog qp) [x]) := fun y hy => by
        rw [hsub y hy]
        exact external_silent x.1 hext
      obtain ⟨hp,ha,-⟩ := hsilent.counts
      refine ⟨?_,?_,?_,hlogged,?_⟩
      · change (polled (n.log++_)).Nodup
        rw [polled_append,hp,List.append_nil]
        exact h.polledOnce
      · change (acked (n.log++_)).Nodup
        rw [acked_append,ha,List.append_nil]
        exact h.ackedOnce
      · intro y hy msn hy'
        rcases List.mem_append.mp hy with hy|hy
        · exact h.tagged y hy msn hy'
        · rw [hsub y hy] at hy' ⊢
          exact hmsn msn hy'
      · intro t g hst
        exact (h.live t g hst).frame n.log _ t t g hsilent rfl rfl rfl
  | crash w =>
      exact ⟨h.polledOnce,h.ackedOnce,h.tagged,hlogged,
        fun t g hst => h.live t g (Net.step_crash (prog qp) n w .completion (t,g) hst)⟩
  | work w c =>
      rcases Net.work_cases (prog qp) n w c with heq|⟨s,x,rest,sent,ht⟩
      · rw [Net.step,heq]
        exact h
      · by_cases hw : w=.completion
        · subst hw
          exact turn_completion qp n _ c s x rest sent ht hl.1 hl.2 h
        · exact turn_other qp n _ w hw c s x rest sent ht h

theorem init_inv (qp : QpAttr) (config : AckTimeoutConfig) : Inv qp (init config) := by
  refine ⟨List.nodup_nil,List.nodup_nil,by simp [init,Driver.initWith],
    by simp [init,Driver.initWith,Net.Logged],?_⟩
  rintro t g ⟨⟩
  exact ⟨rfl,List.Pairwise.nil,by simp [initAux],by simp [initAux],by simp [init,Driver.initWith,polled,acked],
    rfl,rfl⟩

def run (qp : QpAttr) (config : AckTimeoutConfig) (ls : List Label) : State :=
  Run.run (Net.step (prog qp)) (init config) ls

end RecvOnce

open RecvOnce in
/-- In a run in which a repeated last packet is registered only while its message is still
queued, every message of the peer is completed at most once and acknowledged at most once, and
every buffer that was used up went into the completion of one message. -/
theorem recv_exactly_once (qp : QpAttr) (config : AckTimeoutConfig) (ls : List Label)
    (hls : Run.Along (Net.step (prog qp)) (fun n l => Allowed n l ∧ Requeued n l)
      (RecvOnce.init config) ls) :
    (polled (RecvOnce.run qp config ls).log).Nodup ∧
    (acked (RecvOnce.run qp config ls).log).Nodup ∧
    (∀ x∈(RecvOnce.run qp config ls).log,∀ msn∈msnOf x.1,msn=Msn.wrap x.2) ∧
    ∀ t g,(RecvOnce.run qp config ls).state .completion=some (t,g) →
      t.postRecvQueue.length+taken (RecvOnce.run qp config ls).log=g.posted := by
  have h : Inv qp (RecvOnce.run qp config ls) := Run.run_inv (Net.step (prog qp))
    (fun n l => Allowed n l ∧ Requeued n l) (Inv qp) (step_inv qp) (RecvOnce.init config) ls hls
    (RecvOnce.init_inv qp config)
  exact ⟨h.polledOnce,h.ackedOnce,h.tagged,fun t g hst => (h.live t g hst).posts⟩

namespace RecvOnce

/-- The only packet of the `k`-th message, a send that asks for an acknowledgement. -/
def packet (k : Nat) : Label :=
  .post (.report (.headerWrite ⟨.only,Msn.wrap k,Psn.wrap k,true,false,0,.send⟩),k)

def postBuffer (wrId : UInt64) : Label := .post (.completion (.register (.postRecv ⟨wrId⟩)),0)

/-- The second message arrives first and twice, then the first one fills the gap. -/
def earlyDuplicate : List Label :=
  [postBuffer 7,postBuffer 8,.work .completion 0,.work .completion 0,
    packet 1,packet 1,.work .metaReport 0,.work .metaReport 0,.work .completion 0,.work .completion 0,
    packet 0,.work .metaReport 0,.work .completion 0,.work .completion 0]

/-- The first message arrives again after it was completed; the next message then completes it
a second time. -/
def lateDuplicate : List Label :=
  [postBuffer 7,postBuffer 8,postBuffer 9,.work .completion 0,.work .completion 0,.work .completion 0,
    packet 0,.work .metaReport 0,.work .completion 0,.work .completion 0,
    packet 0,.work .metaReport 0,.work .completion 0,
    packet 1,.work .metaReport 0,.work .completion 0,.work .completion 0]

end RecvOnce

open RecvOnce in
theorem recv_exactly_once_early :
    polled (RecvOnce.run shortPathQp .default earlyDuplicate).log=[0,1] ∧
    (polled (RecvOnce.run shortPathQp .default earlyDuplicate).log).Nodup := by
  obtain ⟨h,-⟩ := recv_exactly_once shortPathQp .default earlyDuplicate (by decide +kernel)
  exact ⟨by decide +kernel,h⟩

open RecvOnce in
/-- The first message is completed twice, acknowledged twice and takes two buffers. -/
theorem late_duplicate_completes_again :
    Run.Along (Net.step (prog shortPathQp)) Allowed (RecvOnce.init .default) lateDuplicate ∧
    polled (RecvOnce.run shortPathQp .default lateDuplicate).log=[0,0,1] ∧
    acked (RecvOnce.run shortPathQp .default lateDuplicate).log=[0,0,1] ∧
    (recvPolls ((RecvOnce.run shortPathQp .default lateDuplicate).log.map Prod.fst)).map
      Prod.snd=[some (.recv 9 none),some (.recv 8 none),some (.recv 7 none)] := by
  decide +kernel

end BlueRdma

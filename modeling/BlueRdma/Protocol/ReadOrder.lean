import BlueRdma.Workers.Driver

namespace BlueRdma
open QueuePairMessageTracker MessageTracker CompletionWorker

namespace ReadOrder

/-- The send worker's account: requests that were given an MSN, the reads among them that went
out, and how many of those reads asked for no completion. -/
structure Posts where
  sent : Nat := 0
  reads : Nat := 0
  unsignaled : Nat := 0

/-- The completion worker's account: read responses registered so far, those still in the
receive tracker, and those acknowledged. Responses are numbered in the order they arrive. -/
structure Answers where
  registered : Nat := 0
  waiting : List (RecvEvent × Nat) := []
  answered : List Nat := []

/-- A registered send event carries the number of its request and of reads before it, a
completion the responses acknowledged by then. -/
structure Tag where
  number : Nat := 0
  read : Nat := 0
  answered : List Nat := []
  deriving DecidableEq

@[reducible] def Aux : Worker → Type
  | .rdmaWrite => Posts
  | .completion => Answers
  | _ => Unit

/-- A read counts once its request has gone out. -/
def sendsRead (qp : QpAttr) (ctx : SendQueueContext) (wr : SendWrRdma) : Bool :=
  wr.opcode==.rdmaRead && !(RdmaWriteWorker.process qp ctx (.write wr)).msgs.isEmpty

def Posts.post (qp : QpAttr) (ctx : SendQueueContext) (g : Posts) (wr : SendWrRdma) : Posts where
  sent := g.sent+(RdmaWriteWorker.accepts qp ctx wr).toNat
  reads := g.reads+(sendsRead qp ctx wr).toNat
  unsignaled := g.unsignaled+(sendsRead qp ctx wr && !wr.signaled).toNat

def Answers.register (g : Answers) (e : RecvEvent) : Answers :=
  if e.isReadResp then
    {g with registered := g.registered+1,waiting := g.waiting++[(e,g.registered)]}
  else g

def Answers.acknowledge (g : Answers) (es : List RecvEvent) : Answers :=
  {g with
    waiting := g.waiting.filter (fun w => w.1∉es)
    answered := g.answered++(g.waiting.filter (fun w => w.1∈es)).map Prod.snd}

def next (qp : QpAttr) : (w : Worker) → w.State → Aux w → Msg → Aux w
  | .rdmaWrite,ctx,g,.rdma (.write wr) => g.post qp ctx wr
  | .completion,_,g,.completion (.register (.recv e)) => g.register e
  | .completion,t,g,.completion (.ackRecv psn) =>
    g.acknowledge ((t.recv.ack psn).popAll t.recv.inner.length).1
  | _,_,g,_ => g

def tag (qp : QpAttr) : (w : Worker) → w.State → Aux w → Msg → Msg → Tag
  | .rdmaWrite,_,g,_,.completion (.register (.send _)) => {number := g.sent,read := g.reads}
  | .completion,t,g,m,.sendCq _ _ => {answered := (next qp .completion t g m).answered}
  | _,_,_,_,_ => {}

def prog (qp : QpAttr) : Program Worker (fun w => w.State × Aux w) Nat (Msg × Tag) :=
  (driver qp).instrument ⟨fun w _ s g m _ m' => tag qp w s g m m',fun w _ s g m _ => next qp w s g m⟩

abbrev State := Net Worker (fun w => w.State × Aux w) (Msg × Tag)
abbrev Label := NetLabel Worker Nat (Msg × Tag)

def initAux : (w : Worker) → Aux w
  | .rdmaWrite => {}
  | .completion => {}
  | .metaReport | .packetRetransmit | .ackResponder | .ackTimeout => ()

def init (config : AckTimeoutConfig) : State := Driver.initWith config initAux

/-- Send events in the order they were registered. -/
def regs (ms : List (Msg × Tag)) : List (SendEvent × Tag) :=
  ms.filterMap (fun | (.completion (.register (.send e)),t) => some (e,t) | _ => none)

/-- Send events in the order their completions were pushed. -/
def pushes (ms : List (Msg × Tag)) : List (SendEvent × Tag) :=
  ms.filterMap (fun | (.sendCq e _,t) => some (e,t) | _ => none)

/-- MSNs reported back to the send worker as completed. -/
def dones (ms : List (Msg × Tag)) : List UInt16 :=
  ms.filterMap (fun | (.rdma (.newComplete msn),_) => some msn | _ => none)

@[simp] theorem regs_nil : regs []=[] := rfl

@[simp] theorem pushes_nil : pushes []=[] := rfl

@[simp] theorem dones_nil : dones []=[] := rfl

@[simp] theorem regs_append (ms ns : List (Msg × Tag)) : regs (ms++ns)=regs ms++regs ns :=
  List.filterMap_append

@[simp] theorem pushes_append (ms ns : List (Msg × Tag)) : pushes (ms++ns)=pushes ms++pushes ns :=
  List.filterMap_append

@[simp] theorem dones_append (ms ns : List (Msg × Tag)) : dones (ms++ns)=dones ms++dones ns :=
  List.filterMap_append

def numbers (R : List (SendEvent × Tag)) : List Nat := R.map (fun r => r.2.number)

@[simp] theorem numbers_append (R S : List (SendEvent × Tag)) :
    numbers (R++S)=numbers R++numbers S := List.map_append

/-- The number of the latest of the first `d` registered requests. -/
def heard (R : List (SendEvent × Tag)) (d : Nat) : Nat := ((numbers R).take d).getLastD 0

/-- Registered events `R`, pushed events `P` and completed MSNs `D` of any run. -/
structure Ordered (R P : List (SendEvent × Tag)) (D : List UInt16) : Prop where
  pushed : P.map Prod.fst<+:R.map Prod.fst
  done : D<+:R.map (fun r => r.1.msgMeta.msn)
  increasing : (numbers R).Pairwise (·<·)
  msn : ∀ r∈R,r.1.msgMeta.msn=Msn.wrap r.2.number
  asked : Run.Each (fun l r => r.1.op=.readSignaled → r.2.read=reads (l.map Prod.fst)) R
  answered : Run.Each (fun l p => p.1.op=.readSignaled → reads (l.map Prod.fst)∈p.2.answered) P

/-- What a live completion worker adds: the registered events are the pushed ones, those in the
merge queue, those in the tracker and those still in its channel; responses wait in the order of
their numbers, and every acknowledged one is either used up or at hand. -/
structure Tracked (R P : List (SendEvent × Tag)) (D : List UInt16) (pending : List SendEvent)
    (t : QueuePairMessageTracker) (g : Answers) : Prop where
  queued : R.map Prod.fst=P.map Prod.fst++(t.merge.send++(t.send.inner++pending))
  done : D.length=P.length
  window : ((numbers R).drop P.length).Pairwise (fun a b => b<a+2^15)
  waiting : g.waiting.map Prod.fst=t.recv.inner.filter RecvEvent.isReadResp
  distinct : (g.waiting.map Prod.fst).Nodup
  numbered : g.answered++g.waiting.map Prod.snd=List.range g.registered
  responses : reads (P.map Prod.fst)+t.merge.recvReadResp.length=g.answered.length

/-- What a live send worker adds: its counters stand for unbounded ones, and its window starts
at the latest request it has heard of as completed. -/
structure Posted (R : List (SendEvent × Tag)) (D pending : List UInt16) (ctx : SendQueueContext)
    (g : Posts) : Prop where
  msn : ctx.msn=Msn.wrap g.sent
  below : ∀ r∈R,r.2.number<g.sent
  window : ∃ done,D=done++pending ∧ ctx.msnAcked=Msn.wrap (heard R done.length) ∧
    g.sent≤heard R done.length+2^15
  matched : g.unsignaled=0 → g.reads=reads (R.map Prod.fst)

structure Inv (qp : QpAttr) (n : State) : Prop where
  ordered : Ordered (regs n.log) (pushes n.log) (dones n.log)
  logged : n.Logged (prog qp)
  tracked : ∀ t g,n.state .completion=some (t,g) → Tracked (regs n.log) (pushes n.log)
    (dones n.log) ((regs (n.inbox .completion)).map Prod.fst) t g
  posted : ∀ ctx g,n.state .rdmaWrite=some (ctx,g) →
    Posted (regs n.log) (dones n.log) (dones (n.inbox .rdmaWrite)) ctx g

/-- The receive event the completion worker is about to register. -/
def registering (n : State) : Option (QueuePairMessageTracker × RecvEvent) :=
  match n.state .completion,n.inbox .completion with
  | some (t,_),(.completion (.register (.recv e)),_)::_ => some (t,e)
  | _,_ => none

/-- The work request the send worker is about to take. -/
def posting (n : State) : Option (Posts × SendWrRdma) :=
  match n.state .rdmaWrite,n.inbox .rdmaWrite with
  | some (_,g),(.rdma (.write wr),_)::_ => some (g,wr)
  | _,_ => none

/-- Read responses are registered in request order, each once: a response is ahead of the
responses in the tracker and shares its MSN with no message there. -/
def Allowed (n : State) : Label → Prop
  | .post x => Driver.External x.1=true
  | .work .completion _ => ∀ x∈registering n,x.2.isReadResp=true → ∀ q∈x.1.recv.inner,
    q.msgMeta.msn≠x.2.msgMeta.msn ∧ (q.isReadResp=true → Msn.mk q.msgMeta.msn<Msn.mk x.2.msgMeta.msn)
  | _ => True

/-- A signalled read is taken up only if no unsignalled read went out before it. -/
def Signaled (n : State) : Label → Prop
  | .work .rdmaWrite _ => ∀ x∈posting n,x.2.opcode=.rdmaRead → x.2.signaled=true → x.1.unsignaled=0
  | _ => True

instance (n : State) (l : Label) : Decidable (Allowed n l) :=
  match l with
  | .post x => inferInstanceAs (Decidable (Driver.External x.1=true))
  | .work .completion _ => inferInstanceAs (Decidable (∀ x∈registering n,x.2.isReadResp=true →
      ∀ q∈x.1.recv.inner,q.msgMeta.msn≠x.2.msgMeta.msn ∧
        (q.isReadResp=true → Msn.mk q.msgMeta.msn<Msn.mk x.2.msgMeta.msn)))
  | .work .rdmaWrite _ | .work .metaReport _ | .work .packetRetransmit _ | .work .ackResponder _
  | .work .ackTimeout _ | .crash _ => inferInstanceAs (Decidable True)

instance (n : State) (l : Label) : Decidable (Signaled n l) :=
  match l with
  | .work .rdmaWrite _ => inferInstanceAs (Decidable (∀ x∈posting n,x.2.opcode=.rdmaRead →
      x.2.signaled=true → x.1.unsignaled=0))
  | .work .completion _ | .work .metaReport _ | .work .packetRetransmit _ | .work .ackResponder _
  | .work .ackTimeout _ | .crash _ | .post _ => inferInstanceAs (Decidable True)

section Requests
variable (R P : List (SendEvent × Tag)) (D : List UInt16)

theorem length_numbers : (numbers R).length=R.length := List.length_map _

theorem heard_append (S : List (SendEvent × Tag)) (d : Nat) (hd : d≤R.length) :
    heard (R++S) d=heard R d := by
  rw [heard,numbers_append,List.take_append_of_le_length (by rwa [length_numbers])]
  rfl

/-- Requests behind the completed ones have larger numbers. -/
theorem heard_le (hR : (numbers R).Pairwise (·<·)) (d p : Nat) (hd : d≤p) :
    ∀ z∈(numbers R).drop p,heard R d≤z := by
  intro z hz
  have hz' : z∈(numbers R).drop d := by
    rw [← Nat.sub_add_cancel hd,Nat.add_comm,← List.drop_drop] at hz
    exact List.mem_of_mem_drop hz
  have hcut := hR
  rw [← List.take_append_drop d (numbers R)] at hcut
  have hlt := (List.pairwise_append.mp hcut).2.2
  unfold heard
  rcases hl : ((numbers R).take d).getLast? with _|a
  · simp [List.getLastD_eq_getLast?,hl]
  · have ha := hlt a (List.mem_of_getLast? hl) z hz'
    simp only [List.getLastD_eq_getLast?,hl,Option.getD_some]
    exact ha.le

theorem heard_lt (k : Nat) (hk : ∀ r∈R,r.2.number<k) (d : Nat) : heard R d≤k := by
  unfold heard
  rcases hl : ((numbers R).take d).getLast? with _|a
  · simp [List.getLastD_eq_getLast?,hl]
  · have ha : a∈numbers R := List.mem_of_mem_take (List.mem_of_getLast? hl)
    obtain ⟨r,hr,rfl⟩ := List.mem_map.mp ha
    simp only [List.getLastD_eq_getLast?,hl,Option.getD_some]
    exact (hk r hr).le

/-- The send worker hears of one more completion. -/
theorem Posted.hears (pending : List UInt16) (ctx : SendQueueContext) (g : Posts) (msn : UInt16)
    (ho : Ordered R P D) (h : Posted R D (msn::pending) ctx g) :
    Posted R D pending (ctx.updateMsnAcked msn) g := by
  obtain ⟨done,hD,-,hnear⟩ := h.window
  have hlen : done.length<R.length := by
    have hle := ho.done.length_le
    rw [hD,List.length_append,List.length_cons,List.length_map] at hle
    omega
  have hr : R[done.length]?=some R[done.length] := List.getElem?_eq_getElem hlen
  set r := R[done.length]
  have hmsn : r.1.msgMeta.msn=msn := by
    obtain ⟨tail,htail⟩ := ho.done
    have hget := congrArg (fun l => l[done.length]?) htail
    simp only [hD,List.append_assoc,List.getElem?_append_right le_rfl,Nat.sub_self,
      List.cons_append,List.getElem?_cons_zero,List.getElem?_map,hr,Option.map_some] at hget
    exact (Option.some.inj hget).symm
  have hheard : heard R (done.length+1)=r.2.number := by
    have hn : (numbers R)[done.length]?=some r.2.number := by
      rw [numbers,List.getElem?_map,hr]
      rfl
    rw [heard,List.take_add_one,hn,List.getLastD_eq_getLast?]
    simp
  have hmono : heard R done.length ≤ r.2.number := by
    refine heard_le R ho.increasing done.length done.length le_rfl _ ?_
    rw [numbers,List.drop_eq_getElem_cons (by rwa [List.length_map])]
    simp [r]
  refine ⟨h.msn,h.below,⟨done++[msn],?_,?_,?_⟩,h.matched⟩
  · rw [hD,List.append_assoc]
    rfl
  · rw [List.length_append,List.length_singleton,hheard,← ho.msn r (List.getElem_mem hlen),hmsn]
    rfl
  · rw [List.length_append,List.length_singleton,hheard]
    omega

/-- A request is accepted: its number is less than half the MSN space ahead of every request
whose completion has not been pushed. -/
theorem Posted.near (pending : List UInt16) (ctx : SendQueueContext) (g : Posts)
    (ho : Ordered R P D) (h : Posted R D pending ctx g)
    (hroom : (ctx.msn-ctx.msnAcked).toNat < maxSendWr) :
    (∃ done,D=done++pending ∧ ctx.msnAcked=Msn.wrap (heard R done.length) ∧
      g.sent+1≤heard R done.length+2^15) ∧
    (D.length=P.length → ∀ z∈(numbers R).drop P.length,g.sent<z+2^15) := by
  obtain ⟨done,hD,hacked,hnear⟩ := h.window
  have hle := heard_lt R g.sent h.below done.length
  have hgap : g.sent<heard R done.length+2^15 := by
    rw [h.msn,hacked,Msn.wrap_sub_wrap _ _ hle (by omega),maxSendWr] at hroom
    omega
  refine ⟨⟨done,hD,hacked,hgap⟩,?_⟩
  intro hlen z hz
  have hdone : done.length≤P.length := by
    rw [← hlen,hD,List.length_append]
    omega
  have hz' := heard_le R ho.increasing done.length P.length hdone z hz
  omega

/-- A signalled request is registered. -/
theorem Ordered.register (h : Ordered R P D) (e : SendEvent) (x : Tag)
    (hnum : ∀ r∈R,r.2.number<x.number) (hmsn : e.msgMeta.msn=Msn.wrap x.number)
    (hread : e.op=.readSignaled → x.read=reads (R.map Prod.fst)) : Ordered (R++[(e,x)]) P D := by
  refine ⟨?_,?_,?_,?_,?_,h.answered⟩
  · rw [List.map_append]
    exact h.pushed.trans (List.prefix_append ..)
  · rw [List.map_append]
    exact h.done.trans (List.prefix_append ..)
  · rw [numbers_append]
    refine List.pairwise_append.mpr ⟨h.increasing,List.pairwise_singleton ..,?_⟩
    intro a ha b hb
    obtain ⟨r,hr,rfl⟩ := List.mem_map.mp ha
    obtain rfl : b=x.number := List.mem_singleton.mp hb
    exact hnum r hr
  · intro r hr
    rcases List.mem_append.mp hr with hr|hr
    · exact h.msn r hr
    · rw [List.mem_singleton.mp hr]
      exact hmsn
  · apply Run.each_append _ _ _ h.asked
    apply Run.each_singleton
    simpa using hread

theorem Tracked.register (pending : List SendEvent) (t : QueuePairMessageTracker) (g : Answers)
    (h : Tracked R P D pending t g) (e : SendEvent) (x : Tag)
    (hnear : ∀ z∈(numbers R).drop P.length,x.number<z+2^15) :
    Tracked (R++[(e,x)]) P D (pending++[e]) t g := by
  have hlen : P.length≤R.length := by
    have hq := congrArg List.length h.queued
    simp only [List.length_map,List.length_append] at hq
    omega
  refine ⟨?_,h.done,?_,h.waiting,h.distinct,h.numbered,h.responses⟩
  · simp [h.queued]
  · rw [numbers_append,List.drop_append_of_le_length (by rwa [length_numbers])]
    refine List.pairwise_append.mpr ⟨h.window,List.pairwise_singleton ..,?_⟩
    intro a ha b hb
    obtain rfl : b=x.number := List.mem_singleton.mp hb
    exact hnear a ha

/-- The completion worker takes a registered request from its channel; it goes to the end of
the tracker. -/
theorem Tracked.append (pending : List SendEvent) (t : QueuePairMessageTracker) (g : Answers)
    (e : SendEvent) (ho : Ordered R P D) (h : Tracked R P D (e::pending) t g) :
    Tracked R P D pending (t.append (.send e)) g := by
  have hinner : (t.send.append e).inner=t.send.inner++[e] := by
    rw [append_last]
    intro z hz
    obtain ⟨inner,hinner⟩ : ∃ inner,t.send.inner=inner++[z] :=
      ⟨_,(List.dropLast_append_getLast? z hz).symm⟩
    have hq := h.queued
    rw [hinner,List.append_assoc,← List.append_assoc t.merge.send] at hq
    obtain ⟨A,Q,rfl,hA,hQ⟩ := List.map_eq_append_iff.mp hq
    obtain ⟨B,C,rfl,-,hC⟩ := List.map_eq_append_iff.mp hQ
    obtain ⟨rz,E,rfl,rfl,hE⟩ := List.map_eq_cons_iff.mp hC
    obtain ⟨re,F,rfl,rfl,-⟩ := List.map_eq_cons_iff.mp hE
    have hlen : A.length=P.length := by simpa using congrArg List.length hA
    have hlt : rz.2.number < re.2.number := by
      have hinc := ho.increasing
      simp only [numbers_append] at hinc
      have hinc := (List.pairwise_append.mp (List.pairwise_append.mp hinc).2.1).2.1
      exact (List.pairwise_cons.mp hinc).1 _ (List.mem_cons_self ..)
    have hnear : re.2.number < rz.2.number+2^15 := by
      have hwin := h.window
      rw [numbers_append,← hlen,← length_numbers A,List.drop_left,numbers_append] at hwin
      have hwin := (List.pairwise_append.mp hwin).2.1
      exact (List.pairwise_cons.mp hwin).1 _ (List.mem_cons_self ..)
    change Msn.mk rz.1.msgMeta.msn<Msn.mk re.1.msgMeta.msn
    rw [ho.msn rz (by simp),ho.msn re (by simp),Msn.wrap_lt _ _ (by omega) hnear]
    exact hlt
  refine ⟨?_,h.done,h.window,h.waiting,h.distinct,h.numbered,h.responses⟩
  rw [h.queued]
  simp [QueuePairMessageTracker.append,hinner]

end Requests

section Responses
variable (R P : List (SendEvent × Tag)) (D : List UInt16) (pending : List SendEvent)

theorem filter_readResp_append (t : MessageTracker RecvEvent) (e : RecvEvent)
    (h : e.isReadResp=true → ∀ q∈t.inner,q.msgMeta.msn≠e.msgMeta.msn ∧
      (q.isReadResp=true → Msn.mk q.msgMeta.msn<Msn.mk e.msgMeta.msn)) :
    (t.append e).inner.filter RecvEvent.isReadResp=
      t.inner.filter RecvEvent.isReadResp++(if e.isReadResp then [e] else []) := by
  obtain ⟨l,r,hlr,hr,-,happ⟩ := t.append_split e
  rw [happ,hlr]
  by_cases he : e.isReadResp=true
  · have hnone : r.filter RecvEvent.isReadResp=[] := by
      apply List.filter_eq_nil_iff.mpr
      intro q hq hresp
      exact hr q hq ((h he q (by simp [hlr,hq])).2 hresp)
    have hhead : (r.head?.all (fun q => q.msgMeta.msn != e.msgMeta.msn))=true := by
      rcases hq : r.head? with _|q
      · rfl
      · have hne := (h he q (by simp [hlr,List.mem_of_mem_head? hq])).1
        simpa using hne
    have hput : (if (r.head?.all (fun q => q.msgMeta.msn != e.msgMeta.msn))=true then
        ({t with inner := l++e::r} : MessageTracker RecvEvent) else t)={t with inner := l++e::r} :=
      if_pos hhead
    change (if (r.head?.all (fun q => q.msgMeta.msn != e.msgMeta.msn))=true then
        ({t with inner := l++e::r} : MessageTracker RecvEvent) else t).inner.filter _=_
    rw [hput]
    simp [hnone,he]
  · split_ifs <;> simp [he,hlr]

theorem Tracked.registerRecv (t : QueuePairMessageTracker) (g : Answers) (e : RecvEvent)
    (h : Tracked R P D pending t g)
    (he : e.isReadResp=true → ∀ q∈t.recv.inner,q.msgMeta.msn≠e.msgMeta.msn ∧
      (q.isReadResp=true → Msn.mk q.msgMeta.msn<Msn.mk e.msgMeta.msn)) :
    Tracked R P D pending (t.append (.recv e)) (g.register e) := by
  have hfilter := filter_readResp_append t.recv e he
  by_cases hresp : e.isReadResp=true
  · rw [if_pos hresp] at hfilter
    have hnew : e∉g.waiting.map Prod.fst := by
      rw [h.waiting]
      intro hmem
      exact (he hresp e (List.mem_of_mem_filter hmem)).1 rfl
    have hreg : g.register e=
        {g with registered := g.registered+1,waiting := g.waiting++[(e,g.registered)]} :=
      if_pos hresp
    rw [hreg]
    refine ⟨h.queued,h.done,h.window,?_,?_,?_,h.responses⟩
    · simp [QueuePairMessageTracker.append,hfilter,h.waiting]
    · rw [List.map_append]
      exact List.nodup_append.mpr ⟨h.distinct,List.nodup_singleton _,by
        intro a ha b hb hab
        obtain rfl := List.mem_singleton.mp hb
        exact hnew (hab ▸ ha)⟩
    · rw [List.map_append,← List.append_assoc,h.numbered,List.range_succ]
      rfl
  · rw [if_neg hresp,List.append_nil] at hfilter
    have hreg : g.register e=g := if_neg hresp
    rw [hreg]
    refine ⟨h.queued,h.done,h.window,?_,h.distinct,h.numbered,h.responses⟩
    simp [QueuePairMessageTracker.append,hfilter,h.waiting]

/-- Acknowledging a block at the front of the receive tracker acknowledges the responses in it. -/
theorem Tracked.acknowledge (t : QueuePairMessageTracker) (g : Answers) (es rest : List RecvEvent)
    (h : Tracked R P D pending t g) (hsplit : t.recv.inner=es++rest) :
    (g.acknowledge es).waiting.map Prod.fst=rest.filter RecvEvent.isReadResp ∧
    ((g.acknowledge es).waiting.map Prod.fst).Nodup ∧
    (g.acknowledge es).answered++(g.acknowledge es).waiting.map Prod.snd=List.range g.registered ∧
    (g.acknowledge es).answered.length=
      g.answered.length+(es.filter RecvEvent.isReadResp).length := by
  have hwait := h.waiting
  have hdist := h.distinct
  rw [hsplit,List.filter_append] at hwait
  obtain ⟨W,V,hWV,hW,hV⟩ := List.map_eq_append_iff.mp hwait
  rw [hwait] at hdist
  have hWin : ∀ w∈W,w.1∈es := by
    intro w hw
    have hmem : w.1∈es.filter RecvEvent.isReadResp := hW ▸ List.mem_map_of_mem hw
    exact List.mem_of_mem_filter hmem
  have hVout : ∀ v∈V,v.1∉es := by
    intro v hv hin
    have hmem : v.1∈rest.filter RecvEvent.isReadResp := hV ▸ List.mem_map_of_mem hv
    have hin' := List.mem_filter.mpr ⟨hin,(List.mem_filter.mp hmem).2⟩
    exact (List.nodup_append.mp hdist).2.2 _ hin' _ hmem rfl
  have hin : g.waiting.filter (fun w => w.1∈es)=W := by
    rw [hWV,List.filter_append,List.filter_eq_self.mpr (fun w hw => decide_eq_true (hWin w hw)),
      List.filter_eq_nil_iff.mpr (fun v hv hd => hVout v hv (of_decide_eq_true hd)),List.append_nil]
  have hout : g.waiting.filter (fun w => w.1∉es)=V := by
    rw [hWV,List.filter_append,
      List.filter_eq_nil_iff.mpr (fun w hw hd => absurd (hWin w hw) (of_decide_eq_true hd)),
      List.filter_eq_self.mpr (fun v hv => decide_eq_true (hVout v hv)),List.nil_append]
  have hlen : W.length=(es.filter RecvEvent.isReadResp).length := by
    simpa using congrArg List.length hW
  simp only [Answers.acknowledge,hin,hout]
  refine ⟨hV,?_,?_,?_⟩
  · rw [hV]
    exact (List.nodup_append.mp hdist).2.1
  · rw [← h.numbered,hWV]
    simp
  · simp [hlen]

theorem reads_take_lt (es : List SendEvent) (i : Nat) (e : SendEvent) (he : es[i]?=some e)
    (hop : e.op=.readSignaled) : reads (es.take i) < reads es := by
  obtain ⟨hi,rfl⟩ := List.getElem?_eq_some_iff.mp he
  have hcut : es=es.take i++es[i]::es.drop (i+1) := by
    rw [← List.drop_eq_getElem_cons hi,List.take_append_drop]
  have hsum := congrArg reads hcut
  rw [reads_append] at hsum
  have hone : reads (es[i]::es.drop (i+1))=reads (es.drop (i+1))+1 :=
    List.countP_cons_of_pos (by rw [hop]; rfl)
  omega

/-- A batch of completions leaves, possibly cut short. -/
theorem Ordered.push (t : QueuePairMessageTracker) (g : Answers) (ho : Ordered R P D)
    (h : Tracked R P D pending t g) (es tl : List SendEvent)
    (hes : t.merge.send++(t.send.inner++pending)=es++tl) (answered : List Nat)
    (hnum : answered=List.range answered.length)
    (hreads : reads (P.map Prod.fst)+reads es≤answered.length) (ps : List (SendEvent × Tag))
    (hps : ps<+:es.map (fun e => (e,{answered := answered}))) (ds : List UInt16)
    (hds : ds<+:es.map (fun e => e.msgMeta.msn)) : Ordered R (P++ps) (D++ds) := by
  have hR : R.map Prod.fst=P.map Prod.fst++(es++tl) := by rw [h.queued,hes]
  have hmsns : R.map (fun r => r.1.msgMeta.msn)=
      P.map (fun r => r.1.msgMeta.msn)++(es++tl).map (fun e => e.msgMeta.msn) := by
    have hm := congrArg (List.map (fun e : SendEvent => e.msgMeta.msn)) hR
    simpa only [List.map_map,List.map_append,Function.comp_def] using hm
  have hD : D=P.map (fun r => r.1.msgMeta.msn) := by
    have htake := List.prefix_iff_eq_take.mp ho.done
    rw [h.done,hmsns,List.take_left' (List.length_map _)] at htake
    exact htake
  refine ⟨?_,?_,ho.increasing,ho.msn,ho.asked,?_⟩
  · have hfst := hps.map Prod.fst
    simp only [List.map_map,Function.comp_def,List.map_id'] at hfst
    rw [List.map_append,hR]
    exact (List.prefix_append_right_inj _).mpr (hfst.trans (List.prefix_append ..))
  · rw [hmsns,hD,List.map_append]
    exact (List.prefix_append_right_inj _).mpr (hds.trans (List.prefix_append ..))
  · apply Run.each_append _ _ _ ho.answered
    refine Run.Each.of_init ps _ ?_ hps
    intro i p hp hop
    rw [List.getElem?_map] at hp
    obtain ⟨e,he,rfl⟩ := Option.map_eq_some_iff.mp hp
    have hlt := reads_take_lt es i e he hop
    have hfst : ((es.map (fun e => (e,({answered := answered} : Tag)))).take i).map Prod.fst=
        es.take i := by
      rw [← List.map_take,List.map_map]
      exact List.map_id _
    rw [List.map_append,reads_append,hfst]
    change _∈answered
    rw [hnum]
    exact List.mem_range.mpr (by omega)

theorem Tracked.push (t t' : QueuePairMessageTracker) (g g' : Answers)
    (h : Tracked R P D pending t g) (es popped : List SendEvent)
    (hinner : t.send.inner=popped++t'.send.inner) (hsplit : t.merge.send++popped=es++t'.merge.send)
    (hwaiting : g'.waiting.map Prod.fst=t'.recv.inner.filter RecvEvent.isReadResp)
    (hdistinct : (g'.waiting.map Prod.fst).Nodup)
    (hnumbered : g'.answered++g'.waiting.map Prod.snd=List.range g'.registered)
    (hresp : reads (P.map Prod.fst)+reads es+t'.merge.recvReadResp.length=g'.answered.length)
    (x : Tag) :
    Tracked R (P++es.map (fun e => (e,x))) (D++es.map (fun e => e.msgMeta.msn)) pending t' g' := by
  have hfst : (es.map (fun e => (e,x))).map Prod.fst=es := by
    rw [List.map_map]
    exact List.map_id _
  refine ⟨?_,?_,?_,hwaiting,hdistinct,hnumbered,?_⟩
  · rw [h.queued,hinner,List.map_append,hfst,List.append_assoc (P.map Prod.fst),
      ← List.append_assoc es,← hsplit]
    simp
  · simp [h.done]
  · rw [List.length_append,← List.drop_drop]
    exact h.window.sublist (List.drop_sublist ..)
  · rw [List.map_append,hfst,reads_append]
    exact hresp

end Responses

/-- Only the send worker registers send events. -/
theorem regs_of_emits (w : Worker) (hw : w≠.rdmaWrite) (ms : List (Msg × Tag))
    (h : ∀ x∈ms,Driver.Emits w x.1) : regs ms=[] := by
  refine Driver.filterMap_emits _ w ?_ ms h
  intro m x hm
  cases hm <;> first | rfl | exact absurd rfl hw

/-- Only the completion worker completes them. -/
theorem pushes_of_emits (w : Worker) (hw : w≠.completion) (ms : List (Msg × Tag))
    (h : ∀ x∈ms,Driver.Emits w x.1) : pushes ms=[] ∧ dones ms=[] := by
  refine ⟨Driver.filterMap_emits _ w ?_ ms h,Driver.filterMap_emits _ w ?_ ms h⟩ <;> intro m x hm
  · cases hm <;> first | rfl | exact absurd rfl hw
  · cases hm <;> first | rfl | exact absurd rfl hw

theorem regs_addressed (qp : QpAttr) (ms : List (Msg × Tag)) :
    regs (Net.addressed (prog qp) .completion ms)=regs ms := by
  apply Net.filterMap_addressed
  rintro ⟨m,x⟩ b hb
  split at hb
  · next heq =>
      obtain ⟨rfl,-⟩ := Prod.mk.inj heq
      rfl
  · cases hb

theorem dones_addressed (qp : QpAttr) (ms : List (Msg × Tag)) :
    dones (Net.addressed (prog qp) .rdmaWrite ms)=dones ms := by
  apply Net.filterMap_addressed
  rintro ⟨m,x⟩ b hb
  split at hb
  · next heq =>
      obtain ⟨rfl,-⟩ := Prod.mk.inj heq
      rfl
  · cases hb

/-- Steps that touch neither worker nor the messages between them. -/
theorem Inv.frame (qp : QpAttr) (n n' : State) (h : Inv qp n) (hlogged : n'.Logged (prog qp))
    (hR : regs n'.log=regs n.log) (hP : pushes n'.log=pushes n.log) (hD : dones n'.log=dones n.log)
    (hC : ∀ s,n'.state .completion=some s → n.state .completion=some s ∧
      regs (n'.inbox .completion)=regs (n.inbox .completion))
    (hW : ∀ s,n'.state .rdmaWrite=some s → n.state .rdmaWrite=some s ∧
      dones (n'.inbox .rdmaWrite)=dones (n.inbox .rdmaWrite)) : Inv qp n' := by
  refine ⟨by rw [hR,hP,hD]; exact h.ordered,hlogged,?_,?_⟩
  · intro t g hs
    obtain ⟨hs,hin⟩ := hC _ hs
    rw [hR,hP,hD,hin]
    exact h.tracked t g hs
  · intro ctx g hs
    obtain ⟨hs,hin⟩ := hW _ hs
    rw [hR,hD,hin]
    exact h.posted ctx g hs

theorem turn_other (qp : QpAttr) (n n' : State) (w : Worker) (hw : w≠.rdmaWrite)
    (hw' : w≠.completion) (c : Nat) (s : w.State × Aux w) (x : Msg × Tag)
    (rest sent : List (Msg × Tag)) (ht : Net.Turn (prog qp) n w c s x rest sent n')
    (h : Inv qp n) : Inv qp n' := by
  have hemits := Driver.emits_sent qp _ n n' w c s x rest sent ht
  have hregs := regs_of_emits w hw sent hemits
  obtain ⟨hpushes,hdones⟩ := pushes_of_emits w hw' sent hemits
  apply h.frame qp n n' (ht.logged _ n n' w c s x rest sent h.logged)
  · simp [ht.log,hregs]
  · simp [ht.log,hpushes]
  · simp [ht.log,hdones]
  · intro s' hs'
    rw [ht.state_other _ hw'.symm] at hs'
    simp [hs',ht.inbox_other _ hw'.symm,regs_addressed,hregs]
  · intro s' hs'
    rw [ht.state_other _ hw.symm] at hs'
    simp [hs',ht.inbox_other _ hw.symm,dones_addressed,hdones]

/-- A turn of the send worker, up to what the request it takes does. -/
theorem turn_request (qp : QpAttr) (n n' : State) (c : Nat) (ctx : SendQueueContext) (g : Posts)
    (x : Msg × Tag) (rest sent : List (Msg × Tag))
    (ht : Net.Turn (prog qp) n .rdmaWrite c (ctx,g) x rest sent n') (h : Inv qp n)
    (hordered : Ordered (regs n.log++regs sent) (pushes n.log) (dones n.log))
    (htracked : ∀ pending t a,Tracked (regs n.log) (pushes n.log) (dones n.log) pending t a →
      Tracked (regs n.log++regs sent) (pushes n.log) (dones n.log)
        (pending++(regs sent).map Prod.fst) t a)
    (hposted : ∀ ctx' g',n'.state .rdmaWrite=some (ctx',g') →
      Posted (regs n.log++regs sent) (dones n.log) (dones rest) ctx' g') : Inv qp n' := by
  have hemits := Driver.emits_sent qp _ n n' .rdmaWrite c (ctx,g) x rest sent ht
  obtain ⟨hpushes,hdones⟩ := pushes_of_emits .rdmaWrite (by decide) sent hemits
  refine ⟨?_,ht.logged _ n n' _ c _ x rest sent h.logged,?_,?_⟩
  · simpa [ht.log,hpushes,hdones] using hordered
  · intro t a hs
    rw [ht.state_other _ (by decide)] at hs
    have htr := htracked _ t a (h.tracked t a hs)
    simpa [ht.log,hpushes,hdones,ht.inbox_other .completion (by decide),regs_addressed] using htr
  · intro ctx' g' hs
    have hpo := hposted ctx' g' hs
    simpa [ht.log,hdones,ht.inbox_self,dones_addressed] using hpo

theorem regs_requestMsgs (qp : QpAttr) (wr : SendWrRdma) (k : UInt32) (msn : UInt16) (psn : Psn)
    (op : Option SendEventOp) (timer stored : Bool) (chunks : List WrChunk) (f : Msg → Tag) (y : Tag)
    (hf : ∀ e,f (.completion (.register (.send e)))=y) :
    regs ((RdmaWriteWorker.requestMsgs qp wr k msn psn op timer stored chunks).map
      (fun m => (m,f m)))=(op.map (fun x => ((⟨x,⟨msn,psn+k⟩,wr.wrId⟩ : SendEvent),y))).toList := by
  have hchunks : regs ((chunks.map Msg.chunk).map (fun m => (m,f m)))=[] := by
    apply List.filterMap_eq_nil_iff.mpr
    intro x hx
    simp only [List.map_map,List.mem_map,Function.comp_apply] at hx
    obtain ⟨c,-,rfl⟩ := hx
    rfl
  have htimer : regs ((if timer then [Msg.timeout .newAckReq] else []).map (fun m => (m,f m)))=[] := by
    cases timer <;> rfl
  have hstored : regs ((if stored then
      [Msg.retransmit (.newWr ⟨psn,wr,QpParams.ofAttr msn qp⟩)] else []).map (fun m => (m,f m)))=[] := by
    cases stored <;> rfl
  simp only [RdmaWriteWorker.requestMsgs,List.map_append,regs_append,hchunks,htimer,hstored,
    List.append_nil]
  cases op with
  | none => rfl
  | some x => exact congrArg (fun y => [((⟨x,⟨msn,psn+k⟩,wr.wrId⟩ : SendEvent),y)]) (hf _)

theorem sendEventOp_read (op : WorkReqOpCode) :
    RdmaWriteWorker.sendEventOp op=some .readSignaled ↔ op=.rdmaRead := by
  cases op <;> simp [RdmaWriteWorker.sendEventOp]

/-- The send worker's account after an accepted request that registered the event `e`, if any. -/
theorem Posted.accept (R P : List (SendEvent × Tag)) (D pending : List UInt16) (qp : QpAttr)
    (ctx : SendQueueContext) (g : Posts) (wr : SendWrRdma) (k : UInt32) (msn : UInt16) (psn : Psn)
    (ho : Ordered R P D) (h : Posted R D pending ctx g)
    (ha : RdmaWriteWorker.Accepts qp ctx wr k msn psn (RdmaWriteWorker.process qp ctx (.write wr)))
    (S : List (SendEvent × Tag)) (hnum : ∀ r∈S,r.2.number=g.sent)
    (hreads : g.unsignaled=0 → (sendsRead qp ctx wr && !wr.signaled)=false →
      reads (S.map Prod.fst)=(sendsRead qp ctx wr).toNat) :
    Posted (R++S) D pending (ctx.nextWr k).1 (g.post qp ctx wr) := by
  obtain ⟨-,-,hctx,-,hroom⟩ := ctx.nextWr_some k msn psn ha.assigned
  obtain ⟨⟨done,hD,hacked,hnear⟩,-⟩ := h.near R P D pending ctx g ho hroom
  have hsent : (g.post qp ctx wr).sent=g.sent+1 := by simp [Posts.post,ha.accepts]
  have hdone : done.length≤R.length := by
    have hle := ho.done.length_le
    rw [hD,List.length_append,List.length_map] at hle
    omega
  rw [hctx]
  refine ⟨?_,?_,⟨done,hD,?_,?_⟩,?_⟩
  · rw [hsent]
    change ctx.msn+1=_
    rw [h.msn,Msn.wrap_succ]
  · intro r hr
    rw [hsent]
    rcases List.mem_append.mp hr with hr|hr
    · have := h.below r hr
      omega
    · have := hnum r hr
      omega
  · rw [heard_append R S _ hdone]
    exact hacked
  · rw [heard_append R S _ hdone,hsent]
    exact hnear
  · intro hzero
    simp only [Posts.post] at hzero ⊢
    have hzero' : g.unsignaled=0 := by omega
    have hplain : (sendsRead qp ctx wr && !wr.signaled)=false := by
      rw [← Bool.toNat_eq_zero]
      omega
    rw [List.map_append,reads_append,h.matched hzero',hreads hzero' hplain]

/-- The messages of a task of the send worker with their tags. -/
def taskMsgs (qp : QpAttr) (ctx : SendQueueContext) (g : Posts) (task : RdmaWriteTask) :
    List (Msg × Tag) :=
  (RdmaWriteWorker.process qp ctx task).msgs.map
    (fun m => (m,tag qp .rdmaWrite ctx g (.rdma task) m))

/-- Of an accepted request, either no event has been registered, and then it is no signalled read
if all its messages are out, or one with the request's numbers. -/
theorem regs_accepted (qp : QpAttr) (ctx : SendQueueContext) (g : Posts) (wr : SendWrRdma)
    (k : UInt32) (msn : UInt16) (psn : Psn)
    (ha : RdmaWriteWorker.Accepts qp ctx wr k msn psn (RdmaWriteWorker.process qp ctx (.write wr)))
    (sent : List (Msg × Tag)) (hsent : sent<+:taskMsgs qp ctx g (.write wr)) :
    (regs sent=[] ∧ (sent=taskMsgs qp ctx g (.write wr) →
      (sendsRead qp ctx wr && !wr.signaled)=false → sendsRead qp ctx wr=false)) ∨
    ∃ op,regs sent=[(⟨op,⟨msn,psn+k⟩,wr.wrId⟩,{number := g.sent,read := g.reads})] ∧
      wr.signaled=true ∧ (op=.readSignaled ↔ wr.opcode=.rdmaRead) ∧
      sendsRead qp ctx wr=(op==.readSignaled) := by
  obtain ⟨op,timer,stored,chunks,hmsgs,hop,hread⟩ := ha.msgs
  have hall : regs (taskMsgs qp ctx g (.write wr))=(op.map (fun x =>
      ((⟨x,⟨msn,psn+k⟩,wr.wrId⟩ : SendEvent),({number := g.sent,read := g.reads} : Tag)))).toList := by
    rw [taskMsgs,hmsgs]
    exact regs_requestMsgs qp wr k msn psn op timer stored chunks _ _ (fun _ => rfl)
  have hregs : regs sent<+:regs (taskMsgs qp ctx g (.write wr)) := hsent.filterMap _
  rw [hall] at hregs
  rcases hS : regs sent with _|⟨r,S⟩
  · refine Or.inl ⟨rfl,fun hfull hplain => ?_⟩
    have hnone : op=none := by
      rw [hfull,hall] at hS
      cases op with
      | none => rfl
      | some op => cases hS
    by_contra hs
    simp only [sendsRead,Bool.not_eq_false,Bool.and_eq_true,beq_iff_eq,Bool.not_eq_true',
      List.isEmpty_eq_false_iff] at hs
    have hsigned : wr.signaled=true := by simpa [sendsRead,hs] using hplain
    cases hnone ▸ hread hs.1 hsigned hs.2
  · rw [hS] at hregs
    rcases op with _|op
    · cases List.prefix_nil.mp hregs
    obtain ⟨rfl,hS'⟩ := List.cons_prefix_cons.mp hregs
    obtain rfl := List.prefix_nil.mp hS'
    obtain ⟨hsigned,hevent⟩ := hop op rfl
    have hreadop : op=.readSignaled ↔ wr.opcode=.rdmaRead := by
      rw [← sendEventOp_read,hevent,Option.some.injEq]
    have hsome : (RdmaWriteWorker.process qp ctx (.write wr)).msgs≠[] := by
      intro hnil
      rw [taskMsgs,hnil,List.map_nil,List.prefix_nil] at hsent
      rw [hsent] at hS
      cases hS
    refine Or.inr ⟨op,rfl,hsigned,hreadop,?_⟩
    rw [Bool.eq_iff_iff,sendsRead,Bool.and_eq_true,beq_iff_eq,beq_iff_eq,hreadop]
    simp [hsome]

section RdmaWrite
variable (qp : QpAttr) (n n' : State) (c : Nat) (ctx : SendQueueContext) (g : Posts) (k : Tag)
  (rest sent : List (Msg × Tag))

/-- When nothing is sent only the send worker's own account changes. -/
theorem turn_quiet (task : RdmaWriteTask)
    (ht : Net.Turn (prog qp) n .rdmaWrite c (ctx,g) (.rdma task,k) rest sent n') (h : Inv qp n)
    (hnil : (RdmaWriteWorker.process qp ctx task).msgs=[])
    (hposted : ∀ ctx',(RdmaWriteWorker.process qp ctx task).next=some ctx' →
      Posted (regs n.log) (dones n.log) (dones rest) ctx'
        (next qp .rdmaWrite ctx g (.rdma task))) : Inv qp n' := by
  have hsent : sent<+:taskMsgs qp ctx g task := ht.sent_prefix
  have hlive := ht.survives (driver qp) _ n n' .rdmaWrite c (ctx,g)
  rw [taskMsgs,hnil,List.map_nil,List.prefix_nil] at hsent
  subst hsent
  refine turn_request qp n n' c ctx g _ rest [] ht h ?_ ?_ ?_
  · simpa using h.ordered
  · intro pending t a htr
    simpa using htr
  · intro ctx' g' hs
    obtain ⟨hnext,rfl,-⟩ := hlive (ctx',g') hs
    simpa using hposted ctx' hnext

theorem turn_accepted (wr : SendWrRdma)
    (ht : Net.Turn (prog qp) n .rdmaWrite c (ctx,g) (.rdma (.write wr),k) rest sent n')
    (h : Inv qp n) (hpo : Posted (regs n.log) (dones n.log) (dones rest) ctx g)
    (hone : wr.opcode=.rdmaRead → wr.signaled=true → g.unsignaled=0) (n₀ : UInt32) (msn : UInt16)
    (psn : Psn) (ha : RdmaWriteWorker.Accepts qp ctx wr n₀ msn psn
      (RdmaWriteWorker.process qp ctx (.write wr))) : Inv qp n' := by
  obtain ⟨rfl,-,-,-,hroom⟩ := ctx.nextWr_some n₀ msn psn ha.assigned
  have hlive := ht.survives (driver qp) _ n n' .rdmaWrite c (ctx,g)
  have hposted (hnum : ∀ r∈regs sent,r.2.number=g.sent)
      (hreads : sent=taskMsgs qp ctx g (.write wr) → (sendsRead qp ctx wr && !wr.signaled)=false →
        reads ((regs sent).map Prod.fst)=(sendsRead qp ctx wr).toNat) (ctx' : SendQueueContext)
      (g' : Posts) (hs : n'.state .rdmaWrite=some (ctx',g')) :
      Posted (regs n.log++regs sent) (dones n.log) (dones rest) ctx' g' := by
    obtain ⟨hnext,rfl,hfull⟩ := hlive (ctx',g') hs
    rw [show ctx'=(ctx.nextWr n₀).1 from ha.next_eq qp ctx ctx' wr n₀ _ psn _ hnext]
    exact hpo.accept _ _ _ _ qp ctx g wr n₀ _ psn h.ordered ha _ hnum (fun _ => hreads hfull)
  rcases regs_accepted qp ctx g wr n₀ ctx.msn psn ha sent ht.sent_prefix with
    ⟨hS,hquiet⟩|⟨op,hS,hsigned,hreadop,hsends⟩
  · refine turn_request qp n n' c ctx g _ rest sent ht h ?_ ?_ (hposted (by simp [hS]) ?_)
    · rw [hS,List.append_nil]
      exact h.ordered
    · intro pending t a htr
      rw [hS,List.map_nil,List.append_nil,List.append_nil]
      exact htr
    · intro hfull hplain
      rw [hS,hquiet hfull hplain]
      rfl
  · refine turn_request qp n n' c ctx g _ rest sent ht h ?_ ?_ (hposted (by simp [hS]) ?_)
    · rw [hS]
      refine h.ordered.register _ _ _ _ _ hpo.below hpo.msn ?_
      intro hop
      exact hpo.matched (hone (hreadop.mp hop) hsigned)
    · intro pending t a htr
      rw [hS]
      exact htr.register _ _ _ pending t a _ _
        ((hpo.near _ _ _ _ ctx g h.ordered hroom).2 htr.done)
    · intro _ _
      rw [hS,hsends]
      cases op <;> rfl

end RdmaWrite

theorem turn_rdmaWrite (qp : QpAttr) (n n' : State) (c : Nat)
    (s : Worker.State .rdmaWrite × Aux .rdmaWrite) (x : Msg × Tag) (rest sent : List (Msg × Tag))
    (ht : Net.Turn (prog qp) n .rdmaWrite c s x rest sent n')
    (hsig : Signaled n (.work .rdmaWrite c)) (h : Inv qp n) : Inv qp n' := by
  obtain ⟨ctx,g⟩ := s
  obtain ⟨m,k⟩ := x
  have hpo := h.posted ctx g ht.alive
  have hx := h.logged .rdmaWrite (m,k) (by rw [ht.head]; exact List.mem_cons_self ..)
  obtain ⟨task,rfl⟩ := Driver.rdma_of_dest m hx.2
  have hin := congrArg dones ht.head
  cases task with
  | ack p =>
      refine turn_quiet qp n n' c ctx g k rest sent _ ht h rfl ?_
      rintro ctx' ⟨⟩
      rw [show dones (n.inbox .rdmaWrite)=dones rest from hin] at hpo
      exact ⟨hpo.msn,hpo.below,hpo.window,hpo.matched⟩
  | newComplete msn =>
      refine turn_quiet qp n n' c ctx g k rest sent _ ht h rfl ?_
      rintro ctx' ⟨⟩
      rw [show dones (n.inbox .rdmaWrite)=msn::dones rest from hin] at hpo
      exact hpo.hears _ _ _ _ ctx g msn h.ordered
  | write wr =>
      rw [show dones (n.inbox .rdmaWrite)=dones rest from hin] at hpo
      have hpost : posting n=some (g,wr) := by
        rw [posting,ht.alive,ht.head]
      rcases RdmaWriteWorker.process_write qp ctx wr with ⟨hproc,hno⟩|hproc|⟨n₀,msn,psn,ha⟩
      · refine turn_quiet qp n n' c ctx g k rest sent _ ht h (by rw [hproc]) ?_
        rw [hproc]
        rintro ctx' ⟨⟩
        have hsame : next qp .rdmaWrite ctx g (.rdma (.write wr))=g := by
          simp [next,Posts.post,sendsRead,hproc,hno]
        rw [hsame]
        exact hpo
      · refine turn_quiet qp n n' c ctx g k rest sent _ ht h (by rw [hproc]) ?_
        rw [hproc]
        rintro ctx' ⟨⟩
      · exact turn_accepted qp n n' c ctx g k rest sent wr ht h hpo (hsig (g,wr) hpost) n₀ msn psn ha

theorem pushes_tagged (f : Msg → Tag) (y : Tag) (hf : ∀ e c,f (.sendCq e c)=y) (ms : List Msg) :
    pushes (ms.map (fun m => (m,f m)))=(sendPushes ms).map (fun p => (p.1,y)) := by
  induction ms with
  | nil => rfl
  | cons m ms ih =>
      rw [← List.singleton_append,List.map_append,pushes_append,ih,sendPushes_append,List.map_append]
      cases m with
      | sendCq e c => simp [pushes,sendPushes,hf]
      | _ => rfl

theorem dones_sends (f : Msg → Tag) (es : List SendEvent) :
    dones ((es.flatMap sendMsgs).map (fun m => (m,f m)))=es.map (fun e => e.msgMeta.msn) := by
  induction es with
  | nil => rfl
  | cons e es ih =>
      rw [List.flatMap_cons,List.map_append,dones_append,ih]
      rfl

theorem dones_recvs (f : Msg → Tag) (ps : List (RecvEvent × Option Completion)) :
    dones ((ps.flatMap (fun p => recvMsgs p.1 p.2)).map (fun m => (m,f m)))=[] := by
  induction ps with
  | nil => rfl
  | cons p ps ih =>
      rw [List.flatMap_cons,List.map_append,dones_append,ih,recvMsgs]
      split_ifs <;> rfl

/-- A turn of the completion worker, up to what its task does. -/
theorem turn_task (qp : QpAttr) (n n' : State) (c : Nat) (t : QueuePairMessageTracker)
    (g : Answers) (x : Msg × Tag) (rest sent : List (Msg × Tag))
    (ht : Net.Turn (prog qp) n .completion c (t,g) x rest sent n') (h : Inv qp n)
    (hordered : Ordered (regs n.log) (pushes n.log++pushes sent) (dones n.log++dones sent))
    (htracked : ∀ t' g',n'.state .completion=some (t',g') → Tracked (regs n.log)
      (pushes n.log++pushes sent) (dones n.log++dones sent) ((regs rest).map Prod.fst) t' g') :
    Inv qp n' := by
  have hemits := Driver.emits_sent qp _ n n' .completion c (t,g) x rest sent ht
  have hregs := regs_of_emits .completion (by decide) sent hemits
  refine ⟨?_,ht.logged _ n n' _ c _ x rest sent h.logged,?_,?_⟩
  · simpa [ht.log,hregs] using hordered
  · intro t' g' hs
    have htr := htracked t' g' hs
    simpa [ht.log,hregs,ht.inbox_self,regs_addressed] using htr
  · intro ctx a hs
    rw [ht.state_other _ (by decide)] at hs
    have hpo := h.posted ctx a hs
    obtain ⟨done,hD,hacked,hnear⟩ := hpo.window
    have hlog : regs n'.log=regs n.log := by simp [ht.log,hregs]
    have hwin : dones n'.log=done++dones (n'.inbox .rdmaWrite) := by
      simp [ht.log,ht.inbox_other .rdmaWrite (by decide),dones_addressed,hD]
    rw [hlog]
    exact ⟨hpo.msn,hpo.below,⟨done,hwin,hacked,hnear⟩,hpo.matched⟩

/-- A task that moves due events to the merge queue and then polls the send direction. -/
theorem turn_poll (qp : QpAttr) (n n' : State) (c : Nat) (t : QueuePairMessageTracker)
    (g : Answers) (task : CompletionTask) (k : Tag) (rest sent : List (Msg × Tag))
    (ht : Net.Turn (prog qp) n .completion c (t,g) (.completion task,k) rest sent n') (h : Inv qp n)
    (htr : Tracked (regs n.log) (pushes n.log) (dones n.log) ((regs rest).map Prod.fst) t g)
    (es popped left behind : List SendEvent) (ps : List (RecvEvent × Option Completion))
    (hmsgs : (process qp t task).msgs=
      es.flatMap sendMsgs++ps.flatMap (fun p => recvMsgs p.1 p.2))
    (hinner : t.send.inner=popped++behind) (hsplit : t.merge.send++popped=es++left)
    (resps : Nat) (hreads : reads es ≤ resps) (g' : Answers)
    (hg' : next qp .completion t g (.completion task)=g')
    (hresps : reads ((pushes n.log).map Prod.fst)+resps=g'.answered.length)
    (hdistinct : (g'.waiting.map Prod.fst).Nodup)
    (hnumbered : g'.answered++g'.waiting.map Prod.snd=List.range g'.registered)
    (hnext : ∀ t',(process qp t task).next=some t' → t'.send.inner=behind ∧ t'.merge.send=left ∧
      g'.waiting.map Prod.fst=t'.recv.inner.filter RecvEvent.isReadResp ∧
      t'.merge.recvReadResp.length=resps-reads es) : Inv qp n' := by
  have hlive := ht.survives (driver qp) _ n n' .completion c (t,g)
  have hsent : sent<+:(process qp t task).msgs.map
      (fun m' => (m',tag qp .completion t g (.completion task) m')) := ht.sent_prefix
  have hpushes : pushes ((process qp t task).msgs.map
      (fun m' => (m',tag qp .completion t g (.completion task) m')))=
      es.map (fun e => (e,{answered := g'.answered})) := by
    rw [pushes_tagged _ {answered := g'.answered} (fun _ _ => by rw [← hg']; rfl),hmsgs,
      sendPushes_append,sendPushes_sends,sendPushes_recvs,List.append_nil,List.map_map]
    rfl
  have hdones : dones ((process qp t task).msgs.map
      (fun m' => (m',tag qp .completion t g (.completion task) m')))=
      es.map (fun e => e.msgMeta.msn) := by
    rw [hmsgs,List.map_append,dones_append,dones_sends,dones_recvs,List.append_nil]
  have hrange : g'.answered=List.range g'.answered.length := by
    have htake := congrArg (List.take g'.answered.length) hnumbered
    have hlen := congrArg List.length hnumbered
    rw [List.take_left,List.take_range] at htake
    rw [List.length_append,List.length_range] at hlen
    rw [min_eq_left (by omega)] at htake
    exact htake
  refine turn_task qp n n' c t g _ rest sent ht h ?_ ?_
  · refine h.ordered.push _ _ _ _ t g htr es (left++(behind++(regs rest).map Prod.fst)) ?_
      g'.answered hrange (by omega) _ ?_ _ ?_
    · rw [hinner,← List.append_assoc es,← hsplit]
      simp
    · rw [← hpushes]
      exact hsent.filterMap _
    · rw [← hdones]
      exact hsent.filterMap _
  · intro t' a hs
    obtain ⟨hstate,ha,hfull⟩ := hlive (t',a) hs
    obtain rfl : a=g' := ha.trans hg'
    obtain ⟨hin,hmerge,hwaiting,hresp⟩ := hnext t' hstate
    change sent=(process qp t task).msgs.map _ at hfull
    rw [hfull,hpushes,hdones]
    refine htr.push _ _ _ _ t t' g a es popped ?_ ?_ hwaiting hdistinct hnumbered ?_ _
    · rw [hin,hinner]
    · rw [hmerge,hsplit]
    · omega

section Tasks
variable (qp : QpAttr) (n n' : State) (c : Nat) (t : QueuePairMessageTracker) (g : Answers) (k : Tag)
  (rest sent : List (Msg × Tag)) (h : Inv qp n)
include h

/-- A task that sends nothing. -/
theorem turn_task_quiet (task : CompletionTask)
    (ht : Net.Turn (prog qp) n .completion c (t,g) (.completion task,k) rest sent n')
    (hnil : (process qp t task).msgs=[]) (hst : ∀ t',(process qp t task).next=some t' →
      Tracked (regs n.log) (pushes n.log) (dones n.log) ((regs rest).map Prod.fst) t'
        (next qp .completion t g (.completion task))) : Inv qp n' := by
  have hlive := ht.survives (driver qp) _ n n' .completion c (t,g)
  have hsent : sent<+:(process qp t task).msgs.map
      (fun m' => (m',tag qp .completion t g (.completion task) m')) := ht.sent_prefix
  rw [hnil,List.map_nil,List.prefix_nil] at hsent
  subst hsent
  refine turn_task qp n n' c t g _ rest [] ht h ?_ ?_
  · simpa using h.ordered
  · intro t' g' hs
    obtain ⟨hnext,rfl,-⟩ := hlive (t',g') hs
    simpa using hst t' hnext

theorem turn_register (e : Event)
    (ht : Net.Turn (prog qp) n .completion c (t,g) (.completion (.register e),k) rest sent n')
    (hl : Allowed n (.work .completion c)) : Inv qp n' := by
  have htr := h.tracked t g ht.alive
  have hin := congrArg regs ht.head
  refine turn_task_quiet qp n n' c t g k rest sent h _ ht rfl ?_
  rintro t' ⟨⟩
  cases e with
  | send e =>
      rw [show regs (n.inbox .completion)=(e,k)::regs rest from hin] at htr
      exact htr.append _ _ _ _ t g e h.ordered
  | recv e =>
      rw [show regs (n.inbox .completion)=regs rest from hin] at htr
      have hreg : registering n=some (t,e) := by rw [registering,ht.alive,ht.head]
      exact htr.registerRecv _ _ _ _ t g e (hl _ hreg)
  | postRecv e =>
      rw [show regs (n.inbox .completion)=regs rest from hin] at htr
      exact ⟨htr.queued,htr.done,htr.window,htr.waiting,htr.distinct,htr.numbered,htr.responses⟩

theorem turn_ackSend (psn : Psn)
    (ht : Net.Turn (prog qp) n .completion c (t,g) (.completion (.ackSend psn),k) rest sent n') :
    Inv qp n' := by
  have htr := h.tracked t g ht.alive
  have hin := congrArg regs ht.head
  rw [show regs (n.inbox .completion)=regs rest from hin] at htr
  rcases process_ackSend_cases qp t psn with hproc|⟨es,left,hsplit,⟨hreads,-⟩,hproc⟩
  · exact turn_task_quiet qp n n' c t g k rest sent h _ ht (by rw [hproc])
      (by rw [hproc]; rintro t' ⟨⟩)
  refine turn_poll qp n n' c t g (.ackSend psn) k rest sent ht h htr es _ left
    (t.send.inner.dropWhile (due psn)) [] (by rw [hproc]; simp)
    List.takeWhile_append_dropWhile.symm hsplit _ hreads g rfl htr.responses htr.distinct
    htr.numbered ?_
  rw [hproc]
  rintro t' ⟨⟩
  exact ⟨rfl,rfl,htr.waiting,List.length_drop ..⟩

theorem turn_ackRecv (psn : Psn)
    (ht : Net.Turn (prog qp) n .completion c (t,g) (.completion (.ackRecv psn),k) rest sent n') :
    Inv qp n' := by
  have htr := h.tracked t g ht.alive
  have hin := congrArg regs ht.head
  rw [show regs (n.inbox .completion)=regs rest from hin] at htr
  rcases process_ackRecv_cases qp t psn with hproc|⟨es,left,hsplit,⟨hreads,-⟩,hproc⟩
  · exact turn_task_quiet qp n n' c t g k rest sent h _ ht (by rw [hproc])
      (by rw [hproc]; rintro t' ⟨⟩)
  have hpop : ((t.recv.ack psn).popAll t.recv.inner.length).1=
      t.recv.inner.takeWhile (due psn) := by
    have hp := popAll_eq t.recv.inner.length (t.recv.ack psn) le_rfl
    rw [hp]
    rfl
  obtain ⟨hwaiting,hdistinct,hnumbered,hlen⟩ := htr.acknowledge _ _ _ _ t g
    (t.recv.inner.takeWhile (due psn)) (t.recv.inner.dropWhile (due psn))
    List.takeWhile_append_dropWhile.symm
  refine turn_poll qp n n' c t g (.ackRecv psn) k rest sent ht h htr es [] left
    t.send.inner (completeAll (arrivals t psn) t.postRecvQueue).1 (by rw [hproc]) rfl
    (by rw [List.append_nil]; exact hsplit) _ hreads
    (g.acknowledge (t.recv.inner.takeWhile (due psn))) (by simp only [next,hpop]) ?_ hdistinct
    hnumbered ?_
  · have hold := htr.responses
    rw [responses,List.length_append,hlen]
    omega
  · rw [hproc]
    intro t' ht'
    obtain ⟨posts,-,rfl⟩ := Option.map_eq_some_iff.mp ht'
    exact ⟨rfl,rfl,hwaiting,List.length_drop ..⟩

end Tasks

theorem turn_completion (qp : QpAttr) (n n' : State) (c : Nat)
    (s : Worker.State .completion × Aux .completion) (x : Msg × Tag) (rest sent : List (Msg × Tag))
    (ht : Net.Turn (prog qp) n .completion c s x rest sent n')
    (hl : Allowed n (.work .completion c)) (h : Inv qp n) : Inv qp n' := by
  obtain ⟨t,g⟩ := s
  obtain ⟨m,k⟩ := x
  have hx := h.logged .completion (m,k) (by rw [ht.head]; exact List.mem_cons_self ..)
  obtain ⟨task,rfl⟩ := Driver.completion_of_dest m hx.2
  cases task with
  | register e => exact turn_register qp n n' c t g k rest sent h e ht hl
  | ackSend psn => exact turn_ackSend qp n n' c t g k rest sent h psn ht
  | ackRecv psn => exact turn_ackRecv qp n n' c t g k rest sent h psn ht

theorem external_silent (m : Msg) (k : Tag) (h : Driver.External m=true) :
    regs [(m,k)]=[] ∧ pushes [(m,k)]=[] ∧ dones [(m,k)]=[] := by
  unfold Driver.External at h
  split at h <;> first | exact ⟨rfl,rfl,rfl⟩ | cases h

theorem step_inv (qp : QpAttr) (n : State) (l : Label) (hl : Allowed n l ∧ Signaled n l)
    (h : Inv qp n) : Inv qp (n.step (prog qp) l) := by
  have hlogged := Net.step_logged (prog qp) n l h.logged
  cases l with
  | post x =>
      have hnone : regs (n.delivered (prog qp) [x])=[] ∧ pushes (n.delivered (prog qp) [x])=[] ∧
          dones (n.delivered (prog qp) [x])=[] := by
        obtain ⟨h1,h2,h3⟩ := external_silent x.1 x.2 hl.1
        have hinit : n.delivered (prog qp) [x]<+:[x] := List.takeWhile_prefix _
        exact ⟨List.prefix_nil.mp (h1 ▸ hinit.filterMap _),
          List.prefix_nil.mp (h2 ▸ hinit.filterMap _),List.prefix_nil.mp (h3 ▸ hinit.filterMap _)⟩
      apply h.frame qp n _ hlogged
      · simp [Net.step,Net.send,hnone]
      · simp [Net.step,Net.send,hnone]
      · simp [Net.step,Net.send,hnone]
      · intro s hs
        exact ⟨hs,by simp [Net.step,Net.send,regs_addressed,hnone]⟩
      · intro s hs
        exact ⟨hs,by simp [Net.step,Net.send,dones_addressed,hnone]⟩
  | crash w =>
      apply h.frame qp n _ hlogged rfl rfl rfl
      · intro s hs
        exact ⟨Net.step_crash (prog qp) n w .completion s hs,rfl⟩
      · intro s hs
        exact ⟨Net.step_crash (prog qp) n w .rdmaWrite s hs,rfl⟩
  | work w c =>
      rcases Net.work_cases (prog qp) n w c with heq|⟨s,x,rest,sent,ht⟩
      · rw [Net.step,heq]
        exact h
      · by_cases hw : w=.completion
        · subst hw
          exact turn_completion qp n _ c s x rest sent ht hl.1 h
        by_cases hw' : w=.rdmaWrite
        · subst hw'
          exact turn_rdmaWrite qp n _ c s x rest sent ht hl.2 h
        · exact turn_other qp n _ w hw' hw c s x rest sent ht h

theorem init_inv (qp : QpAttr) (config : AckTimeoutConfig) : Inv qp (init config) := by
  refine ⟨⟨List.prefix_rfl,List.prefix_rfl,List.Pairwise.nil,by simp [init,Driver.initWith,regs],
    Run.each_nil _,Run.each_nil _⟩,by simp [init,Driver.initWith,Net.Logged],?_,?_⟩
  · rintro t g ⟨⟩
    exact ⟨rfl,rfl,List.Pairwise.nil,rfl,List.nodup_nil,rfl,rfl⟩
  · rintro ctx g ⟨⟩
    exact ⟨rfl,by simp [init,Driver.initWith,regs],⟨[],rfl,rfl,Nat.zero_le _⟩,fun _ => rfl⟩

def run (qp : QpAttr) (config : AckTimeoutConfig) (ls : List Label) : State :=
  Run.run (Net.step (prog qp)) (init config) ls

end ReadOrder

open ReadOrder in
/-- In a run in which no signalled read follows an unsignalled one, completions are pushed in
the order the requests were registered, and that of a read only after its own response has been
registered and acknowledged. -/
theorem reads_complete_after_response (qp : QpAttr) (config : AckTimeoutConfig) (ls : List Label)
    (hls : Run.Along (Net.step (prog qp)) (fun n l => Allowed n l ∧ Signaled n l)
      (ReadOrder.init config) ls) :
    (∀ e c x,(.sendCq e c,x)∈(ReadOrder.run qp config ls).log → c=e.completion) ∧
    ∀ (i : Nat) (p : SendEvent × Tag),(pushes (ReadOrder.run qp config ls).log)[i]?=some p →
      ∃ r,(regs (ReadOrder.run qp config ls).log)[i]?=some r ∧ p.1=r.1 ∧
        (p.1.completion=.rdmaRead p.1.wrId → r.2.read∈p.2.answered) := by
  have h : Inv qp (ReadOrder.run qp config ls) := Run.run_inv (Net.step (prog qp))
    (fun n l => Allowed n l ∧ Signaled n l) (Inv qp) (step_inv qp) (ReadOrder.init config) ls hls
    (ReadOrder.init_inv qp config)
  have horigin : Driver.Origin (ReadOrder.run qp config ls) := Run.run_inv (Net.step (prog qp))
    (fun n l => Allowed n l ∧ Signaled n l) Driver.Origin
    (fun n l hl => Driver.step_origin qp _ n l (fun x hx => by subst hx; exact hl.1))
    (ReadOrder.init config) ls hls (by simp [ReadOrder.init,Driver.initWith,Driver.Origin])
  refine ⟨fun e c x hx => horigin.sendCq _ e c x hx,?_⟩
  intro i p hp
  set R := regs (ReadOrder.run qp config ls).log
  set P := pushes (ReadOrder.run qp config ls).log
  have hi : i<P.length := (List.getElem?_eq_some_iff.mp hp).1
  obtain ⟨tail,htail⟩ := h.ordered.pushed
  have hget : (R.map Prod.fst)[i]?=some p.1 := by
    rw [← htail,List.getElem?_append_left (by rwa [List.length_map]),List.getElem?_map,hp]
    rfl
  rw [List.getElem?_map] at hget
  obtain ⟨r,hr,heq⟩ := Option.map_eq_some_iff.mp hget
  refine ⟨r,hr,heq.symm,?_⟩
  intro hcompletion
  have hop : p.1.op=.readSignaled := by
    unfold SendEvent.completion at hcompletion
    split at hcompletion
    · cases hcompletion
    · cases hcompletion
    · assumption
  have hsame : (R.take i).map Prod.fst=(P.take i).map Prod.fst := by
    rw [List.map_take,List.map_take,← htail,
      List.take_append_of_le_length (by rw [List.length_map]; exact hi.le)]
  have hasked := h.ordered.asked i r hr (by rw [heq]; exact hop)
  rw [hasked,hsame]
  exact h.ordered.answered i p hp hop

namespace ReadOrder

def postRead (flags : UInt32) (wrId : UInt64) : Label :=
  .post (.rdma (.write ⟨⟨wrId,flags,0x1000,64,0,0,.rdmaRead⟩,0x2000,0⟩),{})

/-- The `k`-th message of the peer, the response to a read in one packet. -/
def response (k : Nat) : Label :=
  .post (.report (.headerWrite ⟨.only,Msn.wrap k,Psn.wrap k,false,false,0,.readResp⟩),{})

def ackRequests (k : Nat) : Label := .post (.report (.ackRemoteDriver ⟨Psn.wrap k⟩),{})

/-- Two signalled reads are posted; the acknowledgement of both comes before the responses. -/
def signaledReads : List Label :=
  [postRead ibvSendSignaled 7,postRead ibvSendSignaled 8,.work .rdmaWrite 0,.work .rdmaWrite 0,
    ackRequests 2,.work .metaReport 0,.work .completion 0,.work .completion 0,.work .completion 0,
    response 0,.work .metaReport 0,.work .completion 0,.work .completion 0,
    response 1,.work .metaReport 0,.work .completion 0,.work .completion 0]

/-- An unsignalled and a signalled read are posted, the first response arrives and both requests
are acknowledged. -/
def unsignaledRead : List Label :=
  [postRead 0 7,postRead ibvSendSignaled 8,.work .rdmaWrite 0,.work .rdmaWrite 0,
    response 0,.work .metaReport 0,.work .completion 0,.work .completion 0,.work .completion 0,
    ackRequests 2,.work .metaReport 0,.work .completion 0]

end ReadOrder

open ReadOrder in
theorem reads_complete_after_response_both :
    (pushes (ReadOrder.run shortPathQp .default signaledReads).log).length=2 ∧
    ∃ r,(regs (ReadOrder.run shortPathQp .default signaledReads).log)[1]?=some r ∧
      ⟨.readSignaled,⟨1,⟨2⟩⟩,8⟩=r.1 ∧ r.2.read∈[0,1] := by
  obtain ⟨r,hr,heq,hread⟩ := (reads_complete_after_response shortPathQp .default signaledReads
    (by decide +kernel)).2 1 (⟨.readSignaled,⟨1,⟨2⟩⟩,8⟩,{answered := [0,1]}) (by decide +kernel)
  exact ⟨by decide +kernel,r,hr,heq,hread rfl⟩

open ReadOrder in
/-- The signalled read is the second to go out and completes while only the first response has
arrived. -/
theorem unsignaled_read_shifts_responses :
    Run.Along (Net.step (prog shortPathQp)) Allowed (ReadOrder.init .default) unsignaledRead ∧
    (pushes (ReadOrder.run shortPathQp .default unsignaledRead).log).map
      (fun p => (p.1.op,p.1.wrId,p.2.answered))=[(.readSignaled,8,[0])] ∧
    (regs (ReadOrder.run shortPathQp .default unsignaledRead).log).map
      (fun r => (r.1.op,r.1.wrId,r.2.read))=[(.readSignaled,8,1)] := by
  decide +kernel

end BlueRdma

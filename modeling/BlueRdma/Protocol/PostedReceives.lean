import BlueRdma.Math.Lists
import BlueRdma.Net.RecvChan
import BlueRdma.Verbs.Post
import BlueRdma.Workers.Driver

namespace BlueRdma
open QueuePairMessageTracker MessageTracker CompletionWorker

namespace PostedReceives

/-- A responder and the initiator connected to it, on one QP: the responder's worker threads and
its end of the channel for posted receives, the receives on their way, and the initiator's queue
of them. For the record, the receives registered so far and the Sends posted with success, each
with the receive it took. -/
structure Peers (N : Type) where
  net : N
  tx : TcpChannelTx
  wire : List RecvWr := []
  queue : List RecvWr := []
  posts : List RecvWr := []
  sends : List (RecvWr × SendWrRdma) := []

/-- Calls on both sides, a receive that arrives, and steps of the responder's threads. -/
inductive PeersLabel (M : Type)
  | postRecv (wr : RecvWr) (io : ChannelIo)
  | arrive
  | send (wr : SendWrBase)
  | net (l : NetLabel Worker Nat M)

def registration (wr : RecvWr) : Msg := .completion (.register (.postRecv ⟨wr.wrId⟩))

section Steps
variable {N M : Type} (stepNet : N → NetLabel Worker Nat M → N) (alive : N → Bool) (lift : Msg → M)

/-- `HwDeviceCtx::post_recv` of the connected responder: the registration goes out first. -/
def postRecv (s : Peers N) (wr : RecvWr) (io : ChannelIo) : Peers N :=
  if alive s.net then
    let r := s.tx.send io
    {s with
      net := stepNet s.net (.post (lift (registration wr)))
      tx := r.1
      wire := s.wire++(match r.2 with | .ok () => [wr] | .error _ => [])
      posts := s.posts++[wr]}
  else s

/-- `HwDeviceCtx::send` of the initiator. -/
def send (s : Peers N) (wr : SendWrBase) : Peers N :=
  let c := HwDeviceCtx.send s.queue wr
  {s with
    queue := c.next
    sends := s.sends++(match s.queue,c.result with
      | r::_,some (.ok w) => [(r,w)]
      | _,_ => [])}

/-- `RecvWorker::run` of the initiator. -/
def arrive (s : Peers N) : Peers N :=
  match s.wire with
  | [] => s
  | wr::rest => {s with wire := rest,queue := s.queue++[wr]}

def step (s : Peers N) : PeersLabel M → Peers N
  | .postRecv wr io => postRecv stepNet alive lift s wr io
  | .arrive => arrive s
  | .send wr => send s wr
  | .net l => {s with net := stepNet s.net l}

end Steps

/-- The completion worker of the responder can still be told of receives. -/
def alive {σ : Worker → Type} {M : Type} (n : Net Worker σ M) : Bool := (n.state .completion).isSome

def plainStep (qp : QpAttr) : Peers (Net Worker Worker.State Msg) → PeersLabel Msg →
    Peers (Net Worker Worker.State Msg) :=
  step (Net.step (driver qp)) alive id

/-- Two freshly connected QPs. -/
def fresh (config : AckTimeoutConfig) (tx : TcpChannelTx) : Peers (Net Worker Worker.State Msg) where
  net := Driver.init config
  tx := tx

/-- The identifier a receive completion names. -/
def idOf : Option Completion → Option UInt64
  | some (.recv wrId _) => some wrId
  | _ => none

/-- The identifiers of the receive completions among the messages. -/
def recvIds (ms : List Msg) : List UInt64 := (recvPolls ms).filterMap (fun p => idOf p.2)

@[simp] theorem recvIds_append (ms ms' : List Msg) : recvIds (ms++ms')=recvIds ms++recvIds ms' := by
  rw [recvIds,recvPolls_append,List.filterMap_append]
  rfl

/-- The receive completions name, one by one, the receives whose memory the Sends address. -/
def Named (s : Peers (Net Worker Worker.State Msg)) : Prop :=
  ∀ (k : Nat) (wrId : UInt64),(recvIds s.net.log)[k]?=some wrId →
    ∃ r w,s.sends[k]?=some (r,w) ∧ r∈s.posts ∧ w.raddr=r.addr ∧ w.rkey=r.lkey ∧ r.wrId=wrId

section Tags

/-- The event takes a posted receive. -/
def takes (e : RecvEvent) : Bool :=
  match e.op with
  | .recv | .recvWithImm _ => true
  | _ => false

instance : EventMeta (RecvEvent × Nat) := ⟨fun x => x.1.msgMeta⟩

@[reducible] def Aux : Worker → Type
  | .completion => MessageTracker (RecvEvent × Nat)
  | _ => Unit

/-- A packet of a Send carries its number, and so does what the report worker sends for it. -/
def tag : Worker → Nat → Nat
  | .metaReport,k => k
  | _,_ => 0

/-- The completion worker's receive events with the numbers of their Sends. -/
def next : (w : Worker) → Aux w → Msg → Nat → Aux w
  | .completion,g,.completion (.register (.recv e)),k => g.append (e,k)
  | .completion,g,.completion (.ackRecv p),_ => ⟨g.inner.dropWhile (due p),p⟩
  | _,g,_,_ => g

def ghost (qp : QpAttr) : Ghost (driver qp) Aux Nat where
  tag := fun w _ _ _ _ k _ => tag w k
  next := fun w _ _ g m k => next w g m k

def prog (qp : QpAttr) : Program Worker (fun w => w.State × Aux w) Nat (Msg × Nat) :=
  (driver qp).instrument (ghost qp)

abbrev TaggedNet := Net Worker (fun w => w.State × Aux w) (Msg × Nat)
abbrev State := Peers TaggedNet
abbrev Label := PeersLabel (Msg × Nat)

def initAux : (w : Worker) → Aux w
  | .completion => {}
  | .rdmaWrite | .metaReport | .packetRetransmit | .ackResponder | .ackTimeout => ()

def init (config : AckTimeoutConfig) (tx : TcpChannelTx) : State where
  net := Driver.initWith config initAux
  tx := tx

def taggedStep (qp : QpAttr) : State → Label → State :=
  step (Net.step (prog qp)) alive (fun m => (m,0))

def PeersLabel.erase : Label → PeersLabel Msg
  | .postRecv wr io => .postRecv wr io
  | .arrive => .arrive
  | .send wr => .send wr
  | .net l => .net l.erase

def erase (s : State) : Peers (Net Worker Worker.State Msg) where
  net := s.net.erase
  tx := s.tx
  wire := s.wire
  queue := s.queue
  posts := s.posts
  sends := s.sends

theorem erase_step (qp : QpAttr) (s : State) (l : Label) :
    erase (taggedStep qp s l)=plainStep qp (erase s) l.erase := by
  have hnet := fun l => Net.erase_step (driver qp) (ghost qp) s.net l
  cases l with
  | postRecv wr io =>
      have halive : alive s.net.erase=alive s.net := Option.isSome_map
      simp only [taggedStep,plainStep,step,postRecv,PeersLabel.erase]
      change erase (if alive s.net then _ else s)=if alive s.net.erase then _ else _
      rw [halive]
      split_ifs
      · simp only [erase]
        rw [show (Net.step (prog qp) s.net (.post (registration wr,0))).erase=
          Net.step (driver qp) s.net.erase (.post (registration wr)) from hnet _]
        rfl
      · rfl
  | arrive =>
      simp only [taggedStep,plainStep,step,arrive,PeersLabel.erase]
      change erase (match s.wire with | [] => s | wr::rest => _)=
        match s.wire with | [] => _ | wr::rest => _
      rcases s.wire with _|⟨wr,rest⟩ <;> rfl
  | send wr => rfl
  | net l =>
      simp only [taggedStep,plainStep,step,PeersLabel.erase,erase]
      rw [show (Net.step (prog qp) s.net l).erase=Net.step (driver qp) s.net.erase l.erase from hnet l]

theorem erase_run (qp : QpAttr) (s : State) (ls : List Label) :
    erase (Run.run (taggedStep qp) s ls)=
      Run.run (plainStep qp) (erase s) (ls.map PeersLabel.erase) := by
  induction ls generalizing s with
  | nil => rfl
  | cons l ls ih => rw [Run.run_cons,ih,erase_step,List.map_cons,Run.run_cons]

end Tags

/-- The receive events the completion worker's next task makes due, with the number of posted
receives it has queued. -/
def maturing (n : TaggedNet) : List (Nat × RecvEvent × Nat) :=
  match n.state .completion,n.inbox .completion with
  | some s,(.completion (.ackRecv p),_)::_ =>
    (s.2.inner.takeWhile (due p)).map (fun y => (s.1.postRecvQueue.length,y))
  | _,_ => []

def isRegistration : Msg → Bool
  | .completion (.register (.postRecv _)) => true
  | _ => false

/-- The packet is one of a Send. -/
def ofSend : Msg → Bool
  | .report (.headerWrite x) => takes (MetaHandler.recvEvent x)
  | _ => false

/-- Packets of a Send arrive after it was posted. The event of the Send with number `k` becomes due
while at most one receive is queued, and after at most `k` receive completions. -/
def Allowed (s : State) : Label → Prop
  | .net (.post x) => Driver.External x.1=true ∧ isRegistration x.1=false ∧
    (ofSend x.1=true → x.2< s.sends.length)
  | .net (.work .completion _) => ∀ y∈maturing s.net,takes y.2.1=true →
    y.1≤1 ∧ (recvIds (s.net.log.map Prod.fst)).length≤y.2.2
  | _ => True

instance (s : State) (l : Label) : Decidable (Allowed s l) :=
  match l with
  | .net (.post x) => inferInstanceAs (Decidable (Driver.External x.1=true ∧
      isRegistration x.1=false ∧ (ofSend x.1=true → x.2< s.sends.length)))
  | .net (.work .completion _) => inferInstanceAs (Decidable (∀ y∈maturing s.net,takes y.2.1=true →
      y.1≤1 ∧ (recvIds (s.net.log.map Prod.fst)).length≤y.2.2))
  | .net (.work .rdmaWrite _) | .net (.work .metaReport _) | .net (.work .packetRetransmit _)
  | .net (.work .ackResponder _) | .net (.work .ackTimeout _) | .net (.crash _)
  | .postRecv _ _ | .arrive | .send _ => inferInstanceAs (Decidable True)

/-- The receive event a message registers. -/
def eventOf : Msg → Option RecvEvent
  | .completion (.register (.recv e)) => some e
  | _ => none

theorem eventOf_some (m : Msg) (e : RecvEvent) (h : eventOf m=some e) :
    m=.completion (.register (.recv e)) := by
  unfold eventOf at h
  split at h
  · rw [Option.some.inj h]
  · cases h

def isRecvCq : Msg → Bool
  | .recvCq _ _ => true
  | _ => false

/-- The identifiers of the receives waiting to be registered. -/
def postIds (ms : List (Msg × Nat)) : List UInt64 :=
  ms.filterMap (fun | (.completion (.register (.postRecv e)),_) => some e.wrId | _ => none)

@[simp] theorem postIds_append (ms ms' : List (Msg × Nat)) :
    postIds (ms++ms')=postIds ms++postIds ms' := List.filterMap_append

/-- The receive that Send `k` took is one of the first `b` registered. -/
def Backed (us : List Nat) (b k : Nat) : Prop := ∃ p,us[k]?=some p ∧ p<b

theorem Backed.mono (us us' : List Nat) (b b' k : Nat) (h : Backed us b k) (hb : b≤b')
    (hu : us<+:us') : Backed us' b' k := by
  obtain ⟨p,hp,hlt⟩ := h
  obtain ⟨vs,rfl⟩ := hu
  have hk : k<us.length := (List.getElem?_eq_some_iff.mp hp).1
  exact ⟨p,by rw [List.getElem?_append_left hk]; exact hp,hlt.trans_le hb⟩

/-- With `b` receives registered, the event of a Send is registered behind the receive it took. -/
def Causal (us : List Nat) : Nat → List (Msg × Nat) → Prop
  | _,[] => True
  | b,x::xs => (∀ e∈eventOf x.1,takes e=true → Backed us b x.2) ∧
    Causal us (b+(postIds [x]).length) xs

theorem causal_append (us : List Nat) (b : Nat) (xs ys : List (Msg × Nat)) :
    Causal us b (xs++ys) ↔ Causal us b xs ∧ Causal us (b+(postIds xs).length) ys := by
  induction xs generalizing b with
  | nil => simp [Causal,postIds]
  | cons x xs ih =>
      have hlen : (postIds (x::xs)).length=(postIds [x]).length+(postIds xs).length := by
        rw [show x::xs=[x]++xs from rfl,postIds_append,List.length_append]
      rw [List.cons_append,Causal,Causal,ih,hlen,and_assoc,Nat.add_assoc]

theorem Causal.mono (us us' : List Nat) (b : Nat) (xs : List (Msg × Nat)) (h : Causal us b xs)
    (hu : us<+:us') : Causal us' b xs := by
  induction xs generalizing b with
  | nil => trivial
  | cons x xs ih =>
      exact ⟨fun e he ht => (h.1 e he ht).mono us us' b b x.2 le_rfl hu,ih _ h.2⟩

theorem causal_of_forall (us : List Nat) (b : Nat) (xs : List (Msg × Nat))
    (h : ∀ x∈xs,∀ e∈eventOf x.1,takes e=true → Backed us b x.2) :
    Causal us b xs := by
  induction xs generalizing b with
  | nil => trivial
  | cons x xs ih =>
      refine ⟨h x List.mem_cons_self,ih _ ?_⟩
      intro y hy e he ht
      exact (h y (List.mem_cons_of_mem _ hy) e he ht).mono us us b _ y.2 (Nat.le_add_right _ _)
        (List.prefix_refl us)

/-- The receives the Sends have taken, those queued at the initiator and those on their way stand
at increasing places among the registered ones. -/
structure Placed (s : State) (us qs ws : List Nat) : Prop where
  sorted : (us++(qs++ws)).Pairwise (·<·)
  used : us.map (fun p => s.posts[p]?)=s.sends.map (fun x => some x.1)
  queue : qs.map (fun p => s.posts[p]?)=s.queue.map some
  wire : ws.map (fun p => s.posts[p]?)=s.wire.map some

/-- The registered receives are those named by completions, those queued and those in the
channel, in this order. -/
structure Live (us : List Nat) (posts : List RecvWr) (ids : List UInt64) (inbox : List (Msg × Nat))
    (t : QueuePairMessageTracker) (g : MessageTracker (RecvEvent × Nat)) : Prop where
  shadow : g.inner.map Prod.fst=t.recv.inner
  drained : t.merge.recv=[]
  posts : posts.map RecvWr.wrId=ids++(t.postRecvQueue.map PostRecvEvent.wrId++postIds inbox)
  tracked : ∀ y∈g.inner,takes y.1=true → Backed us (ids.length+t.postRecvQueue.length) y.2
  causal : Causal us (ids.length+t.postRecvQueue.length) inbox

structure InvAt (s : State) (us qs ws : List Nat) : Prop where
  placed : Placed s us qs ws
  targets : ∀ x∈s.sends,x.2.raddr=x.1.addr ∧ x.2.rkey=x.1.lkey
  named : recvIds (s.net.log.map Prod.fst)<+:s.sends.map (fun x => x.1.wrId)
  reported : ∀ x∈s.net.inbox .metaReport,ofSend x.1=true → x.2< s.sends.length
  live : ∀ t g,s.net.state .completion=some (t,g) →
    Live us s.posts (recvIds (s.net.log.map Prod.fst)) (s.net.inbox .completion) t g

def Inv (s : State) : Prop := ∃ us qs ws,InvAt s us qs ws

theorem Placed.length_used (s : State) (us qs ws : List Nat) (h : Placed s us qs ws) :
    us.length=s.sends.length := by
  have hlen := congrArg List.length h.used
  rwa [List.length_map,List.length_map] at hlen

theorem Placed.lt (s : State) (us qs ws : List Nat) (h : Placed s us qs ws) (p : Nat)
    (hp : p∈us++(qs++ws)) : p< s.posts.length := by
  have hused : us.map (fun p => s.posts[p]?)=(s.sends.map Prod.fst).map some := by
    rw [h.used,List.map_map]
    rfl
  rcases List.mem_append.mp hp with hp|hp
  · exact Lists.lt_of_map_getElem? _ _ us p hused hp
  rcases List.mem_append.mp hp with hp|hp
  · exact Lists.lt_of_map_getElem? _ _ qs p h.queue hp
  · exact Lists.lt_of_map_getElem? _ _ ws p h.wire hp

/-- The next receive is registered, and goes on its way if the channel works. -/
theorem Placed.post (s s' : State) (us qs ws : List Nat) (wr : RecvWr) (h : Placed s us qs ws)
    (hposts : s'.posts=s.posts++[wr]) (hsends : s'.sends=s.sends) (hqueue : s'.queue=s.queue)
    (hwire : s'.wire=s.wire ∨ s'.wire=s.wire++[wr]) : ∃ ws',Placed s' us qs ws' := by
  have hused : us.map (fun p => s'.posts[p]?)=s'.sends.map (fun x => some x.1) := by
    have hmap : us.map (fun p => s.posts[p]?)=(s.sends.map Prod.fst).map some := by
      rw [h.used,List.map_map]
      rfl
    rw [hposts,Lists.map_getElem?_append _ _ _ us hmap,hsends,List.map_map]
    rfl
  have hqueue' : qs.map (fun p => s'.posts[p]?)=s'.queue.map some := by
    rw [hposts,Lists.map_getElem?_append _ _ _ qs h.queue,hqueue]
  have hwire' : ws.map (fun p => s'.posts[p]?)=s.wire.map some := by
    rw [hposts,Lists.map_getElem?_append _ _ _ ws h.wire]
  rcases hwire with hw|hw
  · exact ⟨ws,h.sorted,hused,hqueue',by rw [hwire',hw]⟩
  · refine ⟨ws++[s.posts.length],?_,hused,hqueue',?_⟩
    · rw [← List.append_assoc,← List.append_assoc,List.append_assoc us]
      refine List.pairwise_append.mpr ⟨h.sorted,List.pairwise_singleton _ _,?_⟩
      intro p hp q hq
      rw [List.mem_singleton.mp hq]
      exact h.lt s us qs ws p hp
    · rw [List.map_append,hwire',hw,List.map_append,hposts]
      simp

theorem recvIds_eq_nil (ms : List (Msg × Nat)) (h : ∀ y∈ms,isRecvCq y.1=false) :
    recvIds (ms.map Prod.fst)=[] := by
  have hpolls : recvPolls (ms.map Prod.fst)=[] := by
    refine List.filterMap_eq_nil_iff.mpr ?_
    intro m hm
    obtain ⟨y,hy,rfl⟩ := List.mem_map.mp hm
    split
    · next e c heq =>
        have hy' := h y hy
        rw [heq] at hy'
        cases hy'
    · rfl
  rw [recvIds,hpolls,List.filterMap_nil]

theorem postIds_eq_nil (ms : List (Msg × Nat)) (h : ∀ y∈ms,isRegistration y.1=false) :
    postIds ms=[] := by
  refine List.filterMap_eq_nil_iff.mpr ?_
  rintro ⟨m,k⟩ hy
  have hm := h _ hy
  dsimp only at hm ⊢
  split
  · next e k' heq =>
      rw [(Prod.mk.inj heq).1] at hm
      cases hm
  · rfl

/-- What others than the completion worker send to it. -/
structure Feeds (n : Nat) (y : Msg × Nat) : Prop where
  silent : isRecvCq y.1=false
  registration : isRegistration y.1=false
  number : ∀ e∈eventOf y.1,takes e=true → y.2<n

/-- Steps of the responder that do not move its completion worker. -/
theorem InvAt.frame (s : State) (us qs ws : List Nat) (n' : TaggedNet) (ms ys : List (Msg × Nat))
    (h : InvAt s us qs ws) (hlog : n'.log=s.net.log++ms)
    (hms : ∀ y∈ms,isRecvCq y.1=false)
    (hreported : ∀ x∈n'.inbox .metaReport,ofSend x.1=true → x.2< s.sends.length)
    (hstate : ∀ x,n'.state .completion=some x → s.net.state .completion=some x)
    (hinbox : n'.inbox .completion=s.net.inbox .completion++ys)
    (hys : ∀ y∈ys,Feeds s.sends.length y) : InvAt {s with net := n'} us qs ws := by
  have hids : recvIds (n'.log.map Prod.fst)=recvIds (s.net.log.map Prod.fst) := by
    rw [hlog,List.map_append,recvIds_append,recvIds_eq_nil ms hms,List.append_nil]
  refine ⟨⟨h.placed.sorted,h.placed.used,h.placed.queue,h.placed.wire⟩,h.targets,?_,hreported,?_⟩
  · rw [hids]
    exact h.named
  · intro t g ht
    have hl := h.live t g (hstate _ ht)
    rw [hids]
    dsimp only
    have hposts := hl.posts
    rw [hinbox]
    refine ⟨hl.shadow,hl.drained,?_,hl.tracked,?_⟩
    · rw [postIds_append,postIds_eq_nil ys (fun y hy => (hys y hy).registration),List.append_nil]
      exact hposts
    · refine (causal_append us _ _ ys).mpr ⟨hl.causal,causal_of_forall us _ ys ?_⟩
      intro y hy e he htk
      -- the Send was posted, so the receive it took has been registered
      have hlt := (hys y hy).number e he htk
      rw [← h.placed.length_used] at hlt
      have hlen := congrArg List.length hposts
      simp only [List.length_map,List.length_append] at hlen
      refine ⟨us[y.2],List.getElem?_eq_getElem hlt,?_⟩
      have := h.placed.lt s us qs ws us[y.2] (List.mem_append_left _ (List.getElem_mem hlt))
      omega

/-- Reports come from outside. -/
theorem not_report_of_emits (w : Worker) (m : Msg) (h : Driver.Emits w m) :
    Driver.dest m≠some .metaReport := by
  intro hd
  cases h <;> cases hd

theorem not_own_of_emits (m : Msg) (h : Driver.Emits .completion m) :
    Driver.dest m≠some .completion := by
  intro hd
  cases h <;> cases hd

theorem feeds_of_emits (n : Nat) (w : Worker) (hw : w≠.completion) (y : Msg × Nat)
    (hy : Driver.Emits w y.1)
    (hn : w=.metaReport → ∀ e∈eventOf y.1,takes e=true → y.2<n) :
    Feeds n y := by
  obtain ⟨m,k⟩ := y
  have hnumber : eventOf m=none → ∀ e∈eventOf m,takes e=true → k<n := by
    intro hnone e he
    rw [hnone] at he
    cases he
  cases hy with
  | registerRecv e => exact ⟨rfl,rfl,hn rfl⟩
  | _ => first | exact absurd rfl hw | exact ⟨rfl,rfl,hnumber rfl⟩

/-- Only packets of Sends register events that take a receive. -/
theorem handleMeta_takes (h : MetaHandler) (m : ReportMeta) (e : RecvEvent)
    (hm : Msg.completion (.register (.recv e))∈(h.handleMeta m).msgs) (he : takes e=true) :
    ofSend (.report m)=true := by
  rcases h.handleMeta_event m e hm with ⟨x,rfl,rfl⟩|⟨x,rfl,rfl⟩
  · exact he
  · cases he

theorem turn_other (qp : QpAttr) (s : State) (us qs ws : List Nat) (n' : TaggedNet) (w : Worker)
    (hw : w≠.completion) (c : Nat) (st : w.State × Aux w) (x : Msg × Nat)
    (rest sent : List (Msg × Nat)) (ht : Net.Turn (prog qp) s.net w c st x rest sent n')
    (h : InvAt s us qs ws) : InvAt {s with net := n'} us qs ws := by
  have hfeeds : ∀ y∈sent,Feeds s.sends.length y := by
    intro y hy
    obtain ⟨m,hm,rfl⟩ := List.mem_map.mp (ht.sent_prefix.subset hy)
    refine feeds_of_emits _ w hw _ (Driver.process_emits qp w c st.1 x.1 m hm) ?_
    rintro rfl e he htk
    obtain rfl := eventOf_some m e he
    have hx := h.reported x (by rw [ht.head]; exact List.mem_cons_self)
    obtain ⟨m,k⟩ := x
    cases m with
    | report r => exact hx (handleMeta_takes st.1 r e hm htk)
    | _ => cases hm
  have hnone : ∀ y∈sent,Driver.dest y.1≠some .metaReport := fun y hy =>
    not_report_of_emits w y.1
      (Driver.emits_sent qp (ghost qp) s.net n' w c st x rest sent ht y hy)
  refine h.frame s us qs ws n' sent (Net.addressed (prog qp) .completion sent) ht.log
    (fun y hy => (hfeeds y hy).silent) ?_ ?_ (ht.inbox_other _ (Ne.symm hw)) ?_
  · intro y hy
    rcases ht.mem_inbox _ _ _ _ _ _ _ _ _ _ y hy with hy'|hy'
    · exact h.reported y hy'
    · by_cases hm : w=.metaReport
      · subst hm
        rw [ht.inbox_self] at hy
        rcases List.mem_append.mp hy with hy|hy
        · exact h.reported y (by rw [ht.head]; exact List.mem_cons_of_mem _ hy)
        · exact absurd ((Net.mem_addressed _ _ _ y).mp hy).2 (hnone y hy')
      · rw [ht.inbox_other _ (Ne.symm hm)] at hy
        rcases List.mem_append.mp hy with hy|hy
        · exact h.reported y hy
        · exact absurd ((Net.mem_addressed _ _ _ y).mp hy).2 (hnone y hy')
  · intro st' hst'
    rw [ht.state_other _ (Ne.symm hw)] at hst'
    exact hst'
  · intro y hy
    exact hfeeds y ((Net.mem_addressed _ _ _ y).mp hy).1

section Completions

/-- The identifiers named by a list of completions. -/
def ids (ps : List (RecvEvent × Option Completion)) : List UInt64 := ps.filterMap (fun p => idOf p.2)

theorem complete_keeps (e : RecvEvent) (posts posts' : List PostRecvEvent) (c : Option Completion)
    (he : takes e=false) (h : complete e posts=some (c,posts')) : posts'=posts ∧ idOf c=none := by
  unfold complete at h
  unfold takes at he
  split at h
  · obtain ⟨rfl,rfl⟩ := Prod.mk.inj (Option.some.inj h)
    exact ⟨rfl,rfl⟩
  · next hop => simp [hop] at he
  · next hop => simp [hop] at he
  · cases h
  · obtain ⟨rfl,rfl⟩ := Prod.mk.inj (Option.some.inj h)
    exact ⟨rfl,rfl⟩
  · obtain ⟨rfl,rfl⟩ := Prod.mk.inj (Option.some.inj h)
    exact ⟨rfl,rfl⟩

theorem complete_takes (e : RecvEvent) (posts posts' : List PostRecvEvent) (c : Option Completion)
    (he : takes e=true) (h : complete e posts=some (c,posts')) :
    ∃ x,posts.getLast?=some x ∧ posts'=posts.dropLast ∧ idOf c=some x.wrId := by
  have htake : ∀ imm,posts.getLast?.map
      (fun x => (some (Completion.recv x.wrId imm),posts.dropLast))=some (c,posts') →
      ∃ x,posts.getLast?=some x ∧ posts'=posts.dropLast ∧ idOf c=some x.wrId := by
    intro imm hm
    obtain ⟨x,hx,heq⟩ := Option.map_eq_some_iff.mp hm
    obtain ⟨rfl,rfl⟩ := Prod.mk.inj heq
    exact ⟨x,hx,rfl,rfl⟩
  unfold complete at h
  unfold takes at he
  split at h
  · next hop => simp [hop] at he
  · exact htake none h
  · exact htake _ h
  · next hop => simp [hop] at he
  · next hop => simp [hop] at he
  · next hop => simp [hop] at he

/-- With at most one receive queued whenever an event takes one, the completions name the queued
receive or nothing, and what they name has left the queue. -/
theorem completeAll_ids (es : List RecvEvent) (posts : List PostRecvEvent)
    (h : ∀ e∈es,takes e=true → posts.length≤1) :
    (ids (completeAll es posts).1=[] ∨ (∃ e∈es,takes e=true) ∧
      ids (completeAll es posts).1=posts.map PostRecvEvent.wrId ∧ posts.length=1) ∧
    ∀ posts'∈(completeAll es posts).2,
      ids (completeAll es posts).1++posts'.map PostRecvEvent.wrId=posts.map PostRecvEvent.wrId := by
  induction es generalizing posts with
  | nil =>
      refine ⟨Or.inl rfl,?_⟩
      intro posts' hp
      obtain rfl := Option.some.inj hp
      rfl
  | cons e es ih =>
      rcases hc : complete e posts with _|⟨c,mid⟩
      · rw [completeAll,hc]
        exact ⟨Or.inl rfl,fun posts' hp => absurd hp (Option.not_mem_none posts')⟩
      rw [completeAll_cons e es posts mid c hc]
      by_cases he : takes e=true
      · obtain ⟨x,hx,rfl,hid⟩ := complete_takes e posts mid c he hc
        have hle := h e List.mem_cons_self he
        obtain rfl : posts=[x] := by
          rcases posts with _|⟨y,_|⟨z,rest⟩⟩
          · cases hx
          · rw [show y=x from Option.some.inj hx]
          · simp at hle
        obtain ⟨hnil,hnext⟩ := ih [] (fun _ _ _ => Nat.zero_le 1)
        have hrest : ids (completeAll es []).1=[] := by
          rcases hnil with hnil|⟨-,hnil,-⟩
          · exact hnil
          · exact hnil
        have hids : ids ((e,c)::(completeAll es []).1)=[x.wrId] := by
          rw [ids,List.filterMap_cons,hid,← ids,hrest]
        rw [List.dropLast_singleton]
        dsimp only
        rw [hids]
        refine ⟨Or.inr ⟨⟨e,List.mem_cons_self,he⟩,rfl,rfl⟩,?_⟩
        intro posts' hp
        have := hnext posts' hp
        rw [hrest,List.nil_append] at this
        rw [this]
        rfl
      · have he : takes e=false := by simpa using he
        obtain ⟨rfl,hid⟩ := complete_keeps e posts mid c he hc
        obtain ⟨hor,hnext⟩ := ih mid (fun e' he' => h e' (List.mem_cons_of_mem _ he'))
        have hids : ids ((e,c)::(completeAll es mid).1)=ids (completeAll es mid).1 := by
          rw [ids,List.filterMap_cons,hid,← ids]
        dsimp only
        rw [hids]
        refine ⟨?_,hnext⟩
        rcases hor with hnil|⟨⟨e',he',ht⟩,hids',hlen⟩
        · exact Or.inl hnil
        · exact Or.inr ⟨⟨e',List.mem_cons_of_mem _ he',ht⟩,hids',hlen⟩

/-- Increasing numbers are at least their places. -/
theorem le_getElem_of_sorted (us : List Nat) (h : us.Pairwise (·<·)) (k : Nat)
    (hk : k<us.length) : k≤us[k] := by
  induction k with
  | zero => exact Nat.zero_le _
  | succ k ih =>
      have hlt := List.pairwise_iff_getElem.mp h k (k+1) (by omega) hk (Nat.lt_succ_self k)
      have := ih (by omega)
      omega

/-- If the receive a later Send took is among the first ones registered, then so far each Send has
taken the receive at its own place. -/
theorem backed_place (us : List Nat) (h : us.Pairwise (·<·)) (c k : Nat) (hck : c≤k)
    (hk : Backed us (c+1) k) : us[c]?=some c := by
  obtain ⟨p,hp,hlt⟩ := hk
  obtain ⟨hklt,hget⟩ := List.getElem?_eq_some_iff.mp hp
  have hclt : c<us.length := by omega
  have hle := le_getElem_of_sorted us h c hclt
  have hmono : us[c]≤us[k] := by
    rcases Nat.eq_or_lt_of_le hck with rfl|hlt'
    · exact le_rfl
    · exact (List.pairwise_iff_getElem.mp h c k hclt hklt hlt').le
  rw [List.getElem?_eq_getElem hclt]
  congr 1
  omega

/-- The next receive completion names the receive of the next Send. -/
theorem InvAt.next_named (s : State) (us qs ws : List Nat) (h : InvAt s us qs ws)
    (t : QueuePairMessageTracker) (g : MessageTracker (RecvEvent × Nat))
    (ht : s.net.state .completion=some (t,g)) (x : PostRecvEvent) (hx : t.postRecvQueue=[x])
    (y : RecvEvent × Nat) (hy : y∈g.inner) (htk : takes y.1=true)
    (hle : (recvIds (s.net.log.map Prod.fst)).length≤y.2) :
    recvIds (s.net.log.map Prod.fst)++[x.wrId]<+:s.sends.map (fun x => x.1.wrId) := by
  have hl := h.live t g ht
  set done := recvIds (s.net.log.map Prod.fst) with hdone
  have hback := hl.tracked y hy htk
  rw [hx] at hback
  have hplace := backed_place us (List.pairwise_append.mp h.placed.sorted).1 done.length y.2 hle hback
  have hpost : (s.posts.map RecvWr.wrId)[done.length]?=some x.wrId := by
    rw [hl.posts,hx,List.getElem?_append_right le_rfl,Nat.sub_self]
    rfl
  have hsend : (s.sends.map (fun x => x.1.wrId))[done.length]?=some x.wrId := by
    have hused := congrArg (fun l => l[done.length]?) h.placed.used
    simp only [List.getElem?_map,hplace,Option.map_some] at hused hpost ⊢
    obtain ⟨z,hz,hzx⟩ := Option.map_eq_some_iff.mp hpost
    rw [hz] at hused
    obtain ⟨w,hw,hwz⟩ := Option.map_eq_some_iff.mp hused.symm
    rw [hw,Option.map_some,Option.some.inj hwz,hzx]
  obtain ⟨rest,hrest⟩ := h.named
  rw [← hrest,List.getElem?_append_right le_rfl,Nat.sub_self] at hsend
  obtain ⟨tail,htail⟩ := List.head?_eq_some_iff.mp (List.head?_eq_getElem? ▸ hsend)
  exact ⟨tail,by rw [← hrest,htail,List.append_assoc]; rfl⟩

/-- What a task of the completion worker does: it names the one queued receive, or none, and the
registered receives stay accounted for. -/
structure Effect (us : List Nat) (posts : List RecvWr) (done : List UInt64)
    (rest : List (Msg × Nat)) (t : QueuePairMessageTracker) (g g' : MessageTracker (RecvEvent × Nat))
    (o : Outcome Msg QueuePairMessageTracker) : Prop where
  names : recvIds o.msgs=[] ∨ ∃ x y,t.postRecvQueue=[x] ∧ recvIds o.msgs=[x.wrId] ∧ y∈g.inner ∧
    takes y.1=true ∧ done.length≤y.2
  live : ∀ t'∈o.next,Live us posts (done++recvIds o.msgs) rest t' g'

variable (us : List Nat) (posts : List RecvWr) (done : List UInt64) (x : Msg × Nat)
  (rest : List (Msg × Nat)) (t : QueuePairMessageTracker) (g : MessageTracker (RecvEvent × Nat))

/-- Tasks that do not concern the receives. -/
theorem effect_frame (o : Outcome Msg QueuePairMessageTracker)
    (h : Live us posts done (x::rest) t g) (hpost : postIds [x]=[]) (hids : recvIds o.msgs=[])
    (hnext : ∀ t'∈o.next,t'.recv=t.recv ∧ t'.postRecvQueue=t.postRecvQueue ∧
      t'.merge.recv=t.merge.recv) : Effect us posts done rest t g g o := by
  refine ⟨Or.inl hids,?_⟩
  intro t' ht'
  obtain ⟨hrecv,hqueue,hmerge⟩ := hnext t' ht'
  have hposts := h.posts
  have hcausal := h.causal.2
  rw [show x::rest=[x]++rest from rfl,postIds_append,hpost,List.nil_append] at hposts
  rw [hpost,List.length_nil,Nat.add_zero] at hcausal
  rw [hids,List.append_nil]
  refine ⟨?_,?_,?_,?_,?_⟩
  · rw [hrecv]
    exact h.shadow
  · rw [hmerge]
    exact h.drained
  · rw [hqueue]
    exact hposts
  · rw [hqueue]
    exact h.tracked
  · rw [hqueue]
    exact hcausal

theorem effect_post (e : PostRecvEvent) (k : Nat)
    (h : Live us posts done ((.completion (.register (.postRecv e)),k)::rest) t g) :
    Live us posts done rest (t.append (.postRecv e)) g := by
  have hlen : (t.append (.postRecv e)).postRecvQueue.length=t.postRecvQueue.length+1 := by
    simp [QueuePairMessageTracker.append]
  refine ⟨h.shadow,h.drained,?_,?_,?_⟩
  · rw [h.posts]
    simp only [QueuePairMessageTracker.append,List.map_append,List.append_assoc]
    rfl
  · intro y hy htk
    rw [hlen]
    exact (h.tracked y hy htk).mono us us _ _ y.2 (by omega) (List.prefix_refl us)
  · rw [hlen,← Nat.add_assoc]
    exact h.causal.2

theorem effect_recv (e : RecvEvent) (k : Nat)
    (h : Live us posts done ((.completion (.register (.recv e)),k)::rest) t g) :
    Live us posts done rest (t.append (.recv e)) (g.append (e,k)) := by
  refine ⟨?_,h.drained,h.posts,?_,h.causal.2⟩
  · have hmap := append_map (Prod.fst : RecvEvent × Nat → RecvEvent) (fun _ => rfl)
      g.inner g.basePsn t.recv.basePsn (e,k)
    rw [h.shadow] at hmap
    exact hmap
  · intro y hy htk
    rcases g.mem_append (e,k) y hy with rfl|hy
    · exact h.causal.1 e rfl htk
    · exact h.tracked y hy htk

theorem effect_ackRecv (qp : QpAttr) (p : Psn) (k : Nat)
    (h : Live us posts done ((.completion (.ackRecv p),k)::rest) t g)
    (hdue : ∀ y∈g.inner.takeWhile (due p),takes y.1=true →
      t.postRecvQueue.length≤1 ∧ done.length≤y.2) :
    Effect us posts done rest t g ⟨g.inner.dropWhile (due p),p⟩ (process qp t (.ackRecv p)) := by
  rcases process_ackRecv_cases qp t p with hproc|⟨es,mrest,-,-,hproc⟩
  · rw [hproc]
    exact ⟨Or.inl rfl,fun t' ht' => absurd ht' (Option.not_mem_none t')⟩
  -- the arrivals are the due events of the tracker, so each has its number in the shadow
  have harr : ∀ e∈arrivals t p,∃ y∈g.inner.takeWhile (due p),y.1=e := by
    intro e he
    rw [arrivals,h.drained,List.nil_append] at he
    have hmem := (List.mem_filter.mp he).1
    rw [← h.shadow,List.takeWhile_map] at hmem
    exact List.mem_map.mp hmem
  obtain ⟨hor,hnext⟩ := completeAll_ids (arrivals t p) t.postRecvQueue (by
    intro e he htk
    obtain ⟨y,hy,rfl⟩ := harr e he
    exact (hdue y hy htk).1)
  have hids : recvIds (process qp t (.ackRecv p)).msgs=
      ids (completeAll (arrivals t p) t.postRecvQueue).1 := by
    rw [hproc]
    dsimp only
    rw [recvIds,recvPolls_append,recvPolls_sends,recvPolls_recvs,List.nil_append]
    rfl
  refine ⟨?_,?_⟩
  · rw [hids]
    rcases hor with hnil|⟨⟨e,he,htk⟩,hq,hlen⟩
    · exact Or.inl hnil
    · obtain ⟨y,hy,rfl⟩ := harr e he
      obtain ⟨z,hz⟩ := List.length_eq_one_iff.mp hlen
      exact Or.inr ⟨z,y,hz,hq.trans (by rw [hz]; rfl),(List.takeWhile_prefix _).subset hy,htk,(hdue y hy htk).2⟩
  · rw [hids,hproc]
    intro t' ht'
    obtain ⟨posts',hposts',rfl⟩ := Option.map_eq_some_iff.mp ht'
    have hkeep := hnext posts' hposts'
    have hlen : (done++ids (completeAll (arrivals t p) t.postRecvQueue).1).length+posts'.length=
        done.length+t.postRecvQueue.length := by
      have := congrArg List.length hkeep
      simp only [List.length_append,List.length_map] at this ⊢
      omega
    refine ⟨?_,rfl,?_,?_,?_⟩
    · rw [← h.shadow,List.dropWhile_map]
      rfl
    · rw [h.posts,← hkeep]
      simp only [List.append_assoc]
      rfl
    · intro y hy htk
      dsimp only
      rw [hlen]
      exact h.tracked y ((List.dropWhile_suffix _).subset hy) htk
    · dsimp only
      rw [hlen]
      exact h.causal.2

/-- A message of the completion worker's channel. -/
theorem process_effect (qp : QpAttr) (c : Nat) (h : Live us posts done (x::rest) t g)
    (hdue : ∀ p,x.1=.completion (.ackRecv p) → ∀ y∈g.inner.takeWhile (due p),takes y.1=true →
      t.postRecvQueue.length≤1 ∧ done.length≤y.2) :
    Effect us posts done rest t g (next .completion g x.1 x.2)
      (Driver.process qp .completion c t x.1) := by
  have hself : ∀ t' : QueuePairMessageTracker,some t=some t' →
      t'.recv=t.recv ∧ t'.postRecvQueue=t.postRecvQueue ∧ t'.merge.recv=t.merge.recv := by
    intro t' ht'
    obtain rfl := Option.some.inj ht'
    exact ⟨rfl,rfl,rfl⟩
  have hlive : ∀ (o : Outcome Msg QueuePairMessageTracker) (t' : QueuePairMessageTracker)
      (g' : MessageTracker (RecvEvent × Nat)),o=⟨[],some t'⟩ → Live us posts done rest t' g' →
      Effect us posts done rest t g g' o := by
    intro o t' g' ho hl
    subst ho
    refine ⟨Or.inl rfl,?_⟩
    intro t'' ht''
    obtain rfl := Option.some.inj ht''
    change Live us posts (done++[]) rest t' g'
    rw [List.append_nil]
    exact hl
  obtain ⟨m,k⟩ := x
  cases m with
  | completion task =>
      cases task with
      | ackRecv p => exact effect_ackRecv us posts done rest t g qp p k h (hdue p rfl)
      | ackSend p =>
          rcases process_ackSend_cases qp t p with hproc|⟨es,mrest,-,-,hproc⟩
          · refine effect_frame us posts done _ rest t g _ h rfl ?_ ?_
            · change recvIds (process qp t (.ackSend p)).msgs=[]
              rw [hproc]
              rfl
            · intro t' ht'
              change (process qp t (.ackSend p)).next=some t' at ht'
              rw [hproc] at ht'
              cases ht'
          · refine effect_frame us posts done _ rest t g _ h rfl ?_ ?_
            · change recvIds (process qp t (.ackSend p)).msgs=[]
              rw [hproc,recvIds,recvPolls_sends,List.filterMap_nil]
            · intro t' ht'
              change (process qp t (.ackSend p)).next=some t' at ht'
              rw [hproc] at ht'
              obtain rfl := Option.some.inj ht'
              exact ⟨rfl,rfl,rfl⟩
      | register e =>
          cases e with
          | send e =>
              refine effect_frame us posts done _ rest t g _ h rfl rfl ?_
              intro t' ht'
              obtain rfl := Option.some.inj ht'
              exact ⟨rfl,rfl,rfl⟩
          | recv e => exact hlive _ _ _ rfl (effect_recv us posts done rest t g e k h)
          | postRecv e => exact hlive _ _ _ rfl (effect_post us posts done rest t g e k h)
  | _ => exact effect_frame us posts done _ rest t g _ h rfl rfl hself

end Completions

theorem turn_completion (qp : QpAttr) (s : State) (us qs ws : List Nat) (n' : TaggedNet) (c : Nat)
    (st : QueuePairMessageTracker × MessageTracker (RecvEvent × Nat)) (x : Msg × Nat)
    (rest sent : List (Msg × Nat)) (ht : Net.Turn (prog qp) s.net .completion c st x rest sent n')
    (h : InvAt s us qs ws) (hl : Allowed s (.net (.work .completion c))) :
    InvAt {s with net := n'} us qs ws := by
  have hlive := h.live st.1 st.2 ht.alive
  rw [ht.head] at hlive
  have heffect := process_effect us s.posts _ x rest st.1 st.2 qp c hlive (by
    intro p hp y hy htk
    refine hl (st.1.postRecvQueue.length,y) ?_ htk
    obtain ⟨m,k⟩ := x
    obtain rfl : m=_ := hp
    rw [maturing,ht.alive,ht.head]
    exact List.mem_map_of_mem hy)
  -- the worker sends nothing to itself or to the report worker
  have hdest : ∀ w,w=.completion ∨ w=.metaReport → Net.addressed (prog qp) w sent=[] := by
    intro w hw
    refine List.filter_eq_nil_iff.mpr ?_
    intro y hy hd
    have hem := Driver.emits_sent qp (ghost qp) s.net n' .completion c st x rest sent ht y hy
    rcases hw with rfl|rfl
    · exact not_own_of_emits y.1 hem (eq_of_beq hd)
    · exact not_report_of_emits .completion y.1 hem (eq_of_beq hd)
  have hsent : sent.map Prod.fst<+:(Driver.process qp .completion c st.1 x.1).msgs := by
    have hmap := ht.sent_prefix.map Prod.fst
    change sent.map Prod.fst<+:((Driver.process qp .completion c st.1 x.1).msgs.map
      (fun m => (m,0))).map Prod.fst at hmap
    rwa [List.map_map,show Prod.fst ∘ (fun m => (m,0))=@id Msg from rfl,List.map_id] at hmap
  refine ⟨⟨h.placed.sorted,h.placed.used,h.placed.queue,h.placed.wire⟩,h.targets,?_,?_,?_⟩
  · dsimp only
    rw [ht.log,List.map_append,recvIds_append]
    obtain ⟨tail,htail⟩ := hsent
    have hids := recvIds_append (sent.map Prod.fst) tail
    rw [htail] at hids
    rcases heffect.names with hnil|⟨z,y,hz,hone,hy,htk,hle⟩
    · rw [hnil] at hids
      rw [(List.append_eq_nil_iff.mp hids.symm).1,List.append_nil]
      exact h.named
    · have hnamed := h.next_named s us qs ws st.1 st.2 ht.alive z hz y hy htk hle
      rw [hone] at hids
      refine List.IsPrefix.trans ?_ hnamed
      exact (List.prefix_append_right_inj _).mpr ⟨_,hids.symm⟩
  · intro y hy
    dsimp only at hy
    rw [ht.inbox_other _ (by decide),hdest .metaReport (Or.inr rfl),List.append_nil] at hy
    exact h.reported y hy
  · intro t' g' ht'
    obtain ⟨hnext,hg,hall⟩ := ht.survives (driver qp) (ghost qp) s.net n' .completion c st (t',g')
      x rest sent ht'
    dsimp only
    have hmsgs : sent.map Prod.fst=(Driver.process qp .completion c st.1 x.1).msgs := by
      rw [hall,List.map_map]
      exact List.map_id _
    rw [ht.inbox_self,hdest .completion (Or.inl rfl),List.append_nil,ht.log,List.map_append,
      recvIds_append,hmsgs]
    have hg' : g'=next .completion st.2 x.1 x.2 := hg
    rw [hg']
    exact heffect.live t' hnext

theorem InvAt.postRecv (qp : QpAttr) (s : State) (us qs ws : List Nat) (wr : RecvWr) (io : ChannelIo)
    (h : InvAt s us qs ws) : Inv (taggedStep qp s (.postRecv wr io)) := by
  by_cases halive : alive s.net=true
  · have hstep : taggedStep qp s (.postRecv wr io)={s with
        net := Net.step (prog qp) s.net (.post (registration wr,0))
        tx := (s.tx.send io).1
        wire := s.wire++(match (s.tx.send io).2 with | .ok () => [wr] | .error _ => [])
        posts := s.posts++[wr]} := by
      rw [taggedStep,step,PostedReceives.postRecv,if_pos halive]
    obtain ⟨ws',hplaced⟩ := h.placed.post s (taggedStep qp s (.postRecv wr io)) us qs ws wr
      (by rw [hstep]) (by rw [hstep]) (by rw [hstep]) (by
        rw [hstep]
        rcases (s.tx.send io).2 with e|u
        · exact Or.inl (List.append_nil _)
        · exact Or.inr rfl)
    have hnet : (taggedStep qp s (.postRecv wr io)).net=s.net.send (prog qp) [(registration wr,0)] := by
      rw [hstep]
      have hreach : s.net.reaches (prog qp) (registration wr,0)=true := halive
      rcases Net.step_post (prog qp) s.net (registration wr,0) with ⟨-,heq⟩|heq
      · exact heq
      · rw [Net.step,Net.delivered,List.takeWhile_cons_of_pos hreach,List.takeWhile_nil]
    have hlog : recvIds ((taggedStep qp s (.postRecv wr io)).net.log.map Prod.fst)=
        recvIds (s.net.log.map Prod.fst) := by
      rw [hnet]
      change recvIds ((s.net.log++[(registration wr,0)]).map Prod.fst)=_
      rw [List.map_append,recvIds_append]
      exact List.append_nil _
    have hsends : (taggedStep qp s (.postRecv wr io)).sends=s.sends := by rw [hstep]
    refine ⟨us,qs,ws',hplaced,?_,?_,?_,?_⟩
    · rw [hsends]
      exact h.targets
    · rw [hlog,hsends]
      exact h.named
    · rw [hnet,hsends]
      intro x hx
      change x∈s.net.inbox .metaReport++[] at hx
      rw [List.append_nil] at hx
      exact h.reported x hx
    · intro t g ht
      rw [hlog]
      rw [hnet] at ht ⊢
      have hl := h.live t g ht
      have hinbox : (s.net.send (prog qp) [(registration wr,0)]).inbox .completion=
          s.net.inbox .completion++[(registration wr,0)] := rfl
      have hposts : (taggedStep qp s (.postRecv wr io)).posts=s.posts++[wr] := by rw [hstep]
      rw [hinbox,hposts]
      refine ⟨hl.shadow,hl.drained,?_,hl.tracked,?_⟩
      · rw [List.map_append,hl.posts,postIds_append]
        simp only [List.append_assoc]
        rfl
      · refine (causal_append us _ _ _).mpr ⟨hl.causal,?_,trivial⟩
        intro e he
        cases he
  · have hstep : taggedStep qp s (.postRecv wr io)=s := by
      rw [taggedStep,step,PostedReceives.postRecv,if_neg halive]
    rw [hstep]
    exact ⟨us,qs,ws,h⟩

theorem InvAt.arrive (s : State) (us qs ws : List Nat) (h : InvAt s us qs ws) :
    Inv (PostedReceives.arrive s) := by
  rcases hw : s.wire with _|⟨wr,rest⟩
  · rw [PostedReceives.arrive,hw]
    exact ⟨us,qs,ws,h⟩
  · have hwire := h.placed.wire
    rw [hw] at hwire
    obtain ⟨p,ws,rfl,hp,hps⟩ := List.map_eq_cons_iff.mp hwire
    rw [PostedReceives.arrive,hw]
    refine ⟨us,qs++[p],ws,⟨?_,h.placed.used,?_,hps⟩,h.targets,h.named,h.reported,h.live⟩
    · rw [List.append_assoc]
      exact h.placed.sorted
    · rw [List.map_append,h.placed.queue,List.map_append]
      simp [hp]

theorem InvAt.send (s : State) (us qs ws : List Nat) (wr : SendWrBase) (h : InvAt s us qs ws) :
    Inv (PostedReceives.send s wr) := by
  rcases hq : s.queue with _|⟨r,rest⟩
  · have hstep : PostedReceives.send s wr=s := by
      rw [PostedReceives.send,hq]
      obtain ⟨net,tx,wire,queue,posts,sends⟩ := s
      obtain rfl : queue=[] := hq
      simp [HwDeviceCtx.send]
    rw [hstep]
    exact ⟨us,qs,ws,h⟩
  · have hqueue := h.placed.queue
    rw [hq] at hqueue
    obtain ⟨p,qs,rfl,hp,hps⟩ := List.map_eq_cons_iff.mp hqueue
    have hsorted := h.placed.sorted
    by_cases hlen : wr.length≠r.length
    · -- the receive is lost without a Send
      have hstep : PostedReceives.send s wr={s with queue := rest} := by
        rw [PostedReceives.send,hq,HwDeviceCtx.send,if_pos hlen]
        simp
      rw [hstep]
      refine ⟨us,qs,ws,⟨?_,h.placed.used,hps,h.placed.wire⟩,h.targets,h.named,h.reported,h.live⟩
      exact hsorted.sublist ((List.Sublist.refl us).append (List.sublist_cons_self _ _))
    · have hstep : PostedReceives.send s wr={s with
          queue := rest
          sends := s.sends++[(r,SendWrRdma.newFromBase wr r.addr r.lkey)]} := by
        rw [PostedReceives.send,hq,HwDeviceCtx.send,if_neg hlen]
      rw [hstep]
      refine ⟨us++[p],qs,ws,⟨?_,?_,hps,h.placed.wire⟩,?_,?_,?_,?_⟩
      · rw [List.append_assoc]
        exact hsorted
      · rw [List.map_append,h.placed.used,List.map_append]
        simp [hp]
      · intro x hx
        rcases List.mem_append.mp hx with hx|hx
        · exact h.targets x hx
        · rw [List.mem_singleton.mp hx]
          exact ⟨rfl,rfl⟩
      · dsimp only
        rw [List.map_append]
        exact h.named.trans (List.prefix_append _ _)
      · intro x hx hof
        have := h.reported x hx hof
        dsimp only
        rw [List.length_append]
        omega
      · intro t g ht
        have hl := h.live t g ht
        exact ⟨hl.shadow,hl.drained,hl.posts,fun y hy htk => (hl.tracked y hy htk).mono us _ _ _ y.2
          le_rfl (List.prefix_append us [p]),hl.causal.mono us _ _ _ (List.prefix_append us [p])⟩

theorem quiet_of_external (m : Msg) (hext : Driver.External m=true) (hreg : isRegistration m=false) :
    isRecvCq m=false ∧ Driver.dest m≠some .completion := by
  unfold Driver.External at hext
  split at hext
  · exact ⟨rfl,fun h => by cases h⟩
  · exact ⟨rfl,fun h => by cases h⟩
  · exact ⟨rfl,fun h => by cases h⟩
  · cases hreg
  · cases hext

theorem InvAt.post (qp : QpAttr) (s : State) (us qs ws : List Nat) (x : Msg × Nat)
    (h : InvAt s us qs ws) (hl : Allowed s (.net (.post x))) :
    InvAt {s with net := Net.step (prog qp) s.net (.post x)} us qs ws := by
  obtain ⟨hext,hreg,hsend⟩ := hl
  have hframe : ∀ ms,(∀ y∈ms,y=x) → InvAt {s with net := s.net.send (prog qp) ms} us qs ws := by
    intro ms hms
    have hquiet := quiet_of_external x.1 hext hreg
    refine h.frame s us qs ws _ ms [] rfl ?_ ?_ (fun _ hst => hst) ?_ ?_
    · intro y hy
      rw [hms y hy]
      exact hquiet.1
    · intro y hy hof
      rcases List.mem_append.mp hy with hy|hy
      · exact h.reported y hy hof
      · have := hms y ((Net.mem_addressed _ _ _ y).mp hy).1
        subst this
        exact hsend hof
    · change s.net.inbox .completion++Net.addressed (prog qp) .completion ms=_
      congr 1
      refine List.filter_eq_nil_iff.mpr ?_
      intro y hy hd
      rw [hms y hy] at hd
      exact hquiet.2 (eq_of_beq hd)
    · intro y hy
      cases hy
  rcases Net.step_post (prog qp) s.net x with ⟨-,heq⟩|heq
  · rw [heq]
    exact hframe [x] (fun y hy => List.mem_singleton.mp hy)
  · rw [heq]
    exact hframe [] (fun y hy => absurd hy List.not_mem_nil)

theorem step_inv (qp : QpAttr) (s : State) (l : Label) (hl : Allowed s l) (h : Inv s) :
    Inv (taggedStep qp s l) := by
  obtain ⟨us,qs,ws,h⟩ := h
  cases l with
  | postRecv wr io => exact h.postRecv qp s us qs ws wr io
  | arrive => exact h.arrive s us qs ws
  | send wr => exact h.send s us qs ws wr
  | net l =>
      refine ⟨us,qs,ws,?_⟩
      cases l with
      | post x => exact h.post qp s us qs ws x hl
      | crash w =>
          refine h.frame s us qs ws _ [] [] (List.append_nil _).symm (fun y hy => by cases hy)
            h.reported ?_ (List.append_nil _).symm (fun y hy => by cases hy)
          intro st hst
          exact Net.step_crash (prog qp) s.net w .completion st hst
      | work w c =>
          change InvAt {s with net := s.net.work (prog qp) w c} us qs ws
          rcases Net.work_cases (prog qp) s.net w c with heq|⟨st,x,rest,sent,ht⟩
          · rw [heq]
            exact h
          · by_cases hw : w=.completion
            · subst hw
              exact turn_completion qp s us qs ws _ c st x rest sent ht h hl
            · exact turn_other qp s us qs ws _ w hw c st x rest sent ht h

theorem init_inv (config : AckTimeoutConfig) (tx : TcpChannelTx) : Inv (init config tx) := by
  refine ⟨[],[],[],⟨List.Pairwise.nil,rfl,rfl,rfl⟩,?_,List.prefix_refl _,?_,?_⟩
  · intro x hx
    cases hx
  · intro x hx
    cases hx
  · intro t g ht
    obtain ⟨rfl,rfl⟩ := Prod.mk.inj (Option.some.inj ht)
    refine ⟨rfl,rfl,rfl,?_,trivial⟩
    intro y hy
    cases hy

theorem Inv.named (s : State) (h : Inv s) : Named (erase s) := by
  obtain ⟨us,qs,ws,h⟩ := h
  intro k wrId hk
  change (recvIds (s.net.log.map Prod.fst))[k]?=some wrId at hk
  obtain ⟨rest,hrest⟩ := h.named
  have hlt : k<(recvIds (s.net.log.map Prod.fst)).length := (List.getElem?_eq_some_iff.mp hk).1
  have hget : (s.sends.map (fun x => x.1.wrId))[k]?=some wrId := by
    rw [← hrest,List.getElem?_append_left hlt]
    exact hk
  rw [List.getElem?_map] at hget
  obtain ⟨⟨r,w⟩,hrw,hid⟩ := Option.map_eq_some_iff.mp hget
  have hmem : (r,w)∈s.sends := List.mem_of_getElem? hrw
  have hposted : some r∈us.map (fun p => s.posts[p]?) := by
    rw [h.placed.used]
    exact List.mem_map.mpr ⟨(r,w),hmem,rfl⟩
  obtain ⟨p,-,hp⟩ := List.mem_map.mp hposted
  exact ⟨r,w,hrw,List.mem_of_getElem? hp,(h.targets _ hmem).1,(h.targets _ hmem).2,hid⟩

end PostedReceives

open PostedReceives in
/-- The k-th receive completion names the receive whose memory the k-th Send addresses, in every
run in which events take a receive only while no other one is queued. -/
theorem recv_completions_name_buffers (qp : QpAttr) (config : AckTimeoutConfig) (tx : TcpChannelTx)
    (ls : List PostedReceives.Label)
    (h : Run.Along (taggedStep qp) Allowed (PostedReceives.init config tx) ls) :
    Named (Run.run (plainStep qp) (fresh config tx) (ls.map PeersLabel.erase)) := by
  have hinv := Run.run_inv (taggedStep qp) Allowed Inv (step_inv qp)
    (PostedReceives.init config tx) ls h (init_inv config tx)
  have herase := PostedReceives.erase_run qp (PostedReceives.init config tx) ls
  change PostedReceives.erase (Run.run (taggedStep qp) (PostedReceives.init config tx) ls)=
    Run.run (plainStep qp) (fresh config tx) (ls.map PeersLabel.erase) at herase
  rw [← herase]
  exact hinv.named

namespace PostedReceives

/-- A receive of 64 bytes, registered and told to the initiator. -/
def posted (k : Nat) : List Label :=
  [.postRecv ⟨k.toUInt64,4096*k.toUInt64,64,k.toUInt32⟩ {},.arrive,.net (.work .completion 0)]

/-- A Send of 64 bytes. -/
def sent : Label := .send ⟨0,2,8192,64,1,0,.send⟩

/-- The only packet of the Send with number `k`. -/
def delivered (k : Nat) : List Label :=
  [.net (.post (.report (.headerWrite ⟨.only,Msn.wrap k,Psn.wrap k,true,false,0,.send⟩),k)),
    .net (.work .metaReport 0),.net (.work .completion 0),.net (.work .completion 0)]

/-- The second receive is posted after the first Send was completed. -/
def alternating : List Label :=
  posted 7++sent::(delivered 0++(posted 8++sent::delivered 1))

/-- Both receives are posted before the first Send. -/
def outstanding : List Label :=
  posted 7++(posted 8++sent::sent::(delivered 0++delivered 1))

end PostedReceives

open PostedReceives in
theorem recv_completions_name_buffers_alternating :
    recvIds (Run.run (plainStep shortPathQp) (fresh .default ⟨0,0,false⟩)
      (alternating.map PeersLabel.erase)).net.log=[7,8] ∧
    Named (Run.run (plainStep shortPathQp) (fresh .default ⟨0,0,false⟩)
      (alternating.map PeersLabel.erase)) :=
  ⟨by decide +kernel,
    recv_completions_name_buffers shortPathQp .default ⟨0,0,false⟩ alternating (by decide +kernel)⟩

open PostedReceives in
/-- The last posted of two receives is completed first. -/
theorem outstanding_receives_swapped :
    recvIds (Run.run (plainStep shortPathQp) (fresh .default ⟨0,0,false⟩)
      (outstanding.map PeersLabel.erase)).net.log=[8,7] ∧
    (Run.run (plainStep shortPathQp) (fresh .default ⟨0,0,false⟩)
      (outstanding.map PeersLabel.erase)).sends.map (fun x => x.1.wrId)=[7,8] ∧
    ¬Named (Run.run (plainStep shortPathQp) (fresh .default ⟨0,0,false⟩)
      (outstanding.map PeersLabel.erase)) := by
  have hids : recvIds (Run.run (plainStep shortPathQp) (fresh .default ⟨0,0,false⟩)
      (outstanding.map PeersLabel.erase)).net.log=[8,7] := by decide +kernel
  have hsends : (Run.run (plainStep shortPathQp) (fresh .default ⟨0,0,false⟩)
      (outstanding.map PeersLabel.erase)).sends.map (fun x => x.1.wrId)=[7,8] := by decide +kernel
  refine ⟨hids,hsends,?_⟩
  intro h
  obtain ⟨r,w,hrw,-,-,-,hid⟩ := h 0 8 (by rw [hids]; rfl)
  have hfirst := congrArg (fun ids => ids[0]?) hsends
  rw [List.getElem?_map,hrw] at hfirst
  exact absurd (hid.symm.trans (Option.some.inj hfirst)) (by decide)

end BlueRdma

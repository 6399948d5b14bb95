import BlueRdma.Framework.Threads
import BlueRdma.Workers.Driver

namespace BlueRdma
open QueuePairMessageTracker MessageTracker CompletionWorker

namespace AckCounter

instance : EventMeta (SendEvent × Nat) := ⟨fun x => x.1.msgMeta⟩

/-- The completion worker's account: the queued send events with the numbers of their requests,
and the requests completed so far. -/
structure Shadow where
  send : MessageTracker (SendEvent × Nat) := {}
  merge : List (SendEvent × Nat) := []
  done : List Nat := []

def Shadow.register (g : Shadow) (e : SendEvent) (k : Nat) : Shadow :=
  {g with send := g.send.append (e,k)}

def Shadow.ack (g : Shadow) (p : Psn) : Shadow :=
  {g with
    send := ⟨g.send.inner.dropWhile (due p),p⟩
    merge := g.merge++g.send.inner.takeWhile (due p)}

def Shadow.pop (g : Shadow) (k : Nat) : Shadow :=
  {g with merge := g.merge.drop k,done := g.done++(g.merge.take k).map Prod.snd}

/-- The send worker numbers its turns. -/
@[reducible] def Aux : Worker → Type
  | .rdmaWrite => Nat
  | .completion => Shadow
  | _ => Unit

/-- Acknowledgements among the messages to the timeout worker. -/
def acksIn (ms : List Msg) : Nat := ms.count (.timeout .ack)

def next (qp : QpAttr) : (w : Worker) → w.State → Aux w → Msg → Option Nat → Aux w
  | .rdmaWrite,_,g,_,_ => g+1
  | .completion,_,g,.completion (.register (.send e)),some k => g.register e k
  | .completion,t,g,.completion (.ackSend p),_ => (g.ack p).pop (acksIn (process qp t (.ackSend p)).msgs)
  | .completion,t,g,.completion (.ackRecv p),_ => g.pop (acksIn (process qp t (.ackRecv p)).msgs)
  | _,_,g,_,_ => g

/-- What the send worker sends carries the number of the turn. -/
def tag : (w : Worker) → Aux w → Option Nat
  | .rdmaWrite,g => some g
  | _,_ => none

def ghost (qp : QpAttr) : Ghost (driver qp) Aux (Option Nat) where
  tag := fun w _ _ g _ _ _ => tag w g
  next := fun w _ s g m k => next qp w s g m k

def prog (qp : QpAttr) : Program Worker (fun w => w.State × Aux w) Nat (Msg × Option Nat) :=
  (driver qp).instrument (ghost qp)

abbrev State := Threads Worker (fun w => w.State × Aux w) (Msg × Option Nat)
abbrev Label := ThreadLabel Worker Nat (Msg × Option Nat)

def initAux : (w : Worker) → Aux w
  | .rdmaWrite => (0 : Nat)
  | .completion => {}
  | .metaReport | .packetRetransmit | .ackResponder | .ackTimeout => ()

def init (config : AckTimeoutConfig) : State where
  state := fun w => some (Driver.fresh config w,initAux w)

abbrev Log := List (Msg × Option Nat)

/-- Requests whose send event was registered. -/
def registered (L : Log) : List Nat :=
  L.filterMap (fun | (.completion (.register (.send _)),k) => k | _ => none)

/-- Requests announced to the timeout worker. -/
def announced (L : Log) : List Nat :=
  L.filterMap (fun | (.timeout .newAckReq,k) => k | _ => none)

/-- Requests of which a chunk was handed to the device. -/
def handed (L : Log) : List Nat := L.filterMap (fun | (.chunk _,k) => k | _ => none)

/-- The tasks of the timeout worker. -/
def tasks (L : Log) : List AckTimeoutTask := L.filterMap (fun | (.timeout t,_) => some t | _ => none)

@[simp] theorem registered_append (L L' : Log) : registered (L++L')=registered L++registered L' :=
  List.filterMap_append

@[simp] theorem announced_append (L L' : Log) : announced (L++L')=announced L++announced L' :=
  List.filterMap_append

@[simp] theorem handed_append (L L' : Log) : handed (L++L')=handed L++handed L' :=
  List.filterMap_append

@[simp] theorem tasks_append (L L' : Log) : tasks (L++L')=tasks L++tasks L' :=
  List.filterMap_append

/-- No acknowledgement comes before the announcement that pays for it. -/
def Balanced (ts : List AckTimeoutTask) : Prop :=
  ∀ pre,pre<+:ts → pre.count .ack≤pre.count .newAckReq

theorem Balanced.concat (ts : List AckTimeoutTask) (t : AckTimeoutTask) (h : Balanced ts)
    (hall : (ts++[t]).count .ack≤(ts++[t]).count .newAckReq) : Balanced (ts++[t]) := by
  intro pre hpre
  rcases List.prefix_concat_iff.mp hpre with rfl|hpre
  · exact hall
  · exact h pre hpre

theorem announced_length (L : Log) : (announced L).length≤(tasks L).count .newAckReq := by
  induction L with
  | nil => exact le_rfl
  | cons x L ih =>
      rw [show x::L=[x]++L from rfl,announced_append,tasks_append,List.length_append,
        List.count_append]
      refine Nat.add_le_add ?_ ih
      obtain ⟨m,k⟩ := x
      cases m with
      | timeout t =>
          cases t with
          | newAckReq =>
              cases k with
              | none => exact Nat.zero_le _
              | some k => exact Nat.le_refl 1
          | _ => exact Nat.zero_le _
      | _ => exact Nat.zero_le _

/-- Distinct announced requests pay for as many acknowledgements. -/
theorem paid (L : Log) (P : List Nat) (hP : P.Nodup) (hann : ∀ k∈P,k∈announced L) :
    P.length≤(tasks L).count .newAckReq :=
  (hP.subperm hann).length_le.trans (announced_length L)

/-- What the send worker sends in one turn: the announcement of a signalled request stands
between its registration and its chunks. -/
inductive TurnMsgs : List Msg → Prop
  | none : TurnMsgs []
  | plain (w : SendQueueElem) (cs : List WrChunk) :
    TurnMsgs (.retransmit (.newWr w)::cs.map .chunk)
  | empty (e : SendEvent) : TurnMsgs [.completion (.register (.send e))]
  | signaled (e : SendEvent) (w : SendQueueElem) (cs : List WrChunk) :
    TurnMsgs (.completion (.register (.send e))::.timeout .newAckReq::
      .retransmit (.newWr w)::cs.map .chunk)

theorem transmit_turn (wr : SendWrRdma) (params : QpParams) (psn : Psn) (ctx : SendQueueContext) :
    ∃ cs : List WrChunk,(RdmaWriteWorker.transmit wr params psn ctx).msgs=
      .retransmit (.newWr ⟨psn,wr,params⟩)::cs.map .chunk := by
  unfold RdmaWriteWorker.transmit
  split
  · exact ⟨[],rfl⟩
  · next cs _ => exact ⟨cs,rfl⟩

theorem write_turn (qp : QpAttr) (ctx : SendQueueContext) (wr : SendWrRdma) :
    TurnMsgs (RdmaWriteWorker.write qp ctx wr).msgs := by
  unfold RdmaWriteWorker.write
  split
  · exact .none
  split
  · exact .none
  next ctx' msn psn _ =>
  dsimp only
  split_ifs
  · split
    · unfold RdmaWriteWorker.transmitSignaled
      split
      · exact .empty _
      · exact .empty _
      · obtain ⟨cs,hcs⟩ := transmit_turn wr (QpParams.ofAttr msn qp) psn ctx'
        dsimp only
        rw [hcs]
        exact .signaled _ _ cs
    · exact .none
  · obtain ⟨cs,hcs⟩ := transmit_turn wr (QpParams.ofAttr msn qp) psn ctx'
    rw [hcs]
    exact .plain _ cs

theorem rdmaRead_turn (qp : QpAttr) (ctx : SendQueueContext) (wr : SendWrRdma) :
    TurnMsgs (RdmaWriteWorker.rdmaRead qp ctx wr).msgs := by
  unfold RdmaWriteWorker.rdmaRead
  split
  · exact .none
  next ctx' msn psn _ =>
  dsimp only [RdmaWriteWorker.readMsgs]
  split_ifs
  · split
    · exact .none
    · exact .signaled _ _ [_]
  · exact .plain _ [_]

theorem process_turn (qp : QpAttr) (c : Nat) (ctx : SendQueueContext) (m : Msg) :
    TurnMsgs (Driver.process qp .rdmaWrite c ctx m).msgs := by
  cases m with
  | rdma t =>
      change TurnMsgs (RdmaWriteWorker.process qp ctx t).msgs
      unfold RdmaWriteWorker.process
      split
      · split
        all_goals first | exact write_turn qp ctx _ | exact rdmaRead_turn qp ctx _ | exact .none
      · exact .none
      · exact .none
  | _ => exact .none

/-- A registered request some chunk of which has been sent has been announced. -/
theorem TurnMsgs.good (full pre rest : List Msg) (h : TurnMsgs full) (hpre : full=pre++rest)
    (hreg : ∃ e,.completion (.register (.send e))∈pre) (hchunk : ∃ c,.chunk c∈pre) :
    .timeout .newAckReq∈pre := by
  obtain ⟨e,he⟩ := hreg
  obtain ⟨c,hc⟩ := hchunk
  cases h with
  | none => simp_all
  | plain w cs =>
      have hmem : Msg.completion (.register (.send e))∈
          Msg.retransmit (.newWr w)::cs.map .chunk := by
        rw [hpre]
        exact List.mem_append_left _ he
      simp at hmem
  | empty e' =>
      have hmem : Msg.chunk c∈[Msg.completion (.register (.send e'))] := by
        rw [hpre]
        exact List.mem_append_left _ hc
      simp at hmem
  | signaled e' w cs =>
      rcases pre with _|⟨a,_|⟨b,pre⟩⟩
      · cases hc
      · simp only [List.cons_append,List.cons.injEq] at hpre
        rw [← hpre.1] at hc
        simp at hc
      · simp only [List.cons_append,List.cons.injEq] at hpre
        rw [← hpre.2.1]
        simp

theorem TurnMsgs.register_first (full pre rest : List Msg) (e : SendEvent) (h : TurnMsgs full)
    (hpre : full=pre++.completion (.register (.send e))::rest) : pre=[] := by
  rcases pre with _|⟨a,pre⟩
  · rfl
  exfalso
  cases h with
  | none => simp at hpre
  | plain w cs =>
      have hmem : Msg.completion (.register (.send e))∈
          Msg.retransmit (.newWr w)::cs.map .chunk := by
        rw [hpre]
        simp
      simp at hmem
  | empty e' => simp at hpre
  | signaled e' w cs =>
      simp only [List.cons_append,List.cons.injEq] at hpre
      have hmem : Msg.completion (.register (.send e))∈
          Msg.timeout .newAckReq::Msg.retransmit (.newWr w)::cs.map .chunk := by
        rw [hpre.2]
        simp
      simp at hmem

/-- What waits in a channel was sent with the number of its request. -/
theorem registered_put (qp : QpAttr) (n : State) (x : Msg × Option Nat) :
    registered ((n.put (prog qp) x).inbox .completion)=
      registered (n.inbox .completion)++registered [x] := by
  change registered (n.inbox .completion++if Driver.dest x.1=some .completion then [x] else [])=_
  rw [registered_append]
  obtain ⟨m,k⟩ := x
  cases m <;> rfl

theorem tasks_put (qp : QpAttr) (n : State) (x : Msg × Option Nat) :
    tasks ((n.put (prog qp) x).inbox .ackTimeout)=tasks (n.inbox .ackTimeout)++tasks [x] := by
  change tasks (n.inbox .ackTimeout++if Driver.dest x.1=some .ackTimeout then [x] else [])=_
  rw [tasks_append]
  obtain ⟨m,k⟩ := x
  cases m <;> rfl

/-- Messages without a number, with the effect of none of the numbered ones. -/
structure Plain (x : Msg × Option Nat) : Prop where
  registered : registered [x]=[]
  announced : announced [x]=[]
  handed : handed [x]=[]
  event : ∀ e,x.1≠.completion (.register (.send e))
  newAckReq : x.1≠.timeout .newAckReq

theorem plain_of_none (m : Msg) (hevent : ∀ e,m≠.completion (.register (.send e)))
    (hnew : m≠.timeout .newAckReq) : Plain (m,none) := by
  refine ⟨?_,?_,?_,hevent,hnew⟩
  · cases m with
    | completion t =>
        cases t with
        | register e => cases e <;> rfl
        | _ => rfl
    | _ => rfl
  · cases m with
    | timeout t => cases t <;> rfl
    | _ => rfl
  · cases m <;> rfl

theorem plain_of_emits (w : Worker) (x : Msg × Option Nat) (hw : w≠.rdmaWrite)
    (hx : Driver.Emits w x.1) (hnone : x.2=none) : Plain x := by
  obtain ⟨m,k⟩ := x
  obtain rfl : k=none := hnone
  cases hx <;>
    first | exact absurd rfl hw | exact plain_of_none _ (fun _ he => by cases he) (fun he => by cases he)

/-- The send worker's account of the messages `pre` it has sent in its turn `g`. -/
structure Turning (L : Log) (pre : List Msg) (g : Nat)
    (o : Outcome (Msg × Option Nat) (SendQueueContext × Nat)) : Prop where
  shape : TurnMsgs (pre++o.msgs.map Prod.fst)
  number : ∀ x∈o.msgs,x.2=some g
  next : ∀ s∈o.next,s.2=g+1
  bound : ∀ k,(k∈registered L ∨ k∈announced L ∨ k∈handed L) → k≤g
  registered : g∈registered L ↔ ∃ e,.completion (.register (.send e))∈pre
  announced : g∈announced L ↔ .timeout .newAckReq∈pre
  handed : g∈handed L ↔ ∃ c,.chunk c∈pre

/-- No request is registered twice, and one of which a chunk has been handed over has been
announced before. -/
structure Numbered (n : State) : Prop where
  paired : ∀ k∈registered n.log,k∈handed n.log → k∈announced n.log
  once : (registered n.log).Nodup
  idle : n.turn .rdmaWrite=none → ∀ s,n.state .rdmaWrite=some s →
    ∀ k,(k∈registered n.log ∨ k∈announced n.log ∨ k∈handed n.log) → k < s.2
  turning : ∀ o,n.turn .rdmaWrite=some o → ∃ pre g,Turning n.log pre g o

/-- The requests completed, in the merge queue, in the tracker and on their way there. -/
def Shadow.tags (g : Shadow) (waiting : List Nat) : List Nat :=
  g.done++(g.merge.map Prod.snd++(g.send.inner.map Prod.snd++waiting))

/-- The shadow holds the numbers of the events in the tracker and in the merge queue. -/
structure Held (L : Log) (waiting : List Nat) (queued merged : List SendEvent) (g : Shadow) :
    Prop where
  queued : g.send.inner.map Prod.fst=queued
  merged : g.merge.map Prod.fst=merged
  nodup : (g.tags waiting).Nodup
  registered : ∀ k∈g.tags waiting,k∈registered L
  announced : ∀ k∈g.done++g.merge.map Prod.snd,k∈announced L

/-- Distinct announced requests pay for what the completion worker has acknowledged, including
what is left to send of its turn. -/
structure Accounted (n : State) : Prop where
  tagged : ∀ x∈n.inbox .completion,∀ e,x.1=.completion (.register (.send e)) → ∃ k,x.2=some k
  idle : n.turn .completion=none → ∀ s,n.state .completion=some s →
    Held n.log (registered (n.inbox .completion)) s.1.send.inner s.1.merge.send s.2 ∧
    (tasks n.log).count .ack ≤ s.2.done.length
  turning : ∀ o,n.turn .completion=some o → ∃ P : List Nat,P.Nodup ∧ (∀ k∈P,k∈announced n.log) ∧
    (tasks n.log).count .ack+(tasks o.msgs).count .ack≤P.length ∧
    ∀ s∈o.next,Held n.log (registered (n.inbox .completion)) s.1.send.inner s.1.merge.send s.2 ∧ P.length ≤ s.2.done.length

/-- The timeout worker counts the tasks it has processed. -/
def Counts (ts : List AckTimeoutTask) (w : QpAckTimeout) : Prop :=
  w.outstandingAckReqCnt.toNat+ts.count .ack=ts.count .newAckReq

structure Timed (n : State) : Prop where
  balanced : Balanced (tasks n.log)
  counted : ∃ ts,tasks n.log=ts++tasks (n.inbox .ackTimeout) ∧
    (n.turn .ackTimeout=none → ∀ s,n.state .ackTimeout=some s → Counts ts s.1) ∧
    ∀ o,n.turn .ackTimeout=some o → ∀ s∈o.next,Counts ts s.1

structure Inv (n : State) : Prop where
  kinds : ∀ w o,n.turn w=some o → ∀ x∈o.msgs,Driver.Emits w x.1 ∧ (w≠.rdmaWrite → x.2=none)
  numbered : Numbered n
  accounted : Accounted n
  timed : Timed n

section Sender

/-- A numbered message is selected by what it is. -/
theorem mem_filterMap_singleton (f : Msg × Option Nat → Option Nat) (P : Prop) (m : Msg) (g k : Nat)
    (hin : P → f (m,some g)=some g) (hout : ¬P → f (m,some g)=none) :
    k∈[(m,some g)].filterMap f ↔ k=g ∧ P := by
  by_cases hP : P
  · simp [hin hP,hP,eq_comm]
  · simp [hout hP,hP]

theorem mem_registered_singleton (m : Msg) (g k : Nat) :
    k∈registered [(m,some g)] ↔ k=g ∧ ∃ e,m=.completion (.register (.send e)) := by
  apply mem_filterMap_singleton
  · rintro ⟨e,rfl⟩
    rfl
  · intro hm
    split
    · rename_i e _ heq
      exact absurd ⟨e,congrArg Prod.fst heq⟩ hm
    · rfl

theorem mem_announced_singleton (m : Msg) (g k : Nat) :
    k∈announced [(m,some g)] ↔ k=g ∧ m=.timeout .newAckReq := by
  apply mem_filterMap_singleton
  · rintro rfl
    rfl
  · intro hm
    split
    · rename_i _ heq
      exact absurd (congrArg Prod.fst heq) hm
    · rfl

theorem mem_handed_singleton (m : Msg) (g k : Nat) :
    k∈handed [(m,some g)] ↔ k=g ∧ ∃ c,m=.chunk c := by
  apply mem_filterMap_singleton
  · rintro ⟨c,rfl⟩
    rfl
  · intro hm
    split
    · rename_i c _ heq
      exact absurd ⟨c,congrArg Prod.fst heq⟩ hm
    · rfl

theorem Turning.congr (L L' : Log) (pre : List Msg) (g : Nat)
    (o : Outcome (Msg × Option Nat) (SendQueueContext × Nat)) (h : Turning L pre g o)
    (hr : AckCounter.registered L'=AckCounter.registered L)
    (ha : AckCounter.announced L'=AckCounter.announced L)
    (hh : AckCounter.handed L'=AckCounter.handed L) : Turning L' pre g o where
  shape := h.shape
  number := h.number
  next := h.next
  bound := by
    rw [hr,ha,hh]
    exact h.bound
  registered := by
    rw [hr]
    exact h.registered
  announced := by
    rw [ha]
    exact h.announced
  handed := by
    rw [hh]
    exact h.handed

/-- The next message of the turn goes out. -/
theorem Turning.send (L : Log) (pre : List Msg) (g : Nat) (x : Msg × Option Nat)
    (ms : List (Msg × Option Nat)) (nxt : Option (SendQueueContext × Nat))
    (h : Turning L pre g ⟨x::ms,nxt⟩) : Turning (L++[x]) (pre++[x.1]) g ⟨ms,nxt⟩ := by
  obtain ⟨m,k⟩ := x
  obtain rfl : k=some g := h.number (m,k) List.mem_cons_self
  refine ⟨?_,fun y hy => h.number y (List.mem_cons_of_mem _ hy),h.next,?_,?_,?_,?_⟩
  · have hshape := h.shape
    rwa [List.map_cons,← List.singleton_append,← List.append_assoc] at hshape
  · intro k hk
    rw [registered_append,announced_append,handed_append,List.mem_append,List.mem_append,
      List.mem_append,mem_registered_singleton,mem_announced_singleton,mem_handed_singleton] at hk
    rcases hk with (hk|hk)|(hk|hk)|(hk|hk)
    · exact h.bound k (Or.inl hk)
    · exact hk.1.le
    · exact h.bound k (Or.inr (Or.inl hk))
    · exact hk.1.le
    · exact h.bound k (Or.inr (Or.inr hk))
    · exact hk.1.le
  · rw [registered_append,List.mem_append,h.registered,mem_registered_singleton]
    simp only [List.mem_append,List.mem_singleton,true_and,exists_or,eq_comm]
  · rw [announced_append,List.mem_append,h.announced,mem_announced_singleton]
    simp only [List.mem_append,List.mem_singleton,true_and,eq_comm]
  · rw [handed_append,List.mem_append,h.handed,mem_handed_singleton]
    simp only [List.mem_append,List.mem_singleton,true_and,exists_or,eq_comm]

/-- A request is registered with a number of its own. -/
theorem Turning.fresh (L : Log) (pre : List Msg) (g : Nat) (x : Msg × Option Nat)
    (ms : List (Msg × Option Nat)) (nxt : Option (SendQueueContext × Nat))
    (h : Turning L pre g ⟨x::ms,nxt⟩) :
    ∀ k∈AckCounter.registered [x],k∉AckCounter.registered L := by
  obtain ⟨m,k⟩ := x
  obtain rfl : k=some g := h.number (m,k) List.mem_cons_self
  intro k hk hreg
  obtain ⟨rfl,e,rfl⟩ := (mem_registered_singleton m g k).mp hk
  obtain ⟨e',he'⟩ := h.registered.mp hreg
  rw [h.shape.register_first _ pre _ e rfl] at he'
  cases he'

theorem registered_singleton_nodup (x : Msg × Option Nat) : (registered [x]).Nodup := by
  refine List.Nodup.of_map (fun k => k) ?_
  have hlen : (registered [x]).length≤1 := List.length_filterMap_le _ _
  match hl : registered [x],hlen with
  | [],_ => simp
  | [k],_ => simp

theorem Numbered.send (qp : QpAttr) (n : State) (x : Msg × Option Nat)
    (ms : List (Msg × Option Nat)) (nxt : Option (SendQueueContext × Nat)) (h : Numbered n)
    (ht : n.turn .rdmaWrite=some ⟨x::ms,nxt⟩) :
    Numbered (n.sendNext (prog qp) .rdmaWrite x ⟨ms,nxt⟩) := by
  obtain ⟨pre,g,hturn⟩ := h.turning _ ht
  have hnew := hturn.send
  have hfresh := hturn.fresh
  obtain ⟨m,k⟩ := x
  obtain rfl : k=some g := hturn.number (m,k) List.mem_cons_self
  refine ⟨?_,?_,?_,?_⟩
  · intro k hr hh
    by_cases hk : k=g
    · subst hk
      exact hnew.announced.mpr (hnew.shape.good _ _ _ rfl (hnew.registered.mp hr)
        (hnew.handed.mp hh))
    · change k∈registered (n.log++[(m,some g)]) at hr
      change k∈handed (n.log++[(m,some g)]) at hh
      rw [registered_append,List.mem_append,mem_registered_singleton] at hr
      rw [handed_append,List.mem_append,mem_handed_singleton] at hh
      have ha := h.paired k (hr.resolve_right (fun hc => hk hc.1))
        (hh.resolve_right (fun hc => hk hc.1))
      change k∈announced (n.log++[(m,some g)])
      rw [announced_append]
      exact List.mem_append_left _ ha
  · change (registered (n.log++[(m,some g)])).Nodup
    rw [registered_append]
    exact List.Nodup.append h.once (registered_singleton_nodup _)
      (fun k hk hk' => hfresh k hk' hk)
  · intro hnone
    rw [Threads.sendNext_turn_self] at hnone
    cases hnone
  · intro o ho
    rw [Threads.sendNext_turn_self] at ho
    obtain rfl := Option.some.inj ho
    exact ⟨_,g,hnew⟩

/-- Steps that send nothing numbered and do not move the send worker. -/
theorem Numbered.frame (n n' : State) (h : Numbered n)
    (hr : registered n'.log=registered n.log) (ha : announced n'.log=announced n.log)
    (hh : handed n'.log=handed n.log)
    (hidle : n'.turn .rdmaWrite=none → ∀ s,n'.state .rdmaWrite=some s →
      n.turn .rdmaWrite=none ∧ n.state .rdmaWrite=some s)
    (hturn : ∀ o,n'.turn .rdmaWrite=some o → n.turn .rdmaWrite=some o) : Numbered n' := by
  refine ⟨?_,?_,?_,?_⟩
  · rw [hr,ha,hh]
    exact h.paired
  · rw [hr]
    exact h.once
  · intro hnone s hs
    rw [hr,ha,hh]
    obtain ⟨hnone,hs⟩ := hidle hnone s hs
    exact h.idle hnone s hs
  · intro o ho
    obtain ⟨pre,g,hturning⟩ := h.turning o (hturn o ho)
    exact ⟨pre,g,hturning.congr _ _ _ _ _ hr ha hh⟩

theorem Numbered.take (qp : QpAttr) (n : State) (c : Nat) (s : SendQueueContext × Nat)
    (x : Msg × Option Nat) (rest : Log) (h : Numbered n) (hs : n.state .rdmaWrite=some s)
    (ht : n.turn .rdmaWrite=none) :
    Numbered (n.takeUp .rdmaWrite ((prog qp).process .rdmaWrite c s x) rest) := by
  have hbelow := h.idle ht s hs
  refine ⟨h.paired,h.once,?_,?_⟩
  · intro hnone
    rw [Threads.takeUp_turn_self] at hnone
    cases hnone
  · intro o ho
    rw [Threads.takeUp_turn_self] at ho
    obtain rfl := Option.some.inj ho
    refine ⟨[],s.2,?_,?_,?_,fun k hk => (hbelow k hk).le,?_,?_,?_⟩
    · have hmap : ((prog qp).process .rdmaWrite c s x).msgs.map Prod.fst=
          (Driver.process qp .rdmaWrite c s.1 x.1).msgs := by
        change ((Driver.process qp .rdmaWrite c s.1 x.1).msgs.map _).map Prod.fst=_
        rw [List.map_map]
        exact List.map_id _
      rw [hmap,List.nil_append]
      exact process_turn qp c s.1 x.1
    · intro y hy
      obtain ⟨m,-,rfl⟩ := List.mem_map.mp hy
      rfl
    · intro s' hs'
      obtain ⟨t,-,rfl⟩ := Option.map_eq_some_iff.mp hs'
      rfl
    · exact iff_of_false (fun hk => Nat.lt_irrefl _ (hbelow _ (Or.inl hk))) (by simp)
    · exact iff_of_false (fun hk => Nat.lt_irrefl _ (hbelow _ (Or.inr (Or.inl hk)))) (by simp)
    · exact iff_of_false (fun hk => Nat.lt_irrefl _ (hbelow _ (Or.inr (Or.inr hk)))) (by simp)

theorem Numbered.finish (n : State) (nxt : Option (SendQueueContext × Nat)) (h : Numbered n)
    (ht : n.turn .rdmaWrite=some ⟨[],nxt⟩) :
    Numbered (n.finish .rdmaWrite nxt) := by
  obtain ⟨pre,g,hturn⟩ := h.turning _ ht
  refine ⟨h.paired,h.once,?_,?_⟩
  · intro _ s hs k hk
    rw [Threads.finish_state_self] at hs
    rw [hturn.next s hs]
    exact Nat.lt_succ_of_le (hturn.bound k hk)
  · intro o ho
    rw [Threads.finish_turn_self] at ho
    cases ho

end Sender

section Completions

theorem Shadow.ack_tags (g : Shadow) (p : Psn) (waiting : List Nat) :
    (g.ack p).tags waiting=g.tags waiting := by
  have hinner : g.send.inner.map Prod.snd=(g.send.inner.takeWhile (due p)).map Prod.snd++
      (g.send.inner.dropWhile (due p)).map Prod.snd := by
    rw [← List.map_append,List.takeWhile_append_dropWhile]
  rw [tags,tags,hinner,ack]
  simp only [List.map_append,List.append_assoc]

theorem Shadow.pop_tags (g : Shadow) (k : Nat) (waiting : List Nat) :
    (g.pop k).tags waiting=g.tags waiting := by
  have hmerge : g.merge.map Prod.snd=(g.merge.take k).map Prod.snd++(g.merge.drop k).map Prod.snd := by
    rw [← List.map_append,List.take_append_drop]
  rw [tags,tags,hmerge,pop]
  simp only [List.append_assoc]

theorem Shadow.register_tags (g : Shadow) (e : SendEvent) (k : Nat) (waiting : List Nat) :
    ((g.register e k).tags waiting).Subperm (g.tags (k::waiting)) := by
  obtain ⟨l,r,hlr,-,-,happ⟩ := g.send.append_split (e,k)
  rw [tags,tags,register]
  refine (List.subperm_append_left _).mpr ((List.subperm_append_left _).mpr ?_)
  rw [happ]
  split_ifs
  · rw [hlr]
    simp only [List.map_append,List.map_cons,List.append_assoc,List.cons_append]
    refine (List.Perm.append_left _ ?_).subperm
    exact List.perm_middle.symm
  · exact (List.subperm_append_left _).mpr (List.sublist_cons_self _ _).subperm

/-- Another message is sent; if it registers a request, then one with a new number. -/
theorem Held.send (L : Log) (waiting : List Nat) (queued merged : List SendEvent) (g : Shadow)
    (x : Msg × Option Nat) (h : Held L waiting queued merged g)
    (hx : ∀ k∈AckCounter.registered [x],k∉AckCounter.registered L) :
    Held (L++[x]) (waiting++AckCounter.registered [x]) queued merged g := by
  have htags : g.tags (waiting++AckCounter.registered [x])=
      g.tags waiting++AckCounter.registered [x] := by
    simp only [Shadow.tags,List.append_assoc]
  refine ⟨h.queued,h.merged,?_,?_,?_⟩
  · rw [htags]
    exact List.Nodup.append h.nodup (registered_singleton_nodup x)
      (fun k hk hk' => hx k hk' (h.registered k hk))
  · intro k hk
    rw [htags,List.mem_append] at hk
    rw [registered_append,List.mem_append]
    exact hk.imp_left (h.registered k)
  · intro k hk
    rw [announced_append]
    exact List.mem_append_left _ (h.announced k hk)

theorem Held.register (L : Log) (waiting : List Nat) (t : MessageTracker SendEvent)
    (merged : List SendEvent) (g : Shadow) (e : SendEvent) (k : Nat)
    (h : Held L (k::waiting) t.inner merged g) :
    Held L waiting (t.append e).inner merged (g.register e k) := by
  obtain ⟨l,hperm,hsub⟩ := g.register_tags e k waiting
  refine ⟨?_,h.merged,hperm.nodup_iff.mp (hsub.nodup h.nodup),?_,h.announced⟩
  · have hmap := append_map (Prod.fst : SendEvent × Nat → SendEvent) (fun _ => rfl)
      g.send.inner g.send.basePsn t.basePsn (e,k)
    rw [h.queued] at hmap
    exact hmap
  · intro k' hk'
    exact h.registered k' (hsub.subset (hperm.mem_iff.mpr hk'))

/-- Events that become due belong to announced requests. -/
theorem Held.ack (L : Log) (waiting : List Nat) (queued merged : List SendEvent) (g : Shadow)
    (p : Psn) (h : Held L waiting queued merged g)
    (hdue : ∀ y∈g.send.inner.takeWhile (due p),y.2∈AckCounter.announced L) :
    Held L waiting (queued.dropWhile (due p)) (merged++queued.takeWhile (due p)) (g.ack p) := by
  refine ⟨?_,?_,?_,?_,?_⟩
  · rw [← h.queued,List.dropWhile_map]
    rfl
  · rw [← h.queued,← h.merged,List.takeWhile_map]
    exact List.map_append
  · rw [g.ack_tags]
    exact h.nodup
  · rw [g.ack_tags]
    exact h.registered
  · intro k hk
    have hsplit : (g.ack p).done++(g.ack p).merge.map Prod.snd=
        (g.done++g.merge.map Prod.snd)++(g.send.inner.takeWhile (due p)).map Prod.snd := by
      simp only [Shadow.ack,List.map_append,List.append_assoc]
    rw [hsplit,List.mem_append] at hk
    rcases hk with hk|hk
    · exact h.announced k hk
    · obtain ⟨y,hy,rfl⟩ := List.mem_map.mp hk
      exact hdue y hy

theorem Held.pop (L : Log) (waiting : List Nat) (queued es rest : List SendEvent) (g : Shadow)
    (h : Held L waiting queued (es++rest) g) : Held L waiting queued rest (g.pop es.length) := by
  refine ⟨h.queued,?_,?_,?_,?_⟩
  · change (g.merge.drop es.length).map Prod.fst=rest
    rw [List.map_drop,h.merged,List.drop_left]
  · rw [g.pop_tags]
    exact h.nodup
  · rw [g.pop_tags]
    exact h.registered
  · intro k hk
    refine h.announced k ?_
    rw [← List.take_append_drop es.length g.merge,List.map_append,← List.append_assoc]
    exact hk

theorem Held.pop_length (L : Log) (waiting : List Nat) (queued es rest : List SendEvent)
    (g : Shadow) (h : Held L waiting queued (es++rest) g) :
    (g.pop es.length).done.length=g.done.length+es.length := by
  have hlen := congrArg List.length h.merged
  rw [List.length_map,List.length_append] at hlen
  simp only [Shadow.pop,List.length_append,List.length_map,List.length_take]
  omega

/-- The completed requests are distinct and announced. -/
theorem Held.done (L : Log) (waiting : List Nat) (queued merged : List SendEvent) (g : Shadow)
    (h : Held L waiting queued merged g) :
    g.done.Nodup ∧ ∀ k∈g.done,k∈AckCounter.announced L :=
  ⟨h.nodup.of_append_left,fun k hk => h.announced k (List.mem_append_left _ hk)⟩

@[simp] theorem acksIn_append (ms ms' : List Msg) : acksIn (ms++ms')=acksIn ms+acksIn ms' :=
  List.count_append

theorem acksIn_sends (es : List SendEvent) : acksIn (es.flatMap sendMsgs)=es.length := by
  induction es with
  | nil => rfl
  | cons e es ih =>
      rw [List.flatMap_cons,acksIn_append,ih,List.length_cons,Nat.add_comm]
      rfl

theorem acksIn_recvs (ps : List (RecvEvent × Option Completion)) :
    acksIn (ps.flatMap (fun p => recvMsgs p.1 p.2))=0 := by
  induction ps with
  | nil => rfl
  | cons p ps ih =>
      rw [List.flatMap_cons,acksIn_append,ih,recvMsgs]
      split_ifs <;> rfl

theorem tasks_tagged (ms : List Msg) (k : Option Nat) :
    (tasks (ms.map (fun m => (m,k)))).count .ack=acksIn ms := by
  induction ms with
  | nil => rfl
  | cons m ms ih =>
      rw [List.map_cons,show (m,k)::ms.map (fun m => (m,k))=[(m,k)]++ms.map (fun m => (m,k)) from rfl,
        tasks_append,List.count_append,ih,show m::ms=[m]++ms from rfl,acksIn_append]
      congr 1
      cases m with
      | timeout t => cases t <;> rfl
      | _ => rfl

/-- What processing a message leaves of the account: the completed requests grow with the
acknowledgements sent, and stay distinct and announced even if the thread panics. -/
structure Processed (L : Log) (waiting : List Nat) (g g' : Shadow)
    (o : Outcome Msg QueuePairMessageTracker) : Prop where
  nodup : g'.done.Nodup
  announced : ∀ k∈g'.done,k∈announced L
  acks : g.done.length+acksIn o.msgs≤g'.done.length
  next : ∀ t∈o.next,Held L waiting t.send.inner t.merge.send g'

theorem Held.processed (L : Log) (waiting : List Nat) (queued merged : List SendEvent)
    (g g' : Shadow) (o : Outcome Msg QueuePairMessageTracker)
    (h : Held L waiting queued merged g')
    (hacks : g.done.length+acksIn o.msgs≤g'.done.length)
    (hnext : ∀ t∈o.next,t.send.inner=queued ∧ t.merge.send=merged) : Processed L waiting g g' o := by
  refine ⟨(Held.done L waiting queued merged g' h).1,(Held.done L waiting queued merged g' h).2,
    hacks,?_⟩
  intro t ht
  obtain ⟨hq,hm⟩ := hnext t ht
  rw [hq,hm]
  exact h

theorem ackSend_processed (qp : QpAttr) (L : Log) (waiting : List Nat)
    (t : QueuePairMessageTracker) (g : Shadow) (p : Psn)
    (h : Held L waiting t.send.inner t.merge.send g)
    (hdue : ∀ y∈g.send.inner.takeWhile (due p),y.2∈announced L) :
    Processed L waiting g ((g.ack p).pop (acksIn (process qp t (.ackSend p)).msgs))
      (process qp t (.ackSend p)) := by
  have hack := h.ack L waiting _ _ g p hdue
  rcases process_ackSend_cases qp t p with hproc|⟨es,rest,hsplit,-,hproc⟩
  · rw [hproc]
    exact (hack.pop L waiting _ [] _ _).processed L waiting _ _ g _ _
      (hack.pop_length L waiting _ [] _ _).ge (fun t ht => absurd ht (Option.not_mem_none t))
  · rw [hsplit] at hack
    rw [hproc,acksIn_sends]
    refine (hack.pop L waiting _ es rest _).processed L waiting _ _ g _ _ ?_ ?_
    · rw [hack.pop_length L waiting _ es rest _,acksIn_sends]
      rfl
    · rintro _ ⟨⟩
      exact ⟨rfl,rfl⟩

theorem ackRecv_processed (qp : QpAttr) (L : Log) (waiting : List Nat)
    (t : QueuePairMessageTracker) (g : Shadow) (p : Psn)
    (h : Held L waiting t.send.inner t.merge.send g) :
    Processed L waiting g (g.pop (acksIn (process qp t (.ackRecv p)).msgs))
      (process qp t (.ackRecv p)) := by
  rcases process_ackRecv_cases qp t p with hproc|⟨es,rest,hsplit,-,hproc⟩
  · rw [hproc]
    exact (h.pop L waiting _ [] _ _).processed L waiting _ _ g _ _
      (h.pop_length L waiting _ [] _ _).ge (fun t ht => absurd ht (Option.not_mem_none t))
  rw [hsplit] at h
  have hacks : acksIn (process qp t (.ackRecv p)).msgs=es.length := by
    rw [hproc]
    dsimp only
    rw [acksIn_append,acksIn_sends,acksIn_recvs,Nat.add_zero]
  rw [hacks]
  refine (h.pop L waiting _ es rest _).processed L waiting _ _ g _ _ ?_ ?_
  · rw [h.pop_length L waiting _ es rest _,hacks]
  · rw [hproc]
    intro t' ht'
    obtain ⟨posts,-,rfl⟩ := Option.map_eq_some_iff.mp ht'
    exact ⟨rfl,rfl⟩

/-- A message of the completion worker's channel. -/
theorem process_held (qp : QpAttr) (c : Nat) (L : Log) (x : Msg × Option Nat) (rest : Log)
    (t : QueuePairMessageTracker) (g : Shadow)
    (h : Held L (registered (x::rest)) t.send.inner t.merge.send g)
    (htag : ∀ e,x.1=.completion (.register (.send e)) → ∃ k,x.2=some k)
    (hdue : ∀ p,x.1=.completion (.ackSend p) →
      ∀ y∈g.send.inner.takeWhile (due p),y.2∈announced L) :
    Processed L (registered rest) g (next qp .completion t g x.1 x.2)
      (Driver.process qp .completion c t x.1) := by
  obtain ⟨m,k⟩ := x
  have hidle : ∀ (o : Outcome Msg QueuePairMessageTracker),o.msgs=[] →
      (∀ t'∈o.next,t'.send.inner=t.send.inner ∧ t'.merge.send=t.merge.send) →
      Held L (registered rest) t.send.inner t.merge.send g → Processed L (registered rest) g g o := by
    intro o ho hnext h
    refine h.processed L _ _ _ g g o ?_ hnext
    rw [ho]
    exact le_rfl
  cases m with
  | completion task =>
      cases task with
      | ackSend p => exact ackSend_processed qp L _ t g p h (hdue p rfl)
      | ackRecv p => exact ackRecv_processed qp L _ t g p h
      | register e =>
          cases e with
          | send e =>
              obtain ⟨k',rfl⟩ := htag e rfl
              refine (h.register L _ t.send _ g e k').processed L _ _ _ g _ _ le_rfl ?_
              rintro _ ⟨⟩
              exact ⟨rfl,rfl⟩
          | recv e =>
              refine hidle _ rfl ?_ h
              rintro _ ⟨⟩
              exact ⟨rfl,rfl⟩
          | postRecv e =>
              refine hidle _ rfl ?_ h
              rintro _ ⟨⟩
              exact ⟨rfl,rfl⟩
  | _ =>
      refine hidle _ rfl ?_ h
      rintro _ ⟨⟩
      exact ⟨rfl,rfl⟩

/-- Messages another thread or the outside sends. -/
theorem Accounted.put (qp : QpAttr) (n n' : State) (x : Msg × Option Nat) (h : Accounted n)
    (hlog : n'.log=n.log++[x])
    (hinbox : n'.inbox .completion=(n.put (prog qp) x).inbox .completion)
    (hstate : n'.state .completion=n.state .completion)
    (hturn : n'.turn .completion=n.turn .completion)
    (hfresh : ∀ k∈registered [x],k∉registered n.log)
    (htag : ∀ e,x.1=.completion (.register (.send e)) → ∃ k,x.2=some k)
    (hack : x.1≠.timeout .ack) : Accounted n' := by
  have hacks : (tasks (n.log++[x])).count .ack=(tasks n.log).count .ack := by
    rw [tasks_append,List.count_append]
    obtain ⟨m,k⟩ := x
    cases m with
    | timeout t =>
        cases t with
        | ack => exact absurd rfl hack
        | _ => rfl
    | _ => rfl
  refine ⟨?_,?_,?_⟩
  · intro y hy
    rw [hinbox] at hy
    rcases List.mem_append.mp hy with hy|hy
    · exact h.tagged y hy
    · split_ifs at hy
      · obtain rfl := List.mem_singleton.mp hy
        exact htag
      · cases hy
  · intro hnone s hs
    rw [hlog,hinbox,registered_put,hacks]
    obtain ⟨hheld,hle⟩ := h.idle (hturn ▸ hnone) s (hstate ▸ hs)
    exact ⟨hheld.send _ _ _ _ _ x hfresh,hle⟩
  · intro o ho
    obtain ⟨P,hP,hann,hle,hnext⟩ := h.turning o (hturn ▸ ho)
    refine ⟨P,hP,?_,?_,?_⟩
    · intro k hk
      rw [hlog,announced_append]
      exact List.mem_append_left _ (hann k hk)
    · rw [hlog,hacks]
      exact hle
    · intro s hs
      rw [hlog,hinbox,registered_put]
      exact ⟨(hnext s hs).1.send _ _ _ _ _ x hfresh,(hnext s hs).2⟩

/-- The completion worker's own messages. -/
theorem Accounted.send (qp : QpAttr) (n : State) (x : Msg × Option Nat)
    (ms : List (Msg × Option Nat)) (nxt : Option (QueuePairMessageTracker × Shadow))
    (h : Accounted n) (ht : n.turn .completion=some ⟨x::ms,nxt⟩) (hx : Plain x) :
    Accounted (n.sendNext (prog qp) .completion x ⟨ms,nxt⟩) := by
  obtain ⟨P,hP,hann,hle,hnext⟩ := h.turning _ ht
  have hfresh : ∀ k∈registered [x],k∉registered n.log := by
    rw [hx.registered]
    exact fun k hk => absurd hk List.not_mem_nil
  refine ⟨?_,?_,?_⟩
  · intro y hy
    rcases List.mem_append.mp hy with hy|hy
    · exact h.tagged y hy
    · split_ifs at hy
      · obtain rfl := List.mem_singleton.mp hy
        exact fun e he => absurd he (hx.event e)
      · cases hy
  · intro hnone
    rw [Threads.sendNext_turn_self] at hnone
    cases hnone
  · intro o ho
    rw [Threads.sendNext_turn_self] at ho
    obtain rfl := Option.some.inj ho
    refine ⟨P,hP,?_,?_,?_⟩
    · intro k hk
      change k∈announced (n.log++[x])
      rw [announced_append]
      exact List.mem_append_left _ (hann k hk)
    · change (tasks (n.log++[x])).count .ack+(tasks ms).count .ack≤P.length
      rw [show x::ms=[x]++ms from rfl,tasks_append,List.count_append] at hle
      rw [tasks_append,List.count_append]
      omega
    · intro s hs
      change Held (n.log++[x]) (registered ((n.put (prog qp) x).inbox .completion)) _ _ _ ∧ _
      rw [registered_put]
      exact ⟨(hnext s hs).1.send _ _ _ _ _ x hfresh,(hnext s hs).2⟩

theorem Accounted.take (qp : QpAttr) (n : State) (c : Nat)
    (s : QueuePairMessageTracker × Shadow) (x : Msg × Option Nat) (rest : Log) (h : Accounted n)
    (hs : n.state .completion=some s) (ht : n.turn .completion=none)
    (hx : n.inbox .completion=x::rest)
    (hdue : ∀ p,x.1=.completion (.ackSend p) →
      ∀ y∈s.2.send.inner.takeWhile (due p),y.2∈announced n.log) :
    Accounted (n.takeUp .completion ((prog qp).process .completion c s x) rest) := by
  obtain ⟨hheld,hle⟩ := h.idle ht s hs
  rw [hx] at hheld
  have hproc := process_held qp c n.log x rest s.1 s.2 hheld
    (h.tagged x (by rw [hx]; exact List.mem_cons_self)) hdue
  have hacks : (tasks ((prog qp).process .completion c s x).msgs).count .ack=
      acksIn (Driver.process qp .completion c s.1 x.1).msgs := tasks_tagged _ none
  refine ⟨?_,?_,?_⟩
  · intro y hy
    rw [Threads.takeUp_inbox_self] at hy
    exact h.tagged y (by rw [hx]; exact List.mem_cons_of_mem _ hy)
  · intro hnone
    rw [Threads.takeUp_turn_self] at hnone
    cases hnone
  · intro o ho
    rw [Threads.takeUp_turn_self] at ho
    obtain rfl := Option.some.inj ho
    refine ⟨_,hproc.nodup,hproc.announced,?_,?_⟩
    · rw [hacks]
      exact (Nat.add_le_add_right hle _).trans hproc.acks
    · intro s' hs'
      obtain ⟨t,ht',rfl⟩ := Option.map_eq_some_iff.mp hs'
      rw [Threads.takeUp_inbox_self]
      exact ⟨hproc.next t ht',le_rfl⟩

theorem Accounted.finish (n : State) (nxt : Option (QueuePairMessageTracker × Shadow))
    (h : Accounted n) (ht : n.turn .completion=some ⟨[],nxt⟩) :
    Accounted (n.finish .completion nxt) := by
  obtain ⟨P,hP,hann,hle,hnext⟩ := h.turning _ ht
  refine ⟨h.tagged,?_,?_⟩
  · intro _ s hs
    rw [Threads.finish_state_self] at hs
    exact ⟨(hnext s hs).1,hle.trans (hnext s hs).2⟩
  · intro o ho
    rw [Threads.finish_turn_self] at ho
    cases ho

/-- Steps that send nothing and do not move the completion worker. -/
theorem Accounted.frame (n n' : State) (h : Accounted n) (hlog : n'.log=n.log)
    (hinbox : n'.inbox .completion=n.inbox .completion)
    (hidle : n'.turn .completion=none → ∀ s,n'.state .completion=some s →
      n.turn .completion=none ∧ n.state .completion=some s)
    (hturn : ∀ o,n'.turn .completion=some o → n.turn .completion=some o) : Accounted n' := by
  refine ⟨?_,?_,?_⟩
  · rw [hinbox]
    exact h.tagged
  · intro hnone s hs
    rw [hlog,hinbox]
    exact h.idle (hidle hnone s hs).1 s (hidle hnone s hs).2
  · intro o ho
    rw [hlog,hinbox]
    exact h.turning o (hturn o ho)

end Completions

section Timer

/-- The timeout worker counts on. -/
theorem process_counts (now : Nat) (ts : List AckTimeoutTask) (w : QpAckTimeout)
    (t : AckTimeoutTask) (h : Counts ts w) (hnew : t=.newAckReq →
      w.outstandingAckReqCnt.toNat+1<2^64) (hack : t=.ack → 0<w.outstandingAckReqCnt.toNat) :
    ∀ w'∈(QpAckTimeoutWorker.process now w t).next,Counts (ts++[t]) w' := by
  intro w' hw'
  unfold Counts at h ⊢
  rw [List.count_append,List.count_append]
  cases t with
  | newAckReq =>
      obtain rfl := Option.some.inj hw'
      have hlt := hnew rfl
      have hone : (w.outstandingAckReqCnt+1).toNat=w.outstandingAckReqCnt.toNat+1 := by
        rw [UInt64.toNat_add]
        exact Nat.mod_eq_of_lt hlt
      dsimp only
      rw [hone,show [AckTimeoutTask.newAckReq].count .ack=0 from rfl,
        show [AckTimeoutTask.newAckReq].count .newAckReq=1 from rfl]
      omega
  | ack =>
      obtain rfl := Option.some.inj hw'
      have hpos := hack rfl
      have hone : (w.outstandingAckReqCnt-1).toNat=w.outstandingAckReqCnt.toNat-1 :=
        UInt64.toNat_sub_of_le _ _ (UInt64.le_iff_toNat_le.mpr hpos)
      dsimp only
      rw [hone,show [AckTimeoutTask.ack].count .ack=1 from rfl,
        show [AckTimeoutTask.ack].count .newAckReq=0 from rfl]
      omega
  | recvMeta =>
      obtain rfl := Option.some.inj hw'
      exact h

/-- An acknowledgement at the head of the channel has been paid for. -/
theorem positive (ts rest : List AckTimeoutTask) (w : QpAckTimeout) (h : Counts ts w)
    (hbal : Balanced (ts++.ack::rest)) : 0<w.outstandingAckReqCnt.toNat := by
  have hle := hbal (ts++[.ack]) ⟨rest,by simp⟩
  rw [List.count_append,List.count_append,show [AckTimeoutTask.ack].count .ack=1 from rfl,
    show [AckTimeoutTask.ack].count .newAckReq=0 from rfl] at hle
  unfold Counts at h
  omega

theorem Timed.put (qp : QpAttr) (n n' : State) (x : Msg × Option Nat) (h : Timed n)
    (hlog : n'.log=n.log++[x])
    (hinbox : n'.inbox .ackTimeout=(n.put (prog qp) x).inbox .ackTimeout)
    (hstate : n'.state .ackTimeout=n.state .ackTimeout)
    (hidle : n'.turn .ackTimeout=none → n.turn .ackTimeout=none)
    (hturn : ∀ o,n'.turn .ackTimeout=some o → ∃ o',n.turn .ackTimeout=some o' ∧ o.next=o'.next)
    (hack : x.1=.timeout .ack →
      (tasks n.log).count .ack+1≤(tasks n.log).count .newAckReq) : Timed n' := by
  obtain ⟨ts,hts,hcount,hcount'⟩ := h.counted
  refine ⟨?_,ts,?_,?_,?_⟩
  · rw [hlog,tasks_append]
    obtain ⟨m,k⟩ := x
    have hall := h.balanced _ (List.prefix_refl _)
    cases m with
    | timeout t =>
        refine h.balanced.concat _ t ?_
        rw [List.count_append,List.count_append]
        cases t with
        | ack => exact hack rfl
        | newAckReq => exact hall.trans (Nat.le_add_right _ _)
        | recvMeta => exact hall
    | _ =>
        change Balanced (tasks n.log++[])
        rw [List.append_nil]
        exact h.balanced
  · rw [hlog,hinbox,tasks_put,tasks_append,hts,List.append_assoc]
  · intro hnone s hs
    exact hcount (hidle hnone) s (hstate ▸ hs)
  · intro o ho s hs
    obtain ⟨o',ho',heq⟩ := hturn o ho
    exact hcount' o' ho' s (heq ▸ hs)

theorem Timed.take (qp : QpAttr) (n : State) (c : Nat) (s : QpAckTimeout × Unit)
    (x : Msg × Option Nat) (rest : Log) (h : Timed n) (hs : n.state .ackTimeout=some s)
    (ht : n.turn .ackTimeout=none) (hx : n.inbox .ackTimeout=x::rest)
    (hnew : x.1=.timeout .newAckReq → s.1.outstandingAckReqCnt.toNat+1<2^64) :
    Timed (n.takeUp .ackTimeout ((prog qp).process .ackTimeout c s x) rest) := by
  obtain ⟨ts,hts,hcount,-⟩ := h.counted
  have hs1 := hcount ht s hs
  have hbal := h.balanced
  rw [hx,show x::rest=[x]++rest from rfl,tasks_append,← List.append_assoc] at hts
  refine ⟨hbal,ts++tasks [x],?_,?_,?_⟩
  · rw [Threads.takeUp_inbox_self]
    exact hts
  · intro hnone
    rw [Threads.takeUp_turn_self] at hnone
    cases hnone
  · intro o ho s' hs'
    rw [Threads.takeUp_turn_self] at ho
    obtain rfl := Option.some.inj ho
    obtain ⟨w,hw,rfl⟩ := Option.map_eq_some_iff.mp hs'
    obtain ⟨m,k⟩ := x
    cases m with
    | timeout t =>
        refine process_counts c ts s.1 t hs1 (fun heq => hnew (by rw [heq])) ?_ w hw
        rintro rfl
        refine positive ts (tasks rest) s.1 hs1 ?_
        rw [hts,List.append_assoc] at hbal
        exact hbal
    | tick =>
        change Counts (ts++[]) w
        rw [List.append_nil]
        change (QpAckTimeoutWorker.maintainance c s.1).next=some w at hw
        unfold QpAckTimeoutWorker.maintainance at hw
        split at hw
        · obtain rfl := Option.some.inj hw
          exact hs1
        · obtain rfl := Option.some.inj hw
          exact hs1
        · cases hw
    | _ =>
        obtain rfl := Option.some.inj hw
        change Counts (ts++[]) s.1
        rw [List.append_nil]
        exact hs1

theorem Timed.finish (n : State) (nxt : Option (QpAckTimeout × Unit)) (h : Timed n)
    (ht : n.turn .ackTimeout=some ⟨[],nxt⟩) : Timed (n.finish .ackTimeout nxt) := by
  obtain ⟨ts,hts,-,hcount⟩ := h.counted
  refine ⟨h.balanced,ts,hts,?_,?_⟩
  · intro _ s hs
    rw [Threads.finish_state_self] at hs
    exact hcount _ ht s hs
  · intro o ho
    rw [Threads.finish_turn_self] at ho
    cases ho

/-- Steps that send nothing and do not move the timeout worker. -/
theorem Timed.frame (n n' : State) (h : Timed n) (hlog : n'.log=n.log)
    (hinbox : n'.inbox .ackTimeout=n.inbox .ackTimeout)
    (hidle : n'.turn .ackTimeout=none → ∀ s,n'.state .ackTimeout=some s →
      n.turn .ackTimeout=none ∧ n.state .ackTimeout=some s)
    (hturn : ∀ o,n'.turn .ackTimeout=some o → n.turn .ackTimeout=some o) : Timed n' := by
  obtain ⟨ts,hts,hcount,hcount'⟩ := h.counted
  refine ⟨?_,ts,?_,?_,fun o ho => hcount' o (hturn o ho)⟩
  · rw [hlog]
    exact h.balanced
  · rw [hlog,hinbox]
    exact hts
  · intro hnone s hs
    exact hcount (hidle hnone s hs).1 s (hidle hnone s hs).2

end Timer

end AckCounter
end BlueRdma

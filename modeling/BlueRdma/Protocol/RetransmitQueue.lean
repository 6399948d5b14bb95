import BlueRdma.Workers.Driver

namespace BlueRdma
namespace RetransmitQueue

/-- The PSNs of a work request, as positions in the unbounded stream of PSNs. -/
structure Span where
  first : Nat := 0
  count : Nat := 0
  deriving DecidableEq

def Span.stop (x : Span) : Nat := x.first+x.count

/-- An acknowledgement carries the left edge it reports, a request the PSNs it was given. -/
structure Tag where
  edge : Nat := 0
  span : Span := {}

/-- The send worker's account: the edge it has heard of and the end of its last request. -/
structure Sender where
  acked : Nat := 0
  stop : Nat := 0

/-- The retransmit worker's account of the requests it holds and of those it has dropped. -/
structure Kept where
  spans : List Span := []
  removed : List Span := []
  base : Nat := 0

@[reducible] def Aux : Worker → Type
  | .rdmaWrite => Sender
  | .metaReport => Nat
  | .packetRetransmit => Kept
  | _ => Unit

/-- The PSNs an accepted request gets: the first is the next one at or behind the edge that
agrees with the PSN counter. -/
def Sender.span (qp : QpAttr) (ctx : SendQueueContext) (g : Sender) (wr : SendWrRdma) : Span :=
  ⟨g.acked+(ctx.psn-ctx.psnAcked).toNat,(RdmaWriteWorker.psnCount qp wr).elim 0 UInt32.toNat⟩

def Sender.post (qp : QpAttr) (ctx : SendQueueContext) (g : Sender) (wr : SendWrRdma) : Sender :=
  if RdmaWriteWorker.accepts qp ctx wr then {g with stop := (g.span qp ctx wr).stop} else g

/-- The edge of the send-side tracker once a report has been handled. -/
def moved (h : MetaHandler) (g : Nat) (m : ReportMeta) : Nat :=
  (h.handleMeta m).next.elim g (fun h' =>
    g+(h'.sendTable.psnTracker.basePsn-h.sendTable.psnTracker.basePsn).toNat)

def Kept.drop (g : Kept) (k edge : Nat) : Kept := ⟨g.spans.drop k,g.removed++g.spans.take k,edge⟩

def next (qp : QpAttr) : (w : Worker) → Nat → w.State → Aux w → Msg → Tag → Aux w
  | .rdmaWrite,_,ctx,g,.rdma (.write wr),_ => g.post qp ctx wr
  | .rdmaWrite,_,_,g,.rdma (.ack _),x => {g with acked := x.edge}
  | .metaReport,_,h,g,.report m,_ => moved h g m
  | .packetRetransmit,_,_,g,.retransmit (.newWr _),x => {g with spans := g.spans++[x.span]}
  | .packetRetransmit,c,q,g,.retransmit (.ack psn),x => g.drop (q.before c psn-1) x.edge
  | _,_,_,g,_,_ => g

def tag (qp : QpAttr) : (w : Worker) → w.State → Aux w → Msg → Tag
  | .rdmaWrite,ctx,g,.rdma (.write wr) => {span := g.span qp ctx wr}
  | .metaReport,h,g,.report m => {edge := moved h g m}
  | _,_,_,_ => {}

def prog (qp : QpAttr) : Program Worker (fun w => w.State × Aux w) Nat (Msg × Tag) :=
  (driver qp).instrument ⟨fun w _ s g m _ _ => tag qp w s g m,next qp⟩

abbrev State := Net Worker (fun w => w.State × Aux w) (Msg × Tag)
abbrev Label := NetLabel Worker Nat (Msg × Tag)

def initAux : (w : Worker) → Aux w
  | .rdmaWrite => {}
  | .metaReport => (0 : Nat)
  | .packetRetransmit => {}
  | .completion | .ackResponder | .ackTimeout => ()

def init (config : AckTimeoutConfig) : State := Driver.initWith config initAux

/-- What changes the retransmission queue. -/
inductive Act
  | ack (psn : Psn) (edge : Nat)
  | wr (psn : Psn) (span : Span)

def acts (ms : List (Msg × Tag)) : List Act :=
  ms.filterMap (fun
    | (.retransmit (.ack psn),x) => some (.ack psn x.edge)
    | (.retransmit (.newWr wr),x) => some (.wr wr.psn x.span)
    | _ => none)

/-- Acknowledgements on their way to the send worker. -/
def sendAcks (ms : List (Msg × Tag)) : List (Psn × Nat) :=
  ms.filterMap (fun | (.rdma (.ack psn),x) => some (psn,x.edge) | _ => none)

@[simp] theorem acts_append (ms ns : List (Msg × Tag)) : acts (ms++ns)=acts ms++acts ns :=
  List.filterMap_append

@[simp] theorem sendAcks_append (ms ns : List (Msg × Tag)) :
    sendAcks (ms++ns)=sendAcks ms++sendAcks ns := List.filterMap_append

/-- The edge reported last. -/
def edge (l : List Act) : Nat := l.foldl (fun e a => match a with | .ack _ b => b | .wr _ _ => e) 0

/-- The end of the request handed over last. -/
def stop (l : List Act) : Nat :=
  l.foldl (fun e a => match a with | .wr _ x => x.stop | .ack _ _ => e) 0

@[simp] theorem edge_ack (l : List Act) (psn : Psn) (b : Nat) : edge (l++[.ack psn b])=b := by
  simp [edge]

@[simp] theorem edge_wr (l : List Act) (psn : Psn) (x : Span) : edge (l++[.wr psn x])=edge l := by
  simp [edge]

@[simp] theorem stop_ack (l : List Act) (psn : Psn) (b : Nat) : stop (l++[.ack psn b])=stop l := by
  simp [stop]

@[simp] theorem stop_wr (l : List Act) (psn : Psn) (x : Span) : stop (l++[.wr psn x])=x.stop := by
  simp [stop]

/-- Edges do not move backwards; requests are laid end to end and stay within half the PSN
space of the edge. -/
def Follows (l : List Act) : Act → Prop
  | .ack psn b => psn=Psn.wrap b ∧ edge l≤b
  | .wr psn x => psn=Psn.wrap x.first ∧ stop l≤x.first ∧ x.stop≤edge l+2^23

/-- The queue after the messages `done` have been taken up. -/
structure Holds (done : List Act) (q : IbvSendQueue) (g : Kept) : Prop where
  psns : q.inner.map SendQueueElem.psn=g.spans.map (fun x => Psn.wrap x.first)
  laid : g.spans.Pairwise (fun x y => x.stop≤y.first)
  last : ∀ x∈g.spans,x.stop ≤ stop done
  near : ∀ x∈g.spans,x.stop≤edge done+2^23
  base : q.basePsn=Psn.wrap g.base
  reached : g.base=edge done
  removed : ∀ x∈g.removed,x.stop≤g.base

/-- The send worker while `L` has been sent and `pending` waits in its channel. -/
structure Sends (L : List Act) (pending : List (Psn × Nat)) (ctx : SendQueueContext) (g : Sender) :
    Prop where
  psn : ctx.psn=Psn.wrap g.stop
  acked : ctx.psnAcked=Psn.wrap g.acked
  window : g.stop≤g.acked+2^23
  behind : stop L≤g.stop
  wrapped : ∀ x∈pending,x.1=Psn.wrap x.2
  sorted : (g.acked::pending.map Prod.snd).Pairwise (·≤·)
  below : ∀ b∈g.acked::pending.map Prod.snd,b≤edge L

structure Inv (qp : QpAttr) (n : State) : Prop where
  follows : Run.Each Follows (acts n.log)
  logged : n.Logged (prog qp)
  valid : ∀ x∈n.log,∀ m,x.1=.report m → m.Valid
  kept : ∀ q g,n.state .packetRetransmit=some (q,g) →
    ∃ done,acts n.log=done++acts (n.inbox .packetRetransmit) ∧ Holds done q g
  tracker : ∀ h g,n.state .metaReport=some (h,g) →
    h.sendTable.psnTracker.basePsn=Psn.wrap g ∧ edge (acts n.log)=g
  sends : ∀ ctx g,n.state .rdmaWrite=some (ctx,g) →
    Sends (acts n.log) (sendAcks (n.inbox .rdmaWrite)) ctx g

theorem edge_mono (l r : List Act) (h : Run.Each Follows (l++r)) : edge l≤edge (l++r) := by
  induction r using List.reverseRecOn with
  | nil => simp
  | append_singleton r a ih =>
      rw [← List.append_assoc] at h ⊢
      have hinit := h.of_init (l++r) _ (List.prefix_append ..)
      refine (ih hinit).trans ?_
      have ha := h (l++r).length a (by simp)
      rw [List.take_left] at ha
      cases a with
      | ack psn b =>
          rw [edge_ack]
          exact ha.2
      | wr psn x => rw [edge_wr]

/-- The element in front of the cut starts before the edge, and so ends every earlier one. -/
theorem Holds.cut (done : List Act) (q : IbvSendQueue) (g : Kept) (h : Holds done q g) (c : Nat)
    (psn : Psn) (b : Nat) (hpsn : psn=Psn.wrap b) (hb : edge done≤b) :
    ∀ x∈g.spans.take (q.before c psn-1),x.stop≤b := by
  intro x hx
  set k := q.before c psn-1 with hk
  obtain ⟨-,hlast⟩ := Search.ringPartitionPoint_spec (fun y => decide (y.psn<psn)) c q.inner
  change q.before c psn=0 ∨ (q.inner[k]?.any _)=true at hlast
  rcases hlast with hzero|hlast
  · rw [hk,hzero] at hx
    simp at hx
  rcases hget : q.inner[k]? with _|y
  · simp [hget] at hlast
  have hlt : y.psn<psn := by simpa [hget] using hlast
  have hmap := congrArg (fun l => l[k]?) h.psns
  simp only [List.getElem?_map,hget,Option.map_some] at hmap
  obtain ⟨z,hz,hyz⟩ := Option.map_eq_some_iff.mp hmap.symm
  have hstart : z.first<b := by
    have hnear := h.near z (List.mem_of_getElem? hz)
    rw [← hyz,hpsn] at hlt
    apply Psn.lt_of_wrap_lt _ _ _ hlt
    unfold Span.stop at hnear
    omega
  obtain ⟨hlen,rfl⟩ := List.getElem?_eq_some_iff.mp hz
  have hlaid := h.laid
  rw [← List.take_append_drop k g.spans,List.drop_eq_getElem_cons hlen] at hlaid
  have hxz := (List.pairwise_append.mp hlaid).2.2 x hx _ (List.mem_cons_self ..)
  omega

/-- The retransmit worker takes up an acknowledgement. -/
theorem Holds.ack (done : List Act) (q : IbvSendQueue) (g : Kept) (h : Holds done q g) (c : Nat)
    (psn : Psn) (b : Nat) (ha : Follows done (.ack psn b)) :
    Holds (done++[.ack psn b]) (q.popUntil c psn) (g.drop (q.before c psn-1) b) := by
  obtain ⟨hpsn,hb⟩ := ha
  have hcut := h.cut done q g c psn b hpsn hb
  have hreached := h.reached
  refine ⟨?_,h.laid.sublist (List.drop_sublist ..),?_,?_,hpsn,by simp [Kept.drop],?_⟩
  · simp only [IbvSendQueue.popUntil,Kept.drop,List.map_drop,h.psns]
  · intro x hx
    rw [stop_ack]
    exact h.last x (List.mem_of_mem_drop hx)
  · intro x hx
    have hnear := h.near x (List.mem_of_mem_drop hx)
    rw [edge_ack]
    omega
  · intro x hx
    change x.stop≤b
    rcases List.mem_append.mp hx with hx|hx
    · have hold := h.removed x hx
      omega
    · exact hcut x hx

/-- The retransmit worker takes up a new request. -/
theorem Holds.push (done : List Act) (q : IbvSendQueue) (g : Kept) (h : Holds done q g)
    (wr : SendQueueElem) (x : Span) (hx : Follows done (.wr wr.psn x)) :
    Holds (done++[.wr wr.psn x]) (q.push wr) {g with spans := g.spans++[x]} := by
  obtain ⟨hpsn,hstop,hnear⟩ := hx
  have hle : stop done≤x.stop := by
    unfold Span.stop
    omega
  refine ⟨?_,?_,?_,?_,h.base,?_,h.removed⟩
  · simp [IbvSendQueue.push,h.psns,hpsn]
  · refine List.pairwise_append.mpr ⟨h.laid,List.pairwise_singleton ..,?_⟩
    intro y hy z hz
    obtain rfl := List.mem_singleton.mp hz
    exact (h.last y hy).trans hstop
  · intro y hy
    rw [stop_wr]
    rcases List.mem_append.mp hy with hy|hy
    · exact (h.last y hy).trans hle
    · rw [List.mem_singleton.mp hy]
  · intro y hy
    rw [edge_wr]
    rcases List.mem_append.mp hy with hy|hy
    · exact h.near y hy
    · rw [List.mem_singleton.mp hy]
      exact hnear
  · rw [edge_wr]
    exact h.reached

theorem first_spec (stop acked : Nat) (h : stop≤acked+2^23) :
    stop≤acked+(Psn.wrap stop-Psn.wrap acked).toNat ∧
    Psn.wrap (acked+(Psn.wrap stop-Psn.wrap acked).toNat)=Psn.wrap stop := by
  have hd : (Psn.wrap stop-Psn.wrap acked).toNat=Serial.dist (2^23) stop acked := by
    rw [Psn.sub_psn_toNat,Psn.wrap_toNat,Psn.wrap_toNat]
    exact Serial.dist_mod (2^23) stop acked (by decide)
  have hint := Serial.dist_int (2^23) stop acked (by decide)
  rw [hd,Psn.wrap_eq_iff]
  rcases Nat.lt_or_ge stop acked with hlt|hge
  · generalize Serial.dist (2^23) stop acked=d at hint ⊢
    push_cast at hint
    constructor <;> omega
  · rw [Serial.dist_of_le (2^23) stop acked hge (by omega)]
    constructor <;> omega

/-- An accepted request whose PSNs fit into the PSN space lies behind the earlier ones and
within half the PSN space of the edge. -/
theorem Sends.span (qp : QpAttr) (L : List Act) (pending : List (Psn × Nat)) (ctx : SendQueueContext)
    (g : Sender) (h : Sends L pending ctx g) (wr : SendWrRdma) (k : UInt32) (msn : UInt16) (psn : Psn)
    (hcount : RdmaWriteWorker.psnCount qp wr=some k) (hassigned : (ctx.nextWr k).2=some (msn,psn))
    (hfit : (ctx.psn-ctx.psnAcked).toNat+k.toNat<2^24) :
    psn=Psn.wrap (g.span qp ctx wr).first ∧ g.stop≤(g.span qp ctx wr).first ∧
    (g.span qp ctx wr).stop≤g.acked+2^23 ∧
    (ctx.nextWr k).1.psn=Psn.wrap (g.span qp ctx wr).stop := by
  obtain ⟨-,hpsn,hctx,hroom,-⟩ := ctx.nextWr_some k msn psn hassigned
  obtain ⟨hle,hwrap⟩ := first_spec g.stop g.acked h.window
  rw [← h.psn,← h.acked] at hle hwrap
  have hspan : g.span qp ctx wr=⟨g.acked+(ctx.psn-ctx.psnAcked).toNat,k.toNat⟩ := by
    rw [Sender.span,hcount]
    rfl
  rw [Psn.add_toNat,Nat.mod_eq_of_lt hfit,maxPsnWindow] at hroom
  rw [hspan,hctx]
  refine ⟨?_,hle,?_,?_⟩
  · rw [hpsn]
    exact hwrap.symm
  · unfold Span.stop
    dsimp only
    omega
  · have hsum := Psn.wrap_add (g.acked+(ctx.psn-ctx.psnAcked).toNat) k
    rw [hwrap] at hsum
    exact hsum

/-- The send worker hears of a new edge. -/
theorem Sends.hears (L : List Act) (pending : List (Psn × Nat)) (ctx : SendQueueContext) (g : Sender)
    (psn : Psn) (b : Nat) (h : Sends L ((psn,b)::pending) ctx g) :
    Sends L pending (ctx.updatePsnAcked psn) {g with acked := b} := by
  have hsorted := List.pairwise_cons.mp h.sorted
  have hb : g.acked≤b := hsorted.1 b (by simp)
  refine ⟨h.psn,h.wrapped _ (List.mem_cons_self ..),?_,h.behind,?_,hsorted.2,?_⟩
  · have hwin := h.window
    dsimp only
    omega
  · intro x hx
    exact h.wrapped x (List.mem_cons_of_mem _ hx)
  · intro c hc
    exact h.below c (List.mem_cons_of_mem _ hc)

/-- A new edge is on its way to the send worker, or only to the retransmit worker. -/
theorem Sends.told (L : List Act) (pending sent : List (Psn × Nat)) (ctx : SendQueueContext)
    (g : Sender) (h : Sends L pending ctx g) (psn : Psn) (b : Nat) (ha : Follows L (.ack psn b))
    (hsent : sent<+:[(psn,b)]) : Sends (L++[.ack psn b]) (pending++sent) ctx g := by
  obtain ⟨hpsn,hb⟩ := ha
  have hnew : ∀ x∈sent,x=(psn,b) := fun x hx => List.mem_singleton.mp (hsent.subset hx)
  have hbelow : ∀ c∈g.acked::pending.map Prod.snd,c≤b := fun c hc => (h.below c hc).trans hb
  refine ⟨h.psn,h.acked,h.window,by rw [stop_ack]; exact h.behind,?_,?_,?_⟩
  · intro x hx
    rcases List.mem_append.mp hx with hx|hx
    · exact h.wrapped x hx
    · rw [hnew x hx]
      exact hpsn
  · rw [List.map_append,← List.cons_append]
    refine List.pairwise_append.mpr ⟨h.sorted,?_,?_⟩
    · have hone := (hsent.map Prod.snd).sublist
      exact (List.pairwise_singleton (·≤·) b).sublist hone
    · intro c hc d hd
      obtain ⟨x,hx,rfl⟩ := List.mem_map.mp hd
      rw [hnew x hx]
      exact hbelow c hc
  · intro c hc
    rw [edge_ack]
    rw [List.map_append,← List.cons_append] at hc
    rcases List.mem_append.mp hc with hc|hc
    · exact hbelow c hc
    · obtain ⟨x,hx,rfl⟩ := List.mem_map.mp hc
      rw [hnew x hx]

theorem acts_of_emits (w : Worker) (hw : w≠.rdmaWrite) (hw' : w≠.metaReport)
    (ms : List (Msg × Tag)) (h : ∀ x∈ms,Driver.Emits w x.1) : acts ms=[] ∧ sendAcks ms=[] := by
  refine ⟨Driver.filterMap_emits _ w ?_ ms h,Driver.filterMap_emits _ w ?_ ms h⟩ <;> intro m x hm
  · cases hm <;> first | rfl | exact absurd rfl hw | exact absurd rfl hw'
  · cases hm <;> first | rfl | exact absurd rfl hw | exact absurd rfl hw'

theorem sendAcks_of_emits (ms : List (Msg × Tag)) (h : ∀ x∈ms,Driver.Emits .rdmaWrite x.1) :
    sendAcks ms=[] := by
  refine Driver.filterMap_emits _ .rdmaWrite ?_ ms h
  intro m x hm
  cases hm <;> rfl

theorem acts_addressed (qp : QpAttr) (ms : List (Msg × Tag)) :
    acts (Net.addressed (prog qp) .packetRetransmit ms)=acts ms := by
  apply Net.filterMap_addressed
  rintro ⟨m,x⟩ b hb
  split at hb
  · next heq =>
      obtain ⟨rfl,-⟩ := Prod.mk.inj heq
      rfl
  · next heq =>
      obtain ⟨rfl,-⟩ := Prod.mk.inj heq
      rfl
  · cases hb

theorem sendAcks_addressed (qp : QpAttr) (ms : List (Msg × Tag)) :
    sendAcks (Net.addressed (prog qp) .rdmaWrite ms)=sendAcks ms := by
  apply Net.filterMap_addressed
  rintro ⟨m,x⟩ b hb
  split at hb
  · next heq =>
      obtain ⟨rfl,-⟩ := Prod.mk.inj heq
      rfl
  · cases hb

/-- The report the report worker is about to handle. -/
def reporting (n : State) : Option (MetaHandler × ReportMeta) :=
  match n.state .metaReport,n.inbox .metaReport with
  | some (h,_),(.report m,_)::_ => some (h,m)
  | _,_ => none

/-- The work request the send worker is about to take. -/
def posting (n : State) : Option (SendQueueContext × SendWrRdma) :=
  match n.state .rdmaWrite,n.inbox .rdmaWrite with
  | some (ctx,_),(.rdma (.write wr),_)::_ => some (ctx,wr)
  | _,_ => none

/-- Reports carry PSNs of 24 bits. -/
def Allowed : Label → Prop
  | .post (.report m,_) => m.Valid
  | .post x => Driver.External x.1=true
  | _ => True

/-- The local hardware's acknowledgements do not advance the receive tracker, and a request is
taken only if its PSNs fit into the PSN space together with the outstanding ones. -/
def Separate (qp : QpAttr) (n : State) : Label → Prop
  | .work .metaReport _ => ∀ x∈reporting n,x.1.localAdvance x.2=none
  | .work .rdmaWrite _ => ∀ x∈posting n,∀ k∈RdmaWriteWorker.psnCount qp x.2,
    (x.1.psn-x.1.psnAcked).toNat+k.toNat<2^24
  | _ => True

instance (l : Label) : Decidable (Allowed l) :=
  match l with
  | .post (.report m,_) => inferInstanceAs (Decidable m.Valid)
  | .post (.tick,_) | .post (.rdma _,_) | .post (.completion _,_) | .post (.retransmit _,_)
  | .post (.ack _,_) | .post (.timeout _,_) | .post (.chunk _,_) | .post (.frame _,_)
  | .post (.sendCq _ _,_) | .post (.recvCq _ _,_) => inferInstanceAs (Decidable (_=true))
  | .work _ _ | .crash _ => inferInstanceAs (Decidable True)

instance (qp : QpAttr) (n : State) (l : Label) : Decidable (Separate qp n l) :=
  match l with
  | .work .metaReport _ => inferInstanceAs (Decidable (∀ x∈reporting n,x.1.localAdvance x.2=none))
  | .work .rdmaWrite _ =>
      have : ∀ x : SendQueueContext × SendWrRdma,Decidable (∀ k∈RdmaWriteWorker.psnCount qp x.2,
        (x.1.psn-x.1.psnAcked).toNat+k.toNat<2^24) := fun _ => Option.decidableForallMem _
      Option.decidableForallMem (posting n)
  | .work .completion _ | .work .packetRetransmit _ | .work .ackResponder _ | .work .ackTimeout _
  | .crash _ | .post _ => inferInstanceAs (Decidable True)

/-- Steps that neither touch the three workers nor what they tell each other. -/
theorem Inv.frame (qp : QpAttr) (n n' : State) (h : Inv qp n) (hlogged : n'.Logged (prog qp))
    (hvalid : ∀ x∈n'.log,∀ m,x.1=.report m → m.Valid) (hL : acts n'.log=acts n.log)
    (hQ : ∀ s,n'.state .packetRetransmit=some s → n.state .packetRetransmit=some s ∧
      acts (n'.inbox .packetRetransmit)=acts (n.inbox .packetRetransmit))
    (hM : ∀ s,n'.state .metaReport=some s → n.state .metaReport=some s)
    (hW : ∀ s,n'.state .rdmaWrite=some s → n.state .rdmaWrite=some s ∧
      sendAcks (n'.inbox .rdmaWrite)=sendAcks (n.inbox .rdmaWrite)) : Inv qp n' := by
  refine ⟨by rw [hL]; exact h.follows,hlogged,hvalid,?_,?_,?_⟩
  · intro q g hs
    obtain ⟨hs,hin⟩ := hQ _ hs
    rw [hL,hin]
    exact h.kept q g hs
  · intro t g hs
    rw [hL]
    exact h.tracker t g (hM _ hs)
  · intro ctx g hs
    obtain ⟨hs,hin⟩ := hW _ hs
    rw [hL,hin]
    exact h.sends ctx g hs

/-- Workers never send reports. -/
theorem valid_sent (qp : QpAttr) (n n' : State) (w : Worker) (c : Nat) (s : w.State × Aux w)
    (x : Msg × Tag) (rest sent : List (Msg × Tag))
    (ht : Net.Turn (prog qp) n w c s x rest sent n') (h : Inv qp n) :
    ∀ y∈n'.log,∀ m,y.1=.report m → m.Valid := by
  intro y hy m hm
  rw [ht.log] at hy
  rcases List.mem_append.mp hy with hy|hy
  · exact h.valid y hy m hm
  · have hem := Driver.emits_sent qp _ n n' w c s x rest sent ht y hy
    rw [hm] at hem
    cases hem

theorem turn_other (qp : QpAttr) (n n' : State) (w : Worker) (hw : w≠.rdmaWrite)
    (hw' : w≠.metaReport) (hw'' : w≠.packetRetransmit) (c : Nat) (s : w.State × Aux w)
    (x : Msg × Tag) (rest sent : List (Msg × Tag))
    (ht : Net.Turn (prog qp) n w c s x rest sent n') (h : Inv qp n) : Inv qp n' := by
  obtain ⟨hacts,hacks⟩ := acts_of_emits w hw hw' sent
    (Driver.emits_sent qp _ n n' w c s x rest sent ht)
  apply h.frame qp n n' (ht.logged _ n n' w c s x rest sent h.logged)
    (valid_sent qp n n' w c s x rest sent ht h)
  · simp [ht.log,hacts]
  · intro s' hs'
    rw [ht.state_other _ hw''.symm] at hs'
    simp [hs',ht.inbox_other _ hw''.symm,acts_addressed,hacts]
  · intro s' hs'
    rwa [ht.state_other _ hw'.symm] at hs'
  · intro s' hs'
    rw [ht.state_other _ hw.symm] at hs'
    simp [hs',ht.inbox_other _ hw.symm,sendAcks_addressed,hacks]

theorem turn_packetRetransmit (qp : QpAttr) (n n' : State) (c : Nat)
    (s : Worker.State .packetRetransmit × Aux .packetRetransmit) (x : Msg × Tag)
    (rest sent : List (Msg × Tag))
    (ht : Net.Turn (prog qp) n .packetRetransmit c s x rest sent n') (h : Inv qp n) : Inv qp n' := by
  obtain ⟨q,g⟩ := s
  obtain ⟨m,k⟩ := x
  obtain ⟨hacts,hacks⟩ := acts_of_emits .packetRetransmit (by decide) (by decide) sent
    (Driver.emits_sent qp _ n n' _ c _ _ rest sent ht)
  have hlog : acts n'.log=acts n.log := by simp [ht.log,hacts]
  obtain ⟨done,hdone,hheld⟩ := h.kept q g ht.alive
  have hx := h.logged .packetRetransmit (m,k) (by rw [ht.head]; exact List.mem_cons_self ..)
  obtain ⟨task,rfl⟩ := Driver.retransmit_of_dest m hx.2
  have hlive := ht.survives (driver qp) _ n n' .packetRetransmit c (q,g)
  have hrest : acts (n'.inbox .packetRetransmit)=acts rest := by
    simp [ht.inbox_self,acts_addressed,hacts]
  refine ⟨by rw [hlog]; exact h.follows,ht.logged _ n n' _ c _ _ rest sent h.logged,
    valid_sent qp n n' _ c _ _ rest sent ht h,?_,?_,?_⟩
  · intro q' g' hs
    obtain ⟨hnext,rfl,-⟩ := hlive (q',g') hs
    rw [hlog,hrest,hdone,ht.head]
    have hfollows : ∀ a,acts n.log=done++(a::acts rest) → Follows done a := by
      intro a ha
      have hf := h.follows done.length a (by rw [ha]; simp)
      rwa [ha,List.take_left] at hf
    cases task with
    | newWr wr =>
        obtain rfl := Option.some.inj hnext
        refine ⟨done++[.wr wr.psn k.span],by rw [List.append_assoc]; rfl,?_⟩
        exact hheld.push done q g wr k.span (hfollows _ (by rw [hdone,ht.head]; rfl))
    | ack psn =>
        obtain rfl := Option.some.inj hnext
        refine ⟨done++[.ack psn k.edge],by rw [List.append_assoc]; rfl,?_⟩
        exact hheld.ack done q g c psn k.edge (hfollows _ (by rw [hdone,ht.head]; rfl))
    | retransmitAll =>
        have hsame := PacketRetransmitWorker.process_resend c q q' _ (Or.inl rfl) hnext
        exact ⟨done,rfl,by rw [hsame]; exact hheld⟩
    | retransmitRange lo hi =>
        have hsame := PacketRetransmitWorker.process_resend c q q' _ (Or.inr ⟨lo,hi,rfl⟩) hnext
        exact ⟨done,rfl,by rw [hsame]; exact hheld⟩
  · intro t g' hs
    rw [ht.state_other _ (by decide)] at hs
    rw [hlog]
    exact h.tracker t g' hs
  · intro ctx g' hs
    rw [ht.state_other _ (by decide)] at hs
    have hin : sendAcks (n'.inbox .rdmaWrite)=sendAcks (n.inbox .rdmaWrite) := by
      simp [ht.inbox_other .rdmaWrite (by decide),sendAcks_addressed,hacks]
    rw [hlog,hin]
    exact h.sends ctx g' hs

/-- A turn of the send worker, up to what its task does. -/
theorem turn_request (qp : QpAttr) (n n' : State) (c : Nat) (ctx : SendQueueContext) (g : Sender)
    (x : Msg × Tag) (rest sent : List (Msg × Tag))
    (ht : Net.Turn (prog qp) n .rdmaWrite c (ctx,g) x rest sent n') (h : Inv qp n)
    (hfollows : Run.Each Follows (acts n.log++acts sent))
    (hedge : edge (acts n.log++acts sent)=edge (acts n.log))
    (hsends : ∀ ctx' g',n'.state .rdmaWrite=some (ctx',g') →
      Sends (acts n.log++acts sent) (sendAcks rest) ctx' g') : Inv qp n' := by
  have hacks := sendAcks_of_emits sent (Driver.emits_sent qp _ n n' _ c _ _ rest sent ht)
  have hlog : acts n'.log=acts n.log++acts sent := by simp [ht.log]
  refine ⟨by rw [hlog]; exact hfollows,ht.logged _ n n' _ c _ _ rest sent h.logged,
    valid_sent qp n n' _ c _ _ rest sent ht h,?_,?_,?_⟩
  · intro q g' hs
    rw [ht.state_other _ (by decide)] at hs
    obtain ⟨done,hdone,hheld⟩ := h.kept q g' hs
    refine ⟨done,?_,hheld⟩
    rw [hlog,ht.inbox_other .packetRetransmit (by decide),acts_append,acts_addressed,hdone,
      List.append_assoc]
  · intro t g' hs
    rw [ht.state_other _ (by decide)] at hs
    rw [hlog,hedge]
    exact h.tracker t g' hs
  · intro ctx' g' hs
    have hin : sendAcks (n'.inbox .rdmaWrite)=sendAcks rest := by
      simp [ht.inbox_self,sendAcks_addressed,hacks]
    rw [hlog,hin]
    exact hsends ctx' g' hs

theorem acts_requestMsgs (qp : QpAttr) (wr : SendWrRdma) (k : UInt32) (msn : UInt16) (psn : Psn)
    (op : Option SendEventOp) (timer stored : Bool) (chunks : List WrChunk) (x : Tag) :
    acts ((RdmaWriteWorker.requestMsgs qp wr k msn psn op timer stored chunks).map (fun m => (m,x)))=
      if stored then [.wr psn x.span] else [] := by
  have hchunks : acts ((chunks.map Msg.chunk).map (fun m => (m,x)))=[] := by
    apply List.filterMap_eq_nil_iff.mpr
    intro y hy
    simp only [List.map_map,List.mem_map,Function.comp_apply] at hy
    obtain ⟨c,-,rfl⟩ := hy
    rfl
  simp only [RdmaWriteWorker.requestMsgs,List.map_append,acts_append,hchunks,List.append_nil]
  cases op <;> cases timer <;> cases stored <;> rfl

/-- The send worker's account after an accepted request, if `L` has been sent by then. -/
theorem Sends.accept (qp : QpAttr) (L L' : List Act) (pending : List (Psn × Nat))
    (ctx : SendQueueContext) (g : Sender) (wr : SendWrRdma) (k : UInt32) (msn : UInt16) (psn : Psn)
    (h : Sends L pending ctx g)
    (ha : RdmaWriteWorker.Accepts qp ctx wr k msn psn (RdmaWriteWorker.process qp ctx (.write wr)))
    (hfits : (ctx.psn-ctx.psnAcked).toNat+k.toNat<2^24) (hstop : stop L'≤(g.span qp ctx wr).stop)
    (hedge : edge L'=edge L) : Sends L' pending (ctx.nextWr k).1 (g.post qp ctx wr) := by
  obtain ⟨-,-,hroom,hnew⟩ := h.span qp _ _ ctx g wr k msn psn ha.count ha.assigned hfits
  obtain ⟨-,-,hctx,-,-⟩ := ctx.nextWr_some k msn psn ha.assigned
  rw [Sender.post,if_pos ha.accepts]
  refine ⟨hnew,by rw [hctx]; exact h.acked,hroom,hstop,h.wrapped,h.sorted,?_⟩
  rw [hedge]
  exact h.below

section RdmaWrite
variable (qp : QpAttr) (n n' : State) (c : Nat) (ctx : SendQueueContext) (g : Sender) (k : Tag)
  (rest sent : List (Msg × Tag))

/-- A turn in which the retransmit worker is handed nothing. -/
theorem turn_quiet (task : RdmaWriteTask)
    (ht : Net.Turn (prog qp) n .rdmaWrite c (ctx,g) (.rdma task,k) rest sent n') (h : Inv qp n)
    (hnil : acts sent=[]) (hsends : ∀ ctx',(RdmaWriteWorker.process qp ctx task).next=some ctx' →
      Sends (acts n.log) (sendAcks rest) ctx' (next qp .rdmaWrite c ctx g (.rdma task) k)) :
    Inv qp n' := by
  have hlive := ht.survives (driver qp) _ n n' .rdmaWrite c (ctx,g)
  refine turn_request qp n n' c ctx g _ rest sent ht h ?_ ?_ ?_ <;> rw [hnil,List.append_nil]
  · exact h.follows
  · intro ctx' g' hs
    obtain ⟨hnext,rfl,-⟩ := hlive (ctx',g') hs
    exact hsends ctx' hnext

theorem acts_of_silent (task : RdmaWriteTask)
    (ht : Net.Turn (prog qp) n .rdmaWrite c (ctx,g) (.rdma task,k) rest sent n')
    (hnil : (RdmaWriteWorker.process qp ctx task).msgs=[]) : acts sent=[] := by
  have hsent : sent<+:(RdmaWriteWorker.process qp ctx task).msgs.map
      (fun m => (m,tag qp .rdmaWrite ctx g (.rdma task))) := ht.sent_prefix
  rw [hnil,List.map_nil,List.prefix_nil] at hsent
  rw [hsent]
  rfl

theorem turn_accepted (wr : SendWrRdma)
    (ht : Net.Turn (prog qp) n .rdmaWrite c (ctx,g) (.rdma (.write wr),k) rest sent n')
    (h : Inv qp n) (hse : Sends (acts n.log) (sendAcks rest) ctx g) (n₀ : UInt32) (msn : UInt16)
    (psn : Psn) (ha : RdmaWriteWorker.Accepts qp ctx wr n₀ msn psn
      (RdmaWriteWorker.process qp ctx (.write wr)))
    (hfits : (ctx.psn-ctx.psnAcked).toNat+n₀.toNat<2^24) : Inv qp n' := by
  obtain ⟨op,timer,stored,chunks,hmsgs,-⟩ := ha.msgs
  obtain ⟨hpsn,hle,hroom,-⟩ := hse.span qp _ _ ctx g wr n₀ msn psn ha.count ha.assigned hfits
  have hacked : g.acked≤edge (acts n.log) := hse.below _ (List.mem_cons_self ..)
  have hacts : acts sent<+:if stored then [.wr psn (g.span qp ctx wr)] else [] := by
    have hpre : acts sent<+:acts ((RdmaWriteWorker.process qp ctx (.write wr)).msgs.map
        (fun m => (m,{span := g.span qp ctx wr}))) := ht.sent_prefix.filterMap _
    rwa [hmsgs,acts_requestMsgs] at hpre
  have hsends (L' : List Act) (hstop : stop L'≤(g.span qp ctx wr).stop)
      (hedge : edge L'=edge (acts n.log)) (ctx' : SendQueueContext)
      (hnext : (RdmaWriteWorker.process qp ctx (.write wr)).next=some ctx') :
      Sends L' (sendAcks rest) ctx' (g.post qp ctx wr) := by
    rw [ha.next_eq qp ctx ctx' wr n₀ msn psn _ hnext]
    exact hse.accept qp _ L' _ ctx g wr n₀ msn psn ha hfits hstop hedge
  rcases hS : acts sent with _|⟨a,S⟩
  · refine turn_quiet qp n n' c ctx g k rest sent _ ht h hS (hsends _ ?_ rfl)
    have hbehind := hse.behind
    unfold Span.stop
    omega
  · rw [hS] at hacts
    cases stored with
    | false => cases List.prefix_nil.mp hacts
    | true =>
        obtain ⟨rfl,hS'⟩ := List.cons_prefix_cons.mp hacts
        obtain rfl := List.prefix_nil.mp hS'
        have hlive := ht.survives (driver qp) _ n n' .rdmaWrite c (ctx,g)
        refine turn_request qp n n' c ctx g _ rest sent ht h ?_ ?_ ?_ <;> rw [hS]
        · apply Run.each_append _ _ _ h.follows
          apply Run.each_singleton
          rw [List.append_nil]
          exact ⟨hpsn,hse.behind.trans hle,by omega⟩
        · exact edge_wr ..
        · intro ctx' g' hs
          obtain ⟨hnext,rfl,-⟩ := hlive (ctx',g') hs
          exact hsends _ (by rw [stop_wr]) (edge_wr ..) ctx' hnext

end RdmaWrite

theorem turn_rdmaWrite (qp : QpAttr) (n n' : State) (c : Nat)
    (s : Worker.State .rdmaWrite × Aux .rdmaWrite) (x : Msg × Tag) (rest sent : List (Msg × Tag))
    (ht : Net.Turn (prog qp) n .rdmaWrite c s x rest sent n')
    (hsep : Separate qp n (.work .rdmaWrite c)) (h : Inv qp n) : Inv qp n' := by
  obtain ⟨ctx,g⟩ := s
  obtain ⟨m,k⟩ := x
  have hse := h.sends ctx g ht.alive
  have hx := h.logged .rdmaWrite (m,k) (by rw [ht.head]; exact List.mem_cons_self ..)
  obtain ⟨task,rfl⟩ := Driver.rdma_of_dest m hx.2
  have hquiet (hnil : (RdmaWriteWorker.process qp ctx task).msgs=[]) :=
    turn_quiet qp n n' c ctx g k rest sent task ht h
      (acts_of_silent qp n n' c ctx g k rest sent task ht hnil)
  have hin := congrArg sendAcks ht.head
  cases task with
  | ack psn =>
      refine hquiet rfl ?_
      rintro ctx' ⟨⟩
      rw [show sendAcks (n.inbox .rdmaWrite)=(psn,k.edge)::sendAcks rest from hin] at hse
      exact hse.hears _ _ ctx g psn k.edge
  | newComplete msn =>
      refine hquiet rfl ?_
      rintro ctx' ⟨⟩
      rw [show sendAcks (n.inbox .rdmaWrite)=sendAcks rest from hin] at hse
      exact ⟨hse.psn,hse.acked,hse.window,hse.behind,hse.wrapped,hse.sorted,hse.below⟩
  | write wr =>
      rw [show sendAcks (n.inbox .rdmaWrite)=sendAcks rest from hin] at hse
      have hpost : posting n=some (ctx,wr) := by rw [posting,ht.alive,ht.head]
      rcases RdmaWriteWorker.process_write qp ctx wr with ⟨hproc,hno⟩|hproc|⟨n₀,msn,psn,ha⟩
      · refine hquiet (by rw [hproc]) ?_
        rw [hproc]
        rintro ctx' ⟨⟩
        have hsame : next qp .rdmaWrite c ctx g (.rdma (.write wr)) k=g := by
          simp [next,Sender.post,hno]
        rw [hsame]
        exact hse
      · refine hquiet (by rw [hproc]) ?_
        rw [hproc]
        rintro ctx' ⟨⟩
      · exact turn_accepted qp n n' c ctx g k rest sent wr ht h hse n₀ msn psn ha
          (hsep _ hpost n₀ ha.count)

/-- A turn of the report worker, up to what its report does. -/
theorem turn_report (qp : QpAttr) (n n' : State) (c : Nat) (t : MetaHandler) (g : Nat)
    (x : Msg × Tag) (rest sent : List (Msg × Tag))
    (ht : Net.Turn (prog qp) n .metaReport c (t,g) x rest sent n') (h : Inv qp n)
    (hsent : acts sent=[] ∧ sendAcks sent=[] ∨ ∃ psn b,Follows (acts n.log) (.ack psn b) ∧
      acts sent=[.ack psn b] ∧ sendAcks sent<+:[(psn,b)])
    (htracker : ∀ t' g',n'.state .metaReport=some (t',g') →
      t'.sendTable.psnTracker.basePsn=Psn.wrap g' ∧ edge (acts n.log++acts sent)=g') : Inv qp n' := by
  have hlog : acts n'.log=acts n.log++acts sent := by simp [ht.log]
  refine ⟨?_,ht.logged _ n n' _ c _ _ rest sent h.logged,
    valid_sent qp n n' _ c _ _ rest sent ht h,?_,?_,?_⟩
  · rw [hlog]
    rcases hsent with ⟨hnil,-⟩|⟨psn,b,hf,hone,-⟩
    · rw [hnil,List.append_nil]
      exact h.follows
    · rw [hone]
      apply Run.each_append _ _ _ h.follows
      apply Run.each_singleton
      rw [List.append_nil]
      exact hf
  · intro q g' hs
    rw [ht.state_other _ (by decide)] at hs
    obtain ⟨done,hdone,hheld⟩ := h.kept q g' hs
    refine ⟨done,?_,hheld⟩
    rw [hlog,ht.inbox_other .packetRetransmit (by decide),acts_append,acts_addressed,hdone,
      List.append_assoc]
  · rw [hlog]
    exact htracker
  · intro ctx g' hs
    rw [ht.state_other _ (by decide)] at hs
    have hse := h.sends ctx g' hs
    rw [hlog,ht.inbox_other .rdmaWrite (by decide),sendAcks_append,sendAcks_addressed]
    rcases hsent with ⟨hnil,hnil'⟩|⟨psn,b,hf,hone,hacks⟩
    · rw [hnil,hnil',List.append_nil,List.append_nil]
      exact hse
    · rw [hone]
      exact hse.told _ _ _ ctx g' psn b hf hacks

/-- Reports produce nothing for the queue but acknowledgements. -/
theorem acts_of_report (ms : List Msg) (y : Tag) (hem : ∀ m∈ms,Driver.Emits .metaReport m)
    (hno : ∀ m∈ms,MetaHandler.isSendAck m=false) :
    acts (ms.map (fun m => (m,y)))=[] ∧ sendAcks (ms.map (fun m => (m,y)))=[] := by
  constructor <;> apply List.filterMap_eq_nil_iff.mpr <;> intro x hx <;>
    obtain ⟨m,hm,rfl⟩ := List.mem_map.mp hx <;> have hm' := hem m hm <;> have hn := hno m hm
  · cases hm' <;> first | rfl | cases hn
  · cases hm' <;> first | rfl | cases hn

/-- What is sent of an advance of the send-side tracker: the send worker is not told before the
retransmit worker. -/
theorem sent_of_advance (front tail : List Msg) (p : Psn) (y : Tag) (sent : List (Msg × Tag))
    (hem : ∀ m∈front++tail,Driver.Emits .metaReport m)
    (hno : ∀ m∈front++tail,MetaHandler.isSendAck m=false)
    (hsent : sent<+:(front++(MetaHandler.senderUpdates p++tail)).map (fun m => (m,y))) :
    (acts sent=[] ∧ sendAcks sent=[] ∨ acts sent=[.ack p y.edge] ∧ sendAcks sent<+:[(p,y.edge)]) ∧
    (sent=(front++(MetaHandler.senderUpdates p++tail)).map (fun m => (m,y)) →
      acts sent=[.ack p y.edge]) := by
  have hfront := acts_of_report front y (fun m hm => hem m (List.mem_append_left _ hm))
    (fun m hm => hno m (List.mem_append_left _ hm))
  have htail := acts_of_report tail y (fun m hm => hem m (List.mem_append_right _ hm))
    (fun m hm => hno m (List.mem_append_right _ hm))
  set X := (front++[Msg.completion (.ackSend p),.retransmit (.ack p)]).map (fun m => (m,y)) with hX
  set Y := (Msg.rdma (.ack p)::tail).map (fun m => (m,y)) with hY
  have hcut : (front++(MetaHandler.senderUpdates p++tail)).map (fun m => (m,y))=X++Y := by
    simp [hX,hY,MetaHandler.senderUpdates]
  have hXa : acts X=[.ack p y.edge] := by
    rw [hX,List.map_append,acts_append,hfront.1]
    rfl
  have hXs : sendAcks X=[] := by
    rw [hX,List.map_append,sendAcks_append,hfront.2]
    rfl
  have hYa : acts Y=[] := by
    rw [hY,List.map_cons,← List.singleton_append,acts_append,htail.1]
    rfl
  have hYs : sendAcks Y=[(p,y.edge)] := by
    rw [hY,List.map_cons,← List.singleton_append,sendAcks_append,htail.2]
    rfl
  rw [hcut] at hsent ⊢
  have hacts : acts sent<+:[.ack p y.edge] := by
    have hpre : acts sent<+:acts (X++Y) := hsent.filterMap _
    rwa [acts_append,hXa,hYa,List.append_nil] at hpre
  have hacks : sendAcks sent<+:[(p,y.edge)] := by
    have hpre : sendAcks sent<+:sendAcks (X++Y) := hsent.filterMap _
    rwa [sendAcks_append,hXs,hYs,List.nil_append] at hpre
  constructor
  · rcases List.prefix_or_prefix_of_prefix hsent (List.prefix_append X Y) with hle|hge
    · have hnone : sendAcks sent=[] := by
        have hpre : sendAcks sent<+:sendAcks X := hle.filterMap _
        rw [hXs] at hpre
        exact List.prefix_nil.mp hpre
      rcases hS : acts sent with _|⟨a,S⟩
      · exact Or.inl ⟨rfl,hnone⟩
      · rw [hS] at hacts
        obtain ⟨rfl,hS'⟩ := List.cons_prefix_cons.mp hacts
        obtain rfl := List.prefix_nil.mp hS'
        exact Or.inr ⟨rfl,hacks⟩
    · have hpre : acts X<+:acts sent := hge.filterMap _
      rw [hXa] at hpre
      exact Or.inr ⟨hacts.eq_of_length_le hpre.length_le,hacks⟩
  · rintro rfl
    rw [acts_append,hXa,hYa,List.append_nil]

section Moved
variable (t t' : MetaHandler) (g : Nat) (m : ReportMeta)
  (hbase : t.sendTable.psnTracker.basePsn=Psn.wrap g) (hnext : (t.handleMeta m).next=some t')
include hnext

theorem moved_ge : g ≤ moved t g m := by
  rw [moved,hnext,Option.elim_some]
  omega

/-- A report without an advance leaves the ghost edge where it is. -/
theorem moved_stay (h : t.sendTable.psnTracker.Reports (t'.sendTable.psnTracker,none)) :
    moved t g m=g := by
  have hstay : t'.sendTable.psnTracker.basePsn=t.sendTable.psnTracker.basePsn := h.edge
  rw [moved,hnext,Option.elim_some,hstay,Psn.sub_psn_toNat,
    Serial.dist_of_le _ _ _ le_rfl (by omega)]
  omega

include hbase

/-- It moves with the tracker's left edge. -/
theorem base_moved (adv : Option Psn)
    (h : t.sendTable.psnTracker.Reports (t'.sendTable.psnTracker,adv)) :
    t'.sendTable.psnTracker.basePsn=Psn.wrap (moved t g m) := by
  have hvalid := h.valid (by rw [hbase]; exact Psn.wrap_valid g)
  rw [moved,hnext,Option.elim_some,hbase,Psn.wrap_add_sub g _ hvalid]

end Moved

theorem turn_metaReport (qp : QpAttr) (n n' : State) (c : Nat)
    (s : Worker.State .metaReport × Aux .metaReport) (x : Msg × Tag) (rest sent : List (Msg × Tag))
    (ht : Net.Turn (prog qp) n .metaReport c s x rest sent n')
    (hsep : Separate qp n (.work .metaReport c)) (h : Inv qp n) : Inv qp n' := by
  obtain ⟨t,g⟩ := s
  obtain ⟨m,k⟩ := x
  obtain ⟨hbase,hedge⟩ := h.tracker t g ht.alive
  have hx := h.logged .metaReport (m,k) (by rw [ht.head]; exact List.mem_cons_self ..)
  obtain ⟨m,rfl⟩ := Driver.report_of_dest m hx.2
  have hrep : reporting n=some (t,m) := by rw [reporting,ht.alive,ht.head]
  obtain ⟨front,adv,tail,hmsgs,hfront,htail,hdead,hreports⟩ :=
    t.handleMeta_sendAcks m (h.valid _ hx.1 m rfl) (hsep _ hrep)
  have hlive := ht.survives (driver qp) _ n n' .metaReport c (t,g)
  have hsent : sent<+:(t.handleMeta m).msgs.map (fun m' => (m',{edge := moved t g m})) :=
    ht.sent_prefix
  have hem : ∀ y∈front++tail,Driver.Emits .metaReport y := by
    intro y hy
    apply Driver.emits_metaReport t m y
    rw [hmsgs]
    rcases List.mem_append.mp hy with hy|hy
    · exact List.mem_append_left _ hy
    · exact List.mem_append_right _ (List.mem_append_right _ hy)
  have hno : ∀ y∈front++tail,MetaHandler.isSendAck y=false := by
    intro y hy
    rcases List.mem_append.mp hy with hy|hy
    · exact hfront y hy
    · exact htail y hy
  rw [hmsgs] at hsent
  cases adv with
  | none =>
      have hquiet := acts_of_report (front++tail) {edge := moved t g m} hem hno
      have hnil : acts sent=[] ∧ sendAcks sent=[] :=
        ⟨List.prefix_nil.mp (hquiet.1 ▸ hsent.filterMap _),
          List.prefix_nil.mp (hquiet.2 ▸ hsent.filterMap _)⟩
      refine turn_report qp n n' c t g _ rest sent ht h (Or.inl hnil) ?_
      intro t' g' hs
      obtain ⟨ht',rfl,-⟩ := hlive (t',g') hs
      refine ⟨base_moved t t' g m hbase ht' none (hreports t' ht'),?_⟩
      rw [hnil.1,List.append_nil,hedge]
      exact (moved_stay t t' g m ht' (hreports t' ht')).symm
  | some p =>
      obtain ⟨t₁,ht₁⟩ : ∃ t₁,(t.handleMeta m).next=some t₁ := by
        rcases hn : (t.handleMeta m).next with _|t₁
        · cases hdead hn
        · exact ⟨t₁,rfl⟩
      have hp : p=Psn.wrap (moved t g m) := by
        rw [← base_moved t t₁ g m hbase ht₁ _ (hreports t₁ ht₁)]
        exact (hreports t₁ ht₁).edge.symm
      have hfollows : Follows (acts n.log) (.ack p (moved t g m)) :=
        ⟨hp,hedge.trans_le (moved_ge t t₁ g m ht₁)⟩
      obtain ⟨hcases,hfull⟩ := sent_of_advance front tail p {edge := moved t g m} sent hem hno hsent
      refine turn_report qp n n' c t g _ rest sent ht h ?_ ?_
      · rcases hcases with hnil|⟨hone,hacks⟩
        · exact Or.inl hnil
        · exact Or.inr ⟨p,_,hfollows,hone,hacks⟩
      · intro t' g' hs
        obtain ⟨ht',rfl,hall⟩ := hlive (t',g') hs
        refine ⟨base_moved t t' g m hbase ht' _ (hreports t' ht'),?_⟩
        rw [hfull (hall.trans (congrArg (List.map _) hmsgs)),edge_ack]
        rfl

theorem external_silent (m : Msg) (k : Tag) (h : Driver.External m=true) :
    acts [(m,k)]=[] ∧ sendAcks [(m,k)]=[] := by
  unfold Driver.External at h
  split at h <;> first | exact ⟨rfl,rfl⟩ | cases h

theorem external_of_allowed (x : Msg × Tag) (h : Allowed (.post x)) : Driver.External x.1=true := by
  obtain ⟨m,k⟩ := x
  cases m <;> first | rfl | exact h

theorem step_inv (qp : QpAttr) (n : State) (l : Label) (hl : Allowed l ∧ Separate qp n l)
    (h : Inv qp n) : Inv qp (n.step (prog qp) l) := by
  have hlogged := Net.step_logged (prog qp) n l h.logged
  cases l with
  | post x =>
      have hinit : n.delivered (prog qp) [x]<+:[x] := List.takeWhile_prefix _
      have hnone : acts (n.delivered (prog qp) [x])=[] ∧ sendAcks (n.delivered (prog qp) [x])=[] := by
        obtain ⟨h1,h2⟩ := external_silent x.1 x.2 (external_of_allowed x hl.1)
        exact ⟨List.prefix_nil.mp (h1 ▸ hinit.filterMap _),
          List.prefix_nil.mp (h2 ▸ hinit.filterMap _)⟩
      apply h.frame qp n _ hlogged
      · intro y hy m hm
        rcases List.mem_append.mp hy with hy|hy
        · exact h.valid y hy m hm
        · obtain rfl := List.mem_singleton.mp (hinit.subset hy)
          obtain ⟨m',k⟩ := y
          obtain rfl : m'=.report m := hm
          exact hl.1
      · simp [Net.step,Net.send,hnone]
      · intro s hs
        exact ⟨hs,by simp [Net.step,Net.send,acts_addressed,hnone]⟩
      · intro s hs
        exact hs
      · intro s hs
        exact ⟨hs,by simp [Net.step,Net.send,sendAcks_addressed,hnone]⟩
  | crash w =>
      apply h.frame qp n _ hlogged h.valid rfl
      · intro s hs
        exact ⟨Net.step_crash (prog qp) n w .packetRetransmit s hs,rfl⟩
      · intro s hs
        exact Net.step_crash (prog qp) n w .metaReport s hs
      · intro s hs
        exact ⟨Net.step_crash (prog qp) n w .rdmaWrite s hs,rfl⟩
  | work w c =>
      rcases Net.work_cases (prog qp) n w c with heq|⟨s,x,rest,sent,ht⟩
      · rw [Net.step,heq]
        exact h
      · by_cases hw : w=.rdmaWrite
        · subst hw
          exact turn_rdmaWrite qp n _ c s x rest sent ht hl.2 h
        by_cases hw' : w=.metaReport
        · subst hw'
          exact turn_metaReport qp n _ c s x rest sent ht hl.2 h
        by_cases hw'' : w=.packetRetransmit
        · subst hw''
          exact turn_packetRetransmit qp n _ c s x rest sent ht h
        · exact turn_other qp n _ w hw hw' hw'' c s x rest sent ht h

theorem init_inv (qp : QpAttr) (config : AckTimeoutConfig) : Inv qp (init config) := by
  refine ⟨Run.each_nil _,by simp [init,Driver.initWith,Net.Logged],
    by simp [init,Driver.initWith],?_,?_,?_⟩
  · rintro q g ⟨⟩
    exact ⟨[],rfl,rfl,List.Pairwise.nil,by simp [initAux],by simp [initAux],rfl,rfl,
      by simp [initAux]⟩
  · rintro t g ⟨⟩
    exact ⟨rfl,rfl⟩
  · rintro ctx g ⟨⟩
    exact ⟨rfl,rfl,Nat.zero_le _,le_rfl,by simp [init,Driver.initWith,sendAcks],
      List.pairwise_singleton ..,by simp [init,Driver.initWith,sendAcks,initAux]⟩

def run (qp : QpAttr) (config : AckTimeoutConfig) (ls : List Label) : State :=
  Run.run (Net.step (prog qp)) (init config) ls

/-- Reports about the receive direction. -/
def receives : ReportMeta → Bool
  | .ackLocalHw _ | .nakLocalHw _ | .headerWrite _ => true
  | _ => false

/-- Such a report tells the retransmit worker nothing. -/
theorem handleMeta_receives (h : MetaHandler) (m : ReportMeta) (hr : receives m=true)
    (hlocal : h.localAdvance m=none) :
    ∀ y∈(h.handleMeta m).msgs,Driver.dest y≠some .packetRetransmit := by
  intro y hy
  cases m with
  | headerWrite x =>
      simp only [MetaHandler.handleMeta,MetaHandler.handleHeaderWrite,List.mem_cons,
        List.mem_append] at hy
      rcases hy with rfl|(hy|hy)|hy
      · decide
      · split_ifs at hy
        · obtain rfl := List.mem_singleton.mp hy
          simp [Driver.dest]
        · cases hy
      · cases hadv : (h.recvTable.ackOne x.psn).2 with
        | none => simp [hadv,MetaHandler.onAdvance] at hy
        | some p =>
            simp only [hadv,MetaHandler.onAdvance,MetaHandler.ackRecvMsg,Option.elim_some,
              List.mem_singleton] at hy
            simp [hy,Driver.dest]
      · split_ifs at hy
        · obtain rfl := List.mem_singleton.mp hy
          simp [Driver.dest]
        · cases hy
  | ackLocalHw x =>
      have hadv : (h.recvTable.ackBitmap x.psnNow x.nowBitmap).2=none := hlocal
      simp only [MetaHandler.handleMeta,MetaHandler.handleAckLocalHw,hadv,MetaHandler.onAdvance,
        Option.elim_none,List.mem_singleton] at hy
      simp [hy,Driver.dest]
  | nakLocalHw x =>
      have hadv : (h.recvTable.nakBitmap x.psnPre x.preBitmap x.psnNow x.nowBitmap).2=none := hlocal
      simp only [MetaHandler.handleMeta,MetaHandler.handleNakLocalHw,hadv,MetaHandler.onAdvance,
        Option.elim_none,List.mem_singleton] at hy
      simp [hy,Driver.dest]
  | headerRead x => cases hr
  | ackRemoteDriver x => cases hr
  | nakRemoteHw x => cases hr
  | nakRemoteDriver x => cases hr
  | cnp => cases hr

/-- Handling a report about the receive direction leaves the queue and its channel alone. -/
theorem step_receives (qp : QpAttr) (n : State) (c : Nat) (x : MetaHandler × ReportMeta)
    (hx : reporting n=some x) (hr : receives x.2=true) (hlocal : x.1.localAdvance x.2=none) :
    (n.step (prog qp) (.work .metaReport c)).state .packetRetransmit=n.state .packetRetransmit ∧
    (n.step (prog qp) (.work .metaReport c)).inbox .packetRetransmit=n.inbox .packetRetransmit := by
  rcases Net.work_cases (prog qp) n .metaReport c with heq|⟨s,y,rest,sent,ht⟩
  · rw [Net.step,heq]
    exact ⟨rfl,rfl⟩
  have hread : y.1=.report x.2 ∧ s.1=x.1 := by
    unfold reporting at hx
    rw [ht.alive,ht.head] at hx
    split at hx
    · next hs hm =>
        obtain rfl := Option.some.inj hx
        obtain ⟨rfl,-⟩ := List.cons.inj hm
        exact ⟨rfl,congrArg Prod.fst (Option.some.inj hs)⟩
    · cases hx
  have hsilent : Net.addressed (prog qp) .packetRetransmit sent=[] := by
    apply List.filter_eq_nil_iff.mpr
    intro z hz
    obtain ⟨m,hm,rfl⟩ := List.mem_map.mp (ht.sent_prefix.subset hz)
    have hm' : m∈(x.1.handleMeta x.2).msgs := by
      rw [← hread.2]
      rw [hread.1] at hm
      exact hm
    have hne := handleMeta_receives x.1 x.2 hr hlocal m hm'
    simpa using (show (prog qp).dest (m,_)≠some .packetRetransmit from hne)
  refine ⟨ht.state_other _ (by decide),?_⟩
  rw [Net.step,ht.inbox_other _ (by decide),hsilent,List.append_nil]

end RetransmitQueue

open RetransmitQueue in
/-- In a run in which the local hardware's acknowledgements do not advance the receive tracker
and accepted requests fit into the PSN space, the retransmission queue drops a request, and moves
its base, only up to the left edge the send-side tracker last reported, and reports about the
receive direction leave the queue alone. -/
theorem retransmit_queue_keeps_unacked (qp : QpAttr) (config : AckTimeoutConfig) (ls : List Label)
    (hls : Run.Along (Net.step (prog qp)) (fun n l => Allowed l ∧ Separate qp n l)
      (RetransmitQueue.init config) ls) :
    (∀ t g,(RetransmitQueue.run qp config ls).state .metaReport=some (t,g) →
      t.sendTable.psnTracker.basePsn=
        Psn.wrap (edge (acts (RetransmitQueue.run qp config ls).log))) ∧
    (∀ q g,(RetransmitQueue.run qp config ls).state .packetRetransmit=some (q,g) →
      q.inner.map SendQueueElem.psn=g.spans.map (fun x => Psn.wrap x.first) ∧
      q.basePsn=Psn.wrap g.base ∧ g.base≤edge (acts (RetransmitQueue.run qp config ls).log) ∧
      ∀ x∈g.removed,x.stop≤edge (acts (RetransmitQueue.run qp config ls).log)) ∧
    ∀ c x,reporting (RetransmitQueue.run qp config ls)=some x → receives x.2=true →
      x.1.localAdvance x.2=none →
      (RetransmitQueue.run qp config (ls++[.work .metaReport c])).state .packetRetransmit=
        (RetransmitQueue.run qp config ls).state .packetRetransmit ∧
      (RetransmitQueue.run qp config (ls++[.work .metaReport c])).inbox .packetRetransmit=
        (RetransmitQueue.run qp config ls).inbox .packetRetransmit := by
  have h : Inv qp (RetransmitQueue.run qp config ls) := Run.run_inv (Net.step (prog qp))
    (fun n l => Allowed l ∧ Separate qp n l) (Inv qp) (step_inv qp) (RetransmitQueue.init config) ls
    hls (RetransmitQueue.init_inv qp config)
  refine ⟨?_,?_,?_⟩
  · intro t g hs
    obtain ⟨hbase,hedge⟩ := h.tracker t g hs
    rw [hedge]
    exact hbase
  · intro q g hs
    obtain ⟨done,hdone,hheld⟩ := h.kept q g hs
    have hle : g.base≤edge (acts (RetransmitQueue.run qp config ls).log) := by
      have hmono := edge_mono done _ (hdone ▸ h.follows)
      rw [hdone,hheld.reached]
      exact hmono
    exact ⟨hheld.psns,hheld.base,hle,fun x hx => (hheld.removed x hx).trans hle⟩
  · intro c x hx hr hlocal
    rw [RetransmitQueue.run,Run.run_concat]
    exact step_receives qp _ c x hx hr hlocal

namespace RetransmitQueue

/-- Two writes of one packet each are posted and taken up, on PSNs 0 and 1. -/
def twoWrites : List Label :=
  [.post (.rdma (.write (shortWrite 0 256)),{}),.post (.rdma (.write (shortWrite 256 256)),{}),
    .work .rdmaWrite 0,.work .rdmaWrite 0,.work .packetRetransmit 0,.work .packetRetransmit 0]

/-- The peer acknowledges both writes, and the next PSN of the receive direction arrives. -/
def ackBoth : List Label :=
  twoWrites++[.post (.report (.ackRemoteDriver ⟨Psn.wrap 2⟩),{}),.work .metaReport 0,
    .work .packetRetransmit 0,
    .post (.report (.headerWrite ⟨.only,0,Psn.wrap 0,true,false,0,.write⟩),{})]

/-- The hardware reports the first 128 PSNs of the receive direction. -/
def localAck : List Label :=
  twoWrites++[.post (.report (.ackLocalHw ⟨Psn.wrap 0,BitVec.allOnes 128⟩),{}),.work .metaReport 0,
    .work .packetRetransmit 0]

end RetransmitQueue

open RetransmitQueue in
theorem retransmit_queue_keeps_unacked_both :
    (∀ q g,(RetransmitQueue.run shortPathQp .default ackBoth).state .packetRetransmit=some (q,g) →
      ∀ x∈g.removed,x.stop≤edge (acts (RetransmitQueue.run shortPathQp .default ackBoth).log)) ∧
    (∃ q g,(RetransmitQueue.run shortPathQp .default ackBoth).state .packetRetransmit=some (q,g) ∧
      g.removed=[⟨0,1⟩] ∧ edge (acts (RetransmitQueue.run shortPathQp .default ackBoth).log)=2) ∧
    (RetransmitQueue.run shortPathQp .default (ackBoth++[.work .metaReport 0])).state .packetRetransmit=
      (RetransmitQueue.run shortPathQp .default ackBoth).state .packetRetransmit := by
  have h := retransmit_queue_keeps_unacked shortPathQp .default ackBoth (by decide +kernel)
  refine ⟨fun q g hs => (h.2.1 q g hs).2.2.2,⟨_,_,rfl,by decide +kernel,by decide +kernel⟩,?_⟩
  exact (h.2.2 0 _ rfl rfl (by decide +kernel)).1

open RetransmitQueue in
/-- Nothing has been acknowledged in the send direction, and yet the first write is gone and the
queue has its base past the second one. -/
theorem local_ack_drops_unacked :
    Run.Along (Net.step (prog shortPathQp)) (fun _ l => Allowed l) (RetransmitQueue.init .default)
      localAck ∧
    ((RetransmitQueue.run shortPathQp .default localAck).state .metaReport).map
      (fun s => s.1.sendTable.psnTracker.basePsn)=some ⟨0⟩ ∧
    ((RetransmitQueue.run shortPathQp .default localAck).state .packetRetransmit).map
      (fun s => (s.1.inner.map SendQueueElem.psn,s.1.basePsn,s.2.removed))=
        some ([⟨1⟩],⟨128⟩,[⟨0,1⟩]) := by
  decide +kernel

end BlueRdma

import BlueRdma.Framework.Threads
import BlueRdma.Protocol.PsnAccounting
import BlueRdma.Workers.Driver

namespace BlueRdma
open MessageTracker CompletionWorker

/-- The PSNs assigned to the work request. -/
def AcceptedWr.psns (a : AcceptedWr) : List Psn :=
  (List.range' a.psn.toNat a.numPsn.toNat).map Psn.wrap

/-- The event of a signalled work request. -/
def AcceptedWr.event (a : AcceptedWr) : Option SendEvent :=
  if a.wr.signaled then (RdmaWriteWorker.sendEventOp a.wr.opcode).map
    (fun op => ⟨op,⟨a.params.msn,a.psn+a.numPsn⟩,a.wr.wrId⟩)
  else none

namespace Delivery
open PsnLedger (handedOut)

/-- The two ends of a connection. -/
inductive Party
  | left
  | right
  deriving DecidableEq

def Party.peer : Party → Party
  | .left => .right
  | .right => .left

/-- The threads of one end as they treat the QP. For the record, the PSNs for which the report
worker has called `handle_header_write`, and the work requests that were assigned PSNs. -/
structure Endpoint where
  threads : Threads Worker Worker.State Msg
  executed : List Psn := []
  accepted : List AcceptedWr := []

abbrev State := Party → Endpoint
abbrev Label := Party × ThreadLabel Worker Nat Msg

/-- The call of `handle_header_write` that a turn begins with. -/
def executes : Option ((w : Worker) × w.State × Msg) → List Psn
  | some ⟨.metaReport,_,.report (.headerWrite x)⟩ => [x.psn]
  | _ => []

/-- The call of `next_wr` that a turn begins with, if it succeeds. -/
def assigns (qp : QpAttr) : Option ((w : Worker) × w.State × Msg) → List AcceptedWr
  | some ⟨.rdmaWrite,ctx,.rdma (.write wr)⟩ =>
    ((RdmaWriteWorker.psnCount qp wr).bind (fun n => (ctx.nextWr n).2.map (fun x =>
      ⟨wr,QpParams.ofAttr x.1 qp,x.2,n⟩))).toList
  | _ => []

def Endpoint.step (qp : QpAttr) (e : Endpoint) (l : ThreadLabel Worker Nat Msg) : Endpoint where
  threads := e.threads.step (driver qp) l
  executed := e.executed++executes (e.threads.taking l)
  accepted := e.accepted++assigns qp (e.threads.taking l)

def step (qps : Party → QpAttr) (s : State) (l : Label) : State :=
  Function.update s l.1 ((s l.1).step (qps l.1) l.2)

def init (configs : Party → AckTimeoutConfig) : State :=
  fun p => ⟨{state := fun w => some (Driver.fresh (configs p) w)},[],[]⟩

def frames (ms : List Msg) : List AckFrame := ms.filterMap (fun | .frame f => some f | _ => none)

/-- What reaches an end from outside: packets with PSNs the peer has assigned, frames the peer has
sent, each any number of times and in any order, calls of the application and the clock. -/
def Arrives (peer : Endpoint) : Msg → Prop
  | .report (.headerWrite x) => ∃ a∈peer.accepted,x.psn∈a.psns
  | .report m => m∈(frames peer.threads.log).map AckFrame.report
  | m => Driver.External m=true

instance (peer : Endpoint) (m : Msg) : Decidable (Arrives peer m) :=
  match m with
  | .report (.headerWrite x) => inferInstanceAs (Decidable (∃ a∈peer.accepted,x.psn∈a.psns))
  | .report (.headerRead _) | .report (.ackLocalHw _) | .report (.ackRemoteDriver _)
  | .report (.nakLocalHw _) | .report (.nakRemoteHw _) | .report (.nakRemoteDriver _)
  | .report .cnp => inferInstanceAs (Decidable (_∈(frames peer.threads.log).map AckFrame.report))
  | .tick | .rdma _ | .completion _ | .retransmit _ | .ack _ | .timeout _ | .chunk _ | .frame _
  | .sendCq _ _ | .recvCq _ _ => inferInstanceAs (Decidable (Driver.External _=true))

/-- Fewer than `2^23` PSNs are assigned in each direction. -/
def Allowed (qps : Party → QpAttr) (s : State) : Label → Prop
  | (p,.post m) => Arrives (s p.peer) m
  | (p,l) => handedOut ((s p).step (qps p) l).accepted<2^23

instance (qps : Party → QpAttr) (s : State) (l : Label) : Decidable (Allowed qps s l) :=
  match l with
  | (p,.post m) => inferInstanceAs (Decidable (Arrives (s p.peer) m))
  | (_,.take _ _) | (_,.send _) | (_,.crash _) => inferInstanceAs (Decidable (handedOut _<2^23))

/-- A send completion is that of an assigned work request, and its PSNs and those of the earlier
ones have been executed by the peer. -/
def Delivered (s : State) : Prop :=
  ∀ p,∀ x∈sendPushes (s p).threads.log,
    (∃ a∈(s p).accepted,a.event=some x.1) ∧
    ∀ k a,(s p).accepted[k]?=some a → a.event=some x.1 →
      ∀ b∈(s p).accepted.take (k+1),∀ psn∈b.psns,psn∈(s p.peer).executed

section Invariant
variable (mine theirs : List Psn) (acc : List AcceptedWr)

def Requested (e : SendEvent) : Prop := ∃ a∈acc,a.event=some e

/-- What a message says about the PSNs executed at this end and at the other one. -/
def Told : Msg → Prop
  | .report (.headerWrite x) => x.psn.toNat+1<2^23
  | .report (.ackRemoteDriver x) => Psn.Reached theirs x.psnNow
  | .report (.nakRemoteDriver x) => Psn.Reached theirs x.psnPre
  | .report _ => False
  | .completion (.register (.send e)) => Requested acc e
  | .completion (.register (.recv e)) => e.msgMeta.endPsn.toNat<2^23
  | .completion (.ackSend p) => Psn.Reached theirs p
  | .completion (.ackRecv p) => Psn.Reached mine p
  | .ack (.ack _ p) => Psn.Reached mine p
  | .ack (.nak p _) => Psn.Reached mine p
  | .frame f => Psn.Reached mine (if f.isPacketLoss then f.prePsn else f.nowPsn)
  | .sendCq e _ => Requested acc e ∧ Psn.Reached theirs e.msgMeta.endPsn
  | _ => True

structure TrackerOk (t : QueuePairMessageTracker) : Prop where
  recv : ∀ e∈t.recv.inner,e.msgMeta.endPsn.toNat<2^23
  arrived : ∀ e∈t.merge.recv,Psn.Reached mine e.msgMeta.endPsn
  send : ∀ e∈t.send.inner,Requested acc e
  acked : ∀ e∈t.merge.send,Requested acc e ∧ Psn.Reached theirs e.msgMeta.endPsn

def Ok : (w : Worker) → w.State → Prop
  | .rdmaWrite,ctx => ctx.psn=Psn.wrap (handedOut acc)
  | .completion,t => TrackerOk mine theirs acc t
  | .metaReport,h => PsnTracker.Records mine h.recvTable.psnTracker
  | _,_ => True

/-- The work requests have consecutive blocks of PSNs, without a wrap. -/
structure Laid : Prop where
  blocks : Run.Each (fun before a => a.psn=Psn.wrap (handedOut before)) acc
  low : handedOut acc<2^23

end Invariant

theorem Requested.mono (acc acc' : List AcceptedWr) (e : SendEvent) (h : Requested acc e)
    (hsub : acc⊆acc') : Requested acc' e := by
  obtain ⟨a,ha,he⟩ := h
  exact ⟨a,hsub ha,he⟩

section Mono
variable (mine mine' theirs theirs' : List Psn) (acc acc' : List AcceptedWr) (hm : mine⊆mine')
  (ht : theirs⊆theirs') (ha : acc⊆acc')
include hm ht ha

theorem Told.mono (m : Msg) (h : Told mine theirs acc m) : Told mine' theirs' acc' m := by
  unfold Told at h ⊢
  split at h
  · exact h
  · exact h.mono _ _ _ ht
  · exact h.mono _ _ _ ht
  · cases h
  · exact h.mono _ _ _ ha
  · exact h
  · exact h.mono _ _ _ ht
  · exact h.mono _ _ _ hm
  · exact h.mono _ _ _ hm
  · exact h.mono _ _ _ hm
  · exact h.mono _ _ _ hm
  · exact ⟨h.1.mono _ _ _ ha,h.2.mono _ _ _ ht⟩
  · trivial

theorem TrackerOk.mono (t : QueuePairMessageTracker) (h : TrackerOk mine theirs acc t) :
    TrackerOk mine' theirs' acc' t where
  recv := h.recv
  arrived := fun e he => (h.arrived e he).mono _ _ _ hm
  send := fun e he => (h.send e he).mono _ _ _ ha
  acked := fun e he => ⟨(h.acked e he).1.mono _ _ _ ha,(h.acked e he).2.mono _ _ _ ht⟩

/-- Only the write worker depends on how many PSNs have been assigned. -/
theorem Ok.mono (w : Worker) (s : w.State) (hw : w=.rdmaWrite → acc'=acc)
    (h : Ok mine theirs acc w s) : Ok mine' theirs' acc' w s := by
  cases w with
  | rdmaWrite =>
      rw [hw rfl]
      exact h
  | completion => exact TrackerOk.mono mine mine' theirs theirs' acc acc' hm ht ha s h
  | metaReport => exact PsnTracker.Records.mono _ _ _ h hm
  | packetRetransmit => trivial
  | ackResponder => trivial
  | ackTimeout => trivial

end Mono

section Blocks
variable (acc : List AcceptedWr)

theorem handedOut_append (bs : List AcceptedWr) : handedOut (acc++bs)=handedOut acc+handedOut bs := by
  rw [handedOut,List.map_append,List.sum_append]
  rfl

theorem handedOut_take_le (j k : Nat) (h : j≤k) : handedOut (acc.take j)≤handedOut (acc.take k) := by
  obtain ⟨bs,hbs⟩ := List.take_prefix_take_left h (l := acc)
  rw [← hbs,handedOut_append]
  exact Nat.le_add_right _ _

theorem handedOut_take_le_all (k : Nat) : handedOut (acc.take k)≤handedOut acc := by
  have h := handedOut_append (acc.take k) (acc.drop k)
  rw [List.take_append_drop] at h
  omega

theorem handedOut_take_succ (k : Nat) (a : AcceptedWr) (ha : acc[k]?=some a) :
    handedOut (acc.take (k+1))=handedOut (acc.take k)+a.numPsn.toNat := by
  rw [List.take_add_one,ha]
  exact PsnLedger.handedOut_concat _ a

/-- The event of a work request ends where the next block begins. -/
theorem Laid.event_end (h : Laid acc) (k : Nat) (a : AcceptedWr) (e : SendEvent)
    (ha : acc[k]?=some a) (he : a.event=some e) :
    e.msgMeta.endPsn.toNat=handedOut (acc.take (k+1)) := by
  have hlow := h.low
  have hle := handedOut_take_le_all acc (k+1)
  have hend : e.msgMeta.endPsn=a.psn+a.numPsn := by
    unfold AcceptedWr.event at he
    split_ifs at he
    obtain ⟨op,-,rfl⟩ := Option.map_eq_some_iff.mp he
    rfl
  rw [hend,h.blocks k a ha,Psn.wrap_add,← handedOut_take_succ acc k a ha,Psn.wrap_toNat]
  exact Nat.mod_eq_of_lt (by omega)

theorem Laid.event_low (h : Laid acc) (e : SendEvent) (he : Requested acc e) :
    e.msgMeta.endPsn.toNat<2^23 := by
  obtain ⟨a,ha,he⟩ := he
  obtain ⟨k,hk⟩ := List.mem_iff_getElem?.mp ha
  rw [h.event_end acc k a e hk he]
  exact (handedOut_take_le_all acc (k+1)).trans_lt h.low

/-- The PSNs of a work request lie below the end of its own block. -/
theorem Laid.psns_below (h : Laid acc) (j : Nat) (b : AcceptedWr) (hb : acc[j]?=some b) (psn : Psn)
    (hpsn : psn∈b.psns) : ∃ q<handedOut (acc.take (j+1)),psn=Psn.wrap q := by
  obtain ⟨q,hq,rfl⟩ := List.mem_map.mp hpsn
  have hlow := h.low
  have hle := handedOut_take_le_all acc (j+1)
  have hsucc := handedOut_take_succ acc j b hb
  have hfirst : b.psn.toNat=handedOut (acc.take j) := by
    rw [h.blocks j b hb,Psn.wrap_toNat]
    exact Nat.mod_eq_of_lt (by omega)
  refine ⟨q,?_,rfl⟩
  have := List.mem_range'_1.mp hq
  omega

theorem Laid.concat (h : Laid acc) (a : AcceptedWr) (hpsn : a.psn=Psn.wrap (handedOut acc))
    (hlow : handedOut (acc++[a])<2^23) : Laid (acc++[a]) := by
  refine ⟨Run.each_append _ acc [a] h.blocks (Run.each_singleton _ a ?_),hlow⟩
  rw [List.append_nil]
  exact hpsn

end Blocks

section Workers
variable (qp : QpAttr) (mine theirs : List Psn) (acc : List AcceptedWr)

/-- Everything the turn sends and its next state fit what has been executed and assigned once it
has begun. -/
structure Fits (w : Worker) (s : w.State) (m : Msg) (o : Outcome Msg w.State) : Prop where
  msgs : ∀ m'∈o.msgs,Told (mine++executes (some ⟨w,s,m⟩)) theirs
    (acc++assigns qp (some ⟨w,s,m⟩)) m'
  next : ∀ s',o.next=some s' → Ok (mine++executes (some ⟨w,s,m⟩)) theirs
    (acc++assigns qp (some ⟨w,s,m⟩)) w s'

/-- A turn that kills the worker. -/
theorem fits_dead (w : Worker) (s : w.State) (m : Msg) (o : Outcome Msg w.State)
    (ho : o=⟨[],none⟩) : Fits qp mine theirs acc w s m o := by
  subst ho
  exact ⟨fun m' hm' => (by cases hm'),fun s' hs' => (by cases hs')⟩

theorem fits_request (ctx : SendQueueContext) (wr : SendWrRdma)
    (hok : Ok mine theirs acc .rdmaWrite ctx) :
    Fits qp mine theirs acc .rdmaWrite ctx (.rdma (.write wr))
      (RdmaWriteWorker.process qp ctx (.write wr)) := by
  have hpsn : ctx.psn=Psn.wrap (handedOut acc) := hok
  rcases RdmaWriteWorker.process_write qp ctx wr with ⟨heq,hrefused⟩|heq|⟨n,msn,psn,h⟩
  · have hnone : assigns qp (some ⟨.rdmaWrite,ctx,.rdma (.write wr)⟩)=[] := by
      rw [RdmaWriteWorker.accepts] at hrefused
      rw [assigns]
      rcases hn : RdmaWriteWorker.psnCount qp wr with _|n
      · rfl
      · rw [hn,Option.any_some] at hrefused
        rw [Option.bind_some]
        rcases hx : (ctx.nextWr n).2 with _|x
        · rfl
        · rw [hx] at hrefused
          cases hrefused
    rw [heq]
    refine ⟨fun m hm => (by cases hm),?_⟩
    intro s' hs
    obtain rfl := Option.some.inj hs
    rw [hnone,List.append_nil]
    exact hpsn
  · exact fits_dead qp mine theirs acc _ _ _ _ heq
  · have hassigned : assigns qp (some ⟨.rdmaWrite,ctx,.rdma (.write wr)⟩)=
        [⟨wr,QpParams.ofAttr msn qp,psn,n⟩] := by
      rw [assigns,h.count,Option.bind_some,h.assigned]
      rfl
    obtain ⟨op,timer,stored,chunks,hmsgs,hop,-⟩ := h.msgs
    refine ⟨?_,?_⟩
    · intro m hm
      rw [hmsgs,RdmaWriteWorker.requestMsgs] at hm
      rw [hassigned]
      simp only [List.mem_append,Option.mem_toList,Option.map_eq_some_iff,List.mem_map] at hm
      rcases hm with ((⟨x,hx,rfl⟩|hm)|hm)|⟨c,-,rfl⟩
      · obtain ⟨hsig,hev⟩ := hop x hx
        refine ⟨_,List.mem_append_right _ (List.mem_singleton_self _),?_⟩
        rw [AcceptedWr.event,if_pos hsig,hev]
        rfl
      · split_ifs at hm
        · rw [List.mem_singleton.mp hm]
          trivial
        · cases hm
      · split_ifs at hm
        · rw [List.mem_singleton.mp hm]
          trivial
        · cases hm
      · trivial
    · intro s' hs
      obtain ⟨-,-,hctx,-⟩ := ctx.nextWr_some n msn psn h.assigned
      obtain rfl := (h.next_eq qp ctx s' wr n msn psn _ hs).trans hctx
      rw [hassigned]
      change ctx.psn+n=Psn.wrap (handedOut (acc++[_]))
      rw [PsnLedger.handedOut_concat,hpsn,Psn.wrap_add]

/-- A turn that neither hears a packet nor assigns PSNs. -/
theorem fits_plain (w : Worker) (s : w.State) (m : Msg) (o : Outcome Msg w.State)
    (hexec : executes (some ⟨w,s,m⟩)=[]) (hassign : assigns qp (some ⟨w,s,m⟩)=[])
    (hmsgs : ∀ m'∈o.msgs,Told mine theirs acc m')
    (hnext : ∀ s',o.next=some s' → Ok mine theirs acc w s') : Fits qp mine theirs acc w s m o := by
  constructor <;> rw [hexec,hassign,List.append_nil,List.append_nil]
  · exact hmsgs
  · exact hnext

theorem told_sends (es : List SendEvent)
    (h : ∀ e∈es,Requested acc e ∧ Psn.Reached theirs e.msgMeta.endPsn) :
    ∀ m∈es.flatMap QueuePairMessageTracker.sendMsgs,Told mine theirs acc m := by
  intro m hm
  obtain ⟨e,he,hm⟩ := List.mem_flatMap.mp hm
  simp only [QueuePairMessageTracker.sendMsgs,List.mem_cons,List.not_mem_nil,or_false] at hm
  rcases hm with rfl|rfl|rfl
  · exact h e he
  · trivial
  · trivial

theorem told_recvs (es : List RecvEvent) (posts : List PostRecvEvent)
    (h : ∀ e∈es,Psn.Reached mine e.msgMeta.endPsn) :
    ∀ m∈(QueuePairMessageTracker.completeAll es posts).1.flatMap
      (fun p => QueuePairMessageTracker.recvMsgs p.1 p.2),Told mine theirs acc m := by
  intro m hm
  obtain ⟨x,hx,hm⟩ := List.mem_flatMap.mp hm
  have he : x.1∈es := (QueuePairMessageTracker.map_fst_completeAll es posts).subset
    (List.mem_map_of_mem hx)
  simp only [QueuePairMessageTracker.recvMsgs,List.mem_append,List.mem_singleton] at hm
  rcases hm with hm|rfl
  · split_ifs at hm
    · rw [List.mem_singleton.mp hm]
      exact h x.1 he
    · cases hm
  · trivial

section Acknowledged
variable (t : QueuePairMessageTracker) (p : Psn) (hok : TrackerOk mine theirs acc t)
include hok

theorem fits_ackSend (hlaid : Laid acc) (hm : Told mine theirs acc (.completion (.ackSend p))) :
    Fits qp mine theirs acc .completion t (.completion (.ackSend p))
      (CompletionWorker.process qp t (.ackSend p)) := by
  rcases CompletionWorker.process_ackSend_cases qp t p with hproc|⟨es,rest,hsplit,-,hproc⟩
  · exact fits_dead qp mine theirs acc _ _ _ _ hproc
  have hacked : ∀ e∈es++rest,Requested acc e ∧ Psn.Reached theirs e.msgMeta.endPsn := by
    intro e he
    rw [← hsplit] at he
    rcases List.mem_append.mp he with he|he
    · exact hok.acked e he
    · have hreq := hok.send e ((List.takeWhile_sublist _).subset he)
      have hdue : due p e=true := List.mem_takeWhile_imp he
      exact ⟨hreq,hm.of_le _ _ _ (hlaid.event_low acc e hreq) (of_decide_eq_true hdue)⟩
  refine fits_plain qp mine theirs acc _ _ _ _ rfl rfl ?_ ?_ <;> rw [hproc]
  · exact told_sends mine theirs acc es (fun e he => hacked e (List.mem_append_left _ he))
  · intro t' ht
    obtain rfl := Option.some.inj ht
    refine ⟨hok.recv,hok.arrived,?_,fun e he => hacked e (List.mem_append_right _ he)⟩
    intro e he
    exact hok.send e ((List.dropWhile_sublist _).subset he)

theorem fits_ackRecv (hm : Told mine theirs acc (.completion (.ackRecv p))) :
    Fits qp mine theirs acc .completion t (.completion (.ackRecv p))
      (CompletionWorker.process qp t (.ackRecv p)) := by
  rcases CompletionWorker.process_ackRecv_cases qp t p with hproc|⟨es,rest,hsplit,-,hproc⟩
  · exact fits_dead qp mine theirs acc _ _ _ _ hproc
  have hacked := hok.acked
  rw [hsplit] at hacked
  refine fits_plain qp mine theirs acc _ _ _ _ rfl rfl ?_ ?_ <;> rw [hproc]
  · intro m hmem
    rcases List.mem_append.mp hmem with hmem|hmem
    · exact told_sends mine theirs acc es (fun e he => hacked e (List.mem_append_left _ he)) m hmem
    · refine told_recvs mine theirs acc (arrivals t p) _ ?_ m hmem
      intro e he
      rcases List.mem_append.mp he with he|he
      · exact hok.arrived e he
      · have he := List.mem_of_mem_filter he
        have hdue : due p e=true := List.mem_takeWhile_imp he
        exact hm.of_le _ _ _ (hok.recv e ((List.takeWhile_sublist _).subset he))
          (of_decide_eq_true hdue)
  · intro t' ht
    obtain ⟨posts,-,rfl⟩ := Option.map_eq_some_iff.mp ht
    refine ⟨?_,fun e he => (by cases he),hok.send,fun e he => hacked e (List.mem_append_right _ he)⟩
    intro e he
    exact hok.recv e ((List.dropWhile_sublist _).subset he)

end Acknowledged

theorem fits_completion (t : QueuePairMessageTracker) (task : CompletionTask) (hlaid : Laid acc)
    (hok : TrackerOk mine theirs acc t) (hm : Told mine theirs acc (.completion task)) :
    Fits qp mine theirs acc .completion t (.completion task) (CompletionWorker.process qp t task) := by
  cases task with
  | register event =>
      refine fits_plain qp mine theirs acc _ _ _ _ rfl rfl (fun m hm => by cases hm) ?_
      intro t' ht
      obtain rfl := Option.some.inj ht
      cases event with
      | send e =>
          refine ⟨hok.recv,hok.arrived,?_,hok.acked⟩
          intro x hx
          rcases t.send.mem_append e x hx with rfl|hx
          · exact hm
          · exact hok.send x hx
      | recv e =>
          refine ⟨?_,hok.arrived,hok.send,hok.acked⟩
          intro x hx
          rcases t.recv.mem_append e x hx with rfl|hx
          · exact hm
          · exact hok.recv x hx
      | postRecv e => exact ⟨hok.recv,hok.arrived,hok.send,hok.acked⟩
  | ackSend p => exact fits_ackSend qp mine theirs acc t p hok hlaid hm
  | ackRecv p => exact fits_ackRecv qp mine theirs acc t p hok hm

theorem told_onAdvance (f : Psn → List Msg) (x : Option Psn)
    (h : ∀ p,x=some p → ∀ m∈f p,Told mine theirs acc m) :
    ∀ m∈MetaHandler.onAdvance f x,Told mine theirs acc m := by
  intro m hm
  cases x with
  | none => cases hm
  | some p => exact h p rfl m hm

/-- An acknowledged PSN is passed on as it was told. -/
theorem told_ackBefore (t : RemoteAckTracker) (psn : Psn) (h : Psn.Reached theirs psn) :
    ∀ m∈MetaHandler.onAdvance MetaHandler.senderUpdates (t.ackBefore psn).2,
      Told mine theirs acc m := by
  refine told_onAdvance mine theirs acc _ _ ?_
  intro p hp m hm
  have hpsn : p=psn := by
    unfold RemoteAckTracker.ackBefore PsnTracker.ackBefore at hp
    dsimp only at hp
    split at hp
    · exact (Option.some.inj hp).symm
    · cases hp
  subst hpsn
  simp only [MetaHandler.senderUpdates,List.mem_cons,List.not_mem_nil,or_false] at hm
  rcases hm with rfl|rfl|rfl
  · exact h
  · trivial
  · trivial

theorem fits_headerWrite (h : MetaHandler) (x : HeaderWriteMeta)
    (hok : PsnTracker.Records mine h.recvTable.psnTracker) (hx : x.psn.toNat+1<2^23) :
    Fits qp mine theirs acc .metaReport h (.report (.headerWrite x)) (h.handleMeta (.headerWrite x)) := by
  have hrec : PsnTracker.Records (mine++[x.psn]) (h.recvTable.psnTracker.ackOne x.psn).1 :=
    PsnTracker.ackOne_records _ _ _ (hok.mono _ _ _ (List.subset_append_left _ _)) hx
      (List.mem_append_right _ (List.mem_singleton_self _))
  have hreports := PsnTracker.ackOne_reports h.recvTable.psnTracker x.psn
  refine ⟨?_,?_⟩
  · intro m hm
    rcases List.mem_cons.mp hm with rfl|hm
    · trivial
    change m∈(h.handleHeaderWrite x).2 at hm
    change Told (mine++[x.psn]) theirs (acc++[]) m
    rw [List.append_nil]
    unfold MetaHandler.handleHeaderWrite at hm
    rcases List.mem_append.mp hm with hm|hm
    · rcases List.mem_append.mp hm with hm|hm
      · split_ifs at hm
        · rw [List.mem_singleton.mp hm]
          change (x.psn+(1 : UInt32)).toNat<2^23
          rw [Psn.add_toNat]
          change (x.psn.toNat+1)%2^24<2^23
          omega
        · cases hm
      · refine told_onAdvance _ _ _ _ _ ?_ m hm
        intro p hp m hm
        rw [List.mem_singleton.mp hm]
        change Psn.Reached (mine++[x.psn]) p
        have hedge := hreports.edge
        rw [show (h.recvTable.psnTracker.ackOne x.psn).2=some p from hp,Option.getD_some] at hedge
        rw [← hedge]
        exact hrec.edge
    · split_ifs at hm
      · rw [List.mem_singleton.mp hm]
        exact hrec.edge
      · cases hm
  · intro h' hs
    obtain rfl := Option.some.inj hs
    exact hrec

theorem fits_metaReport (h : MetaHandler) (r : ReportMeta)
    (hok : PsnTracker.Records mine h.recvTable.psnTracker) (hm : Told mine theirs acc (.report r)) :
    Fits qp mine theirs acc .metaReport h (.report r) (h.handleMeta r) := by
  cases r with
  | headerWrite x => exact fits_headerWrite qp mine theirs acc h x hok hm
  | ackRemoteDriver x =>
      refine fits_plain qp mine theirs acc _ _ _ _ rfl rfl ?_ ?_
      · intro m hmem
        rcases List.mem_cons.mp hmem with rfl|hmem
        · trivial
        · exact told_ackBefore mine theirs acc h.sendTable x.psnNow hm m hmem
      · intro h' hs
        obtain rfl := Option.some.inj hs
        exact hok
  | nakRemoteDriver x =>
      refine fits_plain qp mine theirs acc _ _ _ _ rfl rfl ?_ ?_
      · intro m hmem
        rcases List.mem_cons.mp hmem with rfl|hmem
        · trivial
        rcases List.mem_append.mp hmem with hmem|hmem
        · exact told_ackBefore mine theirs acc h.sendTable x.psnPre hm m hmem
        · rw [List.mem_singleton.mp hmem]
          trivial
      · intro h' hs
        obtain rfl := Option.some.inj hs
        exact hok
  | headerRead x => cases hm
  | ackLocalHw x => cases hm
  | nakLocalHw x => cases hm
  | nakRemoteHw x => cases hm
  | cnp => cases hm

theorem told_buildAck (b : AckFrameBuilder) (nowPsn prePsn p : Psn) (nowBitmap prevBitmap : BitVec 128)
    (loss slided : Bool) (f : AckFrame)
    (hf : b.buildAck nowPsn nowBitmap prePsn prevBitmap loss slided=some f)
    (hp : p=if loss then prePsn else nowPsn) (h : Psn.Reached mine p) :
    Told mine theirs acc (.frame f) := by
  unfold AckFrameBuilder.buildAck at hf
  split_ifs at hf
  obtain rfl := Option.some.inj hf
  change Psn.Reached mine (if loss then prePsn else nowPsn)
  rw [← hp]
  exact h

theorem fits_ackResponder (u : Unit) (task : AckResponse) (hm : Told mine theirs acc (.ack task)) :
    Fits qp mine theirs acc .ackResponder u (.ack task) (AckResponder.process qp task) := by
  refine fits_plain qp mine theirs acc _ _ _ _ rfl rfl ?_ (fun _ _ => trivial)
  intro m hmem
  unfold AckResponder.process at hmem
  dsimp only at hmem
  split at hmem
  · cases hmem
  · next f hf =>
      rw [List.mem_singleton.mp hmem]
      cases task with
      | ack msn p => exact told_buildAck mine theirs acc _ _ _ p _ _ _ _ f hf rfl hm
      | nak p q => exact told_buildAck mine theirs acc _ _ _ p _ _ _ _ f hf rfl hm

theorem process_fits (w : Worker) (c : Nat) (s : w.State) (m : Msg) (hlaid : Laid acc)
    (hok : Ok mine theirs acc w s) (hm : Told mine theirs acc m) :
    Fits qp mine theirs acc w s m (Driver.process qp w c s m) := by
  have hquiet : ∀ o : Outcome Msg w.State,executes (some ⟨w,s,m⟩)=[] →
      assigns qp (some ⟨w,s,m⟩)=[] → (∀ m'∈o.msgs,Told mine theirs acc m') →
      (∀ s',o.next=some s' → Ok mine theirs acc w s') → Fits qp mine theirs acc w s m o :=
    fits_plain qp mine theirs acc w s m
  have hkeep : executes (some ⟨w,s,m⟩)=[] → assigns qp (some ⟨w,s,m⟩)=[] →
      Fits qp mine theirs acc w s m ⟨[],some s⟩ := by
    intro he ha
    refine hquiet _ he ha (fun m' hm' => by cases hm') ?_
    intro s' hs
    obtain rfl := Option.some.inj hs
    exact hok
  cases w with
  | rdmaWrite =>
      cases m with
      | rdma t =>
          cases t with
          | write wr => exact fits_request qp mine theirs acc s wr hok
          | ack p =>
              refine hquiet _ rfl rfl (fun m' hm' => by cases hm') ?_
              intro s' hs
              obtain rfl := Option.some.inj hs
              exact hok
          | newComplete msn =>
              refine hquiet _ rfl rfl (fun m' hm' => by cases hm') ?_
              intro s' hs
              obtain rfl := Option.some.inj hs
              exact hok
      | _ => exact hkeep rfl rfl
  | completion =>
      cases m with
      | completion t => exact fits_completion qp mine theirs acc s t hlaid hok hm
      | _ => exact hkeep rfl rfl
  | metaReport =>
      cases m with
      | report r => exact fits_metaReport qp mine theirs acc s r hok hm
      | _ => exact hkeep rfl rfl
  | ackResponder =>
      cases m with
      | ack t => exact fits_ackResponder qp mine theirs acc s t hm
      | _ => exact hkeep rfl rfl
  | packetRetransmit =>
      refine hquiet _ rfl rfl ?_ (fun _ _ => trivial)
      intro m' hm'
      have hem := Driver.process_emits qp .packetRetransmit c s m m' hm'
      cases hem
      trivial
  | ackTimeout =>
      refine hquiet _ rfl rfl ?_ (fun _ _ => trivial)
      intro m' hm'
      have hem := Driver.process_emits qp .ackTimeout c s m m' hm'
      cases hem
      trivial

/-- The assigned PSNs are the next ones. -/
theorem laid_assigns (w : Worker) (s : w.State) (m : Msg) (hlaid : Laid acc)
    (hok : Ok mine theirs acc w s) (hlow : handedOut (acc++assigns qp (some ⟨w,s,m⟩))<2^23) :
    Laid (acc++assigns qp (some ⟨w,s,m⟩)) := by
  rcases hs : assigns qp (some ⟨w,s,m⟩) with _|⟨a,as⟩
  · rw [List.append_nil]
    exact hlaid
  rw [hs] at hlow
  unfold assigns at hs
  split at hs
  · next ctx wr heq =>
      cases heq
      generalize hbind : (RdmaWriteWorker.psnCount qp wr).bind _=o at hs
      rcases o with _|b
      · cases hs
      obtain ⟨rfl,rfl⟩ := List.cons.inj hs
      obtain ⟨n,-,hx⟩ := Option.bind_eq_some_iff.mp hbind
      obtain ⟨⟨msn,psn⟩,hnext,rfl⟩ := Option.map_eq_some_iff.mp hx
      obtain ⟨-,hpsn,-⟩ := ctx.nextWr_some n msn psn hnext
      exact hlaid.concat acc _ (hpsn.trans hok) hlow
  · cases hs

end Workers

structure EndInv (e peer : Endpoint) : Prop where
  laid : Laid e.accepted
  holds : Threads.Holds (Told e.executed peer.executed e.accepted)
    (Ok e.executed peer.executed e.accepted) e.threads

def Inv (s : State) : Prop := ∀ p,EndInv (s p) (s p.peer)

theorem EndInv.peer_mono (e peer peer' : Endpoint) (h : EndInv e peer)
    (hsub : peer.executed⊆peer'.executed) : EndInv e peer' := by
  refine ⟨h.laid,h.holds.mono _ ?_ ?_⟩
  · exact Told.mono _ _ _ _ _ _ (List.Subset.refl _) hsub (List.Subset.refl _)
  · intro w s
    exact Ok.mono _ _ _ _ _ _ (List.Subset.refl _) hsub (List.Subset.refl _) w s (fun _ => rfl)

/-- The turn of a worker, with what it adds to the record. -/
theorem EndInv.take (qp : QpAttr) (e peer : Endpoint) (l : ThreadLabel Worker Nat Msg)
    (h : EndInv e peer) (w : Worker) (s : w.State) (m : Msg) (htk : e.threads.taking l=some ⟨w,s,m⟩)
    (hlow : handedOut (e.step qp l).accepted<2^23) : EndInv (e.step qp l) peer := by
  obtain ⟨c,rest,-,hs,ht,hm,hstep⟩ := Threads.taking_some (driver qp) e.threads l w s m htk
  have hgood := h.holds.inbox w m (by rw [hm]; exact List.mem_cons_self)
  have hfits := process_fits qp e.executed peer.executed e.accepted w c s m h.laid
    (h.holds.state w s ht hs) hgood
  have hother : ∀ w',w'≠w → w'=.rdmaWrite → assigns qp (some ⟨w,s,m⟩)=[] := by
    rintro w' hw rfl
    cases w <;> first | exact absurd rfl hw | rfl
  have hlaid : Laid (e.accepted++assigns qp (some ⟨w,s,m⟩)) := by
    rw [Endpoint.step,htk] at hlow
    exact laid_assigns qp e.executed peer.executed e.accepted w s m h.laid
      (h.holds.state w s ht hs) hlow
  rw [Endpoint.step,htk,hstep]
  refine ⟨hlaid,h.holds.takeUp _ w _ m rest hm ?_ ?_ hfits.msgs hfits.next⟩
  · exact Told.mono _ _ _ _ _ _ (List.subset_append_left _ _) (List.Subset.refl _)
      (List.subset_append_left _ _)
  · intro w' hw s'
    refine Ok.mono _ _ _ _ _ _ (List.subset_append_left _ _) (List.Subset.refl _)
      (List.subset_append_left _ _) w' s' ?_
    intro hw'
    rw [hother w' hw hw',List.append_nil]

/-- What arrives says what the peer has executed. -/
theorem told_of_arrives (e peer : Endpoint) (m : Msg) (h : EndInv peer e) (hm : Arrives peer m) :
    Told e.executed peer.executed e.accepted m := by
  unfold Arrives at hm
  split at hm
  · obtain ⟨a,ha,hx⟩ := hm
    obtain ⟨j,hj⟩ := List.mem_iff_getElem?.mp ha
    obtain ⟨q,hq,hpsn⟩ := h.laid.psns_below peer.accepted j a hj _ hx
    have hle := handedOut_take_le_all peer.accepted (j+1)
    have hlow := h.laid.low
    rw [Told,hpsn,Psn.wrap_toNat]
    omega
  · obtain ⟨f,hf,rfl⟩ := List.mem_map.mp hm
    obtain ⟨m,hmem,hframe⟩ := List.mem_filterMap.mp hf
    split at hframe
    · next g =>
        obtain rfl := Option.some.inj hframe
        have hg : Psn.Reached peer.executed (if g.isPacketLoss then g.prePsn else g.nowPsn) :=
          h.holds.log _ hmem
        unfold AckFrame.report
        split_ifs at hg ⊢
        · exact hg
        · exact hg
    · cases hframe
  · unfold Driver.External at hm
    split at hm
    · next _ hnot => exact (hnot _ rfl).elim
    · trivial
    · trivial
    · trivial
    · cases hm

theorem step_inv (qps : Party → QpAttr) (s : State) (l : Label) (hl : Allowed qps s l) (h : Inv s) :
    Inv (step qps s l) := by
  obtain ⟨p,l⟩ := l
  have hne : p.peer≠p := by cases p <;> decide
  have hself : step qps s (p,l) p=(s p).step (qps p) l := Function.update_self ..
  have hpeer : step qps s (p,l) p.peer=s p.peer := Function.update_of_ne hne ..
  have hback := h p.peer
  rw [show p.peer.peer=p by cases p <;> rfl] at hback
  have hmine : EndInv ((s p).step (qps p) l) (s p.peer) := by
    rcases htk : (s p).threads.taking l with _|⟨w,st,m⟩
    · rw [Endpoint.step,htk,show executes none=[] from rfl,
        show assigns (qps p) none=[] from rfl,List.append_nil,List.append_nil]
      refine ⟨(h p).laid,(h p).holds.step _ _ l htk ?_⟩
      rintro m rfl
      exact told_of_arrives (s p) (s p.peer) m hback hl
    · refine (h p).take (qps p) _ _ l w st m htk ?_
      cases l with
      | take j c => exact hl
      | _ => cases htk
  have htheirs : EndInv (s p.peer) ((s p).step (qps p) l) :=
    hback.peer_mono _ _ _ (List.subset_append_left _ _)
  intro q
  by_cases hq : q=p
  · subst hq
    rw [hself,hpeer]
    exact hmine
  · obtain rfl : q=p.peer := by cases p <;> cases q <;> first | exact absurd rfl hq | rfl
    rw [hpeer,show p.peer.peer=p by cases p <;> rfl,hself]
    exact htheirs

theorem init_inv (configs : Party → AckTimeoutConfig) : Inv (init configs) := by
  intro p
  refine ⟨⟨Run.each_nil _,show 0<2^23 by decide⟩,?_,?_,?_,?_⟩
  · intro w s _ hs
    obtain rfl := Option.some.inj hs
    have hzero : Psn.Reached [] ⟨0⟩ := ⟨by decide,fun q hq => absurd hq (Nat.not_lt_zero q)⟩
    cases w with
    | rdmaWrite => rfl
    | completion =>
        have hnil : ∀ {α : Type} (P : α → Prop),∀ e∈([] : List α),P e := by simp
        exact ⟨hnil _,hnil _,hnil _,hnil _⟩
    | metaReport => exact ⟨hzero,fun i hi => by cases hi⟩
    | packetRetransmit => trivial
    | ackResponder => trivial
    | ackTimeout => trivial
  · intro w o ho
    cases ho
  · intro w m hm
    cases hm
  · intro m hm
    cases hm

theorem Inv.delivered (s : State) (h : Inv s) : Delivered s := by
  rintro p ⟨e,c⟩ hx
  obtain ⟨m,hmem,hcq⟩ := List.mem_filterMap.mp hx
  split at hcq
  · next e' c' =>
      obtain ⟨rfl,rfl⟩ := Prod.mk.inj (Option.some.inj hcq)
      obtain ⟨hreq,hreached⟩ : Requested (s p).accepted e' ∧
          Psn.Reached (s p.peer).executed e'.msgMeta.endPsn := (h p).holds.log _ hmem
      refine ⟨hreq,?_⟩
      intro k a ha he b hb psn hpsn
      obtain ⟨j,hj⟩ := List.mem_iff_getElem?.mp hb
      rw [List.getElem?_take] at hj
      split_ifs at hj with hjk
      obtain ⟨q,hq,rfl⟩ := (h p).laid.psns_below _ j b hj psn hpsn
      have hle := handedOut_take_le (s p).accepted (j+1) (k+1) (by omega)
      have hend := (h p).laid.event_end _ k a e' ha he
      exact hreached.below q (by omega)
  · cases hcq

end Delivery

open Delivery in
/-- In every run of two connected QPs in which packets and frames are lost, repeated and reordered
at will, a work request is completed only after the peer has handled every packet up to its
last one. -/
theorem completed_requests_delivered (qps : Party → QpAttr) (configs : Party → AckTimeoutConfig)
    (ls : List Delivery.Label)
    (h : Run.Along (Delivery.step qps) (Delivery.Allowed qps) (Delivery.init configs) ls) :
    Delivered (Run.run (Delivery.step qps) (Delivery.init configs) ls) :=
  (Run.run_inv (Delivery.step qps) (Delivery.Allowed qps) Delivery.Inv (Delivery.step_inv qps)
    (Delivery.init configs) ls h (Delivery.init_inv configs)).delivered

namespace Delivery

/-- A turn of a worker with `k` messages sent in it. -/
def turn (p : Party) (w : Worker) (k : Nat) : List Label :=
  (p,.take w 0)::List.replicate (k+1) (p,.send w)

/-- A signalled write of two packets is posted on the left. -/
def posted : List Label :=
  (.left,.post (.rdma (.write ⟨⟨1,ibvSendSignaled,0x1000,512,0,7,.rdmaWrite⟩,0x2000,0⟩)))::
    (turn .left .rdmaWrite 4++turn .left .completion 0)

/-- Its packets reach the right, the last one first. -/
def received : List Label :=
  (.right,.post (.report (.headerWrite ⟨.last,0,⟨1⟩,true,false,0,.write⟩)))::
    (turn .right .metaReport 2++turn .right .completion 0++
    (.right,.post (.report (.headerWrite ⟨.first,0,⟨0⟩,false,false,0,.write⟩)))::
    (turn .right .metaReport 2++turn .right .completion 2++turn .right .ackResponder 1))

/-- The acknowledgement reaches the left. -/
def answered : List Label :=
  (.left,.post (.report (.ackRemoteDriver ⟨⟨2⟩⟩)))::(turn .left .metaReport 4++
    turn .left .completion 3)

end Delivery

open Delivery in
theorem completed_requests_delivered_write :
    sendPushes (Run.run (Delivery.step (fun _ => shortPathQp)) (Delivery.init (fun _ => .default))
      (posted++(received++answered)) .left).threads.log=
        [(⟨.writeSignaled,⟨0,⟨2⟩⟩,1⟩,.rdmaWrite 1)] ∧
    Delivered (Run.run (Delivery.step (fun _ => shortPathQp)) (Delivery.init (fun _ => .default))
      (posted++(received++answered))) :=
  ⟨by decide +kernel,completed_requests_delivered (fun _ => shortPathQp) (fun _ => .default)
    (posted++(received++answered)) (by decide +kernel)⟩

end BlueRdma

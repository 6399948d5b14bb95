import BlueRdma.Math.Lists
import BlueRdma.Workers.Tasks

namespace BlueRdma

/-- Number of completion queues of a device. -/
def maxCqCnt : Nat := 1024

class EventMeta (E : Type) where
  msgMeta : E → MessageMeta

open EventMeta (msgMeta)

instance : EventMeta SendEvent := ⟨SendEvent.msgMeta⟩
instance : EventMeta RecvEvent := ⟨RecvEvent.msgMeta⟩

/-- Events of one direction of a QP, kept in MSN order. -/
structure MessageTracker (E : Type) where
  inner : List E := []
  basePsn : Psn := ⟨0⟩
  deriving DecidableEq

namespace MessageTracker
variable {E : Type} [EventMeta E]

/-- The new event goes behind the last event with a smaller MSN, unless the event that
would follow it has its MSN. -/
def append (t : MessageTracker E) (event : E) : MessageTracker E :=
  let pos := (t.inner.reverse.findIdx? (fun e =>
    decide (Msn.mk (msgMeta e).msn<Msn.mk (msgMeta event).msn))).getD t.inner.length
  let index := t.inner.length-pos
  if t.inner[index]?.all (fun e => (msgMeta e).msn != (msgMeta event).msn) then
    {t with inner := t.inner.insertIdx index event}
  else t

def ack (t : MessageTracker E) (basePsn : Psn) : MessageTracker E := {t with basePsn := basePsn}

def pop (t : MessageTracker E) : Option E × MessageTracker E :=
  match t.inner with
  | [] => (none,t)
  | front::rest =>
    if (msgMeta front).endPsn≤t.basePsn then (some front,{t with inner := rest}) else (none,t)

/-- `while let Some(event) = tracker.pop()`. -/
def popAll : Nat → MessageTracker E → List E × MessageTracker E
  | 0,t => ([],t)
  | n+1,t => match t.pop with
    | (none,t) => ([],t)
    | (some e,t) => (e::(popAll n t).1,(popAll n t).2)

end MessageTracker

/-- Merges read requests with their responses. -/
structure MergeQueue where
  send : List SendEvent := []
  recv : List RecvEvent := []
  recvReadResp : List RecvEvent := []
  deriving DecidableEq

namespace MergeQueue

def pushSend (m : MergeQueue) (e : SendEvent) : MergeQueue := {m with send := m.send++[e]}

def pushRecv (m : MergeQueue) (e : RecvEvent) : MergeQueue :=
  match e.op with
  | .readResp => {m with recvReadResp := m.recvReadResp++[e]}
  | .write | .writeWithImm _ | .recv | .recvWithImm _ | .recvRead => {m with recv := m.recv++[e]}

/-- A read leaves only together with a response; until then it blocks the queue. -/
def popSend (m : MergeQueue) : Option SendEvent × MergeQueue :=
  match m.send with
  | [] => (none,m)
  | event::rest => match event.op with
    | .writeSignaled | .sendSignaled => (some event,{m with send := rest})
    | .readSignaled => match m.recvReadResp with
      | [] => (none,m)
      | _::resps => (some event,{m with send := rest,recvReadResp := resps})

def popRecv (m : MergeQueue) : Option RecvEvent × MergeQueue :=
  match m.recv with
  | [] => (none,m)
  | event::rest => (some event,{m with recv := rest})

end MergeQueue

def SendEvent.completion (e : SendEvent) : Completion :=
  match e.op with
  | .writeSignaled => .rdmaWrite e.wrId
  | .sendSignaled => .send e.wrId
  | .readSignaled => .rdmaRead e.wrId

structure QueuePairMessageTracker where
  send : MessageTracker SendEvent := {}
  recv : MessageTracker RecvEvent := {}
  postRecvQueue : List PostRecvEvent := []
  merge : MergeQueue := {}
  deriving DecidableEq

namespace QueuePairMessageTracker

def append (t : QueuePairMessageTracker) : Event → QueuePairMessageTracker
  | .send x => {t with send := t.send.append x}
  | .recv x => {t with recv := t.recv.append x}
  | .postRecv x => {t with postRecvQueue := t.postRecvQueue++[x]}

def ackSend (t : QueuePairMessageTracker) (psn : Psn) : QueuePairMessageTracker :=
  let popped := (t.send.ack psn).popAll t.send.inner.length
  {t with send := popped.2,merge := popped.1.foldl MergeQueue.pushSend t.merge}

def ackRecv (t : QueuePairMessageTracker) (psn : Psn) : QueuePairMessageTracker :=
  let popped := (t.recv.ack psn).popAll t.recv.inner.length
  {t with recv := popped.2,merge := popped.1.foldl MergeQueue.pushRecv t.merge}

def pollSendCompletion (t : QueuePairMessageTracker) :
    Option (SendEvent × Completion) × QueuePairMessageTracker :=
  match t.merge.popSend with
  | (none,m) => (none,{t with merge := m})
  | (some event,m) => (some (event,event.completion),{t with merge := m})

/-- What `poll_recv_completion` can do; the source panics when a receive arrives with no
posted buffer. The buffer taken is the one posted last. -/
inductive RecvPoll
  | empty
  | panic
  | ready (event : RecvEvent) (completion : Option Completion) (next : QueuePairMessageTracker)

def takePosted (t : QueuePairMessageTracker) (event : RecvEvent) (imm : Option UInt32) :
    RecvPoll :=
  match t.postRecvQueue.getLast? with
  | none => .panic
  | some x => .ready event (some (.recv x.wrId imm)) {t with postRecvQueue := t.postRecvQueue.dropLast}

def pollRecvCompletion (t : QueuePairMessageTracker) : RecvPoll :=
  match t.merge.popRecv with
  | (none,_) => .empty
  | (some event,m) =>
    let t := {t with merge := m}
    match event.op with
    | .writeWithImm imm => .ready event (some (.recvRdmaWithImm imm)) t
    | .recv => t.takePosted event none
    | .recvWithImm imm => t.takePosted event (some imm)
    | .readResp => .panic
    | .recvRead | .write => .ready event none t

/-- `while let Some(..) = tracker.poll_send_completion()`. -/
def pollSends : Nat → QueuePairMessageTracker → List SendEvent × QueuePairMessageTracker
  | 0,t => ([],t)
  | n+1,t => match t.pollSendCompletion with
    | (none,t) => ([],t)
    | (some (e,_),t) => (e::(pollSends n t).1,(pollSends n t).2)

def sendMsgs (e : SendEvent) : List Msg :=
  [.sendCq e e.completion,.timeout .ack,.rdma (.newComplete e.msgMeta.msn)]

def recvMsgs (e : RecvEvent) (c : Option Completion) : List Msg :=
  (if e.ackReq then [.ack (.ack e.msgMeta.msn e.msgMeta.endPsn)] else [])++[.recvCq e c]

/-- `while let Some(..) = tracker.poll_recv_completion()`. -/
def pollRecvs : Nat → QueuePairMessageTracker → Outcome Msg QueuePairMessageTracker
  | 0,t => ⟨[],some t⟩
  | n+1,t => match t.pollRecvCompletion with
    | .empty => ⟨[],some t⟩
    | .panic => ⟨[],none⟩
    | .ready e c t => ⟨recvMsgs e c++(pollRecvs n t).msgs,(pollRecvs n t).next⟩

end QueuePairMessageTracker

/-- The completion queue behind a handle, if both exist. -/
def getCq (handle : Option UInt32) : Option UInt32 := handle.filter (fun h => h.toNat < maxCqCnt)

/-- `CompletionWorker::process` for the tracker of one QP. -/
def CompletionWorker.process (qp : QpAttr) (t : QueuePairMessageTracker) :
    CompletionTask → Outcome Msg QueuePairMessageTracker
  | .register event => ⟨[],some (t.append event)⟩
  | .ackSend basePsn => match getCq qp.sendCq with
    | none => ⟨[],none⟩
    | some _ =>
      let t := t.ackSend basePsn
      let polled := t.pollSends t.merge.send.length
      ⟨polled.1.flatMap QueuePairMessageTracker.sendMsgs,some polled.2⟩
  | .ackRecv basePsn => match getCq qp.sendCq,getCq qp.recvCq with
    | some _,some _ =>
      let t := t.ackRecv basePsn
      let polled := t.pollSends t.merge.send.length
      let recvs := polled.2.pollRecvs polled.2.merge.recv.length
      ⟨polled.1.flatMap QueuePairMessageTracker.sendMsgs++recvs.msgs,recvs.next⟩
    | _,_ => ⟨[],none⟩

namespace MessageTracker
variable {E : Type} [EventMeta E]

/-- The left edge has reached the end of the event's message. -/
def due (basePsn : Psn) (e : E) : Bool := decide ((msgMeta e).endPsn≤basePsn)

/-- The pop loop takes the due events at the front. -/
theorem popAll_eq (n : Nat) (t : MessageTracker E) (h : t.inner.length≤n) :
    t.popAll n=(t.inner.takeWhile (due t.basePsn),
      {t with inner := t.inner.dropWhile (due t.basePsn)}) := by
  induction n generalizing t with
  | zero =>
      obtain ⟨inner,base⟩ := t
      obtain rfl : inner=[] := List.length_eq_zero_iff.mp (Nat.le_zero.mp h)
      rfl
  | succ n ih =>
      obtain ⟨inner,base⟩ := t
      cases inner with
      | nil => rfl
      | cons e rest =>
          by_cases hd : (msgMeta e).endPsn≤base
          · have hdue : due base e=true := decide_eq_true hd
            rw [popAll,pop]
            dsimp only
            rw [if_pos hd]
            dsimp only
            rw [ih ⟨rest,base⟩ (Nat.le_of_succ_le_succ h),List.takeWhile_cons_of_pos hdue,
              List.dropWhile_cons_of_pos hdue]
          · have hdue : ¬due base e=true := fun h => hd (of_decide_eq_true h)
            rw [popAll,pop]
            dsimp only
            rw [if_neg hd,List.takeWhile_cons_of_neg hdue,List.dropWhile_cons_of_neg hdue]

/-- Where `append` puts an event: behind a block whose last MSN is smaller and in front of
events none of which has a smaller MSN. -/
theorem append_split (t : MessageTracker E) (event : E) :
    ∃ l r,t.inner=l++r ∧
      (∀ e∈r,¬Msn.mk (msgMeta e).msn<Msn.mk (msgMeta event).msn) ∧
      (∀ e,l.getLast?=some e → Msn.mk (msgMeta e).msn<Msn.mk (msgMeta event).msn) ∧
      t.append event=if r.head?.all (fun e => (msgMeta e).msn != (msgMeta event).msn)
        then {t with inner := l++event::r} else t := by
  set q : E → Bool := fun e => !decide (Msn.mk (msgMeta e).msn<Msn.mk (msgMeta event).msn) with hq
  set k := t.inner.reverse.findIdx (fun e => !q e) with hk
  have hle : k≤t.inner.length := by
    simpa using @List.findIdx_le_length E (fun e => !q e) t.inner.reverse
  have hpos : (t.inner.reverse.findIdx? (fun e =>
      decide (Msn.mk (msgMeta e).msn<Msn.mk (msgMeta event).msn))).getD t.inner.length=k := by
    rw [← List.length_reverse,← List.findIdx_eq_getD_findIdx?,hk]
    simp only [hq,Bool.not_not]
  have hr : t.inner.reverse.takeWhile q=(t.inner.drop (t.inner.length-k)).reverse := by
    rw [List.takeWhile_eq_take_findIdx_not,List.take_reverse]
  have hl : t.inner.reverse.dropWhile q=(t.inner.take (t.inner.length-k)).reverse := by
    rw [List.dropWhile_eq_drop_findIdx_not,List.drop_reverse]
  refine ⟨t.inner.take (t.inner.length-k),t.inner.drop (t.inner.length-k),
    (List.take_append_drop ..).symm,?_,?_,?_⟩
  · intro e he
    have hmem : e∈t.inner.reverse.takeWhile q := by rw [hr]; exact List.mem_reverse.mpr he
    simpa [hq] using List.mem_takeWhile_imp hmem
  · intro e he
    have hhead := List.head?_dropWhile_not q t.inner.reverse
    rw [hl,List.head?_reverse,he] at hhead
    simpa [hq] using hhead
  · rw [append,hpos,List.head?_drop]
    split_ifs with hc
    · have hins := Lists.insertIdx_append (t.inner.take (t.inner.length-k))
        (t.inner.drop (t.inner.length-k)) event
      rw [List.take_append_drop,List.length_take,min_eq_left (Nat.sub_le ..)] at hins
      rw [hins]
    · rfl

theorem mem_append (t : MessageTracker E) (event e : E) (h : e∈(t.append event).inner) :
    e=event ∨ e∈t.inner := by
  obtain ⟨l,r,hlr,-,-,happ⟩ := t.append_split event
  rw [happ] at h
  split_ifs at h
  · rw [hlr]
    rcases List.mem_append.mp h with h|h
    · exact Or.inr (List.mem_append_left _ h)
    · rcases List.mem_cons.mp h with h|h
      · exact Or.inl h
      · exact Or.inr (List.mem_append_right _ h)
  · exact Or.inr h

/-- Where an event goes depends on nothing but the MSNs. -/
theorem append_map {E' : Type} [EventMeta E'] (f : E → E')
    (hf : ∀ e,msgMeta (f e)=msgMeta e) (inner : List E) (basePsn basePsn' : Psn) (event : E) :
    ((⟨inner,basePsn⟩ : MessageTracker E).append event).inner.map f=
      ((⟨inner.map f,basePsn'⟩ : MessageTracker E').append (f event)).inner := by
  have hfind : (inner.map f).reverse.findIdx? (fun e =>
      decide (Msn.mk (msgMeta e).msn< Msn.mk (msgMeta event).msn))=
      inner.reverse.findIdx? (fun e => decide (Msn.mk (msgMeta e).msn< Msn.mk (msgMeta event).msn)) := by
    rw [← List.map_reverse,List.findIdx?_map]
    simp only [Function.comp_def,hf]
  simp only [append,hf,hfind,List.length_map,List.getElem?_map,Option.all_map]
  split_ifs
  · exact List.map_insertIdx ..
  · rfl

/-- An event whose MSN is ahead of the last one goes to the end. -/
theorem append_last (t : MessageTracker E) (event : E)
    (h : ∀ e,t.inner.getLast?=some e → Msn.mk (msgMeta e).msn<Msn.mk (msgMeta event).msn) :
    t.append event={t with inner := t.inner++[event]} := by
  obtain ⟨l,r,hlr,hr,-,happ⟩ := t.append_split event
  have hnil : r=[] := by
    rcases List.eq_nil_or_concat r with rfl|⟨r',e,rfl⟩
    · rfl
    · exact absurd (h e (by rw [hlr]; simp)) (hr e (by simp))
  subst hnil
  rw [happ,hlr,List.append_nil]
  rfl

end MessageTracker

theorem MergeQueue.foldl_pushSend (m : MergeQueue) (es : List SendEvent) :
    es.foldl pushSend m={m with send := m.send++es} := by
  induction es generalizing m with
  | nil => simp
  | cons e es ih => rw [List.foldl_cons,ih]; simp [pushSend]

def RecvEvent.isReadResp (e : RecvEvent) : Bool := e.op==.readResp

theorem MergeQueue.foldl_pushRecv (m : MergeQueue) (es : List RecvEvent) :
    es.foldl pushRecv m={m with
      recv := m.recv++es.filter (fun e => !e.isReadResp)
      recvReadResp := m.recvReadResp++es.filter RecvEvent.isReadResp} := by
  induction es generalizing m with
  | nil => simp
  | cons e es ih =>
      rw [List.foldl_cons,ih]
      obtain ⟨op,mm,ar⟩ := e
      cases op <;> simp [pushRecv,RecvEvent.isReadResp]

namespace QueuePairMessageTracker

theorem ackSend_eq (t : QueuePairMessageTracker) (psn : Psn) :
    t.ackSend psn={t with
      send := ⟨t.send.inner.dropWhile (MessageTracker.due psn),psn⟩
      merge := {t.merge with
        send := t.merge.send++t.send.inner.takeWhile (MessageTracker.due psn)}} := by
  have h := MessageTracker.popAll_eq t.send.inner.length (t.send.ack psn) le_rfl
  rw [ackSend,h,MergeQueue.foldl_pushSend]
  rfl

theorem ackRecv_eq (t : QueuePairMessageTracker) (psn : Psn) :
    t.ackRecv psn={t with
      recv := ⟨t.recv.inner.dropWhile (MessageTracker.due psn),psn⟩
      merge := {t.merge with
        recv := t.merge.recv++
          (t.recv.inner.takeWhile (MessageTracker.due psn)).filter (fun e => !e.isReadResp)
        recvReadResp := t.merge.recvReadResp++
          (t.recv.inner.takeWhile (MessageTracker.due psn)).filter RecvEvent.isReadResp}} := by
  have h := MessageTracker.popAll_eq t.recv.inner.length (t.recv.ack psn) le_rfl
  rw [ackRecv,h,MergeQueue.foldl_pushRecv]
  rfl

def reads (es : List SendEvent) : Nat := es.countP (fun e => e.op==.readSignaled)

theorem reads_append (es fs : List SendEvent) : reads (es++fs)=reads es+reads fs :=
  List.countP_append

theorem pollSends_blocked (n : Nat) (t : QueuePairMessageTracker)
    (h : t.merge.popSend=(none,t.merge)) : t.pollSends n=([],t) := by
  cases n with
  | zero => rfl
  | succ n => rw [pollSends,pollSendCompletion,h]

theorem pollSends_ready (n : Nat) (t : QueuePairMessageTracker) (e : SendEvent) (m : MergeQueue)
    (h : t.merge.popSend=(some e,m)) :
    t.pollSends (n+1)=(e::(pollSends n {t with merge := m}).1,(pollSends n {t with merge := m}).2) := by
  rw [pollSends,pollSendCompletion,h]

/-- The send polling loop takes events from the front of the merge queue, one response for
each read among them, and stops at a read that has no response left. -/
theorem pollSends_spec (n : Nat) (t : QueuePairMessageTracker) (h : t.merge.send.length≤n) :
    ∃ es rest,t.merge.send=es++rest ∧ reads es≤t.merge.recvReadResp.length ∧
      t.pollSends n=(es,{t with merge :=
        ⟨rest,t.merge.recv,t.merge.recvReadResp.drop (reads es)⟩}) ∧
      ∀ e∈rest.head?,e.op=.readSignaled ∧ reads es=t.merge.recvReadResp.length := by
  obtain ⟨snd,rcv,posts,send,recv,resps⟩ := t
  induction send generalizing n resps with
  | nil => exact ⟨[],[],rfl,Nat.zero_le _,pollSends_blocked n _ rfl,by simp⟩
  | cons e rest ih =>
      obtain ⟨n,rfl⟩ : ∃ k,n=k+1 := ⟨n-1,by simp only [List.length_cons] at h; omega⟩
      have hn : rest.length≤n := Nat.le_of_succ_le_succ h
      obtain ⟨op,mm,wrId⟩ := e
      have hpass : op≠.readSignaled → MergeQueue.popSend ⟨⟨op,mm,wrId⟩::rest,recv,resps⟩=
          (some ⟨op,mm,wrId⟩,⟨rest,recv,resps⟩) := by
        intro hop
        cases op <;> first | rfl | exact absurd rfl hop
      by_cases hop : op=.readSignaled
      · subst hop
        cases resps with
        | nil => exact ⟨[],_,rfl,Nat.zero_le _,pollSends_blocked _ _ rfl,by simp [reads]⟩
        | cons r resps =>
            obtain ⟨es,tl,hs,hr,hp,hstop⟩ := ih n resps hn
            refine ⟨⟨.readSignaled,mm,wrId⟩::es,tl,congrArg _ hs,?_,?_,?_⟩
            · simpa [reads] using hr
            · rw [pollSends_ready n _ _ _ rfl]
              dsimp only at hp ⊢
              rw [hp]
              simp [reads]
            · simpa [reads] using hstop
      · obtain ⟨es,tl,hs,hr,hp,hstop⟩ := ih n resps hn
        have hcount : reads (⟨op,mm,wrId⟩::es)=reads es := by
          simp [reads,hop]
        refine ⟨⟨op,mm,wrId⟩::es,tl,congrArg _ hs,by rw [hcount]; exact hr,?_,?_⟩
        · rw [pollSends_ready n _ _ _ (hpass hop),hcount]
          dsimp only at hp ⊢
          rw [hp]
        · rw [hcount]; exact hstop

/-- What one receive event takes and yields; `none` when a buffer is missing or the event is
of a kind that is never queued here. -/
def complete (e : RecvEvent) (posts : List PostRecvEvent) :
    Option (Option Completion × List PostRecvEvent) :=
  match e.op with
  | .writeWithImm imm => some (some (.recvRdmaWithImm imm),posts)
  | .recv => posts.getLast?.map (fun x => (some (.recv x.wrId none),posts.dropLast))
  | .recvWithImm imm => posts.getLast?.map (fun x => (some (.recv x.wrId (some imm)),posts.dropLast))
  | .readResp => none
  | .recvRead | .write => some (none,posts)

/-- The completions of a list of receive events, up to the event that panics. -/
def completeAll : List RecvEvent → List PostRecvEvent →
    List (RecvEvent × Option Completion) × Option (List PostRecvEvent)
  | [],posts => ([],some posts)
  | e::es,posts => match complete e posts with
    | none => ([],none)
    | some (c,posts) => ((e,c)::(completeAll es posts).1,(completeAll es posts).2)

theorem completeAll_cons (e : RecvEvent) (es : List RecvEvent) (posts posts' : List PostRecvEvent)
    (c : Option Completion) (h : complete e posts=some (c,posts')) :
    completeAll (e::es) posts=((e,c)::(completeAll es posts').1,(completeAll es posts').2) := by
  rw [completeAll,h]

/-- Events complete in order, up to the one that panics. -/
theorem map_fst_completeAll (es : List RecvEvent) (posts : List PostRecvEvent) :
    (completeAll es posts).1.map Prod.fst<+:es := by
  induction es generalizing posts with
  | nil => exact List.nil_prefix
  | cons e es ih =>
      rcases hc : complete e posts with _|⟨c,posts'⟩
      · rw [completeAll,hc]
        exact List.nil_prefix
      · rw [completeAll_cons e es posts posts' c hc]
        exact (List.cons_prefix_cons).mpr ⟨rfl,ih posts'⟩

/-- A receive event uses up one posted buffer exactly if its completion names it. -/
theorem complete_posts (e : RecvEvent) (posts posts' : List PostRecvEvent)
    (c : Option Completion) (h : complete e posts=some (c,posts')) :
    posts'.length+(if c.any Completion.isRecv then 1 else 0)=posts.length := by
  have htake : ∀ imm,posts.getLast?.map
      (fun x => (some (Completion.recv x.wrId imm),posts.dropLast))=some (c,posts') →
      posts'.length+(if c.any Completion.isRecv then 1 else 0)=posts.length := by
    intro imm hm
    obtain ⟨x,hx,heq⟩ := Option.map_eq_some_iff.mp hm
    obtain ⟨rfl,rfl⟩ := Prod.mk.inj heq
    have hpos : 0<posts.length := List.length_pos_of_mem (List.mem_of_getLast? hx)
    rw [List.length_dropLast]
    exact Nat.sub_add_cancel hpos
  unfold complete at h
  split at h
  · obtain ⟨rfl,rfl⟩ := Prod.mk.inj (Option.some.inj h)
    rfl
  · exact htake none h
  · exact htake _ h
  · cases h
  · obtain ⟨rfl,rfl⟩ := Prod.mk.inj (Option.some.inj h)
    rfl
  · obtain ⟨rfl,rfl⟩ := Prod.mk.inj (Option.some.inj h)
    rfl

theorem completeAll_posts (es : List RecvEvent) (posts posts' : List PostRecvEvent)
    (h : (completeAll es posts).2=some posts') :
    posts'.length+(completeAll es posts).1.countP (fun p => p.2.any Completion.isRecv)=
      posts.length := by
  induction es generalizing posts with
  | nil =>
      obtain rfl := Option.some.inj h
      rfl
  | cons e es ih =>
      rcases hc : complete e posts with _|⟨c,mid⟩
      · rw [completeAll,hc] at h
        cases h
      · rw [completeAll_cons e es posts mid c hc] at h ⊢
        have h1 := ih mid h
        have h2 := complete_posts e posts mid c hc
        rw [List.countP_cons]
        dsimp only
        omega

theorem takePosted_eq (t : QueuePairMessageTracker) (e : RecvEvent) (imm : Option UInt32) :
    t.takePosted e imm=match t.postRecvQueue.getLast?.map
        (fun x => (some (Completion.recv x.wrId imm),t.postRecvQueue.dropLast)) with
      | none => .panic
      | some (c,posts) => .ready e c {t with postRecvQueue := posts} := by
  rw [takePosted]
  cases t.postRecvQueue.getLast? <;> rfl

theorem pollRecvCompletion_cons (t : QueuePairMessageTracker) (e : RecvEvent)
    (es : List RecvEvent) (h : t.merge.recv=e::es) :
    t.pollRecvCompletion=match complete e t.postRecvQueue with
      | none => .panic
      | some (c,posts) => .ready e c
          {t with postRecvQueue := posts,merge := {t.merge with recv := es}} := by
  have hpop : t.merge.popRecv=(some e,{t.merge with recv := es}) := by
    rw [MergeQueue.popRecv,h]
  rw [pollRecvCompletion,hpop]
  dsimp only
  obtain ⟨op,mm,ar⟩ := e
  cases op <;> first | rfl | exact takePosted_eq _ _ _

/-- The receive polling loop empties the queue, or stops at the event that panics. -/
theorem pollRecvs_eq (n : Nat) (t : QueuePairMessageTracker) (h : t.merge.recv.length≤n) :
    t.pollRecvs n=
      ⟨(completeAll t.merge.recv t.postRecvQueue).1.flatMap (fun p => recvMsgs p.1 p.2),
        (completeAll t.merge.recv t.postRecvQueue).2.map (fun posts =>
          {t with postRecvQueue := posts,merge := {t.merge with recv := []}})⟩ := by
  obtain ⟨snd,rcv,posts,send,recv,resps⟩ := t
  induction recv generalizing n posts with
  | nil => cases n <;> rfl
  | cons e es ih =>
      obtain ⟨n,rfl⟩ : ∃ k,n=k+1 := ⟨n-1,by simp only [List.length_cons] at h; omega⟩
      have hn : es.length≤n := Nat.le_of_succ_le_succ h
      rw [pollRecvs,pollRecvCompletion_cons _ e es rfl,completeAll]
      dsimp only
      rcases complete e posts with _|⟨c,posts'⟩
      · rfl
      · dsimp only
        rw [ih n posts' hn]
        rfl

end QueuePairMessageTracker

namespace CompletionWorker
open QueuePairMessageTracker MessageTracker

theorem process_ackSend (qp : QpAttr) (t : QueuePairMessageTracker) (psn : Psn) (cq : UInt32)
    (h : getCq qp.sendCq=some cq) :
    ∃ es rest,t.merge.send++t.send.inner.takeWhile (due psn)=es++rest ∧
      (reads es≤t.merge.recvReadResp.length ∧ ∀ e∈rest.head?,e.op=.readSignaled) ∧
      process qp t (.ackSend psn)=⟨es.flatMap sendMsgs,some {t with
        send := ⟨t.send.inner.dropWhile (due psn),psn⟩
        merge := ⟨rest,t.merge.recv,t.merge.recvReadResp.drop (reads es)⟩}⟩ := by
  obtain ⟨es,rest,hsplit,hreads,hpoll,hrest⟩ :=
    pollSends_spec _ (t.ackSend psn) le_rfl
  rw [process,h]
  dsimp only
  rw [hpoll]
  rw [ackSend_eq] at hsplit hreads ⊢
  exact ⟨es,rest,hsplit,⟨hreads,fun e he => (hrest e he).1⟩,rfl⟩

/-- The worker dies of a missing completion queue, or pops what is due. -/
theorem process_ackSend_cases (qp : QpAttr) (t : QueuePairMessageTracker) (psn : Psn) :
    process qp t (.ackSend psn)=⟨[],none⟩ ∨
    ∃ es rest,t.merge.send++t.send.inner.takeWhile (due psn)=es++rest ∧
      (reads es≤t.merge.recvReadResp.length ∧ ∀ e∈rest.head?,e.op=.readSignaled) ∧
      process qp t (.ackSend psn)=⟨es.flatMap sendMsgs,some {t with
        send := ⟨t.send.inner.dropWhile (due psn),psn⟩
        merge := ⟨rest,t.merge.recv,t.merge.recvReadResp.drop (reads es)⟩}⟩ := by
  rcases hcq : getCq qp.sendCq with _|cq
  · exact Or.inl (by rw [process,hcq])
  · exact Or.inr (process_ackSend qp t psn cq hcq)

/-- The responses available to waiting reads once the due receive events have been popped. -/
def responses (t : QueuePairMessageTracker) (psn : Psn) : List RecvEvent :=
  t.merge.recvReadResp++(t.recv.inner.takeWhile (due psn)).filter RecvEvent.isReadResp

/-- The receive events that complete once the due ones have been popped. -/
def arrivals (t : QueuePairMessageTracker) (psn : Psn) : List RecvEvent :=
  t.merge.recv++(t.recv.inner.takeWhile (due psn)).filter (fun e => !e.isReadResp)

theorem process_ackRecv (qp : QpAttr) (t : QueuePairMessageTracker) (psn : Psn) (cq cq' : UInt32)
    (h : getCq qp.sendCq=some cq) (h' : getCq qp.recvCq=some cq') :
    ∃ es rest,t.merge.send=es++rest ∧
      (reads es≤(responses t psn).length ∧ ∀ e∈rest.head?,e.op=.readSignaled) ∧
      process qp t (.ackRecv psn)=
        ⟨es.flatMap sendMsgs++
          (completeAll (arrivals t psn) t.postRecvQueue).1.flatMap (fun p => recvMsgs p.1 p.2),
          (completeAll (arrivals t psn) t.postRecvQueue).2.map (fun posts => {t with
            recv := ⟨t.recv.inner.dropWhile (due psn),psn⟩
            postRecvQueue := posts
            merge := ⟨rest,[],(responses t psn).drop (reads es)⟩})⟩ := by
  obtain ⟨es,rest,hsplit,hreads,hpoll,hrest⟩ :=
    pollSends_spec _ (t.ackRecv psn) le_rfl
  rw [process,h,h']
  dsimp only
  rw [hpoll]
  have hrecvs := pollRecvs_eq (t.ackRecv psn).merge.recv.length {t.ackRecv psn with merge :=
    ⟨rest,(t.ackRecv psn).merge.recv,(t.ackRecv psn).merge.recvReadResp.drop (reads es)⟩} le_rfl
  dsimp only at hrecvs ⊢
  rw [hrecvs]
  rw [ackRecv_eq] at hsplit hreads ⊢
  exact ⟨es,rest,hsplit,⟨hreads,fun e he => (hrest e he).1⟩,rfl⟩

theorem process_ackRecv_cases (qp : QpAttr) (t : QueuePairMessageTracker) (psn : Psn) :
    process qp t (.ackRecv psn)=⟨[],none⟩ ∨
    ∃ es rest,t.merge.send=es++rest ∧
      (reads es≤(responses t psn).length ∧ ∀ e∈rest.head?,e.op=.readSignaled) ∧
      process qp t (.ackRecv psn)=
        ⟨es.flatMap sendMsgs++
          (completeAll (arrivals t psn) t.postRecvQueue).1.flatMap (fun p => recvMsgs p.1 p.2),
          (completeAll (arrivals t psn) t.postRecvQueue).2.map (fun posts => {t with
            recv := ⟨t.recv.inner.dropWhile (due psn),psn⟩
            postRecvQueue := posts
            merge := ⟨rest,[],(responses t psn).drop (reads es)⟩})⟩ := by
  rcases hcq : getCq qp.sendCq with _|cq
  · exact Or.inl (by rw [process,hcq])
  rcases hcq' : getCq qp.recvCq with _|cq'
  · exact Or.inl (by rw [process,hcq,hcq'])
  exact Or.inr (process_ackRecv qp t psn cq cq' hcq hcq')

/-- Read responses that leave the receive tracker while a task is processed. -/
def readRespsPopped (qp : QpAttr) (t : QueuePairMessageTracker) : CompletionTask → Nat
  | .ackRecv psn => if (getCq qp.sendCq).isSome ∧ (getCq qp.recvCq).isSome
      then ((t.recv.ack psn).popAll t.recv.inner.length).1.countP RecvEvent.isReadResp else 0
  | _ => 0

theorem readRespsPopped_ackRecv (qp : QpAttr) (t : QueuePairMessageTracker) (psn : Psn)
    (cq cq' : UInt32) (h : getCq qp.sendCq=some cq) (h' : getCq qp.recvCq=some cq') :
    readRespsPopped qp t (.ackRecv psn)+t.merge.recvReadResp.length=(responses t psn).length := by
  have hp := popAll_eq t.recv.inner.length (t.recv.ack psn) le_rfl
  rw [readRespsPopped,if_pos ⟨by rw [h]; rfl,by rw [h']; rfl⟩,hp,responses,List.length_append,
    List.countP_eq_length_filter,Nat.add_comm]
  rfl

@[simp] theorem sendPushes_sends (es : List SendEvent) :
    sendPushes (es.flatMap sendMsgs)=es.map (fun e => (e,e.completion)) := by
  induction es with
  | nil => rfl
  | cons e es ih =>
      rw [List.flatMap_cons,sendPushes_append,ih]
      rfl

@[simp] theorem recvPolls_sends (es : List SendEvent) :
    recvPolls (es.flatMap sendMsgs)=[] := by
  induction es with
  | nil => rfl
  | cons e es ih =>
      rw [List.flatMap_cons,recvPolls_append,ih]
      rfl

@[simp] theorem ackResponses_sends (es : List SendEvent) :
    ackResponses (es.flatMap sendMsgs)=[] := by
  induction es with
  | nil => rfl
  | cons e es ih =>
      rw [List.flatMap_cons,ackResponses_append,ih]
      rfl

@[simp] theorem sendPushes_recvs (ps : List (RecvEvent × Option Completion)) :
    sendPushes (ps.flatMap (fun p => recvMsgs p.1 p.2))=[] := by
  induction ps with
  | nil => rfl
  | cons p ps ih =>
      rw [List.flatMap_cons,sendPushes_append,ih,recvMsgs]
      split_ifs <;> rfl

@[simp] theorem recvPolls_recvs (ps : List (RecvEvent × Option Completion)) :
    recvPolls (ps.flatMap (fun p => recvMsgs p.1 p.2))=ps := by
  induction ps with
  | nil => rfl
  | cons p ps ih =>
      rw [List.flatMap_cons,recvPolls_append,ih,recvMsgs]
      split_ifs <;> rfl

/-- Acknowledgements go out for exactly the polled events that ask for one. -/
@[simp] theorem ackResponses_recvs (ps : List (RecvEvent × Option Completion)) :
    ackResponses (ps.flatMap (fun p => recvMsgs p.1 p.2))=
      (ps.filter (fun p => p.1.ackReq)).map (fun p => .ack p.1.msgMeta.msn p.1.msgMeta.endPsn) := by
  induction ps with
  | nil => rfl
  | cons p ps ih =>
      rw [List.flatMap_cons,ackResponses_append,ih,recvMsgs,List.filter_cons]
      split_ifs <;> rfl

end CompletionWorker
end BlueRdma

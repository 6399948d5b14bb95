import BlueRdma.Framework.Progress
import BlueRdma.Framework.Run
import BlueRdma.Verbs.Mock.Thread

namespace BlueRdma
namespace Mock
namespace Completions

inductive Side
  | left
  | right
  deriving DecidableEq

def Side.other : Side → Side
  | .left => .right
  | .right => .left

/-- One end of the pair: its thread, its memory and the regions in it, the stream of messages that
has not been read, the completion queues, and what has been posted. -/
structure Endpoint where
  thread : QpThread
  mem : Memory
  table : List Mr
  inbox : List QpTransportMessage := []
  cqs : UInt32 → List Completion := fun _ => []
  posted : List SendWr := []

namespace Endpoint

def push (e : Endpoint) : Option (UInt32 × Completion) → UInt32 → List Completion
  | none => e.cqs
  | some (cq,c) => Function.update e.cqs cq (e.cqs cq++[c])

/-- A round of the thread, with its reply. After a panic there are no more rounds. -/
def round (d : Bool) (e : Endpoint) : Endpoint × Option QpTransportMessage :=
  match e.thread.status,e.inbox with
  | .running,msg::rest => match e.thread.handle e.mem msg with
    | none => ({e with inbox := rest,thread.status := .panicked},none)
    | some turn => match turn.stores d e.table with
      | none => ({e with inbox := rest,thread.status := .panicked},none)
      | some stores => ({e with
        inbox := rest
        thread := turn.thread
        mem := e.mem.write stores
        cqs := e.push turn.completion},turn.reply)
  | _,_ => (e,none)

end Endpoint

abbrev Pair := Side → Endpoint

inductive Label
  | post (x : Side) (wr : SendWr)
  | postRecv (x : Side) (wr : RecvWr)
  | turn (x : Side)

def deliver (p : Pair) (x : Side) (msgs : List QpTransportMessage) : Pair :=
  Function.update p x {p x with inbox := (p x).inbox++msgs}

def step (d : Bool) (p : Pair) : Label → Pair
  | .post x wr => match toSend (p x).mem wr with
    | .error _ => p
    | .ok msg =>
      deliver (Function.update p x {p x with posted := (p x).posted++[wr]}) x.other [msg]
  | .postRecv x wr =>
    Function.update p x {p x with thread.recvReqs := (p x).thread.recvReqs++[wr]}
  | .turn x =>
    deliver (Function.update p x ((p x).round d).1) x.other ((p x).round d).2.toList

/-- The completion that belongs to a work request. -/
def expected : SendWr → Completion
  | .rdma wr => match wr.opcode with
    | .rdmaRead => .rdmaRead wr.wrId
    | _ => .rdmaWrite wr.wrId
  | .send wr => .send wr.wrId

/-- Signalled requests of the four kinds, whose remote memory does not wrap around. -/
def Supported (wr : SendWr) : Prop :=
  wr.sendFlags&&&ibvSendSignaled≠0 ∧ match wr with
  | .rdma x => (x.opcode=.rdmaWrite ∨ x.opcode=.rdmaWriteWithImm ∨ x.opcode=.rdmaRead) ∧
    x.raddr.toNat+x.length.toNat<2^64
  | .send _ => True

/-- RDMA writes, with or without an immediate. -/
def IsWrite : SendWr → Prop
  | .rdma x => x.opcode=.rdmaWrite ∨ x.opcode=.rdmaWriteWithImm
  | .send _ => False

theorem expected_write (wr : SendWr) (h : IsWrite wr) : expected wr=.rdmaWrite wr.wrId := by
  cases wr with
  | rdma x =>
      rcases h with hop|hop
      all_goals
        simp only [expected,hop]
        rfl
  | send x => cases h

/-- A completion of the responder. -/
def Received : Completion → Prop
  | .recv _ _ => True
  | .recvRdmaWithImm _ => True
  | _ => False

/-- A connected pair at the start, with the handles of the completion queues. No registered region
wraps around. -/
structure Connected (cs cr : Side → UInt32) (p : Pair) : Prop where
  sendCq : ∀ x,(p x).thread.sendCq=some (cs x)
  recvCq : ∀ x,(p x).thread.recvCq=some (cr x)
  distinct : ∀ x,cs x≠cr x
  running : ∀ x,(p x).thread.status=.running
  fits : ∀ x,∀ r∈(p x).table,r.addr.toNat+r.length.toNat<2^64
  silent : ∀ x,(p x).inbox=[] ∧ (p x).posted=[] ∧ (p x).cqs=fun _ => []

/-- Each request has one completion of its kind on the send queue, in the order of posting, and none
on the receive queue. -/
structure Match (d : Bool) (cs cr : Side → UInt32) (p : Pair) (ls : Nat → Label) : Prop where
  ordered : ∀ n x,(Run.trace (step d) p ls n x).cqs (cs x)<+:
    (Run.trace (step d) p ls n x).posted.map expected
  complete : ∀ n x k,k<(Run.trace (step d) p ls n x).posted.length →
    ∃ m,k<((Run.trace (step d) p ls m x).cqs (cs x)).length
  separate : ∀ n x,∀ c∈(Run.trace (step d) p ls n x).cqs (cr x),Received c

theorem Side.cases (x y : Side) : y=x ∨ y=x.other := by
  cases x <;> cases y <;> simp [Side.other]

theorem Side.other_ne (x : Side) : x.other≠x := by cases x <;> simp [Side.other]

@[simp] theorem Side.other_other (x : Side) : x.other.other=x := by cases x <;> rfl

section Steps
variable (d : Bool) (p : Pair) (x : Side)

theorem step_post_self (wr : SendWr) (msg : QpTransportMessage) (h : toSend (p x).mem wr=.ok msg) :
    step d p (.post x wr) x={p x with posted := (p x).posted++[wr]} := by
  simp only [step,h,deliver]
  rw [Function.update_of_ne x.other_ne.symm,Function.update_self]

theorem step_post_other (wr : SendWr) (msg : QpTransportMessage)
    (h : toSend (p x).mem wr=.ok msg) :
    step d p (.post x wr) x.other={p x.other with inbox := (p x.other).inbox++[msg]} := by
  simp only [step,h,deliver]
  rw [Function.update_self,Function.update_of_ne x.other_ne]

theorem step_turn_self : step d p (.turn x) x=((p x).round d).1 := by
  simp only [step,deliver]
  rw [Function.update_of_ne x.other_ne.symm,Function.update_self]

theorem step_turn_other : step d p (.turn x) x.other=
    {p x.other with inbox := (p x.other).inbox++((p x).round d).2.toList} := by
  simp only [step,deliver]
  rw [Function.update_self,Function.update_of_ne x.other_ne]

theorem step_postRecv_self (wr : RecvWr) : step d p (.postRecv x wr) x=
    {p x with thread.recvReqs := (p x).thread.recvReqs++[wr]} := Function.update_self ..

theorem step_postRecv_other (wr : RecvWr) : step d p (.postRecv x wr) x.other=p x.other :=
  Function.update_of_ne x.other_ne _ _

end Steps

theorem push_grows (e : Endpoint) (c : Option (UInt32 × Completion)) (cq : UInt32) :
    e.cqs cq<+:e.push c cq := by
  rcases c with _|⟨cq',c⟩
  · exact List.prefix_refl _
  · rw [Endpoint.push]
    by_cases hcq : cq=cq'
    · rw [hcq,Function.update_self]
      exact List.prefix_append _ _
    · rw [Function.update_of_ne hcq]

theorem round_grows (d : Bool) (e : Endpoint) (cq : UInt32) :
    e.cqs cq<+:(e.round d).1.cqs cq := by
  rw [Endpoint.round]
  split
  · split
    · exact List.prefix_refl _
    · split
      · exact List.prefix_refl _
      · exact push_grows e _ cq
  · exact List.prefix_refl _

theorem round_posted (d : Bool) (e : Endpoint) : (e.round d).1.posted=e.posted := by
  rw [Endpoint.round]
  split
  · split
    · rfl
    · split <;> rfl
  · rfl

/-- Without a turn of its own, a side only has more requests and messages. -/
theorem step_without_turn (d : Bool) (p : Pair) (l : Label) (y : Side) (hl : l≠.turn y) :
    ∃ reqs msgs wrs,step d p l y={p y with
      thread.recvReqs := (p y).thread.recvReqs++reqs
      inbox := (p y).inbox++msgs
      posted := (p y).posted++wrs} := by
  cases l with
  | post x wr =>
      rcases hsend : toSend (p x).mem wr with e|msg
      · exact ⟨[],[],[],by simp [step,hsend]⟩
      rcases x.cases y with rfl|rfl
      · exact ⟨[],[],[wr],by simp [step_post_self d p y wr msg hsend]⟩
      · exact ⟨[],[msg],[],by simp [step_post_other d p x wr msg hsend]⟩
  | postRecv x wr =>
      rcases x.cases y with rfl|rfl
      · exact ⟨[wr],[],[],by simp [step_postRecv_self]⟩
      · exact ⟨[],[],[],by simp [step_postRecv_other]⟩
  | turn x =>
      rcases x.cases y with rfl|rfl
      · exact absurd rfl hl
      · exact ⟨[],((p x).round d).2.toList,[],by simp [step_turn_other]⟩

section Steps
variable (d : Bool) (p : Pair) (l : Label) (y : Side)

/-- What is on its way to a side stays so until the side has its turn. -/
theorem step_inbox (hl : l≠.turn y) : (p y).inbox<+:(step d p l y).inbox := by
  obtain ⟨reqs,msgs,wrs,hstep⟩ := step_without_turn d p l y hl
  rw [hstep]
  exact List.prefix_append _ _

/-- Completions stay where they are. -/
theorem step_grows (cq : UInt32) : (p y).cqs cq<+:(step d p l y).cqs cq := by
  rcases Classical.em (l=.turn y) with rfl|hl
  · rw [step_turn_self]
    exact round_grows d (p y) cq
  · obtain ⟨reqs,msgs,wrs,hstep⟩ := step_without_turn d p l y hl
    rw [hstep]

theorem step_posted : (p y).posted<+:(step d p l y).posted := by
  rcases Classical.em (l=.turn y) with rfl|hl
  · rw [step_turn_self,round_posted]
  · obtain ⟨reqs,msgs,wrs,hstep⟩ := step_without_turn d p l y hl
    rw [hstep]
    exact List.prefix_append _ _

end Steps

theorem posted_grows (d : Bool) (p : Pair) (ls : Nat → Label) (x : Side) (n m : Nat)
    (hnm : n ≤ m) : (Run.trace (step d) p ls n x).posted<+:(Run.trace (step d) p ls m x).posted :=
  Run.trace_grows (step d) (fun q => (q x).posted) (fun q l => step_posted d q l x) p ls n m hnm

theorem cqs_grow (d : Bool) (p : Pair) (ls : Nat → Label) (x : Side) (n m : Nat) (hnm : n ≤ m)
    (cq : UInt32) :
    (Run.trace (step d) p ls n x).cqs cq<+:(Run.trace (step d) p ls m x).cqs cq :=
  Run.trace_grows (step d) (fun q => (q x).cqs cq) (fun q l => step_grows d q l x cq) p ls n m hnm

/-- Supported requests are sent. -/
theorem toSend_ok (mem : Memory) (wr : SendWr) (h : Supported wr) :
    ∃ msg,toSend mem wr=.ok msg ∧ ∀ r,msg≠.sendResp r := by
  cases wr with
  | rdma x =>
      rcases h.2.1 with hop|hop|hop
      all_goals
        simp only [toSend,hop]
        exact ⟨_,rfl,fun _ => by simp⟩
  | send x => exact ⟨_,rfl,fun _ => by simp⟩

/-- What a message can do, whatever it is: completions that do not belong to the responder are for
writes, unless the peer answers a send as such. -/
theorem handle_sides (mem : Memory) (t : QpThread) (msg : QpTransportMessage) (turn : Turn)
    (h : t.handle mem msg=some turn) :
    turn.thread.sendCq=t.sendCq ∧ turn.thread.recvCq=t.recvCq ∧
    (∀ r,turn.reply≠some (.sendResp r)) ∧
    ∀ cq c,turn.completion=some (cq,c) → t.recvCq=some cq ∨
      t.sendCq=some cq ∧ ((∃ id,c=.rdmaWrite id) ∨ ∃ r,msg=.sendResp r) := by
  cases msg with
  | sendReq r =>
      rw [QpThread.handle] at h
      split at h
      · cases h
      obtain rfl := Option.some.inj h
      refine ⟨rfl,rfl,by simp,?_⟩
      intro cq c hc
      obtain ⟨cq',hcq,heq⟩ := Option.map_eq_some_iff.mp hc
      obtain ⟨rfl,-⟩ := Prod.mk.inj heq
      exact Or.inl hcq
  | writeReq r | readReq r =>
      obtain rfl := Option.some.inj h
      exact ⟨rfl,rfl,by simp,by simp⟩
  | writeWithImmReq r =>
      obtain rfl := Option.some.inj h
      refine ⟨rfl,rfl,by simp,?_⟩
      intro cq c hc
      obtain ⟨cq',hcq,heq⟩ := Option.map_eq_some_iff.mp hc
      obtain ⟨rfl,-⟩ := Prod.mk.inj heq
      exact Or.inl hcq
  | writeResp r | writeWithImmResp r | sendResp r =>
      obtain rfl := Option.some.inj h
      refine ⟨rfl,rfl,by simp,?_⟩
      intro cq c hc
      dsimp only at hc
      split_ifs at hc
      obtain ⟨cq',hcq,heq⟩ := Option.map_eq_some_iff.mp hc
      obtain ⟨rfl,rfl⟩ := Prod.mk.inj heq
      exact Or.inr ⟨hcq,by simp⟩
  | readResp r =>
      obtain rfl := Option.some.inj h
      refine ⟨rfl,rfl,by simp,?_⟩
      intro cq c hc
      dsimp only at hc
      split_ifs at hc
      obtain ⟨cq',hcq,heq⟩ := Option.map_eq_some_iff.mp hc
      obtain ⟨rfl,-⟩ := Prod.mk.inj heq
      exact Or.inl hcq

/-- No answer to a send is on its way, and the send queue has completions of writes only. -/
structure Plain (cs cr : UInt32) (e : Endpoint) : Prop where
  sendCq : e.thread.sendCq=some cs
  recvCq : e.thread.recvCq=some cr
  inbox : ∀ r,.sendResp r∉e.inbox
  writes : ∀ c∈e.cqs cs,∃ id,c=.rdmaWrite id

theorem Plain.round (cs cr : UInt32) (e : Endpoint) (h : Plain cs cr e) (hne : cs≠cr) (d : Bool) :
    Plain cs cr (e.round d).1 ∧ ∀ r,(e.round d).2≠some (.sendResp r) := by
  rw [Endpoint.round]
  split
  next msg rest hstatus hinbox =>
    have hmsg : ∀ r,msg≠.sendResp r := by
      rintro r rfl
      exact h.inbox r (by rw [hinbox]; exact List.mem_cons_self)
    have hrest : ∀ r,.sendResp r∉rest := fun r hr =>
      h.inbox r (by rw [hinbox]; exact List.mem_cons_of_mem msg hr)
    split
    · exact ⟨⟨h.sendCq,h.recvCq,hrest,h.writes⟩,by simp⟩
    next turn hturn =>
      obtain ⟨hsend,hrecv,hreply,hcompletion⟩ := handle_sides e.mem e.thread msg turn hturn
      split
      · exact ⟨⟨h.sendCq,h.recvCq,hrest,h.writes⟩,by simp⟩
      refine ⟨⟨hsend.trans h.sendCq,hrecv.trans h.recvCq,hrest,?_⟩,hreply⟩
      intro c hc
      dsimp only at hc
      rcases hpushed : turn.completion with _|⟨cq,c'⟩
      · rw [hpushed] at hc
        exact h.writes c hc
      rw [hpushed,Endpoint.push] at hc
      rcases hcompletion cq c' hpushed with hcq|⟨hcq,hwrite⟩
      · rw [h.recvCq] at hcq
        rw [Function.update_of_ne (by rw [← Option.some.inj hcq]; exact hne)] at hc
        exact h.writes c hc
      · rw [h.sendCq] at hcq
        obtain rfl := Option.some.inj hcq
        rw [Function.update_self] at hc
        rcases List.mem_append.mp hc with hc|hc
        · exact h.writes c hc
        · rw [List.mem_singleton.mp hc]
          exact hwrite.resolve_right (fun ⟨r,hr⟩ => hmsg r hr)
  · exact ⟨h,by simp⟩

section Any
variable (d : Bool) (cs cr : Side → UInt32) (hne : ∀ x,cs x≠cr x)
include hne

theorem step_plain (p : Pair) (l : Label) (hl : ∀ x wr,l=.post x wr → Supported wr)
    (h : ∀ x,Plain (cs x) (cr x) (p x)) (y : Side) : Plain (cs y) (cr y) (step d p l y) := by
  cases l with
  | post x wr =>
      obtain ⟨msg,hmsg,hno⟩ := toSend_ok (p x).mem wr (hl x wr rfl)
      rcases x.cases y with rfl|rfl
      · rw [step_post_self d p y wr msg hmsg]
        exact ⟨(h y).sendCq,(h y).recvCq,(h y).inbox,(h y).writes⟩
      · rw [step_post_other d p x wr msg hmsg]
        refine ⟨(h _).sendCq,(h _).recvCq,?_,(h _).writes⟩
        intro r hr
        rcases List.mem_append.mp hr with hr|hr
        · exact (h _).inbox r hr
        · exact hno r (List.mem_singleton.mp hr).symm
  | postRecv x wr =>
      rcases x.cases y with rfl|rfl
      · rw [step_postRecv_self]
        exact ⟨(h y).sendCq,(h y).recvCq,(h y).inbox,(h y).writes⟩
      · rw [step_postRecv_other]
        exact h _
  | turn x =>
      obtain ⟨hround,hreply⟩ := (h x).round _ _ _ (hne x) d
      rcases x.cases y with rfl|rfl
      · rw [step_turn_self]
        exact hround
      · rw [step_turn_other]
        refine ⟨(h _).sendCq,(h _).recvCq,?_,(h _).writes⟩
        intro r hr
        rcases List.mem_append.mp hr with hr|hr
        · exact (h _).inbox r hr
        · exact hreply r (by simpa using hr)

/-- A send or a read never gets the completion it should have: only writes do. -/
theorem isWrite_of_match (p : Pair) (ls : Nat → Label)
    (hls : ∀ n x wr,ls n=.post x wr → Supported wr)
    (h : ∀ x,Plain (cs x) (cr x) (p x)) (hmatch : Match d cs cr p ls) (n : Nat) (x : Side)
    (wr : SendWr) (hn : ls n=.post x wr) : IsWrite wr := by
  have hplain : ∀ n x,Plain (cs x) (cr x) (Run.trace (step d) p ls n x) :=
    Run.trace_inv (step d) (fun p => ∀ x,Plain (cs x) (cr x) (p x)) p ls
      (fun n p hp y => step_plain d cs cr hne p (ls n) (hls n) hp y) h
  obtain ⟨msg,hmsg,-⟩ := toSend_ok (Run.trace (step d) p ls n x).mem wr (hls n x wr hn)
  have hposted : (Run.trace (step d) p ls (n+1) x).posted=
      (Run.trace (step d) p ls n x).posted++[wr] := by
    rw [Run.trace,hn,step_post_self d _ x wr msg hmsg]
  have hlen := congrArg List.length hposted
  rw [List.length_append,List.length_singleton] at hlen
  obtain ⟨m,hm⟩ := hmatch.complete (n+1) x (Run.trace (step d) p ls n x).posted.length (by omega)
  have hordered := hmatch.ordered m x
  have hmlen := hordered.length_le
  rw [List.length_map] at hmlen
  have hnm : n < m := by
    by_contra hle
    have := (posted_grows d p ls x m n (by omega)).length_le
    omega
  have hwr : (Run.trace (step d) p ls m x).posted[(Run.trace (step d) p ls n x).posted.length]?=
      some wr := by
    obtain ⟨extra,hextra⟩ := posted_grows d p ls x (n+1) m hnm
    rw [← hextra,hposted]
    simp
  have hc := List.prefix_iff_getElem?.mp hordered _ hm
  rw [List.getElem?_map,hwr,Option.map_some] at hc
  obtain ⟨id,hid⟩ := (hplain m x).writes _ (List.getElem_mem hm)
  rw [← Option.some.inj hc] at hid
  have hsupported := hls n x wr hn
  cases wr with
  | rdma y =>
      rcases hsupported.2.1 with hop|hop|hop
      · exact Or.inl hop
      · exact Or.inr hop
      · simp [expected,hop] at hid
  | send y => simp [expected] at hid

end Any

/-- The work request that a message answers. -/
def answerId : QpTransportMessage → Option UInt64
  | .writeResp r => some r.wrId
  | _ => none

/-- The work request that a message brings. -/
def requestId : QpTransportMessage → Option UInt64
  | .writeReq r | .writeWithImmReq r => some r.wrId
  | _ => none

/-- The messages of a pair that only writes. -/
def WriteMsg : QpTransportMessage → Prop
  | .writeReq r | .writeWithImmReq r => r.ackReq=true ∧ r.raddr.toNat+r.data.length<2^64
  | .writeResp r => r.ackReq=true
  | _ => False

/-- A side that only writes and whose peer does. -/
structure Steady (cs cr : UInt32) (e : Endpoint) : Prop where
  sendCq : e.thread.sendCq=some cs
  recvCq : e.thread.recvCq=some cr
  running : e.thread.status=.running
  fits : ∀ r∈e.table,r.addr.toNat+r.length.toNat<2^64
  inbox : ∀ msg∈e.inbox,WriteMsg msg
  posted : ∀ wr∈e.posted,IsWrite wr
  received : ∀ c∈e.cqs cr,Received c

/-- The requests of a side are those completed, those answered, and those on their way to the peer,
in this order. -/
def Ordered (cs : UInt32) (e peer : Endpoint) : Prop :=
  ∃ done,e.cqs cs=done.map .rdmaWrite ∧ e.posted.map SendWr.wrId=
    done++(e.inbox.filterMap answerId++peer.inbox.filterMap requestId)

theorem Connected.steady (cs cr : Side → UInt32) (p : Pair) (h : Connected cs cr p) (x : Side) :
    Steady (cs x) (cr x) (p x) ∧ Ordered (cs x) (p x) (p x.other) := by
  have hx := h.silent x
  have ho := h.silent x.other
  exact ⟨⟨h.sendCq x,h.recvCq x,h.running x,h.fits x,by simp [hx],by simp [hx],by simp [hx]⟩,
    [],by simp [hx],by simp [hx,ho]⟩

theorem Connected.plain (cs cr : Side → UInt32) (p : Pair) (h : Connected cs cr p) (x : Side) :
    Plain (cs x) (cr x) (p x) := by
  have hx := h.silent x
  exact ⟨h.sendCq x,h.recvCq x,by simp [hx],by simp [hx]⟩

theorem toSend_write (mem : Memory) (wr : SendWr) (h : Supported wr) (hwrite : IsWrite wr) :
    ∃ msg,toSend mem wr=.ok msg ∧ WriteMsg msg ∧ requestId msg=some wr.wrId ∧ answerId msg=none := by
  cases wr with
  | rdma x =>
      have hlen : (readLocalAddr mem x.laddr x.length).length=x.length.toNat := by
        simp [readLocalAddr,Memory.read]
      have hack : decide (x.sendFlags&&&ibvSendSignaled≠0)=true := decide_eq_true h.1
      rcases hwrite with hop|hop
      all_goals
        simp only [toSend,hop]
        refine ⟨_,rfl,⟨hack,?_⟩,rfl,rfl⟩
        rw [hlen]
        exact h.2.2
  | send x => cases hwrite

/-- A round that takes a request: a reply goes out, and the send queue stays as it is. -/
theorem round_request (d : Bool) (cs cr : UInt32) (hne : cs≠cr) (e : Endpoint)
    (hrecv : e.thread.recvCq=some cr) (hrun : e.thread.status=.running)
    (hfits : ∀ r∈e.table,r.addr.toNat+r.length.toNat<2^64) (msg : QpTransportMessage)
    (rest : List QpTransportMessage) (hinbox : e.inbox=msg::rest) (hmsg : WriteMsg msg)
    (id : UInt64) (hid : requestId msg=some id) :
    ∃ mem cqs,e.round d=({e with inbox := rest,mem := mem,cqs := cqs},some (.writeResp ⟨id,true⟩)) ∧
      cqs cs=e.cqs cs ∧ ∀ c∈cqs cr,c∈e.cqs cr ∨ Received c := by
  have hstores (a : UInt64) (data : List UInt8) (hend : a.toNat+data.length<2^64) :
      ∃ stores,writeLocalAddr d e.table a data=some stores := by
    have hlen : (UInt64.ofNat data.length).toNat=data.length :=
      UInt64.toNat_ofNat_of_lt' (show data.length<2^64 by omega)
    exact ⟨_,by rw [writeLocalAddr,valid_eq d a _ e.table (by omega) hfits,Option.map_some]⟩
  cases msg with
  | writeReq r =>
      obtain rfl := Option.some.inj hid
      obtain ⟨stores,hs⟩ := hstores r.raddr r.data hmsg.2
      refine ⟨e.mem.write stores,e.cqs,?_,rfl,fun c hc => Or.inl hc⟩
      simp only [Endpoint.round,hrun,hinbox,QpThread.handle,Turn.stores,hs,hmsg.1,Endpoint.push]
  | writeWithImmReq r =>
      obtain rfl := Option.some.inj hid
      obtain ⟨stores,hs⟩ := hstores r.raddr r.data hmsg.2
      refine ⟨e.mem.write stores,Function.update e.cqs cr (e.cqs cr++[.recvRdmaWithImm r.imm]),
        ?_,?_,?_⟩
      · simp only [Endpoint.round,hrun,hinbox,QpThread.handle,Turn.stores,hs,hmsg.1,hrecv,
          Option.map_some,Endpoint.push]
      · rw [Function.update_of_ne hne]
      · intro c hc
        rw [Function.update_self] at hc
        rcases List.mem_append.mp hc with hc|hc
        · exact Or.inl hc
        · rw [List.mem_singleton.mp hc]
          exact Or.inr trivial
  | _ => cases hid

/-- A round that takes an answer: its completion goes to the send queue. -/
theorem round_answer (d : Bool) (cs : UInt32) (e : Endpoint) (hsend : e.thread.sendCq=some cs)
    (hrun : e.thread.status=.running) (msg : QpTransportMessage) (rest : List QpTransportMessage)
    (hinbox : e.inbox=msg::rest) (hmsg : WriteMsg msg) (id : UInt64) (hid : answerId msg=some id) :
    e.round d=({e with
      inbox := rest
      cqs := Function.update e.cqs cs (e.cqs cs++[.rdmaWrite id])},none) := by
  cases msg with
  | writeResp r =>
      obtain rfl := Option.some.inj hid
      have hack : r.ackReq=true := hmsg
      simp only [Endpoint.round,hrun,hinbox,QpThread.handle,Turn.stores,hack,hsend,Option.map_some,
        Endpoint.push,if_true]
      rfl
  | _ => cases hid

/-- A message of the pair is a request or an answer, not both. -/
theorem WriteMsg.cases (msg : QpTransportMessage) (h : WriteMsg msg) :
    (∃ id,requestId msg=some id ∧ answerId msg=none) ∨
      ∃ id,answerId msg=some id ∧ requestId msg=none := by
  cases msg with
  | writeReq r => exact Or.inl ⟨_,rfl,rfl⟩
  | writeWithImmReq r => exact Or.inl ⟨_,rfl,rfl⟩
  | writeResp r => exact Or.inr ⟨_,rfl,rfl⟩
  | _ => cases h

section Writes
variable (d : Bool) (cs cr : UInt32) (hne : cs≠cr) (e : Endpoint) (h : Steady cs cr e)
include h

theorem Steady.deliver (msgs : List QpTransportMessage) (hmsgs : ∀ msg∈msgs,WriteMsg msg) :
    Steady cs cr {e with inbox := e.inbox++msgs} := by
  refine ⟨h.sendCq,h.recvCq,h.running,h.fits,?_,h.posted,h.received⟩
  intro msg hmsg
  rcases List.mem_append.mp hmsg with hmsg|hmsg
  · exact h.inbox msg hmsg
  · exact hmsgs msg hmsg

theorem Steady.post (wr : SendWr) (hwr : IsWrite wr) :
    Steady cs cr {e with posted := e.posted++[wr]} := by
  refine ⟨h.sendCq,h.recvCq,h.running,h.fits,h.inbox,?_,h.received⟩
  intro w hw
  rcases List.mem_append.mp hw with hw|hw
  · exact h.posted w hw
  · rw [List.mem_singleton.mp hw]
    exact hwr

include hne

/-- A round takes nothing, a request or an answer. -/
theorem Steady.round : Steady cs cr (e.round d).1 ∧ (∀ msg∈(e.round d).2.toList,WriteMsg msg) ∧
    (e.inbox=[] ∧ e.round d=(e,none) ∨
      (∃ msg rest id cqs,e.inbox=msg::rest ∧ requestId msg=some id ∧ answerId msg=none ∧
        cqs cs=e.cqs cs ∧ ∃ mem,e.round d=({e with inbox := rest,mem := mem,cqs := cqs},
          some (.writeResp ⟨id,true⟩))) ∨
      ∃ msg rest id,e.inbox=msg::rest ∧ answerId msg=some id ∧ requestId msg=none ∧
        e.round d=({e with
          inbox := rest
          cqs := Function.update e.cqs cs (e.cqs cs++[.rdmaWrite id])},none)) := by
  rcases hinbox : e.inbox with _|⟨msg,rest⟩
  · have hround : e.round d=(e,none) := by simp only [Endpoint.round,h.running,hinbox]
    rw [hround]
    exact ⟨h,by simp,Or.inl ⟨rfl,rfl⟩⟩
  have hmsg := h.inbox msg (by rw [hinbox]; exact List.mem_cons_self)
  have hrest : ∀ m∈rest,WriteMsg m := fun m hm =>
    h.inbox m (by rw [hinbox]; exact List.mem_cons_of_mem msg hm)
  rcases WriteMsg.cases msg hmsg with ⟨id,hreq,hans⟩|⟨id,hans,hreq⟩
  · obtain ⟨mem,cqs,hround,hsame,hcqs⟩ := round_request d cs cr hne e h.recvCq h.running h.fits msg
      rest hinbox hmsg id hreq
    rw [hround]
    refine ⟨⟨h.sendCq,h.recvCq,h.running,h.fits,hrest,h.posted,?_⟩,?_,
      Or.inr (Or.inl ⟨msg,rest,id,cqs,rfl,hreq,hans,hsame,mem,rfl⟩)⟩
    · intro c hc
      rcases hcqs c hc with hc|hc
      · exact h.received c hc
      · exact hc
    · intro m hm
      rw [Option.toList_some,List.mem_singleton] at hm
      rw [hm]
      rfl
  · have hround := round_answer d cs e h.sendCq h.running msg rest hinbox hmsg id hans
    rw [hround]
    refine ⟨⟨h.sendCq,h.recvCq,h.running,h.fits,hrest,h.posted,?_⟩,by simp,
      Or.inr (Or.inr ⟨msg,rest,id,rfl,hans,hreq,rfl⟩)⟩
    dsimp only
    rw [Function.update_of_ne hne.symm]
    exact h.received

end Writes

section Pair
variable (d : Bool) (cs cr : Side → UInt32) (p : Pair)
  (h : ∀ x,Steady (cs x) (cr x) (p x) ∧ Ordered (cs x) (p x) (p x.other))
include h

theorem step_post_steady (x : Side) (wr : SendWr) (hwr : Supported wr) (hwrite : IsWrite wr)
    (y : Side) : Steady (cs y) (cr y) (step d p (.post x wr) y) ∧
      Ordered (cs y) (step d p (.post x wr) y) (step d p (.post x wr) y.other) := by
  obtain ⟨msg,hsend,hmsg,hreq,hans⟩ := toSend_write (p x).mem wr hwr hwrite
  have hself := step_post_self d p x wr msg hsend
  have hother := step_post_other d p x wr msg hsend
  rcases x.cases y with rfl|rfl
  · obtain ⟨done,hdone,hids⟩ := (h y).2
    rw [hself,hother]
    exact ⟨(h y).1.post _ _ _ wr hwrite,done,hdone,by simp [hids,hreq]⟩
  · obtain ⟨done,hdone,hids⟩ := (h x.other).2
    rw [Side.other_other] at hids ⊢
    rw [hself,hother]
    exact ⟨(h x.other).1.deliver _ _ _ [msg] (by simpa using hmsg),done,hdone,by simp [hids,hans]⟩

variable (hne : ∀ x,cs x≠cr x)
include hne

theorem step_turn_steady (x y : Side) : Steady (cs y) (cr y) (step d p (.turn x) y) ∧
    Ordered (cs y) (step d p (.turn x) y) (step d p (.turn x) y.other) := by
  obtain ⟨hsteady,hreply,hround⟩ := (h x).1.round d _ _ (hne x)
  have hself := step_turn_self d p x
  have hother := step_turn_other d p x
  obtain ⟨done,hdone,hids⟩ := (h x).2
  obtain ⟨done',hdone',hids'⟩ := (h x.other).2
  rw [Side.other_other] at hids'
  rcases x.cases y with rfl|rfl
  · rw [hself,hother]
    refine ⟨hsteady,?_⟩
    rcases hround with ⟨-,hround⟩|⟨msg,rest,id,cqs,hinbox,hreq,hans,hcqs,mem,hround⟩|
      ⟨msg,rest,id,hinbox,hans,hreq,hround⟩
    · rw [hround]
      exact ⟨done,hdone,by simp [hids]⟩
    · rw [hround]
      refine ⟨done,hcqs.trans hdone,?_⟩
      rw [hinbox] at hids
      simp [hids,hans,requestId]
    · rw [hround]
      refine ⟨done++[id],?_,?_⟩
      · dsimp only
        rw [Function.update_self,hdone,List.map_append]
        rfl
      · rw [hinbox] at hids
        simp [hids,hans]
  · rw [Side.other_other,hself,hother]
    refine ⟨(h x.other).1.deliver _ _ _ _ hreply,done',hdone',?_⟩
    rcases hround with ⟨-,hround⟩|⟨msg,rest,id,cqs,hinbox,hreq,hans,hcqs,mem,hround⟩|
      ⟨msg,rest,id,hinbox,hans,hreq,hround⟩
    · rw [hround]
      simp [hids']
    · rw [hround]
      rw [hinbox] at hids'
      simp [hids',hreq,answerId]
    · rw [hround]
      rw [hinbox] at hids'
      simp [hids',hreq]

theorem step_steady (l : Label) (hl : ∀ x wr,l=.post x wr → Supported wr ∧ IsWrite wr) (y : Side) :
    Steady (cs y) (cr y) (step d p l y) ∧ Ordered (cs y) (step d p l y) (step d p l y.other) := by
  cases l with
  | post x wr =>
      obtain ⟨hwr,hwrite⟩ := hl x wr rfl
      exact step_post_steady d cs cr p h x wr hwr hwrite y
  | postRecv x wr =>
      obtain ⟨hsteady,done,hdone,hids⟩ := h y
      have hinbox (z : Side) : (step d p (.postRecv x wr) z).inbox=(p z).inbox := by
        rcases x.cases z with rfl|rfl
        · rw [step_postRecv_self]
        · rw [step_postRecv_other]
      have hsame : Steady (cs y) (cr y) (step d p (.postRecv x wr) y) ∧
          (step d p (.postRecv x wr) y).cqs=(p y).cqs ∧
          (step d p (.postRecv x wr) y).posted=(p y).posted := by
        rcases x.cases y with rfl|rfl
        · rw [step_postRecv_self]
          exact ⟨⟨hsteady.sendCq,hsteady.recvCq,hsteady.running,hsteady.fits,hsteady.inbox,
            hsteady.posted,hsteady.received⟩,rfl,rfl⟩
        · rw [step_postRecv_other]
          exact ⟨hsteady,rfl,rfl⟩
      refine ⟨hsame.1,done,?_,?_⟩
      · rw [hsame.2.1,hdone]
      · rw [hsame.2.2,hinbox,hinbox,hids]
  | turn x => exact step_turn_steady d cs cr p h hne x y

end Pair

section Fair
variable (d : Bool) (cs cr : Side → UInt32) (hne : ∀ x,cs x≠cr x) (p : Pair) (ls : Nat → Label)
  (h : ∀ n x,Steady (cs x) (cr x) (Run.trace (step d) p ls n x) ∧
    Ordered (cs x) (Run.trace (step d) p ls n x) (Run.trace (step d) p ls n x.other))
  (hfair : ∀ n x,∃ m,n ≤ m ∧ ls m=.turn x)
include h hne hfair

theorem inbox_fair (x : Side) : FairQueue (fun n => (Run.trace (step d) p ls n x).inbox)
    (fun n => ls n=.turn x) := by
  refine ⟨fun n hn => step_inbox d _ (ls n) x hn,?_,fun n => hfair n x⟩
  intro n hn
  obtain ⟨-,-,hround⟩ := (h n x).1.round d _ _ (hne x)
  rw [Run.trace,hn,step_turn_self]
  rcases hround with ⟨hinbox,hround⟩|⟨msg,rest,id,cqs,hinbox,-,-,-,mem,hround⟩|
    ⟨msg,rest,id,hinbox,-,-,hround⟩
  · rw [hround,hinbox]
    rfl
  · rw [hround,hinbox]
    rfl
  · rw [hround,hinbox]
    rfl

/-- An answer on its way becomes a completion. -/
theorem answer_completes (x : Side) (n : Nat) (msg : QpTransportMessage) (id : UInt64)
    (hmsg : msg∈(Run.trace (step d) p ls n x).inbox) (hans : answerId msg=some id) :
    ∃ m,((Run.trace (step d) p ls n x).cqs (cs x)).length<
      ((Run.trace (step d) p ls m x).cqs (cs x)).length := by
  obtain ⟨m,hm,hturn,hhead⟩ :=
    (inbox_fair d cs cr hne p ls h hfair x).mem_reaches_head msg n hmsg
  have hmono := (cqs_grow d p ls x n m hm (cs x)).length_le
  obtain ⟨-,-,hround⟩ := (h m x).1.round d _ _ (hne x)
  refine ⟨m+1,?_⟩
  rw [Run.trace,hturn,step_turn_self]
  rcases hround with ⟨hinbox,-⟩|⟨msg',rest,id',cqs,hinbox,-,hans',-⟩|
    ⟨msg',rest,id',hinbox,-,-,hround⟩
  · simp [hinbox] at hhead
  · rw [hinbox] at hhead
    obtain rfl := Option.some.inj hhead
    rw [hans] at hans'
    cases hans'
  · rw [hround]
    dsimp only
    rw [Function.update_self,List.length_append,List.length_singleton]
    omega

/-- A request on its way is answered. -/
theorem request_answered (x : Side) (n : Nat) (msg : QpTransportMessage) (id : UInt64)
    (hmsg : msg∈(Run.trace (step d) p ls n x.other).inbox) (hreq : requestId msg=some id) :
    ∃ m,n ≤ m ∧ ∃ msg∈(Run.trace (step d) p ls m x).inbox,∃ id,answerId msg=some id := by
  obtain ⟨m,hm,hturn,hhead⟩ :=
    (inbox_fair d cs cr hne p ls h hfair x.other).mem_reaches_head msg n hmsg
  obtain ⟨-,-,hround⟩ := (h m x.other).1.round d _ _ (hne x.other)
  have hother := step_turn_other d (Run.trace (step d) p ls m) x.other
  rw [Side.other_other] at hother
  refine ⟨m+1,by omega,?_⟩
  rw [Run.trace,hturn,hother]
  rcases hround with ⟨hinbox,-⟩|⟨msg',rest,id',cqs,hinbox,-,-,-,mem,hround⟩|
    ⟨msg',rest,id',hinbox,-,hreq',-⟩
  · simp [hinbox] at hhead
  · rw [hround]
    exact ⟨.writeResp ⟨id',true⟩,by simp,id',rfl⟩
  · rw [hinbox] at hhead
    obtain rfl := Option.some.inj hhead
    rw [hreq] at hreq'
    cases hreq'

/-- As long as a request has no completion, there will be one more. -/
theorem one_more (x : Side) (n : Nat) (hn : ((Run.trace (step d) p ls n x).cqs (cs x)).length<
    (Run.trace (step d) p ls n x).posted.length) :
    ∃ m,((Run.trace (step d) p ls n x).cqs (cs x)).length<
      ((Run.trace (step d) p ls m x).cqs (cs x)).length := by
  obtain ⟨done,hdone,hids⟩ := (h n x).2
  have hlen := congrArg List.length hids
  rw [List.length_map,List.length_append,List.length_append] at hlen
  rw [hdone,List.length_map] at hn
  rcases hanswers : (Run.trace (step d) p ls n x).inbox.filterMap answerId with _|⟨id,ids⟩
  · rcases hrequests : (Run.trace (step d) p ls n x.other).inbox.filterMap requestId with _|⟨id,ids⟩
    · rw [hanswers,hrequests] at hlen
      simp only [List.length_nil] at hlen
      omega
    obtain ⟨msg,hmsg,hreq⟩ := List.mem_filterMap.mp (by rw [hrequests]; exact List.mem_cons_self)
    obtain ⟨m,hm,msg',hmsg',id',hans⟩ :=
      request_answered d cs cr hne p ls h hfair x n msg id hmsg hreq
    obtain ⟨k,hk⟩ := answer_completes d cs cr hne p ls h hfair x m msg' id' hmsg' hans
    exact ⟨k,(cqs_grow d p ls x n m hm (cs x)).length_le.trans_lt hk⟩
  · obtain ⟨msg,hmsg,hans⟩ := List.mem_filterMap.mp (by rw [hanswers]; exact List.mem_cons_self)
    exact answer_completes d cs cr hne p ls h hfair x n msg id hmsg hans

/-- Every request has its completion at some time. -/
theorem completes (x : Side) (n k : Nat) (hk : k<(Run.trace (step d) p ls n x).posted.length) :
    ∃ m,k<((Run.trace (step d) p ls m x).cqs (cs x)).length := by
  -- the number of completions still missing goes down
  obtain ⟨j,hj⟩ : ∃ j,k<((Run.trace (step d) p ls n x).cqs (cs x)).length+j := ⟨k+1,by omega⟩
  induction j generalizing n with
  | zero => exact ⟨n,hj⟩
  | succ j ih =>
      rcases Nat.lt_or_ge k ((Run.trace (step d) p ls n x).cqs (cs x)).length with hlt|hge
      · exact ⟨n,hlt⟩
      obtain ⟨m,hm⟩ := one_more d cs cr hne p ls h hfair x n (by omega)
      have hnm : n ≤ m := by
        by_contra hlt
        have := (cqs_grow d p ls x m n (by omega) (cs x)).length_le
        omega
      have hposted := (posted_grows d p ls x n m hnm).length_le
      exact ih m (by omega) (by omega)

end Fair

/-- On a connected pair under any schedule in which both threads run again and again, the
completions match the requests exactly if all of these are writes. -/
theorem completions_match_iff (d : Bool) (cs cr : Side → UInt32) (p : Pair)
    (hp : Connected cs cr p) (ls : Nat → Label)
    (hls : ∀ n x wr,ls n=.post x wr → Supported wr) (hfair : ∀ n x,∃ m,n ≤ m ∧ ls m=.turn x) :
    Match d cs cr p ls ↔ ∀ n x wr,ls n=.post x wr → IsWrite wr := by
  constructor
  · intro hmatch n x wr hn
    exact isWrite_of_match d cs cr hp.distinct p ls hls (hp.plain cs cr p) hmatch n x wr hn
  · intro hwrites
    have h := Run.trace_inv (step d) (fun p => ∀ x,Steady (cs x) (cr x) (p x) ∧
      Ordered (cs x) (p x) (p x.other)) p ls (fun n p hp' => step_steady d cs cr p hp' hp.distinct
        (ls n) (fun x wr hn => ⟨hls n x wr hn,hwrites n x wr hn⟩)) (hp.steady cs cr p)
    refine ⟨?_,?_,fun n x => (h n x).1.received⟩
    · intro n x
      obtain ⟨done,hdone,hids⟩ := (h n x).2
      have hexpected : (Run.trace (step d) p ls n x).posted.map expected=
          ((Run.trace (step d) p ls n x).posted.map SendWr.wrId).map .rdmaWrite := by
        rw [List.map_map]
        exact List.map_congr_left fun wr hwr => expected_write wr ((h n x).1.posted wr hwr)
      rw [hexpected,hids,hdone,List.map_append]
      exact List.prefix_append _ _
    · intro n x k hk
      exact completes d cs cr hp.distinct p ls h hfair x n k hk

/-- A pair with send queue 1 and receive queue 2 on either side. -/
def examplePair : Pair := fun _ => {
  thread := {qpn := 0x100,sendCq := some 1,recvCq := some 2}
  mem := fun _ => 0
  table := [] }

/-- One request of the left side, and the two threads in turn. -/
def alternating (wr : SendWr) : Nat → Label
  | 0 => .post .left wr
  | n+1 => if n%2=0 then .turn .right else .turn .left

def aWrite : SendWr := .rdma ⟨⟨7,ibvSendSignaled,0x1000,4,0,0,.rdmaWrite⟩,0x2000,0⟩

def aRead : SendWr := .rdma ⟨⟨8,ibvSendSignaled,0x1000,4,0,0,.rdmaRead⟩,0x2000,0⟩

def aSend : SendWr := .send ⟨9,ibvSendSignaled,0x1000,4,0,0,.send⟩

theorem examplePair_connected : Connected (fun _ => 1) (fun _ => 2) examplePair :=
  ⟨fun _ => rfl,fun _ => rfl,fun _ => by decide,fun _ => rfl,fun _ r hr => (by cases hr),
    fun _ => ⟨rfl,rfl,rfl⟩⟩

theorem alternating_post (wr wr' : SendWr) (n : Nat) (x : Side)
    (h : alternating wr n=.post x wr') : wr'=wr := by
  cases n with
  | zero => exact (Label.post.inj h).2.symm
  | succ n =>
      rw [alternating] at h
      split_ifs at h

theorem alternating_fair (wr : SendWr) (n : Nat) (x : Side) :
    ∃ m,n ≤ m ∧ alternating wr m=.turn x := by
  cases x with
  | left =>
      refine ⟨2*n+2,by omega,?_⟩
      rw [alternating,if_neg (by omega)]
  | right =>
      refine ⟨2*n+1,by omega,?_⟩
      rw [alternating,if_pos (by omega)]

theorem completions_match_iff_alternating :
    Match true (fun _ => 1) (fun _ => 2) examplePair (alternating aWrite) ∧
    ¬Match true (fun _ => 1) (fun _ => 2) examplePair (alternating aRead) := by
  constructor
  · refine (completions_match_iff true _ _ _ examplePair_connected _ ?_
      (alternating_fair aWrite)).mpr ?_
    · intro n x wr hn
      rw [alternating_post aWrite wr n x hn]
      exact ⟨by decide,Or.inl rfl,by decide⟩
    · intro n x wr hn
      rw [alternating_post aWrite wr n x hn]
      exact Or.inl rfl
  · rw [completions_match_iff true _ _ _ examplePair_connected _ ?_ (alternating_fair aRead)]
    · intro hwrites
      have := hwrites 0 .left aRead rfl
      simp [IsWrite,aRead,SendWrRdma.opcode] at this
    · intro n x wr hn
      rw [alternating_post aRead wr n x hn]
      exact ⟨by decide,Or.inr (Or.inr rfl),by decide⟩

/-- A send is completed as a write, and a read on the receive queue. -/
theorem aSend_aRead_mismatched :
    let p := Run.run (step true) examplePair
      [.postRecv .right ⟨1,0x3000,4,0⟩,.post .left aSend,.post .left aRead,.turn .right,.turn .right,
        .turn .left,.turn .left]
    (p .left).cqs 1=[.rdmaWrite 9] ∧ (p .left).cqs 2=[.rdmaRead 8] := by
  decide +kernel

end Completions
end Mock
end BlueRdma

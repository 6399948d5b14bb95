import BlueRdma.Framework.Run
import BlueRdma.Verbs.Mock.Ctx

namespace BlueRdma
namespace Mock
namespace Receives

inductive Label
  | createCq
  | createQp (attr : IbvQpInitAttr) (key : UInt8)
  | postRecv (qpn : UInt32) (wr : RecvWr)
  | drain (thread : Nat)
  | sendArrives (thread : Nat) (req : SendReq)

/-- A posted receive, with the QP it was posted to and the thread whose channel took it. -/
structure Posted where
  qpn : UInt32
  wr : RecvWr
  thread : Nat

/-- The device, what was posted and accepted, and the threads at which sends have arrived. -/
structure State where
  host : Host := {}
  posted : List Posted := []
  arrivals : List Nat := []

namespace State

/-- The receives posted to a QP. -/
def postedTo (s : State) (qpn : UInt32) : List RecvWr :=
  (s.posted.filter (fun p => p.qpn=qpn)).map Posted.wr

/-- The receives posted, to whatever QP, while the thread was the last one. -/
def routed (s : State) (thread : Nat) : List RecvWr :=
  (s.posted.filter (fun p => p.thread=thread)).map Posted.wr

/-- What a send makes the thread of a QP do; it does not read memory. -/
def turn? (s : State) (thread : Nat) (req : SendReq) : Option Turn :=
  s.host.threads[thread]?.bind (fun t => t.handle (fun _ => 0) (.sendReq req))

end State

def step (d : Bool) (s : State) : Label → State
  | .createCq => {s with host := (s.host.createCq d).next}
  | .createQp attr key => {s with host := (s.host.createQp d attr key).next}
  | .postRecv qpn wr =>
    let c := s.host.postRecv qpn wr
    {s with
      host := c.next
      posted := match s.host.ctx.qpLocalTaskTx,c.result with
        | some thread,some (.ok ()) => s.posted++[⟨qpn,wr,thread⟩]
        | _,_ => s.posted}
  | .drain thread => {s with host.threads := s.host.threads.modify thread QpThread.drain}
  | .sendArrives thread req => match s.turn? thread req with
    | none => s
    | some turn => {s with
      host.threads := s.host.threads.set thread turn.thread
      arrivals := s.arrivals++[thread]}

/-- QPs are created without a panic, and a send arrives when its thread has a receive. -/
def Allowed (d : Bool) (s : State) : Label → Prop
  | .createQp attr key => ∃ qpn,(s.host.createQp d attr key).result=some (.ok qpn)
  | .sendArrives thread _ => ∃ t,s.host.threads[thread]?=some t ∧ t.recvReqs≠[]
  | _ => True

/-- The send that comes as number `k` to a QP is written to the buffer of the receive posted to this
QP as number `k`, and a completion for it names that receive. -/
def Right (s : State) : Label → Prop
  | .sendArrives thread req => ∃ t wr turn,s.host.threads[thread]?=some t ∧
    (s.postedTo t.qpn)[s.arrivals.count thread]?=some wr ∧ s.turn? thread req=some turn ∧
    turn.write=some (wr.addr,req.data) ∧
    ∀ cq c,turn.completion=some (cq,c) → c=.recv wr.wrId req.imm
  | _ => True

/-- The receive posted as number `k` while the QP was the last one has the buffer of the receive
posted to the QP as number `k`, and the sender uses the identifier of the latter. -/
def Agrees (s : State) : Label → Prop
  | .sendArrives thread req => ∃ t wr x,s.host.threads[thread]?=some t ∧
    (s.postedTo t.qpn)[s.arrivals.count thread]?=some wr ∧
    (s.routed thread)[s.arrivals.count thread]?=some x ∧ x.addr=wr.addr ∧
    (t.recvCq.isSome → req.wrId=wr.wrId)
  | _ => True

/-- A thread has what went through its channel, except for what has been consumed. -/
structure Inv (s : State) : Prop where
  known : ∀ thread,s.host.ctx.qpLocalTaskTx=some thread → thread < s.host.threads.length
  fresh : ∀ thread,s.host.threads.length≤thread → s.routed thread=[] ∧ s.arrivals.count thread=0
  held : ∀ thread t,s.host.threads[thread]?=some t → t.status=.running ∧
    s.arrivals.count thread≤(s.routed thread).length ∧
    (s.routed thread).drop (s.arrivals.count thread)=t.recvReqs++t.tasks

theorem init_inv : Inv {} :=
  ⟨by simp,by simp [State.routed],by simp⟩

/-- A new QP comes with a thread, and its channel is the one from then on. -/
theorem createQp_thread (d : Bool) (h : Host) (attr : IbvQpInitAttr) (key : UInt8) (qpn : UInt32)
    (hok : (h.createQp d attr key).result=some (.ok qpn)) :
    ∃ sendCq recvCq,
      (h.createQp d attr key).next.threads=h.threads++[⟨qpn,sendCq,recvCq,[],[],.running⟩] ∧
      (h.createQp d attr key).next.ctx.qpLocalTaskTx=some h.threads.length := by
  unfold Host.createQp at hok ⊢
  split at hok
  · cases hok
  dsimp only at hok ⊢
  split at hok
  · cases hok
  split at hok
  · cases hok
  split_ifs at hok ⊢ with hconn
  obtain rfl := Except.ok.inj (Option.some.inj hok)
  exact ⟨_,_,rfl,rfl⟩

/-- The thread of a send that arrives, with the receive it will take. -/
theorem Inv.turn (s : State) (h : Inv s) (thread : Nat) (t : QpThread) (req : SendReq)
    (ht : s.host.threads[thread]?=some t) (hne : t.recvReqs≠[]) :
    ∃ x rest,t.recvReqs=x::rest ∧ (s.routed thread)[s.arrivals.count thread]?=some x ∧
      s.turn? thread req=some ⟨{t with recvReqs := rest},some (x.addr,req.data),
        t.recvCq.map (fun cq => (cq,.recv req.wrId req.imm)),
        some (.writeResp ⟨req.wrId,req.ackReq⟩)⟩ := by
  obtain ⟨x,rest,hcons⟩ := List.exists_cons_of_ne_nil hne
  obtain ⟨-,-,hheld⟩ := h.held thread t ht
  refine ⟨x,rest,hcons,?_,?_⟩
  · rw [← List.head?_drop,hheld,hcons]
    rfl
  · rw [State.turn?,ht,Option.bind_some,QpThread.handle,hcons]

theorem right_iff (d : Bool) (s : State) (l : Label) (hl : Allowed d s l) (h : Inv s) :
    Right s l ↔ Agrees s l := by
  cases l with
  | sendArrives thread req =>
      obtain ⟨t,ht,hne⟩ := hl
      obtain ⟨x,rest,-,hx,hturn⟩ := h.turn s thread t req ht hne
      constructor
      · rintro ⟨t',wr,turn,ht',hwr,hturn',hwrite,hcompletion⟩
        obtain rfl := Option.some.inj (ht.symm.trans ht')
        obtain rfl := Option.some.inj (hturn.symm.trans hturn')
        refine ⟨t,wr,x,ht,hwr,hx,congrArg Prod.fst (Option.some.inj hwrite),?_⟩
        intro hsome
        obtain ⟨cq,hcq⟩ := Option.isSome_iff_exists.mp hsome
        have hc := hcompletion cq _ (by rw [hcq]; rfl)
        exact (Completion.recv.inj hc).1
      · rintro ⟨t',wr,x',ht',hwr,hx',haddr,hid⟩
        obtain rfl := Option.some.inj (ht.symm.trans ht')
        obtain rfl := Option.some.inj (hx.symm.trans hx')
        refine ⟨t,wr,_,ht,hwr,hturn,by rw [haddr],?_⟩
        intro cq c hc
        obtain ⟨cq',hcq,heq⟩ := Option.map_eq_some_iff.mp hc
        obtain ⟨-,rfl⟩ := Prod.mk.inj heq
        rw [hid (by rw [hcq]; rfl)]
  | _ => exact Iff.rfl

theorem step_createQp (d : Bool) (s : State) (h : Inv s) (attr : IbvQpInitAttr) (key : UInt8)
    (qpn : UInt32) (hok : (s.host.createQp d attr key).result=some (.ok qpn)) :
    Inv (step d s (.createQp attr key)) := by
  obtain ⟨sendCq,recvCq,hthreads,htx⟩ := createQp_thread d s.host attr key qpn hok
  refine ⟨?_,?_,?_⟩
  · intro thread hthread
    change (s.host.createQp d attr key).next.ctx.qpLocalTaskTx=some thread at hthread
    change thread<(s.host.createQp d attr key).next.threads.length
    rw [htx] at hthread
    rw [hthreads,List.length_append,← Option.some.inj hthread]
    exact Nat.lt_succ_self _
  · intro thread hlen
    change (s.host.createQp d attr key).next.threads.length≤thread at hlen
    rw [hthreads,List.length_append] at hlen
    exact h.fresh thread (by omega)
  · intro thread t ht
    change (s.host.createQp d attr key).next.threads[thread]?=some t at ht
    rw [hthreads] at ht
    rcases Nat.lt_trichotomy thread s.host.threads.length with hlt|rfl|hgt
    · rw [List.getElem?_append_left hlt] at ht
      exact h.held thread t ht
    · rw [List.getElem?_concat_length] at ht
      obtain rfl := Option.some.inj ht
      obtain ⟨hrouted,hcount⟩ := h.fresh s.host.threads.length le_rfl
      change _ ∧ s.arrivals.count _≤(s.routed _).length ∧ (s.routed _).drop _=_
      rw [hrouted]
      exact ⟨rfl,hcount.le,List.drop_nil⟩
    · rw [List.getElem?_eq_none (by rw [List.length_append]; exact hgt)] at ht
      cases ht

theorem step_postRecv (d : Bool) (s : State) (h : Inv s) (qpn : UInt32) (wr : RecvWr) :
    Inv (step d s (.postRecv qpn wr)) := by
  cases htx : s.host.ctx.qpLocalTaskTx with
  | none =>
      have hstep : step d s (.postRecv qpn wr)=s := by
        simp only [step,Host.postRecv,htx]
      rw [hstep]
      exact h
  | some thread =>
      have hlt := h.known thread htx
      obtain ⟨hrun,-⟩ := h.held thread _ (List.getElem?_eq_getElem hlt)
      have hstep : step d s (.postRecv qpn wr)={s with
          host.threads := s.host.threads.modify thread (fun x => {x with tasks := x.tasks++[wr]})
          posted := s.posted++[⟨qpn,wr,thread⟩]} := by
        simp only [step,Host.postRecv,htx,List.getElem?_eq_getElem hlt,Option.map_some,hrun]
      have hrouted (u : Nat) : (step d s (.postRecv qpn wr)).routed u=
          s.routed u++if thread=u then [wr] else [] := by
        rw [hstep]
        simp only [State.routed,List.filter_append,List.map_append]
        congr 1
        by_cases hu : thread=u <;> simp [hu]
      rw [hstep] at hrouted ⊢
      refine ⟨?_,?_,?_⟩
      · intro u hu
        rw [List.length_modify]
        exact h.known u hu
      · intro u hu
        rw [List.length_modify] at hu
        rw [hrouted,if_neg (by omega),List.append_nil]
        exact h.fresh u hu
      · intro u t ht
        rw [List.getElem?_modify] at ht
        obtain ⟨t₀,ht₀,rfl⟩ := Option.map_eq_some_iff.mp ht
        obtain ⟨hrun,hcount,hheld⟩ := h.held u t₀ ht₀
        rw [hrouted,List.length_append]
        dsimp only at hcount ⊢
        rw [List.drop_append_of_le_length hcount,hheld]
        by_cases hu : thread=u
        · rw [if_pos hu,if_pos hu,List.append_assoc]
          exact ⟨hrun,Nat.le_add_right_of_le hcount,rfl⟩
        · rw [if_neg hu,if_neg hu,List.append_nil]
          exact ⟨hrun,Nat.le_add_right_of_le hcount,rfl⟩

theorem step_drain (d : Bool) (s : State) (h : Inv s) (thread : Nat) :
    Inv (step d s (.drain thread)) := by
  refine ⟨?_,?_,?_⟩
  · intro u hu
    change u<(s.host.threads.modify thread QpThread.drain).length
    rw [List.length_modify]
    exact h.known u hu
  · intro u hu
    change (s.host.threads.modify thread QpThread.drain).length≤u at hu
    rw [List.length_modify] at hu
    exact h.fresh u hu
  · intro u t ht
    change (s.host.threads.modify thread QpThread.drain)[u]?=some t at ht
    rw [List.getElem?_modify] at ht
    obtain ⟨t₀,ht₀,rfl⟩ := Option.map_eq_some_iff.mp ht
    have hheld := h.held u t₀ ht₀
    by_cases hu : thread=u
    · rw [if_pos hu]
      refine ⟨hheld.1,hheld.2.1,?_⟩
      rw [QpThread.drain,List.append_nil]
      exact hheld.2.2
    · rw [if_neg hu]
      exact hheld

theorem step_sendArrives (d : Bool) (s : State) (h : Inv s) (thread : Nat) (t : QpThread)
    (req : SendReq) (ht : s.host.threads[thread]?=some t) (hne : t.recvReqs≠[]) :
    Inv (step d s (.sendArrives thread req)) := by
  obtain ⟨x,rest,hcons,hx,hturn⟩ := h.turn s thread t req ht hne
  have hstep : step d s (.sendArrives thread req)={s with
      host.threads := s.host.threads.set thread {t with recvReqs := rest}
      arrivals := s.arrivals++[thread]} := by
    simp only [step,hturn]
  have hlt : thread < s.host.threads.length := (List.getElem?_eq_some_iff.mp ht).1
  rw [hstep]
  refine ⟨?_,?_,?_⟩
  · intro u hu
    rw [List.length_set]
    exact h.known u hu
  · intro u hu
    rw [List.length_set] at hu
    obtain ⟨hrouted,hcount⟩ := h.fresh u hu
    refine ⟨hrouted,?_⟩
    rw [List.count_append,hcount,List.count_singleton,if_neg (by simp; omega)]
  · intro u t' ht'
    change (s.host.threads.set thread _)[u]?=some t' at ht'
    rw [List.count_append,List.count_singleton]
    by_cases hu : thread=u
    · subst hu
      rw [List.getElem?_set_self hlt] at ht'
      obtain rfl := Option.some.inj ht'
      obtain ⟨hrun,-,hheld⟩ := h.held thread t ht
      simp only [beq_self_eq_true,if_true]
      refine ⟨hrun,(List.getElem?_eq_some_iff.mp hx).1,?_⟩
      change (s.routed thread).drop (s.arrivals.count thread+1)=rest++t.tasks
      rw [← List.tail_drop,hheld,hcons]
      rfl
    · rw [List.getElem?_set_ne hu] at ht'
      rw [if_neg (by simpa using hu)]
      exact h.held u t' ht'

theorem step_inv (d : Bool) (s : State) (l : Label) (hl : Allowed d s l) (h : Inv s) :
    Inv (step d s l) := by
  cases l with
  | createCq =>
      have hsame : (s.host.createCq d).next.threads=s.host.threads ∧
          (s.host.createCq d).next.ctx.qpLocalTaskTx=s.host.ctx.qpLocalTaskTx := by
        rw [Host.createCq]
        split_ifs <;> exact ⟨rfl,rfl⟩
      refine ⟨?_,?_,?_⟩
      all_goals
        simp only [step,hsame]
      · exact h.known
      · exact h.fresh
      · exact h.held
  | createQp attr key =>
      obtain ⟨qpn,hok⟩ := hl
      exact step_createQp d s h attr key qpn hok
  | postRecv qpn wr => exact step_postRecv d s h qpn wr
  | drain thread => exact step_drain d s h thread
  | sendArrives thread req =>
      obtain ⟨t,ht,hne⟩ := hl
      exact step_sendArrives d s h thread t req ht hne

/-- Over all interleavings of posted receives and arriving sends at the QPs of one device, every
send is matched with its receive exactly if what was posted while its QP was the last one agrees
with what was posted to the QP. -/
theorem receives_matched_iff (d : Bool) (ls : List Label)
    (hls : Run.Along (step d) (Allowed d) {} ls) :
    Run.Along (step d) Right {} ls ↔ Run.Along (step d) Agrees {} ls :=
  Run.along_iff_of_allowed (step d) (Allowed d) Right Agrees Inv (right_iff d)
    (fun s l hl _ => step_inv d s l hl) {} ls hls init_inv

/-- Two QPs with a receive each, and a send to the second one. -/
def twoQps : List Label :=
  [.createCq,.createCq,.createQp ⟨2,some 1,some 2⟩ 0,.createQp ⟨2,some 1,some 2⟩ 0,
    .postRecv 0x100 ⟨1,0x1000,64,0⟩,.postRecv 0x200 ⟨2,0x2000,64,0⟩,.drain 1]

def toSecond : SendReq := ⟨2,[9],none,true⟩

theorem twoQps_allowed :
    Run.Along (step true) (Allowed true) {} (twoQps++[.sendArrives 1 toSecond]) := by
  refine ⟨trivial,trivial,⟨0x100,by decide +kernel⟩,⟨0x200,by decide +kernel⟩,trivial,trivial,trivial,
    ?_,trivial⟩
  obtain ⟨t,ht⟩ : ∃ t,(Run.run (step true) {} twoQps).host.threads[1]?=some t :=
    Option.isSome_iff_exists.mp (by decide +kernel)
  refine ⟨t,ht,?_⟩
  have hreqs : (Run.run (step true) {} twoQps).host.threads[1]?.map QpThread.recvReqs=
      some [⟨1,0x1000,64,0⟩,⟨2,0x2000,64,0⟩] := by decide +kernel
  rw [ht] at hreqs
  rw [Option.some.inj hreqs]
  simp

theorem receives_matched_iff_twoQps :
    Run.Along (step true) Right {} (twoQps++[.sendArrives 1 toSecond]) ↔
      Run.Along (step true) Agrees {} (twoQps++[.sendArrives 1 toSecond]) :=
  receives_matched_iff true _ twoQps_allowed

/-- The send to the second QP goes to the buffer that was posted to the first one. -/
theorem twoQps_mismatched :
    let s := Run.run (step true) {} twoQps
    s.host.threads[1]?.map QpThread.qpn=some 0x200 ∧ s.postedTo 0x200=[⟨2,0x2000,64,0⟩] ∧
      (s.turn? 1 toSecond).bind Turn.write=some (0x1000,[9]) := by
  decide +kernel

end Receives
end Mock
end BlueRdma

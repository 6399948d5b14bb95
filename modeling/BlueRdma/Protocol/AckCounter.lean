import BlueRdma.Protocol.AckAccount

namespace BlueRdma
open MessageTracker

namespace AckCounter

/-- The send events of the tracker that the next task of the completion worker makes due. -/
def maturing (n : State) : List (SendEvent × Nat) :=
  match n.state .completion,n.inbox .completion with
  | some s,(.completion (.ackSend p),_)::_ => s.2.send.inner.takeWhile (due p)
  | _,_ => []

/-- The count of the timeout worker if its next task is a new request. -/
def counting (n : State) : Option Nat :=
  match n.state .ackTimeout,n.inbox .ackTimeout with
  | some s,(.timeout .newAckReq,_)::_ => some s.1.outstandingAckReqCnt.toNat
  | _,_ => none

/-- Messages only the workers themselves send. -/
def Internal : Msg → Bool
  | .timeout .ack | .timeout .newAckReq | .completion (.register (.send _)) => true
  | _ => false

/-- An acknowledged PSN makes a send event due only after a chunk of its request has been handed
to the device, and the count is below its limit when a request is announced. -/
def Allowed (n : State) : Label → Prop
  | .post x => Internal x.1=false ∧ x.2=none
  | .take .completion _ => ∀ y∈maturing n,y.2∈handed n.log
  | .take .ackTimeout _ => ∀ c∈counting n,c+1<2^64
  | _ => True

instance (n : State) (l : Label) : Decidable (Allowed n l) :=
  match l with
  | .post x => inferInstanceAs (Decidable (Internal x.1=false ∧ x.2=none))
  | .take .completion _ => inferInstanceAs (Decidable (∀ y∈maturing n,y.2∈handed n.log))
  | .take .ackTimeout _ => Option.decidableForallMem (counting n)
  | .take .rdmaWrite _ | .take .metaReport _ | .take .packetRetransmit _ | .take .ackResponder _
  | .send _ | .crash _ => inferInstanceAs (Decidable True)

theorem plain_of_posted (x : Msg × Option Nat) (hx : Internal x.1=false) (hnone : x.2=none) :
    Plain x ∧ x.1≠.timeout .ack := by
  obtain ⟨m,k⟩ := x
  obtain rfl : k=none := hnone
  have hm : ∀ m',Internal m'=true → m≠m' := by
    rintro m' hm' rfl
    rw [hm'] at hx
    cases hx
  exact ⟨plain_of_none m (fun e => hm _ rfl) (hm _ rfl),hm _ rfl⟩

theorem Plain.fresh (x : Msg × Option Nat) (hx : Plain x) (L : Log) :
    ∀ k∈AckCounter.registered [x],k∉AckCounter.registered L := by
  rw [hx.registered]
  exact fun k hk => absurd hk List.not_mem_nil

/-- Numbered messages are none of the plain ones. -/
theorem Plain.logs (x : Msg × Option Nat) (hx : Plain x) (L : Log) :
    AckCounter.registered (L++[x])=AckCounter.registered L ∧
    AckCounter.announced (L++[x])=AckCounter.announced L ∧
    AckCounter.handed (L++[x])=AckCounter.handed L := by
  rw [registered_append,announced_append,handed_append,hx.registered,hx.announced,hx.handed]
  exact ⟨List.append_nil _,List.append_nil _,List.append_nil _⟩

theorem Inv.post (qp : QpAttr) (n : State) (x : Msg × Option Nat) (h : Inv n)
    (hx : Internal x.1=false) (hnone : x.2=none) : Inv (n.put (prog qp) x) := by
  obtain ⟨hplain,hack⟩ := plain_of_posted x hx hnone
  obtain ⟨hr,ha,hh⟩ := hplain.logs x n.log
  refine ⟨h.kinds,?_,?_,?_⟩
  · exact h.numbered.frame n _ hr ha hh (fun hn s hs => ⟨hn,hs⟩) (fun o ho => ho)
  · exact h.accounted.put qp n _ x rfl rfl rfl rfl (hplain.fresh x n.log)
      (fun e he => absurd he (hplain.event e)) hack
  · exact h.timed.put qp n _ x rfl rfl rfl id (fun o ho => ⟨o,ho,rfl⟩) (fun he => absurd he hack)

theorem Inv.die (n : State) (j : Worker) (h : Inv n) : Inv (n.kill j) := by
  have hidle : ∀ k,(n.kill j).turn k=none → ∀ s,(n.kill j).state k=some s →
      n.turn k=none ∧ n.state k=some s := by
    intro k hn s hs
    obtain ⟨-,hs,ht⟩ := n.kill_state j k s hs
    exact ⟨ht ▸ hn,hs⟩
  have hturn := fun k => n.kill_turn j k
  refine ⟨fun w o ho => h.kinds w o (hturn w o ho),?_,?_,?_⟩
  · exact h.numbered.frame n _ rfl rfl rfl (hidle _) (hturn _)
  · exact h.accounted.frame n _ rfl rfl (hidle _) (hturn _)
  · exact h.timed.frame n _ rfl rfl (hidle _) (hturn _)

theorem Inv.finish (n : State) (j : Worker) (nxt : Option (j.State × Aux j)) (h : Inv n)
    (ht : n.turn j=some ⟨[],nxt⟩) : Inv (n.finish j nxt) := by
  have hidle : ∀ k≠j,(n.finish j nxt).turn k=none → ∀ s,(n.finish j nxt).state k=some s →
      n.turn k=none ∧ n.state k=some s := by
    intro k hk hn s hs
    rw [Threads.finish_turn_of_ne n j k nxt hk] at hn
    rw [Threads.finish_state_of_ne n j k nxt hk] at hs
    exact ⟨hn,hs⟩
  have hturn : ∀ k o,(n.finish j nxt).turn k=some o → n.turn k=some o := by
    intro k o ho
    by_cases hk : k=j
    · subst hk
      rw [Threads.finish_turn_self] at ho
      cases ho
    · rwa [Threads.finish_turn_of_ne n j k nxt hk] at ho
  refine ⟨fun w o ho => h.kinds w o (hturn w o ho),?_,?_,?_⟩
  · by_cases hj : j=.rdmaWrite
    · subst hj
      exact h.numbered.finish n nxt ht
    · exact h.numbered.frame n _ rfl rfl rfl (hidle _ (Ne.symm hj)) (hturn _)
  · by_cases hj : j=.completion
    · subst hj
      exact h.accounted.finish n nxt ht
    · exact h.accounted.frame n _ rfl rfl (hidle _ (Ne.symm hj)) (hturn _)
  · by_cases hj : j=.ackTimeout
    · subst hj
      exact h.timed.finish n nxt ht
    · exact h.timed.frame n _ rfl rfl (hidle _ (Ne.symm hj)) (hturn _)

theorem Inv.take (qp : QpAttr) (n : State) (j : Worker) (c : Nat) (s : j.State × Aux j)
    (x : Msg × Option Nat) (rest : Log) (h : Inv n) (hs : n.state j=some s) (ht : n.turn j=none)
    (hx : n.inbox j=x::rest) (hl : Allowed n (.take j c)) :
    Inv (n.takeUp j ((prog qp).process j c s x) rest) := by
  have hidle : ∀ k≠j,(n.takeUp j ((prog qp).process j c s x) rest).turn k=none →
      ∀ s',(n.takeUp j ((prog qp).process j c s x) rest).state k=some s' →
      n.turn k=none ∧ n.state k=some s' := by
    intro k hk hn s' hs'
    rw [Threads.takeUp_turn_of_ne n j k _ rest hk] at hn
    exact ⟨hn,hs'⟩
  have hturn : ∀ k≠j,∀ o,(n.takeUp j ((prog qp).process j c s x) rest).turn k=some o →
      n.turn k=some o := by
    intro k hk o ho
    rwa [Threads.takeUp_turn_of_ne n j k _ rest hk] at ho
  refine ⟨?_,?_,?_,?_⟩
  · intro w o ho
    by_cases hw : w=j
    · subst hw
      rw [Threads.takeUp_turn_self] at ho
      obtain rfl := Option.some.inj ho
      intro y hy
      obtain ⟨m,hm,rfl⟩ := List.mem_map.mp hy
      refine ⟨Driver.process_emits qp w c s.1 x.1 m hm,?_⟩
      intro hw
      cases w <;> first | exact absurd rfl hw | rfl
    · exact h.kinds w o (hturn w hw o ho)
  · by_cases hj : j=.rdmaWrite
    · subst hj
      exact h.numbered.take qp n c s x rest hs ht
    · exact h.numbered.frame n _ rfl rfl rfl (hidle _ (Ne.symm hj)) (hturn _ (Ne.symm hj))
  · by_cases hj : j=.completion
    · subst hj
      refine h.accounted.take qp n c s x rest hs ht hx ?_
      intro p hp y hy
      have hdue : y∈maturing n := by
        obtain ⟨m,k⟩ := x
        obtain rfl : m=_ := hp
        rw [maturing,hs,hx]
        exact hy
      have hmap : y.2∈s.2.send.inner.map Prod.snd :=
        List.mem_map_of_mem ((List.takeWhile_prefix _).subset hy)
      obtain ⟨hheld,-⟩ := h.accounted.idle ht s hs
      refine h.numbered.paired y.2 (hheld.registered _ ?_) (hl y hdue)
      exact List.mem_append_right _ (List.mem_append_right _ (List.mem_append_left _ hmap))
    · exact h.accounted.frame n _ rfl
        (Threads.takeUp_inbox_of_ne n j _ _ rest (Ne.symm hj)) (hidle _ (Ne.symm hj))
        (hturn _ (Ne.symm hj))
  · by_cases hj : j=.ackTimeout
    · subst hj
      refine h.timed.take qp n c s x rest hs ht hx ?_
      intro hm
      refine hl _ ?_
      obtain ⟨m,k⟩ := x
      obtain rfl : m=_ := hm
      rw [counting,hs,hx]
      rfl
    · exact h.timed.frame n _ rfl
        (Threads.takeUp_inbox_of_ne n j _ _ rest (Ne.symm hj)) (hidle _ (Ne.symm hj))
        (hturn _ (Ne.symm hj))

/-- What a worker may send, by the worker. -/
theorem sent_kinds (n : State) (j : Worker) (x : Msg × Option Nat) (ms : Log)
    (nxt : Option (j.State × Aux j)) (h : Inv n) (ht : n.turn j=some ⟨x::ms,nxt⟩) :
    (j≠.rdmaWrite → Plain x) ∧ (j≠.completion → x.1≠.timeout .ack) ∧
    (∀ k∈registered [x],k∉registered n.log) ∧
    (∀ e,x.1=.completion (.register (.send e)) → ∃ k,x.2=some k) := by
  obtain ⟨hem,hnone⟩ := h.kinds j _ ht x List.mem_cons_self
  have hplain : j≠.rdmaWrite → Plain x := fun hj => plain_of_emits j x hj hem (hnone hj)
  refine ⟨hplain,?_,?_,?_⟩
  · intro hj heq
    rw [heq] at hem
    cases hem
    exact hj rfl
  · by_cases hj : j=.rdmaWrite
    · subst hj
      obtain ⟨pre,g,hturn⟩ := h.numbered.turning _ ht
      exact hturn.fresh
    · exact (hplain hj).fresh x n.log
  · intro e he
    by_cases hj : j=.rdmaWrite
    · subst hj
      obtain ⟨pre,g,hturn⟩ := h.numbered.turning _ ht
      exact ⟨g,hturn.number x List.mem_cons_self⟩
    · exact absurd he ((hplain hj).event e)

theorem Inv.send (qp : QpAttr) (n : State) (j : Worker) (x : Msg × Option Nat) (ms : Log)
    (nxt : Option (j.State × Aux j)) (h : Inv n) (ht : n.turn j=some ⟨x::ms,nxt⟩) :
    Inv (n.sendNext (prog qp) j x ⟨ms,nxt⟩) := by
  obtain ⟨hplain,hack,hfresh,htag⟩ := sent_kinds n j x ms nxt h ht
  have hother : ∀ k≠j,(n.sendNext (prog qp) j x ⟨ms,nxt⟩).turn k=n.turn k :=
    fun k hk => Threads.sendNext_turn_of_ne (prog qp) n j k x ⟨ms,nxt⟩ hk
  refine ⟨?_,?_,?_,?_⟩
  · intro w o ho y hy
    by_cases hw : w=j
    · subst hw
      rw [Threads.sendNext_turn_self] at ho
      obtain rfl := Option.some.inj ho
      exact h.kinds w _ ht y (List.mem_cons_of_mem _ hy)
    · rw [hother w hw] at ho
      exact h.kinds w o ho y hy
  · by_cases hj : j=.rdmaWrite
    · subst hj
      exact h.numbered.send qp n x ms nxt ht
    · obtain ⟨hr,ha,hh⟩ := (hplain hj).logs x n.log
      exact h.numbered.frame n _ hr ha hh
        (fun hn s hs => ⟨hother _ (Ne.symm hj) ▸ hn,hs⟩)
        (fun o ho => hother _ (Ne.symm hj) ▸ ho)
  · by_cases hj : j=.completion
    · subst hj
      exact h.accounted.send qp n x ms nxt ht (hplain (by decide))
    · exact h.accounted.put qp n _ x rfl rfl rfl (hother _ (Ne.symm hj)) hfresh htag (hack hj)
  · have hpaid : x.1=.timeout .ack →
        (tasks n.log).count .ack+1≤(tasks n.log).count .newAckReq := by
      intro heq
      by_cases hj : j=.completion
      · subst hj
        obtain ⟨P,hP,hann,hle,-⟩ := h.accounted.turning _ ht
        have hone : (tasks (x::ms)).count .ack=(tasks ms).count .ack+1 := by
          obtain ⟨m,k⟩ := x
          obtain rfl : m=_ := heq
          exact List.count_cons_self
        have := paid n.log P hP hann
        dsimp only at hle
        omega
      · exact absurd heq (hack hj)
    refine h.timed.put qp n _ x rfl rfl rfl ?_ ?_ hpaid
    · intro hn
      by_cases hj : j=.ackTimeout
      · subst hj
        rw [Threads.sendNext_turn_self] at hn
        cases hn
      · rwa [hother _ (Ne.symm hj)] at hn
    · intro o ho
      by_cases hj : j=.ackTimeout
      · subst hj
        rw [Threads.sendNext_turn_self] at ho
        obtain rfl := Option.some.inj ho
        exact ⟨_,ht,rfl⟩
      · rw [hother _ (Ne.symm hj)] at ho
        exact ⟨o,ho,rfl⟩

theorem step_inv (qp : QpAttr) (n : State) (l : Label) (hl : Allowed n l) (h : Inv n) :
    Inv (n.step (prog qp) l) := by
  have hmove := Threads.step_move (prog qp) n l
  generalize n.step (prog qp) l=n' at hmove
  cases hmove with
  | idle => exact h
  | post x => exact h.post qp n x hl.1 hl.2
  | take j c s x rest hs ht hx => exact h.take qp n j c s x rest hs ht hx hl
  | send j x ms nxt ht => exact h.send qp n j x ms nxt ht
  | finish j nxt ht => exact h.finish n j nxt ht
  | die l j => exact h.die n j

theorem init_inv (config : AckTimeoutConfig) : Inv (init config) := by
  have hturn : ∀ w o,(init config).turn w≠some o := by
    intro w o ho
    cases ho
  refine ⟨fun w o ho => absurd ho (hturn w o),?_,?_,?_⟩
  · refine ⟨?_,List.nodup_nil,?_,fun o ho => absurd ho (hturn _ o)⟩
    · intro k hk
      cases hk
    · intro _ s hs k hk
      rcases hk with hk|hk|hk <;> cases hk
  · refine ⟨?_,?_,fun o ho => absurd ho (hturn _ o)⟩
    · intro x hx
      cases hx
    · intro _ s hs
      obtain rfl := Option.some.inj hs
      refine ⟨⟨rfl,rfl,List.nodup_nil,?_,?_⟩,le_rfl⟩ <;> intro k hk <;> cases hk
  · refine ⟨?_,[],rfl,?_,fun o ho => absurd ho (hturn _ o)⟩
    · intro pre hpre
      rw [List.prefix_nil.mp hpre]
      exact le_rfl
    · intro _ s hs
      obtain rfl := Option.some.inj hs
      rfl

/-- No acknowledgement is taken up by a timeout worker that waits for none. -/
def Safe (n : Threads Worker Worker.State Msg) : Prop :=
  ∀ w,n.state .ackTimeout=some w → n.turn .ackTimeout=none →
    (n.inbox .ackTimeout).head?=some (.timeout .ack) → 0<w.outstandingAckReqCnt.toNat

theorem Inv.safe (n : State) (h : Inv n) : Safe n.erase := by
  intro w hw ht hhead
  obtain ⟨s,hs,rfl⟩ := Option.map_eq_some_iff.mp hw
  have ht : n.turn .ackTimeout=none := Option.map_eq_none_iff.mp ht
  change ((n.inbox .ackTimeout).map Prod.fst).head?=_ at hhead
  rw [List.head?_map] at hhead
  obtain ⟨x,hx,hm⟩ := Option.map_eq_some_iff.mp hhead
  obtain ⟨rest,hrest⟩ := List.head?_eq_some_iff.mp hx
  obtain ⟨ts,hts,hcount,-⟩ := h.timed.counted
  have hbal := h.timed.balanced
  obtain ⟨m,k⟩ := x
  obtain rfl : m=_ := hm
  rw [hts,hrest] at hbal
  exact positive ts (tasks rest) s.1 (hcount ht s hs) hbal

/-- The requests whose send events have become due have been announced. -/
def Preceded (n : State) : Prop :=
  n.turn .completion=none → ∀ s,n.state .completion=some s →
    ∀ k∈s.2.done++s.2.merge.map Prod.snd,k∈announced n.log

end AckCounter

/-- The driver's threads, with a step for each send. -/
def Driver.threads (config : AckTimeoutConfig) : Threads Worker Worker.State Msg where
  state := fun w => some (fresh config w)

open AckCounter in
/-- The counter of outstanding acknowledgements does not underflow in a run in which acknowledged
PSNs make send events due only after a chunk of their request was handed to the device, and every
event that is due was announced before. -/
theorem ack_counter_safe (qp : QpAttr) (config : AckTimeoutConfig) (ls : List Label)
    (h : Run.Along (Threads.step (prog qp)) Allowed (AckCounter.init config) ls) :
    Safe (Run.run (Threads.step (driver qp)) (Driver.threads config) (ls.map ThreadLabel.erase)) ∧
    Preceded (Run.run (Threads.step (prog qp)) (AckCounter.init config) ls) := by
  have hinv := Run.run_inv (Threads.step (prog qp)) Allowed Inv (step_inv qp)
    (AckCounter.init config) ls h (init_inv config)
  have herase := Threads.erase_run (driver qp) (ghost qp) (AckCounter.init config) ls
  change (Run.run (Threads.step (prog qp)) (AckCounter.init config) ls).erase=
    Run.run (Threads.step (driver qp)) (Driver.threads config) (ls.map ThreadLabel.erase) at herase
  rw [← herase]
  exact ⟨hinv.safe,fun ht s hs => (hinv.accounted.idle ht s hs).1.announced⟩

namespace AckCounter

/-- A signalled write of `length` bytes. -/
def signaledWrite (length : UInt32) : SendWrRdma := ⟨⟨1,2,0x1000,length,0,7,.rdmaWrite⟩,0x2000,0⟩

/-- The send worker takes a request up and sends `k` messages. -/
def sends (length : UInt32) (k : Nat) : List Label :=
  [.post (.rdma (.write (signaledWrite length)),none),.take .rdmaWrite 0]++
    List.replicate (k+1) (.send .rdmaWrite)

/-- The completion worker takes up a registration. -/
def registers : List Label := [.take .completion 0,.send .completion]

/-- The peer's acknowledgement up to `psn` arrives, and the completion worker sends `k` messages. -/
def acknowledges (psn : Psn) (k : Nat) : List Label :=
  [.post (.report (.ackRemoteDriver ⟨psn⟩),none),.take .metaReport 0]++
    List.replicate 5 (.send .metaReport)++[.take .completion 0]++List.replicate k (.send .completion)

/-- The timeout worker takes up a task. -/
def counts : List Label := [.take .ackTimeout 0,.send .ackTimeout]

end AckCounter

open AckCounter in
theorem ack_counter_safe_write :
    Run.Along (Threads.step (prog shortPathQp)) Allowed (AckCounter.init .default)
      (sends 256 4++registers++acknowledges ⟨1⟩ 2++counts++counts) ∧
    Safe (Run.run (Threads.step (driver shortPathQp)) (Driver.threads .default)
      ((sends 256 4++registers++acknowledges ⟨1⟩ 2++counts++counts).map ThreadLabel.erase)) ∧
    Preceded (Run.run (Threads.step (prog shortPathQp)) (AckCounter.init .default)
      (sends 256 4++registers++acknowledges ⟨1⟩ 2++counts++counts)) :=
  have h : Run.Along (Threads.step (prog shortPathQp)) Allowed (AckCounter.init .default)
      (sends 256 4++registers++acknowledges ⟨1⟩ 2++counts++counts) := by decide +kernel
  ⟨h,ack_counter_safe shortPathQp .default _ h⟩

open AckCounter in
/-- An empty write is registered but not announced. The acknowledgement of the write after it
completes both, and the second completion is counted down from zero. -/
theorem empty_write_underflows_counter :
    let n := Run.run (Threads.step (driver shortPathQp)) (Driver.threads .default)
      ((sends 0 1++sends 256 4++registers++registers++acknowledges ⟨1⟩ 5++
        counts++counts++counts).map ThreadLabel.erase)
    (n.state .ackTimeout).map QpAckTimeout.outstandingAckReqCnt=some 0 ∧
    n.turn .ackTimeout=none ∧ (n.inbox .ackTimeout).head?=some (.timeout .ack) := by
  decide +kernel

end BlueRdma

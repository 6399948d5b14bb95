import BlueRdma.Protocol.PostedReceives
import BlueRdma.Workers.Device

namespace BlueRdma
open QueuePairMessageTracker CompletionWorker
open scoped List

namespace PostRecvAtomic

abbrev DeviceNet := Net Worker (fun w => QpTable w.State) QpMsg

/-- `HwDeviceCtx::post_recv`. The registration cannot be handed to a worker that has died. -/
def postRecvCall (d : Device) (qpn : UInt32) (wr : RecvWr) (io : ChannelIo) :
    Call Device RdmaError Unit :=
  let c := d.ctx.postRecv qpn wr io
  ⟨d.step (.postRecv qpn wr io),
    if c.next.2=[] ∨ (d.net.state .completion).isSome then c.result else none⟩

/-- The messages about the QP at an index. -/
def ofQp (i : Fin maxQpCnt) (ms : List QpMsg) : List Msg :=
  (ms.filter (fun x => QpTable.index? x.1==some i)).map Prod.snd

/-- The receives that messages register. -/
def registrations (ms : List Msg) : List UInt64 :=
  ms.filterMap (fun | .completion (.register (.postRecv e)) => some e.wrId | _ => none)

/-- The receives of the QP that completions have named. -/
def consumed (i : Fin maxQpCnt) (n : DeviceNet) : List UInt64 := PostedReceives.recvIds (ofQp i n.log)

/-- The receives the completion worker holds for the QP or has waiting in its channel. -/
def held (i : Fin maxQpCnt) (n : DeviceNet) (t : QpTable QueuePairMessageTracker) : List UInt64 :=
  (t i).postRecvQueue.map PostRecvEvent.wrId++registrations (ofQp i (n.inbox .completion))

/-- While the completion worker runs, it holds the receives posted and not yet consumed, in the
order in which they were posted. -/
def Accounted (i : Fin maxQpCnt) (posted : List UInt64) (n : DeviceNet) : Prop :=
  ∀ t,n.state .completion=some t →
    posted.Perm (consumed i n++held i n t) ∧ (held i n t).Sublist posted

/-- A run with the identifiers of the receives whose posting on the QP has succeeded. -/
structure History where
  dev : Device
  posted : List UInt64 := []

def success (i : Fin maxQpCnt) (d : Device) : DeviceLabel → List UInt64
  | .postRecv qpn wr io => match (postRecvCall d qpn wr io).result with
    | some (.ok ()) => if QpTable.index? qpn=some i then [wr.wrId] else []
    | _ => []
  | _ => []

def step (i : Fin maxQpCnt) (h : History) (l : DeviceLabel) : History where
  dev := h.dev.step l
  posted := h.posted++success i h.dev l

def InStep (i : Fin maxQpCnt) (h : History) : Prop := Accounted i h.posted h.dev.net

/-- A receive posted on the QP while the completion worker runs finds the channel of the QP, whose
connection is there or can be made, and the write goes through. -/
def Announced (i : Fin maxQpCnt) (h : History) (l : DeviceLabel) : Prop :=
  ∀ qpn wr io,l=.postRecv qpn wr io → QpTable.index? qpn=some i →
    (h.dev.net.state .completion).isSome=true →
    ∃ tx,h.dev.ctx.postRecvTxTable i=some tx ∧
      (tx.connected=true ∨ io.connect=.ok ()) ∧ io.writeAll=.ok ()

section Lists
variable (i : Fin maxQpCnt)

theorem ofQp_append (ms ms' : List QpMsg) : ofQp i (ms++ms')=ofQp i ms++ofQp i ms' := by
  rw [ofQp,List.filter_append,List.map_append]
  rfl

theorem ofQp_self (qpn : UInt32) (ms : List Msg) (h : QpTable.index? qpn=some i) :
    ofQp i (ms.map (fun m => (qpn,m)))=ms := by
  induction ms with
  | nil => rfl
  | cons m ms ih =>
      rw [List.map_cons,ofQp,List.filter_cons_of_pos (by simp [h]),List.map_cons]
      exact congrArg (m::·) ih

theorem ofQp_other (qpn : UInt32) (ms : List Msg) (h : QpTable.index? qpn≠some i) :
    ofQp i (ms.map (fun m => (qpn,m)))=[] := by
  have hnone : (ms.map (fun m => (qpn,m))).filter (fun x => QpTable.index? x.1==some i)=[] := by
    refine List.filter_eq_nil_iff.mpr ?_
    intro x hx
    obtain ⟨m,-,rfl⟩ := List.mem_map.mp hx
    simpa using h
  rw [ofQp,hnone,List.map_nil]

theorem mem_ofQp (ms : List QpMsg) (m : Msg) (h : m∈ofQp i ms) : ∃ qpn,(qpn,m)∈ms := by
  obtain ⟨x,hx,rfl⟩ := List.mem_map.mp h
  exact ⟨x.1,(List.mem_filter.mp hx).1⟩

theorem registrations_append (ms ms' : List Msg) :
    registrations (ms++ms')=registrations ms++registrations ms' := List.filterMap_append

end Lists

/-- The completions take receives from the end of the queue, one each. -/
theorem completeAll_perm (es : List RecvEvent) (posts posts' : List PostRecvEvent)
    (h : (completeAll es posts).2=some posts') :
    (PostedReceives.ids (completeAll es posts).1++posts'.map PostRecvEvent.wrId).Perm
      (posts.map PostRecvEvent.wrId) ∧ posts'<+:posts := by
  induction es generalizing posts with
  | nil =>
      obtain rfl := Option.some.inj h
      exact ⟨List.Perm.refl _,List.prefix_refl _⟩
  | cons e es ih =>
      rcases hc : complete e posts with _|⟨c,mid⟩
      · rw [completeAll,hc] at h
        cases h
      rw [completeAll_cons e es posts mid c hc] at h ⊢
      obtain ⟨hperm,hpre⟩ := ih mid h
      by_cases he : PostedReceives.takes e=true
      · obtain ⟨x,hx,rfl,hid⟩ := PostedReceives.complete_takes e posts mid c he hc
        have hids : PostedReceives.ids ((e,c)::(completeAll es posts.dropLast).1)=
            x.wrId::PostedReceives.ids (completeAll es posts.dropLast).1 := by
          rw [PostedReceives.ids,List.filterMap_cons,hid]
          rfl
        have hlast := List.dropLast_append_getLast? x hx
        refine ⟨?_,hpre.trans (List.dropLast_prefix posts)⟩
        rw [hids,List.cons_append]
        calc x.wrId::(PostedReceives.ids (completeAll es posts.dropLast).1++
                posts'.map PostRecvEvent.wrId)
            _ ~ x.wrId::posts.dropLast.map PostRecvEvent.wrId := hperm.cons x.wrId
            _ ~ posts.dropLast.map PostRecvEvent.wrId++[x.wrId] :=
              (List.perm_append_singleton _ _).symm
            _ = posts.map PostRecvEvent.wrId := by
              rw [← List.map_singleton,← List.map_append,hlast]
      · obtain ⟨rfl,hid⟩ := PostedReceives.complete_keeps e posts mid c (by simpa using he) hc
        have hids : PostedReceives.ids ((e,c)::(completeAll es mid).1)=
            PostedReceives.ids (completeAll es mid).1 := by
          rw [PostedReceives.ids,List.filterMap_cons,hid]
          rfl
        rw [hids]
        exact ⟨hperm,hpre⟩

/-- What a task of the completion worker does with the receives it holds. -/
theorem process_held (qp : QpAttr) (t t' : QueuePairMessageTracker) (task : CompletionTask)
    (h : (process qp t task).next=some t') :
    (PostedReceives.recvIds (process qp t task).msgs++t'.postRecvQueue.map PostRecvEvent.wrId).Perm
      (t.postRecvQueue.map PostRecvEvent.wrId++registrations [.completion task]) ∧
    (t'.postRecvQueue.map PostRecvEvent.wrId).Sublist
      (t.postRecvQueue.map PostRecvEvent.wrId++registrations [.completion task]) := by
  have hsame (ms : List Msg) (q q' : List UInt64) (hms : PostedReceives.recvIds ms=[]) (hq : q=q') :
      (PostedReceives.recvIds ms++q).Perm q' ∧ q.Sublist q' := by
    subst hq
    rw [hms]
    exact ⟨List.Perm.refl _,List.Sublist.refl _⟩
  cases task with
  | register event =>
      obtain rfl := Option.some.inj h
      refine hsame _ _ _ rfl ?_
      cases event with
      | send e => exact (List.append_nil _).symm
      | recv e => exact (List.append_nil _).symm
      | postRecv e => exact List.map_append
  | ackSend p =>
      rcases process_ackSend_cases qp t p with hproc|⟨es,rest,-,-,hproc⟩ <;> rw [hproc] at h ⊢
      · cases h
      obtain rfl := Option.some.inj h
      refine hsame _ _ _ ?_ (List.append_nil _).symm
      rw [PostedReceives.recvIds,recvPolls_sends]
      rfl
  | ackRecv p =>
      rcases process_ackRecv_cases qp t p with hproc|⟨es,rest,-,-,hproc⟩ <;> rw [hproc] at h ⊢
      · cases h
      obtain ⟨posts',hposts',rfl⟩ := Option.map_eq_some_iff.mp h
      obtain ⟨hperm,hpre⟩ := completeAll_perm _ _ posts' hposts'
      have hids : PostedReceives.recvIds (es.flatMap sendMsgs++
          (completeAll (arrivals t p) t.postRecvQueue).1.flatMap (fun p => recvMsgs p.1 p.2))=
          PostedReceives.ids (completeAll (arrivals t p) t.postRecvQueue).1 := by
        rw [PostedReceives.recvIds,recvPolls_append,recvPolls_sends,recvPolls_recvs,List.nil_append]
        rfl
      have hnone : registrations [.completion (.ackRecv p)]=[] := rfl
      rw [hids,hnone,List.append_nil]
      exact ⟨hperm,hpre.sublist.map _⟩

section Steps
variable (i : Fin maxQpCnt) (posted : List UInt64) (attrs : QpTable QpAttr) (n : DeviceNet)

theorem recvIds_silent (ms : List QpMsg) (h : ∀ x∈ms,PostedReceives.isRecvCq x.2=false) :
    PostedReceives.recvIds (ofQp i ms)=[] := by
  have hnil := PostedReceives.recvIds_eq_nil ((ofQp i ms).map (fun m => (m,0))) (by
    intro y hy
    obtain ⟨m,hm,rfl⟩ := List.mem_map.mp hy
    obtain ⟨qpn,hx⟩ := mem_ofQp i ms m hm
    exact h _ hx)
  rwa [List.map_map,show Prod.fst ∘ (fun m : Msg => (m,0))=id from rfl,List.map_id] at hnil

theorem registrations_silent (ms : List QpMsg)
    (h : ∀ x∈ms,PostedReceives.isRegistration x.2=false) : registrations (ofQp i ms)=[] := by
  refine List.filterMap_eq_nil_iff.mpr ?_
  intro m hm
  obtain ⟨qpn,hx⟩ := mem_ofQp i ms m hm
  have hreg := h _ hx
  split
  · cases hreg
  · rfl

/-- Messages that neither register nor complete receives of the QP do not matter. -/
theorem Accounted.frame (n' : DeviceNet) (ms ys : List QpMsg) (h : Accounted i posted n)
    (hlog : n'.log=n.log++ms) (hms : PostedReceives.recvIds (ofQp i ms)=[])
    (hinbox : n'.inbox .completion=n.inbox .completion++ys)
    (hys : registrations (ofQp i ys)=[])
    (hstate : ∀ t,n'.state .completion=some t → n.state .completion=some t) :
    Accounted i posted n' := by
  intro t ht
  have hconsumed : consumed i n'=consumed i n := by
    rw [consumed,hlog,ofQp_append,PostedReceives.recvIds_append,hms,List.append_nil]
    rfl
  have hheld : held i n' t=held i n t := by
    rw [held,hinbox,ofQp_append,registrations_append,hys,List.append_nil]
    rfl
  rw [hconsumed,hheld]
  exact h t (hstate t ht)

theorem Accounted.post (x : QpMsg) (h : Accounted i posted n)
    (hcq : PostedReceives.isRecvCq x.2=false)
    (hreg : PostedReceives.isRegistration x.2=false ∨ QpTable.index? x.1≠some i) :
    Accounted i posted (n.step (deviceProgram attrs) (.post x)) := by
  have hx : ∀ y∈n.delivered (deviceProgram attrs) [x],y=x :=
    fun y hy => List.mem_singleton.mp ((List.takeWhile_prefix _).subset hy)
  refine h.frame i posted n _ _ _ rfl ?_ rfl ?_ (fun t ht => ht)
  · refine recvIds_silent i _ ?_
    intro y hy
    rw [hx y hy]
    exact hcq
  · have hmem : ∀ y∈Net.addressed (deviceProgram attrs) .completion
        (n.delivered (deviceProgram attrs) [x]),y=x :=
      fun y hy => hx y ((Net.mem_addressed _ _ _ y).mp hy).1
    rcases hreg with hreg|hother
    · refine registrations_silent i _ ?_
      intro y hy
      rw [hmem y hy]
      exact hreg
    · have hnil : ofQp i (Net.addressed (deviceProgram attrs) .completion
          (n.delivered (deviceProgram attrs) [x]))=[] := by
        rw [ofQp,List.filter_eq_nil_iff.mpr,List.map_nil]
        intro y hy
        rw [hmem y hy]
        simpa using hother
      rw [hnil]
      rfl

theorem Accounted.crash (w : Worker) (h : Accounted i posted n) :
    Accounted i posted (n.step (deviceProgram attrs) (.crash w)) := by
  refine h.frame i posted n _ [] [] (List.append_nil _).symm rfl (List.append_nil _).symm rfl ?_
  exact fun t ht => Net.step_crash (deviceProgram attrs) n w .completion t ht

/-- A registration that gets through. -/
theorem Accounted.register (qpn : UInt32) (e : PostRecvEvent) (h : Accounted i posted n)
    (hi : QpTable.index? qpn=some i) (halive : (n.state .completion).isSome=true) :
    Accounted i (posted++[e.wrId])
      (n.step (deviceProgram attrs) (.post (qpn,.completion (.register (.postRecv e))))) := by
  have hreach : n.reaches (deviceProgram attrs) (qpn,.completion (.register (.postRecv e)))=true :=
    halive
  rw [Net.step_reaches _ _ _ hreach]
  intro t ht
  obtain ⟨hperm,hsub⟩ := h t ht
  have hself : ofQp i [(qpn,.completion (.register (.postRecv e)))]=
      [.completion (.register (.postRecv e))] := ofQp_self i qpn [_] hi
  have hconsumed : consumed i (n.send (deviceProgram attrs)
      [(qpn,.completion (.register (.postRecv e)))])=consumed i n := by
    rw [consumed,Net.send,ofQp_append,hself,PostedReceives.recvIds_append]
    exact List.append_nil _
  have hheld : held i (n.send (deviceProgram attrs)
      [(qpn,.completion (.register (.postRecv e)))]) t=held i n t++[e.wrId] := by
    have hinbox : (n.send (deviceProgram attrs)
        [(qpn,.completion (.register (.postRecv e)))]).inbox .completion=
        n.inbox .completion++[(qpn,.completion (.register (.postRecv e)))] := rfl
    rw [held,hinbox,ofQp_append,hself,registrations_append,← List.append_assoc]
    rfl
  rw [hconsumed,hheld,← List.append_assoc]
  exact ⟨hperm.append_right _,hsub.append_right _⟩

theorem emits_silent (w : Worker) (hw : w≠.completion) (m : Msg) (h : Driver.Emits w m) :
    PostedReceives.isRecvCq m=false ∧ PostedReceives.isRegistration m=false := by
  cases h <;> first | exact absurd rfl hw | exact ⟨rfl,rfl⟩

theorem Accounted.work_other (w : Worker) (hw : w≠.completion) (c : Fin maxQpCnt → Nat)
    (t : QpTable w.State) (x : QpMsg) (rest sent : List QpMsg) (n' : DeviceNet)
    (ht : Net.Turn (deviceProgram attrs) n w c t x rest sent n') (h : Accounted i posted n) :
    Accounted i posted n' := by
  have hsilent : ∀ y∈sent,PostedReceives.isRecvCq y.2=false ∧
      PostedReceives.isRegistration y.2=false := by
    intro y hy
    exact emits_silent w hw y.2
      (Driver.processDevice_emits attrs w c t x.1 x.2 y (ht.sent_prefix.subset hy))
  refine h.frame i posted n n' sent _ ht.log
    (recvIds_silent i sent (fun y hy => (hsilent y hy).1))
    (ht.inbox_other .completion (Ne.symm hw)) ?_ ?_
  · exact registrations_silent i _
      (fun y hy => (hsilent y ((Net.mem_addressed _ _ _ y).mp hy).1).2)
  · exact fun t' ht' => (ht.state_other .completion (Ne.symm hw)).symm.trans ht'

/-- A turn of the completion worker, as far as the QP is concerned. -/
theorem processDevice_held (c : Fin maxQpCnt → Nat) (t t' : QpTable QueuePairMessageTracker)
    (x : QpMsg) (h : (Driver.processDevice attrs .completion c t x).next=some t') :
    (PostedReceives.recvIds (ofQp i (Driver.processDevice attrs .completion c t x).msgs)++
      (t' i).postRecvQueue.map PostRecvEvent.wrId).Perm
      ((t i).postRecvQueue.map PostRecvEvent.wrId++registrations (ofQp i [x])) ∧
    ((t' i).postRecvQueue.map PostRecvEvent.wrId).Sublist
      ((t i).postRecvQueue.map PostRecvEvent.wrId++registrations (ofQp i [x])) := by
  obtain ⟨qpn,m⟩ := x
  rw [Driver.processDevice_task attrs .completion c t qpn m (by simp),Driver.processTable] at h ⊢
  have hsame (q : List UInt64) : (PostedReceives.recvIds []++q).Perm (q++[]) ∧ q.Sublist (q++[]) := by
    rw [List.append_nil]
    exact ⟨List.Perm.refl _,List.Sublist.refl _⟩
  -- a message about another QP leaves the entry alone
  have hother (ms : List Msg) (hi : QpTable.index? qpn≠some i) (heq : t' i=t i) :
      (PostedReceives.recvIds (ofQp i (ms.map (fun m => (qpn,m))))++
        (t' i).postRecvQueue.map PostRecvEvent.wrId).Perm
        ((t i).postRecvQueue.map PostRecvEvent.wrId++registrations (ofQp i [(qpn,m)])) ∧
      ((t' i).postRecvQueue.map PostRecvEvent.wrId).Sublist
        ((t i).postRecvQueue.map PostRecvEvent.wrId++registrations (ofQp i [(qpn,m)])) := by
    have hm : ofQp i [(qpn,m)]=[] := ofQp_other i qpn [m] hi
    rw [ofQp_other i qpn ms hi,hm,heq]
    exact hsame _
  rcases hj : QpTable.index? qpn with _|j
  · rw [hj] at h
    obtain ⟨-,-,rfl⟩ := Option.map_eq_some_iff.mp h
    exact hother _ (by rw [hj]; simp) rfl
  · rw [hj] at h
    obtain ⟨s,hs,rfl⟩ := Option.map_eq_some_iff.mp h
    by_cases hij : i=j
    · subst hij
      have hm : ofQp i [(qpn,m)]=[m] := ofQp_self i qpn [m] hj
      dsimp only
      rw [ofQp_self i qpn _ hj,hm,Function.update_self]
      cases m with
      | completion task => exact process_held (attrs i) (t i) s task hs
      | _ =>
          obtain rfl := Option.some.inj hs
          exact hsame _
    · exact hother _ (by rw [hj]; simpa using Ne.symm hij) (Function.update_of_ne hij ..)

theorem Accounted.work_completion (c : Fin maxQpCnt → Nat) (t : QpTable QueuePairMessageTracker)
    (x : QpMsg) (rest sent : List QpMsg) (n' : DeviceNet)
    (ht : Net.Turn (deviceProgram attrs) n .completion c t x rest sent n')
    (h : Accounted i posted n) : Accounted i posted n' := by
  intro t' ht'
  rcases ht.state_self with hnone|⟨hnext,hsent⟩
  · rw [hnone] at ht'
    cases ht'
  obtain ⟨hperm,hsub⟩ := h t ht.alive
  obtain ⟨htaken,hkept⟩ := processDevice_held i attrs c t t' x (hnext.symm.trans ht')
  have hemits : ∀ y∈sent,PostedReceives.isRegistration y.2=false := by
    intro y hy
    have hem := Driver.processDevice_emits attrs .completion c t x.1 x.2 y
      (ht.sent_prefix.subset hy)
    generalize y.2=m at hem
    cases hem <;> rfl
  have hconsumed : consumed i n'=consumed i n++PostedReceives.recvIds
      (ofQp i (Driver.processDevice attrs .completion c t x).msgs) := by
    rw [consumed,ht.log,hsent,ofQp_append,PostedReceives.recvIds_append]
    rfl
  have hheld : held i n' t'=(t' i).postRecvQueue.map PostRecvEvent.wrId++
      registrations (ofQp i rest) := by
    rw [held,ht.inbox_self,ofQp_append,registrations_append,registrations_silent i _
      (fun y hy => hemits y ((Net.mem_addressed _ _ _ y).mp hy).1),List.append_nil]
  have hbefore : held i n t=(t i).postRecvQueue.map PostRecvEvent.wrId++
      registrations (ofQp i [x])++registrations (ofQp i rest) := by
    rw [held,ht.head,List.append_assoc,← registrations_append,← ofQp_append]
    rfl
  rw [hbefore] at hperm hsub
  rw [hconsumed,hheld]
  refine ⟨hperm.trans ?_,(hkept.append_right _).trans hsub⟩
  have hstep := (htaken.symm.append_right (registrations (ofQp i rest))).append_left (consumed i n)
  rw [List.append_assoc (PostedReceives.recvIds _)] at hstep
  rw [List.append_assoc (consumed i n)]
  exact hstep

theorem Accounted.work (w : Worker) (c : Fin maxQpCnt → Nat) (h : Accounted i posted n) :
    Accounted i posted (n.step (deviceProgram attrs) (.work w c)) := by
  rcases Net.work_cases (deviceProgram attrs) n w c with heq|⟨t,x,rest,sent,ht⟩
  · rw [Net.step,heq]
    exact h
  · by_cases hw : w=.completion
    · subst hw
      exact h.work_completion i posted attrs n c t x rest sent _ ht
    · exact h.work_other i posted attrs n w hw c t x rest sent _ ht

end Steps

theorem Accounted.postAll (i : Fin maxQpCnt) (posted : List UInt64) (d : Device) (ms : List QpMsg)
    (h : Accounted i posted d.net) (hcq : ∀ x∈ms,PostedReceives.isRecvCq x.2=false)
    (hreg : ∀ x∈ms,PostedReceives.isRegistration x.2=false ∨ QpTable.index? x.1≠some i) :
    Accounted i posted (d.postAll ms).net := by
  induction ms generalizing d with
  | nil => exact h
  | cons m ms ih =>
      exact ih (d.run1 (.post m))
        (h.post i posted _ d.net m (hcq m List.mem_cons_self) (hreg m List.mem_cons_self))
        (fun x hx => hcq x (List.mem_cons_of_mem _ hx))
        (fun x hx => hreg x (List.mem_cons_of_mem _ hx))

/-- A step other than a posting on the QP. -/
theorem step_other (i : Fin maxQpCnt) (posted : List UInt64) (d : Device) (l : DeviceLabel)
    (hl : ∀ qpn wr io,l=.postRecv qpn wr io → QpTable.index? qpn≠some i)
    (h : Accounted i posted d.net) : Accounted i posted (d.step l).net := by
  cases l with
  | createQp attr key => exact h
  | updateQp qpn attr io => exact h
  | destroyQp qpn => exact h
  | postSend qpn wr =>
      refine Accounted.postAll i posted _ _ h ?_ ?_
      all_goals
        intro x hx
        obtain ⟨t,-,rfl⟩ := List.mem_map.mp hx
      · rfl
      · exact Or.inl rfl
  | postRecv qpn wr io =>
      rw [Device.step]
      split_ifs
      · refine Accounted.postAll i posted _ _ h ?_ ?_
        all_goals
          intro x hx
          obtain ⟨t,-,rfl⟩ := List.mem_map.mp hx
        · rfl
        · exact Or.inr (hl qpn wr io rfl)
      · exact h
  | arrive j wr =>
      rw [Device.step]
      split_ifs <;> exact h
  | report qpn m => exact h.post i posted _ d.net _ rfl (Or.inl rfl)
  | tick => exact h.post i posted _ d.net _ rfl (Or.inl rfl)
  | work w c => exact h.work i posted _ d.net w c
  | crash w => exact h.crash i posted d.ctx.qpAttrTable d.net w

theorem success_other (i : Fin maxQpCnt) (d : Device) (l : DeviceLabel)
    (hl : ∀ qpn wr io,l=.postRecv qpn wr io → QpTable.index? qpn≠some i) : success i d l=[] := by
  unfold success
  split
  · split
    · exact if_neg (hl _ _ _ rfl)
    · rfl
  · rfl

section Posting
variable (i : Fin maxQpCnt) (d : Device) (qpn : UInt32) (wr : RecvWr) (io : ChannelIo)
  (hi : QpTable.index? qpn=some i)
include hi

/-- The registration goes out in any case. -/
theorem postRecv_tasks :
    (d.ctx.postRecv qpn wr io).next.2=[.register (.postRecv ⟨wr.wrId⟩)] := by
  rw [HwDeviceCtx.postRecv,hi]
  dsimp only
  split <;> rfl

theorem step_postRecv_dead (hdead : ¬(d.net.state .completion).isSome=true) :
    d.step (.postRecv qpn wr io)=d ∧ (postRecvCall d qpn wr io).result=none := by
  have htasks := postRecv_tasks i d qpn wr io hi
  have hnone : ¬((d.ctx.postRecv qpn wr io).next.2=[] ∨ (d.net.state .completion).isSome=true) := by
    rw [htasks]
    simpa using hdead
  exact ⟨if_neg hnone,if_neg hnone⟩

theorem step_postRecv_state (halive : (d.net.state .completion).isSome=true) :
    (d.step (.postRecv qpn wr io)).net.state=d.net.state := by
  have htasks := postRecv_tasks i d qpn wr io hi
  rw [Device.step,if_pos (Or.inr halive),htasks]
  rfl

/-- A call that gets past the registration succeeds if the peer can be told. -/
theorem postRecvCall_ok (halive : (d.net.state .completion).isSome=true) (tx : TcpChannelTx)
    (htx : d.ctx.postRecvTxTable i=some tx) (hsend : (tx.send io).2=.ok ()) :
    (postRecvCall d qpn wr io).result=some (.ok ()) := by
  rw [postRecvCall]
  dsimp only
  rw [if_pos (Or.inr halive),HwDeviceCtx.postRecv,hi]
  dsimp only
  rw [htx]
  dsimp only
  rw [hsend]
  rfl

/-- Otherwise it returns an error, with the registration already sent. -/
theorem postRecvCall_error (halive : (d.net.state .completion).isSome=true)
    (h : ∀ tx,d.ctx.postRecvTxTable i=some tx → (tx.send io).2≠.ok ()) :
    ∃ e,(postRecvCall d qpn wr io).result=some (.error e) := by
  rw [postRecvCall]
  dsimp only
  rw [if_pos (Or.inr halive),HwDeviceCtx.postRecv,hi]
  dsimp only
  rcases htx : d.ctx.postRecvTxTable i with _|tx
  · exact ⟨_,rfl⟩
  · dsimp only
    rcases hsend : (tx.send io).2 with e|⟨⟩
    · exact ⟨_,rfl⟩
    · exact absurd hsend (h tx htx)

theorem step_postRecv_alive (posted : List UInt64) (halive : (d.net.state .completion).isSome=true)
    (h : Accounted i posted d.net) :
    Accounted i (posted++[wr.wrId]) (d.step (.postRecv qpn wr io)).net := by
  have htasks := postRecv_tasks i d qpn wr io hi
  rw [Device.step,if_pos (Or.inr halive),htasks]
  exact h.register i posted _ d.net qpn ⟨wr.wrId⟩ hi halive

end Posting

/-- A posting on the QP while the completion worker runs keeps the account just if the peer is
told. -/
theorem inStep_postRecv_iff (i : Fin maxQpCnt) (h : History) (qpn : UInt32) (wr : RecvWr)
    (io : ChannelIo) (hi : QpTable.index? qpn=some i)
    (halive : (h.dev.net.state .completion).isSome=true) (hin : InStep i h) :
    InStep i (step i h (.postRecv qpn wr io)) ↔
      ∃ tx,h.dev.ctx.postRecvTxTable i=some tx ∧ (tx.send io).2=.ok () := by
  have hregistered := step_postRecv_alive i h.dev qpn wr io hi h.posted halive hin
  constructor
  · intro hin'
    by_contra hfail
    have herr : ∀ tx,h.dev.ctx.postRecvTxTable i=some tx → (tx.send io).2≠.ok () :=
      fun tx htx hsend => hfail ⟨tx,htx,hsend⟩
    obtain ⟨e,herror⟩ := postRecvCall_error i h.dev qpn wr io hi halive herr
    -- the registration is there, but the call does not count
    have hsuccess : success i h.dev (.postRecv qpn wr io)=[] := by
      rw [success,herror]
    rw [InStep,step,hsuccess,List.append_nil] at hin'
    obtain ⟨t,ht⟩ := Option.isSome_iff_exists.mp halive
    have ht' := (congrFun (step_postRecv_state i h.dev qpn wr io hi halive) .completion).trans ht
    have hlength := ((hin' t ht').1.trans (hregistered t ht').1.symm).length_eq
    simp at hlength
  · rintro ⟨tx,htx,hsend⟩
    have hok := postRecvCall_ok i h.dev qpn wr io hi halive tx htx hsend
    have hsuccess : success i h.dev (.postRecv qpn wr io)=[wr.wrId] := by
      rw [success,hok,if_pos hi]
    rw [InStep,step,hsuccess]
    exact hregistered

/-- A step keeps the account just if a receive it posts on the QP is announced. -/
theorem inStep_step_iff (i : Fin maxQpCnt) (h : History) (l : DeviceLabel) (hin : InStep i h) :
    InStep i (step i h l) ↔ Announced i h l := by
  by_cases hl : ∀ qpn wr io,l=.postRecv qpn wr io → QpTable.index? qpn≠some i
  · refine ⟨fun _ qpn wr io hlabel hi => absurd hi (hl qpn wr io hlabel),fun _ => ?_⟩
    rw [InStep,step,success_other i h.dev l hl,List.append_nil]
    exact step_other i h.posted h.dev l hl hin
  simp only [not_forall,not_not] at hl
  obtain ⟨qpn,wr,io,rfl,hi⟩ := hl
  by_cases halive : (h.dev.net.state .completion).isSome=true
  · rw [inStep_postRecv_iff i h qpn wr io hi halive hin]
    simp only [TcpChannelTx.send_ok_iff]
    refine ⟨fun hsent qpn' wr' io' hlabel _ _ => ?_,fun hs => hs qpn wr io rfl hi halive⟩
    obtain ⟨rfl,rfl,rfl⟩ := DeviceLabel.postRecv.inj hlabel
    exact hsent
  · obtain ⟨hstep,hresult⟩ := step_postRecv_dead i h.dev qpn wr io hi halive
    have hsuccess : success i h.dev (.postRecv qpn wr io)=[] := by
      rw [success,hresult]
    refine ⟨fun _ _ _ _ _ _ hstate => absurd hstate halive,fun _ => ?_⟩
    rw [InStep,step,hsuccess,hstep,List.append_nil]
    exact hin

end PostRecvAtomic

open PostRecvAtomic in
/-- In every run the completion worker holds the receives of a QP whose posting succeeded and that
no completion has named yet, in the order of the postings, just as long as every posting on the QP
finds a channel on which the receive can be sent. -/
theorem post_recv_atomic_iff (ip : UInt32) (config : AckTimeoutConfig) (i : Fin maxQpCnt)
    (ls : List DeviceLabel) :
    Run.Along (step i) (fun h l => InStep i (step i h l)) ⟨.initialized ip config,[]⟩ ls ↔
      Run.Along (step i) (Announced i) ⟨.initialized ip config,[]⟩ ls := by
  refine Run.along_iff_of_inv (step i) _ (Announced i) (InStep i) (inStep_step_iff i) ?_ _ ls ?_
  · exact fun h l hl hin => (inStep_step_iff i h l hin).mpr hl
  · intro t ht
    obtain rfl := Option.some.inj ht
    exact ⟨List.Perm.refl _,List.Sublist.refl _⟩

namespace PostRecvAtomic

/-- A receive is posted before the QP is connected, and another one after. -/
def earlyReceive : List DeviceLabel :=
  [.createQp ⟨2,some 1,some 2⟩ 0,.postRecv 0x100 ⟨7,0x1000,64,5⟩ {},
    .updateQp 0x100 ⟨some 0x0A000002,some 0x200,none⟩ {},.postRecv 0x100 ⟨8,0x2000,64,5⟩ {},
    .work .completion (fun _ => 0),.work .completion (fun _ => 0)]

end PostRecvAtomic

open PostRecvAtomic in
/-- The first posting fails, but the completion worker holds its receive in front of the second
one's. -/
theorem failed_post_recv_registered :
    let i : Fin maxQpCnt := ⟨1,by decide⟩
    let h := Run.run (step i) ⟨.initialized 0x0A000001 .default,[]⟩ earlyReceive
    (postRecvCall (Device.run 0x0A000001 .default (earlyReceive.take 1)) 0x100
      ⟨7,0x1000,64,5⟩ {}).result=
      some (.error (.qpError "Post receive channel for QP 256 not found")) ∧
    h.posted=[8] ∧
    (h.dev.net.state .completion).map (fun t => (t i).postRecvQueue)=some [⟨7⟩,⟨8⟩] := by
  decide +kernel

end BlueRdma

import BlueRdma.Protocol.FreshQp

namespace BlueRdma
namespace FailingSend

/-- `HwDeviceCtx::send`. The write task cannot be handed to a worker that has died. -/
def sendCall (d : Device) (qpn : UInt32) (wr : SendWrBase) : Call Device RdmaError Unit :=
  let c := d.ctx.postSendOn qpn (.send wr)
  ⟨d.step (.postSend qpn (.send wr)),
    if c.next.2=[] ∨ (d.net.state .rdmaWrite).isSome then c.result else none⟩

/-- A write task has gone into the worker's channel. -/
def Enqueues (d : Device) (qpn : UInt32) (wr : SendWrBase) : Prop :=
  (sendCall d qpn wr).next.net.inbox .rdmaWrite≠d.net.inbox .rdmaWrite

/-- The call returns, and without a write task it fails and takes no receive. -/
structure Clean (d : Device) (qpn : UInt32) (wr : SendWrBase) : Prop where
  returns : (sendCall d qpn wr).result≠none
  error : ¬Enqueues d qpn wr → ∃ e,(sendCall d qpn wr).result=some (.error e)
  unchanged : ¬Enqueues d qpn wr →
    (sendCall d qpn wr).next.ctx.recvWrQueueTable=d.ctx.recvWrQueueTable

/-- The oldest receive has the length of the Send, and the worker is there to write it. -/
def Matched (d : Device) (qpn : UInt32) (wr : SendWrBase) : Prop :=
  (d.net.state .rdmaWrite).isSome=true ∧ ∃ i x rest,QpTable.index? qpn=some i ∧
    d.ctx.recvWrQueueTable i=x::rest ∧ wr.length=x.length

/-- The context without the oldest receive of a QP. -/
def popped (d : Device) (i : Fin maxQpCnt) (rest : List RecvWr) : HwDeviceCtx :=
  {d.ctx with recvWrQueueTable := Function.update d.ctx.recvWrQueueTable i rest}

theorem postAll_ctx (d : Device) (ms : List QpMsg) : (d.postAll ms).ctx=d.ctx := by
  induction ms generalizing d with
  | nil => rfl
  | cons m ms ih => exact ih (d.run1 (.post m))

section Cases
variable (d : Device) (qpn : UInt32) (wr : SendWrBase)

theorem sendCall_unknown (hi : QpTable.index? qpn=none) :
    (sendCall d qpn wr).result=none := by
  simp only [sendCall,HwDeviceCtx.postSendOn,hi,true_or,if_true]

variable (i : Fin maxQpCnt) (hi : QpTable.index? qpn=some i)
include hi

theorem sendCall_empty (hq : d.ctx.recvWrQueueTable i=[]) :
    (sendCall d qpn wr).result=none := by
  simp only [sendCall,HwDeviceCtx.postSendOn,HwDeviceCtx.postSend,HwDeviceCtx.send,hi,hq,true_or,
    if_true]

theorem sendCall_mismatch (x : RecvWr) (rest : List RecvWr)
    (hq : d.ctx.recvWrQueueTable i=x::rest) (hlen : wr.length≠x.length) :
    (sendCall d qpn wr).next={d with ctx := popped d i rest} := by
  simp only [sendCall,Device.step,HwDeviceCtx.postSendOn,HwDeviceCtx.postSend,HwDeviceCtx.send,hi,
    hq,if_pos hlen]
  rfl

theorem sendCall_match (x : RecvWr) (rest : List RecvWr)
    (hq : d.ctx.recvWrQueueTable i=x::rest) (hlen : wr.length=x.length) :
    (sendCall d qpn wr).next=Device.run1 {d with ctx := popped d i rest}
      (.post (qpn,.rdma (.write (SendWrRdma.newFromBase wr x.addr x.lkey)))) ∧
    (sendCall d qpn wr).result=if (d.net.state .rdmaWrite).isSome then some (.ok ()) else none := by
  simp only [sendCall,Device.step,HwDeviceCtx.postSendOn,HwDeviceCtx.postSend,HwDeviceCtx.send,hi,
    hq,hlen,ne_eq,not_true_eq_false,if_false,List.cons_ne_nil,false_or]
  exact ⟨rfl,trivial⟩

end Cases

/-- The task is in the channel if there is a worker to take it. -/
theorem post_write (d : Device) (qpn : UInt32) (w : SendWrRdma) :
    (d.run1 (.post (qpn,.rdma (.write w)))).net.inbox .rdmaWrite=d.net.inbox .rdmaWrite++
      (if (d.net.state .rdmaWrite).isSome then [(qpn,.rdma (.write w))] else []) := by
  have hreach : d.net.reaches (deviceProgram d.ctx.qpAttrTable) (qpn,.rdma (.write w))=
      (d.net.state .rdmaWrite).isSome := rfl
  rcases hs : (d.net.state .rdmaWrite).isSome with _|_
  · rcases Net.step_post (deviceProgram d.ctx.qpAttrTable) d.net (qpn,.rdma (.write w)) with
      ⟨htrue,-⟩|hlost
    · rw [hreach,hs] at htrue
      cases htrue
    · rw [Device.run1,hlost]
      rfl
  · rw [Device.run1,Net.step_reaches _ _ _ (hreach.trans hs)]
    rfl

/-- Only a Send that matches the oldest receive is clean. -/
theorem clean_iff (d : Device) (qpn : UInt32) (wr : SendWrBase) :
    Clean d qpn wr ↔ Matched d qpn wr := by
  constructor
  · intro h
    rcases hi : QpTable.index? qpn with _|i
    · exact absurd (sendCall_unknown d qpn wr hi) h.returns
    rcases hq : d.ctx.recvWrQueueTable i with _|⟨x,rest⟩
    · exact absurd (sendCall_empty d qpn wr i hi hq) h.returns
    by_cases hlen : wr.length=x.length
    · obtain ⟨-,hresult⟩ := sendCall_match d qpn wr i hi x rest hq hlen
      refine ⟨?_,i,x,rest,hi,hq,hlen⟩
      by_contra hdead
      rw [if_neg hdead] at hresult
      exact h.returns hresult
    · -- the receive is gone although nothing was written
      have hnext := sendCall_mismatch d qpn wr i hi x rest hq hlen
      have hkept := h.unchanged (by rw [Enqueues,hnext]; exact not_not_intro rfl)
      have hrest : rest=x::rest := by
        rw [← hq,← hkept,hnext]
        change rest=Function.update d.ctx.recvWrQueueTable i rest i
        rw [Function.update_self]
      exact absurd hrest.symm (List.cons_ne_self x rest)
  · rintro ⟨halive,i,x,rest,hi,hq,hlen⟩
    obtain ⟨hnext,hresult⟩ := sendCall_match d qpn wr i hi x rest hq hlen
    have henqueues : Enqueues d qpn wr := by
      rw [Enqueues,hnext,post_write,if_pos halive]
      intro heq
      have hlength := congrArg List.length heq
      simp at hlength
    refine ⟨?_,fun h => absurd henqueues h,fun h => absurd henqueues h⟩
    rw [hresult,if_pos halive]
    exact Option.some_ne_none _

/-- A run with the receives that have arrived for the QP at an index and the Sends on it that were
accepted. -/
structure History where
  dev : Device
  arrived : List RecvWr := []
  accepted : List SendWrRdma := []

def arrivals (i : Fin maxQpCnt) (d : Device) : DeviceLabel → List RecvWr
  | .arrive j wr => if j=i ∧ (d.ctx.postRecvTxTable i).isSome then [wr] else []
  | _ => []

/-- The write that an accepted Send has become. -/
def acceptance (i : Fin maxQpCnt) (d : Device) : DeviceLabel → List SendWrRdma
  | .postSend qpn (.send wr) =>
    match (sendCall d qpn wr).result with
    | some (.ok ()) =>
      if QpTable.index? qpn=some i then
        (d.ctx.postSendOn qpn (.send wr)).next.2.filterMap (fun | .write w => some w | _ => none)
      else []
    | _ => []
  | _ => []

def step (i : Fin maxQpCnt) (h : History) (l : DeviceLabel) : History where
  dev := h.dev.step l
  arrived := h.arrived++arrivals i h.dev l
  accepted := h.accepted++acceptance i h.dev l

/-- The accepted Sends write, one by one, to the receives that arrived, and the receives after
them are waiting. -/
structure InStep (i : Fin maxQpCnt) (h : History) : Prop where
  waiting : h.dev.ctx.recvWrQueueTable i=h.arrived.drop h.accepted.length
  paired : ∀ (k : Nat) (w : SendWrRdma),h.accepted[k]?=some w →
    ∃ x,h.arrived[k]?=some x ∧ w.raddr=x.addr ∧ w.rkey=x.lkey ∧ w.length=x.length

/-- A Send on the QP finds the receive it needs, unless it finds none. -/
def Served (i : Fin maxQpCnt) (h : History) (l : DeviceLabel) : Prop :=
  ∀ qpn wr,l=.postSend qpn (.send wr) → QpTable.index? qpn=some i →
    h.dev.ctx.recvWrQueueTable i≠[] → Matched h.dev qpn wr

theorem postAll_receives (d : Device) (c : HwDeviceCtx) (ms : List QpMsg) :
    ({d with ctx := c}.postAll ms).ctx.recvWrQueueTable=c.recvWrQueueTable := by
  rw [postAll_ctx]

/-- Apart from Sends, only arrivals change the receives of a QP. -/
theorem step_receives (i : Fin maxQpCnt) (d : Device) (l : DeviceLabel)
    (hl : ∀ qpn wr,l=.postSend qpn (.send wr) → QpTable.index? qpn≠some i) :
    (d.step l).ctx.recvWrQueueTable i=d.ctx.recvWrQueueTable i++arrivals i d l := by
  cases l with
  | createQp attr key =>
      exact (congrFun (d.ctx.createQp_frame attr key).2 i).trans (List.append_nil _).symm
  | updateQp qpn attr io =>
      exact (congrFun (d.ctx.updateQp_receives qpn attr io) i).trans (List.append_nil _).symm
  | destroyQp qpn =>
      exact (congrFun (d.ctx.destroyQp_receives qpn) i).trans (List.append_nil _).symm
  | postSend qpn wr =>
      refine Eq.trans ?_ (List.append_nil _).symm
      rw [Device.step,postAll_receives]
      by_cases hi : QpTable.index? qpn=some i
      · cases wr with
        | send wr => exact absurd hi (hl qpn wr rfl)
        | rdma wr =>
            simp only [HwDeviceCtx.postSendOn,HwDeviceCtx.postSend,hi,Function.update_self]
      · exact (FreshQp.postSendOn_local d.ctx qpn wr i hi).2.2
  | postRecv qpn wr io =>
      refine Eq.trans ?_ (List.append_nil _).symm
      rw [Device.step]
      split_ifs
      · rw [postAll_receives,d.ctx.postRecv_receives]
      · rfl
  | arrive j wr =>
      rw [Device.step,arrivals]
      by_cases hj : j=i
      · subst hj
        by_cases hopen : (d.ctx.postRecvTxTable j).isSome=true
        · rw [if_pos hopen,if_pos ⟨rfl,hopen⟩]
          exact Function.update_self ..
        · rw [if_neg hopen,if_neg (fun h => hopen h.2),List.append_nil]
      · have hnone : ¬(j=i ∧ (d.ctx.postRecvTxTable i).isSome=true) := fun h => hj h.1
        rw [if_neg hnone,List.append_nil]
        split_ifs
        · exact Function.update_of_ne (Ne.symm hj) ..
        · rfl
  | report qpn m => exact (List.append_nil _).symm
  | tick => exact (List.append_nil _).symm
  | work w c => exact (List.append_nil _).symm
  | crash w => exact (List.append_nil _).symm

/-- A Send takes the oldest receive, whatever becomes of it. -/
theorem step_send_receives (i : Fin maxQpCnt) (d : Device) (qpn : UInt32) (wr : SendWrBase)
    (hi : QpTable.index? qpn=some i) :
    (d.step (.postSend qpn (.send wr))).ctx.recvWrQueueTable i=(d.ctx.recvWrQueueTable i).tail := by
  rw [Device.step,postAll_receives]
  simp only [HwDeviceCtx.postSendOn,HwDeviceCtx.postSend,hi]
  rcases hq : d.ctx.recvWrQueueTable i with _|⟨x,rest⟩
  · exact Function.update_self ..
  · by_cases hlen : wr.length=x.length
    · simp only [HwDeviceCtx.send,hlen,ne_eq,not_true_eq_false,if_false]
      exact Function.update_self ..
    · simp only [HwDeviceCtx.send,hlen,ne_eq,not_false_eq_true,if_true]
      exact Function.update_self ..

theorem acceptance_match (i : Fin maxQpCnt) (d : Device) (qpn : UInt32) (wr : SendWrBase)
    (x : RecvWr) (rest : List RecvWr) (hi : QpTable.index? qpn=some i)
    (hq : d.ctx.recvWrQueueTable i=x::rest) (hlen : wr.length=x.length) :
    acceptance i d (.postSend qpn (.send wr))=if (d.net.state .rdmaWrite).isSome then
      [SendWrRdma.newFromBase wr x.addr x.lkey] else [] := by
  obtain ⟨-,hresult⟩ := sendCall_match d qpn wr i hi x rest hq hlen
  rw [acceptance,hresult]
  split_ifs with halive
  · simp only [hi,HwDeviceCtx.postSendOn,HwDeviceCtx.postSend,HwDeviceCtx.send,hq,hlen,
      ne_eq,not_true_eq_false,if_false,List.filterMap_cons,List.filterMap_nil]
  · rfl

theorem acceptance_unmatched (i : Fin maxQpCnt) (d : Device) (qpn : UInt32) (wr : SendWrBase)
    (hi : QpTable.index? qpn=some i) (hm : ¬Matched d qpn wr) :
    acceptance i d (.postSend qpn (.send wr))=[] := by
  rcases hq : d.ctx.recvWrQueueTable i with _|⟨x,rest⟩
  · rw [acceptance,sendCall_empty d qpn wr i hi hq]
  by_cases hlen : wr.length=x.length
  · have hdead : ¬(d.net.state .rdmaWrite).isSome=true :=
      fun halive => hm ⟨halive,i,x,rest,hi,hq,hlen⟩
    rw [acceptance_match i d qpn wr x rest hi hq hlen,if_neg hdead]
  · have htasks : (d.ctx.postSendOn qpn (.send wr)).next.2=[] := by
      simp only [HwDeviceCtx.postSendOn,HwDeviceCtx.postSend,HwDeviceCtx.send,hi,hq,ne_eq,hlen,
        not_false_eq_true,if_true]
    rw [acceptance,htasks]
    split
    · rw [if_pos hi]
      rfl
    · rfl

theorem acceptance_other (i : Fin maxQpCnt) (d : Device) (l : DeviceLabel)
    (hl : ∀ qpn wr,l=.postSend qpn (.send wr) → QpTable.index? qpn≠some i) :
    acceptance i d l=[] := by
  unfold acceptance
  split
  · split
    · exact if_neg (hl _ _ rfl)
    · rfl
  · rfl

theorem InStep.length_le (i : Fin maxQpCnt) (h : History) (hin : InStep i h) :
    h.accepted.length≤h.arrived.length := by
  by_contra hlt
  obtain ⟨x,hx,-⟩ := hin.paired h.arrived.length _ (List.getElem?_eq_getElem (by omega))
  rw [List.getElem?_eq_none le_rfl] at hx
  cases hx

theorem InStep.other (i : Fin maxQpCnt) (h : History) (l : DeviceLabel)
    (hl : ∀ qpn wr,l=.postSend qpn (.send wr) → QpTable.index? qpn≠some i) (hin : InStep i h) :
    InStep i (step i h l) := by
  have haccepted : (step i h l).accepted=h.accepted := by
    rw [step,acceptance_other i h.dev l hl,List.append_nil]
  constructor
  · rw [haccepted]
    change (h.dev.step l).ctx.recvWrQueueTable i=(h.arrived++_).drop _
    rw [step_receives i h.dev l hl,hin.waiting,List.drop_append_of_le_length hin.length_le]
  · intro k w hw
    rw [haccepted] at hw
    obtain ⟨x,hx,hrest⟩ := hin.paired k w hw
    exact ⟨x,List.getElem?_append_left (List.getElem?_eq_some_iff.mp hx).1 ▸ hx,hrest⟩

section Send
variable (i : Fin maxQpCnt) (h : History) (qpn : UInt32) (wr : SendWrBase)
  (hi : QpTable.index? qpn=some i)
include hi

/-- A Send that finds no receive changes nothing. -/
theorem InStep.empty (hq : h.dev.ctx.recvWrQueueTable i=[]) (hin : InStep i h) :
    InStep i (step i h (.postSend qpn (.send wr))) := by
  have hm : ¬Matched h.dev qpn wr := by
    rintro ⟨-,j,x,rest,hj,hx,-⟩
    obtain rfl := Option.some.inj (hi.symm.trans hj)
    rw [hq] at hx
    cases hx
  have harrived : (step i h (.postSend qpn (.send wr))).arrived=h.arrived := List.append_nil _
  have haccepted : (step i h (.postSend qpn (.send wr))).accepted=h.accepted := by
    rw [step,acceptance_unmatched i h.dev qpn wr hi hm,List.append_nil]
  have hqueue := step_send_receives i h.dev qpn wr hi
  rw [hq] at hqueue
  constructor
  · rw [haccepted,harrived,← hin.waiting,hq]
    exact hqueue
  · rw [haccepted,harrived]
    exact hin.paired

/-- A Send that matches moves on to the next receive. -/
theorem InStep.matched (hm : Matched h.dev qpn wr) (hin : InStep i h) :
    InStep i (step i h (.postSend qpn (.send wr))) := by
  obtain ⟨halive,j,x,rest,hj,hq,hlen⟩ := hm
  obtain rfl := Option.some.inj (hi.symm.trans hj)
  have harrived : (step i h (.postSend qpn (.send wr))).arrived=h.arrived := List.append_nil _
  have haccepted : (step i h (.postSend qpn (.send wr))).accepted=
      h.accepted++[SendWrRdma.newFromBase wr x.addr x.lkey] := by
    rw [step,acceptance_match i h.dev qpn wr x rest hi hq hlen,if_pos halive]
  have hqueue := step_send_receives i h.dev qpn wr hi
  have hdrop : h.arrived.drop h.accepted.length=x::rest := hin.waiting.symm.trans hq
  rw [hq] at hqueue
  constructor
  · rw [haccepted,harrived,List.length_append,List.length_singleton,← List.drop_drop,hdrop]
    exact hqueue
  · intro k w hw
    rw [haccepted] at hw
    rw [harrived]
    rcases Nat.lt_trichotomy k h.accepted.length with hk|rfl|hk
    · rw [List.getElem?_append_left hk] at hw
      exact hin.paired k w hw
    · rw [List.getElem?_concat_length] at hw
      obtain rfl := Option.some.inj hw
      refine ⟨x,?_,rfl,rfl,hlen⟩
      rw [← List.head?_drop,hdrop,List.head?_cons]
    · rw [List.getElem?_eq_none (by rw [List.length_append,List.length_singleton]; omega)] at hw
      cases hw

/-- Any other Send takes a receive that should still be waiting. -/
theorem not_inStep_unmatched (hq : h.dev.ctx.recvWrQueueTable i≠[]) (hm : ¬Matched h.dev qpn wr)
    (hin : InStep i h) : ¬InStep i (step i h (.postSend qpn (.send wr))) := by
  intro hin'
  have harrived : (step i h (.postSend qpn (.send wr))).arrived=h.arrived := List.append_nil _
  have hwaiting := hin'.waiting
  rw [harrived,step,acceptance_unmatched i h.dev qpn wr hi hm,List.append_nil] at hwaiting
  have htail : (h.dev.ctx.recvWrQueueTable i).tail=h.dev.ctx.recvWrQueueTable i :=
    (step_send_receives i h.dev qpn wr hi).symm.trans (hwaiting.trans hin.waiting.symm)
  have hlength := congrArg List.length htail
  have hpos := List.length_pos_iff.mpr hq
  rw [List.length_tail] at hlength
  omega

end Send

/-- A step keeps the pairing just if it does not lose a receive. -/
theorem inStep_step_iff (i : Fin maxQpCnt) (h : History) (l : DeviceLabel) (hin : InStep i h) :
    InStep i (step i h l) ↔ Served i h l := by
  by_cases hl : ∀ qpn wr,l=.postSend qpn (.send wr) → QpTable.index? qpn≠some i
  · exact ⟨fun _ qpn wr hlabel hi => absurd hi (hl qpn wr hlabel),fun _ => hin.other i h l hl⟩
  simp only [not_forall,not_not] at hl
  obtain ⟨qpn,wr,rfl,hi⟩ := hl
  constructor
  · rintro hin' qpn' wr' hlabel - hq
    obtain ⟨rfl,hwr⟩ := DeviceLabel.postSend.inj hlabel
    obtain rfl := SendWr.send.inj hwr
    by_contra hm
    exact not_inStep_unmatched i h qpn wr hi hq hm hin hin'
  · intro hserved
    by_cases hq : h.dev.ctx.recvWrQueueTable i=[]
    · exact hin.empty i h qpn wr hi hq
    · exact hin.matched i h qpn wr hi (hserved qpn wr rfl hi hq)

end FailingSend

open FailingSend in
/-- A Send returns, and leaves the receives alone unless it enqueues a write, just if it meets a
receive of its length and a live worker. Over a run the accepted Sends use the receives in the
order of their arrival just as long as every Send that finds a receive waiting meets such a one. -/
theorem failing_send_iff (ip : UInt32) (config : AckTimeoutConfig) (i : Fin maxQpCnt)
    (ls : List DeviceLabel) :
    (∀ d qpn wr,Clean d qpn wr ↔ Matched d qpn wr) ∧
    (Run.Along (step i) (fun h l => InStep i (step i h l)) ⟨.initialized ip config,[],[]⟩ ls ↔
      Run.Along (step i) (Served i) ⟨.initialized ip config,[],[]⟩ ls) := by
  refine ⟨clean_iff,?_⟩
  refine Run.along_iff_of_inv (step i) _ (Served i) (InStep i) (inStep_step_iff i) ?_ _ ls ?_
  · exact fun h l hl hin => (inStep_step_iff i h l hin).mpr hl
  · exact ⟨rfl,by simp⟩

namespace FailingSend

/-- A connected QP for which receives of 64 and of 32 bytes have arrived. -/
def announced : List DeviceLabel :=
  [.createQp FreshQp.initAttr 0,.updateQp 0x100 ⟨some 0x0A000002,some 0x200,none⟩ {},
    .arrive FreshQp.firstIndex ⟨1,0x1000,64,5⟩,.arrive FreshQp.firstIndex ⟨2,0x2000,32,6⟩]

def shortSend : SendWrBase := ⟨0,2,0x4000,32,1,0,.send⟩

end FailingSend

open FailingSend FreshQp in
/-- The first Send fails and takes a receive with it; the one after it, the first to be accepted,
writes to the second receive. A third one finds nothing and panics. -/
theorem failed_send_takes_receive :
    let d := Device.run 0x0A000001 .default announced
    let d' := (sendCall d 0x100 shortSend).next
    let d'' := (sendCall d' 0x100 shortSend).next
    (sendCall d 0x100 shortSend).result=
      some (.error (.invalidInput "Send length does not match receive length")) ∧
    d'.ctx.recvWrQueueTable firstIndex=[⟨2,0x2000,32,6⟩] ∧
    d''.net.inbox .rdmaWrite=[(0x100,.rdma (.write ⟨shortSend,0x2000,6⟩))] ∧
    (sendCall d'' 0x100 shortSend).result=none := by
  decide +kernel

end BlueRdma

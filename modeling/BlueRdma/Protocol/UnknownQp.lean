import BlueRdma.Workers.Device

namespace BlueRdma
namespace MetaHandler

/-- What `handle_meta` leaves behind: the trackers of all QPs, the messages sent, and the result
unless it panicked. -/
structure Reply where
  table : QpTable MetaHandler
  msgs : List Msg
  result : Option (Option Unit)

/-- `get_qp_mut(qpn)?` and what a handler does with the trackers it finds. -/
def withQp (t : QpTable MetaHandler) (qpn : UInt32) (f : MetaHandler → MetaHandler × List Msg) :
    Reply :=
  match QpTable.index? qpn with
  | none => ⟨t,[],some none⟩
  | some i => ⟨Function.update t i (f (t i)).1,(f (t i)).2,some (some ())⟩

/-- The event is registered before the QP is looked up, and without the ack bit it is not looked
up at all. -/
def headerReadCall (t : QpTable MetaHandler) (qpn : UInt32) (x : HeaderReadMeta) : Reply :=
  let task : Msg := .rdma (.write (readResp x))
  if x.ackReq then
    let register : Msg := .completion (.register (.recv (readEvent x)))
    match QpTable.index? qpn with
    | none => ⟨t,[register],some none⟩
    | some i =>
      let (tracker,adv) := (t i).recvTable.ackOne x.psn
      ⟨Function.update t i {t i with recvTable := tracker},
        register::(onAdvance ackRecvMsg adv++[task]),some (some ())⟩
  else ⟨t,[task],some (some ())⟩

/-- `MetaHandler::handle_meta` over the tables, with its result. -/
def handleMetaCall (t : QpTable MetaHandler) (qpn : UInt32) (m : ReportMeta) : Reply :=
  let timed : Reply → Reply := fun r => {r with msgs := .timeout .recvMeta::r.msgs}
  match m with
  | .headerWrite x => timed (withQp t qpn (fun h => h.handleHeaderWrite x))
  | .headerRead x => timed (headerReadCall t qpn x)
  | .ackLocalHw x => timed (withQp t qpn (fun h => h.handleAckLocalHw x))
  | .ackRemoteDriver x => timed (withQp t qpn (fun h => h.handleAckRemoteDriver x))
  | .nakLocalHw x => timed (withQp t qpn (fun h => h.handleNakLocalHw x))
  | .nakRemoteHw x => timed (withQp t qpn (fun h => h.handleNakRemoteHw x))
  | .nakRemoteDriver x => timed (withQp t qpn (fun h => h.handleNakRemoteDriver x))
  | .cnp => ⟨t,[.timeout .recvMeta],none⟩

/-- What the worker's loop keeps of a call. -/
def Reply.outcome (qpn : UInt32) (r : Reply) : Outcome QpMsg (QpTable MetaHandler) :=
  ⟨r.msgs.map (fun m => (qpn,m)),r.result.map (fun _ => r.table)⟩

/-- The worker's loop drops the result. -/
theorem processTable_handleMeta (attrs : QpTable QpAttr) (c : Fin maxQpCnt → Nat)
    (t : QpTable MetaHandler) (qpn : UInt32) (m : ReportMeta) :
    Driver.processTable attrs .metaReport c t (qpn,.report m)=
      (handleMetaCall t qpn m).outcome qpn := by
  rcases hi : QpTable.index? qpn with _|i
  · rw [Driver.processTable,hi]
    cases m with
    | headerRead x =>
        cases hack : x.ackReq <;>
          simp [Driver.processUnknown,handleMetaCall,headerReadCall,hi,hack,Reply.outcome]
    | _ => simp [Driver.processUnknown,handleMetaCall,withQp,hi,Reply.outcome]
  · rw [Driver.processTable,hi]
    cases m with
    | headerRead x =>
        cases hack : x.ackReq <;>
          simp [Driver.process,handleMeta,handleHeaderRead,handleMetaCall,headerReadCall,hi,hack,
            readEvent,Reply.outcome]
    | _ => simp [Driver.process,handleMeta,handleMetaCall,withQp,hi,Reply.outcome]

/-- Messages none of which makes the worker that receives it panic, in any state. -/
def Harmless (qpn : UInt32) (ms : List Msg) : Prop :=
  ∀ m∈ms,∀ w,Driver.dest m=some w → ∀ (attrs : QpTable QpAttr) (c : Fin maxQpCnt → Nat)
    (s : QpTable w.State),(Driver.processDevice attrs w c s (qpn,m)).next.isSome=true

/-- The report of an unknown QP is dropped: only the timer task goes out. -/
structure Rejected (t : QpTable MetaHandler) (qpn : UInt32) (r : Reply) : Prop where
  result : r.result=some none
  table : r.table=t
  msgs : r.msgs=[.timeout .recvMeta]
  harmless : Harmless qpn r.msgs

theorem index?_unknown (qpn : UInt32) (h : maxQpCnt≤qpnToIndex qpn) : QpTable.index? qpn=none :=
  dif_neg (not_lt.mpr h)

theorem recvMeta_harmless (qpn : UInt32) (h : QpTable.index? qpn=none) :
    Harmless qpn [.timeout .recvMeta] := by
  intro m hm w hw attrs c s
  obtain rfl := List.mem_singleton.mp hm
  obtain rfl : .ackTimeout=w := Option.some.inj hw
  rw [Driver.processDevice_task _ _ _ _ _ _ (by simp),Driver.processTable,h]
  rfl

theorem withQp_rejected (t : QpTable MetaHandler) (qpn : UInt32)
    (h : QpTable.index? qpn=none) (f : MetaHandler → MetaHandler × List Msg) :
    Rejected t qpn {withQp t qpn f with msgs := .timeout .recvMeta::(withQp t qpn f).msgs} := by
  have hw : withQp t qpn f=⟨t,[],some none⟩ := by rw [withQp,h]
  rw [hw]
  exact ⟨rfl,rfl,rfl,recvMeta_harmless qpn h⟩

/-- A read request of an unknown QP always sends a task. -/
theorem headerReadCall_unknown (t : QpTable MetaHandler) (qpn : UInt32) (x : HeaderReadMeta)
    (h : QpTable.index? qpn=none) : (headerReadCall t qpn x).msgs≠[] := by
  rw [headerReadCall,h]
  split_ifs <;> simp

/-- The reports of an unknown QP that are rejected without side effects are those that are not
read requests. -/
theorem unknown_qp_rejected_iff (t : QpTable MetaHandler) (qpn : UInt32) (m : ReportMeta)
    (h : maxQpCnt≤qpnToIndex qpn) (hcnp : m≠.cnp) :
    Rejected t qpn (handleMetaCall t qpn m) ↔ ∀ x,m≠.headerRead x := by
  have hi := index?_unknown qpn h
  cases m with
  | headerRead x =>
      refine iff_of_false ?_ (fun hx => hx x rfl)
      intro hr
      have hmsgs := hr.msgs
      exact headerReadCall_unknown t qpn x hi (List.cons.inj hmsgs).2
  | cnp => exact absurd rfl hcnp
  | _ => exact iff_of_true (withQp_rejected t qpn hi _) (by simp)

theorem unknown_qp_rejected_iff_ack :
    Rejected (.newWith {}) 0x40000 (handleMetaCall (.newWith {}) 0x40000 (.ackRemoteDriver ⟨⟨1⟩⟩)) ↔
      ∀ x,ReportMeta.ackRemoteDriver ⟨⟨1⟩⟩≠.headerRead x :=
  unknown_qp_rejected_iff (.newWith {}) 0x40000 (.ackRemoteDriver ⟨⟨1⟩⟩) (by decide) (by decide)

/-- A read request with the ack bit for QP index 1024: the completion worker dies of it. -/
theorem unknown_read_kills_completion :
    let x : HeaderReadMeta := ⟨0,⟨0⟩,0,0,64,0,0,true⟩
    let r := handleMetaCall (.newWith {}) 0x40000 (.headerRead x)
    let d := Device.run 0x0A000001 .default
      [.report 0x40000 (.headerRead x),.work .metaReport (fun _ => 0),.work .completion (fun _ => 0)]
    qpnToIndex 0x40000=maxQpCnt ∧
    r.msgs=[.timeout .recvMeta,.completion (.register (.recv (readEvent x)))] ∧
    (d.net.state .metaReport).isSome=true ∧ (d.net.state .completion).isSome=false := by
  decide +kernel

end MetaHandler
end BlueRdma

import BlueRdma.Verbs.Qp
import BlueRdma.Workers.Driver

namespace BlueRdma

/-- A message with the number of the QP it is about. -/
abbrev QpMsg := UInt32 × Msg

namespace Driver

/-- What a worker does with a task whose QP number lies outside the tables: the tasks whose QP is
looked up with `expect` panic, the others are dropped. The handler of read requests looks the QP
up late or not at all. -/
def processUnknown : Worker → Msg → Outcome Msg Unit
  | .rdmaWrite,.rdma (.write wr) => match wr.opcode with
    | .rdmaWrite | .rdmaWriteWithImm | .send | .sendWithImm | .rdmaReadResp | .rdmaRead => ⟨[],some ()⟩
    | _ => ⟨[],none⟩
  | .rdmaWrite,.rdma _ => ⟨[],none⟩
  | .completion,.completion _ => ⟨[],none⟩
  | .metaReport,.report .cnp => ⟨[.timeout .recvMeta],none⟩
  | .metaReport,.report (.headerRead x) =>
    ⟨.timeout .recvMeta::(if x.ackReq then [.completion (.register (.recv (MetaHandler.readEvent x)))]
      else [.rdma (.write (MetaHandler.readResp x))]),some ()⟩
  | .metaReport,.report _ => ⟨[.timeout .recvMeta],some ()⟩
  | .ackResponder,.ack _ => ⟨[],none⟩
  | _,_ => ⟨[],some ()⟩

/-- The maintenance of the timers of all QPs. -/
def maintainance (now : Fin maxQpCnt → Nat) (t : QpTable QpAckTimeout) :
    Outcome QpMsg (QpTable QpAckTimeout) :=
  let r := QpAckTimeoutWorker.maintainAll now (List.finRange maxQpCnt) t
  ⟨r.timedOut.map (fun i => (UInt32.ofNat i.val <<< qpnKeyPartWidth,.retransmit .retransmitAll)),
    if r.exhausted.isSome then none else some r.table⟩

/-- A task changes the entry of its own QP in the worker's table. The attributes are those of the
shared table at the time. -/
def processTable (attrs : QpTable QpAttr) (w : Worker) (c : Fin maxQpCnt → Nat)
    (t : QpTable w.State) (x : QpMsg) : Outcome QpMsg (QpTable w.State) :=
  match QpTable.index? x.1 with
  | some i =>
    let o := process (attrs i) w (c i) (t i) x.2
    ⟨o.msgs.map (fun m => (x.1,m)),o.next.map (Function.update t i)⟩
  | none =>
    let o := processUnknown w x.2
    ⟨o.msgs.map (fun m => (x.1,m)),o.next.map (fun _ => t)⟩

/-- The threads of a device, with the tables of all QPs. -/
def processDevice (attrs : QpTable QpAttr) : (w : Worker) → (Fin maxQpCnt → Nat) →
    QpTable w.State → QpMsg → Outcome QpMsg (QpTable w.State)
  | .ackTimeout,c,t,(_,.tick) => maintainance c t
  | w,c,t,x => processTable attrs w c t x

theorem processDevice_tick (attrs : QpTable QpAttr) (c : Fin maxQpCnt → Nat)
    (t : QpTable QpAckTimeout) (qpn : UInt32) :
    processDevice attrs .ackTimeout c t (qpn,.tick)=maintainance c t := rfl

theorem processDevice_task (attrs : QpTable QpAttr) (w : Worker) (c : Fin maxQpCnt → Nat)
    (t : QpTable w.State) (qpn : UInt32) (m : Msg) (h : ¬(w=.ackTimeout ∧ m=.tick)) :
    processDevice attrs w c t (qpn,m)=processTable attrs w c t (qpn,m) := by
  cases w with
  | ackTimeout =>
      cases m with
      | tick => exact absurd ⟨rfl,rfl⟩ h
      | _ => rfl
  | _ => rfl

/-- Each worker of a device sends messages of its own kinds only. -/
theorem processDevice_emits (attrs : QpTable QpAttr) (w : Worker) (c : Fin maxQpCnt → Nat)
    (t : QpTable w.State) (qpn : UInt32) (m : Msg) :
    ∀ x∈(processDevice attrs w c t (qpn,m)).msgs,Emits w x.2 := by
  intro x hx
  by_cases hmain : w=.ackTimeout ∧ m=.tick
  · obtain ⟨rfl,rfl⟩ := hmain
    rw [processDevice_tick,maintainance] at hx
    generalize QpAckTimeoutWorker.maintainAll c (List.finRange maxQpCnt) t=r at hx
    obtain ⟨i,-,rfl⟩ := List.mem_map.mp hx
    constructor
  rw [processDevice_task attrs w c t qpn m hmain,processTable] at hx
  rcases hi : QpTable.index? qpn with _|i
  · rw [hi] at hx
    obtain ⟨y,hy,rfl⟩ := List.mem_map.mp hx
    unfold processUnknown at hy
    split at hy
    case h_1 => split at hy <;> cases hy
    case h_5 =>
      rcases List.mem_cons.mp hy with rfl|hy
      · constructor
      · split_ifs at hy
        all_goals
          obtain rfl := List.mem_singleton.mp hy
          constructor
    case h_4 =>
      obtain rfl := List.mem_singleton.mp hy
      constructor
    case h_6 =>
      obtain rfl := List.mem_singleton.mp hy
      constructor
    all_goals cases hy
  · rw [hi] at hx
    obtain ⟨y,hy,rfl⟩ := List.mem_map.mp hx
    exact process_emits (attrs i) w (c i) (t i) m y hy

end Driver

/-- The workers of a device. -/
def deviceProgram (attrs : QpTable QpAttr) :
    Program Worker (fun w => QpTable w.State) (Fin maxQpCnt → Nat) QpMsg :=
  ⟨fun x => Driver.dest x.2,Driver.processDevice attrs⟩

/-- A device: what the verbs keep, and the worker threads. -/
structure Device where
  ctx : HwDeviceCtx
  net : Net Worker (fun w => QpTable w.State) QpMsg

/-- Calls of the verbs with the operating system's answers, receives and metas that arrive, turns
of the workers, and threads that die. -/
inductive DeviceLabel
  | createQp (attr : IbvQpInitAttr) (key : UInt8)
  | updateQp (qpn : UInt32) (attr : IbvQpAttr) (io : ChannelIo)
  | destroyQp (qpn : UInt32)
  | postSend (qpn : UInt32) (wr : SendWr)
  | postRecv (qpn : UInt32) (wr : RecvWr) (io : ChannelIo)
  | arrive (i : Fin maxQpCnt) (wr : RecvWr)
  | report (qpn : UInt32) (m : ReportMeta)
  | tick
  | work (w : Worker) (c : Fin maxQpCnt → Nat)
  | crash (w : Worker)

namespace Device

def initialized (ip : UInt32) (config : AckTimeoutConfig) : Device where
  ctx := .initialized ip
  net := {state := fun w => some (.newWith (Driver.fresh config w))}

/-- A step of the threads, with the attributes as they are now. -/
def run1 (d : Device) (l : NetLabel Worker (Fin maxQpCnt → Nat) QpMsg) : Device :=
  {d with net := d.net.step (deviceProgram d.ctx.qpAttrTable) l}

def postAll (d : Device) (ms : List QpMsg) : Device := ms.foldl (fun d m => d.run1 (.post m)) d

def step (d : Device) : DeviceLabel → Device
  | .createQp attr key => {d with ctx := (d.ctx.createQp attr key).next}
  | .updateQp qpn attr io => {d with ctx := (d.ctx.updateQp qpn attr io).next}
  | .destroyQp qpn => {d with ctx := (d.ctx.destroyQp qpn).next}
  | .postSend qpn wr =>
    let c := (d.ctx.postSendOn qpn wr).next
    postAll {d with ctx := c.1} (c.2.map (fun t => (qpn,.rdma t)))
  | .postRecv qpn wr io =>
    let c := (d.ctx.postRecv qpn wr io).next
    -- the task goes out before the channel is used, so a dead worker stops the call there
    if c.2=[] ∨ (d.net.state .completion).isSome then
      postAll {d with ctx := c.1} (c.2.map (fun t => (qpn,.completion t)))
    else d
  | .arrive i wr =>
    if (d.ctx.postRecvTxTable i).isSome then {d with ctx := d.ctx.recvArrived i wr} else d
  | .report qpn m => d.run1 (.post (qpn,.report m))
  | .tick => d.run1 (.post (0,.tick))
  | .work w c => d.run1 (.work w c)
  | .crash w => d.run1 (.crash w)

def run (ip : UInt32) (config : AckTimeoutConfig) (ls : List DeviceLabel) : Device :=
  Run.run step (initialized ip config) ls

/-- What every message from outside, every death of a thread and the turn in question keep of the
threads, the step keeps. -/
theorem step_net (Inv : Net Worker (fun w => QpTable w.State) QpMsg → Prop) (d : Device)
    (l : DeviceLabel)
    (hpost : ∀ attrs n x,Driver.External x.2=true → Inv n →
      Inv (n.step (deviceProgram attrs) (.post x)))
    (hcrash : ∀ attrs n w,Inv n → Inv (n.step (deviceProgram attrs) (.crash w)))
    (hwork : ∀ w c,l=.work w c →
      Inv (d.net.step (deviceProgram d.ctx.qpAttrTable) (.work w c)))
    (h : Inv d.net) : Inv (d.step l).net := by
  have hall : ∀ (ms : List QpMsg) (d : Device),(∀ x∈ms,Driver.External x.2=true) → Inv d.net →
      Inv (d.postAll ms).net := by
    intro ms
    induction ms with
    | nil => exact fun d _ h => h
    | cons m ms ih =>
        intro d hms h
        exact ih (d.run1 (.post m)) (fun x hx => hms x (List.mem_cons_of_mem m hx))
          (hpost _ _ m (hms m List.mem_cons_self) h)
  cases l with
  | createQp attr key => exact h
  | updateQp qpn attr io => exact h
  | destroyQp qpn => exact h
  | postSend qpn wr =>
      refine hall _ _ ?_ h
      intro x hx
      obtain ⟨t,ht,rfl⟩ := List.mem_map.mp hx
      obtain ⟨wr',rfl⟩ := d.ctx.postSendOn_write qpn wr t ht
      rfl
  | postRecv qpn wr io =>
      simp only [step]
      split_ifs
      · refine hall _ _ ?_ h
        intro x hx
        obtain ⟨t,ht,rfl⟩ := List.mem_map.mp hx
        obtain ⟨e,rfl⟩ := d.ctx.postRecv_register qpn wr io t ht
        rfl
      · exact h
  | arrive i wr =>
      simp only [step]
      split_ifs <;> exact h
  | report qpn m => exact hpost _ _ _ rfl h
  | tick => exact hpost _ _ _ rfl h
  | work w c => exact hwork w c rfl
  | crash w => exact hcrash d.ctx.qpAttrTable d.net w h

end Device
end BlueRdma

import BlueRdma.Protocol.FailingSend

namespace BlueRdma

/-- The device's contexts, taken to be the last entry sent for each index: what the card keeps of it
is not part of the driver. -/
def deviceQpTable (cmds : List CmdQueueDesc) : QpTable (Option UpdateQp) :=
  cmds.foldl (fun t c => match c with
    | .manageQp x => t.mapQpMut x.qpn (fun _ => some x)
    | .updateMrTable _ | .updatePgt _ _ => t) (.newWith none)

theorem deviceQpTable_concat (cmds : List CmdQueueDesc) (x : UpdateQp) :
    deviceQpTable (cmds++[.manageQp x])=(deviceQpTable cmds).mapQpMut x.qpn (fun _ => some x) := by
  rw [deviceQpTable,List.foldl_append]
  rfl

/-- The entry that says of a QP what the driver's table says. -/
def QpAttr.entry (a : QpAttr) : UpdateQp where
  ipAddr := a.dqpIp
  qpn := a.qpn
  peerQpn := a.dqpn
  rqAccessFlags := a.accessFlags
  qpType := a.qpType
  pmtu := a.pmtu
  localUdpPort := 0x100
  peerMacAddr := a.macAddr

/-- The entry of a QP that was created and not updated. -/
def QpAttr.blankEntry (a : QpAttr) : UpdateQp :=
  {localUdpPort := 0x100,qpType := a.qpType,qpn := a.qpn}

namespace QpContext

/-- The call that wrote the context of an index last. -/
inductive Write
  | created
  | updated (qpn : UInt32)
  deriving DecidableEq

/-- A device together with the indices at which a QP has been created and the last writes of all
indices. -/
structure Tracked where
  device : Device
  created : QpTable Bool
  writes : QpTable (Option Write)

def initialized (ip : UInt32) (config : AckTimeoutConfig) : Tracked :=
  ⟨.initialized ip config,.newWith false,.newWith none⟩

def step (s : Tracked) (l : DeviceLabel) : Tracked := match l with
  | .createQp attr key => match (s.device.ctx.createQp attr key).result with
    | some (.ok qpn) => ⟨s.device.step l,s.created.mapQpMut qpn (fun _ => true),
        s.writes.mapQpMut qpn (fun _ => some .created)⟩
    | _ => {s with device := s.device.step l}
  | .updateQp qpn _ _ =>
      {s with device := s.device.step l
              writes := s.writes.mapQpMut qpn (fun _ => some (.updated qpn))}
  | _ => {s with device := s.device.step l}

theorem step_device (s : Tracked) (l : DeviceLabel) : (step s l).device=s.device.step l := by
  cases l with
  | createQp attr key =>
      rw [step]
      split <;> rfl
  | _ => rfl

theorem run_device (ls : List DeviceLabel) (s : Tracked) :
    (Run.run step s ls).device=Run.run Device.step s.device ls := by
  induction ls generalizing s with
  | nil => rfl
  | cons l ls ih =>
      have hrest := ih (step s l)
      rw [step_device] at hrest
      exact hrest

/-- What the device was told about an index fits the last write. -/
def Told (a : QpAttr) (entry : Option UpdateQp) : Option Write → Prop
  | none => entry=none
  | some .created => entry=some a.blankEntry
  | some (.updated qpn) => entry=some {a.entry with qpn := qpn,peerMacAddr := cardMacAddress}

/-- The row of an index: the driver sets the address of the card when it creates a QP and nowhere
else. -/
structure Row (a : QpAttr) (entry : Option UpdateQp) (created : Bool) (w : Option Write) :
    Prop where
  told : Told a entry w
  macAddr : a.macAddr=if created then cardMacAddress else 0
  created : w=some .created → created=true

def Inv (s : Tracked) : Prop :=
  ∀ i,Row (s.device.ctx.qpAttrTable i) (deviceQpTable s.device.ctx.cmds i) (s.created i)
    (s.writes i)

theorem Row.create (a : QpAttr) (qpn : UInt32) (attr : IbvQpInitAttr) :
    Row (a.create qpn attr) (some {localUdpPort := 0x100,qpType := attr.qpType,qpn := qpn}) true
      (some .created) := ⟨rfl,rfl,fun _ => rfl⟩

theorem Row.update {a : QpAttr} {entry : Option UpdateQp} {created : Bool} {w : Option Write}
    (h : Row a entry created w) (qpn : UInt32) (attr : IbvQpAttr) :
    Row (a.update (a.updateEntry qpn attr)) (some (a.updateEntry qpn attr)) created
      (some (.updated qpn)) := ⟨rfl,h.macAddr,by simp⟩

/-- The device's context is that of the table exactly if the QP exists and was updated last under
the number the table has. -/
theorem Row.mirrored_iff {a : QpAttr} {entry : Option UpdateQp} {created : Bool} {w : Option Write}
    (h : Row a entry created w) :
    entry=some a.entry ↔ created=true ∧ w=some (.updated a.qpn) := by
  obtain ⟨htold,hmac,hcreated⟩ := h
  have hcard : (0 : UInt64)≠cardMacAddress := by decide
  rcases w with _|_|qpn
  · rw [show entry=none from htold]
    simp
  · rw [if_pos (hcreated rfl)] at hmac
    rw [show entry=some a.blankEntry from htold,Option.some.injEq]
    refine iff_of_false (fun h => hcard ?_) (by simp)
    exact (congrArg UpdateQp.peerMacAddr h).trans hmac
  · rw [show entry=some {a.entry with qpn := qpn,peerMacAddr := cardMacAddress} from htold,
      Option.some.injEq,Option.some.injEq,Write.updated.injEq]
    constructor
    · intro h
      have hcard' : cardMacAddress=a.macAddr := congrArg UpdateQp.peerMacAddr h
      refine ⟨?_,congrArg UpdateQp.qpn h⟩
      by_contra hno
      rw [if_neg hno] at hmac
      exact hcard (hmac.symm.trans hcard'.symm)
    · rintro ⟨rfl,rfl⟩
      rw [if_pos rfl] at hmac
      rw [← hmac]
      rfl

/-- A call that writes one row; those at other indices stay as they were. -/
theorem row_write (s : Tracked) (h : Inv s) (qpn : UInt32) (k : Fin maxQpCnt) (a : QpAttr)
    (x : UpdateQp) (created : QpTable Bool) (w : Write) (hk : QpTable.index? qpn=some k)
    (hx : x.qpn=qpn) (hrow : Row a (some x) (created k) (some w))
    (hcreated : ∀ i,i≠k → created i=s.created i) (i : Fin maxQpCnt) :
    Row (Function.update s.device.ctx.qpAttrTable k a i)
      (deviceQpTable (s.device.ctx.cmds++[.manageQp x]) i) (created i)
      (s.writes.mapQpMut qpn (fun _ => some w) i) := by
  rw [deviceQpTable_concat,hx,QpTable.mapQpMut_of_index _ _ _ k hk,
    QpTable.mapQpMut_of_index _ _ _ k hk]
  by_cases hi : i=k
  · subst hi
    rw [Function.update_self,Function.update_self,Function.update_self]
    exact hrow
  · rw [Function.update_of_ne hi,Function.update_of_ne hi,Function.update_of_ne hi,hcreated i hi]
    exact h i

theorem postSendOn_frame (d : HwDeviceCtx) (qpn : UInt32) (wr : SendWr) :
    (d.postSendOn qpn wr).next.1.qpAttrTable=d.qpAttrTable ∧
    (d.postSendOn qpn wr).next.1.cmds=d.cmds := by
  unfold HwDeviceCtx.postSendOn
  split
  · exact ⟨rfl,rfl⟩
  · exact ⟨rfl,rfl⟩
  · dsimp only
    split <;> exact ⟨rfl,rfl⟩

theorem postRecv_frame (d : HwDeviceCtx) (qpn : UInt32) (wr : RecvWr) (io : ChannelIo) :
    (d.postRecv qpn wr io).next.1.qpAttrTable=d.qpAttrTable ∧
    (d.postRecv qpn wr io).next.1.cmds=d.cmds := by
  unfold HwDeviceCtx.postRecv
  split
  · exact ⟨rfl,rfl⟩
  · dsimp only
    split <;> exact ⟨rfl,rfl⟩

theorem createQp_inv (s : Tracked) (h : Inv s) (attr : IbvQpInitAttr) (key : UInt8) :
    Inv (step s (.createQp attr key)) := by
  rcases hm : s.device.ctx.qpManager.createQp key with ⟨_|qpn,m⟩
  · have hctx : s.device.ctx.createQp attr key=⟨{s.device.ctx with qpManager := m},
        some (.error (.resourceExhausted "No QP numbers available"))⟩ := by
      rw [HwDeviceCtx.createQp,hm]
    intro i
    simp only [step,Device.step,hctx]
    exact h i
  · obtain ⟨k,hk,-⟩ := s.device.ctx.qpManager.createQp_some m key qpn hm
    have hctx : s.device.ctx.createQp attr key=⟨{s.device.ctx with
        qpManager := m
        qpAttrTable := s.device.ctx.qpAttrTable.mapQpMut qpn (fun a => a.create qpn attr)
        cmds := s.device.ctx.cmds++
          [.manageQp {localUdpPort := 0x100,qpType := attr.qpType,qpn := qpn}]},
        some (.ok qpn)⟩ := by
      rw [HwDeviceCtx.createQp,hm]
    intro i
    simp only [step,Device.step,hctx]
    rw [QpTable.mapQpMut_of_index _ _ _ k hk,QpTable.mapQpMut_of_index s.created _ _ k hk]
    refine row_write s h qpn k _ _ _ _ hk rfl ?_ ?_ i
    · rw [Function.update_self]
      exact Row.create _ qpn attr
    · exact fun j hj => Function.update_of_ne hj ..

theorem updateQp_inv (s : Tracked) (h : Inv s) (qpn : UInt32) (attr : IbvQpAttr) (io : ChannelIo) :
    Inv (step s (.updateQp qpn attr io)) := by
  rcases hk : QpTable.index? qpn with _|k
  · have hctx : (s.device.ctx.updateQp qpn attr io).next=s.device.ctx := by
      rw [HwDeviceCtx.updateQp,hk]
    intro i
    simp only [step,Device.step,hctx,QpTable.mapQpMut,hk]
    exact h i
  · have hctx : (s.device.ctx.updateQp qpn attr io).next.qpAttrTable=
          Function.update s.device.ctx.qpAttrTable k ((s.device.ctx.qpAttrTable k).update
            ((s.device.ctx.qpAttrTable k).updateEntry qpn attr)) ∧
        (s.device.ctx.updateQp qpn attr io).next.cmds=s.device.ctx.cmds++
          [.manageQp ((s.device.ctx.qpAttrTable k).updateEntry qpn attr)] := by
      rw [HwDeviceCtx.updateQp,hk]
      dsimp only
      split_ifs
      · split <;> exact ⟨rfl,rfl⟩
      · exact ⟨rfl,rfl⟩
    intro i
    simp only [step,Device.step]
    rw [hctx.1,hctx.2]
    exact row_write s h qpn k _ _ _ _ hk rfl ((h k).update qpn attr) (fun _ _ => rfl) i

theorem step_inv (s : Tracked) (l : DeviceLabel) (h : Inv s) : Inv (step s l) := by
  cases l with
  | createQp attr key => exact createQp_inv s h attr key
  | updateQp qpn attr io => exact updateQp_inv s h qpn attr io
  | destroyQp qpn =>
      have hctx : (s.device.ctx.destroyQp qpn).next.qpAttrTable=s.device.ctx.qpAttrTable ∧
          (s.device.ctx.destroyQp qpn).next.cmds=s.device.ctx.cmds := by
        unfold HwDeviceCtx.destroyQp
        split <;> exact ⟨rfl,rfl⟩
      intro i
      simp only [step,Device.step]
      rw [hctx.1,hctx.2]
      exact h i
  | postSend qpn wr =>
      obtain ⟨hattrs,hcmds⟩ := postSendOn_frame s.device.ctx qpn wr
      intro i
      simp only [step,Device.step,FailingSend.postAll_ctx]
      rw [hattrs,hcmds]
      exact h i
  | postRecv qpn wr io =>
      obtain ⟨hattrs,hcmds⟩ := postRecv_frame s.device.ctx qpn wr io
      intro i
      simp only [step,Device.step]
      split_ifs
      · rw [FailingSend.postAll_ctx,hattrs,hcmds]
        exact h i
      · exact h i
  | arrive j wr =>
      intro i
      simp only [step,Device.step]
      split_ifs <;> exact h i
  | report qpn m => exact h
  | tick => exact h
  | work w c => exact h
  | crash w => exact h

/-- The run with its created indices and last writes. -/
def tracked (ip : UInt32) (config : AckTimeoutConfig) (ls : List DeviceLabel) : Tracked :=
  Run.run step (initialized ip config) ls

/-- In every run of the verbs and the workers, the last context the device was sent for an index
says what the driver's table says exactly if a QP was created there and the last call that wrote it
was an `update_qp` under the number the table has for the QP: between `create_qp` and the first
update, after an update under an old number with the same index, and after an update of an index
without a QP, the two differ. -/
theorem qp_context_mirrored_iff (ip : UInt32) (config : AckTimeoutConfig) (ls : List DeviceLabel)
    (i : Fin maxQpCnt) :
    deviceQpTable (Device.run ip config ls).ctx.cmds i=
      some ((Device.run ip config ls).ctx.qpAttrTable i).entry ↔
    (tracked ip config ls).created i=true ∧ (tracked ip config ls).writes i=
      some (.updated ((Device.run ip config ls).ctx.qpAttrTable i).qpn) := by
  have hinit : Inv (initialized ip config) := fun _ => ⟨rfl,rfl,by rintro ⟨⟩⟩
  have hrow := Run.run_inv_all step Inv step_inv (initialized ip config) ls hinit i
  rw [run_device] at hrow
  exact hrow.mirrored_iff

end QpContext
end BlueRdma

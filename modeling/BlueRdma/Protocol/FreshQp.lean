import BlueRdma.Workers.Device

namespace BlueRdma
namespace FreshQp

/-- The state of the QP at an index is the same in two devices, in every table that still has
its worker. -/
structure SameQp (i : Fin maxQpCnt) (d d' : Device) : Prop where
  attr : d.ctx.qpAttrTable i=d'.ctx.qpAttrTable i
  channel : d.ctx.postRecvTxTable i=d'.ctx.postRecvTxTable i
  receives : d.ctx.recvWrQueueTable i=d'.ctx.recvWrQueueTable i
  workers : ∀ w t t',d.net.state w=some t → d'.net.state w=some t' → t i=t' i

/-- The QP number a call or a meta names, except for creation and destruction. -/
def qpnOf : DeviceLabel → Option UInt32
  | .updateQp qpn _ _ | .postSend qpn _ | .postRecv qpn _ _ | .report qpn _ => some qpn
  | _ => none

/-- The call or meta is about the QP at the index. -/
def Addresses (i : Fin maxQpCnt) (l : DeviceLabel) : Prop := ∃ qpn∈qpnOf l,QpTable.index? qpn=some i

/-- Nothing has been done with the QP at the index but to create and destroy it. -/
structure Untouched (ip : UInt32) (config : AckTimeoutConfig) (i : Fin maxQpCnt) (d : Device) :
    Prop where
  attr : ∀ qpn attr,(d.ctx.qpAttrTable i).create qpn attr=(QpAttr.newWithIp ip).create qpn attr
  channel : d.ctx.postRecvTxTable i=none
  receives : d.ctx.recvWrQueueTable i=[]
  workers : ∀ w t,d.net.state w=some t → t i=Driver.fresh config w
  inbox : ∀ w,∀ x∈d.net.inbox w,x.2=.tick ∨ QpTable.index? x.1≠some i

theorem create_create (a : QpAttr) (qpn qpn' : UInt32) (attr attr' : IbvQpInitAttr) :
    (a.create qpn attr).create qpn' attr'=a.create qpn' attr' := rfl

/-- A timer that does not run is left alone. -/
theorem maintainAll_stopped (now : Fin maxQpCnt → Nat) (i : Fin maxQpCnt)
    (is : List (Fin maxQpCnt)) (t : QpTable QpAckTimeout) (h : (t i).timer.lastStart=none) :
    (QpAckTimeoutWorker.maintainAll now is t).table i=t i ∧
    i∉(QpAckTimeoutWorker.maintainAll now is t).timedOut := by
  have hok : ((t i).timer.checkTimeout (now i)).1=.ok := by
    unfold TransportTimer.checkTimeout
    rw [h]
    split <;> first | rfl | simp_all
  induction is generalizing t with
  | nil => exact ⟨rfl,List.not_mem_nil⟩
  | cons j is ih =>
      rw [QpAckTimeoutWorker.maintainAll]
      split
      · exact ih t h hok
      · next timer hj =>
          have hne : i≠j := by
            rintro rfl
            rw [hj] at hok
            cases hok
          have hkeep : Function.update t j {t j with timer := timer} i=t i :=
            Function.update_of_ne hne ..
          obtain ⟨htable,hnot⟩ := ih (Function.update t j {t j with timer := timer})
            (by rw [hkeep]; exact h) (by rw [hkeep]; exact hok)
          rw [hkeep] at htable
          exact ⟨htable,List.not_mem_cons_of_ne_of_not_mem hne hnot⟩
      · exact ⟨rfl,List.not_mem_nil⟩

theorem index?_shift (j : Fin maxQpCnt) :
    QpTable.index? (UInt32.ofNat j.val <<< qpnKeyPartWidth)=some j := by
  have hindex := QpManager.qpnToIndex_or j.val 0 j.isLt
  rw [show (0 : UInt8).toUInt32=0 from rfl,UInt32.or_zero] at hindex
  rw [QpTable.index?,dif_pos (by rw [hindex]; exact j.isLt)]
  simp only [hindex]

theorem maintainance_local (now : Fin maxQpCnt → Nat) (t : QpTable QpAckTimeout)
    (i : Fin maxQpCnt) (h : (t i).timer.lastStart=none) :
    (∀ t'∈(Driver.maintainance now t).next,t' i=t i) ∧
    ∀ y∈(Driver.maintainance now t).msgs,QpTable.index? y.1≠some i := by
  obtain ⟨hkeep,hnot⟩ := maintainAll_stopped now i (List.finRange maxQpCnt) t h
  unfold Driver.maintainance
  generalize QpAckTimeoutWorker.maintainAll now (List.finRange maxQpCnt) t=r at hkeep hnot
  refine ⟨?_,?_⟩
  · intro t' ht'
    dsimp only at ht'
    split_ifs at ht'
    · cases ht'
    · obtain rfl := Option.some.inj ht'
      exact hkeep
  · intro y hy
    obtain ⟨j,hj,rfl⟩ := List.mem_map.mp hy
    rw [index?_shift]
    intro heq
    exact hnot (Option.some.inj heq ▸ hj)

/-- A worker's turn touches only the QP its task is about. -/
theorem processDevice_local (config : AckTimeoutConfig) (attrs : QpTable QpAttr) (w : Worker)
    (c : Fin maxQpCnt → Nat) (t : QpTable w.State) (x : QpMsg) (i : Fin maxQpCnt)
    (ht : t i=Driver.fresh config w) (hx : x.2=.tick ∨ QpTable.index? x.1≠some i) :
    (∀ t'∈(Driver.processDevice attrs w c t x).next,t' i=t i) ∧
    ∀ y∈(Driver.processDevice attrs w c t x).msgs,QpTable.index? y.1≠some i := by
  obtain ⟨qpn,m⟩ := x
  have htable : (w≠.ackTimeout ∨ m≠.tick) →
      (∀ t'∈(Driver.processTable attrs w c t (qpn,m)).next,t' i=t i) ∧
      ∀ y∈(Driver.processTable attrs w c t (qpn,m)).msgs,QpTable.index? y.1≠some i := by
    intro hw
    unfold Driver.processTable
    split
    · next j hj =>
        by_cases htick : m=.tick
        · -- a worker without timers ignores the clock
          subst htick
          have hproc : Driver.process (attrs j) w (c j) (t j) .tick=⟨[],some (t j)⟩ := by
            cases w <;> first | rfl | simp at hw
          dsimp only
          rw [hproc]
          refine ⟨?_,fun y hy => absurd hy List.not_mem_nil⟩
          intro t' ht'
          obtain rfl := Option.some.inj ht'
          rw [Function.update_eq_self]
        · have hne : i≠j := by
            rintro rfl
            exact hx.resolve_left htick hj
          refine ⟨?_,?_⟩
          · intro t' ht'
            obtain ⟨s,-,rfl⟩ := Option.map_eq_some_iff.mp ht'
            exact Function.update_of_ne hne ..
          · intro y hy
            obtain ⟨m',-,rfl⟩ := List.mem_map.mp hy
            exact hx.resolve_left htick
    · next hj =>
        refine ⟨?_,?_⟩
        · intro t' ht'
          obtain ⟨s,-,rfl⟩ := Option.map_eq_some_iff.mp ht'
          rfl
        · intro y hy
          obtain ⟨m',-,rfl⟩ := List.mem_map.mp hy
          change QpTable.index? qpn≠some i
          rw [show QpTable.index? qpn=none from hj]
          exact Option.some_ne_none i |>.symm
  by_cases hmain : w=.ackTimeout ∧ m=.tick
  · obtain ⟨rfl,rfl⟩ := hmain
    have hstopped : (t i).timer.lastStart=none := by
      rw [ht]
      rfl
    rw [Driver.processDevice_tick]
    exact maintainance_local c t i hstopped
  · rw [Driver.processDevice_task attrs w c t qpn m hmain]
    exact htable (by tauto)

theorem Untouched.post (ip : UInt32) (config : AckTimeoutConfig) (i : Fin maxQpCnt) (d : Device)
    (x : QpMsg) (h : Untouched ip config i d) (hx : x.2=.tick ∨ QpTable.index? x.1≠some i) :
    Untouched ip config i (d.run1 (.post x)) := by
  refine ⟨h.attr,h.channel,h.receives,h.workers,?_⟩
  intro w y hy
  rcases List.mem_append.mp hy with hy|hy
  · exact h.inbox w y hy
  · have hy := ((Net.mem_addressed _ w _ y).mp hy).1
    obtain rfl := List.mem_singleton.mp ((List.takeWhile_prefix _).subset hy)
    exact hx

theorem Untouched.postAll (ip : UInt32) (config : AckTimeoutConfig) (i : Fin maxQpCnt) (d : Device)
    (ms : List QpMsg) (h : Untouched ip config i d)
    (hms : ∀ x∈ms,QpTable.index? x.1≠some i) : Untouched ip config i (d.postAll ms) := by
  induction ms generalizing d with
  | nil => exact h
  | cons m ms ih =>
      exact ih (d.run1 (.post m)) (h.post ip config i d m (Or.inr (hms m List.mem_cons_self)))
        (fun x hx => hms x (List.mem_cons_of_mem _ hx))

theorem Untouched.work (ip : UInt32) (config : AckTimeoutConfig) (i : Fin maxQpCnt) (d : Device)
    (w : Worker) (c : Fin maxQpCnt → Nat) (h : Untouched ip config i d) :
    Untouched ip config i (d.run1 (.work w c)) := by
  rcases Net.work_cases (deviceProgram d.ctx.qpAttrTable) d.net w c with heq|⟨t,x,rest,sent,ht⟩
  · rw [Device.run1,Net.step,heq]
    exact h
  · have hx := h.inbox w x (by rw [ht.head]; exact List.mem_cons_self)
    obtain ⟨hnext,hmsgs⟩ := processDevice_local config d.ctx.qpAttrTable w c t x i
      (h.workers w t ht.alive) hx
    refine ⟨h.attr,h.channel,h.receives,?_,?_⟩
    · intro w' t' ht'
      by_cases hw : w'=w
      · subst hw
        rcases ht.state_self with hnone|⟨hsome,-⟩
        · have hdead := hnone.symm.trans ht'
          cases hdead
        · rw [hnext t' (hsome.symm.trans ht')]
          exact h.workers w' t ht.alive
      · exact h.workers w' t' ((ht.state_other w' hw).symm.trans ht')
    · intro w' y hy
      rcases ht.mem_inbox _ _ _ _ _ _ _ _ _ w' y hy with hy|hy
      · exact h.inbox w' y hy
      · exact Or.inr (hmsgs y (ht.sent_prefix.subset hy))

theorem Untouched.createQp (ip : UInt32) (config : AckTimeoutConfig) (i : Fin maxQpCnt)
    (d : Device) (attr : IbvQpInitAttr) (key : UInt8) (h : Untouched ip config i d) :
    Untouched ip config i {d with ctx := (d.ctx.createQp attr key).next} := by
  rcases hm : d.ctx.qpManager.createQp key with ⟨_|qpn,m⟩
  · have hctx : (d.ctx.createQp attr key).next={d.ctx with qpManager := m} := by
      rw [HwDeviceCtx.createQp,hm]
    rw [hctx]
    exact ⟨h.attr,h.channel,h.receives,h.workers,h.inbox⟩
  · have hattr : (d.ctx.createQp attr key).next.qpAttrTable=
        d.ctx.qpAttrTable.mapQpMut qpn (fun current => current.create qpn attr) := by
      rw [HwDeviceCtx.createQp,hm]
    obtain ⟨hchannel,hreceives⟩ := d.ctx.createQp_frame attr key
    refine ⟨?_,?_,?_,h.workers,h.inbox⟩
    · dsimp only
      rw [hattr]
      -- creating the QP again overwrites what its creation has written
      refine QpTable.mapQpMut_forall d.ctx.qpAttrTable qpn _
        (fun j a => j=i → ∀ qpn attr,a.create qpn attr=(QpAttr.newWithIp ip).create qpn attr)
        ?_ ?_ i rfl
      · rintro j rfl
        exact h.attr
      · intro j _ hj hji qpn' attr'
        rw [create_create]
        exact hj hji qpn' attr'
    · dsimp only
      rw [hchannel]
      exact h.channel
    · dsimp only
      rw [hreceives]
      exact h.receives

/-- Calls that name another QP leave its part of the context alone. -/
theorem updateQp_local (d : HwDeviceCtx) (qpn : UInt32) (attr : IbvQpAttr) (io : ChannelIo)
    (i : Fin maxQpCnt) (h : QpTable.index? qpn≠some i) :
    (d.updateQp qpn attr io).next.qpAttrTable i=d.qpAttrTable i ∧
    (d.updateQp qpn attr io).next.postRecvTxTable i=d.postRecvTxTable i ∧
    (d.updateQp qpn attr io).next.recvWrQueueTable i=d.recvWrQueueTable i := by
  unfold HwDeviceCtx.updateQp
  split
  · exact ⟨rfl,rfl,rfl⟩
  next j hj =>
  have hne : i≠j := by
    rintro rfl
    exact h hj
  dsimp only
  split_ifs
  · split
    · exact ⟨Function.update_of_ne hne ..,rfl,rfl⟩
    · exact ⟨Function.update_of_ne hne ..,Function.update_of_ne hne ..,rfl⟩
  · exact ⟨Function.update_of_ne hne ..,rfl,rfl⟩

theorem postSendOn_local (d : HwDeviceCtx) (qpn : UInt32) (wr : SendWr) (i : Fin maxQpCnt)
    (h : QpTable.index? qpn≠some i) :
    (d.postSendOn qpn wr).next.1.qpAttrTable i=d.qpAttrTable i ∧
    (d.postSendOn qpn wr).next.1.postRecvTxTable i=d.postRecvTxTable i ∧
    (d.postSendOn qpn wr).next.1.recvWrQueueTable i=d.recvWrQueueTable i := by
  unfold HwDeviceCtx.postSendOn
  split
  · exact ⟨rfl,rfl,rfl⟩
  · exact ⟨rfl,rfl,rfl⟩
  next j hj =>
  have hne : i≠j := by
    rintro rfl
    exact h hj
  dsimp only
  split <;> exact ⟨rfl,rfl,Function.update_of_ne hne ..⟩

theorem postRecv_local (d : HwDeviceCtx) (qpn : UInt32) (wr : RecvWr) (io : ChannelIo)
    (i : Fin maxQpCnt) (h : QpTable.index? qpn≠some i) :
    (d.postRecv qpn wr io).next.1.qpAttrTable i=d.qpAttrTable i ∧
    (d.postRecv qpn wr io).next.1.postRecvTxTable i=d.postRecvTxTable i ∧
    (d.postRecv qpn wr io).next.1.recvWrQueueTable i=d.recvWrQueueTable i := by
  unfold HwDeviceCtx.postRecv
  split
  · exact ⟨rfl,rfl,rfl⟩
  next j hj =>
  have hne : i≠j := by
    rintro rfl
    exact h hj
  dsimp only
  split
  · exact ⟨rfl,rfl,rfl⟩
  · exact ⟨rfl,Function.update_of_ne hne ..,rfl⟩

theorem Untouched.ctx (ip : UInt32) (config : AckTimeoutConfig) (i : Fin maxQpCnt) (d : Device)
    (c : HwDeviceCtx) (h : Untouched ip config i d)
    (hc : c.qpAttrTable i=d.ctx.qpAttrTable i ∧ c.postRecvTxTable i=d.ctx.postRecvTxTable i ∧
      c.recvWrQueueTable i=d.ctx.recvWrQueueTable i) :
    Untouched ip config i {d with ctx := c} := by
  obtain ⟨hattr,hchannel,hreceives⟩ := hc
  refine ⟨?_,?_,?_,h.workers,h.inbox⟩
  · intro qpn attr
    dsimp only
    rw [hattr]
    exact h.attr qpn attr
  · exact hchannel.trans h.channel
  · exact hreceives.trans h.receives

theorem step_untouched (ip : UInt32) (config : AckTimeoutConfig) (i : Fin maxQpCnt) (d : Device)
    (l : DeviceLabel) (hl : ¬Addresses i l) (h : Untouched ip config i d) :
    Untouched ip config i (d.step l) := by
  have hother : ∀ qpn,qpnOf l=some qpn → QpTable.index? qpn≠some i :=
    fun qpn hqpn hi => hl ⟨qpn,hqpn,hi⟩
  cases l with
  | createQp attr key => exact h.createQp ip config i d attr key
  | updateQp qpn attr io =>
      exact h.ctx ip config i d _ (updateQp_local d.ctx qpn attr io i (hother qpn rfl))
  | destroyQp qpn =>
      refine h.ctx ip config i d _ ?_
      unfold HwDeviceCtx.destroyQp
      split <;> exact ⟨rfl,rfl,rfl⟩
  | postSend qpn wr =>
      refine (h.ctx ip config i d _ (postSendOn_local d.ctx qpn wr i (hother qpn rfl))).postAll
        ip config i _ _ ?_
      intro x hx
      obtain ⟨t,-,rfl⟩ := List.mem_map.mp hx
      exact hother qpn rfl
  | postRecv qpn wr io =>
      simp only [Device.step]
      split_ifs
      · refine (h.ctx ip config i d _ (postRecv_local d.ctx qpn wr io i (hother qpn rfl))).postAll
          ip config i _ _ ?_
        intro x hx
        obtain ⟨t,-,rfl⟩ := List.mem_map.mp hx
        exact hother qpn rfl
      · exact h
  | arrive j wr =>
      simp only [Device.step]
      split_ifs with hopen
      · have hne : i≠j := by
          rintro rfl
          rw [h.channel] at hopen
          cases hopen
        exact h.ctx ip config i d _ ⟨rfl,rfl,Function.update_of_ne hne ..⟩
      · exact h
  | report qpn m => exact h.post ip config i d _ (Or.inr (hother qpn rfl))
  | tick => exact h.post ip config i d _ (Or.inl rfl)
  | work w c => exact h.work ip config i d w c
  | crash w =>
      refine ⟨h.attr,h.channel,h.receives,?_,h.inbox⟩
      intro w' t ht
      exact h.workers w' t (Net.step_crash (deviceProgram d.ctx.qpAttrTable) d.net w w' t ht)

theorem init_untouched (ip : UInt32) (config : AckTimeoutConfig) (i : Fin maxQpCnt) :
    Untouched ip config i (.initialized ip config) := by
  refine ⟨fun _ _ => rfl,rfl,rfl,?_,?_⟩
  · intro w t ht
    obtain rfl := Option.some.inj ht
    rfl
  · intro w x hx
    cases hx

theorem run_untouched (ip : UInt32) (config : AckTimeoutConfig) (i : Fin maxQpCnt)
    (ls : List DeviceLabel) (h : ∀ l∈ls,¬Addresses i l) :
    Untouched ip config i (Device.run ip config ls) := by
  induction ls using List.reverseRecOn with
  | nil => exact init_untouched ip config i
  | append_singleton ls l ih =>
      rw [Device.run,Run.run_concat]
      exact step_untouched ip config i _ l (h l (by simp)) (ih (fun l hl => h l (by simp [hl])))

/-- The entries of a QP created at an index that has not been used. -/
structure Created (ip : UInt32) (config : AckTimeoutConfig) (i : Fin maxQpCnt) (qpn : UInt32)
    (attr : IbvQpInitAttr) (d : Device) : Prop where
  attr : d.ctx.qpAttrTable i=(QpAttr.newWithIp ip).create qpn attr
  channel : d.ctx.postRecvTxTable i=none
  receives : d.ctx.recvWrQueueTable i=[]
  workers : ∀ w t,d.net.state w=some t → t i=Driver.fresh config w

theorem Untouched.created (ip : UInt32) (config : AckTimeoutConfig) (i : Fin maxQpCnt) (d : Device)
    (attr : IbvQpInitAttr) (key : UInt8) (qpn : UInt32) (h : Untouched ip config i d)
    (hqpn : (d.ctx.createQp attr key).result=some (.ok qpn)) (hi : QpTable.index? qpn=some i) :
    Created ip config i qpn attr (d.step (.createQp attr key)) := by
  have hnext := h.createQp ip config i d attr key
  refine ⟨?_,hnext.channel,hnext.receives,hnext.workers⟩
  change (d.ctx.createQp attr key).next.qpAttrTable i=_
  rw [(HwDeviceCtx.createQp_ok d.ctx attr key qpn hqpn).2,QpTable.mapQpMut_of_index _ _ _ i hi,
    Function.update_self]
  exact h.attr qpn attr

end FreshQp

open FreshQp in
/-- A QP created at an index that no update, post or meta has named before has the state of one
created at that index in a fresh device. -/
theorem created_qp_fresh (ip : UInt32) (config : AckTimeoutConfig) (ls creates : List DeviceLabel)
    (attr : IbvQpInitAttr) (key key' : UInt8) (qpn : UInt32)
    (hcreates : ∀ l∈creates,∃ a k,l=.createQp a k)
    (hqpn : ((Device.run ip config ls).ctx.createQp attr key).result=some (.ok qpn))
    (hqpn' : ((Device.run ip config creates).ctx.createQp attr key').result=some (.ok qpn))
    (hunused : ∀ l∈ls,∀ q∈qpnOf l,qpnToIndex q≠qpnToIndex qpn) :
    ∃ i,QpTable.index? qpn=some i ∧
      SameQp i (Device.run ip config (ls++[.createQp attr key]))
        (Device.run ip config (creates++[.createQp attr key'])) := by
  obtain ⟨⟨i,hi⟩,-⟩ := HwDeviceCtx.createQp_ok _ attr key qpn hqpn
  have hunused' : ∀ l∈ls,¬Addresses i l := by
    rintro l hl ⟨q,hq,hqi⟩
    exact hunused l hl q hq ((QpTable.index?_val q i hqi).trans (QpTable.index?_val qpn i hi).symm)
  have hcreates' : ∀ l∈creates,¬Addresses i l := by
    rintro l hl ⟨qpn,hqpn,-⟩
    obtain ⟨a,k,rfl⟩ := hcreates l hl
    cases hqpn
  have h := (run_untouched ip config i ls hunused').created ip config i _ attr key qpn hqpn hi
  have h' := (run_untouched ip config i creates hcreates').created ip config i _ attr key' qpn hqpn' hi
  rw [Device.run,Device.run,Run.run_concat,Run.run_concat]
  refine ⟨i,hi,h.attr.trans h'.attr.symm,h.channel.trans h'.channel.symm,
    h.receives.trans h'.receives.symm,?_⟩
  intro w t t' ht ht'
  exact (h.workers w t ht).trans (h'.workers w t' ht').symm

namespace FreshQp

/-- A QP on the completion queues 1 and 2. -/
def initAttr : IbvQpInitAttr := ⟨2,some 1,some 2⟩

/-- The index the first QP gets. -/
def firstIndex : Fin maxQpCnt := ⟨1,by decide⟩

/-- A QP is connected to a peer, writes to it and is destroyed. -/
def firstLife : List DeviceLabel :=
  [.createQp initAttr 0,.updateQp 0x100 ⟨some 0x0A000002,some 0x200,none⟩ {},
    .postSend 0x100 (.rdma ⟨⟨1,2,0x1000,4096,0,7,.rdmaWrite⟩,0x2000,0⟩),
    .work .rdmaWrite (fun _ => 0),.destroyQp 0x100]

end FreshQp

open FreshQp in
theorem created_qp_fresh_second :
    ∃ i,QpTable.index? 0x207=some i ∧
      SameQp i
        (Device.run 0x0A000001 .default ([.createQp initAttr 9,
          .updateQp 0x109 ⟨some 0x0A000002,some 0x200,none⟩ {}]++[.createQp initAttr 7]))
        (Device.run 0x0A000001 .default ([.createQp initAttr 0]++[.createQp initAttr 7])) :=
  created_qp_fresh 0x0A000001 .default _ [.createQp initAttr 0] initAttr 7 7 0x207
    (by simp) (by decide +kernel) (by decide +kernel)
    (by
      intro l hl q hq
      simp only [List.mem_cons,List.not_mem_nil,or_false] at hl
      rcases hl with rfl|rfl
      · cases hq
      · obtain rfl := Option.some.inj hq
        decide +kernel)

open FreshQp in
/-- The next QP on the same index still has the peer, the channel and the PSNs of the first one. -/
theorem reused_index_keeps_state :
    let d := Device.run 0x0A000001 .default (firstLife++[.createQp initAttr 7])
    let d' := Device.run 0x0A000001 .default [.createQp initAttr 7]
    ((Device.run 0x0A000001 .default firstLife).ctx.createQp initAttr 7).result=some (.ok 0x107) ∧
    ((Device.run 0x0A000001 .default []).ctx.createQp initAttr 7).result=some (.ok 0x107) ∧
    (d.ctx.qpAttrTable firstIndex).dqpn=0x200 ∧ (d'.ctx.qpAttrTable firstIndex).dqpn=0 ∧
    d.ctx.postRecvTxTable firstIndex=some ⟨0x0A000002,0x200,false⟩ ∧ d'.ctx.postRecvTxTable firstIndex=none ∧
    (d.net.state .rdmaWrite).map (fun t => (t firstIndex).psn)=some ⟨1⟩ ∧
    (d'.net.state .rdmaWrite).map (fun t => (t firstIndex).psn)=some ⟨0⟩ := by
  decide +kernel

end BlueRdma

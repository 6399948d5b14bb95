import BlueRdma.Framework.Run
import BlueRdma.Verbs.Mock.Ctx

namespace BlueRdma
namespace Mock
namespace Slots

inductive Label
  | create (attr : IbvQpInitAttr) (key : UInt8)
  | update (qpn : UInt32) (attr : IbvQpAttr)
  | destroy (qpn : UInt32)

/-- The device, the QPs created so far and those of them that are live. -/
structure State where
  host : Host
  used : List UInt32 := []
  live : List UInt32 := []

def step (d : Bool) (s : State) : Label → State
  | .create attr key =>
    let c := s.host.createQp d attr key
    match c.result with
    | some (.ok qpn) => ⟨c.next,qpn::s.used,qpn::s.live⟩
    | _ => {s with host := c.next}
  | .update qpn attr => {s with host := (s.host.updateQp d qpn attr).next}
  | .destroy qpn => {s with host := (s.host.destroyQp qpn).next,live := s.live.filter (·≠qpn)}

/-- QPs are updated and destroyed only while they are live. -/
def Allowed (d : Bool) (s : State) : Label → Prop
  | .create _ _ => True
  | .update qpn attr => qpn∈s.live ∧ (s.host.updateQp d qpn attr).result.isSome
  | .destroy qpn => qpn∈s.live

/-- No call panics. A new QP starts with no peer, a fresh connection and a thread of its own. -/
def Reusable (d : Bool) (s : State) : Label → Prop
  | .create attr key => (s.host.createQp d attr key).result.isSome ∧
    ∀ qpn,(s.host.createQp d attr key).result=some (.ok qpn) → ∃ i conn,
      QpTable.index? qpn=some i ∧
      (s.host.createQp d attr key).next.ctx.qpCtxTable i=
        ⟨none,none,some conn,some s.host.threads.length,some s.host.threads.length⟩ ∧
      (conn.qpn,conn.addr,conn.txChan,conn.rxChan)=(qpn,none,none,false) ∧
      ∃ t,(s.host.createQp d attr key).next.threads=s.host.threads++[t] ∧ t.qpn=qpn ∧
        t.status=.running
  | .destroy qpn => (s.host.destroyQp qpn).result=some (.ok ())
  | .update _ _ => True

def portOf (qpn : UInt32) : UInt16 := portStartAddr+qpn.toUInt16

/-- The index of the new QP has not been used before, and its port is a number of 16 bits that no
earlier QP has listened on. -/
def Unused (d : Bool) (s : State) : Label → Prop
  | .create _ key => ∀ qpn m,s.host.ctx.qpManager.createQp key=(some qpn,m) →
    (∀ q∈s.used,qpnToIndex q≠qpnToIndex qpn) ∧
    (d=true → portStartAddr.toNat+qpn.toUInt16.toNat<2^16) ∧
    (portOf qpn≠0 → ∀ q∈s.used,portOf q≠portOf qpn)
  | _ => True

/-- The QP has its slot and a running thread. -/
def Runs (h : Host) (q : UInt32) : Prop :=
  ∃ i t th,QpTable.index? q=some i ∧ (h.ctx.qpCtxTable i).abortSignal=some t ∧
    (h.ctx.qpCtxTable i).handle=some t ∧ h.threads[t]?=some th ∧ th.qpn=q ∧ th.status=.running

/-- The slots with a connection are those that were ever used, and so are the ports. -/
structure Inv (s : State) : Prop where
  clean : ∀ i : Fin maxQpCnt,(∀ q∈s.used,qpnToIndex q≠i.val) → s.host.ctx.qpCtxTable i={}
  taken : ∀ q∈s.used,∀ i,QpTable.index? q=some i → (s.host.ctx.qpCtxTable i).conn.isSome
  bound : ∀ addr,addr∈s.host.bound ↔ ∃ q∈s.used,addr=(s.host.ctx.selfIp,portOf q)
  apart : s.used.Pairwise (fun q r => qpnToIndex q≠qpnToIndex r)
  live : ∀ q∈s.live,q∈s.used ∧ Runs s.host q

/-- The port of a QP can be computed and bound. -/
def CanBind (d : Bool) (bound : List SocketAddr) (ip qpn : UInt32) : Prop :=
  (d=true → portStartAddr.toNat+qpn.toUInt16.toNat<2^16) ∧
    (portOf qpn≠0 → (ip,portOf qpn)∉bound)

theorem getPort_eq (d : Bool) (qpn : UInt32)
    (h : d=true → portStartAddr.toNat+qpn.toUInt16.toNat<2^16) :
    getPort d qpn=some (portOf qpn) := by
  rw [getPort,if_neg,portOf]
  rw [Bool.and_eq_true,decide_eq_true_eq]
  rintro ⟨hd,hover⟩
  have := h hd
  omega

theorem new_of_canBind (d : Bool) (bound : List SocketAddr) (ip qpn : UInt32)
    (h : CanBind d bound ip qpn) :
    QpConnection.new d bound ip qpn=some {qpn := qpn,listener := (ip,portOf qpn)} := by
  have hbind : bind bound (ip,portOf qpn)=.ok (ip,portOf qpn) :=
    if_neg fun hin => h.2 hin.1 (List.contains_iff_mem.mp hin.2)
  simp only [QpConnection.new,getPort_eq d qpn h.1,hbind]

theorem new_of_not_canBind (d : Bool) (bound : List SocketAddr) (ip qpn : UInt32)
    (h : ¬CanBind d bound ip qpn) : QpConnection.new d bound ip qpn=none := by
  by_cases hfits : d=true → portStartAddr.toNat+qpn.toUInt16.toNat<2^16
  · have hin : portOf qpn≠0 ∧ bound.contains (ip,portOf qpn)=true := by
      by_contra hno
      exact h ⟨hfits,fun hne hmem => hno ⟨hne,List.contains_iff_mem.mpr hmem⟩⟩
    have hbind : bind bound (ip,portOf qpn)=
        .error (.other "Address already in use (os error 98)") := if_pos hin
    simp only [QpConnection.new,getPort_eq d qpn hfits,hbind]
  · rw [Classical.not_imp] at hfits
    have hport : getPort d qpn=none := by
      rw [getPort,if_pos]
      rw [Bool.and_eq_true,decide_eq_true_eq]
      exact ⟨hfits.1,by omega⟩
    simp only [QpConnection.new,hport]

/-- The device after a QP was created in an empty slot. -/
def created (h : Host) (attr : IbvQpInitAttr) (m : QpManager) (qpn : UInt32) (i : Fin maxQpCnt) :
    Host :=
  {h with
    ctx.qpManager := m
    ctx.qpLocalTaskTx := some h.threads.length
    ctx.qpCtxTable := Function.update h.ctx.qpCtxTable i {h.ctx.qpCtxTable i with
      conn := some {qpn := qpn,listener := (h.ctx.selfIp,portOf qpn)}
      abortSignal := some h.threads.length
      handle := some h.threads.length}
    threads := h.threads++[{
      qpn := qpn
      sendCq := attr.sendCq.filter (fun cq => cq∈h.ctx.cqTable)
      recvCq := attr.recvCq.filter (fun cq => cq∈h.ctx.cqTable) }]
    bound := (h.ctx.selfIp,portOf qpn)::h.bound}

section Create
variable (d : Bool) (h : Host) (attr : IbvQpInitAttr) (key : UInt8) (m : QpManager) (qpn : UInt32)
  (hm : h.ctx.qpManager.createQp key=(some qpn,m)) (i : Fin maxQpCnt)
  (hi : QpTable.index? qpn=some i)
include hm hi

theorem createQp_created (hbind : CanBind d h.bound h.ctx.selfIp qpn)
    (hslot : (h.ctx.qpCtxTable i).conn=none) :
    h.createQp d attr key=⟨created h attr m qpn i,some (.ok qpn)⟩ := by
  rw [Host.createQp,hm]
  dsimp only
  rw [new_of_canBind _ _ _ _ hbind]
  dsimp only
  rw [hi]
  dsimp only
  rw [hslot]
  rfl

theorem createQp_panics
    (hno : ¬CanBind d h.bound h.ctx.selfIp qpn ∨ (h.ctx.qpCtxTable i).conn.isSome) :
    (h.createQp d attr key).result=none := by
  rw [Host.createQp,hm]
  dsimp only
  by_cases hbind : CanBind d h.bound h.ctx.selfIp qpn
  · rw [new_of_canBind _ _ _ _ hbind]
    dsimp only
    rw [hi]
    dsimp only
    rw [if_pos (hno.resolve_left (not_not.mpr hbind))]
  · rw [new_of_not_canBind _ _ _ _ hbind]

end Create

/-- The index that a new QP gets. -/
theorem createQp_index (mgr m : QpManager) (key : UInt8) (qpn : UInt32)
    (hm : mgr.createQp key=(some qpn,m)) :
    ∃ i : Fin maxQpCnt,QpTable.index? qpn=some i ∧ qpnToIndex qpn=i.val := by
  obtain ⟨i,hi,-⟩ := mgr.createQp_some m key qpn hm
  exact ⟨i,hi,QpTable.index?_val qpn i hi⟩

theorem index?_of_val (q : UInt32) (i : Fin maxQpCnt) (h : qpnToIndex q=i.val) :
    QpTable.index? q=some i := by
  rw [QpTable.index?,dif_pos (by rw [h]; exact i.isLt)]
  simp only [h]

/-- An update changes the peer and the connection of its slot and nothing else. -/
theorem updateQp_frame (d : Bool) (host : Host) (qpn : UInt32) (attr : IbvQpAttr) (i : Fin maxQpCnt)
    (hi : QpTable.index? qpn=some i) : ∃ c,
    (host.updateQp d qpn attr).next=
      {host with ctx.qpCtxTable := Function.update host.ctx.qpCtxTable i c} ∧
    c.conn.isSome=(host.ctx.qpCtxTable i).conn.isSome ∧
    c.abortSignal=(host.ctx.qpCtxTable i).abortSignal ∧
    c.handle=(host.ctx.qpCtxTable i).handle := by
  rw [Host.updateQp,hi]
  dsimp only
  split
  · exact ⟨_,rfl,rfl,rfl,rfl⟩
  · split
    · exact ⟨_,rfl,rfl,rfl,rfl⟩
    next conn hconn =>
      split
      · exact ⟨_,rfl,rfl,rfl,rfl⟩
      · refine ⟨_,rfl,?_,rfl,rfl⟩
        rw [hconn]
        rfl

/-- A new entry that has a field of the old one leaves this field as it is in all slots. -/
theorem field_update {β : Type} (f : QpCtx → β) (table : Fin maxQpCnt → QpCtx) (i : Fin maxQpCnt)
    (c : QpCtx) (hc : f c=f (table i)) (j : Fin maxQpCnt) :
    f (Function.update table i c j)=f (table j) := by
  by_cases hji : j=i
  · rw [hji,Function.update_self,hc]
  · rw [Function.update_of_ne hji]

section Inv
variable (d : Bool) (s : State) (h : Inv s)
include h

/-- A slot without a connection has not been used. -/
theorem Inv.conn_none_iff (i : Fin maxQpCnt) : (s.host.ctx.qpCtxTable i).conn=none ↔
    ∀ q∈s.used,qpnToIndex q≠i.val := by
  constructor
  · intro hnone q hq heq
    have hsome := h.taken q hq i (index?_of_val q i heq)
    rw [hnone] at hsome
    cases hsome
  · intro hall
    rw [h.clean i hall]

/-- A QP can be created exactly in an unused slot with a port of its own. -/
theorem Inv.unused_iff (attr : IbvQpInitAttr) (key : UInt8) (qpn : UInt32) (m : QpManager)
    (hm : s.host.ctx.qpManager.createQp key=(some qpn,m)) (i : Fin maxQpCnt)
    (hi : qpnToIndex qpn=i.val) : Unused d s (.create attr key) ↔
      CanBind d s.host.bound s.host.ctx.selfIp qpn ∧ (s.host.ctx.qpCtxTable i).conn=none := by
  have hports : (portOf qpn≠0 → ∀ q∈s.used,portOf q≠portOf qpn) ↔
      (portOf qpn≠0 → (s.host.ctx.selfIp,portOf qpn)∉s.host.bound) := by
    refine imp_congr_right fun _ => ?_
    rw [h.bound]
    constructor
    · rintro hall ⟨q,hq,heq⟩
      exact hall q hq (congrArg Prod.snd heq).symm
    · intro hno q hq heq
      exact hno ⟨q,hq,by rw [heq]⟩
  have hslots : (∀ q∈s.used,qpnToIndex q≠qpnToIndex qpn) ↔
      (s.host.ctx.qpCtxTable i).conn=none := by
    rw [hi]
    exact (h.conn_none_iff s i).symm
  constructor
  · intro hun
    obtain ⟨h₁,h₂,h₃⟩ := hun qpn m hm
    exact ⟨⟨h₂,hports.mp h₃⟩,hslots.mp h₁⟩
  · rintro ⟨⟨h₂,h₃⟩,h₁⟩ qpn' m' hm'
    rw [hm] at hm'
    obtain ⟨hq,-⟩ := Prod.mk.inj hm'
    obtain rfl := Option.some.inj hq
    exact ⟨hslots.mpr h₁,h₂,hports.mpr h₃⟩

theorem Inv.destroy_ok (qpn : UInt32) (hlive : qpn∈s.live) : ∃ i t th m,
    QpTable.index? qpn=some i ∧ s.host.threads[t]?=some th ∧ th.qpn=qpn ∧
    s.host.destroyQp qpn=⟨{s.host with
      ctx.qpCtxTable := Function.update s.host.ctx.qpCtxTable i
        {s.host.ctx.qpCtxTable i with abortSignal := none,handle := none}
      ctx.qpManager := m
      threads := s.host.threads.modify t (fun x => {x with status := .stopped})},some (.ok ())⟩ := by
  obtain ⟨-,i,t,th,hi,habort,hhandle,hth,hqpn,hrun⟩ := h.live qpn hlive
  refine ⟨i,t,th,⟨FirstFit.clear s.host.ctx.qpManager.bitmap i 1⟩,hi,hth,hqpn,?_⟩
  rw [Host.destroyQp,hi]
  dsimp only
  rw [habort,hhandle]
  dsimp only
  rw [hth,Option.map_some,hrun]
  dsimp only
  rw [QpManager.destroyQp,hi]
  rfl

theorem Inv.reusable_iff (l : Label) (hl : Allowed d s l) : Reusable d s l ↔ Unused d s l := by
  cases l with
  | create attr key =>
      rcases hm : s.host.ctx.qpManager.createQp key with ⟨_|qpn,m⟩
      · have hcreate : (s.host.createQp d attr key).result=
            some (.error (.qpError "No available QP slots")) := by
          rw [Host.createQp,hm]
        refine iff_of_true ⟨by rw [hcreate]; rfl,fun qpn hq => ?_⟩ fun qpn m' hm' => ?_
        · rw [hcreate] at hq
          cases hq
        · rw [hm] at hm'
          cases hm'
      obtain ⟨i,hi,hval⟩ := createQp_index _ _ _ _ hm
      rw [h.unused_iff d s attr key qpn m hm i hval]
      by_cases hok : CanBind d s.host.bound s.host.ctx.selfIp qpn ∧
          (s.host.ctx.qpCtxTable i).conn=none
      · have hcreate := createQp_created d s.host attr key m qpn hm i hi hok.1 hok.2
        have hclean := h.clean i ((h.conn_none_iff s i).mp hok.2)
        refine iff_of_true ⟨by rw [hcreate]; rfl,fun q hq => ?_⟩ hok
        rw [hcreate] at hq ⊢
        obtain rfl := Except.ok.inj (Option.some.inj hq)
        refine ⟨i,{qpn := qpn,listener := (s.host.ctx.selfIp,portOf qpn)},hi,?_,rfl,_,rfl,rfl,rfl⟩
        change Function.update _ i _ i=_
        rw [Function.update_self,hclean]
      · refine iff_of_false (fun hreuse => ?_) hok
        have hpanic := createQp_panics d s.host attr key m qpn hm i hi (by
          by_cases hbind : CanBind d s.host.bound s.host.ctx.selfIp qpn
          · refine Or.inr (Option.ne_none_iff_isSome.mp fun hnone => hok ⟨hbind,hnone⟩)
          · exact Or.inl hbind)
        rw [Reusable,hpanic] at hreuse
        cases hreuse.1
  | update qpn attr => exact Iff.rfl
  | destroy qpn =>
      obtain ⟨i,t,th,m,-,-,-,hdestroy⟩ := h.destroy_ok s qpn hl
      exact iff_of_true (by rw [Reusable,hdestroy]) trivial

/-- Two used QPs with one index are the same. -/
theorem Inv.eq_of_index (q r : UInt32) (hq : q∈s.used) (hr : r∈s.used)
    (heq : qpnToIndex q=qpnToIndex r) : q=r := by
  by_contra hne
  have : Std.Symm (fun q r : UInt32 => qpnToIndex q≠qpnToIndex r) := ⟨fun _ _ => Ne.symm⟩
  exact h.apart.forall hq hr hne heq

theorem Inv.step_create (attr : IbvQpInitAttr) (key : UInt8)
    (hun : Unused d s (.create attr key)) : Inv (step d s (.create attr key)) := by
  rcases hm : s.host.ctx.qpManager.createQp key with ⟨_|qpn,m⟩
  · have hcreate : s.host.createQp d attr key=⟨{s.host with ctx.qpManager := m},
        some (.error (.qpError "No available QP slots"))⟩ := by
      rw [Host.createQp,hm]
    rw [step,hcreate]
    exact ⟨h.clean,h.taken,h.bound,h.apart,h.live⟩
  obtain ⟨i,hi,hval⟩ := createQp_index _ _ _ _ hm
  obtain ⟨hbind,hslot⟩ := (h.unused_iff d s attr key qpn m hm i hval).mp hun
  have hnew := (hun qpn m hm).1
  have hstep : step d s (.create attr key)=
      ⟨created s.host attr m qpn i,qpn::s.used,qpn::s.live⟩ := by
    rw [step,createQp_created d s.host attr key m qpn hm i hi hbind hslot]
  have hself : (created s.host attr m qpn i).ctx.qpCtxTable i={s.host.ctx.qpCtxTable i with
      conn := some {qpn := qpn,listener := (s.host.ctx.selfIp,portOf qpn)}
      abortSignal := some s.host.threads.length
      handle := some s.host.threads.length} := Function.update_self ..
  have hother (j : Fin maxQpCnt) (hj : j≠i) :
      (created s.host attr m qpn i).ctx.qpCtxTable j=s.host.ctx.qpCtxTable j :=
    Function.update_of_ne hj _ _
  have hold (q : UInt32) (hq : q∈s.used) (j : Fin maxQpCnt) (hj : QpTable.index? q=some j) : j≠i := by
    rintro rfl
    exact hnew q hq ((QpTable.index?_val q j hj).trans hval.symm)
  rw [hstep]
  refine ⟨?_,?_,?_,List.pairwise_cons.mpr ⟨fun q hq => (hnew q hq).symm,h.apart⟩,?_⟩
  · intro j hj
    rw [List.forall_mem_cons] at hj
    rw [hother j (fun hji => hj.1 (by rw [hval,hji]))]
    exact h.clean j hj.2
  · intro q hq j hj
    rcases List.mem_cons.mp hq with rfl|hq
    · obtain rfl := Option.some.inj (hi.symm.trans hj)
      dsimp only
      rw [hself]
      rfl
    · dsimp only
      rw [hother j (hold q hq j hj)]
      exact h.taken q hq j hj
  · intro addr
    change addr∈(s.host.ctx.selfIp,portOf qpn)::s.host.bound ↔
      ∃ q∈qpn::s.used,addr=(s.host.ctx.selfIp,portOf q)
    rw [List.mem_cons,h.bound]
    simp
  · intro q hq
    rcases List.mem_cons.mp hq with rfl|hq
    · refine ⟨List.mem_cons_self,i,s.host.threads.length,_,hi,by rw [hself],by rw [hself],
        List.getElem?_concat_length,rfl,rfl⟩
    · obtain ⟨hused,j,t,th,hj,habort,hhandle,hth,hqpn,hrun⟩ := h.live q hq
      have hlt : t < s.host.threads.length := (List.getElem?_eq_some_iff.mp hth).1
      refine ⟨List.mem_cons_of_mem _ hused,j,t,th,hj,?_,?_,?_,hqpn,hrun⟩
      · rw [hother j (hold q hused j hj)]
        exact habort
      · rw [hother j (hold q hused j hj)]
        exact hhandle
      · exact (List.getElem?_append_left hlt).trans hth

/-- A new entry in a used slot that keeps the connection. -/
theorem Inv.update_slot (qpn : UInt32) (hused : qpn∈s.used) (i : Fin maxQpCnt)
    (hi : QpTable.index? qpn=some i) (c : QpCtx)
    (hc : c.conn.isSome=(s.host.ctx.qpCtxTable i).conn.isSome) :
    (∀ j : Fin maxQpCnt,(∀ q∈s.used,qpnToIndex q≠j.val) →
      Function.update s.host.ctx.qpCtxTable i c j={}) ∧
    ∀ q∈s.used,∀ j,QpTable.index? q=some j →
      (Function.update s.host.ctx.qpCtxTable i c j).conn.isSome := by
  constructor
  · intro j hj
    have hji : j≠i := fun hji => hj qpn hused (by rw [QpTable.index?_val qpn i hi,hji])
    rw [Function.update_of_ne hji]
    exact h.clean j hj
  · intro q hq j hj
    rw [field_update (·.conn.isSome) _ i c hc j]
    exact h.taken q hq j hj

theorem Inv.step_update (qpn : UInt32) (attr : IbvQpAttr) (hlive : qpn∈s.live) :
    Inv (step d s (.update qpn attr)) := by
  obtain ⟨hused,i,t,th,hi,-⟩ := h.live qpn hlive
  obtain ⟨c,hnext,hconn,habort,hhandle⟩ := updateQp_frame d s.host qpn attr i hi
  obtain ⟨hclean,htaken⟩ := h.update_slot s qpn hused i hi c hconn
  rw [step,hnext]
  refine ⟨hclean,htaken,h.bound,h.apart,?_⟩
  intro q hq
  obtain ⟨hqused,j,t',th',hj,habort',hhandle',hth'⟩ := h.live q hq
  exact ⟨hqused,j,t',th',hj,(field_update (·.abortSignal) _ i c habort j).trans habort',
    (field_update (·.handle) _ i c hhandle j).trans hhandle',hth'⟩

theorem Inv.step_destroy (qpn : UInt32) (hlive : qpn∈s.live) :
    Inv (step d s (.destroy qpn)) := by
  obtain ⟨i,t,th,m,hi,hth,hqpn,hdestroy⟩ := h.destroy_ok s qpn hlive
  have hused := (h.live qpn hlive).1
  obtain ⟨hclean,htaken⟩ := h.update_slot s qpn hused i hi
    {s.host.ctx.qpCtxTable i with abortSignal := none,handle := none} rfl
  rw [step,hdestroy]
  refine ⟨hclean,htaken,h.bound,h.apart,?_⟩
  intro q hq
  obtain ⟨hq,hne⟩ := List.mem_filter.mp hq
  have hne : q≠qpn := by simpa using hne
  obtain ⟨hqused,j,t',th',hj,habort',hhandle',hth',hqpn',hrun'⟩ := h.live q hq
  have hji : j≠i := by
    rintro rfl
    exact hne (h.eq_of_index s q qpn hqused hused
      ((QpTable.index?_val q j hj).trans (QpTable.index?_val qpn j hi).symm))
  have htt : t≠t' := by
    rintro rfl
    rw [hth] at hth'
    exact hne (by rw [← hqpn',← hqpn,Option.some.inj hth'])
  refine ⟨hqused,j,t',th',hj,?_,?_,?_,hqpn',hrun'⟩
  · dsimp only
    rw [Function.update_of_ne hji]
    exact habort'
  · dsimp only
    rw [Function.update_of_ne hji]
    exact hhandle'
  · exact (List.getElem?_modify_ne _ _ htt).trans hth'

theorem Inv.step (l : Label) (hl : Allowed d s l) (hun : Unused d s l) : Inv (step d s l) := by
  cases l with
  | create attr key => exact h.step_create d s attr key hun
  | update qpn attr => exact h.step_update d s qpn attr hl.1
  | destroy qpn => exact h.step_destroy d s qpn hl

end Inv

theorem init_inv (ip : UInt32) : Inv ⟨{ctx := {selfIp := ip}},[],[]⟩ := by
  refine ⟨fun i _ => rfl,?_,?_,List.Pairwise.nil,?_⟩ <;> simp

/-- Over all runs in which live QPs are updated and destroyed, no call panics and every new QP
starts afresh, exactly if no index and no port is used twice. -/
theorem slots_reusable_iff (d : Bool) (ip : UInt32) (ls : List Label)
    (hls : Run.Along (step d) (Allowed d) ⟨{ctx := {selfIp := ip}},[],[]⟩ ls) :
    Run.Along (step d) (Reusable d) ⟨{ctx := {selfIp := ip}},[],[]⟩ ls ↔
      Run.Along (step d) (Unused d) ⟨{ctx := {selfIp := ip}},[],[]⟩ ls :=
  Run.along_iff_of_allowed (step d) (Allowed d) (Reusable d) (Unused d) Inv
    (fun s l hl h => h.reusable_iff d s l hl) (fun s l hl hun h => h.step d s l hl hun) _ ls hls
    (init_inv ip)

/-- A QP that is created and destroyed, and one that is created then. -/
def createDestroy : List Label := [.create ⟨2,none,none⟩ 0,.destroy 0x100]

def createAgain : List Label :=
  [.create ⟨2,none,none⟩ 0,.destroy 0x100,.create ⟨2,none,none⟩ 1]

def start : State := ⟨{ctx := {selfIp := localhost}},[],[]⟩

theorem slots_reusable_iff_createAgain :
    ¬Run.Along (step true) (Reusable true) start createAgain := by
  have hlive : (0x100 : UInt32)∈(step true start (.create ⟨2,none,none⟩ 0)).live := by
    decide +kernel
  have hls : Run.Along (step true) (Allowed true) start createAgain := ⟨trivial,hlive,trivial,trivial⟩
  have hqpn : ((Run.run (step true) start createDestroy).host.ctx.qpManager.createQp 1).1=
      some 0x101 := by decide +kernel
  have hused : (0x100 : UInt32)∈(Run.run (step true) start createDestroy).used := by decide +kernel
  intro hreusable
  obtain ⟨-,-,hun,-⟩ := (slots_reusable_iff true localhost createAgain hls).mp hreusable
  change Unused true (Run.run (step true) start createDestroy) _ at hun
  generalize Run.run (step true) start createDestroy=s at hun hqpn hused
  rcases hm : s.host.ctx.qpManager.createQp 1 with ⟨q,m⟩
  rw [hm] at hqpn
  obtain rfl : q=some 0x101 := hqpn
  exact (hun 0x101 m hm).1 0x100 hused (by decide)

/-- The next QP gets the index of the destroyed one and panics. -/
theorem createDestroy_panics : ((Run.run (step true) start createDestroy).host.createQp true
    ⟨2,none,none⟩ 1).result=none := by
  decide +kernel

end Slots
end Mock
end BlueRdma

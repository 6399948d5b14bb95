import BlueRdma.Protocol.CsrRings
import BlueRdma.Verbs.Initialize

namespace BlueRdma
namespace Csr

/-- Only `initialize` writes base addresses. -/
def Request.KeepsBases : Request → Prop
  | .writeBaseLow _ _ => False
  | .writeBaseHigh _ _ => False
  | _ => True

/-- Accesses of workers and device. -/
def Quiet (xs : List Request) : Prop := ∀ x∈xs,x.KeepsBases ∧ ∀ r,x.ring=some r → r.Mapped

/-- The register space while others use it: each access lets them have one more turn first. -/
structure SharedBar where
  bar : Bar
  turns : List (List Request)

namespace SharedBar

def turn (s : SharedBar) : SharedBar :=
  match s.turns with
  | [] => s
  | xs::rest => ⟨(Run.serve Request.exec s.bar xs).1,rest⟩

def after {α : Type} (m : Access Bar α) : Access SharedBar α := do
  modify turn
  Exec.zoom bar (fun s b => { s with bar := b }) id m

def adaptor : DeviceAdaptor SharedBar where
  readCsr addr := after (SysfsPciCsrAdaptor.readCsr addr)
  writeCsr addr data := after (SysfsPciCsrAdaptor.writeCsr addr data)

end SharedBar

/-- The base addresses in the registers of some rings. -/
def Programmed (bar : Bar) (l : List (RingSpec × DmaBuf)) : Prop :=
  ∀ p∈l,(registers bar p.1).base=p.2.physAddr

theorem exec_keepsBase (bar : Bar) (x : Request) (hx : x.KeepsBases)
    (hring : ∀ r,x.ring=some r → r.Mapped) (r : RingSpec) (hr : r.Mapped) :
    (registers (Request.exec bar x).1 r).base=(registers bar r).base := by
  have hspec := (Request.exec_refines bar (registers bar) x hring (fun _ _ => rfl)).1 r hr
  rw [hspec]
  have hupdate (r' : RingSpec) (regs' : Registers) (h : regs'.base=(registers bar r').base) :
      (Function.update (registers bar) r' regs' r).base=(registers bar r).base := by
    by_cases heq : r=r'
    · subst heq
      rw [Function.update_self,h]
    · rw [Function.update_of_ne heq]
  cases x with
  | writeBaseLow r' a => exact hx.elim
  | writeBaseHigh r' a => exact hx.elim
  | readBaseAddr r' => rfl
  | writeHead r' v => exact hupdate _ _ rfl
  | readTail r' => rfl
  | readHead r' => rfl
  | writeTail r' v => exact hupdate _ _ rfl
  | deviceTail r' v => exact hupdate _ _ rfl
  | deviceHead r' v => exact hupdate _ _ rfl
  | custom c => rfl

theorem serve_keepsBase (xs : List Request) (hxs : Quiet xs) (bar : Bar) (r : RingSpec)
    (hr : r.Mapped) :
    (registers (Run.serve Request.exec bar xs).1 r).base=(registers bar r).base := by
  induction xs generalizing bar with
  | nil => rfl
  | cons x xs ih =>
      obtain ⟨hx,hring⟩ := hxs x List.mem_cons_self
      have hrest := ih (fun y hy => hxs y (List.mem_cons_of_mem x hy)) (Request.exec bar x).1
      exact hrest.trans (exec_keepsBase bar x hx hring r hr)

namespace SharedBar

theorem turn_quiet (s : SharedBar) (hs : ∀ xs∈s.turns,Quiet xs) :
    (∀ xs∈s.turn.turns,Quiet xs) ∧
    ∀ r : RingSpec,r.Mapped → (registers s.turn.bar r).base=(registers s.bar r).base := by
  unfold turn
  split
  · exact ⟨hs,fun _ _ => rfl⟩
  · rename_i xs rest hturns
    rw [hturns] at hs
    exact ⟨fun ys hys => hs ys (List.mem_cons_of_mem xs hys),
      fun r hr => serve_keepsBase xs (hs xs List.mem_cons_self) s.bar r hr⟩

/-- A store behind a turn of the others. -/
def store (s : SharedBar) (r : RingSpec) (f : Register) (v : UInt32) : SharedBar :=
  ⟨Function.update s.turn.bar (16*r.slot+f.offset) v,s.turn.turns⟩

theorem writeCsr_ends (s : SharedBar) (r : RingSpec) (f : Register) (v : UInt32) :
    (adaptor.writeCsr (16*r.slot+f.offset) v).ends s=(.ok (),s.store r f v) := by
  have hmodify : (modify turn : Access SharedBar PUnit).ends s=(.ok PUnit.unit,s.turn) := rfl
  have hstore : (SysfsPciCsrAdaptor.writeCsr (16*r.slot+f.offset) v).ends s.turn.bar=_ :=
    ends_writeCsr s.turn.bar r f v
  change (after _).ends s=_
  rw [after,Exec.ends_bind_ok hmodify,Exec.zoom_ok hstore]
  rfl

theorem store_quiet (s : SharedBar) (hs : ∀ xs∈s.turns,Quiet xs) (r : RingSpec) (hr : r.Mapped)
    (f : Register) (v : UInt32) : (∀ xs∈(s.store r f v).turns,Quiet xs) ∧
    ∀ r' : RingSpec,r'.Mapped → (registers (s.store r f v).bar r').base=
      if r'=r then ((registers s.turn.bar r).store f v).base else (registers s.bar r').base := by
  obtain ⟨hquiet,hbase⟩ := turn_quiet s hs
  refine ⟨hquiet,fun r' hr' => ?_⟩
  rw [store,shown_store s.turn.bar _ (fun _ _ => rfl) r hr f v r' hr']
  by_cases heq : r'=r
  · subst heq
    rw [Function.update_self,if_pos rfl]
  · rw [Function.update_of_ne heq,if_neg heq,hbase r' hr']

/-- The two stores set the base address of the ring and of no other one, whatever the others do
before, between and behind them. -/
theorem writeBaseAddr_leads (s : SharedBar) (hs : ∀ xs∈s.turns,Quiet xs) (r : RingSpec)
    (hr : r.Mapped) (a : UInt64) :
    (writeBaseAddr adaptor r a).Leads s fun x t => x=.ok () ∧ (∀ xs∈t.turns,Quiet xs) ∧
      ∀ r' : RingSpec,r'.Mapped → (registers t.bar r').base=
        if r'=r then a else (registers s.bar r').base := by
  have hends : (writeBaseAddr adaptor r a).ends s=
      (.ok (),(s.store r .baseLow (Word.lowHalf a)).store r .baseHigh (Word.highHalf a)) := by
    rw [writeBaseAddr]
    simp only [r.csrBase_of_mapped hr]
    exact (Exec.ends_bind_ok (writeCsr_ends s r .baseLow _)).trans (writeCsr_ends _ r .baseHigh _)
  obtain ⟨hquiet,hlow⟩ := store_quiet s hs r hr .baseLow (Word.lowHalf a)
  obtain ⟨hquiet1,hhigh⟩ := store_quiet _ hquiet r hr .baseHigh (Word.highHalf a)
  obtain ⟨-,hturn⟩ := turn_quiet _ hquiet
  refine Exec.leads_of_ends hends ⟨rfl,hquiet1,fun r' hr' => ?_⟩
  rw [hhigh r' hr',hlow r' hr']
  split_ifs with heq
  · rw [Registers.store,hturn r hr,hlow r hr,if_pos rfl,Registers.store]
    simp
  · rfl

end SharedBar

/-- A backend on which base addresses can be set: `Written done` holds when those of `done` are, and
an access that fails behind them leaves a state as `Failed` says. -/
structure BaseWrites {σ : Type} (dev : DeviceAdaptor σ)
    (Written : List (RingSpec × DmaBuf) → σ → Prop)
    (Failed : List (RingSpec × DmaBuf) → CsrFault → σ → Prop) : Prop where
  write : ∀ done p c,Written done c → (∀ q∈done++[p],q.1.Mapped) →
    ((done++[p]).map Prod.fst).Nodup → (writeBaseAddr dev p.1 p.2.physAddr).Leads c fun
      | .ok _,c' => Written (done++[p]) c'
      | .error e,c' => Failed done e c'

/-- The accesses of a PCI device do not fail. -/
theorem SharedBar.baseWrites : BaseWrites SharedBar.adaptor
    (fun done c => (∀ xs∈c.turns,Quiet xs) ∧ Programmed c.bar done) (fun _ _ _ => False) where
  write := by
    rintro done p c ⟨hquiet,hdone⟩ hmapped hdistinct
    have hp : p.1.Mapped := hmapped p (by simp)
    refine (writeBaseAddr_leads c hquiet p.1 hp p.2.physAddr).mono ?_
    rintro r c' ⟨rfl,hquiet',hbase⟩
    refine ⟨hquiet',fun q hq => ?_⟩
    rcases List.mem_append.mp hq with hq|hq
    · -- the rings written before keep their addresses, being other rings
      have hne : q.1≠p.1 := by
        rw [List.map_append,List.nodup_append] at hdistinct
        exact hdistinct.2.2 q.1 (List.mem_map_of_mem hq) p.1 List.mem_cons_self
      rw [hbase q.1 (hmapped q (List.mem_append_left _ hq)),if_neg hne]
      exact hdone q hq
    · rw [List.mem_singleton.mp hq,hbase p.1 hp,if_pos rfl]

end Csr

namespace Init

/-- An allocator that hands out `buf 0`, `buf 1` and so on until `limit` of them are gone; `At a k`
says that `k` are gone. -/
structure Counts {α : Type} (alloc : DmaBufAllocator α) (buf : Nat → DmaBuf) (limit : Nat)
    (e : DmaError) (At : α → Nat → Prop) : Prop where
  le : ∀ a k,At a k → k≤limit
  more : ∀ a k,At a k → k<limit → ∃ a',alloc a descRingBufSize=(a',.ok (buf k)) ∧ At a' (k+1)
  full : ∀ a k,At a k → limit≤k → ∃ a',alloc a descRingBufSize=(a',.error e)

section Alloc
variable {α σ : Type} {alloc : DmaBufAllocator α} {buf : Nat → DmaBuf} {limit : Nat} {e : DmaError}
  {At : α → Nat → Prop} (hc : Counts alloc buf limit e At)
include hc

theorem rbAlloc_leads (s : InitState α σ) (k : Nat) (hk : At s.allocator k)
    (Q : Except InitFault DmaBuf → InitState α σ → Prop)
    (hmore : k<limit → ∀ a,At a (k+1) → Q (.ok (buf k)) { s with allocator := a })
    (hfull : limit≤k → ∀ a,Q (.error (.dma e)) { s with allocator := a }) :
    (rbAlloc alloc).Leads s Q := by
  rcases Nat.lt_or_ge k limit with hlt|hge
  · obtain ⟨a,halloc,ha⟩ := hc.more _ k hk hlt
    refine Exec.leads_of_ends (Exec.zoom_ok (a := buf k) (s := a) ?_) (hmore hlt a ha)
    rw [Exec.ends,ExceptT.run_mk,StateT.run,halloc]
  · obtain ⟨a,halloc⟩ := hc.full _ k hk hge
    refine Exec.leads_of_ends (Exec.zoom_error (e := e) (s := a) ?_) (hfull hge a)
    rw [Exec.ends,ExceptT.run_mk,StateT.run,halloc]

theorem repeatAlloc_leads (n : Nat) (s : InitState α σ) (k : Nat) (hk : At s.allocator k)
    (Q : Except InitFault (List DmaBuf) → InitState α σ → Prop)
    (hmore : k+n≤limit → ∀ a,At a (k+n) →
      Q (.ok ((List.range' k n).map buf)) { s with allocator := a })
    (hfull : limit<k+n → ∀ a,Q (.error (.dma e)) { s with allocator := a }) :
    (Exec.repeatTake (rbAlloc alloc) n).Leads s Q := by
  induction n generalizing s k Q with
  | zero => exact Exec.leads_pure (hmore (hc.le _ k hk) s.allocator hk)
  | succ n ih =>
      refine Exec.leads_bind (rbAlloc_leads hc s k hk _ (fun hlt a ha => ?_) fun hge a => ?_)
      · refine Exec.leads_bind (ih _ (k+1) ha _ (fun hle a' ha' => ?_) fun hlt' a' => ?_)
        · refine Exec.leads_pure (hmore (by omega) a' ?_)
          rwa [show k+(n+1)=k+1+n by omega]
        · exact hfull (by omega) a'
      · exact hfull (by omega) a

end Alloc

section Parts
variable {α σ : Type}

theorem newRings_leads (bufs : List DmaBuf) (hlen : ∀ b∈bufs,descRingBufSize≤b.len)
    (s : InitState α σ) (Q : Except InitFault Unit → InitState α σ → Prop) (h : Q (.ok ()) s) :
    (newRings bufs).Leads s Q := by
  induction bufs with
  | nil => exact Exec.leads_pure h
  | cons b bufs ih =>
      have hb : ¬b.len < ringBufLen*descSize := Nat.not_lt.mpr (hlen b List.mem_cons_self)
      refine Exec.leads_bind ?_
      rw [descRingBufferNew,if_neg hb]
      exact Exec.leads_pure (ih fun x hx => hlen x (List.mem_cons_of_mem b hx))

theorem newRings_short (b : DmaBuf) (rest : List DmaBuf) (hb : b.len<descRingBufSize)
    (s : InitState α σ) (Q : Except InitFault Unit → InitState α σ → Prop)
    (h : Q (.error (.panicked "invalid length")) s) : (newRings (b::rest)).Leads s Q := by
  refine Exec.leads_bind ?_
  rw [descRingBufferNew,if_pos (show b.len < ringBufLen*descSize from hb)]
  exact ⟨h⟩

theorem spawnAll_leads (names : List String) (s : InitState α σ)
    (Q : Except InitFault Unit → InitState α σ → Prop)
    (h : Q (.ok ()) { s with spawned := s.spawned++names }) : (spawnAll names).Leads s Q := by
  induction names generalizing s with
  | nil => exact Exec.leads_pure (by simpa using h)
  | cons name names ih =>
      exact Exec.leads_bind (Exec.leads_modify (ih _ (by simpa using h)))

/-- The base addresses are set one ring after another, up to the first access that fails. -/
theorem writeBaseAddrs_leads {dev : Csr.DeviceAdaptor σ}
    {Written : List (Csr.RingSpec × DmaBuf) → σ → Prop}
    {Failed : List (Csr.RingSpec × DmaBuf) → Csr.CsrFault → σ → Prop}
    (hw : Csr.BaseWrites dev Written Failed) (todo done : List (Csr.RingSpec × DmaBuf))
    (s : InitState α σ) (hdone : Written done s.csr) (hmapped : ∀ p∈done++todo,p.1.Mapped)
    (hdistinct : ((done++todo).map Prod.fst).Nodup)
    (Q : Except InitFault Unit → InitState α σ → Prop)
    (hok : ∀ c,Written (done++todo) c → Q (.ok ()) { s with csr := c })
    (herror : ∀ part e c,part<+:done++todo → done.length≤part.length →
      part.length<(done++todo).length → Failed part e c → Q (.error (.csr e)) { s with csr := c }) :
    (writeBaseAddrs dev todo).Leads s Q := by
  induction todo generalizing done s with
  | nil => exact Exec.leads_pure (hok s.csr (by simpa using hdone))
  | cons p todo ih =>
      have happend : done++[p]++todo=done++p::todo := List.append_assoc done [p] todo
      have hended := (hw.write done p s.csr hdone
        (fun q hq => hmapped q (happend ▸ List.mem_append_left todo hq))
        (hdistinct.sublist ((happend ▸ List.sublist_append_left (done++[p]) todo).map _))).ended
      rcases hc : (Csr.writeBaseAddr dev p.1 p.2.physAddr).ends s.csr with ⟨e|_,c⟩
      · rw [hc] at hended
        refine Exec.leads_bind (Exec.leads_of_ends (Exec.zoom_error hc) ?_)
        exact herror done e c (List.prefix_append ..) le_rfl (by simp) hended
      · rw [hc] at hended
        refine Exec.leads_bind (Exec.leads_of_ends (Exec.zoom_ok hc) ?_)
        refine ih (done++[p]) { s with csr := c } hended ?_ ?_ ?_ ?_
        · rwa [happend]
        · rwa [happend]
        · rwa [happend]
        · rw [happend]
          intro part e c' hpart hlen
          rw [List.length_append] at hlen
          exact herror part e c' hpart (by omega)

end Parts

/-- The threads that are started before the rings of the meta reports are set up. -/
def firstWorkers (mode : Csr.Mode) : List String :=
  (List.range mode.numChannel).map (fun id => s!"SendWorker{id}") ++
    ["AckResponder","PacketRetransmitWorker","QpAckTimeoutWorker","RdmaWriteWorker",
      "CompletionWorker"]

/-- The threads of a running device. -/
def workers (mode : Csr.Mode) : List String := firstWorkers mode ++ ["MetaWorker"]

/-- The buffers in the order they are asked for. -/
def handedOut (buf : Nat → DmaBuf) (mode : Csr.Mode) : HwBuffers :=
  let n := mode.numChannel
  ⟨buf 0,buf 1,(List.range' 2 n).map buf,(List.range' (2+n) n).map buf,buf (2+2*n),buf (2+2*n+1),
    buf (2+2*n+2),buf (2+2*n+3),buf (2+2*n+4)⟩

theorem rings_fst (buf : Nat → DmaBuf) (mode : Csr.Mode) :
    ((handedOut buf mode).rings mode).map Prod.fst=Csr.builtRings mode := by
  cases mode <;> rfl

theorem builtRings_nodup (mode : Csr.Mode) : (Csr.builtRings mode).Nodup := by
  cases mode <;> decide

theorem rings_prefix (buf : Nat → DmaBuf) (mode : Csr.Mode) (l : List (Csr.RingSpec × DmaBuf))
    (h : l<+:(handedOut buf mode).rings mode) :
    (∀ p∈l,p.1.Mapped) ∧ (l.map Prod.fst).Nodup := by
  have hfst := rings_fst buf mode
  constructor
  · intro p hp
    apply Csr.RingSpec.mapped_of_built mode
    rw [← hfst]
    exact List.mem_map_of_mem (h.subset hp)
  · have hnodup := builtRings_nodup mode
    rw [← hfst] at hnodup
    exact hnodup.sublist (h.map Prod.fst).sublist

/-- Every buffer has room for a ring of descriptors. -/
def HoldRings (buf : Nat → DmaBuf) : Prop := ∀ k,descRingBufSize≤(buf k).len

/-- The rings of the command queue, which are set up first. -/
def commandRings (buf : Nat → DmaBuf) : List (Csr.RingSpec × DmaBuf) :=
  [(.toCard .cmdReq,buf 0),(.toHost .cmdResp,buf 1)]

theorem length_rings (buf : Nat → DmaBuf) (mode : Csr.Mode) :
    ((handedOut buf mode).rings mode).length=4+2*mode.numChannel := by
  cases mode <;> rfl

section BringUp
variable {α σ : Type} {dev : Csr.DeviceAdaptor σ}
  {Written : List (Csr.RingSpec × DmaBuf) → σ → Prop}
  {Failed : List (Csr.RingSpec × DmaBuf) → Csr.CsrFault → σ → Prop}
  (hw : Csr.BaseWrites dev Written Failed) (buf : Nat → DmaBuf) (hlen : HoldRings buf)
  (mode : Csr.Mode) (netConfig : NetworkConfig)

/-- The threads that run when setting up the rings ends behind some of them. -/
def startedBehind (mode : Csr.Mode) (part : List (Csr.RingSpec × DmaBuf)) : List String :=
  if part.length<4+mode.numChannel then [] else firstWorkers mode

include hw hlen

/-- The middle part sets the base addresses of all other rings, starts the threads and tells the
device where raw packets go. -/
theorem bringUp_leads (s : InitState α σ) (hdone : Written (commandRings buf) s.csr)
    (Q : Except InitFault Unit → InitState α σ → Prop)
    (hok : ∀ c,Written ((handedOut buf mode).rings mode) c →
      Q (.ok ()) ⟨s.allocator,c,s.spawned++workers mode,s.commands++[.setNetwork netConfig,
        .setRawPacketRecvBuffer ⟨(handedOut buf mode).rxBuffer.physAddr⟩]⟩)
    (herror : ∀ part e c,part<+:(handedOut buf mode).rings mode →
      part.length<4+2*mode.numChannel → Failed part e c →
      Q (.error (.csr e)) ⟨s.allocator,c,s.spawned++startedBehind mode part,s.commands⟩) :
    (bringUp dev mode netConfig (handedOut buf mode).sends (handedOut buf mode).metas
      (handedOut buf mode).rxBuffer (handedOut buf mode).nicTx (handedOut buf mode).nicRx).Leads
      s Q := by
  let b := handedOut buf mode
  let nic : List (Csr.RingSpec × DmaBuf) :=
    [(.toCard .simpleNicTx,b.nicTx),(.toHost .simpleNicRx,b.nicRx)]
  let sends := ((Csr.buildSendRings mode).map Csr.RingSpec.toCard).zip b.sends
  let metas := ((Csr.buildMetaReportRings mode).map Csr.RingSpec.toHost).zip b.metas
  have hall : commandRings buf++nic++sends++metas=b.rings mode := rfl
  have hbufs (l : List Nat) : ∀ x∈l.map buf,descRingBufSize≤x.len :=
    List.forall_mem_map.mpr fun k _ => hlen k
  have hsends : b.sends.length=mode.numChannel := by simp [b,handedOut]
  have htotal := length_rings buf mode
  have hbefore : (commandRings buf++nic++sends).length=4+mode.numChannel := by
    cases mode <;> rfl
  have hpre1 : commandRings buf++nic<+:b.rings mode :=
    ⟨sends++metas,by rw [← List.append_assoc]; exact hall⟩
  have hpre2 : commandRings buf++nic++sends<+:b.rings mode := ⟨metas,hall⟩
  obtain ⟨hm1,hd1⟩ := rings_prefix buf mode _ hpre1
  obtain ⟨hm2,hd2⟩ := rings_prefix buf mode _ hpre2
  obtain ⟨hm3,hd3⟩ := rings_prefix buf mode (b.rings mode) (List.prefix_refl _)
  -- a failure before the send workers are started
  have hearly (part : List (Csr.RingSpec × DmaBuf)) (e : Csr.CsrFault) (c : σ)
      (hpart : part<+:b.rings mode) (hshort : part.length<4+mode.numChannel)
      (hfailed : Failed part e c) :
      Q (.error (.csr e)) ⟨s.allocator,c,s.spawned,s.commands⟩ := by
    have h := herror part e c hpart (by omega) hfailed
    rwa [startedBehind,if_pos hshort,List.append_nil] at h
  refine Exec.leads_bind (Exec.leads_bind (newRings_leads _ (hbufs [_,_]) _ _ ?_))
  refine writeBaseAddrs_leads hw nic (commandRings buf) _ hdone hm1 hd1 _ (fun c hdone => ?_)
    fun part e c hpart _ hshort hfailed => ?_
  swap
  · have hle := (List.prefix_append (commandRings buf++nic) sends).length_le
    exact hearly part e c (hpart.trans hpre1) (by omega) hfailed
  refine Exec.leads_bind (Exec.leads_bind (writeBaseAddrs_leads hw sends (commandRings buf++nic) _
    hdone hm2 hd2 _ (fun c hdone => ?_) fun part e c hpart _ hshort hfailed => ?_))
  swap
  · exact hearly part e c (hpart.trans hpre2) (by omega) hfailed
  refine Exec.leads_bind (newRings_leads _ (hbufs _) _ _ ?_)
  refine spawnAll_leads _ _ _ ?_
  refine Exec.leads_bind (spawnAll_leads _ _ _ ?_)
  have hfirst : s.spawned++(List.range b.sends.length).map (fun id => s!"SendWorker{id}")++
      ["AckResponder","PacketRetransmitWorker","QpAckTimeoutWorker","RdmaWriteWorker",
        "CompletionWorker"]=s.spawned++firstWorkers mode := by
    rw [hsends,List.append_assoc]
    rfl
  refine Exec.leads_bind (Exec.leads_bind (writeBaseAddrs_leads hw metas
    (commandRings buf++nic++sends) _ hdone hm3 hd3 _ (fun c hdone => ?_)
    fun part e c hpart hlong hshort hfailed => ?_))
  swap
  · have h := herror part e c hpart (hshort.trans_eq htotal) hfailed
    rw [startedBehind,if_neg (by omega),← hfirst] at h
    exact h
  refine Exec.leads_bind (newRings_leads _ (hbufs _) _ _ ?_)
  have hfinal := hok c hdone
  rw [workers,← List.append_assoc,← hfirst,
    show s.commands++[.setNetwork netConfig,.setRawPacketRecvBuffer ⟨b.rxBuffer.physAddr⟩]=
      s.commands++[.setNetwork netConfig]++[.setRawPacketRecvBuffer ⟨b.rxBuffer.physAddr⟩] by
    simp] at hfinal
  exact Exec.leads_modify (Exec.leads_bind (Exec.leads_modify (Exec.leads_modify hfinal)))

/-- How bringing up a device ends: with everything in place, without the memory for it, or with an
access that failed. -/
def Ended (Written : List (Csr.RingSpec × DmaBuf) → σ → Prop)
    (Failed : List (Csr.RingSpec × DmaBuf) → Csr.CsrFault → σ → Prop) (buf : Nat → DmaBuf)
    (limit : Nat) (e : DmaError) (mode : Csr.Mode) (netConfig : NetworkConfig)
    (s : InitState α σ) : Except InitFault HwBuffers → InitState α σ → Prop
  | .ok b,t => 7+2*mode.numChannel≤limit ∧ b=handedOut buf mode ∧ Written (b.rings mode) t.csr ∧
      t.spawned=s.spawned++workers mode ∧
      t.commands=s.commands++[.setNetwork netConfig,.setRawPacketRecvBuffer ⟨b.rxBuffer.physAddr⟩]
  | .error f,t => (limit<7+2*mode.numChannel ∧ f=.dma e ∧
      t.spawned=if limit<6+2*mode.numChannel then s.spawned else s.spawned++workers mode) ∨
      ∃ part fault,part<+:(handedOut buf mode).rings mode ∧ part.length<4+2*mode.numChannel ∧
        Failed part fault t.csr ∧ f=.csr fault ∧ t.spawned=s.spawned++startedBehind mode part

theorem initializeCtx_leads {alloc : DmaBufAllocator α} {limit : Nat} {e : DmaError}
    {At : α → Nat → Prop} (hc : Counts alloc buf limit e At) (s : InitState α σ)
    (h0 : At s.allocator 0) (hnone : Written [] s.csr) :
    (initializeCtx dev alloc mode netConfig).Leads s
      (Ended Written Failed buf limit e mode netConfig s) := by
  have hbufs (l : List Nat) : ∀ x∈l.map buf,descRingBufSize≤x.len :=
    List.forall_mem_map.mpr fun k _ => hlen k
  -- before the middle part no thread runs
  have hearly (a : α) (c : σ) (h : limit<6+2*mode.numChannel) :
      Ended Written Failed buf limit e mode netConfig s (.error (.dma e))
        ⟨a,c,s.spawned,s.commands⟩ := by
    refine Or.inl ⟨by omega,rfl,?_⟩
    rw [if_pos h]
  have hpre : commandRings buf<+:(handedOut buf mode).rings mode :=
    ⟨_,by rw [HwBuffers.rings,List.append_assoc]; rfl⟩
  obtain ⟨hm,hd⟩ := rings_prefix buf mode (commandRings buf) hpre
  unfold initializeCtx
  refine Exec.leads_bind (rbAlloc_leads hc s 0 h0 _ (fun _ a ha => ?_) fun hfull a => ?_)
  swap
  · exact hearly a _ (by omega)
  refine Exec.leads_bind (rbAlloc_leads hc _ 1 ha _ (fun _ a ha => ?_) fun hfull a => ?_)
  swap
  · exact hearly a _ (by omega)
  refine Exec.leads_bind (Exec.leads_bind (newRings_leads _ (hbufs [0,1]) _ _ ?_))
  refine writeBaseAddrs_leads hw (commandRings buf) [] _ ?_ hm hd _ (fun c hdone => ?_)
    fun part fault c hpart _ hshort hfailed => ?_
  · exact hnone
  swap
  · have hshort' : part.length<2 := hshort
    refine Or.inr ⟨part,fault,hpart.trans hpre,by omega,hfailed,rfl,?_⟩
    rw [startedBehind,if_pos (by omega),List.append_nil]
  refine Exec.leads_bind (repeatAlloc_leads hc _ _ 2 ha _ (fun _ a ha => ?_) fun hfull a => ?_)
  swap
  · exact hearly a _ (by omega)
  refine Exec.leads_bind (repeatAlloc_leads hc _ _ _ ha _ (fun _ a ha => ?_) fun hfull a => ?_)
  swap
  · exact hearly a _ (by omega)
  rw [show 2+mode.numChannel+mode.numChannel=2+2*mode.numChannel by omega] at ha
  refine Exec.leads_bind (rbAlloc_leads hc _ _ ha _ (fun _ a ha => ?_) fun hfull a => ?_)
  swap
  · exact hearly a _ (by omega)
  refine Exec.leads_bind (rbAlloc_leads hc _ _ ha _ (fun _ a ha => ?_) fun hfull a => ?_)
  swap
  · exact hearly a _ (by omega)
  refine Exec.leads_bind (rbAlloc_leads hc _ _ ha _ (fun _ a ha => ?_) fun hfull a => ?_)
  swap
  · exact hearly a _ (by omega)
  refine Exec.leads_bind (rbAlloc_leads hc _ _ ha _ (fun _ a ha => ?_) fun hfull a => ?_)
  swap
  · exact hearly a _ (by omega)
  refine Exec.leads_bind (bringUp_leads hw buf hlen mode netConfig _ ?_ _ (fun c hdone => ?_)
    fun part fault c hpart hshort hfailed => ?_)
  · exact hdone
  swap
  · exact Or.inr ⟨part,fault,hpart,hshort,hfailed,rfl,rfl⟩
  refine Exec.leads_bind (rbAlloc_leads hc _ (2+2*mode.numChannel+4) ?_ _ (fun _ a ha => ?_)
    fun hfull a => ?_)
  · exact ha
  · exact Exec.leads_pure ⟨by omega,rfl,hdone,rfl,rfl⟩
  · refine Or.inl ⟨by omega,rfl,?_⟩
    rw [if_neg (by omega)]

end BringUp

/-- Buffers too short for a ring end it at the command queue. -/
theorem initializeCtx_short {α σ : Type} {alloc : DmaBufAllocator α} {buf : Nat → DmaBuf}
    {limit : Nat} {e : DmaError} {At : α → Nat → Prop} (hc : Counts alloc buf limit e At)
    (dev : Csr.DeviceAdaptor σ) (hlimit : 2≤limit) (hshort : (buf 0).len<descRingBufSize)
    (mode : Csr.Mode) (netConfig : NetworkConfig) (s : InitState α σ) (h0 : At s.allocator 0) :
    (initializeCtx dev alloc mode netConfig).Leads s fun r t =>
      r=.error (.panicked "invalid length") ∧ t.spawned=s.spawned := by
  unfold initializeCtx
  refine Exec.leads_bind (rbAlloc_leads hc s 0 h0 _ (fun _ a ha => ?_) fun hfull a => ?_)
  swap
  · omega
  refine Exec.leads_bind (rbAlloc_leads hc _ 1 ha _ (fun _ a ha => ?_) fun hfull a => ?_)
  swap
  · omega
  exact Exec.leads_bind (Exec.leads_bind (newRings_short _ _ hshort _ _ ⟨rfl,rfl⟩))

theorem all_handedOut (buf : Nat → DmaBuf) (mode : Csr.Mode) :
    (handedOut buf mode).all=(List.range (7+2*mode.numChannel)).map buf := by
  cases mode <;> rfl

theorem handedOut_apart (buf : Nat → DmaBuf) (mode : Csr.Mode) (limit : Nat)
    (hlimit : 7+2*mode.numChannel≤limit) (h : ∀ i j,i<j → j<limit → (buf i).Apart (buf j)) :
    (handedOut buf mode).all.Pairwise DmaBuf.Apart := by
  rw [all_handedOut,List.pairwise_map]
  refine List.pairwise_lt_range.imp_of_mem fun {i j} _ hj hij => h i j hij ?_
  have := List.mem_range.mp hj
  omega

end Init

namespace UDmaBufAllocator

/-- The device's attributes can be read and mappings succeed. -/
def working (phys : UInt64) (size : Nat) (mmap : Nat → Nat → Nat) : UDmaBufSystem :=
  ⟨.ok size,.ok phys,fun len offset => some (mmap len offset)⟩

/-- The buffers of a region, one behind another. -/
def nth (phys : UInt64) (mmap : Nat → Nat → Nat) (k : Nat) : DmaBuf :=
  ⟨mmap descRingBufSize (k*descRingBufSize),descRingBufSize,phys+UInt64.ofNat (k*descRingBufSize)⟩

def outOfMemory : DmaError :=
  .outOfMemory (some s!"Failed to allocate memory of length: {descRingBufSize} bytes")

/-- So many buffers of the region are gone. -/
def Gone (size : Nat) (a : UDmaBufAllocator) (k : Nat) : Prop :=
  a.offset=k*descRingBufSize ∧ k ≤ size/descRingBufSize

theorem create_counts (phys : UInt64) (size : Nat) (hsize : size<2^64) (mmap : Nat → Nat → Nat) :
    Init.Counts (create (working phys size mmap)) (nth phys mmap) (size/descRingBufSize) outOfMemory
      (Gone size) where
  le _ _ h := h.2
  more a k ha hk := by
    have hfits : (k+1)*descRingBufSize ≤ size :=
      (Nat.mul_le_mul_right _ hk).trans (Nat.div_mul_le_self size descRingBufSize)
    refine ⟨⟨(k+1)*descRingBufSize⟩,?_,rfl,hk⟩
    rw [Nat.succ_mul] at hfits ⊢
    have hno : ¬(2^64≤k*descRingBufSize+descRingBufSize ∨
      size<k*descRingBufSize+descRingBufSize) := by omega
    simp only [create,working,ha.1,if_neg hno,nth]
  full a k ha hk := by
    have hmore : size<(k+1)*descRingBufSize := by
      rw [← Nat.div_lt_iff_lt_mul (by decide)]
      omega
    have hyes : 2^64≤a.offset+descRingBufSize ∨ size<a.offset+descRingBufSize := by
      rw [ha.1]
      rw [Nat.succ_mul] at hmore
      exact Or.inr hmore
    exact ⟨a,by simp only [create,working,if_pos hyes]; rfl⟩

theorem nth_physAddr (phys : UInt64) (mmap : Nat → Nat → Nat) (k : Nat)
    (h : phys.toNat+k*descRingBufSize<2^64) :
    (nth phys mmap k).physAddr.toNat=phys.toNat+k*descRingBufSize := by
  rw [nth,UInt64.toNat_add,UInt64.toNat_ofNat_of_lt' (by rw [UInt64.size]; omega),
    Nat.mod_eq_of_lt h]

theorem nth_len (phys : UInt64) (mmap : Nat → Nat → Nat) (k : Nat) :
    (nth phys mmap k).len=descRingBufSize := rfl

/-- Two buffers of a region do not overlap. -/
theorem nth_apart (phys : UInt64) (size : Nat) (hsize : phys.toNat+size<2^64)
    (mmap : Nat → Nat → Nat) (i j : Nat) (hij : i<j) (hj : j < size/descRingBufSize) :
    (nth phys mmap i).Apart (nth phys mmap j) := by
  have hi' : (i+1)*descRingBufSize≤j*descRingBufSize := Nat.mul_le_mul_right _ hij
  have hj' : (j+1)*descRingBufSize ≤ size :=
    (Nat.mul_le_mul_right _ hj).trans (Nat.div_mul_le_self size descRingBufSize)
  rw [Nat.succ_mul] at hi' hj'
  left
  rw [nth_physAddr phys mmap i (by omega),nth_physAddr phys mmap j (by omega),nth_len]
  omega

end UDmaBufAllocator

/-- Bringing up a PCI device, with its workers accessing registers as soon as they run. It succeeds
exactly if the reserved region has room for two buffers for each channel and seven more; then the
buffers are pairwise disjoint parts of the region, the base address registers of every ring hold the
address of the ring's own buffer, all workers run and the device has been told its network address
and where raw packets go. Otherwise it reports that memory is short; no worker runs then, unless
only the very last buffer was missing: all of them do in that case. -/
theorem initializeCtx_pci (mode : Csr.Mode) (netConfig : NetworkConfig) (phys : UInt64)
    (size : Nat) (hsize : phys.toNat+size<2^64) (mmap : Nat → Nat → Nat) (bar : Csr.Bar)
    (turns : List (List Csr.Request)) (hturns : ∀ xs∈turns,Csr.Quiet xs) :
    (Init.initializeCtx Csr.SharedBar.adaptor
      (UDmaBufAllocator.create (UDmaBufAllocator.working phys size mmap)) mode netConfig).Leads
      ⟨UDmaBufAllocator.open,⟨bar,turns⟩,[],[]⟩ fun
    | .ok b,t => (7+2*mode.numChannel)*descRingBufSize ≤ size ∧ b.all.Pairwise DmaBuf.Apart ∧
        (∀ x∈b.all,x.len=descRingBufSize ∧ phys.toNat≤x.physAddr.toNat ∧
          x.physAddr.toNat+x.len≤phys.toNat+size) ∧
        (b.rings mode).map Prod.fst=Csr.builtRings mode ∧
        (∀ p∈b.rings mode,(Csr.registers t.csr.bar p.1).base=p.2.physAddr) ∧
        t.spawned=Init.workers mode ∧
        t.commands=[.setNetwork netConfig,.setRawPacketRecvBuffer ⟨b.rxBuffer.physAddr⟩]
    | .error f,t => size<(7+2*mode.numChannel)*descRingBufSize ∧
        f=.dma UDmaBufAllocator.outOfMemory ∧ t.spawned=
          if size<(6+2*mode.numChannel)*descRingBufSize then [] else Init.workers mode := by
  have hpos : 0<descRingBufSize := by decide
  have hstart : UDmaBufAllocator.Gone size UDmaBufAllocator.open 0 :=
    ⟨by rw [Nat.zero_mul]; rfl,Nat.zero_le _⟩
  have hcounts := UDmaBufAllocator.create_counts phys size (by omega) mmap
  have hlen : Init.HoldRings (UDmaBufAllocator.nth phys mmap) :=
    fun k => (UDmaBufAllocator.nth_len phys mmap k).ge
  refine (Init.initializeCtx_leads Csr.SharedBar.baseWrites _ hlen mode netConfig hcounts
    ⟨UDmaBufAllocator.open,⟨bar,turns⟩,[],[]⟩ hstart ⟨hturns,by rintro p ⟨⟩⟩).mono
    fun r t hended => ?_
  cases r with
  | error f =>
      obtain ⟨hlimit,hf,hspawned⟩|⟨-,-,-,-,hnever,-⟩ := hended
      swap
      · exact hnever.elim
      rw [Nat.div_lt_iff_lt_mul hpos] at hlimit
      refine ⟨hlimit,hf,?_⟩
      rw [hspawned]
      simp only [Nat.div_lt_iff_lt_mul hpos,List.nil_append]
  | ok b =>
      obtain ⟨hlimit,hb,⟨-,hprogrammed⟩,hspawned,hcommands⟩ := hended
      refine ⟨(Nat.le_div_iff_mul_le hpos).mp hlimit,?_,?_,?_,hprogrammed,hspawned,hcommands⟩
      · rw [hb]
        exact Init.handedOut_apart _ mode _ hlimit
          (UDmaBufAllocator.nth_apart phys size hsize mmap)
      · intro x hx
        rw [hb,Init.all_handedOut,List.mem_map] at hx
        obtain ⟨k,hk,rfl⟩ := hx
        have hk' : (k+1)*descRingBufSize ≤ size :=
          (Nat.mul_le_mul_right _ ((List.mem_range.mp hk).trans_le hlimit)).trans
            (Nat.div_mul_le_self size descRingBufSize)
        rw [Nat.succ_mul] at hk'
        rw [UDmaBufAllocator.nth_physAddr phys mmap k (by omega),UDmaBufAllocator.nth_len]
        exact ⟨rfl,by omega,by omega⟩
      · rw [hb,Init.rings_fst]

/-- One mebibyte is one buffer short: the call reports an error and leaves all workers running. A
send worker and the device use the registers of the first channel meanwhile. -/
theorem initializeCtx_pci_workers_left :
    (Init.initializeCtx Csr.SharedBar.adaptor (UDmaBufAllocator.create
      (UDmaBufAllocator.working 0x40000000 0x100000 (fun _ offset => offset))) .mode100G
      ⟨0,0,none⟩).Leads ⟨UDmaBufAllocator.open,⟨fun _ => 0,[[],[.writeHead (.send 0) 2],
        [.deviceTail (.send 0) 2,.readTail (.send 0)]]⟩,[],[]⟩ fun r t =>
      r=.error (.dma UDmaBufAllocator.outOfMemory) ∧ t.spawned=Init.workers .mode100G := by
  have hmapped (x : Csr.Request) (hring : x.ring=some (.toCard (.send 0))) (r : Csr.RingSpec)
      (hr : x.ring=some r) : r.Mapped := by
    obtain rfl := Option.some.inj (hring.symm.trans hr)
    exact Nat.zero_lt_succ 3
  have hquiet : ∀ xs∈[[],[Csr.Request.writeHead (.send 0) 2],
      [.deviceTail (.send 0) 2,.readTail (.send 0)]],Csr.Quiet xs := by
    simp only [List.forall_mem_cons,Csr.Quiet,List.not_mem_nil,false_imp_iff,implies_true,and_true,
      true_and]
    exact ⟨⟨trivial,hmapped _ rfl⟩,⟨trivial,hmapped _ rfl⟩,trivial,hmapped _ rfl⟩
  refine (initializeCtx_pci .mode100G ⟨0,0,none⟩ 0x40000000 0x100000 (by decide)
    (fun _ offset => offset) (fun _ => 0) _ hquiet).mono fun r t h => ?_
  cases r with
  | error f => exact ⟨congrArg _ h.2.1,h.2.2.trans (if_neg (by decide))⟩
  | ok b => exact absurd h.1 (by decide)

end BlueRdma

import BlueRdma.Workers.MetaReport.Worker

namespace BlueRdma

/-- The PSN of a reported packet. -/
def ReportMeta.packetPsn : ReportMeta → Option Psn
  | .headerWrite x => some x.psn
  | .headerRead x => some x.psn
  | _ => none

/-- The PSNs a report is recorded under: a read request without the ack bit leaves no trace. -/
def ReportMeta.recorded : ReportMeta → List Psn
  | .headerWrite x => [x.psn]
  | .headerRead x => if x.ackReq then [x.psn] else []
  | _ => []

/-- The reports are packets, and their PSNs are those below `k`. -/
structure CoversBelow (k : Nat) (ms : List ReportMeta) : Prop where
  inside : ∀ m∈ms,∃ q<k,m.packetPsn=some (Psn.wrap q)
  all : ∀ q<k,∃ m∈ms,m.packetPsn=some (Psn.wrap q)

theorem ReportMeta.mem_recorded (m : ReportMeta) (p : Psn) :
    p∈m.recorded ↔ (∃ x,m=.headerWrite x ∧ x.psn=p) ∨
      ∃ x,m=.headerRead x ∧ x.psn=p ∧ x.ackReq=true := by
  cases m with
  | headerWrite x =>
      rw [recorded,List.mem_singleton,eq_comm]
      simp
  | headerRead x =>
      by_cases hack : x.ackReq=true
      · rw [recorded,if_pos hack,List.mem_singleton,eq_comm]
        simp [hack]
      · rw [recorded,if_neg hack]
        simp [hack]
  | _ => simp [recorded]

theorem ReportMeta.recorded_psn (m : ReportMeta) (p : Psn) (h : p∈m.recorded) :
    m.packetPsn=some p := by
  rcases (m.mem_recorded p).mp h with ⟨x,rfl,hx⟩|⟨x,rfl,hx,-⟩
  · exact congrArg some hx
  · exact congrArg some hx

/-- The left edge is the first PSN that was not heard. -/
theorem PsnTracker.Exact.basePsn_iff (heard : List Psn) (t : PsnTracker) (h : Exact heard t)
    (k : Nat) (hk : k<2^23) (hin : ∀ p∈heard,∃ q<k,p=Psn.wrap q) :
    t.basePsn=Psn.wrap k ↔ ∀ q<k,Psn.wrap q∈heard := by
  have hlow := h.edge.low
  have hwrap : t.basePsn=Psn.wrap t.basePsn.toNat :=
    Psn.eq_wrap _ (by simp only [Psn.Valid]; omega)
  have hmiss : Psn.wrap t.basePsn.toNat∉heard := by
    intro hmem
    rw [← hwrap] at hmem
    rcases h.recorded _ hmem with hlt|hbit
    · omega
    · rw [Nat.sub_self,h.gap] at hbit
      cases hbit
  constructor
  · intro hbase q hq
    refine h.edge.below q ?_
    rw [hbase,Psn.wrap_toNat]
    omega
  · intro hall
    have hge : k≤t.basePsn.toNat := by
      by_contra hlt
      exact hmiss (hall _ (by omega))
    have hle : t.basePsn.toNat≤k := by
      by_contra hlt
      obtain ⟨q,hq,he⟩ := hin _ (h.edge.below k (by omega))
      have := (Psn.wrap_eq_iff k q).mp he
      omega
    rw [hwrap,Nat.le_antisymm hle hge]

namespace MetaHandler

/-- The handler after a list of reports; `none` after a panic. -/
def handleAll (h : MetaHandler) (ms : List ReportMeta) : Option MetaHandler :=
  ms.foldlM (fun h m => (h.handleMeta m).next) h

/-- A packet's PSN is recorded, or the handler stays as it is. -/
theorem handleMeta_exact (h : MetaHandler) (m : ReportMeta) (heard : List Psn) (q : Nat)
    (hh : PsnTracker.Exact heard h.recvTable.psnTracker) (hm : m.packetPsn=some (Psn.wrap q))
    (hq : q+1<2^23) :
    ∃ h',(h.handleMeta m).next=some h' ∧
      PsnTracker.Exact (heard++m.recorded) h'.recvTable.psnTracker := by
  have hlow : (Psn.wrap q).toNat+1<2^23 := by
    rw [Psn.wrap_toNat]
    omega
  cases m with
  | headerWrite x =>
      have hx : x.psn=Psn.wrap q := Option.some.inj hm
      rw [← hx] at hlow
      exact ⟨_,rfl,PsnTracker.ackOne_exact heard _ _ hh hlow⟩
  | headerRead x =>
      have hx : x.psn=Psn.wrap q := Option.some.inj hm
      rw [← hx] at hlow
      by_cases hack : x.ackReq=true
      · refine ⟨{h with recvTable := (h.recvTable.ackOne x.psn).1},?_,?_⟩
        · simp only [handleMeta,handleHeaderRead,hack,if_true]
        · rw [ReportMeta.recorded,if_pos hack]
          exact PsnTracker.ackOne_exact heard _ _ hh hlow
      · refine ⟨h,?_,?_⟩
        · simp only [handleMeta,handleHeaderRead,if_neg hack]
        · rw [ReportMeta.recorded,if_neg hack,List.append_nil]
          exact hh
  | _ => cases hm

theorem handleAll_exact (ms : List ReportMeta) (h : MetaHandler) (heard : List Psn) (k : Nat)
    (hk : k<2^23) (hh : PsnTracker.Exact heard h.recvTable.psnTracker)
    (hms : ∀ m∈ms,∃ q<k,m.packetPsn=some (Psn.wrap q)) :
    ∃ h',h.handleAll ms=some h' ∧
      PsnTracker.Exact (heard++ms.flatMap (·.recorded)) h'.recvTable.psnTracker := by
  induction ms generalizing h heard with
  | nil => exact ⟨h,rfl,by simpa using hh⟩
  | cons m ms ih =>
      obtain ⟨q,hq,hm⟩ := hms m List.mem_cons_self
      obtain ⟨h₁,hstep,hexact⟩ := handleMeta_exact h m heard q hh hm (by omega)
      obtain ⟨h₂,hrest,hfinal⟩ := ih h₁ _ hexact fun m' hm' => hms m' (List.mem_cons_of_mem m hm')
      refine ⟨h₂,?_,?_⟩
      · rw [handleAll,List.foldlM_cons,hstep]
        exact hrest
      · rwa [List.flatMap_cons,← List.append_assoc]

theorem fresh_exact : PsnTracker.Exact [] ({} : MetaHandler).recvTable.psnTracker where
  edge := ⟨by decide,fun q hq => absurd hq (Nat.not_lt_zero q)⟩
  bits := by
    intro i hi
    simp [BitRow.bit] at hi
  recorded := fun p hp => by cases hp
  gap := rfl

/-- A PSN is recorded exactly for a write-type packet or a read request that asks for an ack. -/
theorem recv_frontier_iff (k : Nat) (hk : k<2^23) (ms : List ReportMeta) (hms : CoversBelow k ms) :
    ∃ h,({} : MetaHandler).handleAll ms=some h ∧
      (h.recvTable.basePsn=Psn.wrap k ↔ ∀ q<k,∃ m∈ms,
        (∃ x,m=.headerWrite x ∧ x.psn=Psn.wrap q) ∨
        ∃ x,m=.headerRead x ∧ x.psn=Psn.wrap q ∧ x.ackReq=true) := by
  obtain ⟨h,hrun,hexact⟩ := handleAll_exact ms {} [] k hk fresh_exact hms.inside
  refine ⟨h,hrun,(hexact.basePsn_iff _ _ k hk ?_).trans ?_⟩
  · intro p hp
    obtain ⟨m,hm,hp⟩ := List.mem_flatMap.mp hp
    obtain ⟨q,hq,hpsn⟩ := hms.inside m hm
    exact ⟨q,hq,Option.some.inj ((m.recorded_psn p hp).symm.trans hpsn)⟩
  · refine forall₂_congr fun q _ => ?_
    rw [List.nil_append,List.mem_flatMap]
    exact exists_congr fun m => and_congr_right fun _ => m.mem_recorded _

/-- A write packet of one message for each PSN. -/
def writePacket (q : Nat) : HeaderWriteMeta := ⟨.only,Msn.wrap q,Psn.wrap q,true,false,0,.write⟩

def readRequest (q : Nat) (ackReq : Bool) : HeaderReadMeta :=
  ⟨Msn.wrap q,Psn.wrap q,0x1000,1,64,0x2000,2,ackReq⟩

/-- A read request with the ack bit between two writes, in reverse order. -/
def ackedRead : List ReportMeta :=
  [.headerWrite (writePacket 2),.headerRead (readRequest 1 true),.headerWrite (writePacket 0)]

theorem recv_frontier_iff_ackedRead :
    CoversBelow 3 ackedRead ∧ ∃ h,({} : MetaHandler).handleAll ackedRead=some h ∧
      h.recvTable.basePsn=Psn.wrap 3 := by
  have hcovers : CoversBelow 3 ackedRead := ⟨by decide,by decide⟩
  obtain ⟨h,hrun,hiff⟩ := recv_frontier_iff 3 (by decide) ackedRead hcovers
  refine ⟨hcovers,h,hrun,hiff.mpr ?_⟩
  intro q hq
  interval_cases q
  · exact ⟨.headerWrite (writePacket 0),by simp [ackedRead],Or.inl ⟨_,rfl,rfl⟩⟩
  · exact ⟨.headerRead (readRequest 1 true),by simp [ackedRead],Or.inr ⟨_,rfl,rfl,rfl⟩⟩
  · exact ⟨.headerWrite (writePacket 2),by simp [ackedRead],Or.inl ⟨_,rfl,rfl⟩⟩

/-- A read request without the ack bit comes first: the frontier never leaves its PSN, and the
completion and the ack of the write behind it are withheld. -/
theorem read_leaves_hole :
    CoversBelow 2 [.headerRead (readRequest 0 false),.headerWrite (writePacket 1)] ∧
    (({} : MetaHandler).handleAll
      [.headerRead (readRequest 0 false),.headerWrite (writePacket 1)]).map (·.recvTable.basePsn)=
        some (Psn.wrap 0) ∧
    Psn.wrap 0≠Psn.wrap 2 :=
  ⟨⟨by decide,by decide⟩,by decide,by decide⟩

end MetaHandler
end BlueRdma

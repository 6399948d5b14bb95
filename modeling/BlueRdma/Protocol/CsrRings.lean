import BlueRdma.Csr.Rings
import BlueRdma.Framework.Run

namespace BlueRdma.Csr

inductive Register
  | baseLow
  | baseHigh
  | head
  | tail
  deriving DecidableEq

def Register.offset : Register → Nat
  | .baseLow => ringOffsetBaseLow
  | .baseHigh => ringOffsetBaseHigh
  | .head => ringOffsetHead
  | .tail => ringOffsetTail

namespace RingSpec

/-- The position of a ring in the register space, in units of sixteen bytes. -/
def slot : RingSpec → Nat
  | .toCard .cmdReq => 16
  | .toCard .simpleNicTx => 20
  | .toCard (.send id) => 4*id
  | .toHost .cmdResp => 17
  | .toHost .simpleNicRx => 21
  | .toHost (.metaReport id) => 4*id+1

/-- The channel number, if any, is one of the four the register space has room for. -/
def Mapped : RingSpec → Prop
  | .toCard (.send id) => id<4
  | .toHost (.metaReport id) => id<4
  | _ => True

theorem csrBase_of_mapped (r : RingSpec) (h : r.Mapped) : r.csrBase=.ok (16*r.slot) := by
  rcases r with (_|_|id)|(_|_|id)
  · rfl
  · rfl
  · have hid : id<4 := h
    interval_cases id <;> rfl
  · rfl
  · rfl
  · have hid : id<4 := h
    interval_cases id <;> rfl

theorem slot_injective (r r' : RingSpec) (h : r.Mapped) (h' : r'.Mapped) (heq : r.slot=r'.slot) :
    r=r' := by
  rcases r with (_|_|id)|(_|_|id) <;> rcases r' with (_|_|id')|(_|_|id') <;>
    simp only [slot,Mapped,toCard.injEq,toHost.injEq,RingSpecToCard.send.injEq,
      RingSpecToHost.metaReport.injEq,reduceCtorEq] at * <;> omega

theorem slot_lt (r : RingSpec) (h : r.Mapped) : r.slot<22 := by
  rcases r with (_|_|id)|(_|_|id) <;> simp only [slot,Mapped] at * <;> omega

theorem mapped_of_built (mode : Mode) (r : RingSpec) (h : r∈builtRings mode) : r.Mapped := by
  have hids : ∀ id∈mode.channelIds,id<4 := by cases mode <;> decide
  simp only [builtRings,buildSendRings,buildMetaReportRings,List.mem_append,List.mem_cons,
    List.not_mem_nil,or_false,List.map_map,List.mem_map] at h
  rcases h with ((rfl|rfl|rfl|rfl)|⟨id,hid,rfl⟩)|⟨id,hid,rfl⟩
  · trivial
  · trivial
  · trivial
  · trivial
  · exact hids id hid
  · exact hids id hid

end RingSpec

/-- The content of one register of a ring. -/
def cell (bar : Bar) (r : RingSpec) (f : Register) : UInt32 := bar (16*r.slot+f.offset)

/-- What a ring's registers say: where its buffer is and how far both sides are. -/
@[ext] structure Registers where
  base : UInt64
  head : UInt32
  tail : UInt32

/-- The registers of each ring, as they lie in the register space. -/
def registers (bar : Bar) (r : RingSpec) : Registers where
  base := Word.joinHalves (cell bar r .baseLow) (cell bar r .baseHigh)
  head := cell bar r .head
  tail := cell bar r .tail

theorem offset_lt (f : Register) : f.offset<16 := by cases f <;> decide

theorem offset_aligned (f : Register) : f.offset%4=0 := by cases f <;> rfl

theorem offset_injective (f f' : Register) (h : f.offset=f'.offset) : f=f' := by
  cases f <;> cases f' <;> first | rfl | exact absurd h (by decide)

/-- A store at the place of one register changes that register of that ring and no other. -/
theorem cell_update (bar : Bar) (r r' : RingSpec) (f f' : Register) (v : UInt32) (h : r.Mapped)
    (h' : r'.Mapped) : cell (Function.update bar (16*r.slot+f.offset) v) r' f'=
      if r'=r ∧ f'=f then v else cell bar r' f' := by
  have hf := offset_lt f
  have hf' := offset_lt f'
  unfold cell
  split_ifs with heq
  · rw [heq.1,heq.2,Function.update_self]
  · apply Function.update_of_ne
    intro hplace
    exact heq ⟨r'.slot_injective r h' h (by omega),offset_injective f' f (by omega)⟩

/-- What the threads of the driver and the device do with the registers. The two stores of
`write_base_addr` are separate requests: other threads may come between them. -/
inductive Request
  | readBaseAddr (r : RingSpec)
  | writeBaseLow (r : RingSpec) (physAddr : UInt64)
  | writeBaseHigh (r : RingSpec) (physAddr : UInt64)
  | writeHead (r : RingSpecToCard) (head : UInt32)
  | readTail (r : RingSpecToCard)
  | readHead (r : RingSpecToHost)
  | writeTail (r : RingSpecToHost) (tail : UInt32)
  | deviceTail (r : RingSpecToCard) (tail : UInt32)
  | deviceHead (r : RingSpecToHost) (head : UInt32)
  | custom (c : CustomCsr)

inductive Answer
  | done
  | value (v : UInt32)
  | address (a : UInt64)
  | fault (e : CsrFault)
  deriving DecidableEq

/-- Runs an access and wraps up what it returns. -/
def answer {α : Type} (wrap : α → Answer) (m : Access Bar α) (bar : Bar) : Bar × Answer :=
  match m.ends bar with
  | (.ok a,bar) => (bar,wrap a)
  | (.error e,bar) => (bar,.fault e)

/-- The two stores of `write_base_addr`. -/
def writeBaseHalf (r : RingSpec) (offset : Nat) (half : UInt32) : Access Bar Unit := do
  SysfsPciCsrAdaptor.adaptor.writeCsr ((← r.csrBase)+offset) half

theorem writeBaseAddr_eq (r : RingSpec) (physAddr : UInt64) :
    writeBaseAddr SysfsPciCsrAdaptor.adaptor r physAddr=(do
      writeBaseHalf r ringOffsetBaseLow (Word.lowHalf physAddr)
      writeBaseHalf r ringOffsetBaseHigh (Word.highHalf physAddr)) := by
  simp only [writeBaseAddr,writeBaseHalf,bind_assoc]

namespace Request

/-- A request on the mapped register space. -/
def exec (bar : Bar) : Request → Bar × Answer
  | .readBaseAddr r => answer .address (Csr.readBaseAddr SysfsPciCsrAdaptor.adaptor r) bar
  | .writeBaseLow r a =>
      answer (fun _ => .done) (writeBaseHalf r ringOffsetBaseLow (Word.lowHalf a)) bar
  | .writeBaseHigh r a =>
      answer (fun _ => .done) (writeBaseHalf r ringOffsetBaseHigh (Word.highHalf a)) bar
  | .writeHead r v => answer (fun _ => .done) (Csr.writeHead SysfsPciCsrAdaptor.adaptor r v) bar
  | .readTail r => answer .value (Csr.readTail SysfsPciCsrAdaptor.adaptor r) bar
  | .readHead r => answer .value (Csr.readHead SysfsPciCsrAdaptor.adaptor r) bar
  | .writeTail r v => answer (fun _ => .done) (Csr.writeTail SysfsPciCsrAdaptor.adaptor r v) bar
  -- the device stores into its own registers
  | .deviceTail r v => (Function.update bar (16*(RingSpec.toCard r).slot+ringOffsetTail) v,.done)
  | .deviceHead r v => (Function.update bar (16*(RingSpec.toHost r).slot+ringOffsetHead) v,.done)
  | .custom c => (c.set bar,.done)

/-- The same request on a record of registers for each ring. -/
def spec (regs : RingSpec → Registers) : Request → (RingSpec → Registers) × Answer
  | .readBaseAddr r => (regs,.address (regs r).base)
  | .writeBaseLow r a => (Function.update regs r { regs r with
      base := Word.joinHalves (Word.lowHalf a) (Word.highHalf (regs r).base) },.done)
  | .writeBaseHigh r a => (Function.update regs r { regs r with
      base := Word.joinHalves (Word.lowHalf (regs r).base) (Word.highHalf a) },.done)
  | .writeHead r v => (Function.update regs (.toCard r) { regs (.toCard r) with head := v },.done)
  | .readTail r => (regs,.value (regs (.toCard r)).tail)
  | .readHead r => (regs,.value (regs (.toHost r)).head)
  | .writeTail r v => (Function.update regs (.toHost r) { regs (.toHost r) with tail := v },.done)
  | .deviceTail r v => (Function.update regs (.toCard r) { regs (.toCard r) with tail := v },.done)
  | .deviceHead r v => (Function.update regs (.toHost r) { regs (.toHost r) with head := v },.done)
  | .custom _ => (regs,.done)

/-- The ring of a request. -/
def ring : Request → Option RingSpec
  | .readBaseAddr r | .writeBaseLow r _ | .writeBaseHigh r _ => some r
  | .writeHead r _ | .readTail r | .deviceTail r _ => some (.toCard r)
  | .readHead r | .writeTail r _ | .deviceHead r _ => some (.toHost r)
  | .custom _ => none

end Request

theorem bind_csrBase {α : Type} (r : RingSpec) (h : r.Mapped) (k : Nat → Access Bar α) :
    ((liftM r.csrBase : Access Bar Nat) >>= k)=k (16*r.slot) := by
  rw [r.csrBase_of_mapped h]
  rfl

theorem place_aligned (r : RingSpec) (f : Register) : (16*r.slot+f.offset)%4=0 := by
  have := offset_aligned f
  omega

theorem ends_readCsr (bar : Bar) (r : RingSpec) (f : Register) :
    (SysfsPciCsrAdaptor.readCsr (16*r.slot+f.offset)).ends bar=(.ok (cell bar r f),bar) := by
  rw [SysfsPciCsrAdaptor.readCsr,if_neg (by rw [place_aligned]; simp)]
  rfl

theorem ends_writeCsr (bar : Bar) (r : RingSpec) (f : Register) (v : UInt32) :
    (SysfsPciCsrAdaptor.writeCsr (16*r.slot+f.offset) v).ends bar=
      (.ok (),Function.update bar (16*r.slot+f.offset) v) := by
  rw [SysfsPciCsrAdaptor.writeCsr,if_neg (by rw [place_aligned]; simp)]
  rfl

/-- One register of a record replaced. -/
def Registers.store (regs : Registers) (f : Register) (v : UInt32) : Registers :=
  match f with
  | .baseLow => { regs with base := Word.joinHalves v (Word.highHalf regs.base) }
  | .baseHigh => { regs with base := Word.joinHalves (Word.lowHalf regs.base) v }
  | .head => { regs with head := v }
  | .tail => { regs with tail := v }

/-- The records show what the register space holds. -/
def Shown (bar : Bar) (regs : RingSpec → Registers) : Prop :=
  ∀ r : RingSpec,r.Mapped → registers bar r=regs r

theorem shown_store (bar : Bar) (regs : RingSpec → Registers) (h : Shown bar regs) (r : RingSpec)
    (hr : r.Mapped) (f : Register) (v : UInt32) :
    Shown (Function.update bar (16*r.slot+f.offset) v)
      (Function.update regs r ((regs r).store f v)) := by
  intro r' hr'
  by_cases heq : r'=r
  · subst heq
    rw [Function.update_self,← h r' hr']
    cases f <;> simp [registers,Registers.store,cell_update,hr]
  · rw [Function.update_of_ne heq,← h r' hr']
    simp [registers,cell_update,hr,hr',heq]

/-- The debug registers lie behind those of all rings. -/
theorem shown_custom (bar : Bar) (regs : RingSpec → Registers) (h : Shown bar regs)
    (c : CustomCsr) : Shown (c.set bar) regs := by
  intro r hr
  have hcell (f : Register) : cell (c.set bar) r f=cell bar r f := by
    have hslot := r.slot_lt hr
    have hf := offset_lt f
    apply Function.update_of_ne
    cases c <;> simp only [CustomCsr.addr] <;> omega
  rw [← h r hr]
  simp only [registers,hcell]

namespace Request

theorem answer_store (bar : Bar) (r : RingSpec) (hr : r.Mapped) (f : Register) (v : UInt32) :
    answer (fun _ => .done) (do
      SysfsPciCsrAdaptor.adaptor.writeCsr ((← r.csrBase)+f.offset) v) bar=
    (Function.update bar (16*r.slot+f.offset) v,.done) := by
  rw [bind_csrBase r hr,answer,SysfsPciCsrAdaptor.adaptor,ends_writeCsr]

theorem answer_load (bar : Bar) (r : RingSpec) (hr : r.Mapped) (f : Register) :
    answer .value (do SysfsPciCsrAdaptor.adaptor.readCsr ((← r.csrBase)+f.offset)) bar=
    (bar,.value (cell bar r f)) := by
  rw [bind_csrBase r hr,answer,SysfsPciCsrAdaptor.adaptor,ends_readCsr]

theorem answer_readBaseAddr (bar : Bar) (r : RingSpec) (hr : r.Mapped) :
    answer .address (Csr.readBaseAddr SysfsPciCsrAdaptor.adaptor r) bar=
    (bar,.address (registers bar r).base) := by
  have hlo : (SysfsPciCsrAdaptor.adaptor.readCsr (16*r.slot+ringOffsetBaseLow)).ends bar=_ :=
    ends_readCsr bar r .baseLow
  have hhi : (SysfsPciCsrAdaptor.adaptor.readCsr (16*r.slot+ringOffsetBaseHigh)).ends bar=_ :=
    ends_readCsr bar r .baseHigh
  rw [Csr.readBaseAddr,bind_csrBase r hr]
  simp only [bind_csrBase r hr]
  rw [answer,Exec.ends_bind_ok hlo,Exec.ends_bind_ok hhi]
  rfl

/-- One request: both sides give the same answer, and the records still show the registers. -/
theorem exec_refines (bar : Bar) (regs : RingSpec → Registers) (x : Request)
    (hx : ∀ r,x.ring=some r → r.Mapped) (h : Shown bar regs) :
    Shown (exec bar x).1 (spec regs x).1 ∧ (exec bar x).2=(spec regs x).2 := by
  have hstore (r : RingSpec) (hr : r.Mapped) (f : Register) (v : UInt32)
      (he : exec bar x=answer (fun _ => .done) (do
        SysfsPciCsrAdaptor.adaptor.writeCsr ((← r.csrBase)+f.offset) v) bar)
      (hs : spec regs x=(Function.update regs r ((regs r).store f v),.done)) :
      Shown (exec bar x).1 (spec regs x).1 ∧ (exec bar x).2=(spec regs x).2 := by
    rw [he,answer_store bar r hr,hs]
    exact ⟨shown_store bar regs h r hr f v,rfl⟩
  cases x with
  | readBaseAddr r =>
      have hr := hx r rfl
      rw [exec,answer_readBaseAddr bar r hr,h r hr]
      exact ⟨h,rfl⟩
  | writeBaseLow r a => exact hstore r (hx r rfl) .baseLow (Word.lowHalf a) rfl rfl
  | writeBaseHigh r a => exact hstore r (hx r rfl) .baseHigh (Word.highHalf a) rfl rfl
  | writeHead r v => exact hstore (.toCard r) (hx _ rfl) .head v rfl rfl
  | readTail r =>
      have hr := hx _ rfl
      have hload : exec bar (.readTail r)=_ := answer_load bar (.toCard r) hr .tail
      rw [hload]
      exact ⟨h,congrArg (fun s : Registers => Answer.value s.tail) (h _ hr)⟩
  | readHead r =>
      have hr := hx _ rfl
      have hload : exec bar (.readHead r)=_ := answer_load bar (.toHost r) hr .head
      rw [hload]
      exact ⟨h,congrArg (fun s : Registers => Answer.value s.head) (h _ hr)⟩
  | writeTail r v => exact hstore (.toHost r) (hx _ rfl) .tail v rfl rfl
  | deviceTail r v => exact ⟨shown_store bar regs h _ (hx _ rfl) .tail v,rfl⟩
  | deviceHead r v => exact ⟨shown_store bar regs h _ (hx _ rfl) .head v,rfl⟩
  | custom c => exact ⟨shown_custom bar regs h c,rfl⟩

end Request

/-- Whatever threads and device do with the registers of the rings of a mode, and in whatever
order, the register space answers like one record of registers for each ring: a ring reads what
was last stored for itself, no access to one ring disturbs another, and none fails. -/
theorem rings_independent (mode : Mode) (bar : Bar) (xs : List Request)
    (h : ∀ x∈xs,∀ r,x.ring=some r → r∈builtRings mode) :
    (Run.serve Request.exec bar xs).2=(Run.serve Request.spec (registers bar) xs).2 ∧
    ∀ r∈builtRings mode,registers (Run.serve Request.exec bar xs).1 r=
      (Run.serve Request.spec (registers bar) xs).1 r := by
  obtain ⟨hshown,hanswers⟩ := Run.serve_related Request.exec Request.spec Shown
    (fun x => ∀ r,x.ring=some r → r.Mapped)
    (fun bar regs x hx hs => Request.exec_refines bar regs x hx hs) xs
    (fun x hx r hr => RingSpec.mapped_of_built mode r (h x hx r hr)) bar (registers bar)
    (fun r _ => rfl)
  exact ⟨hanswers,fun r hr => hshown r (RingSpec.mapped_of_built mode r hr)⟩

/-- A base address stored in two halves with accesses to two other rings between them. -/
theorem rings_independent_base_split :
    (Run.serve Request.exec (fun _ => 0)
      [.writeBaseLow (.toCard (.send 3)) 0x123456789000,.writeHead .cmdReq 7,
        .deviceHead (.metaReport 3) 5,.writeBaseHigh (.toCard (.send 3)) 0x123456789000,
        .readBaseAddr (.toCard (.send 3)),.readHead (.metaReport 3)]).2=
      [.done,.done,.done,.done,.address 0x123456789000,.value 5] := by
  rw [(rings_independent .mode400G (fun _ => 0) _ (by
    simp [Request.ring,builtRings,buildSendRings,buildMetaReportRings,Mode.channelIds])).1]
  decide +kernel

end BlueRdma.Csr

import BlueRdma.Framework.Run
import BlueRdma.Math.FirstFit

namespace BlueRdma

/-- The operations of a manager in state `σ`, where `κ` is what its choice of a handle leaves
open. The bits of the state tell which entries are in use; the first `reserved` ones are never
to be given out. A call without a result has panicked. -/
structure HandleManager (σ κ H : Type) where
  new : σ
  create : σ → κ → Option H × σ
  destroy : σ → H → Option (Bool × σ)
  size : Nat
  reserved : Nat
  bits : σ → BitVec size
  index : H → Nat

/-- A manager with the handles it has given out and not taken back. -/
structure Desk (σ H : Type) where
  state : σ
  live : List H := []

inductive HandleOp (κ H : Type)
  | create (key : κ)
  | destroy (h : H)

namespace HandleManager
variable {σ κ H : Type} (m : HandleManager σ κ H)

def desk : Desk σ H := ⟨m.new,[]⟩

/-- What a call has to do: a new handle is not live and not reserved, and is refused only when
every entry is taken; exactly the live handles can be destroyed, and only their own entry is
freed. -/
def Correct (s : Desk σ H) : HandleOp κ H → Prop
  | .create key => match (m.create s.state key).1 with
    | some h => h∉s.live ∧ m.reserved ≤ m.index h
    | none => ∀ i,m.reserved ≤ i → i < m.size → ∃ h∈s.live,m.index h=i
  | .destroy h =>
    (h∈s.live → ∃ state,m.destroy s.state h=some (true,state) ∧
      ∀ i,(m.bits state).getLsbD i=((m.bits s.state).getLsbD i && !decide (i=m.index h))) ∧
    (h∉s.live → m.destroy s.state h=some (false,s.state))

/-- The caller destroys nothing but handles that select an entry that can be given out, and that
entry is free or the handle's own. -/
def Honest (s : Desk σ H) : HandleOp κ H → Prop
  | .create _ => True
  | .destroy h => m.reserved ≤ m.index h ∧ m.index h < m.size ∧ ∀ g∈s.live,m.index g=m.index h → g=h

/-- The operations work on the bits alone: an entry is taken and a handle made for it, and the
entry of a handle is released. -/
structure OnBits (handle : Nat → κ → H) (ofBits : BitVec m.size → σ) : Prop where
  new : ∀ i < m.size,(m.bits m.new).getLsbD i=decide (i < m.reserved)
  bits_ofBits : ∀ b,m.bits (ofBits b)=b
  ofBits_bits : ∀ s,ofBits (m.bits s)=s
  create : ∀ s key,m.create s key=
    ((FirstFit.take (m.bits s)).1.map (fun i => handle i key),ofBits (FirstFit.take (m.bits s)).2)
  destroy : ∀ s h,m.destroy s h=
    (FirstFit.release (m.bits s) (m.index h)).map (fun r => (r.1,ofBits r.2))
  index : ∀ i < m.size,∀ key,m.index (handle i key)=i

/-- The bits in use are the reserved ones and those of the live handles, one for each. -/
structure Booked (s : Desk σ H) : Prop where
  used : ∀ i < m.size,(m.bits s.state).getLsbD i=true ↔
    i < m.reserved ∨ ∃ h∈s.live,m.index h=i
  range : ∀ h∈s.live,m.reserved ≤ m.index h ∧ m.index h < m.size
  distinct : ∀ g∈s.live,∀ h∈s.live,m.index g=m.index h → g=h

section
variable {handle : Nat → κ → H} {ofBits : BitVec m.size → σ} (hm : m.OnBits handle ofBits)
include hm

theorem desk_booked : m.Booked m.desk := by
  refine ⟨?_,by simp [desk],by simp [desk]⟩
  intro i hi
  rw [show m.desk.state=m.new from rfl,hm.new i hi,decide_eq_true_eq]
  simp [desk]

variable (s : Desk σ H) (h : m.Booked s)
include h

/-- A new handle is for an entry that was free. -/
theorem create_some (key : κ) (g : H) (hg : (m.create s.state key).1=some g) :
    m.reserved ≤ m.index g ∧ m.index g < m.size ∧ (∀ f∈s.live,m.index f≠m.index g) ∧
    ∀ i,(m.bits (m.create s.state key).2).getLsbD i=
      ((m.bits s.state).getLsbD i || decide (i=m.index g)) := by
  rw [hm.create] at hg ⊢
  obtain ⟨i,hi,rfl⟩ := Option.map_eq_some_iff.mp hg
  obtain ⟨hlt,hfree,hbits⟩ := FirstFit.take_some _ i hi
  have hindex := hm.index i hlt key
  have hunused : ¬(i < m.reserved ∨ ∃ f∈s.live,m.index f=i) := by
    rw [← h.used i hlt,hfree]
    exact Bool.false_ne_true
  rw [not_or] at hunused
  rw [hindex,hm.bits_ofBits]
  exact ⟨Nat.le_of_not_lt hunused.1,hlt,fun f hf heq => hunused.2 ⟨f,hf,heq⟩,hbits⟩

theorem create_none (key : κ) (hg : (m.create s.state key).1=none) :
    (m.create s.state key).2=s.state ∧
    ∀ i,m.reserved ≤ i → i < m.size → ∃ f∈s.live,m.index f=i := by
  rw [hm.create] at hg ⊢
  obtain ⟨hsame,hall⟩ := FirstFit.take_none _ (Option.map_eq_none_iff.mp hg)
  refine ⟨by rw [hsame]; exact hm.ofBits_bits _,?_⟩
  intro i hle hlt
  exact ((h.used i hlt).mp (hall i hlt)).resolve_left (by omega)

omit h in
theorem destroy_outside (g : H) (hg : m.size ≤ m.index g) : m.destroy s.state g=none := by
  rw [hm.destroy,FirstFit.release,if_neg (by omega)]
  rfl

omit h in
/-- The answer is the bit, whatever handle it was set for. -/
theorem destroy_inside (g : H) (hg : m.index g < m.size) : ∃ state,
    m.destroy s.state g=some ((m.bits s.state).getLsbD (m.index g),state) ∧
    (∀ i,(m.bits state).getLsbD i=((m.bits s.state).getLsbD i && !decide (i=m.index g))) ∧
    ((m.bits s.state).getLsbD (m.index g)=false → state=s.state) := by
  refine ⟨ofBits (FirstFit.clear (m.bits s.state) (m.index g) 1),?_,?_,?_⟩
  · rw [hm.destroy,FirstFit.release,if_pos hg]
    rfl
  · intro i
    rw [hm.bits_ofBits,FirstFit.getLsbD_release]
  · intro hfree
    refine Eq.trans (congrArg ofBits ?_) (hm.ofBits_bits _)
    apply BitVec.eq_of_getLsbD_eq
    intro i hi
    rw [FirstFit.getLsbD_release]
    by_cases hig : i=m.index g
    · rw [hig,hfree,Bool.false_and]
    · rw [decide_eq_false hig,Bool.not_false,Bool.and_true]

theorem create_correct (key : κ) : m.Correct s (.create key) := by
  rw [Correct]
  split
  next g hg =>
    obtain ⟨hres,-,hnew,-⟩ := m.create_some hm s h key g hg
    exact ⟨fun hmem => hnew g hmem rfl,hres⟩
  next hg => exact (m.create_none hm s h key hg).2

/-- The call is right exactly if the handle is live or its entry can be given out and is free. -/
theorem destroy_correct_iff (g : H) : m.Correct s (.destroy g) ↔ m.Honest s (.destroy g) := by
  simp only [Correct,Honest]
  by_cases hlive : g∈s.live
  · obtain ⟨hres,hlt⟩ := h.range g hlive
    obtain ⟨state,hd,hbits,-⟩ := m.destroy_inside hm s g hlt
    have hused := (h.used _ hlt).mpr (Or.inr ⟨g,hlive,rfl⟩)
    refine ⟨fun _ => ⟨hres,hlt,fun f hf heq => h.distinct f hf g hlive heq⟩,fun _ => ?_⟩
    exact ⟨fun _ => ⟨state,by rw [hd,hused],hbits⟩,fun hnot => absurd hlive hnot⟩
  · rcases Nat.lt_or_ge (m.index g) m.size with hlt|hge
    · obtain ⟨state,hd,-,hsame⟩ := m.destroy_inside hm s g hlt
      constructor
      · rintro ⟨-,hfalse⟩
        have hfree : (m.bits s.state).getLsbD (m.index g)=false :=
          congrArg Prod.fst (Option.some.inj (hd.symm.trans (hfalse hlive)))
        have hunused : ¬(m.index g < m.reserved ∨ ∃ f∈s.live,m.index f=m.index g) := by
          rw [← h.used _ hlt,hfree]
          exact Bool.false_ne_true
        rw [not_or] at hunused
        exact ⟨Nat.le_of_not_lt hunused.1,hlt,fun f hf heq => absurd ⟨f,hf,heq⟩ hunused.2⟩
      · rintro ⟨hres,-,hown⟩
        have hfree : (m.bits s.state).getLsbD (m.index g)=false := by
          rw [Bool.eq_false_iff,Ne,h.used _ hlt]
          rintro (hlow|⟨f,hf,heq⟩)
          · omega
          · exact hlive (hown f hf heq ▸ hf)
        exact ⟨fun hmem => absurd hmem hlive,fun _ => by rw [hd,hfree,hsame hfree]⟩
    · constructor
      · rintro ⟨-,hfalse⟩
        have := (m.destroy_outside hm s g hge).symm.trans (hfalse hlive)
        cases this
      · rintro ⟨-,hlt,-⟩
        omega

end

variable [DecidableEq H]

def step (s : Desk σ H) : HandleOp κ H → Desk σ H
  | .create key => ⟨(m.create s.state key).2,s.live++(m.create s.state key).1.toList⟩
  | .destroy h => match m.destroy s.state h with
    | none => s
    | some (ok,state) => ⟨state,if ok then s.live.filter (· ≠ h) else s.live⟩

section
variable {handle : Nat → κ → H} {ofBits : BitVec m.size → σ} (hm : m.OnBits handle ofBits)
  (s : Desk σ H) (h : m.Booked s)
include hm h

theorem create_booked (key : κ) : m.Booked (m.step s (.create key)) := by
  rcases hg : (m.create s.state key).1 with _|g
  · have hsame : m.step s (.create key)=s := by
      simp only [step,hg,(m.create_none hm s h key hg).1,Option.toList_none,List.append_nil]
    rw [hsame]
    exact h
  have hnext : m.step s (.create key)=⟨(m.create s.state key).2,s.live++[g]⟩ := by
    simp only [step,hg,Option.toList_some]
  obtain ⟨hres,hlt,hnew,hbits⟩ := m.create_some hm s h key g hg
  rw [hnext]
  refine ⟨?_,?_,?_⟩
  · intro i hi
    change (m.bits (m.create s.state key).2).getLsbD i=true ↔ _
    rw [hbits,Bool.or_eq_true,h.used i hi,decide_eq_true_eq,or_assoc,@eq_comm Nat i]
    simp only [List.mem_append,List.mem_singleton,or_and_right,exists_or,exists_eq_left]
  · intro f hf
    rcases List.mem_append.mp hf with hf|hf
    · exact h.range f hf
    · rw [List.mem_singleton.mp hf]
      exact ⟨hres,hlt⟩
  · intro f hf f' hf' heq
    rcases List.mem_append.mp hf with hf|hf <;> rcases List.mem_append.mp hf' with hf'|hf'
    · exact h.distinct f hf f' hf' heq
    · rw [List.mem_singleton.mp hf'] at heq
      exact absurd heq (hnew f hf)
    · rw [List.mem_singleton.mp hf] at heq
      exact absurd heq.symm (hnew f' hf')
    · rw [List.mem_singleton.mp hf,List.mem_singleton.mp hf']

theorem destroy_booked (g : H) (hg : m.Honest s (.destroy g)) :
    m.Booked (m.step s (.destroy g)) := by
  obtain ⟨hres,hlt,hown⟩ := hg
  obtain ⟨state,hd,hbits,hsame⟩ := m.destroy_inside hm s g hlt
  rcases hb : (m.bits s.state).getLsbD (m.index g) with _|_
  · have hstep : m.step s (.destroy g)=s := by
      simp only [step,hd,hb,hsame hb,Bool.false_eq_true,if_false]
    rw [hstep]
    exact h
  have hstep : m.step s (.destroy g)=⟨state,s.live.filter (· ≠ g)⟩ := by
    simp only [step,hd,hb,if_true]
  have hmem (f : H) : f∈s.live.filter (· ≠ g) ↔ f∈s.live ∧ f≠g := by
    rw [List.mem_filter,decide_eq_true_eq]
  rw [hstep]
  refine ⟨?_,?_,?_⟩
  · intro i hi
    change (m.bits state).getLsbD i=true ↔ _
    rw [hbits,Bool.and_eq_true,h.used i hi,Bool.not_eq_true',decide_eq_false_iff_not]
    constructor
    · rintro ⟨hlow|⟨f,hf,rfl⟩,hne⟩
      · exact Or.inl hlow
      · exact Or.inr ⟨f,(hmem f).mpr ⟨hf,fun heq => hne (heq ▸ rfl)⟩,rfl⟩
    · rintro (hlow|⟨f,hf,rfl⟩)
      · exact ⟨Or.inl hlow,by omega⟩
      · obtain ⟨hf,hne⟩ := (hmem f).mp hf
        exact ⟨Or.inr ⟨f,hf,rfl⟩,fun heq => hne (hown f hf heq)⟩
  · intro f hf
    exact h.range f ((hmem f).mp hf).1
  · intro f hf f' hf' heq
    exact h.distinct f ((hmem f).mp hf).1 f' ((hmem f').mp hf').1 heq

omit s h in
/-- Over any run of calls: all of them are right exactly if the caller is honest. -/
theorem correct_iff_honest (ops : List (HandleOp κ H)) :
    Run.Along m.step m.Correct m.desk ops ↔ Run.Along m.step m.Honest m.desk ops := by
  refine Run.along_iff_of_inv m.step m.Correct m.Honest m.Booked ?_ ?_ m.desk ops
    (m.desk_booked hm)
  · intro s op h
    cases op with
    | create key => exact ⟨fun _ => trivial,fun _ => m.create_correct hm s h key⟩
    | destroy g => exact m.destroy_correct_iff hm s h g
  · intro s op hop h
    cases op with
    | create key => exact m.create_booked hm s h key
    | destroy g => exact m.destroy_booked hm s h g hop

end
end HandleManager
end BlueRdma

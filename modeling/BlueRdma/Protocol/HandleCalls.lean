import BlueRdma.Verbs.Handles

namespace BlueRdma

/-- A manager whose handles are indices: whether a caller is honest shows in the handles alone. -/
theorem HandleManager.honest_index {σ κ : Type} (m : HandleManager σ κ UInt32)
    (hindex : m.index=UInt32.toNat) (ops : List (HandleOp κ UInt32)) :
    Run.Along m.step m.Honest m.desk ops ↔
      ∀ handle,HandleOp.destroy handle∈ops → m.reserved≤handle.toNat ∧ handle.toNat < m.size := by
  rw [Run.along_iff_forall m.step m.Honest (fun op => ∀ handle,op=.destroy handle →
    m.reserved≤handle.toNat ∧ handle.toNat < m.size)]
  · constructor
    · intro h handle hmem
      exact h _ hmem handle rfl
    · rintro h op hmem handle rfl
      exact h handle hmem
  · intro s op
    cases op with
    | create key => simp [Honest]
    | destroy handle =>
        simp only [Honest,hindex,HandleOp.destroy.injEq,forall_eq']
        refine and_congr_right fun _ => and_iff_left ?_
        intro g _ heq
        exact UInt32.toNat_inj.mp heq

/-- Over any run of calls with any handles, all calls of a manager are right exactly if the caller
destroys nothing but handles inside the bitmap, never the reserved index 0, and no QP number whose
index is in use under another key. -/
theorem handle_managers_iff (qpOps : List (HandleOp UInt8 UInt32))
    (pdOps cqOps : List (HandleOp Unit UInt32)) :
    (Run.Along qpHandles.step qpHandles.Correct qpHandles.desk qpOps ↔
      Run.Along qpHandles.step qpHandles.Honest qpHandles.desk qpOps) ∧
    (Run.Along pdHandles.step pdHandles.Correct pdHandles.desk pdOps ↔
      ∀ handle,HandleOp.destroy handle∈pdOps → 1≤handle.toNat ∧ handle.toNat < maxPdCnt) ∧
    (Run.Along cqHandles.step cqHandles.Correct cqHandles.desk cqOps ↔
      ∀ handle,HandleOp.destroy handle∈cqOps → handle.toNat < maxCqCnt) := by
  have hpd := pdHandles.correct_iff_honest pdHandles_onBits pdOps
  have hcq := cqHandles.correct_iff_honest cqHandles_onBits cqOps
  have hbound := cqHandles.honest_index rfl cqOps
  simp only [show cqHandles.reserved=0 from rfl,Nat.zero_le,true_and] at hbound
  exact ⟨qpHandles.correct_iff_honest qpHandles_onBits qpOps,
    hpd.trans (pdHandles.honest_index rfl pdOps),hcq.trans hbound⟩

/-- A QP that was created with key 7. -/
def oneQp : Desk QpManager UInt32 := Run.run qpHandles.step qpHandles.desk [.create 7]

/-- Destroying the QP's index with another key takes the QP away; the reserved index of the
protection domains can be destroyed and is given out next; a handle outside the bitmap panics. -/
theorem foreign_key_destroys_qp :
    oneQp.live=[0x107] ∧ (oneQp.state.destroyQp 0x100).map Prod.fst=some true ∧
    ¬Run.Along qpHandles.step qpHandles.Correct qpHandles.desk [.create 7,.destroy 0x100] ∧
    (PdTable.new.dealloc 0).map (fun r => (r.1,r.2.alloc.1))=some (true,some 0) ∧
    CqManager.new.destroyCq 1024=none := by
  refine ⟨by decide +kernel,by decide +kernel,?_,by decide +kernel,by decide +kernel⟩
  rintro ⟨-,⟨-,hfalse⟩,-⟩
  have hresult : (oneQp.state.destroyQp 0x100).map Prod.fst=some false :=
    congrArg (Option.map Prod.fst) (hfalse (by decide +kernel))
  exact absurd hresult (by decide +kernel)

end BlueRdma

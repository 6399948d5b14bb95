import Mathlib.Algebra.BigOperators.Group.Finset.Piecewise
import Mathlib.Tactic.Abel

namespace BlueRdma.Ledger
variable {ι α M : Type} [Fintype ι] [DecidableEq ι] [AddCommMonoid M]

theorem sum_update (f : ι → M) (i : ι) (x : M) :
    ∑ j,Function.update f i x j+f i=∑ j,f j+x := by
  rw [Finset.sum_update_of_mem (Finset.mem_univ i),Finset.sdiff_singleton_eq_erase,
    ← Finset.add_sum_erase _ f (Finset.mem_univ i)]
  abel

/-- The same for what the entries of a table hold. -/
theorem sum_update_entry (g : α → M) (t : ι → α) (i : ι) (a : α) :
    ∑ j,g (Function.update t i a j)+g (t i)=∑ j,g (t j)+g a := by
  have h := sum_update (fun j => g (t j)) i (g a)
  simpa only [Function.apply_update (fun _ => g)] using h

end BlueRdma.Ledger

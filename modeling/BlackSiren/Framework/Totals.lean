import Mathlib.Algebra.BigOperators.Group.Finset.Piecewise
import Mathlib.Algebra.Order.BigOperators.Group.Finset

/-! # Totals over threads and cells

    A step of one thread changes one term of a sum over all of them.
-/

namespace Totals

variable {ι C M : Type*} [DecidableEq ι] [AddCommMonoid M]

/-- Changing one term. -/
theorem sum_update {s : Finset ι} {p : ι} (hp : p ∈ s) (f : C → M) (g : ι → C) (c : C) :
    (∑ q ∈ s, f (Function.update g p c q)) + f (g p) = (∑ q ∈ s, f (g q)) + f c := by
  have hcomp : ∀ q, f (Function.update g p c q) = Function.update (f ∘ g) p (f c) q := by
    intro q
    rw [← Function.comp_update]
    rfl
  rw [Finset.sum_congr rfl fun q _ => hcomp q, Finset.sum_update_of_mem hp,
    ← Finset.sum_sdiff (Finset.singleton_subset_iff.mpr hp), Finset.sum_singleton]
  simp only [Function.comp_apply]
  rw [add_comm (f c), add_assoc, add_assoc, add_comm (f c)]

end Totals

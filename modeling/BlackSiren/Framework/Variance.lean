import Mathlib.Algebra.Order.BigOperators.Group.List
import Mathlib.Algebra.Order.Field.Basic
import Mathlib.Tactic.FieldSimp
import Mathlib.Tactic.Ring

/-! # Mean and variance of a list

    - `mean`, `meanSq`, `variance`: by the sum and the sum of the squares
    - `sum_sq_sub`: the squared distances from any value
    - `variance_nonneg`
-/

namespace Statistics

variable {K : Type*} [Field K]

/-- The mean; zero for no samples. -/
def mean (l : List K) : K := l.sum / l.length

/-- The mean of the squares. -/
def meanSq (l : List K) : K := (l.map fun x => x * x).sum / l.length

/-- The variance, from the two sums. -/
def variance (l : List K) : K := meanSq l - mean l * mean l

theorem mul_mean [CharZero K] {l : List K} (h : l ≠ []) : (l.length : K) * mean l = l.sum := by
  have hlen : (l.length : K) ≠ 0 := Nat.cast_ne_zero.mpr (List.length_pos_iff.mpr h).ne'
  unfold mean
  field_simp

/-- The squared distances from `m`, from the two sums. -/
theorem sum_sq_sub (l : List K) (m : K) :
    (l.map fun x => (x - m) * (x - m)).sum =
      (l.map fun x => x * x).sum - 2 * m * l.sum + l.length * (m * m) := by
  induction l with
  | nil => simp
  | cons x l ih =>
    simp only [List.map_cons, List.sum_cons, List.length_cons, ih, Nat.cast_add, Nat.cast_one]
    ring

/-- The variance is the mean of the squared distances from the mean. -/
theorem length_mul_variance [CharZero K] {l : List K} (h : l ≠ []) :
    (l.length : K) * variance l = (l.map fun x => (x - mean l) * (x - mean l)).sum := by
  have hlen : (l.length : K) ≠ 0 := Nat.cast_ne_zero.mpr (List.length_pos_iff.mpr h).ne'
  have hsq : (l.length : K) * meanSq l = (l.map fun x => x * x).sum := by
    unfold meanSq
    field_simp
  unfold variance
  rw [sum_sq_sub, mul_sub, hsq, ← mul_mean h]
  ring

variable [LinearOrder K] [IsStrictOrderedRing K]

theorem sum_sq_nonneg (l : List K) (f : K → K) : 0 ≤ (l.map fun x => f x * f x).sum := by
  apply List.sum_nonneg
  intro y hy
  obtain ⟨x, _, rfl⟩ := List.mem_map.mp hy
  exact mul_self_nonneg _

theorem variance_nonneg (l : List K) : 0 ≤ variance l := by
  by_cases h : l = []
  · subst h
    simp [variance, mean, meanSq]
  · have hlen : (0 : K) < l.length := Nat.cast_pos.mpr (List.length_pos_iff.mpr h)
    have hprod : 0 ≤ (l.length : K) * variance l := by
      rw [length_mul_variance h]
      exact sum_sq_nonneg l (· - mean l)
    exact nonneg_of_mul_nonneg_right hprod hlen

end Statistics

import Mathlib.Algebra.Ring.Int.Defs
import Mathlib.Algebra.Ring.Nat
import Mathlib.Data.Int.Order.Basic

/-! # C's 32-bit `int`

    Arithmetic that stops where C leaves the result undefined:

    - `Fits`: the range of an `int`
    - `mul` and `div`, which truncates, and when they return
    - `exists_div_pos_iff`, `mul_tdiv_pos_iff` and `dvd_tdiv_iff`: the range, the
      sign and the divisors of a truncated quotient, without the quotient
-/

namespace CInt

/-- What leaves the result undefined. -/
inductive Trap where
  | divByZero
  | overflow
  deriving DecidableEq, Repr

/-- The range of an `int`. -/
def Fits (v : Int) : Prop := -2 ^ 31 ≤ v ∧ v < 2 ^ 31

instance (v : Int) : Decidable (Fits v) := inferInstanceAs (Decidable (_ ∧ _))

/-- A result, if it is in range. -/
def checked (v : Int) : Except Trap Int := if Fits v then .ok v else .error .overflow

def mul (a b : Int) : Except Trap Int := checked (a * b)

def div (a b : Int) : Except Trap Int :=
  if b = 0 then .error .divByZero else checked (a.tdiv b)

theorem checked_eq_ok_iff {v r : Int} : checked v = .ok r ↔ Fits v ∧ r = v := by
  unfold checked
  by_cases h : Fits v
  · rw [if_pos h]
    constructor
    · intro hr
      exact ⟨h, (Except.ok.inj hr).symm⟩
    · rintro ⟨_, hr⟩
      rw [hr]
  · rw [if_neg h]
    constructor
    · intro hr
      cases hr
    · rintro ⟨hf, _⟩
      exact absurd hf h

theorem mul_eq_ok_iff {a b r : Int} : mul a b = .ok r ↔ Fits (a * b) ∧ r = a * b :=
  checked_eq_ok_iff

theorem div_eq_ok_iff {a b r : Int} :
    div a b = .ok r ↔ b ≠ 0 ∧ Fits (a.tdiv b) ∧ r = a.tdiv b := by
  unfold div
  by_cases hb : b = 0
  · rw [if_pos hb]
    constructor
    · intro h
      cases h
    · rintro ⟨h, _⟩
      exact absurd hb h
  · rw [if_neg hb, checked_eq_ok_iff]
    exact ⟨fun h => ⟨hb, h⟩, fun h => h.2⟩

/-! ### Truncated quotients -/

/-- A truncated quotient is positive if the signs agree and the divisor is not
    the larger one. -/
theorem tdiv_pos_iff {a b : Int} (hb : b ≠ 0) :
    0 < a.tdiv b ↔ 0 < a * b ∧ b.natAbs ≤ a.natAbs := by
  have hbpos : 0 < b.natAbs := Int.natAbs_pos.mpr hb
  constructor
  · intro h
    have habs : 0 < a.natAbs / b.natAbs := by
      have hq := Int.natAbs_tdiv a b
      change _ = a.natAbs / b.natAbs at hq
      omega
    refine ⟨?_, (Nat.div_pos_iff.mp habs).2⟩
    -- with different signs the quotient would not be positive
    rcases Int.lt_or_gt_of_ne hb with hneg | hpos
    · have ha : a < 0 := by
        by_contra hle
        have hq := Int.tdiv_nonpos_of_nonneg_of_nonpos (Int.not_lt.mp hle) (Int.le_of_lt hneg)
        omega
      exact Int.mul_pos_of_neg_of_neg ha hneg
    · have ha : 0 < a := by
        by_contra hle
        have hneg := Int.neg_tdiv (a := a) (b := b)
        have hq := Int.tdiv_nonneg (Int.neg_nonneg_of_nonpos (Int.not_lt.mp hle))
          (Int.le_of_lt hpos)
        omega
      exact Int.mul_pos ha hpos
  · rintro ⟨hsign, hle⟩
    have hq : 0 < (a.tdiv b).natAbs := by
      rw [Int.natAbs_tdiv]
      exact Nat.div_pos hle hbpos
    have hnonneg : 0 ≤ a.tdiv b := by
      rcases Int.lt_or_gt_of_ne hb with hneg | hpos
      · have ha : a < 0 := by
          by_contra h
          have hprod := Int.mul_nonpos_of_nonneg_of_nonpos (Int.not_lt.mp h) (Int.le_of_lt hneg)
          omega
        exact Int.tdiv_nonneg_of_nonpos_of_nonpos (Int.le_of_lt ha) (Int.le_of_lt hneg)
      · have ha : 0 < a := by
          by_contra h
          have hprod := Int.mul_nonpos_of_nonpos_of_nonneg (Int.not_lt.mp h) (Int.le_of_lt hpos)
          omega
        exact Int.tdiv_nonneg (Int.le_of_lt ha) (Int.le_of_lt hpos)
    omega

/-- The division returns something positive. -/
theorem exists_div_pos_iff {a b : Int} : (∃ n, div a b = .ok n ∧ 0 < n) ↔
    0 < a * b ∧ b.natAbs ≤ a.natAbs ∧ a.natAbs < b.natAbs * 2 ^ 31 := by
  have habs : (a.tdiv b).natAbs = a.natAbs / b.natAbs := Int.natAbs_tdiv a b
  constructor
  · rintro ⟨n, hn, hpos⟩
    obtain ⟨hb, hfits, rfl⟩ := div_eq_ok_iff.mp hn
    obtain ⟨hsign, hle⟩ := (tdiv_pos_iff hb).mp hpos
    refine ⟨hsign, hle, ?_⟩
    -- the quotient is positive, so its upper bound is all that can fail
    have hlt : a.natAbs / b.natAbs < 2 ^ 31 := by
      have hhigh := hfits.2
      omega
    rw [Nat.mul_comm]
    exact (Nat.div_lt_iff_lt_mul (Int.natAbs_pos.mpr hb)).mp hlt
  · rintro ⟨hsign, hle, hlt⟩
    -- a divisor of zero has no sign
    have hb : b ≠ 0 := by
      intro hb
      rw [hb, Int.mul_zero] at hsign
      exact absurd hsign (Int.lt_irrefl 0)
    have hpos := (tdiv_pos_iff hb).mpr ⟨hsign, hle⟩
    have hquot : a.natAbs / b.natAbs < 2 ^ 31 :=
      (Nat.div_lt_iff_lt_mul (Int.natAbs_pos.mpr hb)).mpr (by rw [Nat.mul_comm]; exact hlt)
    refine ⟨a.tdiv b, div_eq_ok_iff.mpr ⟨hb, ⟨?_, ?_⟩, rfl⟩, hpos⟩
    · omega
    · omega

/-- A quotient that is not zero has the sign of its divisor, under a positive
    dividend. -/
theorem mul_tdiv_pos_iff {a b c : Int} (hb : 0 < b) (hc : c ≠ 0) (hle : c.natAbs ≤ b.natAbs) :
    0 < a * b.tdiv c ↔ 0 < a * c := by
  rcases Int.lt_or_gt_of_ne hc with hneg | hpos
  · have hq : b.tdiv c < 0 := by
      have h := (tdiv_pos_iff (a := b) (b := -c) (by omega)).mpr
        ⟨Int.mul_pos hb (by omega), by omega⟩
      rw [Int.tdiv_neg] at h
      omega
    rw [Int.mul_pos_iff, Int.mul_pos_iff]
    omega
  · have hq : 0 < b.tdiv c := (tdiv_pos_iff hc).mpr ⟨Int.mul_pos hb hpos, hle⟩
    rw [Int.mul_pos_iff, Int.mul_pos_iff]
    omega

/-- The divisors of a quotient. -/
theorem dvd_tdiv_iff {a b q : Int} (hb : b ≠ 0) :
    q ∣ a.tdiv b ↔ a.natAbs % (b.natAbs * q.natAbs) < b.natAbs := by
  have habs : (a.tdiv b).natAbs = a.natAbs / b.natAbs := Int.natAbs_tdiv a b
  rw [← Int.natAbs_dvd_natAbs, habs, Nat.dvd_iff_mod_eq_zero, ← Nat.mod_mul_right_div_self,
    Nat.div_eq_zero_iff_lt (Int.natAbs_pos.mpr hb)]

end CInt

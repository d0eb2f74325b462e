import Mathlib.Algebra.Group.Nat.Defs
import Mathlib.Order.Bounds.Basic
import Mathlib.Tactic.Common

/-! # Powers of two in machine words

    - `neg_and_self_iff`: the test that keeps the lowest set bit
    - `Covers`: the least power of two that is not below a number
-/

namespace PowersOfTwo

/-- Keeping the lowest set bit keeps everything exactly in a power of two. -/
theorem neg_and_self_iff {w : Nat} {x : BitVec w} (hx : x ≠ 0#w) :
    -x &&& x = x ↔ ∃ k, x.toNat = 2 ^ k := by
  have hpos : x.toNat ≠ 0 := fun h => hx (BitVec.eq_of_toNat_eq h)
  constructor
  · intro h
    -- the highest set bit is kept, so there is no bit below it
    have htop : x.getLsbD x.toNat.log2 = true := by
      rw [← BitVec.testBit_toNat]
      exact Nat.testBit_log2 hpos
    have hkept : (-x &&& x).getLsbD x.toNat.log2 = true := by
      rw [h]
      exact htop
    rw [BitVec.getLsbD_and, htop, Bool.and_true, BitVec.getLsbD_neg, htop] at hkept
    have hbelow : ∀ j < x.toNat.log2, x.getLsbD j = false := by
      intro j hj
      by_contra hset
      rw [Bool.not_eq_false] at hset
      have hw : x.toNat.log2 < w := BitVec.lt_of_getLsbD htop
      rw [decide_eq_true hw, decide_eq_true ⟨j, hj, hset⟩] at hkept
      cases hkept
    refine ⟨x.toNat.log2, Nat.eq_of_testBit_eq fun j => ?_⟩
    rw [Nat.testBit_two_pow]
    rcases Nat.lt_trichotomy j x.toNat.log2 with hlt | heq | hgt
    · rw [BitVec.testBit_toNat, hbelow j hlt, decide_eq_false (by omega)]
    · rw [heq, Nat.testBit_log2 hpos, decide_eq_true rfl]
    · rw [decide_eq_false (by omega)]
      exact Nat.testBit_lt_two_pow (Nat.lt_of_lt_of_le Nat.lt_log2_self
        (Nat.pow_le_pow_right (by decide) hgt))
  · rintro ⟨k, hk⟩
    have hbit : ∀ j, x.getLsbD j = decide (k = j) := by
      intro j
      rw [← BitVec.testBit_toNat, hk, Nat.testBit_two_pow]
    apply BitVec.eq_of_getLsbD_eq
    intro j hj
    rw [BitVec.getLsbD_and, BitVec.getLsbD_neg, hbit j, decide_eq_true hj]
    by_cases hkj : k = j
    · have hnone : ¬ ∃ i < j, x.getLsbD i = true := by
        rintro ⟨i, hi, hset⟩
        rw [hbit i] at hset
        have := of_decide_eq_true hset
        omega
      rw [decide_eq_false hnone, decide_eq_true hkj]
      rfl
    · rw [decide_eq_false hkj, Bool.and_false]

/-- `p` is the least power of two that is at least `n`. -/
def Covers (n p : Nat) : Prop := IsLeast {p | (∃ k, p = 2 ^ k) ∧ n ≤ p} p

/-- A power of two covers itself. -/
theorem covers_self (k : Nat) : Covers (2 ^ k) (2 ^ k) := by
  refine ⟨⟨⟨k, rfl⟩, le_refl _⟩, ?_⟩
  rintro q ⟨-, hq⟩
  exact hq

/-- Between two powers the upper one covers. -/
theorem covers_succ {n k : Nat} (hlo : 2 ^ k < n) (hhi : n ≤ 2 ^ (k + 1)) :
    Covers n (2 ^ (k + 1)) := by
  refine ⟨⟨⟨k + 1, rfl⟩, hhi⟩, ?_⟩
  rintro q ⟨⟨j, rfl⟩, hq⟩
  have hkj : k < j := (Nat.pow_lt_pow_iff_right (by decide)).mp (Nat.lt_of_lt_of_le hlo hq)
  exact Nat.pow_le_pow_right (by decide) hkj

end PowersOfTwo

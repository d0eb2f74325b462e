import BlackSiren.Framework.PowersOfTwo
import BlackSiren.LFQueue.Queue

/-! # `LFQueue`: the constructor

    The constructor rounds the length it is given up to a power of two.  It counts
    the bits of the length by shifting it to the right as an `int`, and an `int`
    below zero is never shifted to zero.

    - `LFQueue.construct`: what the constructor does about `len`
    - `construct_of_le`, `construct_of_gt`: the two halves of the range
    - `masked_iff`: when `pos_mask_` is what the other operations rely on

    The storage of the items is left out.
-/

namespace BlackSiren

namespace LFQueue

/-! ### The rounding -/

/-- `for (int i = len; i != 0; i >>= 1) position++`; the fuel bounds its turns. -/
def countBits : Nat → BitVec 32 → BitVec 32 → Option (BitVec 32)
  | 0, _, _ => none
  | fuel + 1, i, position =>
      if i ≠ 0 then countBits fuel (i.sshiftRight 1) (position + 1) else some position

/-- The length of the array. -/
def roundedLen (fuel : Nat) (len : BitVec 32) : Option (BitVec 32) :=
  if (~~~len + 1) &&& len ≠ len then
    (countBits fuel len 0).map fun position => 1#32 <<< position
  else some len

/-- The constructor: the value of `pos_mask_`. The first check is `SIREN_ASSERT`. -/
def construct (fuel : Nat) (len : BitVec 32) : Option Nat :=
  if len ≠ 0 then (roundedLen fuel len).map fun len => (len - 1).toNat else none

/-- The constructor returns; `pos_mask_ + 1` is the least power of two that is not
    below `len`, and masking the `n`-th number drawn, from a counter of `w` bits,
    is reducing it modulo this power. An `unsigned long` has 32 bits or more. -/
def Masked (len : BitVec 32) : Prop :=
  ∃ fuel pos_mask_, construct fuel len = some pos_mask_ ∧
    PowersOfTwo.Covers len.toNat (pos_mask_ + 1) ∧
      ∀ w ≥ 32, ∀ n : Nat, n % 2 ^ w &&& pos_mask_ = n % (pos_mask_ + 1)

/-! ### The loop -/

/-- A value that is not negative is halved until it is zero. -/
theorem countBits_of_msb_false {i : BitVec 32} (h : i.msb = false) (hi : i ≠ 0)
    (position : BitVec 32) :
    countBits (i.toNat.log2 + 2) i position =
      some (position + BitVec.ofNat 32 (i.toNat.log2 + 1)) := by
  -- on the number of bits
  obtain ⟨n, hn⟩ : ∃ n, i.toNat.log2 = n := ⟨_, rfl⟩
  rw [hn]
  induction n generalizing i position with
  | zero =>
    have hone : i.toNat = 1 := by
      have hpos : i.toNat ≠ 0 := fun hzero => hi (BitVec.eq_of_toNat_eq hzero)
      have := (Nat.log2_eq_iff hpos).mp hn
      omega
    have hshift : i.sshiftRight 1 = 0 := by
      apply BitVec.eq_of_toNat_eq
      rw [BitVec.toNat_sshiftRight_of_msb_false h, hone]
      rfl
    simp only [countBits, hi, hshift, ne_eq, not_true_eq_false, not_false_eq_true, if_true,
      if_false]
    rfl
  | succ n ih =>
    have hpos : i.toNat ≠ 0 := fun hzero => hi (BitVec.eq_of_toNat_eq hzero)
    have hrange := (Nat.log2_eq_iff hpos).mp hn
    have hhalf : (i.sshiftRight 1).toNat = i.toNat / 2 := by
      rw [BitVec.toNat_sshiftRight_of_msb_false h, Nat.shiftRight_one]
    have hhalf_pos : i.toNat / 2 ≠ 0 := by
      have := Nat.two_pow_pos n
      omega
    have hhalf_ne : i.sshiftRight 1 ≠ 0 := by
      intro hzero
      rw [hzero] at hhalf
      exact hhalf_pos hhalf.symm
    have hlog : (i.sshiftRight 1).toNat.log2 = n := by
      rw [hhalf, Nat.log2_eq_iff hhalf_pos]
      omega
    have hmsb : (i.sshiftRight 1).msb = false := by
      rw [BitVec.msb_sshiftRight, h]
    have hsum : (1 : BitVec 32) + BitVec.ofNat 32 (n + 1) = BitVec.ofNat 32 (n + 1 + 1) := by
      rw [Nat.add_comm (n + 1) 1, BitVec.ofNat_add 1 (n + 1)]
      rfl
    rw [countBits, if_pos hi, ih hmsb hhalf_ne _ hlog, BitVec.add_assoc, hsum]

/-- A negative value stays negative. -/
theorem countBits_of_msb {i : BitVec 32} (h : i.msb = true) (fuel : Nat) (position : BitVec 32) :
    countBits fuel i position = none := by
  induction fuel generalizing i position with
  | zero => rfl
  | succ fuel ih =>
    have hi : i ≠ 0 := by
      intro hzero
      rw [hzero] at h
      cases h
    rw [countBits, if_pos hi]
    exact ih (by rw [BitVec.msb_sshiftRight, h]) _

/-! ### The two halves of the range -/

/-- The test for a power of two. -/
theorem keeps_iff {len : BitVec 32} (hlen : len ≠ 0) :
    (~~~len + 1) &&& len = len ↔ ∃ k, len.toNat = 2 ^ k := by
  rw [← PowersOfTwo.neg_and_self_iff hlen, BitVec.neg_eq_not_add]
  rfl

/-- Up to `2 ^ 31` the array is rounded up to the next power of two. -/
theorem construct_of_le {len : BitVec 32} (hlen : len ≠ 0) (hle : len.toNat ≤ 2147483648) :
    ∃ fuel k, k ≤ 31 ∧ construct fuel len = some (2 ^ k - 1) ∧
      PowersOfTwo.Covers len.toNat (2 ^ k) := by
  have hpos : len.toNat ≠ 0 := fun hzero => hlen (BitVec.eq_of_toNat_eq hzero)
  by_cases hpow : ∃ k, len.toNat = 2 ^ k
  · obtain ⟨k, hk⟩ := hpow
    have hk31 : k ≤ 31 := by
      rw [hk] at hle
      exact (Nat.pow_le_pow_iff_right (by decide)).mp (show 2 ^ k ≤ 2 ^ 31 from hle)
    refine ⟨0, k, hk31, ?_, hk ▸ PowersOfTwo.covers_self k⟩
    have hrounded : roundedLen 0 len = some len := by
      unfold roundedLen
      rw [if_neg (not_not.mpr ((keeps_iff hlen).mpr ⟨k, hk⟩))]
    rw [construct, if_pos hlen, hrounded, Option.map_some, ← hk, BitVec.toNat_sub_of_le]
    · rfl
    · rw [BitVec.le_def]
      show 1 ≤ len.toNat
      omega
  · have hlt : len.toNat < 2 ^ 31 := by
      by_contra hnot
      exact hpow ⟨31, by omega⟩
    have hmsb : len.msb = false := by
      rw [BitVec.msb_eq_decide, decide_eq_false (by omega)]
    have hrange := (Nat.log2_eq_iff hpos).mp rfl
    have hbits : len.toNat.log2 + 1 ≤ 31 :=
      (Nat.log2_lt hpos).mpr hlt
    have hstrict : 2 ^ len.toNat.log2 < len.toNat := by
      apply lt_of_le_of_ne hrange.1
      intro heq
      exact hpow ⟨_, heq.symm⟩
    refine ⟨len.toNat.log2 + 2, len.toNat.log2 + 1, hbits, ?_,
      PowersOfTwo.covers_succ hstrict (le_of_lt hrange.2)⟩
    have hcount : countBits (len.toNat.log2 + 2) len 0 =
        some (BitVec.ofNat 32 (len.toNat.log2 + 1)) :=
      (countBits_of_msb_false hmsb hlen 0).trans (congrArg some (BitVec.zero_add _))
    have hrounded : roundedLen (len.toNat.log2 + 2) len =
        some (1#32 <<< BitVec.ofNat 32 (len.toNat.log2 + 1)) := by
      unfold roundedLen
      rw [if_pos fun heq => hpow ((keeps_iff hlen).mp heq), hcount]
      rfl
    have hshift : (1#32 <<< BitVec.ofNat 32 (len.toNat.log2 + 1)).toNat =
        2 ^ (len.toNat.log2 + 1) := by
      have hp : 2 ^ (len.toNat.log2 + 1) ≤ 2 ^ 31 := Nat.pow_le_pow_right (by decide) hbits
      have hposition : (BitVec.ofNat 32 (len.toNat.log2 + 1)).toNat = len.toNat.log2 + 1 := by
        rw [BitVec.toNat_ofNat]
        exact Nat.mod_eq_of_lt (by omega)
      rw [BitVec.shiftLeft_eq', hposition, BitVec.toNat_shiftLeft, BitVec.toNat_ofNat]
      show 1 <<< (len.toNat.log2 + 1) % 2 ^ 32 = _
      rw [Nat.one_shiftLeft]
      exact Nat.mod_eq_of_lt (by omega)
    rw [construct, if_pos hlen, hrounded, Option.map_some, BitVec.toNat_sub_of_le, hshift]
    · rfl
    · rw [BitVec.le_def, hshift]
      exact Nat.one_le_two_pow

/-- Above it the loop does not end. -/
theorem construct_of_gt {len : BitVec 32} (hgt : 2147483648 < len.toNat) (fuel : Nat) :
    construct fuel len = none := by
  have hlen : len ≠ 0 := by
    rintro rfl
    exact absurd hgt (by decide)
  have hmsb : len.msb = true := by
    rw [BitVec.msb_eq_decide, decide_eq_true]
    omega
  have hpow : ¬ ∃ k, len.toNat = 2 ^ k := by
    rintro ⟨k, hk⟩
    have hlt := len.isLt
    rw [hk] at hgt hlt
    have hlo : 31 < k := (Nat.pow_lt_pow_iff_right (by decide)).mp (show 2 ^ 31 < 2 ^ k from hgt)
    have hhi : k < 32 := (Nat.pow_lt_pow_iff_right (by decide)).mp hlt
    omega
  have hrounded : roundedLen fuel len = none := by
    unfold roundedLen
    rw [if_pos fun heq => hpow ((keeps_iff hlen).mp heq), countBits_of_msb hmsb]
    rfl
  rw [construct, if_pos hlen, hrounded]
  rfl

/-- A queue that has been constructed has a geometry of the other modules. -/
theorem construct_params {len : BitVec 32} (hlen : len ≠ 0) (hle : len.toNat ≤ 2147483648)
    {w : Nat} (hw : 32 ≤ w) :
    ∃ (P : LFParams) (fuel : Nat), P.w = w ∧ construct fuel len = some P.pos_mask_ ∧
      PowersOfTwo.Covers len.toNat P.capacity := by
  obtain ⟨fuel, k, hk, hconstruct, hcovers⟩ := construct_of_le hlen hle
  exact ⟨⟨k, w, by omega⟩, fuel, rfl, hconstruct, hcovers⟩

/-! ### The mask -/

/-- `pos_mask_` is what it is meant to be exactly up to a length of `2 ^ 31`. -/
theorem masked_iff (len : BitVec 32) (hlen : len ≠ 0) :
    Masked len ↔ len.toNat ≤ 2147483648 := by
  constructor
  · rintro ⟨fuel, pos_mask_, hconstruct, -⟩
    by_contra hgt
    rw [construct_of_gt (by omega)] at hconstruct
    cases hconstruct
  · intro hle
    obtain ⟨fuel, k, hk, hconstruct, hcovers⟩ := construct_of_le hlen hle
    have hmask : 2 ^ k - 1 + 1 = 2 ^ k := Nat.sub_add_cancel Nat.one_le_two_pow
    refine ⟨fuel, 2 ^ k - 1, hconstruct, hmask ▸ hcovers, fun w hw n => ?_⟩
    -- the wrap-around of the counter does not show
    have hslot := LFParams.slot_eq ⟨k, w, by omega⟩ n
    unfold LFParams.slot LFParams.pos_mask_ LFParams.capacity at hslot
    rw [hmask]
    exact hslot

/-- A queue of five. -/
theorem masked_five : Masked 5 ↔ (5 : BitVec 32).toNat ≤ 2147483648 :=
  masked_iff 5 (by decide)

/-- The constructor does not return for the next length. -/
theorem not_masked_above : ¬ ∀ len : BitVec 32, len ≠ 0 → Masked len := by
  intro hall
  obtain ⟨fuel, _, hconstruct, -⟩ := hall 2147483649 (by decide)
  rw [construct_of_gt (by decide)] at hconstruct
  cases hconstruct

end LFQueue

end BlackSiren

import Mathlib.Data.Nat.Digits.Defs

/-! # Little-endian integers

    Unsigned integers as sequences of bytes, least significant byte first:

    - `toLE` and `ofLE`, and the round trip
    - `int32`: the signed reading of four bytes
    - `readLE`: an integer inside a larger memory
    - `toLE32` and `ofLE32`: the same for signed integers
    - `low` and `toNat_or_shift`: an integer put together from its bytes with
      shifts
-/

namespace Bytes

/-- The `n` low bytes of `v`. -/
def toLE : Nat → Nat → List UInt8
  | 0, _ => []
  | n + 1, v => UInt8.ofNat v :: toLE n (v / 256)

/-- The integer a sequence of bytes stands for. -/
def ofLE (bs : List UInt8) : Nat :=
  Nat.ofDigits 256 (bs.map UInt8.toNat)

/-- The same bits as a signed 32-bit integer. -/
def int32 (n : Nat) : Int := (BitVec.ofNat 32 n).toInt

/-- The `n`-byte integer at offset `off`. -/
def readLE (mem : Nat → UInt8) (off n : Nat) : Nat :=
  ofLE ((List.range n).map fun k => mem (off + k))

@[simp] theorem ofLE_nil : ofLE [] = 0 := rfl

@[simp] theorem ofLE_cons (b : UInt8) (bs : List UInt8) :
    ofLE (b :: bs) = b.toNat + 256 * ofLE bs := by
  simp [ofLE, Nat.ofDigits_cons]

@[simp] theorem length_toLE (n v : Nat) : (toLE n v).length = n := by
  induction n generalizing v with
  | zero => rfl
  | succ n ih => simp [toLE, ih]

/-- Decoding the bytes of an integer that fits gives it back. -/
theorem ofLE_toLE {n v : Nat} (h : v < 256 ^ n) : ofLE (toLE n v) = v := by
  induction n generalizing v with
  | zero => simp at h; simp [toLE, h]
  | succ n ih =>
    have hdiv : v / 256 < 256 ^ n := by
      rw [pow_succ] at h
      exact Nat.div_lt_of_lt_mul (by omega)
    rw [toLE, ofLE_cons, ih hdiv]
    show (UInt8.ofNat v).toNat + 256 * (v / 256) = v
    rw [UInt8.toNat_ofNat']
    omega

/-- The four bytes of a signed integer. -/
def toLE32 (v : Int) : List UInt8 := toLE 4 (BitVec.ofInt 32 v).toNat

/-- The signed integer of four bytes. -/
def ofLE32 (bs : List UInt8) : Int := int32 (ofLE bs)

@[simp] theorem length_toLE32 (v : Int) : (toLE32 v).length = 4 := length_toLE 4 _

/-- Storing an `int` and loading it back gives the same `int`. -/
theorem ofLE32_toLE32 {v : Int} (hlo : -2 ^ 31 ≤ v) (hhi : v < 2 ^ 31) :
    ofLE32 (toLE32 v) = v := by
  unfold ofLE32 toLE32 int32
  rw [ofLE_toLE (BitVec.ofInt 32 v).isLt, BitVec.ofNat_toNat, BitVec.setWidth_eq]
  exact BitVec.toInt_ofInt_eq_self (by decide) hlo hhi

/-- What is loaded is an `int`. -/
theorem ofLE32_bounds (bs : List UInt8) : -2 ^ 31 ≤ ofLE32 bs ∧ ofLE32 bs < 2 ^ 31 :=
  ⟨BitVec.le_toInt _, BitVec.toInt_lt⟩

/-! ### Shifts -/

/-- `b & 0xff` in a 32-bit word. -/
def low (b : UInt8) : BitVec 32 := BitVec.ofNat 32 b.toNat &&& 0xff

theorem toNat_low (b : UInt8) : (low b).toNat = b.toNat := by
  have hb := b.toNat_lt
  have hmask : (0xff : BitVec 32).toNat = 2 ^ 8 - 1 := rfl
  unfold low
  rw [BitVec.toNat_and, hmask, Nat.and_two_pow_sub_one_eq_mod, BitVec.toNat_ofNat]
  omega

/-- A byte shifted to where the word so far is clear. -/
theorem toNat_or_shift {x : BitVec 32} {b s : Nat} (hx : x.toNat < 2 ^ s) (hb : b * 2 ^ s < 2 ^ 32)
    {y : BitVec 32} (hy : y.toNat = b) : (x ||| y <<< s).toNat = x.toNat + b * 2 ^ s := by
  rw [BitVec.toNat_or, BitVec.toNat_shiftLeft, hy, Nat.shiftLeft_eq, Nat.mod_eq_of_lt hb,
    Nat.or_comm, Nat.mul_comm, ← Nat.two_pow_add_eq_or_of_lt hx, Nat.add_comm]

end Bytes

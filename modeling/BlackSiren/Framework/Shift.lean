import Mathlib.Logic.Function.Iterate

/-! # Shifting rows in place

    A pass replaces the first `n` elements of a row by those `c` places further
    on, each through a function.  One pass moves them by `c`; a second one moves
    again what it reads from the part that has been moved.

    - `pass`
    - `iterate_of_ge`: nothing else changes
    - `iterate_of_le`: if no pass reads what another has moved, they are as one
    - `iterate_key`: how far the elements have come otherwise
-/

namespace Shift

variable {α κ : Type}

/-- Element `j + c` of the row goes to place `j`, for `j < n`. -/
def pass (f : α → α) (c n : Nat) (row : Nat → α) : Nat → α :=
  fun j => if j < n then f (row (j + c)) else row j

variable {f : α → α} {c n : Nat} {row : Nat → α}

theorem pass_of_lt {j : Nat} (hj : j < n) : pass f c n row j = f (row (j + c)) := if_pos hj

theorem iterate_of_ge (m : Nat) {j : Nat} (hj : n ≤ j) : (pass f c n)^[m] row j = row j := by
  induction m with
  | zero => rfl
  | succ m ih =>
    rw [Function.iterate_succ_apply', ← ih]
    exact if_neg (Nat.not_lt.mpr hj)

/-- The last pass. -/
theorem iterate_succ_of_lt (m : Nat) {j : Nat} (hj : j < n) :
    (pass f c n)^[m + 1] row j = f ((pass f c n)^[m] row (j + c)) := by
  rw [Function.iterate_succ_apply', pass_of_lt hj]

/-- Passes that read only what no pass moves. -/
theorem iterate_of_le (hn : n ≤ c) (m : Nat) {j : Nat} (hj : j < n) :
    (pass f c n)^[m + 1] row j = f (row (j + c)) := by
  rw [iterate_succ_of_lt m hj, iterate_of_ge m (by omega)]

/-- Passes over a row that is not moved leave a key that `f` keeps. -/
theorem key_iterate_zero {key : α → κ} (hf : ∀ a, key (f a) = key a) (m j : Nat) :
    key ((pass f 0 n)^[m] row j) = key (row j) := by
  induction m generalizing j with
  | zero => rfl
  | succ m ih =>
    by_cases hj : j < n
    · rw [iterate_succ_of_lt m hj, hf, ih, Nat.add_zero]
    · rw [iterate_of_ge (m + 1) (Nat.not_lt.mp hj)]

/-- If the keys number the places, an element that has been moved comes from at
    least `c` places further on. -/
theorem key_iterate_le {key : α → Option Nat} (hf : ∀ a, key (f a) = key a) {t : Nat}
    (hrow : ∀ j < n + c, key (row j) = some (t + j)) (m : Nat) {j : Nat} (hj : j < n) :
    ∃ p, key ((pass f c n)^[m + 1] row j) = some p ∧ t + j + c ≤ p := by
  induction m generalizing j with
  | zero =>
    rw [iterate_succ_of_lt 0 hj, hf]
    exact ⟨t + (j + c), hrow (j + c) (by omega), by omega⟩
  | succ m ih =>
    rw [iterate_succ_of_lt (m + 1) hj, hf]
    by_cases hjc : j + c < n
    · obtain ⟨p, hp, hle⟩ := ih hjc
      exact ⟨p, hp, by omega⟩
    · rw [iterate_of_ge (m + 1) (Nat.not_lt.mp hjc)]
      exact ⟨t + (j + c), hrow (j + c) (by omega), by omega⟩

/-- Two passes or more, of which the second reads what the first has moved, bring
    something else to the front. -/
theorem key_iterate_ne {key : α → Option Nat} (hf : ∀ a, key (f a) = key a) {t : Nat}
    (hrow : ∀ j < n + c, key (row j) = some (t + j)) (hc : 0 < c) (hn : c < n) (m : Nat) :
    key ((pass f c n)^[m + 2] row 0) ≠ some (t + c) := by
  obtain ⟨p, hp, hle⟩ := key_iterate_le hf hrow m hn
  rw [iterate_succ_of_lt (m + 1) (by omega), hf, Nat.zero_add, hp]
  intro h
  have heq := Option.some.inj h
  omega

end Shift

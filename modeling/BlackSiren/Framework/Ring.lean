import BlackSiren.Framework.Memory

/-! # The end of a stream in a ring

    An array of `m` places that is written round and round keeps the last
    elements of a stream:

    - `past`: the element some positions before the end of a stream
    - `recent`: the elements between two positions
    - `back` and `ahead`: places of the ring
    - `Keeps`: the ring has the last `m - 1` elements, kept by `Keeps.put`
-/

namespace Ring

variable {α : Type}

/-- The element `k` positions before the end, with `z` before the beginning. -/
def past (z : α) (l : List α) (k : Nat) : α :=
  if k ≤ l.length then l.getD (l.length - k) z else z

/-- The elements from `start` to `stop` positions before the end. -/
def recent (z : α) (l : List α) (start stop : Nat) : List α :=
  (List.range (start - stop)).map fun j => past z l (start - j)

/-- The place `k` places behind `cur`, for `k ≤ m`. -/
def back (m cur k : Nat) : Nat := if k ≤ cur then cur - k else m + cur - k

/-- The place `k` places before `cur`, for `k ≤ m`. -/
def ahead (m cur k : Nat) : Nat := if cur + k < m then cur + k else cur + k - m

/-- The last `m - 1` elements are behind `cur`. -/
def Keeps (z : α) (m cur : Nat) (row : Nat → α) (l : List α) : Prop :=
  ∀ k, 1 ≤ k → k < m → row (back m cur k) = past z l k

variable {z : α} {m cur : Nat} {row : Nat → α} {l c : List α}

theorem past_nil (k : Nat) : past z [] k = z := by
  unfold past
  split <;> rfl

/-- The elements that came last. -/
theorem past_append_of_le {k : Nat} (hle : k ≤ c.length) :
    past z (l ++ c) k = c.getD (c.length - k) z := by
  unfold past
  rw [List.length_append, if_pos (by omega), List.getD_append_right _ _ _ _ (by omega)]
  congr 1
  omega

/-- The elements before them. -/
theorem past_append_of_lt {k : Nat} (hlt : c.length < k) :
    past z (l ++ c) k = past z l (k - c.length) := by
  unfold past
  rw [List.length_append]
  by_cases hk : k ≤ l.length + c.length
  · rw [if_pos hk, if_pos (by omega), List.getD_append _ _ _ _ (by omega)]
    congr 1
    omega
  · rw [if_neg hk, if_neg (by omega)]

theorem keeps_nil (m cur : Nat) : Keeps z m cur (fun _ => z) [] := by
  intro k _ _
  exact (past_nil k).symm

/-- Fewer than `m` elements are written from `cur` on. -/
theorem Keeps.put (h : Keeps z m cur row l) (row' : Nat → α) (hcur : cur < m) (hc : c.length < m)
    (hnew : ∀ j < c.length, row' (ahead m cur j) = c.getD j z)
    (hold : ∀ p, (∀ j < c.length, ahead m cur j ≠ p) → row' p = row p) :
    Keeps z m (ahead m cur c.length) row' (l ++ c) := by
  intro k hk hkm
  by_cases hle : k ≤ c.length
  · have hplace : back m (ahead m cur c.length) k = ahead m cur (c.length - k) := by
      unfold back ahead
      split <;> split <;> split <;> omega
    rw [hplace, hnew _ (by omega), past_append_of_le hle]
  · have hplace : back m (ahead m cur c.length) k = back m cur (k - c.length) := by
      unfold back ahead
      split <;> split <;> split <;> omega
    have hfree : ∀ j < c.length, ahead m cur j ≠ back m cur (k - c.length) := by
      intro j hj
      unfold back ahead
      split <;> split <;> omega
    rw [hplace, hold _ hfree, past_append_of_lt (by omega)]
    exact h _ (by omega) (by omega)

/-- Every place is written at once. -/
theorem keeps_fill_iff (hc : m ≤ c.length) : Keeps z m 0 row (l ++ c) ↔
    ∀ k, 1 ≤ k → k < m → row (m - k) = c.getD (c.length - k) z := by
  have hplace : ∀ k, 1 ≤ k → back m 0 k = m - k := by
    intro k hk
    exact if_neg (by omega)
  constructor
  · intro h k hk hkm
    rw [← hplace k hk, h k hk hkm, past_append_of_le (by omega)]
  · intro h k hk hkm
    rw [hplace k hk, h k hk hkm, past_append_of_le (by omega)]

/-- What the ring keeps is what can be read from it. -/
theorem keeps_iff_recent : Keeps z m cur row l ↔ ∀ start stop, stop ≤ start → start < m →
    (List.range (start - stop)).map (fun j => row (back m cur (start - j))) =
      recent z l start stop := by
  constructor
  · intro h start stop _ hstart
    apply List.map_congr_left
    intro j hj
    have hlt := List.mem_range.mp hj
    exact h _ (by omega) (by omega)
  · intro h k hk hkm
    have hone := h k (k - 1) (Nat.sub_le k 1) hkm
    rw [recent, show k - (k - 1) = 1 by omega] at hone
    exact (List.cons.inj hone).1

end Ring

import BlackSiren.Framework.CInt
import Mathlib.Data.List.GetD
import Mathlib.Data.List.Range

/-! # Arrays and `memcpy`

    - `Block`: an array of known size
    - `int`: an arithmetic result, as far as an `int` holds it
    - `within`: a check that some elements are there
    - `memcpy`: a copy between two arrays, by signed offsets and a signed length,
      which stops where either end leaves its array
    - `memcpy_eq_ok` and `memcpy_eq_ok_iff`: when it returns, and what
    - `window`: consecutive elements, with its parts
-/

namespace Memory

variable {α : Type}

/-- What ends a computation. -/
inductive Fault where
  /-- An access outside an array. -/
  | outside
  /-- An arithmetic result that is no `int`. -/
  | overflow
  /-- A failing `assert`. -/
  | assertion
  | divByZero
  deriving DecidableEq, Repr

/-- An array. What `data` has from `size` on is never looked at. -/
structure Block (α : Type) where
  size : Nat
  data : Nat → α

/-- The array with the elements of a list. -/
def Block.ofList (a : α) (l : List α) : Block α := ⟨l.length, fun k => l.getD k a⟩

def int (v : Int) : Except Fault Int := if CInt.Fits v then .ok v else .error .overflow

/-- The `n` elements from `off` on are elements of the array. -/
def Block.Inside (b : Block α) (off n : Int) : Prop := 0 ≤ off ∧ 0 ≤ n ∧ off + n ≤ b.size

instance (b : Block α) (off n : Int) : Decidable (b.Inside off n) :=
  inferInstanceAs (Decidable (_ ∧ _ ∧ _))

/-- `memcpy(dst + doff, src + soff, n)`. -/
def memcpy (dst : Block α) (doff : Int) (src : Block α) (soff n : Int) :
    Except Fault (Block α) :=
  if dst.Inside doff n ∧ src.Inside soff n then
    .ok ⟨dst.size, fun k =>
      if doff.toNat ≤ k ∧ k < doff.toNat + n.toNat then src.data (soff.toNat + (k - doff.toNat))
      else dst.data k⟩
  else .error .outside

/-- The elements from `off` to `off + n` of an array of `size` elements are there. -/
def within (size off n : Nat) : Except Fault PUnit :=
  if off + n ≤ size then .ok ⟨⟩ else .error .outside

theorem int_eq_ok_iff {v r : Int} : int v = .ok r ↔ CInt.Fits v ∧ r = v := by
  unfold int
  by_cases h : CInt.Fits v
  · rw [if_pos h]
    constructor
    · intro hr
      exact ⟨h, (Except.ok.inj hr).symm⟩
    · rintro ⟨_, hr⟩
      rw [hr]
  · rw [if_neg h]
    constructor
    · intro hr
      cases hr
    · rintro ⟨hf, _⟩
      exact absurd hf h

theorem int_eq_ok {v : Int} (h : CInt.Fits v) : int v = .ok v := int_eq_ok_iff.mpr ⟨h, rfl⟩

theorem int_eq_error {v : Int} (h : ¬ CInt.Fits v) : int v = .error .overflow := if_neg h

theorem within_eq_ok {size off n : Nat} (h : off + n ≤ size) : within size off n = .ok ⟨⟩ :=
  if_pos h

theorem memcpy_eq_ok_iff {dst src b : Block α} {doff soff n : Int} :
    memcpy dst doff src soff n = .ok b ↔ (dst.Inside doff n ∧ src.Inside soff n) ∧
      b = ⟨dst.size, fun k =>
        if doff.toNat ≤ k ∧ k < doff.toNat + n.toNat then src.data (soff.toNat + (k - doff.toNat))
        else dst.data k⟩ := by
  unfold memcpy
  by_cases h : dst.Inside doff n ∧ src.Inside soff n
  · rw [if_pos h]
    constructor
    · intro hr
      exact ⟨h, (Except.ok.inj hr).symm⟩
    · rintro ⟨_, hr⟩
      rw [hr]
  · rw [if_neg h]
    constructor
    · intro hr
      cases hr
    · rintro ⟨hf, _⟩
      exact absurd hf h

/-- A copy between two places that are inside. -/
theorem memcpy_eq_ok (dst src : Block α) (d s n : Nat) (hdst : d + n ≤ dst.size)
    (hsrc : s + n ≤ src.size) : memcpy dst d src s n = .ok ⟨dst.size, fun k =>
      if d ≤ k ∧ k < d + n then src.data (s + (k - d)) else dst.data k⟩ :=
  memcpy_eq_ok_iff.mpr ⟨⟨⟨by omega, by omega, by omega⟩, ⟨by omega, by omega, by omega⟩⟩, rfl⟩

/-! ### Windows -/

/-- The `n` elements from `off` on. -/
def window (data : Nat → α) (off n : Nat) : List α := (List.range n).map fun k => data (off + k)

variable {data data' : Nat → α} {off off' n : Nat}

@[simp] theorem length_window : (window data off n).length = n := by
  rw [window, List.length_map, List.length_range]

theorem getElem_window {k : Nat} (h : k < (window data off n).length) :
    (window data off n)[k] = data (off + k) := by
  simp only [window, List.getElem_map, List.getElem_range]

theorem window_congr (h : ∀ k < n, data (off + k) = data' (off' + k)) :
    window data off n = window data' off' n := by
  apply List.map_congr_left
  intro k hk
  exact h k (List.mem_range.mp hk)

theorem window_add (data : Nat → α) (off m n : Nat) :
    window data off (m + n) = window data off m ++ window data (off + m) n := by
  unfold window
  rw [List.range_add, List.map_append, List.map_map]
  congr 1
  apply List.map_congr_left
  intro k _
  rw [Function.comp_apply, Nat.add_assoc]

theorem take_window (k : Nat) : (window data off n).take k = window data off (min k n) := by
  unfold window
  rw [← List.map_take, List.take_range]

theorem drop_window (k : Nat) : (window data off n).drop k = window data (off + k) (n - k) := by
  by_cases hk : k ≤ n
  · obtain ⟨m, rfl⟩ := Nat.exists_eq_add_of_le hk
    rw [window_add, List.drop_left' length_window, Nat.add_sub_cancel_left]
  · rw [List.drop_eq_nil_of_le (by rw [length_window]; omega), Nat.sub_eq_zero_of_le (by omega)]
    rfl

theorem window_ofList (a : α) (l : List α) : window (Block.ofList a l).data 0 l.length = l := by
  apply List.ext_getElem length_window
  intro k _ hk
  rw [getElem_window, Nat.zero_add]
  exact List.getD_eq_getElem _ _ hk

end Memory

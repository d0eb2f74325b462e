import Mathlib.Data.List.Basic

/-! # Scanning arrays

    Loops that go through an array and stop at a sentinel.  They end early with an
    access outside the array, or are still running when their fuel is used up.

    - `read` and `write`
    - `find`: the next element of a kind
    - `find_eq`: it stops at the first one
    - `find_passes`: none is passed, whatever the array
-/

namespace Scan

variable {α : Type}

/-- Why a loop has no result. -/
inductive Stop where
  | outside
  | running
  deriving DecidableEq

def read (a : List α) (i : Nat) : Except Stop α := (a[i]?).elim (.error .outside) .ok

def write (a : List α) (i : Nat) (x : α) : Except Stop (List α) :=
  if i < a.length then .ok (a.set i x) else .error .outside

/-- The loop that goes on from `i` until an element says stop. -/
def find (stop : α → Bool) (a : List α) : (fuel i : Nat) → Except Stop Nat
  | 0, _ => .error .running
  | fuel + 1, i => do
      let x ← read a i
      if stop x then return i else find stop a fuel (i + 1)

theorem read_append (front : List α) (x : α) (back : List α) :
    read (front ++ x :: back) front.length = .ok x := by
  unfold read
  rw [List.getElem?_append_right (Nat.le_refl _), Nat.sub_self, List.getElem?_cons_zero]
  rfl

theorem write_append (front : List α) (x y : α) (back : List α) :
    write (front ++ x :: back) front.length y = .ok (front ++ y :: back) := by
  unfold write
  rw [if_pos (by rw [List.length_append, List.length_cons]; omega),
    List.set_append_right _ _ (Nat.le_refl _), Nat.sub_self, List.set_cons_zero]

theorem find_eq {stop : α → Bool} {body : List α} {x : α} (hbody : ∀ y ∈ body, stop y = false)
    (hx : stop x = true) (front back : List α) {fuel : Nat} (hfuel : body.length < fuel) :
    find stop (front ++ body ++ x :: back) fuel front.length =
      .ok (front.length + body.length) := by
  induction body generalizing front fuel with
  | nil =>
    obtain ⟨fuel, rfl⟩ := Nat.exists_eq_succ_of_ne_zero (Nat.ne_of_gt hfuel)
    rw [List.append_nil, find, read_append]
    show (if stop x then _ else _) = _
    rw [if_pos hx]
    rfl
  | cons y body ih =>
    rw [List.forall_mem_cons] at hbody
    obtain ⟨fuel, rfl⟩ := Nat.exists_eq_succ_of_ne_zero (Nat.ne_of_gt (Nat.zero_lt_of_lt hfuel))
    have hsplit : front ++ y :: body ++ x :: back = front ++ [y] ++ body ++ x :: back := by simp
    have hread : read (front ++ y :: body ++ x :: back) front.length = .ok y := by
      rw [List.append_assoc, List.cons_append, read_append]
    rw [find, hread]
    show (if stop y then _ else _) = _
    rw [hbody.1, if_neg Bool.false_ne_true, hsplit]
    have hfuel' : body.length < fuel := Nat.lt_of_succ_lt_succ hfuel
    have hrest := ih hbody.2 (front ++ [y]) hfuel'
    rw [List.length_append, List.length_singleton] at hrest
    rw [hrest, List.length_cons, Nat.add_assoc, Nat.add_comm 1]

/-- Where the loop ends, it has passed no element that says stop. -/
theorem find_passes {stop : α → Bool} {a : List α} {fuel i j : Nat}
    (h : find stop a fuel i = .ok j) :
    i ≤ j ∧ ∀ x ∈ (a.drop i).take (j - i), stop x = false := by
  induction fuel generalizing i with
  | zero => cases h
  | succ fuel ih =>
    unfold find read at h
    cases hx : a[i]? with
    | none =>
      rw [hx] at h
      cases h
    | some x =>
      rw [hx] at h
      change (if stop x then Except.ok i else find stop a fuel (i + 1)) = .ok j at h
      by_cases hstop : stop x
      · rw [if_pos hstop] at h
        cases h
        rw [Nat.sub_self, List.take_zero]
        exact ⟨Nat.le_refl _, List.forall_mem_nil _⟩
      · rw [if_neg hstop] at h
        obtain ⟨hle, hpassed⟩ := ih h
        obtain ⟨hi, hget⟩ := List.getElem?_eq_some_iff.mp hx
        have hlen : j - i = j - (i + 1) + 1 := by omega
        rw [List.drop_eq_getElem_cons hi, hlen, List.take_succ_cons, hget, List.forall_mem_cons]
        exact ⟨Nat.le_of_succ_le hle, Bool.eq_false_iff.mpr hstop, hpassed⟩

end Scan

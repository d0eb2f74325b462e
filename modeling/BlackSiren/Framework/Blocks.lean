import Mathlib.Data.List.GetD

/-! # Block-wise encoders

    A machine reads blocks of `size` items and writes some output for each.  An
    encoder that is fed bit by bit, and takes a block whenever it likes, has
    written the beginning of what the machine writes for all it has been fed.

    - `output`: what the machine writes for the first blocks of a list
    - `length_output_le`: how long it is
    - `Progress`: an encoder between two blocks
    - `Progress.isPrefix`: what it has written so far
    - `getD_flatMap`: an entry of blocks of one size
    - `index_inj` and `index_lt`: entries of rows of one length
-/

namespace Blocks

variable {S α β : Type*} (step : S → List α → Option (S × List β)) (size : Nat)

/-- The output for `n` blocks; it ends where the machine fails. -/
def output : Nat → S → List α → List β
  | 0, _, _ => []
  | n + 1, h, xs =>
      match step h (xs.take size) with
      | some (h', ys) => ys ++ output n h' (xs.drop size)
      | none => []

variable {step size}

theorem output_succ {h h' : S} {xs : List α} {ys : List β} (n : Nat)
    (hstep : step h (xs.take size) = some (h', ys)) :
    output step size (n + 1) h xs = ys ++ output step size n h' (xs.drop size) := by
  rw [output, hstep]

/-- A bound on what is written for a block is one on the output. -/
theorem length_output_le {c : Nat} (hstep : ∀ h xs h' ys, xs.length ≤ size →
    step h xs = some (h', ys) → ys.length ≤ c) (n : Nat) (h : S) (xs : List α) :
    (output step size n h xs).length ≤ n * c := by
  induction n generalizing h xs with
  | zero => exact Nat.le_of_eq (Nat.zero_mul c).symm
  | succ n ih =>
    unfold output
    split
    · next h' ys hys =>
      have hlen := hstep h (xs.take size) h' ys (List.length_take_le _ _) hys
      have hrest := ih h' (xs.drop size)
      rw [List.length_append, Nat.succ_mul]
      omega
    · exact Nat.zero_le _

variable (step size) in
/-- The machine was in `h₀` and is in `h`; it has been fed `xs`, has taken `k`
    blocks of it and written `ys`. -/
structure Progress (h₀ : S) (xs : List α) (k : Nat) (h : S) (ys : List β) : Prop where
  within : k * size ≤ xs.length
  rest : ∀ n more, output step size (k + n) h₀ (xs ++ more) =
    ys ++ output step size n h ((xs ++ more).drop (k * size))

namespace Progress

variable {h₀ h h' : S} {xs : List α} {ys out : List β} {k : Nat}

theorem start (h₀ : S) : Progress step size h₀ [] 0 h₀ [] := by
  refine ⟨by simp, ?_⟩
  intro n more
  simp

/-- It is fed more. -/
theorem feed (hp : Progress step size h₀ xs k h ys) (more : List α) :
    Progress step size h₀ (xs ++ more) k h ys := by
  refine ⟨?_, ?_⟩
  · rw [List.length_append]
    exact Nat.le_trans hp.within (Nat.le_add_right _ _)
  · intro n more'
    rw [List.append_assoc]
    exact hp.rest n (more ++ more')

/-- It takes a block. -/
theorem take (hp : Progress step size h₀ xs k h ys) (hroom : (k + 1) * size ≤ xs.length)
    (hstep : step h ((xs.drop (k * size)).take size) = some (h', out)) :
    Progress step size h₀ xs (k + 1) h' (ys ++ out) := by
  refine ⟨hroom, ?_⟩
  intro n more
  have hsize : (k + 1) * size = k * size + size := Nat.succ_mul k size
  -- what is fed later does not change the block
  have hblock : ((xs ++ more).drop (k * size)).take size = (xs.drop (k * size)).take size := by
    rw [List.drop_append_of_le_length hp.within]
    apply List.take_append_of_le_length
    rw [List.length_drop]
    omega
  rw [← hblock] at hstep
  calc output step size (k + 1 + n) h₀ (xs ++ more)
      = output step size (k + (n + 1)) h₀ (xs ++ more) := by rw [Nat.add_assoc, Nat.add_comm 1 n]
    _ = ys ++ output step size (n + 1) h ((xs ++ more).drop (k * size)) := hp.rest (n + 1) more
    _ = ys ++ (out ++ output step size n h' (((xs ++ more).drop (k * size)).drop size)) := by
        rw [output_succ n hstep]
    _ = ys ++ out ++ output step size n h' ((xs ++ more).drop ((k + 1) * size)) := by
        rw [List.drop_drop, hsize, List.append_assoc]

/-- What has been written is the beginning of the output for all whole blocks. -/
theorem isPrefix (hp : Progress step size h₀ xs k h ys) (hsize : 0 < size) :
    ys <+: output step size (xs.length / size) h₀ xs := by
  have hk : k ≤ xs.length / size := (Nat.le_div_iff_mul_le hsize).mpr hp.within
  have hrest := hp.rest (xs.length / size - k) []
  rw [List.append_nil, Nat.add_sub_cancel' hk] at hrest
  rw [hrest]
  exact List.prefix_append _ _

end Progress

/-! ### Blocks of one size -/

/-- An entry of blocks of one size. -/
theorem getElem?_flatten {blocks : List (List α)} {size : Nat}
    (hsize : ∀ block ∈ blocks, block.length = size) {k j : Nat} {block : List α}
    (hk : blocks[k]? = some block) (hj : j < size) :
    blocks.flatten[size * k + j]? = block[j]? := by
  induction blocks generalizing k with
  | nil => cases hk
  | cons first blocks ih =>
    have hfirst : first.length = size := hsize first List.mem_cons_self
    rw [List.flatten_cons]
    cases k with
    | zero =>
      cases hk
      rw [Nat.mul_zero, Nat.zero_add, List.getElem?_append_left (by omega)]
    | succ k =>
      -- the first block ends before the entry
      have hpos : size * (k + 1) + j = first.length + (size * k + j) := by
        rw [hfirst, Nat.mul_succ]
        omega
      rw [hpos, List.getElem?_append_right (Nat.le_add_right _ _), Nat.add_sub_cancel_left]
      exact ih (fun block hmem => hsize block (List.mem_cons_of_mem _ hmem)) hk

theorem getD_flatMap {f : α → List β} {size : Nat} {l : List α}
    (hf : ∀ a ∈ l, (f a).length = size) {k : Nat} {a : α} (hk : l[k]? = some a) {j : Nat}
    (hj : j < size) (b : β) : (l.flatMap f).getD (size * k + j) b = (f a).getD j b := by
  have hblock : (l.map f)[k]? = some (f a) := by
    rw [List.getElem?_map, hk]
    rfl
  have hsize : ∀ block ∈ l.map f, block.length = size := by
    intro block hmem
    obtain ⟨a, ha, rfl⟩ := List.mem_map.mp hmem
    exact hf a ha
  rw [List.flatMap_def, List.getD_eq_getElem?_getD, List.getD_eq_getElem?_getD,
    getElem?_flatten hsize hblock hj]

theorem length_flatMap {f : α → List β} {size : Nat} {l : List α}
    (hf : ∀ a ∈ l, (f a).length = size) : (l.flatMap f).length = size * l.length := by
  induction l with
  | nil => rfl
  | cons a l ih =>
    rw [List.flatMap_cons, List.length_append, hf a List.mem_cons_self,
      ih fun a ha => hf a (List.mem_cons_of_mem _ ha), List.length_cons, Nat.mul_succ,
      Nat.add_comm]

/-- Entries of rows of one length, laid one behind the other. -/
theorem index_inj {n i j i' j' : Nat} (hj : j < n) (hj' : j' < n)
    (h : i * n + j = i' * n + j') : i = i' ∧ j = j' := by
  have hi : i = i' := by
    have hdiv := congrArg (· / n) h
    simpa only [Nat.mul_comm _ n, Nat.mul_add_div (Nat.zero_lt_of_lt hj), Nat.div_eq_of_lt hj,
      Nat.div_eq_of_lt hj', Nat.add_zero] using hdiv
  subst hi
  exact ⟨rfl, by omega⟩

theorem index_lt {m n i j : Nat} (hi : i < m) (hj : j < n) : i * n + j < m * n := by
  have hrow := Nat.mul_le_mul_right n (Nat.succ_le_of_lt hi)
  rw [Nat.succ_mul] at hrow
  omega

end Blocks

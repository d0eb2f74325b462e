import Mathlib.Data.List.Basic

/-! # Re-framing a stream

    A machine wants its elements in frames of one length and gets them in pieces
    of any length.

    - `push` and `feed`: the machine with the elements that wait for their frame
    - `feed_append` and `feed_flatten_concat`: how the elements are cut does not matter
    - `feed_of_lt` and `feed_of_eq`: several elements of one frame at a time;
      `feed_drop_of_lt` and `feed_drop_of_eq`: out of the middle of a piece
    - `length_feed`: how much comes out
    - `whole` and `left`: a list up to its last full frame, and what is behind it
    - `whole_append`: a list that is cut after each piece, with the rest kept
-/

namespace Frames

variable {S α β : Type}

/-- A machine, and the elements that wait for their frame to fill. -/
structure Held (S α : Type) where
  state : S
  waiting : List α

/-- The next element. -/
def push (f : Nat) (step : S → List α → S × List β) (h : Held S α) (a : α) :
    Held S α × List β :=
  if h.waiting.length + 1 = f then
    (⟨(step h.state (h.waiting ++ [a])).1, []⟩, (step h.state (h.waiting ++ [a])).2)
  else (⟨h.state, h.waiting ++ [a]⟩, [])

/-- The next elements, one after the other. -/
def feed (f : Nat) (step : S → List α → S × List β) : Held S α → List α → Held S α × List β
  | h, [] => (h, [])
  | h, a :: as =>
      ((feed f step (push f step h a).1 as).1,
        (push f step h a).2 ++ (feed f step (push f step h a).1 as).2)

variable {f : Nat} {step : S → List α → S × List β}

@[simp] theorem feed_nil (h : Held S α) : feed f step h [] = (h, []) := rfl

theorem feed_append (h : Held S α) (as bs : List α) :
    feed f step h (as ++ bs) =
      ((feed f step (feed f step h as).1 bs).1,
        (feed f step h as).2 ++ (feed f step (feed f step h as).1 bs).2) := by
  induction as generalizing h with
  | nil => rfl
  | cons a as ih => rw [List.cons_append, feed, ih, feed, List.append_assoc]

/-- One more piece of a stream. -/
theorem feed_flatten_concat (f : Nat) (step : S → List α → S × List β) (h : Held S α)
    (pieces : List (List α)) (piece : List α) :
    feed f step h (pieces ++ [piece]).flatten =
      ((feed f step (feed f step h pieces.flatten).1 piece).1,
        (feed f step h pieces.flatten).2 ++
          (feed f step (feed f step h pieces.flatten).1 piece).2) := by
  rw [List.flatten_append, List.flatten_singleton, feed_append]

/-- Elements that do not fill the frame. -/
theorem feed_of_lt {h : Held S α} {as : List α} (hlt : h.waiting.length + as.length < f) :
    feed f step h as = (⟨h.state, h.waiting ++ as⟩, []) := by
  induction as generalizing h with
  | nil => rw [List.append_nil]; rfl
  | cons a as ih =>
    rw [List.length_cons] at hlt
    have hpush : push f step h a = (⟨h.state, h.waiting ++ [a]⟩, []) := if_neg (by omega)
    have hrest := ih (h := ⟨h.state, h.waiting ++ [a]⟩) (by
      rw [List.length_append, List.length_singleton]
      omega)
    rw [feed, hpush, hrest, List.append_assoc]
    rfl

/-- Elements that fill it. -/
theorem feed_of_eq {h : Held S α} {as : List α} (hwaiting : h.waiting.length < f)
    (heq : h.waiting.length + as.length = f) :
    feed f step h as = (⟨(step h.state (h.waiting ++ as)).1, []⟩,
      (step h.state (h.waiting ++ as)).2) := by
  -- all but the last one only wait
  rcases List.eq_nil_or_concat as with rfl | ⟨as, a, rfl⟩
  · rw [List.length_nil] at heq
    omega
  · rw [List.concat_eq_append, List.length_append, List.length_singleton] at heq
    have hwait : h.waiting.length + as.length < f := by omega
    have hpush : push f step ⟨h.state, h.waiting ++ as⟩ a =
        (⟨(step h.state (h.waiting ++ as ++ [a])).1, []⟩,
          (step h.state (h.waiting ++ as ++ [a])).2) :=
      if_pos (by rw [List.length_append]; omega)
    rw [List.concat_eq_append, feed_append, feed_of_lt hwait, feed, hpush, feed_nil,
      List.append_nil, List.nil_append, List.append_assoc]

theorem length_take_drop {piece : List α} {cur ll : Nat} (h : cur + ll ≤ piece.length) :
    ((piece.drop cur).take ll).length = ll := by
  rw [List.length_take, List.length_drop]
  omega

/-- The same with `ll` elements of a piece, from `cur` on. -/
theorem feed_drop_of_lt {h : Held S α} {piece : List α} {cur ll : Nat}
    (hcur : cur + ll ≤ piece.length) (hlt : h.waiting.length + ll < f) :
    feed f step h (piece.drop cur) =
      feed f step ⟨h.state, h.waiting ++ (piece.drop cur).take ll⟩ (piece.drop (cur + ll)) := by
  have hfeed : feed f step h ((piece.drop cur).take ll) =
      (⟨h.state, h.waiting ++ (piece.drop cur).take ll⟩, []) :=
    feed_of_lt (by rw [length_take_drop hcur]; exact hlt)
  conv_lhs => rw [← List.take_append_drop ll (piece.drop cur)]
  rw [feed_append, hfeed, List.drop_drop]
  rfl

theorem feed_drop_of_eq {h : Held S α} {piece : List α} {cur ll : Nat}
    (hwaiting : h.waiting.length < f) (hcur : cur + ll ≤ piece.length)
    (heq : h.waiting.length + ll = f) :
    feed f step h (piece.drop cur) =
      ((feed f step ⟨(step h.state (h.waiting ++ (piece.drop cur).take ll)).1, []⟩
          (piece.drop (cur + ll))).1,
        (step h.state (h.waiting ++ (piece.drop cur).take ll)).2 ++
          (feed f step ⟨(step h.state (h.waiting ++ (piece.drop cur).take ll)).1, []⟩
            (piece.drop (cur + ll))).2) := by
  conv_lhs => rw [← List.take_append_drop ll (piece.drop cur)]
  rw [feed_append, feed_of_eq hwaiting (by rw [length_take_drop hcur]; exact heq), List.drop_drop]

/-- What comes out, if a frame gives `g` elements, and how many elements wait. -/
theorem length_feed {g : Nat} (hstep : ∀ s frame, (step s frame).2.length = g) {h : Held S α}
    (hwaiting : h.waiting.length < f) (as : List α) :
    (feed f step h as).2.length = (h.waiting.length + as.length) / f * g ∧
      (feed f step h as).1.waiting.length = (h.waiting.length + as.length) % f := by
  induction as generalizing h with
  | nil =>
    rw [List.length_nil, Nat.add_zero, Nat.div_eq_of_lt hwaiting, Nat.mod_eq_of_lt hwaiting,
      Nat.zero_mul]
    exact ⟨rfl, rfl⟩
  | cons a as ih =>
    rw [feed, List.length_append, List.length_cons]
    by_cases hfull : h.waiting.length + 1 = f
    · have hpush : push f step h a = (⟨(step h.state (h.waiting ++ [a])).1, []⟩,
          (step h.state (h.waiting ++ [a])).2) := if_pos hfull
      have hpos : 0 < f := by omega
      have hsum : h.waiting.length + (as.length + 1) = as.length + f := by omega
      obtain ⟨hout, hwait⟩ := ih (h := ⟨(step h.state (h.waiting ++ [a])).1, []⟩) hpos
      rw [List.length_nil, Nat.zero_add] at hout hwait
      rw [hpush, hout, hwait, hstep, hsum, Nat.add_div_right _ hpos, Nat.add_mod_right,
        Nat.succ_mul, Nat.add_comm g]
      exact ⟨rfl, rfl⟩
    · have hpush : push f step h a = (⟨h.state, h.waiting ++ [a]⟩, []) := if_neg hfull
      have hsum : h.waiting.length + (as.length + 1) = (h.waiting ++ [a]).length + as.length := by
        rw [List.length_append, List.length_singleton]
        omega
      obtain ⟨hout, hwait⟩ := ih (h := ⟨h.state, h.waiting ++ [a]⟩) (by
        rw [List.length_append, List.length_singleton]
        omega)
      rw [hpush, hout, hwait, hsum, List.length_nil, Nat.zero_add]
      exact ⟨rfl, rfl⟩

/-! ### Full frames and the rest -/

/-- A list up to the end of its last full frame. -/
def whole (f : Nat) (l : List α) : List α := l.take (l.length / f * f)

/-- What is behind it. -/
def left (f : Nat) (l : List α) : List α := l.drop (l.length / f * f)

theorem whole_append_left (f : Nat) (l : List α) : whole f l ++ left f l = l :=
  List.take_append_drop _ l

@[simp] theorem length_whole (f : Nat) (l : List α) : (whole f l).length = l.length / f * f := by
  rw [whole, List.length_take, Nat.min_eq_left (Nat.div_mul_le_self _ f)]

@[simp] theorem length_left (f : Nat) (l : List α) : (left f l).length = l.length % f := by
  rw [left, List.length_drop]
  have hsum := Nat.div_add_mod' l.length f
  omega

@[simp] theorem whole_nil (f : Nat) : whole f ([] : List α) = [] := List.take_nil

theorem left_eq_drop (f : Nat) (l : List α) : left f l = l.drop (l.length - l.length % f) := by
  rw [left]
  congr 1
  have hsum := Nat.div_add_mod' l.length f
  omega

/-- The last full frame of two lists, from that of the first. -/
theorem length_whole_append (f : Nat) (l m : List α) :
    (l ++ m).length / f * f = (whole f l).length + (left f l ++ m).length / f * f := by
  have hsum : (l ++ m).length = (left f l ++ m).length + l.length / f * f := by
    have hdiv := Nat.div_add_mod' l.length f
    rw [List.length_append, List.length_append, length_left]
    omega
  rw [length_whole, hsum]
  rcases Nat.eq_zero_or_pos f with rfl | hf
  · rfl
  · rw [Nat.add_mul_div_right _ _ hf, Nat.add_mul, Nat.add_comm]

theorem append_eq_whole_append (f : Nat) (l m : List α) :
    l ++ m = whole f l ++ (left f l ++ m) := by
  rw [← List.append_assoc, whole_append_left]

/-- Of two lists, the full frames are those of the first, and those of its rest
    with the other one. -/
theorem whole_append (f : Nat) (l m : List α) :
    whole f (l ++ m) = whole f l ++ whole f (left f l ++ m) := by
  rw [whole, length_whole_append, append_eq_whole_append f l m]
  exact List.take_length_add_append _

theorem left_append (f : Nat) (l m : List α) : left f (l ++ m) = left f (left f l ++ m) := by
  rw [left, length_whole_append, append_eq_whole_append f l m]
  exact List.drop_length_add_append _

end Frames

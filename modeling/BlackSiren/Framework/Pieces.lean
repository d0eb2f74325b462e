import Mathlib.Data.List.Basic

/-! # Cutting a text into pieces

    Some letters of an alphabet end a piece.  A text is a row of pieces, each
    with its one end behind it, and a rest that has no end.

    - `Closed`: a piece
    - `cut`: the pieces and the rest
    - `flatten_cut` and `rest_open`: nothing is lost, and the rest has no end
    - `cut_flatten_append`: a row of pieces is cut into just these
-/

namespace Pieces

variable {α : Type} (ends : α → Bool)

/-- One end, and nothing behind it. -/
def Closed (w : List α) : Prop :=
  ∃ body e, w = body ++ [e] ∧ ends e = true ∧ ∀ a ∈ body, ends a = false

/-- One more letter in front, which is no end. -/
def grow (a : α) : List (List α) × List α → List (List α) × List α
  | ([], rest) => ([], a :: rest)
  | (w :: ws, rest) => ((a :: w) :: ws, rest)

/-- The pieces of a text, and what is left behind the last end. -/
def cut : List α → List (List α) × List α
  | [] => ([], [])
  | a :: xs =>
      if ends a then ([a] :: (cut xs).1, (cut xs).2)
      else grow a (cut xs)

variable {ends}

theorem flatten_grow (a : α) (r : List (List α) × List α) :
    (grow a r).1.flatten ++ (grow a r).2 = a :: (r.1.flatten ++ r.2) := by
  obtain ⟨ws, rest⟩ := r
  cases ws with
  | nil => rfl
  | cons w ws => rfl

/-- Nothing is lost. -/
theorem flatten_cut (ends : α → Bool) (xs : List α) :
    (cut ends xs).1.flatten ++ (cut ends xs).2 = xs := by
  induction xs with
  | nil => rfl
  | cons a xs ih =>
    unfold cut
    split
    · show [a] ++ (cut ends xs).1.flatten ++ (cut ends xs).2 = a :: xs
      rw [List.append_assoc, ih]
      rfl
    · rw [flatten_grow, ih]

theorem rest_open (xs : List α) : ∀ a ∈ (cut ends xs).2, ends a = false := by
  induction xs with
  | nil => simp [cut]
  | cons a xs ih =>
    unfold cut
    split
    · exact ih
    · next ha =>
      generalize hcut : cut ends xs = r at ih
      obtain ⟨ws, rest⟩ := r
      cases ws with
      | nil => exact List.forall_mem_cons.mpr ⟨Bool.eq_false_iff.mpr ha, ih⟩
      | cons v ws => exact ih

/-- The first piece of a text that begins with a piece. -/
theorem cut_append {w : List α} (h : Closed ends w) (xs : List α) :
    cut ends (w ++ xs) = (w :: (cut ends xs).1, (cut ends xs).2) := by
  obtain ⟨body, e, rfl, he, hbody⟩ := h
  induction body with
  | nil =>
    show (if ends e then _ else _) = _
    rw [if_pos he]
    rfl
  | cons a body ih =>
    rw [List.forall_mem_cons] at hbody
    show (if ends a then _ else grow a (cut ends (body ++ [e] ++ xs))) = _
    rw [if_neg (by rw [hbody.1]; exact Bool.false_ne_true), ih hbody.2]
    rfl

theorem cut_of_open {xs : List α} (h : ∀ a ∈ xs, ends a = false) : cut ends xs = ([], xs) := by
  induction xs with
  | nil => rfl
  | cons a xs ih =>
    rw [List.forall_mem_cons] at h
    rw [cut, if_neg (by rw [h.1]; exact Bool.false_ne_true), ih h.2]
    rfl

/-- A row of pieces and a rest without an end is cut into just these. -/
theorem cut_flatten_append {ws : List (List α)} {rest : List α} (hws : ∀ w ∈ ws, Closed ends w)
    (hrest : ∀ a ∈ rest, ends a = false) : cut ends (ws.flatten ++ rest) = (ws, rest) := by
  induction ws with
  | nil => exact cut_of_open hrest
  | cons w ws ih =>
    rw [List.forall_mem_cons] at hws
    rw [List.flatten_cons, List.append_assoc, cut_append hws.1, ih hws.2]

/-- What is in front of the first end belongs to the first piece. -/
theorem cut_open_append {q : List α} (h : ∀ a ∈ q, ends a = false) {e : α} (he : ends e = true)
    (xs : List α) :
    cut ends (q ++ e :: xs) = ((q ++ [e]) :: (cut ends xs).1, (cut ends xs).2) := by
  have hclosed : Closed ends (q ++ [e]) := ⟨q, e, rfl, he, h⟩
  rw [← cut_append hclosed, List.append_assoc]
  rfl

end Pieces

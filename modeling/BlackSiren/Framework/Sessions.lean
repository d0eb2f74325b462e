import BlackSiren.Framework.System

/-! # Sessions

    A session opens, goes on for a while and closes; the next one opens after that.

    - `next`: what a mark does, `none` where it is out of place
    - `Orderly`: marks that are all in place
    - `eq_nil_of_orderly`: no marks are so from either side
-/

open LTS

namespace Sessions

/-- What is seen of sessions. -/
inductive Mark where
  | opens
  | stays
  | closes
  deriving DecidableEq, Repr

/-- Whether a session is open behind a mark. -/
def next : Bool → Mark → Option Bool
  | false, .opens => some true
  | true, .stays => some true
  | true, .closes => some false
  | _, _ => none

/-- Every mark is in place. -/
def Orderly (isOpen : Bool) (ms : List Mark) : Prop := (exec next isOpen ms).isSome

instance (isOpen : Bool) (ms : List Mark) : Decidable (Orderly isOpen ms) :=
  inferInstanceAs (Decidable ((exec next isOpen ms).isSome = true))

theorem orderly_iff {isOpen : Bool} {ms : List Mark} :
    Orderly isOpen ms ↔ ∃ isOpen', exec next isOpen ms = some isOpen' := Option.isSome_iff_exists

/-- Without an open session the first mark opens one. -/
theorem opens_of_orderly {m : Mark} {ms : List Mark} (h : Orderly false (m :: ms)) :
    m = .opens := by
  obtain ⟨_, h⟩ := orderly_iff.mp h
  obtain ⟨_, hnext, _⟩ := exec_cons_eq_some.mp h
  cases m with
  | opens => rfl
  | stays => cases hnext
  | closes => cases hnext

/-- With an open session it does not. -/
theorem not_orderly_opens (ms : List Mark) : ¬ Orderly true (.opens :: ms) := by
  intro h
  obtain ⟨_, h⟩ := orderly_iff.mp h
  obtain ⟨_, hnext, _⟩ := exec_cons_eq_some.mp h
  cases hnext

/-- Marks that are in place whether or not a session is open are none. -/
theorem eq_nil_of_orderly {ms : List Mark} (hclosed : Orderly false ms) (hopen : Orderly true ms) :
    ms = [] := by
  cases ms with
  | nil => rfl
  | cons m ms =>
    obtain rfl := opens_of_orderly hclosed
    exact absurd hopen (not_orderly_opens ms)

end Sessions

import BlackSiren.Framework.System
import Mathlib.Order.WellFounded

/-! # Goals that can be reached

    What a system can still do from a state it is in:

    - `Reaches`: a run from one state to another, and how runs are put together
    - `reaches_goal`: a measure that some run from every other state lowers
    - `Inevitable`: all runs come to the goal, however they go on
    - `inevitable_of_measure`: a measure that every step from another state lowers
    - `inevitable_iff`: what stands between one end and another
-/

namespace LTS

variable {State Label : Type*} {sys : System State Label}

/-- Some run leads from `s` to `s'`. -/
def Reaches (sys : System State Label) (s s' : State) : Prop := Reachable (sys.startingAt s) s'

namespace Reaches

variable {s s' s'' : State}

theorem refl (sys : System State Label) (s : State) : Reaches sys s s := .init rfl

theorem tail (h : Reaches sys s s') (l : Label) (hstep : sys.step s' l s'') :
    Reaches sys s s'' :=
  .step l h hstep

theorem single (l : Label) (hstep : sys.step s l s') : Reaches sys s s' :=
  (refl sys s).tail l hstep

theorem trans (h : Reaches sys s s') (h' : Reaches sys s' s'') : Reaches sys s s'' :=
  Reachable.trans h h'

/-- A run under a guard is a run. -/
theorem of_restrict {guard : State → Label → Prop} (h : Reaches (sys.restrict guard) s s') :
    Reaches sys s s' := by
  induction h with
  | init hs => exact .init hs
  | step l _ hstep ih => exact .step l ih hstep.2

/-- A run from a reachable state ends in one. -/
theorem reachable (h : Reaches sys s s') (hs : Reachable sys s) : Reachable sys s' :=
  Reachable.trans hs h

end Reaches

/-- A goal is reached if every other state has a run to one of smaller measure. -/
theorem reaches_goal {β : Type*} [LT β] [WellFoundedLT β] (measure : State → β)
    {inv goal : State → Prop}
    (hrun : ∀ s, inv s → ¬ goal s → ∃ s', Reaches sys s s' ∧ inv s' ∧ measure s' < measure s)
    {s : State} (hs : inv s) : ∃ s', Reaches sys s s' ∧ goal s' := by
  induction hm : measure s using WellFoundedLT.induction generalizing s with
  | ind m ih =>
    by_cases hgoal : goal s
    · exact ⟨s, .refl sys s, hgoal⟩
    · obtain ⟨s₁, hs₁, hinv, hlt⟩ := hrun s hs hgoal
      obtain ⟨s₂, hs₂, hgoal₂⟩ := ih (measure s₁) (hm ▸ hlt) hinv rfl
      exact ⟨s₂, hs₁.trans hs₂, hgoal₂⟩

/-- Every run from a state comes to the goal in the end: it cannot stop before, nor go
    on for ever. -/
inductive Inevitable (sys : System State Label) (goal : State → Prop) : State → Prop where
  | now {s : State} (h : goal s) : Inevitable sys goal s
  | later {s : State} (hcan : ∃ l s', sys.step s l s')
      (hall : ∀ l s', sys.step s l s' → Inevitable sys goal s') : Inevitable sys goal s

theorem inevitable_of_measure {β : Type*} [LT β] [WellFoundedLT β] (measure : State → β)
    (inv : State → Prop) {goal : State → Prop}
    (hcan : ∀ s, inv s → ¬ goal s → ∃ l s', sys.step s l s')
    (hstep : ∀ s l s', inv s → ¬ goal s → sys.step s l s' → inv s' ∧ measure s' < measure s)
    {s : State} (hs : inv s) : Inevitable sys goal s := by
  induction hm : measure s using WellFoundedLT.induction generalizing s with
  | ind m ih =>
    by_cases hgoal : goal s
    · exact .now hgoal
    · refine .later (hcan s hs hgoal) fun l s' hs' => ?_
      obtain ⟨hinv, hlt⟩ := hstep s l s' hs hgoal hs'
      exact ih (measure s') (hm ▸ hlt) hinv rfl

namespace Inevitable

variable {goal bad : State → Prop} {s s' : State}

/-- A goal that lasts is inevitable all the way. -/
theorem of_reaches (hgoal : ∀ s l s', goal s → sys.step s l s' → goal s')
    (h : Inevitable sys goal s) (hr : Reaches sys s s') : Inevitable sys goal s' := by
  induction hr with
  | init hs =>
    obtain rfl : _ = s := hs
    exact h
  | step l _ hstep ih =>
    cases ih with
    | now hnow => exact .now (hgoal _ _ _ hnow hstep)
    | later _ hall => exact hall _ _ hstep

/-- From a state that one cannot leave the goal is out of reach. -/
theorem not_bad (hbad : ∀ s l s', bad s → sys.step s l s' → bad s')
    (hnot : ∀ s, goal s → ¬ bad s) (h : Inevitable sys goal s) : ¬ bad s := by
  induction h with
  | now hnow => exact hnot _ hnow
  | later hcan _ ih =>
    obtain ⟨l, s', hstep⟩ := hcan
    exact fun hs => ih l s' hstep (hbad _ _ _ hs hstep)

end Inevitable

/-- If all runs come to one of two ends, both of which last, they come to the first
    exactly if none comes to the second. -/
theorem inevitable_iff {goal bad : State → Prop}
    (hgoal : ∀ s l s', goal s → sys.step s l s' → goal s')
    (hbad : ∀ s l s', bad s → sys.step s l s' → bad s') (hnot : ∀ s, goal s → ¬ bad s) {s : State}
    (h : Inevitable sys (fun s => goal s ∨ bad s) s) :
    Inevitable sys goal s ↔ ∀ s', Reaches sys s s' → ¬ bad s' := by
  constructor
  · intro hs s' hr
    exact (hs.of_reaches hgoal hr).not_bad hbad hnot
  · intro hnever
    induction h with
    | now hnow => exact .now (hnow.resolve_right (hnever _ (.refl sys _)))
    | later hcan _ ih =>
      refine .later hcan fun l s' hstep => ih l s' hstep fun s'' hr => ?_
      exact hnever s'' ((Reaches.single l hstep).trans hr)

end LTS

import Mathlib.Logic.Relation

/-! # Labelled transition systems

    The small framework every concurrent component of this development is an
    instance of:

    - `System`: initial states and a labelled step relation
    - `Reachable`: the states of all finite runs
    - `restrict`: the same system under a guard on its steps
    - `invariant` and `invariant_of_reachable`: the induction over runs
    - `Reachable.map`: a state map that turns steps into steps or stutters
    - `exec`: running a list of labels of a system given by a step function, and
      that a run ends in a reachable state
-/

namespace LTS

variable {State Label State' Label' : Type*}

/-! ### Systems and their runs -/

/-- A labelled transition system. -/
structure System (State Label : Type*) where
  init : State → Prop
  step : State → Label → State → Prop

/-- States reached by finitely many steps from an initial state. -/
inductive Reachable (sys : System State Label) : State → Prop where
  | init : ∀ {s}, sys.init s → Reachable sys s
  | step : ∀ {s s'} l, Reachable sys s → sys.step s l s' → Reachable sys s'

/-- The system that takes only the steps `guard` allows. -/
def System.restrict (sys : System State Label) (guard : State → Label → Prop) :
    System State Label where
  init := sys.init
  step := fun s l s' => guard s l ∧ sys.step s l s'

/-- The runs that go on from `s`. -/
def System.startingAt (sys : System State Label) (s : State) : System State Label where
  init := (· = s)
  step := sys.step

/-! ### Invariants -/

/-- An invariant holds initially and is kept by every step. -/
theorem invariant (sys : System State Label) (inv : State → Prop)
    (hinit : ∀ s, sys.init s → inv s)
    (hstep : ∀ s l s', inv s → sys.step s l s' → inv s')
    {s : State} (h : Reachable sys s) : inv s := by
  induction h with
  | init hs => exact hinit _ hs
  | step l _ hs ih => exact hstep _ l _ ih hs

/-- Strengthened form: the step case may also use that the state it starts
    from is reachable, hence every invariant proved before. -/
theorem invariant_of_reachable (sys : System State Label) (inv : State → Prop)
    (hinit : ∀ s, sys.init s → inv s)
    (hstep : ∀ s l s', Reachable sys s → inv s → sys.step s l s' → inv s')
    {s : State} (h : Reachable sys s) : inv s := by
  induction h with
  | init hs => exact hinit _ hs
  | step l hr hs ih => exact hstep _ l _ hr ih hs

theorem Reachable.of_restrict {sys : System State Label} {guard : State → Label → Prop}
    {s : State} (h : Reachable (sys.restrict guard) s) : Reachable sys s := by
  induction h with
  | init hs => exact .init hs
  | step l _ hs ih => exact .step l ih hs.2

/-- A guard that the steps of another one pass too. -/
theorem Reachable.guarded_by {sys : System State Label} {guard guard' : State → Label → Prop}
    (hguard : ∀ s l s', guard s l → sys.step s l s' → guard' s l) {s : State}
    (h : Reachable (sys.restrict guard) s) : Reachable (sys.restrict guard') s := by
  induction h with
  | init hs => exact .init hs
  | step l _ hs ih => exact .step l ih ⟨hguard _ _ _ hs.1 hs.2, hs.2⟩

theorem Reachable.refl (sys : System State Label) (s : State) :
    Reachable (sys.startingAt s) s := .init rfl

/-- A run and one that goes on from its end. -/
theorem Reachable.trans {sys : System State Label} {s s' : State} (h : Reachable sys s)
    (h' : Reachable (sys.startingAt s) s') : Reachable sys s' := by
  induction h' with
  | init hs => exact hs ▸ h
  | step l _ hs ih => exact .step l ih hs

/-- A step and a run from its end. -/
theorem Reachable.head {sys : System State Label} {s s' s'' : State} (l : Label)
    (hstep : sys.step s l s') (h : Reachable (sys.startingAt s') s'') :
    Reachable (sys.startingAt s) s'' := by
  induction h with
  | init hs => exact hs ▸ .step l (.init rfl) hstep
  | step l' _ hs ih => exact .step l' ih hs

/-! ### Projections

    A component of a composed system makes a step of its own or none at all
    whenever the composition makes one. -/

/-- Reachability along a state map whose image of a step is a step or a
    stutter. -/
theorem Reachable.map {sys : System State Label} {sys' : System State' Label'}
    (f : State → State')
    (hinit : ∀ s, sys.init s → sys'.init (f s))
    (hstep : ∀ s l s', Reachable sys s → sys.step s l s' →
      f s' = f s ∨ ∃ l', sys'.step (f s) l' (f s'))
    {s : State} (h : Reachable sys s) : Reachable sys' (f s) := by
  induction h with
  | init hs => exact .init (hinit _ hs)
  | step l hr hs ih =>
    rcases hstep _ l _ hr hs with heq | ⟨l', hl'⟩
    · rw [heq]; exact ih
    · exact .step l' ih hl'

/-! ### Systems given by a step function -/

/-- The system whose steps a partial function computes. -/
def System.ofFn (init : State → Prop) (next : State → Label → Option State) :
    System State Label where
  init := init
  step := fun s l s' => next s l = some s'

/-- Run a schedule. -/
def exec (next : State → Label → Option State) : State → List Label → Option State
  | s, [] => some s
  | s, l :: ls => (next s l).bind fun s' => exec next s' ls

@[simp] theorem exec_nil (next : State → Label → Option State) (s : State) :
    exec next s [] = some s := rfl

theorem exec_cons_eq_some {next : State → Label → Option State} {s s'' : State}
    {l : Label} {ls : List Label} :
    exec next s (l :: ls) = some s'' ↔
      ∃ s', next s l = some s' ∧ exec next s' ls = some s'' := by
  simp [exec, Option.bind_eq_some_iff]

/-- A schedule that runs to the end from a reachable state ends in one. -/
theorem Reachable.exec {init : State → Prop} {next : State → Label → Option State}
    {s s' : State} {ls : List Label} (h : Reachable (.ofFn init next) s)
    (hrun : exec next s ls = some s') : Reachable (.ofFn init next) s' := by
  induction ls generalizing s with
  | nil => simp only [exec_nil, Option.some.injEq] at hrun; exact hrun ▸ h
  | cons l ls ih =>
    obtain ⟨s₁, hs₁, hrest⟩ := exec_cons_eq_some.mp hrun
    exact ih (.step l h hs₁) hrest

theorem reachable_of_exec {init : State → Prop} {next : State → Label → Option State}
    {s s' : State} {ls : List Label} (hs : init s) (hrun : exec next s ls = some s') :
    Reachable (.ofFn init next) s' :=
  Reachable.exec (.init hs) hrun

/-- A schedule whose labels pass a guard in every state. -/
theorem reachable_restrict_of_exec {init : State → Prop} {next : State → Label → Option State}
    {guard : State → Label → Prop} {s s' : State} {ls : List Label} (hs : init s)
    (hrun : exec next s ls = some s') (hguard : ∀ l ∈ ls, ∀ s, guard s l) :
    Reachable ((System.ofFn init next).restrict guard) s' := by
  have hall : ∀ {ls : List Label} {s : State},
      Reachable ((System.ofFn init next).restrict guard) s → exec next s ls = some s' →
        (∀ l ∈ ls, ∀ s, guard s l) → Reachable ((System.ofFn init next).restrict guard) s' := by
    intro ls
    induction ls with
    | nil =>
      intro s hr hrun _
      rw [exec_nil] at hrun
      rwa [← Option.some.inj hrun]
    | cons l ls ih =>
      intro s hr hrun hguard
      obtain ⟨s₁, hs₁, hrest⟩ := exec_cons_eq_some.mp hrun
      have hstep : ((System.ofFn init next).restrict guard).step s l s₁ :=
        ⟨hguard l List.mem_cons_self s, hs₁⟩
      exact ih (.step l hr hstep) hrest fun l' hl' => hguard l' (List.mem_cons_of_mem l hl')
  exact hall (.init hs) hrun hguard

/-- A step function that refuses the steps a guard does not allow. -/
def guarded (guard : State → Label → Prop) [∀ s l, Decidable (guard s l)]
    (next : State → Label → Option State) (s : State) (l : Label) : Option State :=
  if guard s l then next s l else none

theorem guarded_eq_some {guard : State → Label → Prop} [∀ s l, Decidable (guard s l)]
    {next : State → Label → Option State} {s s' : State} {l : Label} :
    guarded guard next s l = some s' ↔ guard s l ∧ next s l = some s' := by
  simp [guarded]

/-- A schedule of a guarded step function. -/
theorem reachable_restrict_of_guarded {init : State → Prop} {guard : State → Label → Prop}
    [∀ s l, Decidable (guard s l)] {next : State → Label → Option State} {s s' : State}
    {ls : List Label} (hs : init s) (hrun : exec (guarded guard next) s ls = some s') :
    Reachable ((System.ofFn init next).restrict guard) s' := by
  have hreach := reachable_of_exec hs hrun
  clear hrun
  induction hreach with
  | init h => exact .init h
  | step l _ hstep ih => exact .step l ih (guarded_eq_some.mp hstep)

end LTS

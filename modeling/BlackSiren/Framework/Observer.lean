import BlackSiren.Framework.System

/-! # Observers

    An observer reads the log of a system from the beginning and refuses what may
    not stand where it stands.  It is an automaton of its own, so what it accepts
    can be read without the system.

    - `exec_append`, `exec_eq_self`: reading on
    - `Observes`: a state of the observer beside each of the system
    - `Observes.accepts`: the logs of a system that is observed
-/

namespace LTS

variable {State Label Entry Obs : Type*} {next : Obs → Entry → Option Obs}

theorem exec_append (next : Obs → Entry → Option Obs) (o : Obs) (es es' : List Entry) :
    exec next o (es ++ es') = (exec next o es).bind fun o' => exec next o' es' := by
  induction es generalizing o with
  | nil => rfl
  | cons e es ih =>
    show (next o e).bind _ = ((next o e).bind _).bind _
    rw [Option.bind_assoc]
    exact congrArg _ (funext ih)

/-- Entries that change nothing. -/
theorem exec_eq_self {o : Obs} {es : List Entry} (h : ∀ e ∈ es, next o e = some o) :
    exec next o es = some o := by
  induction es with
  | nil => rfl
  | cons e es ih =>
    rw [List.forall_mem_cons] at h
    exact exec_cons_eq_some.mpr ⟨o, h.1, ih h.2⟩

/-- The observer accepts whatever a step adds to the log, and `R` goes on to hold
    between the system and the observer. -/
structure Observes (sys : System State Label) (log : State → List Entry)
    (next : Obs → Entry → Option Obs) (start : Obs) (R : State → Obs → Prop) : Prop where
  init : ∀ s, sys.init s → log s = [] ∧ R s start
  step : ∀ s l s' o, Reachable sys s → R s o → sys.step s l s' →
    ∃ es o', log s' = log s ++ es ∧ exec next o es = some o' ∧ R s' o'

theorem Observes.accepts {sys : System State Label} {log : State → List Entry} {start : Obs}
    {R : State → Obs → Prop} (h : Observes sys log next start R) {s : State}
    (hs : Reachable sys s) : ∃ o, exec next start (log s) = some o ∧ R s o := by
  refine invariant_of_reachable sys (fun s => ∃ o, exec next start (log s) = some o ∧ R s o)
    ?_ ?_ hs
  · intro s hinit
    obtain ⟨hlog, hR⟩ := h.init s hinit
    exact ⟨start, by rw [hlog, exec_nil], hR⟩
  · rintro s l s' hr ⟨o, ho, hR⟩ hstep
    obtain ⟨es, o', hlog, hes, hR'⟩ := h.step s l s' o hr hR hstep
    refine ⟨o', ?_, hR'⟩
    rw [hlog, exec_append, ho]
    exact hes

end LTS

import BlackSiren.Framework.System
import Mathlib.Logic.Function.Basic

/-! # Atomic objects

    Several threads call an object.  It is as good as one for a single thread if
    every operation seems to take effect at once, at some moment between its call and
    its return.  Such an ideal object is a system of its own: `effect` is the moment.

    - `Object`: an object for one thread, whose operations may have to wait
    - `Threads`, `next`, `system`: threads that call it
    - `Linearizable`: the histories of calls and returns such threads can have
    - `Implements`: a system whose steps the ideal object can follow
    - `Implements.follows`, `Implements.linearizable`
-/

namespace Atomic

variable {Pid Op Ret S State Label : Type*}

/-- An object for one thread. An operation that has to wait gives none. -/
structure Object (Op Ret S : Type*) where
  start : S
  apply : S → Op → Option (S × Ret)

/-! ### Threads that call it -/

/-- Where a thread is. -/
inductive Thread (Op Ret : Type*) where
  | idle
  | called (op : Op)
  /-- The operation has taken effect and is to return. -/
  | done (r : Ret)

/-- What is seen of a thread. -/
inductive Entry (Op Ret : Type*) where
  | call (op : Op)
  | ret (r : Ret)
  deriving DecidableEq

inductive Action (Pid Op : Type*) where
  | call (p : Pid) (op : Op)
  | effect (p : Pid)
  | ret (p : Pid)

/-- The object, where its threads are, and what has been seen of them. -/
structure Threads (Pid Op Ret S : Type*) where
  object : S
  thread : Pid → Thread Op Ret
  history : List (Pid × Entry Op Ret)

variable [DecidableEq Pid]

def next (obj : Object Op Ret S) (s : Threads Pid Op Ret S) :
    Action Pid Op → Option (Threads Pid Op Ret S)
  | .call p op =>
      match s.thread p with
      | .idle => some { s with
          thread := Function.update s.thread p (.called op)
          history := s.history ++ [(p, .call op)] }
      | _ => none
  | .effect p =>
      match s.thread p with
      | .called op => (obj.apply s.object op).map fun r => { s with
          object := r.1
          thread := Function.update s.thread p (.done r.2) }
      | _ => none
  | .ret p =>
      match s.thread p with
      | .done r => some { s with
          thread := Function.update s.thread p .idle
          history := s.history ++ [(p, .ret r)] }
      | _ => none

/-- Nobody has called yet. -/
def Threads.new (obj : Object Op Ret S) : Threads Pid Op Ret S := ⟨obj.start, fun _ => .idle, []⟩

def system (Pid : Type*) [DecidableEq Pid] (obj : Object Op Ret S) :
    LTS.System (Threads Pid Op Ret S) (Action Pid Op) :=
  .ofFn (· = .new obj) (next obj)

/-- Threads that call the object can be seen to do this. -/
def Linearizable (obj : Object Op Ret S) (history : List (Pid × Entry Op Ret)) : Prop :=
  ∃ s, LTS.Reachable (system Pid obj) s ∧ s.history = history

/-! ### One action -/

variable {obj : Object Op Ret S} {s : Threads Pid Op Ret S} {p : Pid}

theorem next_call {op : Op} (h : s.thread p = .idle) :
    next obj s (.call p op) = some { s with
      thread := Function.update s.thread p (.called op)
      history := s.history ++ [(p, .call op)] } := by
  simp [next, h]

theorem next_effect {op : Op} {object : S} {r : Ret} (h : s.thread p = .called op)
    (happly : obj.apply s.object op = some (object, r)) :
    next obj s (.effect p) = some { s with
      object := object
      thread := Function.update s.thread p (.done r) } := by
  simp [next, h, happly]

theorem next_ret {r : Ret} (h : s.thread p = .done r) :
    next obj s (.ret p) = some { s with
      thread := Function.update s.thread p .idle
      history := s.history ++ [(p, .ret r)] } := by
  simp [next, h]

/-! ### Implementations -/

/-- Whatever step the system makes, the ideal object has actions that show the same,
    and `R` goes on to hold between the two. -/
structure Implements (sys : LTS.System State Label) (obj : Object Op Ret S)
    (history : State → List (Pid × Entry Op Ret)) (R : State → Threads Pid Op Ret S → Prop) :
    Prop where
  init : ∀ s, sys.init s → R s (.new obj)
  step : ∀ s l s' a, LTS.Reachable sys s → R s a → sys.step s l s' →
    ∃ actions a', LTS.exec (next obj) a actions = some a' ∧ R s' a'
  seen : ∀ s a, R s a → a.history = history s

section

variable {sys : LTS.System State Label} {history : State → List (Pid × Entry Op Ret)}
  {R : State → Threads Pid Op Ret S → Prop}

/-- The ideal object follows every run. -/
theorem Implements.follows (h : Implements sys obj history R) {s : State}
    (hs : LTS.Reachable sys s) : ∃ a, LTS.Reachable (system Pid obj) a ∧ R s a := by
  refine LTS.invariant_of_reachable sys
    (fun s => ∃ a, LTS.Reachable (system Pid obj) a ∧ R s a) ?_ ?_ hs
  · intro s hinit
    exact ⟨.new obj, .init rfl, h.init s hinit⟩
  · intro s l s' hr hfollows hstep
    obtain ⟨a, ha, hR⟩ := hfollows
    obtain ⟨actions, a', hexec, hR'⟩ := h.step s l s' a hr hR hstep
    exact ⟨a', ha.exec hexec, hR'⟩

theorem Implements.linearizable (h : Implements sys obj history R) {s : State}
    (hs : LTS.Reachable sys s) : Linearizable obj (history s) := by
  obtain ⟨a, ha, hR⟩ := h.follows hs
  exact ⟨a, ha, h.seen s a hR⟩

end

end Atomic

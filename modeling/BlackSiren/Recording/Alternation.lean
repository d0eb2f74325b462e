import BlackSiren.Recording.Thread
import Mathlib.Logic.Basic
import Mathlib.Tactic.ByContra

/-! # `start_input` and `stop_input`

    `start_input` is called by the client thread, `stop_input` by the recording
    thread, which knows of starts and stops only what `recordingStart` says when
    it looks.

    - `inputState`: is the input open after these calls, if they alternate
    - `Careful`: a start finds the thread about to sleep, or asleep, and nothing
      but a start wakes it
    - `Tracked`: the flags of the thread tell whether the input is open
-/

open LTS

namespace BlackSiren

namespace RecordingThread

/-! ### Alternating calls -/

/-- One more call: nothing if it is a second `start_input` or `stop_input` in a
    row. A `start_input` that fails opens nothing. -/
def inputNext : Bool → InputCall → Option Bool
  | isOpen, .startInput result =>
      if result = 0 then if isOpen then none else some true else some isOpen
  | isOpen, .stopInput => if isOpen then some false else none
  | isOpen, .readInput => some isOpen
  | isOpen, .onErrInput => some isOpen

/-- Is the input open after the calls? -/
def inputState (calls : List InputCall) : Option Bool := calls.foldlM inputNext false

/-- The successful `start_input` and the `stop_input` calls alternate, beginning
    with `start_input`. -/
def Alternates (s : State) : Prop := inputState s.calls ≠ none

theorem inputState_concat (calls : List InputCall) (c : InputCall) :
    inputState (calls ++ [c]) = (inputState calls).bind fun isOpen => inputNext isOpen c := by
  simp only [inputState, List.foldlM_append, List.foldlM_cons, List.foldlM_nil]
  cases List.foldlM inputNext false calls with
  | none => rfl
  | some isOpen => cases h : inputNext isOpen c <;> simp [h]

/-! ### Careful steps -/

/-- The thread sleeps in `startCond.wait`, or will before it lets go of the lock. -/
def Settled (s : State) : Prop :=
  s.fn = .asleep ∨ s.fn = .blocking ∨ s.fn = .testing ∧ s.first = true

instance (s : State) : Decidable (Settled s) :=
  inferInstanceAs (Decidable (_ ∨ _ ∨ _ ∧ _))

/-- The client only starts and stops streams. -/
def Streaming (_ : State) : Label → Prop
  | .destroy => False
  | _ => True

/-- A start that opens the input finds the thread settled, and the thread does
    not wake up for no reason. -/
def Careful (s : State) : Label → Prop
  | .start result => s.procStreamStart = false → result = 0 → Settled s
  | .spurious => False
  | _ => True

variable (errorRetry : Int)

def streaming : System State Label := (system errorRetry).restrict Streaming

/-! ### What the flags tell -/

/-- While the input is open: the place of the client, `recordingStart` and
    `procStreamStart`. -/
inductive Flags : Client → Bool → Bool → Prop
  | started : Flags .idle true true
  | pausing : Flags .pausing true false
  | stopped : Flags .idle false false

/-- Is the input open, and the place of the client, the place of the thread,
    `first`, `recordingStart` and `procStreamStart`. -/
inductive Phase : Bool → Client → Fn → Bool → Bool → Bool → Prop
  /-- On the way to the first sleep. -/
  | fresh (fn : Fn) (hfn : fn = .top ∨ fn = .entering ∨ fn = .testing ∨ fn = .blocking ∨
      fn = .asleep) : Phase false .idle fn true false false
  /-- The input has been closed. -/
  | closed (fn : Fn) (hfn : fn = .blocking ∨ fn = .asleep) : Phase false .idle fn false false false
  /-- The client has opened the input and not said so yet. -/
  | starting (fn : Fn) (first : Bool)
      (hfn : fn = .asleep ∨ fn = .blocking ∨ fn = .testing ∧ first = true) :
      Phase true .starting fn first false false
  | woken (first : Bool) {client : Client} {rs ps : Bool} (hflags : Flags client rs ps) :
      Phase true client .woken first rs ps
  /-- Not past the loop: what the client does now is seen there. -/
  | outside (fn : Fn) (hfn : fn = .top ∨ fn = .entering ∨ fn = .testing ∨ ∃ len, fn = .handling len)
      {client : Client} {rs ps : Bool} (hflags : Flags client rs ps) :
      Phase true client fn false rs ps
  /-- Past the loop, with the lock: the client cannot pause. -/
  | inside (fn : Fn) (hfn : fn = .leaving ∨ fn = .reading ∨ ∃ len, fn = .readDone len)
      {client : Client} {ps : Bool} (hflags : Flags client true ps) :
      Phase true client fn false true ps

/-- What careful steps keep. -/
structure Tracked (s : State) (isOpen : Bool) : Prop where
  calls : inputState s.calls = some isOpen
  phase : Phase isOpen s.client s.fn s.first s.recordingStart s.procStreamStart
  term : s.recordingTerm = false

theorem tracked_initial : Tracked initial false :=
  ⟨rfl, .fresh _ (.inl rfl), rfl⟩

theorem Tracked.fnStep {s s' : State} {isOpen : Bool} (h : Tracked s isOpen) {len : Int}
    (hstep : fnStep errorRetry s len = some s') : ∃ isOpen', Tracked s' isOpen' := by
  obtain ⟨client, fn, first, inputStart, rs, rt, joinable, currentRetry, ps, calls⟩ := s
  obtain ⟨hcalls, hphase, rfl⟩ := h
  cases hphase with
  | fresh fn hfn =>
    refine ⟨false, ?_⟩
    rcases hfn with rfl | rfl | rfl | rfl | rfl
    · cases hstep; exact ⟨hcalls, .fresh _ (by simp), rfl⟩
    · cases hstep; exact ⟨hcalls, .fresh _ (by simp), rfl⟩
    · cases hstep; exact ⟨hcalls, .fresh _ (by simp), rfl⟩
    · cases hstep; exact ⟨hcalls, .fresh _ (by simp), rfl⟩
    · cases hstep
  | closed fn hfn =>
    refine ⟨false, ?_⟩
    rcases hfn with rfl | rfl
    · cases hstep; exact ⟨hcalls, .closed _ (by simp), rfl⟩
    · cases hstep
  | starting fn first hfn =>
    refine ⟨true, ?_⟩
    rcases hfn with rfl | rfl | ⟨rfl, rfl⟩
    · cases hstep
    · cases hstep; exact ⟨hcalls, .starting _ _ (by simp), rfl⟩
    · cases hstep; exact ⟨hcalls, .starting _ _ (by simp), rfl⟩
  | woken first hflags =>
    cases hstep
    exact ⟨true, hcalls, .outside _ (by simp) hflags, rfl⟩
  | outside fn hfn hflags =>
    rcases hfn with rfl | rfl | rfl | ⟨len', rfl⟩
    · cases hflags <;>
        (cases hstep; exact ⟨true, hcalls, .outside _ (by simp) (by constructor), rfl⟩)
    · cases hstep
      exact ⟨true, hcalls, .outside _ (by simp) hflags, rfl⟩
    · cases hflags with
      | started => cases hstep; exact ⟨true, hcalls, .inside _ (by simp) .started, rfl⟩
      | pausing => cases hstep; exact ⟨true, hcalls, .inside _ (by simp) .pausing, rfl⟩
      | stopped =>
        -- the only place where the input is closed
        cases hstep
        refine ⟨false, ?_, .closed _ (by simp), rfl⟩
        rw [inputState_concat, hcalls]
        rfl
    · simp only [RecordingThread.fnStep] at hstep
      split at hstep
      · split at hstep
        · cases hstep
          refine ⟨true, ?_, .outside _ (by simp) hflags, rfl⟩
          rw [inputState_concat, hcalls]
          rfl
        · cases hstep
          exact ⟨true, hcalls, .outside _ (by simp) hflags, rfl⟩
      · cases hstep
        exact ⟨true, hcalls, .outside _ (by simp) hflags, rfl⟩
  | inside fn hfn hflags =>
    rcases hfn with rfl | rfl | ⟨len', rfl⟩
    · cases hstep
      exact ⟨true, hcalls, .inside _ (by simp) hflags, rfl⟩
    · cases hstep
      refine ⟨true, ?_, .inside _ (by simp) hflags, rfl⟩
      rw [inputState_concat, hcalls]
      rfl
    · cases hstep
      exact ⟨true, hcalls, .outside _ (by simp) hflags, rfl⟩

theorem Tracked.clientStep {s s' : State} {isOpen : Bool} (h : Tracked s isOpen)
    (hstep : clientStep s = some s') : ∃ isOpen', Tracked s' isOpen' := by
  obtain ⟨client, fn, first, inputStart, rs, rt, joinable, currentRetry, ps, calls⟩ := s
  obtain ⟨hcalls, hphase, rfl⟩ := h
  cases hphase with
  | fresh fn hfn => cases hstep
  | closed fn hfn => cases hstep
  | starting fn first hfn =>
    -- the lock is free only once the thread sleeps
    rcases hfn with rfl | rfl | ⟨rfl, rfl⟩
    · cases hstep
      exact ⟨true, hcalls, .woken _ .started, rfl⟩
    · cases hstep
    · cases hstep
  | woken first hflags =>
    cases hflags with
    | started => cases hstep
    | pausing =>
      cases hstep
      exact ⟨true, hcalls, .woken _ .stopped, rfl⟩
    | stopped => cases hstep
  | outside fn hfn hflags =>
    cases hflags with
    | started => cases hstep
    | pausing =>
      rcases hfn with rfl | rfl | rfl | ⟨len', rfl⟩
      · cases hstep; exact ⟨true, hcalls, .outside _ (by simp) .stopped, rfl⟩
      · cases hstep; exact ⟨true, hcalls, .outside _ (by simp) .stopped, rfl⟩
      · cases hstep
      · cases hstep; exact ⟨true, hcalls, .outside _ (by simp) .stopped, rfl⟩
    | stopped => cases hstep
  | inside fn hfn hflags =>
    rcases hfn with rfl | rfl | ⟨len', rfl⟩ <;> cases hflags <;> cases hstep

/-- A start that succeeds finds the thread settled. -/
theorem Tracked.start {s s' : State} {isOpen : Bool} (h : Tracked s isOpen) {result : Int}
    (hsettled : s.procStreamStart = false → result = 0 → Settled s)
    (hstep : next errorRetry s (.start result) = some s') : ∃ isOpen', Tracked s' isOpen' := by
  obtain ⟨client, fn, first, inputStart, rs, rt, joinable, currentRetry, ps, calls⟩ := s
  obtain ⟨hcalls, hphase, rfl⟩ := h
  simp only [next, ne_eq, ite_not] at hstep
  split at hstep
  · next hidle =>
    subst hidle
    split at hstep
    · cases hstep
      exact ⟨isOpen, hcalls, hphase, rfl⟩
    · next hps =>
      simp only [Bool.not_eq_true] at hps
      subst hps
      cases hstep
      by_cases hresult : result = 0
      · subst hresult
        have hset := hsettled rfl rfl
        have hstart : isOpen = false ∧ rs = false := by
          rcases hset with rfl | rfl | ⟨rfl, rfl⟩
          · cases hphase with
            | fresh fn hfn => exact ⟨rfl, rfl⟩
            | closed fn hfn => exact ⟨rfl, rfl⟩
            | outside fn hfn hflags => simp at hfn
            | inside fn hfn hflags => simp at hfn
          · cases hphase with
            | fresh fn hfn => exact ⟨rfl, rfl⟩
            | closed fn hfn => exact ⟨rfl, rfl⟩
            | outside fn hfn hflags => simp at hfn
            | inside fn hfn hflags => simp at hfn
          · cases hphase with
            | fresh fn hfn => exact ⟨rfl, rfl⟩
        obtain ⟨rfl, rfl⟩ := hstart
        refine ⟨true, ?_, .starting fn first hset, rfl⟩
        rw [inputState_concat, hcalls]
        rfl
      · refine ⟨isOpen, ?_, ?_, rfl⟩
        · rw [inputState_concat, hcalls]
          simp [inputNext, hresult]
        · rw [if_neg hresult]
          exact hphase
  · cases hstep

theorem Tracked.stop {s s' : State} {isOpen : Bool} (h : Tracked s isOpen)
    (hstep : next errorRetry s .stop = some s') : ∃ isOpen', Tracked s' isOpen' := by
  obtain ⟨client, fn, first, inputStart, rs, rt, joinable, currentRetry, ps, calls⟩ := s
  obtain ⟨hcalls, hphase, rfl⟩ := h
  cases hphase with
  | fresh fn hfn => cases hstep; exact ⟨_, hcalls, .fresh _ hfn, rfl⟩
  | closed fn hfn => cases hstep; exact ⟨_, hcalls, .closed _ hfn, rfl⟩
  | starting fn first hfn => cases hstep
  | woken first hflags =>
    cases hflags with
    | started => cases hstep; exact ⟨_, hcalls, .woken _ .pausing, rfl⟩
    | pausing => cases hstep
    | stopped => cases hstep; exact ⟨_, hcalls, .woken _ .stopped, rfl⟩
  | outside fn hfn hflags =>
    cases hflags with
    | started => cases hstep; exact ⟨_, hcalls, .outside _ hfn .pausing, rfl⟩
    | pausing => cases hstep
    | stopped => cases hstep; exact ⟨_, hcalls, .outside _ hfn .stopped, rfl⟩
  | inside fn hfn hflags =>
    cases hflags with
    | started => cases hstep; exact ⟨_, hcalls, .inside _ hfn .pausing, rfl⟩
    | pausing => cases hstep

theorem tracked {s : State} (h : Reachable ((streaming errorRetry).restrict Careful) s) :
    ∃ isOpen, Tracked s isOpen := by
  refine invariant _ (fun s => ∃ isOpen, Tracked s isOpen) ?_ ?_ h
  · rintro s rfl
    exact ⟨false, tracked_initial⟩
  · rintro s l s' ⟨isOpen, hs⟩ ⟨hcareful, hstreaming, hstep⟩
    cases l with
    | start result => exact hs.start errorRetry hcareful hstep
    | stop => exact hs.stop errorRetry hstep
    | destroy => exact absurd hstreaming id
    | client => exact hs.clientStep hstep
    | fn len => exact hs.fnStep errorRetry hstep
    | spurious => exact absurd hcareful id

/-! ### Steps that are not careful -/

/-- The client stops the stream and starts it again before the thread looks. -/
theorem not_alternates_of_start {s : State} {isOpen : Bool} (h : Tracked s isOpen)
    (hidle : s.client = .idle) (hps : s.procStreamStart = false) (hset : ¬ Settled s) {s' : State}
    (hstep : (streaming errorRetry).step s (.start 0) s') :
    ∃ s'', Reachable ((streaming errorRetry).startingAt s') s'' ∧ ¬ Alternates s'' := by
  obtain ⟨client, fn, first, inputStart, rs, rt, joinable, currentRetry, ps, calls⟩ := s
  obtain ⟨hcalls, hphase, rfl⟩ := h
  cases hidle
  cases hps
  have hreopen : isOpen = true → inputState (calls ++ [.startInput 0]) = none := by
    rintro rfl
    rw [inputState_concat, hcalls]
    rfl
  obtain ⟨-, hstep⟩ := hstep
  cases hphase with
  | fresh fn hfn =>
    -- the first start comes too early for the thread to forget `first`
    have hearly : fn = .top ∨ fn = .entering := by
      rcases hfn with rfl | rfl | rfl | rfl | rfl
      · exact .inl rfl
      · exact .inr rfl
      · exact absurd (.inr (.inr ⟨rfl, rfl⟩)) hset
      · exact absurd (.inr (.inl rfl)) hset
      · exact absurd (.inl rfl) hset
    have hnone : inputState (calls ++ [.startInput 0] ++ [.startInput 0]) = none := by
      rw [inputState_concat, inputState_concat, hcalls]
      rfl
    cases hstep
    rcases hearly with rfl | rfl
    · refine ⟨_, .step (.start 0) (.step .client (.step .stop (.step .client (.refl _ _)
        ⟨trivial, rfl⟩) ⟨trivial, rfl⟩) ⟨trivial, rfl⟩) ⟨trivial, rfl⟩, ?_⟩
      intro halt
      exact halt hnone
    · refine ⟨_, .step (.start 0) (.step .client (.step .stop (.step .client (.refl _ _)
        ⟨trivial, rfl⟩) ⟨trivial, rfl⟩) ⟨trivial, rfl⟩) ⟨trivial, rfl⟩, ?_⟩
      intro halt
      exact halt hnone
  | closed fn hfn =>
    rcases hfn with rfl | rfl
    · exact absurd (.inr (.inl rfl)) hset
    · exact absurd (.inl rfl) hset
  | woken first hflags =>
    cases hstep
    exact ⟨_, .refl _ _, fun halt => halt (hreopen rfl)⟩
  | outside fn hfn hflags =>
    cases hstep
    exact ⟨_, .refl _ _, fun halt => halt (hreopen rfl)⟩
  | inside fn hfn hflags => cases hflags

/-- The thread closes the input once it has woken up, and once more later. -/
theorem not_alternates_of_spurious {s : State} {isOpen : Bool} (h : Tracked s isOpen) {s' : State}
    (hstep : (streaming errorRetry).step s .spurious s') :
    ∃ s'', Reachable ((streaming errorRetry).startingAt s') s'' ∧ ¬ Alternates s'' := by
  obtain ⟨client, fn, first, inputStart, rs, rt, joinable, currentRetry, ps, calls⟩ := s
  obtain ⟨hcalls, hphase, rfl⟩ := h
  obtain ⟨-, hstep⟩ := hstep
  have hclose : isOpen = false → inputState (calls ++ [.stopInput]) = none := by
    rintro rfl
    rw [inputState_concat, hcalls]
    rfl
  cases hphase with
  | fresh fn hfn =>
    rcases hfn with rfl | rfl | rfl | rfl | rfl
    iterate 4 cases hstep
    cases hstep
    refine ⟨_, .step (.fn 0) (.step (.fn 0) (.refl _ _) ⟨trivial, rfl⟩) ⟨trivial, rfl⟩, ?_⟩
    exact fun halt => halt (hclose rfl)
  | closed fn hfn =>
    rcases hfn with rfl | rfl
    · cases hstep
    · cases hstep
      refine ⟨_, .step (.fn 0) (.step (.fn 0) (.refl _ _) ⟨trivial, rfl⟩) ⟨trivial, rfl⟩, ?_⟩
      exact fun halt => halt (hclose rfl)
  | starting fn first hfn =>
    rcases hfn with rfl | rfl | ⟨rfl, rfl⟩
    · cases hstep
      -- it closes the input that the client has just opened
      have hnone : inputState (calls ++ [.stopInput] ++ [.stopInput]) = none := by
        rw [inputState_concat, inputState_concat, hcalls]
        rfl
      refine ⟨_, .step (.fn 0) (.step (.fn 0) (.step .client (.step .stop (.step .client
        (.step (.fn 0) (.step (.fn 0) (.step (.fn 0) (.refl _ _) ⟨trivial, rfl⟩) ⟨trivial, rfl⟩)
        ⟨trivial, rfl⟩) ⟨trivial, rfl⟩) ⟨trivial, rfl⟩) ⟨trivial, rfl⟩) ⟨trivial, rfl⟩)
        ⟨trivial, rfl⟩, ?_⟩
      exact fun halt => halt hnone
    · cases hstep
    · cases hstep
  | woken first hflags => cases hstep
  | outside fn hfn hflags => rcases hfn with rfl | rfl | rfl | ⟨len, rfl⟩ <;> cases hstep
  | inside fn hfn hflags => rcases hfn with rfl | rfl | ⟨len, rfl⟩ <;> cases hstep

/-- `start_input` and `stop_input` alternate in every run whose steps are careful;
    and from any other step there is a way to go on that breaks it. -/
theorem input_alternates :
    (∀ s, Reachable ((streaming errorRetry).restrict Careful) s → Alternates s) ∧
    (∀ s l s', Reachable ((streaming errorRetry).restrict Careful) s →
      (streaming errorRetry).step s l s' → ¬ Careful s l →
      ∃ s'', Reachable ((streaming errorRetry).startingAt s') s'' ∧ ¬ Alternates s'') := by
  refine ⟨?_, ?_⟩
  · intro s h
    obtain ⟨isOpen, hs⟩ := tracked errorRetry h
    intro hnone
    rw [hs.calls] at hnone
    cases hnone
  · intro s l s' h hstep hcareful
    obtain ⟨isOpen, hs⟩ := tracked errorRetry h
    cases l with
    | start result =>
      simp only [Careful, not_forall, exists_prop] at hcareful
      obtain ⟨hps, rfl, hset⟩ := hcareful
      have hidle : s.client = .idle := by
        by_contra hne
        obtain ⟨-, hstep⟩ := hstep
        have hnext : next errorRetry s (.start 0) = some s' := hstep
        simp only [next, if_pos hne] at hnext
        cases hnext
      exact not_alternates_of_start errorRetry hs hidle hps hset hstep
    | spurious => exact not_alternates_of_spurious errorRetry hs hstep
    | destroy => exact absurd hstep.1 id
    | _ => exact absurd trivial hcareful

/-- A stream is stopped and started again before the thread, which is reading,
    has looked at the flag. -/
def restarted : List Label :=
  [.fn 0, .fn 0, .fn 0, .fn 0, .start 0, .client, .fn 0, .fn 0, .fn 0, .fn 0, .fn 0, .stop,
    .client, .start 0]

/-- `start_input` may be called twice with no `stop_input` in between. -/
theorem not_input_alternates :
    ¬ ∀ (errorRetry : Int) (s : State), Reachable (streaming errorRetry) s → Alternates s := by
  intro h
  have hrun : (exec (next 0) initial restarted).map State.calls =
      some [.startInput 0, .readInput, .startInput 0] := by decide
  obtain ⟨s, hs, hcalls⟩ := Option.map_eq_some_iff.mp hrun
  have hreach : Reachable (streaming 0) s := by
    show Reachable ((System.ofFn (· = initial) (next 0)).restrict Streaming) s
    refine reachable_restrict_of_exec rfl hs ?_
    have hall : ∀ l ∈ restarted, l ≠ .destroy := by decide
    intro l hl _
    cases l with
    | destroy => exact absurd rfl (hall _ hl)
    | _ => exact trivial
  apply h 0 s hreach
  rw [hcalls]
  decide

end RecordingThread

end BlackSiren

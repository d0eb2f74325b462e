/-! # Objects

    An object is a state with a function that answers calls.  A call gives a new
    state and an answer, or a fault, after which nothing more is called.

    - `run`: a sequence of calls that all return
    - `observe`: what the caller of any sequence sees
    - `Along`: a condition on the calls, each in the state it finds
    - `run_invariant`: what every call keeps
    - `exists_run`: runs of calls that return
    - `along_imp` and `along_iff`: conditions compared under an invariant
    - `observe_eq`: two objects in lockstep cannot be told apart
    - `returns_iff_of_observe`: objects that cannot be told apart return alike
-/

namespace Objects

variable {State State' Call Answer Fault : Type}

/-- The state and the answers after a sequence of calls. -/
def run (call : State → Call → Except Fault (State × Answer)) :
    State → List Call → Except Fault (State × List Answer)
  | s, [] => .ok (s, [])
  | s, c :: cs =>
      match call s c with
      | .error e => .error e
      | .ok (s, a) =>
          match run call s cs with
          | .error e => .error e
          | .ok (s, as) => .ok (s, a :: as)

/-- The answers of a sequence of calls, the last of which may be a fault. -/
def observe (call : State → Call → Except Fault (State × Answer)) :
    State → List Call → List (Except Fault Answer)
  | _, [] => []
  | s, c :: cs =>
      match call s c with
      | .error e => [.error e]
      | .ok (s, a) => .ok a :: observe call s cs

/-- Every call of a run meets a condition, as long as they return. -/
def Along (call : State → Call → Except Fault (State × Answer)) (P : State → Call → Prop) :
    State → List Call → Prop
  | _, [] => True
  | s, c :: cs => P s c ∧ ∀ s' a, call s c = .ok (s', a) → Along call P s' cs

variable {call : State → Call → Except Fault (State × Answer)}

/-! ### Runs -/

@[simp] theorem run_nil (s : State) : run call s [] = .ok (s, []) := rfl

theorem run_cons_eq_ok {s s' : State} {c : Call} {cs : List Call} {answers : List Answer} :
    run call s (c :: cs) = .ok (s', answers) ↔
      ∃ s₁ a as, call s c = .ok (s₁, a) ∧ run call s₁ cs = .ok (s', as) ∧ answers = a :: as := by
  constructor
  · intro h
    simp only [run] at h
    cases hc : call s c with
    | error e =>
      rw [hc] at h
      cases h
    | ok r =>
      rw [hc] at h
      cases hr : run call r.1 cs with
      | error e => simp only [hr] at h; cases h
      | ok r' =>
        simp only [hr, Except.ok.injEq, Prod.mk.injEq] at h
        exact ⟨r.1, r.2, r'.2, rfl, by rw [hr, ← h.1], h.2.symm⟩
  · rintro ⟨s₁, a, as, hc, hr, rfl⟩
    simp only [run, hc, hr]

/-- A run is a run and another one from where it ends. -/
theorem run_append_eq_ok {s s' : State} {cs cs' : List Call} {answers : List Answer} :
    run call s (cs ++ cs') = .ok (s', answers) ↔
      ∃ s₁ as as', run call s cs = .ok (s₁, as) ∧ run call s₁ cs' = .ok (s', as') ∧
        answers = as ++ as' := by
  induction cs generalizing s answers with
  | nil =>
    constructor
    · intro h
      exact ⟨s, [], answers, rfl, h, rfl⟩
    · rintro ⟨s₁, as, as', h, h', rfl⟩
      cases h
      exact h'
  | cons c cs ih =>
    rw [List.cons_append, run_cons_eq_ok]
    constructor
    · rintro ⟨s₁, a, as, hc, hr, rfl⟩
      obtain ⟨s₂, bs, bs', h, h', rfl⟩ := ih.mp hr
      exact ⟨s₂, a :: bs, bs', run_cons_eq_ok.mpr ⟨s₁, a, bs, hc, h, rfl⟩, h', rfl⟩
    · rintro ⟨s₂, as, as', h, h', rfl⟩
      obtain ⟨s₁, a, bs, hc, hr, rfl⟩ := run_cons_eq_ok.mp h
      exact ⟨s₁, a, bs ++ as', hc, ih.mpr ⟨s₂, bs, as', hr, h', rfl⟩, rfl⟩

/-- One more call at the end of a run. -/
theorem run_concat_eq_ok {s s' : State} {c : Call} {cs : List Call} {answers : List Answer} :
    run call s (cs ++ [c]) = .ok (s', answers) ↔
      ∃ s₁ as a, run call s cs = .ok (s₁, as) ∧ call s₁ c = .ok (s', a) ∧
        answers = as ++ [a] := by
  rw [run_append_eq_ok]
  constructor
  · rintro ⟨s₁, as, as', h, h', rfl⟩
    obtain ⟨s₂, a, bs, hc, hr, rfl⟩ := run_cons_eq_ok.mp h'
    cases hr
    exact ⟨s₁, as, a, h, hc, rfl⟩
  · rintro ⟨s₁, as, a, h, hc, rfl⟩
    exact ⟨s₁, as, [a], h, run_cons_eq_ok.mpr ⟨s', a, [], hc, rfl, rfl⟩, rfl⟩

/-- What every call keeps holds along every run. -/
theorem run_invariant (inv : State → Prop)
    (hcall : ∀ s c s' a, inv s → call s c = .ok (s', a) → inv s')
    {s s' : State} {cs : List Call} {answers : List Answer}
    (hs : inv s) (h : run call s cs = .ok (s', answers)) : inv s' := by
  induction cs generalizing s answers with
  | nil =>
    cases h
    exact hs
  | cons c cs ih =>
    obtain ⟨s₁, a, as, hc, hr, rfl⟩ := run_cons_eq_ok.mp h
    exact ih (hcall s c s₁ a hs hc) hr

/-- If every call that meets a condition returns, and keeps what the state has to
    do with the calls and answers so far, then so does a run of such calls. -/
theorem exists_run {P : State → Call → Prop} (inv : List Call → List Answer → State → Prop)
    (hcall : ∀ cs as s c, inv cs as s → P s c →
      ∃ s' a, call s c = .ok (s', a) ∧ inv (cs ++ [c]) (as ++ [a]) s')
    {s : State} (hs : inv [] [] s) {cs : List Call} (hP : Along call P s cs) :
    ∃ s' as, run call s cs = .ok (s', as) ∧ inv cs as s' := by
  have hfrom : ∀ cs₀ as₀ s, inv cs₀ as₀ s → ∀ cs, Along call P s cs →
      ∃ s' as, run call s cs = .ok (s', as) ∧ inv (cs₀ ++ cs) (as₀ ++ as) s' := by
    intro cs₀ as₀ s hs cs hP
    induction cs generalizing cs₀ as₀ s with
    | nil =>
      refine ⟨s, [], rfl, ?_⟩
      rw [List.append_nil, List.append_nil]
      exact hs
    | cons c cs ih =>
      obtain ⟨hc, hrest⟩ := hP
      obtain ⟨s₁, a, hcall₁, hs₁⟩ := hcall cs₀ as₀ s c hs hc
      obtain ⟨s', as, hrun, hinv⟩ := ih _ _ s₁ hs₁ (hrest s₁ a hcall₁)
      rw [List.append_assoc, List.append_assoc] at hinv
      exact ⟨s', a :: as, run_cons_eq_ok.mpr ⟨s₁, a, as, hcall₁, hrun, rfl⟩, hinv⟩
  exact hfrom [] [] s hs cs hP

/-- A condition on every state and call holds along every run. -/
theorem along_of_forall {P : State → Call → Prop} {s : State} {cs : List Call}
    (h : ∀ s, ∀ c ∈ cs, P s c) : Along call P s cs := by
  induction cs generalizing s with
  | nil => trivial
  | cons c cs ih =>
    refine ⟨h s c List.mem_cons_self, ?_⟩
    intro s' _ _
    exact ih fun s d hd => h s d (List.mem_cons_of_mem c hd)

/-- A condition on calls that implies another one wherever an invariant holds,
    which the calls that meet it keep. -/
theorem along_imp {P Q : State → Call → Prop} (inv : State → Prop)
    (himp : ∀ s c, inv s → P s c → Q s c)
    (hcall : ∀ s c s' a, inv s → P s c → call s c = .ok (s', a) → inv s')
    {s : State} (hs : inv s) {cs : List Call} (h : Along call P s cs) : Along call Q s cs := by
  induction cs generalizing s with
  | nil => trivial
  | cons c cs ih =>
    obtain ⟨hP, hrest⟩ := h
    refine ⟨himp s c hs hP, ?_⟩
    intro s' a hc
    exact ih (hcall s c s' a hs hP hc) (hrest s' a hc)

/-- Two conditions on calls that agree wherever an invariant holds, which the
    calls that meet them keep. -/
theorem along_iff {P Q : State → Call → Prop} (inv : State → Prop)
    (hiff : ∀ s c, inv s → (P s c ↔ Q s c))
    (hcall : ∀ s c s' a, inv s → Q s c → call s c = .ok (s', a) → inv s')
    {s : State} (hs : inv s) {cs : List Call} : Along call P s cs ↔ Along call Q s cs := by
  constructor
  · apply along_imp inv (fun s c hs => (hiff s c hs).mp) ?_ hs
    intro s c s' a hs hP
    exact hcall s c s' a hs ((hiff s c hs).mp hP)
  · exact along_imp inv (fun s c hs => (hiff s c hs).mpr) hcall hs

/-! ### Lockstep -/

/-- Two outcomes of one call: the same fault, or the same answer and related
    states. -/
inductive Agree (R : State → State' → Prop) :
    Except Fault (State × Answer) → Except Fault (State' × Answer) → Prop where
  | fault (e : Fault) : Agree R (.error e) (.error e)
  | answer {s : State} {s' : State'} (a : Answer) (h : R s s') : Agree R (.ok (s, a)) (.ok (s', a))

/-- Objects whose states stay related by calls that agree, as long as the calls
    meet a condition. -/
theorem observe_eq {call' : State' → Call → Except Fault (State' × Answer)}
    (R : State → State' → Prop) (P : State → Call → Prop)
    (hcall : ∀ s s' c, R s s' → P s c → Agree R (call s c) (call' s' c))
    {s : State} {s' : State'} (hs : R s s') {cs : List Call} (hP : Along call P s cs) :
    observe call s cs = observe call' s' cs := by
  induction cs generalizing s s' with
  | nil => rfl
  | cons c cs ih =>
    obtain ⟨hc, hrest⟩ := hP
    have hagree := hcall s s' c hs hc
    simp only [observe]
    -- both calls fail alike, or both answer and leave states that are related
    generalize call s c = r at hagree hrest ⊢
    generalize call' s' c = r' at hagree ⊢
    cases hagree with
    | fault e => rfl
    | answer a h => exact congrArg _ (ih h (hrest _ a rfl))

/-- What the caller sees of one call includes whether it returns. -/
theorem returns_iff_of_observe {call' : State' → Call → Except Fault (State' × Answer)}
    {s : State} {s' : State'} {c : Call} (h : observe call s [c] = observe call' s' [c]) :
    (∃ r, call s c = .ok r) ↔ ∃ r, call' s' c = .ok r := by
  simp only [observe] at h
  cases hr : call s c with
  | error e =>
    cases hr' : call' s' c with
    | error e' =>
      constructor
      · rintro ⟨_, hok⟩
        cases hok
      · rintro ⟨_, hok⟩
        cases hok
    | ok r' =>
      rw [hr, hr'] at h
      cases h
  | ok r =>
    cases hr' : call' s' c with
    | error e' =>
      rw [hr, hr'] at h
      cases h
    | ok r' => exact ⟨fun _ => ⟨r', rfl⟩, fun _ => ⟨r, rfl⟩⟩

end Objects

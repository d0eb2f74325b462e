import BlackSiren.Service.Base

/-! # The last message

    On a request to destroy, the response thread of the base pushes a package
    that ends the process thread and writes `ON_DESTROY`, which ends the response
    thread of the proxy.  Nothing makes it wait for what the process thread has
    still to do.

    - `Quiet`: the process thread has nothing to write before it ends
    - `Careful`: `ON_DESTROY` is written when it is quiet
    - `on_destroy_last`: then, and only then, is `ON_DESTROY` sure to be the last
      message
-/

open LTS

namespace BlackSiren

namespace OnDestroy

open Base (Package Response ResponseThread ProcessThread)

/-- The base, and the response channel up to the response thread of the proxy.  A write
    completes at once; `bounded` of `BlackSiren.Service.Shutdown` has those that wait. -/
structure State where
  base : Base.State
  channel : List Response
  /-- What `SirenProxy::responseThreadHandler` has read. -/
  received : List Response
  deriving DecidableEq

inductive Label where
  | base (l : Base.Label)
  | receive

def initial : State where
  base := Base.initial
  channel := []
  received := []

def next (s : State) : Label → Option State
  | .base l => (Base.next s.base l).map fun r =>
      { s with base := r.1, channel := s.channel ++ r.2 }
  | .receive =>
      -- the thread exits on `ON_DESTROY`
      if .onDestroy ∈ s.received then none
      else match s.channel with
        | m :: rest => some { s with channel := rest, received := s.received ++ [m] }
        | [] => none

def system : System State Label := .ofFn (· = initial) next

/-- All messages the base has written. -/
def State.written (s : State) : List Response := s.received ++ s.channel

/-- Nothing has been written after `ON_DESTROY`. -/
def Last (s : State) : Prop :=
  ∀ before after, s.written = before ++ .onDestroy :: after → after = []

/-! ### Quiet -/

/-- The package gives no message. -/
def silent : Package → Bool
  | .setSteer => true
  | .syncVtWordList => true
  | _ => false

/-- What the process thread takes before it ends. -/
def ahead (q : List Package) : List Package := q.takeWhile (· ≠ .destroy)

/-- The process thread has ended, or it has nothing in hand and nothing ahead of
    the package that ends it will give a message. -/
def Quiet (b : Base.State) : Prop :=
  b.process = .exited ∨ b.process = .popping ∧ ∀ p ∈ ahead b.processQueue, silent p = true

/-- The package that ends the process thread is on its way, or has arrived. -/
def Ending (b : Base.State) : Prop := b.process = .exited ∨ .destroy ∈ b.processQueue

/-- The process thread is quiet when `ON_DESTROY` is written, and the queue does
    not overflow once the process thread has been told to end. -/
def Careful (s : State) : Label → Prop
  | .base .response => s.base.response = .writing → Quiet s.base
  | .base (.overflow _) => s.base.response = .polling ∨ s.base.response = .pushing
  | _ => True

theorem ahead_append_of_mem {q : List Package} (h : .destroy ∈ q) (rest : List Package) :
    ahead (q ++ rest) = ahead q := by
  induction q with
  | nil => cases h
  | cons p q ih =>
    by_cases hp : p = .destroy
    · simp [ahead, hp]
    · have hmem : .destroy ∈ q := by
        rcases List.mem_cons.mp h with heq | hmem
        · exact absurd heq.symm hp
        · exact hmem
      have := ih hmem
      simp_all [ahead]

/-- More packages change nothing for a process thread that is told to end. -/
theorem Quiet.append {b : Base.State} (h : Quiet b) (hend : Ending b) (rest : List Package)
    {b' : Base.State} (hprocess : b'.process = b.process)
    (hqueue : b'.processQueue = b.processQueue ++ rest) : Quiet b' := by
  rcases h with hexited | ⟨hpopping, hsilent⟩
  · exact .inl (hprocess.trans hexited)
  · rcases hend with hexited | hmem
    · exact .inl (hprocess.trans hexited)
    · refine .inr ⟨hprocess.trans hpopping, ?_⟩
      rw [hqueue, ahead_append_of_mem hmem]
      exact hsilent

/-! ### Once the process thread has been told to end -/

theorem Ending.step {b b' : Base.State} {l : Base.Label} {out : List Response} (h : Ending b)
    (hstep : Base.Step b l b' out) (hoverflow : ∀ q, l ≠ .overflow q) : Ending b' := by
  have happend : ∀ rest, Ending { b with processQueue := b.processQueue ++ rest } := by
    intro rest
    exact h.imp id fun hmem => List.mem_append_left rest hmem
  cases hstep with
  | request r hpolling =>
    cases r with
    | startProcessStream | stopProcessStream | destroy => exact h
    | setState | setSteer | syncVtWordList => exact happend _
  | pushDestroy hresponse => exact happend _
  | pushFrame hmain => exact happend _
  | pop props p rest hprocess hqueue =>
    rcases h with hexited | hmem
    · rw [hprocess] at hexited
      cases hexited
    · -- the thread comes to the package that ends it, or it is still to come
      rw [hqueue] at hmem
      rcases List.mem_cons.mp hmem with rfl | hmem
      · exact .inl rfl
      · exact .inr hmem
  | write props m ms hprocess =>
    rcases h with hexited | hmem
    · rw [hprocess] at hexited
      cases hexited
    · exact .inr hmem
  | overflow q hqueue => exact absurd rfl (hoverflow q)
  | writeDestroy | storeExit | notify | main | read | preprocess => exact h

theorem Quiet.step {b b' : Base.State} {l : Base.Label} {out : List Response} (h : Quiet b)
    (hend : Ending b) (hstep : Base.Step b l b' out) (hoverflow : ∀ q, l ≠ .overflow q) :
    Quiet b' := by
  cases hstep with
  | request r hpolling =>
    cases r with
    | startProcessStream | stopProcessStream | destroy => exact h
    | setState | setSteer | syncVtWordList => exact h.append hend _ rfl rfl
  | pushDestroy hresponse => exact h.append hend _ rfl rfl
  | pushFrame hmain => exact h.append hend _ rfl rfl
  | pop props p rest hprocess hqueue =>
    rcases h with hexited | ⟨-, hsilent⟩
    · rw [hprocess] at hexited
      cases hexited
    · rw [hqueue] at hsilent
      cases p with
      | destroy => exact .inl rfl
      | setSteer | syncVtWordList =>
        refine .inr ⟨rfl, fun p hp => hsilent p ?_⟩
        simp only [ahead, List.takeWhile_cons]
        exact List.mem_cons_of_mem _ hp
      -- it would have been ahead
      | dataProcess =>
        have := hsilent .dataProcess (by simp [ahead])
        cases this
      | setState state =>
        have := hsilent (.setState state) (by simp [ahead])
        cases this
  | write props m ms hprocess =>
    rcases h with hexited | ⟨hpopping, -⟩
    · rw [hprocess] at hexited
      cases hexited
    · rw [hprocess] at hpopping
      cases hpopping
  | overflow q hqueue => exact absurd rfl (hoverflow q)
  | writeDestroy | storeExit | notify | main | read | preprocess => exact h

/-- A quiet base writes nothing but `ON_DESTROY`. -/
theorem Quiet.out {b b' : Base.State} {l : Base.Label} {out : List Response} (h : Quiet b)
    (hstep : Base.Step b l b' out) (hresponse : b.response ≠ .writing) : out = [] := by
  cases hstep with
  | writeDestroy hwriting => exact absurd hwriting hresponse
  | write props m ms hprocess =>
    rcases h with hexited | ⟨hpopping, -⟩
    · rw [hprocess] at hexited
      cases hexited
    · rw [hprocess] at hpopping
      cases hpopping
  | _ => rfl

/-! ### Careful runs -/

/-- The package that ends the process thread has been pushed. -/
def pushed : ResponseThread → Bool
  | .polling => false
  | .pushing => false
  | _ => true

/-- `ON_DESTROY` has been written. -/
def wrote : ResponseThread → Bool
  | .polling => false
  | .pushing => false
  | .writing => false
  | _ => true

/-- What careful steps keep, of the base and of all it has written. -/
structure Inv (b : Base.State) (written : List Response) : Prop where
  hand : ∀ m ms, b.process = .writing m ms → .onDestroy ∉ m :: ms
  before : wrote b.response = false → .onDestroy ∉ written
  ending : pushed b.response = true → Ending b
  quiet : wrote b.response = true → Quiet b
  last : wrote b.response = true → ∃ before, written = before ++ [.onDestroy] ∧ .onDestroy ∉ before

theorem onDestroy_not_mem_hand {p : Package} {props : List Int} {m : Response} {ms : List Response}
    (h : p.handle props = .writing m ms) : .onDestroy ∉ m :: ms := by
  cases p with
  | dataProcess =>
    cases props with
    | nil => cases h
    | cons prop props =>
      cases h
      simp
  | setState state =>
    cases h
    simp
  | setSteer | syncVtWordList | destroy => cases h

theorem hand_step {b b' : Base.State} {l : Base.Label} {out : List Response}
    (h : ∀ m ms, b.process = .writing m ms → .onDestroy ∉ m :: ms) (hstep : Base.Step b l b' out) :
    ∀ m ms, b'.process = .writing m ms → .onDestroy ∉ m :: ms := by
  cases hstep with
  | request r hpolling => cases r <;> exact h
  | pop props p rest hprocess hqueue =>
    intro m ms hms
    exact onDestroy_not_mem_hand hms
  | write props m ms hprocess =>
    intro m' ms' hms'
    have hmem := h _ _ hprocess
    cases ms with
    | nil => cases hms'
    | cons m' ms =>
      cases hms'
      exact fun hin => hmem (List.mem_cons_of_mem _ hin)
  | _ => exact h

theorem onDestroy_not_mem_out {b b' : Base.State} {l : Base.Label} {out : List Response}
    (h : ∀ m ms, b.process = .writing m ms → .onDestroy ∉ m :: ms) (hstep : Base.Step b l b' out)
    (hl : l ≠ .response) : .onDestroy ∉ out := by
  cases hstep with
  | writeDestroy hresponse => exact absurd rfl hl
  | write props m ms hprocess =>
    intro hmem
    rw [List.mem_singleton] at hmem
    exact h _ _ hprocess (hmem ▸ List.mem_cons_self)
  | _ => exact List.not_mem_nil

theorem pushed_of_wrote {response : ResponseThread} (h : wrote response = true) :
    pushed response = true := by
  cases response <;> simp_all [wrote, pushed]

/-- A step of the main or the process thread, or a request. -/
theorem Inv.other {b b' : Base.State} {l : Base.Label} {out written : List Response}
    (h : Inv b written) (hstep : Base.Step b l b' out) (hl : l ≠ .response)
    (hoverflow : ∀ q, l ≠ .overflow q) (hresponse : b'.response = b.response) :
    Inv b' (written ++ out) := by
  have hout := onDestroy_not_mem_out h.hand hstep hl
  refine ⟨hand_step h.hand hstep, ?_, ?_, ?_, ?_⟩
  · intro hwrote
    rw [hresponse] at hwrote
    simpa [hout] using h.before hwrote
  · intro hpushed
    rw [hresponse] at hpushed
    exact (h.ending hpushed).step hstep hoverflow
  · intro hwrote
    rw [hresponse] at hwrote
    exact (h.quiet hwrote).step (h.ending (pushed_of_wrote hwrote)) hstep hoverflow
  · intro hwrote
    rw [hresponse] at hwrote
    have hne : b.response ≠ .writing := by
      intro heq
      rw [heq] at hwrote
      cases hwrote
    rw [(h.quiet hwrote).out hstep hne, List.append_nil]
    exact h.last hwrote

/-- A step that leaves the base before its push. -/
theorem Inv.unpushed {b b' : Base.State} {l : Base.Label} {written : List Response}
    (h : Inv b written) (hstep : Base.Step b l b' []) (hpushed : pushed b.response = false)
    (hpushed' : pushed b'.response = false) : Inv b' (written ++ []) := by
  have hwrote : wrote b.response = false := by
    cases hw : wrote b.response with
    | false => rfl
    | true => rw [pushed_of_wrote hw] at hpushed; cases hpushed
  refine ⟨hand_step h.hand hstep, ?_, ?_, ?_, ?_⟩
  · intro _
    rw [List.append_nil]
    exact h.before hwrote
  · intro hp
    rw [hp] at hpushed'
    cases hpushed'
  all_goals
    intro hw
    rw [pushed_of_wrote hw] at hpushed'
    cases hpushed'

theorem Inv.step {b b' : Base.State} {l : Base.Label} {out written : List Response}
    (h : Inv b written) (hstep : Base.Step b l b' out)
    (hquiet : b.response = .writing → l = .response → Quiet b)
    (hoverflow : ∀ q, l = .overflow q → pushed b.response = false) : Inv b' (written ++ out) := by
  have hhand := hand_step h.hand hstep
  cases hstep with
  | request r hpolling =>
    refine h.unpushed (.request r hpolling) (by rw [hpolling]; rfl) ?_
    cases r with
    | destroy => rfl
    | _ => show pushed b.response = false; rw [hpolling]; rfl
  | pushDestroy hresponse =>
    refine ⟨hhand, ?_, ?_, ?_, ?_⟩
    · intro _
      rw [List.append_nil]
      exact h.before (by rw [hresponse]; rfl)
    · intro _
      exact .inr (by simp)
    all_goals
      intro hwrote
      cases hwrote
  | writeDestroy hresponse =>
    refine ⟨hhand, ?_, ?_, ?_, ?_⟩
    · intro hwrote
      cases hwrote
    · intro _
      exact h.ending (by rw [hresponse]; rfl)
    · intro _
      -- the hypothesis: nothing is on its way to the channel
      exact hquiet hresponse rfl
    · intro _
      exact ⟨written, rfl, h.before (by rw [hresponse]; rfl)⟩
  | storeExit hresponse | notify hresponse =>
    have hwrote : wrote b.response = true := by rw [hresponse]; rfl
    refine ⟨hhand, ?_, ?_, ?_, ?_⟩
    · intro hnot
      cases hnot
    · intro _
      exact h.ending (pushed_of_wrote hwrote)
    · intro _
      exact h.quiet hwrote
    · intro _
      rw [List.append_nil]
      exact h.last hwrote
  | overflow q hqueue =>
    exact h.unpushed (.overflow q hqueue) (hoverflow q rfl) (hoverflow q rfl)
  | main l main hmoves =>
    refine h.other (.main l main hmoves) ?_ ?_ rfl
    · cases hmoves <;> simp
    · cases hmoves <;> simp
  | read status hmain hstatus => exact h.other (.read status hmain hstatus) (by simp) (by simp) rfl
  | preprocess hmain => exact h.other (.preprocess hmain) (by simp) (by simp) rfl
  | pushFrame hmain => exact h.other (.pushFrame hmain) (by simp) (by simp) rfl
  | pop props p rest hprocess hqueue =>
    exact h.other (.pop props p rest hprocess hqueue) (by simp) (by simp) rfl
  | write props m ms hprocess =>
    exact h.other (.write props m ms hprocess) (by simp) (by simp) rfl

/-- What is between the base and the proxy changes hands and nothing more. -/
theorem written_of_next {s s' : State} {l : Label} (h : next s l = some s') :
    (∃ lb out, l = .base lb ∧ Base.Step s.base lb s'.base out ∧ s'.written = s.written ++ out ∧
      s'.received = s.received) ∨
    (l = .receive ∧ s'.base = s.base ∧ s'.written = s.written) := by
  cases l with
  | base lb =>
    obtain ⟨⟨b, out⟩, hb, rfl⟩ := Option.map_eq_some_iff.mp h
    refine .inl ⟨lb, out, rfl, Base.step_cases hb, ?_, rfl⟩
    simp [State.written]
  | receive =>
    simp only [next] at h
    split at h
    · cases h
    · split at h
      · next m rest hchannel =>
        cases h
        refine .inr ⟨rfl, rfl, ?_⟩
        simp [State.written, hchannel]
      · cases h

theorem inv {s : State} (h : Reachable (system.restrict Careful) s) : Inv s.base s.written := by
  refine invariant (system.restrict Careful) (fun s => Inv s.base s.written) ?_ ?_ h
  · rintro s rfl
    refine ⟨?_, ?_, ?_, ?_, ?_⟩
    · intro m ms hms
      cases hms
    · intro _
      exact List.not_mem_nil
    all_goals
      intro hnot
      cases hnot
  · rintro s l s' hs ⟨hcareful, hstep⟩
    rcases written_of_next hstep with ⟨lb, out, rfl, hbase, hwritten, -⟩ | ⟨rfl, hbase, hwritten⟩
    · rw [hwritten]
      refine hs.step hbase ?_ ?_
      · rintro hresponse rfl
        exact hcareful hresponse
      · rintro q rfl
        rcases hcareful with heq | heq
        all_goals rw [heq]; rfl
    · rw [hbase, hwritten]
      exact hs

/-! ### The last message -/

theorem last_of_inv {s : State} (h : Inv s.base s.written) : Last s := by
  intro before after heq
  cases hwrote : wrote s.base.response with
  | false =>
    have hnot := h.before hwrote
    rw [heq] at hnot
    exact absurd (by simp) hnot
  | true =>
    obtain ⟨before', hlast, hnot⟩ := h.last hwrote
    rw [hlast] at heq
    rcases List.append_eq_append_iff.mp heq with ⟨mid, rfl, hmid⟩ | ⟨mid, rfl, hmid⟩
    · cases mid with
      | nil => simpa using hmid.symm
      | cons m mid => simp at hmid
    · cases mid with
      | nil => simpa using hmid
      | cons m mid =>
        simp only [List.cons_append, List.cons.injEq] at hmid
        rw [← hmid.1] at hnot
        exact absurd (by simp) hnot

/-- When the response thread of the proxy has read `ON_DESTROY`, it has read all
    there is. -/
theorem received_of_last {s : State} (h : Last s) (hread : .onDestroy ∈ s.received) :
    s.received = s.written := by
  obtain ⟨before, after, heq⟩ := List.append_of_mem hread
  have hnil : after ++ s.channel = [] := by
    apply h before
    simp [State.written, heq]
  simp [State.written, (List.append_eq_nil_iff.mp hnil).2]

theorem not_last_of_concat {s : State} {written : List Response} {m : Response}
    (hmem : .onDestroy ∈ written) (hwritten : s.written = written ++ [m]) : ¬ Last s := by
  intro hlast
  obtain ⟨before, after, rfl⟩ := List.append_of_mem hmem
  have hnil := hlast before (after ++ [m]) (by simp [hwritten])
  simp at hnil

/-- The process thread writes what it has in hand. -/
theorem not_last_of_writing {s : State} (hmem : .onDestroy ∈ s.written) {m : Response}
    {ms : List Response} (hprocess : s.base.process = .writing m ms) :
    ∃ s', Reachable (system.startingAt s) s' ∧ ¬ Last s' := by
  have hstep : system.step s (.base (.process [])) { s with
      base := { s.base with process := .of ms }, channel := s.channel ++ [m] } := by
    show next s _ = _
    simp [next, Base.next, hprocess]
  refine ⟨_, .step _ (.refl _ _) hstep, ?_⟩
  apply not_last_of_concat (m := m) hmem
  simp [State.written]

/-- It takes the packages ahead of the one that ends it, up to one that gives a
    message. -/
theorem not_last_of_ahead {q : List Package} {s : State} (hmem : .onDestroy ∈ s.written)
    (hprocess : s.base.process = .popping) (hqueue : s.base.processQueue = q)
    (hloud : ∃ p ∈ ahead q, silent p = false) :
    ∃ s', Reachable (system.startingAt s) s' ∧ ¬ Last s' := by
  induction q generalizing s with
  | nil =>
    obtain ⟨p, hp, -⟩ := hloud
    cases hp
  | cons p q ih =>
    have hstep : system.step s (.base (.process [0])) { s with
        base := { s.base with process := p.handle [0], processQueue := q } } := by
      show next s _ = _
      simp [next, Base.next, hprocess, hqueue]
    -- a package that gives a message
    have hwrites : ∀ m ms, p.handle [0] = .writing m ms →
        ∃ s', Reachable (system.startingAt s) s' ∧ ¬ Last s' := by
      intro m ms hhandle
      obtain ⟨s', hs', hnot⟩ := not_last_of_writing
        (s := { s with base := { s.base with process := p.handle [0], processQueue := q } })
        hmem hhandle
      exact ⟨s', hs'.head _ hstep, hnot⟩
    -- a silent package leads to the next one
    have hgoes : p.handle [0] = .popping → (∃ p ∈ ahead q, silent p = false) →
        ∃ s', Reachable (system.startingAt s) s' ∧ ¬ Last s' := by
      intro hhandle hrest
      obtain ⟨s', hs', hnot⟩ := ih
        (s := { s with base := { s.base with process := p.handle [0], processQueue := q } })
        hmem hhandle rfl hrest
      exact ⟨s', hs'.head _ hstep, hnot⟩
    cases p with
    | dataProcess => exact hwrites _ _ rfl
    | setState state => exact hwrites _ _ rfl
    | setSteer | syncVtWordList => exact hgoes rfl (by simpa [ahead, silent] using hloud)
    | destroy => simp [ahead] at hloud

/-- The state is set and the service destroyed before the process thread has come
    to either. -/
def overtaken : List Label :=
  [.base (.request (.setState 1)), .base (.request .destroy), .base .response, .base .response,
    .receive, .base (.process []), .base (.process [])]

end OnDestroy

end BlackSiren

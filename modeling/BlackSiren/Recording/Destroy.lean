import BlackSiren.Recording.Thread
import Mathlib.Tactic.ByContra

/-! # Deleting the recording thread

    `destroy_siren` calls `stop` and deletes the object.  `stop` means to wait
    for the thread, but `init_siren` has detached it, so there is nothing to
    join and `stop` returns at once.

    - `Before`: what holds until the client destroys the service
    - `fnStep_ne_none`: only a thread that sleeps, has left its loop or needs
      `termMutex` does not go on
    - `stop_does_not_wait`: from every state the thread may go on with an object
      that is gone
    - `Session`: `init_siren` before, which calls `stop` too when the base has failed,
      and returns the handle all the same
    - `stops_iff`: `destroy_siren` does what is wanted exactly if the thread has left
      its loop before
-/

open LTS

namespace BlackSiren

namespace RecordingThread

variable (errorRetry : Int)

/-! ### Until the service is destroyed -/

/-- The client is in `destroy_siren`, or past it. -/
def Client.destroys : Client → Bool
  | .idle => false
  | .starting => false
  | .pausing => false
  | _ => true

/-- Until the service is destroyed the thread is in its loop, and it does not
    sleep while it is to record. -/
structure Before (s : State) : Prop where
  detached : s.joinable = false
  term : s.client.destroys = false → s.recordingTerm = false
  alive : s.client.destroys = false → s.fn ≠ .exited
  awake : s.client.destroys = false → s.recordingStart = true →
    s.fn ≠ .asleep ∧ s.fn ≠ .blocking

/-- A step of the thread that does not touch the flags of `Before`. -/
theorem Before.of_fn {s s' : State} (h : Before s) (hclient : s'.client = s.client)
    (hrs : s'.recordingStart = s.recordingStart) (hrt : s'.recordingTerm = s.recordingTerm)
    (hjoinable : s'.joinable = s.joinable)
    (halive : s.recordingTerm = false → s'.fn ≠ .exited)
    (hawake : s.recordingStart = true → s.fn ≠ .blocking → s'.fn ≠ .asleep ∧ s'.fn ≠ .blocking) :
    Before s' := by
  refine ⟨hjoinable.trans h.detached, ?_, ?_, ?_⟩
  · intro hc
    rw [hclient] at hc
    rw [hrt]
    exact h.term hc
  · intro hc
    rw [hclient] at hc
    exact halive (h.term hc)
  · intro hc hstart
    rw [hclient] at hc
    rw [hrs] at hstart
    exact hawake hstart (h.awake hc hstart).2

theorem Before.fnStep {s s' : State} (h : Before s) {len : Int}
    (hstep : fnStep errorRetry s len = some s') : Before s' := by
  cases hfn : s.fn with
  | top =>
    simp only [RecordingThread.fnStep, hfn] at hstep
    split at hstep
    · cases hstep
    · split at hstep
      · next hrt =>
        cases hstep
        exact h.of_fn rfl rfl rfl rfl (by simp [hrt]) (by simp)
      · cases hstep
        exact h.of_fn rfl rfl rfl rfl (by simp) (by simp)
  | testing =>
    simp only [RecordingThread.fnStep, hfn] at hstep
    split at hstep
    · cases hstep
      exact h.of_fn rfl rfl rfl rfl (by simp) (by simp)
    · next hrs =>
      split at hstep
      · cases hstep
        exact h.of_fn rfl rfl rfl rfl (by simp) (by simp [hrs])
      · cases hstep
        exact h.of_fn rfl rfl rfl rfl (by simp) (by simp [hrs])
  | blocking =>
    simp only [RecordingThread.fnStep, hfn] at hstep
    cases hstep
    exact h.of_fn rfl rfl rfl rfl (by simp) (by simp [hfn])
  | asleep =>
    simp only [RecordingThread.fnStep, hfn] at hstep
    cases hstep
  | leaving =>
    simp only [RecordingThread.fnStep, hfn] at hstep
    cases hstep
    refine h.of_fn rfl rfl rfl rfl ?_ ?_
    · intro hrt
      simp [hrt]
    · intro _ _
      cases s.recordingTerm <;> simp
  | readDone len' =>
    simp only [RecordingThread.fnStep, hfn] at hstep
    cases hstep
    refine h.of_fn rfl rfl rfl rfl ?_ ?_
    · intro _
      cases s.recordingStart <;> simp
    · intro hrs _
      -- with `recordingStart` the thread goes on with what it has read
      simp [hrs]
  | handling len' =>
    simp only [RecordingThread.fnStep, hfn] at hstep
    split at hstep
    · split at hstep
      · cases hstep
        exact h.of_fn rfl rfl rfl rfl (by simp) (by simp)
      · cases hstep
        exact h.of_fn rfl rfl rfl rfl (by simp) (by simp)
    · cases hstep
      exact h.of_fn rfl rfl rfl rfl (by simp) (by simp)
  | exited =>
    simp only [RecordingThread.fnStep, hfn] at hstep
    cases hstep
  | entering | woken | reading =>
    simp only [RecordingThread.fnStep, hfn] at hstep
    cases hstep
    exact h.of_fn rfl rfl rfl rfl (by simp) (by simp)

/-- Once the client is in `destroy_siren` nothing is promised. -/
theorem Before.of_destroys {s : State} (hjoinable : s.joinable = false)
    (hclient : s.client.destroys = true) : Before s := by
  refine ⟨hjoinable, ?_, ?_, ?_⟩
  all_goals
    intro hc
    rw [hclient] at hc
    cases hc

theorem Before.clientStep {s s' : State} (h : Before s) (hstep : clientStep s = some s') :
    Before s' := by
  cases hclient : s.client with
  | starting =>
    simp only [RecordingThread.clientStep, hclient] at hstep
    split at hstep
    · cases hstep
    · next hlock =>
      cases hstep
      have hc : s.client.destroys = false := by rw [hclient]; rfl
      refine ⟨h.detached, fun _ => h.term hc, ?_, ?_⟩
      · intro _
        have halive := h.alive hc
        show s.fn.notify ≠ .exited
        cases hfn : s.fn <;> simp_all [Fn.notify]
      · intro _ _
        -- the notification finds the thread asleep, or not yet at the test
        show s.fn.notify ≠ .asleep ∧ s.fn.notify ≠ .blocking
        cases hfn : s.fn <;> simp_all [Fn.notify, Fn.holdsStartMutex]
  | pausing =>
    simp only [RecordingThread.clientStep, hclient] at hstep
    split at hstep
    · cases hstep
    · cases hstep
      have hc : s.client.destroys = false := by rw [hclient]; rfl
      refine ⟨h.detached, fun _ => h.term hc, fun _ => h.alive hc, ?_⟩
      intro _ hrs
      cases hrs
  | testingStart =>
    simp only [RecordingThread.clientStep, hclient] at hstep
    split at hstep
    · cases hstep
      exact .of_destroys h.detached rfl
    · cases hstep
      exact .of_destroys h.detached rfl
  | joining =>
    simp only [RecordingThread.clientStep, hclient, h.detached] at hstep
    cases hstep
    exact .of_destroys rfl rfl
  | idle | deleted =>
    simp only [RecordingThread.clientStep, hclient] at hstep
    cases hstep
  | terminating | notifying | stopped =>
    simp only [RecordingThread.clientStep, hclient] at hstep
    cases hstep
    exact .of_destroys h.detached rfl

theorem Before.next {s s' : State} (h : Before s) {l : Label}
    (hstep : next errorRetry s l = some s') : Before s' := by
  cases l with
  | start result =>
    simp only [RecordingThread.next] at hstep
    split at hstep
    · cases hstep
    · next hclient =>
      have hc : s.client.destroys = false := by rw [Decidable.not_not.mp hclient]; rfl
      split at hstep
      · cases hstep
        exact h
      · cases hstep
        exact ⟨h.detached, fun _ => h.term hc, fun _ => h.alive hc, fun _ => h.awake hc⟩
  | stop =>
    simp only [RecordingThread.next] at hstep
    split at hstep
    · cases hstep
    · next hclient =>
      have hc : s.client.destroys = false := by rw [Decidable.not_not.mp hclient]; rfl
      split at hstep
      · cases hstep
        exact ⟨h.detached, fun _ => h.term hc, fun _ => h.alive hc, fun _ => h.awake hc⟩
      · cases hstep
        exact h
  | destroy =>
    simp only [RecordingThread.next] at hstep
    split at hstep
    · cases hstep
    · cases hstep
      exact .of_destroys h.detached rfl
  | client => exact h.clientStep hstep
  | fn len => exact h.fnStep errorRetry hstep
  | spurious =>
    simp only [RecordingThread.next] at hstep
    split at hstep
    · cases hstep
      exact h.of_fn rfl rfl rfl rfl (by simp) (by simp)
    · cases hstep

theorem before {s : State} (h : Reachable (system errorRetry) s) : Before s := by
  refine invariant (system errorRetry) Before ?_ ?_ h
  · rintro s rfl
    exact ⟨rfl, fun _ => rfl, by simp [initial], by simp [initial]⟩
  · intro s l s' hs hstep
    exact hs.next errorRetry hstep

/-! ### What no step changes -/

/-- The thread stays detached. -/
theorem next_joinable {s s' : State} {l : Label} (h : next errorRetry s l = some s') :
    s'.joinable = s.joinable := by
  cases l with
  | fn len =>
    simp only [RecordingThread.next, RecordingThread.fnStep] at h
    grind
  | client =>
    simp only [RecordingThread.next, RecordingThread.clientStep] at h
    grind
  | _ =>
    simp only [RecordingThread.next] at h
    grind

/-- A thread that has left its loop does not come back. -/
theorem next_exited {s s' : State} {l : Label} (h : next errorRetry s l = some s')
    (hexited : s.fn = .exited) : s'.fn = .exited := by
  cases l with
  | fn len =>
    simp only [RecordingThread.next, RecordingThread.fnStep, hexited] at h
    cases h
  | client =>
    simp only [RecordingThread.next, RecordingThread.clientStep] at h
    grind [Fn.notify]
  | _ =>
    simp only [RecordingThread.next] at h
    grind

/-! ### Destroying the service -/

/-- The thread goes on unless it sleeps, is done or needs `termMutex`. -/
theorem fnStep_ne_none {s : State} (hasleep : s.fn ≠ .asleep) (hexited : s.fn ≠ .exited)
    (hterm : s.client.holdsTermMutex = false) (len : Int) : fnStep errorRetry s len ≠ none := by
  cases hfn : s.fn with
  | asleep => exact absurd hfn hasleep
  | exited => exact absurd hfn hexited
  | top =>
    simp only [fnStep, hfn, hterm]
    cases s.recordingTerm <;> simp
  | testing =>
    simp only [fnStep, hfn]
    cases s.recordingStart <;> cases s.first <;> simp
  | handling len' =>
    simp only [fnStep, hfn]
    split
    · split <;> simp
    · simp
  | _ => simp [fnStep, hfn]

/-- `destroy_siren` on its own, the thread standing still. It ends the sleep of a
    thread that is not recording. -/
theorem deleted_of_idle {s : State} (hdetached : s.joinable = false) (hidle : s.client = .idle)
    (halive : s.fn ≠ .exited) :
    ∃ s₁ s', next errorRetry s .destroy = some s₁ ∧
      Reachable ((system errorRetry).startingAt s₁) s' ∧ s'.client = .deleted ∧ s'.fn ≠ .exited ∧
      (s'.fn = .asleep → s.fn = .asleep ∧ s.recordingStart = true) ∧
      (s.fn ≠ .asleep → s'.fn = s.fn) := by
  obtain ⟨client, fn, first, inputStart, rs, rt, joinable, currentRetry, ps, calls⟩ := s
  cases hidle
  cases hdetached
  cases rs with
  | true =>
    exact ⟨_, _, rfl, .step .client (.step .client (.step .client (.step .client (.refl _ _) rfl) rfl)
      rfl) rfl, rfl, halive, fun h => ⟨h, rfl⟩, fun _ => rfl⟩
  | false =>
    refine ⟨_, _, rfl, .step .client (.step .client (.step .client (.step .client (.step .client
      (.refl _ _) rfl) rfl) rfl) rfl) rfl, rfl, ?_, ?_, ?_⟩
    · cases fn <;> simp_all [Fn.notify]
    · cases fn <;> simp [Fn.notify]
    · intro hasleep
      cases fn <;> simp_all [Fn.notify]

/-- In whatever state the service is destroyed, `stop` may return and the object
    be deleted with the thread in its loop and about to take a step; a thread
    that was in `read_input` is still there. -/
theorem stop_does_not_wait {s : State} (h : Reachable (system errorRetry) s)
    (hidle : s.client = .idle) :
    ∃ s', Reachable ((system errorRetry).startingAt s) s' ∧ s'.client = .deleted ∧
      s'.fn ≠ .exited ∧ (∀ len, ∃ s'', (system errorRetry).step s' (.fn len) s'') ∧
      (s.fn = .reading → ∀ len s'', (system errorRetry).step s' (.fn len) s'' →
        s''.calls = s'.calls ++ [.readInput]) := by
  have hbefore := before errorRetry h
  have hc : s.client.destroys = false := by rw [hidle]; rfl
  obtain ⟨s₁, s', hdestroy, hs', hdeleted, hexited, hasleep, hkept⟩ :=
    deleted_of_idle errorRetry hbefore.detached hidle (hbefore.alive hc)
  have hasleep : s'.fn ≠ .asleep := by
    intro h
    obtain ⟨hfn, hrs⟩ := hasleep h
    exact (hbefore.awake hc hrs).1 hfn
  have hs' : Reachable ((system errorRetry).startingAt s) s' := .head .destroy hdestroy hs'
  have hterm : s'.client.holdsTermMutex = false := by rw [hdeleted]; rfl
  refine ⟨s', hs', hdeleted, hexited, ?_, ?_⟩
  · intro len
    exact Option.ne_none_iff_exists'.mp (fnStep_ne_none errorRetry hasleep hexited hterm len)
  · intro hreading len s'' hstep
    have hfn : s'.fn = .reading := by
      rw [← hreading]
      apply hkept
      simp [hreading]
    have hnext : fnStep errorRetry s' len = some s'' := hstep
    simp only [fnStep, hfn] at hnext
    cases hnext
    rfl

/-! ### From `init_siren` on -/

/-- What has become of `init_siren` since it has made the thread. -/
inductive Init where
  /-- It waits for the base. -/
  | waiting
  /-- The base has failed, and `init_siren` is in `recordingThread->stop()`. -/
  | stopping
  /-- It has returned the handle. -/
  | returned (failed : Bool)
  deriving DecidableEq

structure Session where
  init : Init
  thread : State
  deriving DecidableEq

namespace Session

inductive Label where
  /-- The answer of the base. -/
  | base (failed : Bool)
  /-- `init_siren` returns after `stop`; it deletes nothing. -/
  | return_
  | step (l : RecordingThread.Label)
  deriving DecidableEq

/-- The client makes its calls when `init_siren` has returned. -/
def lets (s : Session) : RecordingThread.Label → Bool
  | .fn _ => true
  | .spurious => true
  | .client => s.init ≠ .stopping || s.thread.client ≠ .stopped
  | _ => s.init = .returned false || s.init = .returned true

def next (s : Session) : Label → Option Session
  | .base failed =>
      if s.init = .waiting then
        if failed then some ⟨.stopping, { s.thread with client := .terminating }⟩
        else some ⟨.returned false, s.thread⟩
      else none
  | .return_ =>
      if s.init = .stopping ∧ s.thread.client = .stopped then
        some ⟨.returned true, { s.thread with client := .idle }⟩
      else none
  | .step l =>
      if s.lets l then (RecordingThread.next errorRetry s.thread l).map fun t => ⟨s.init, t⟩
      else none

def system : System Session Label := .ofFn (· = ⟨.waiting, initial⟩) (next errorRetry)

/-- What is wanted of `destroy_siren`, called now: when `stop` returns the thread has
    left its loop, and when the object is deleted it takes no step any more. -/
def Stops (s : Session) : Prop :=
  ∀ s₁ s', s.next errorRetry (.step .destroy) = some s₁ →
    Reachable ((system errorRetry).startingAt s₁) s' →
      (s'.thread.client = .stopped ∨ s'.thread.client = .deleted → s'.thread.fn = .exited) ∧
      (s'.thread.client = .deleted → ∀ len, s'.next errorRetry (.step (.fn len)) = none)

variable {errorRetry}

/-- Steps of the session are steps of the thread and its client, or those of
    `init_siren`. -/
theorem thread_next {s s' : Session} {l : RecordingThread.Label}
    (h : s.next errorRetry (.step l) = some s') :
    RecordingThread.next errorRetry s.thread l = some s'.thread ∧ s'.init = s.init := by
  simp only [next] at h
  split at h
  · obtain ⟨t, ht, rfl⟩ := Option.map_eq_some_iff.mp h
    exact ⟨ht, rfl⟩
  · cases h

/-- Unless the base fails there is but the thread. -/
theorem thread_reachable {s : Session} (h : Reachable (system errorRetry) s)
    (hinit : s.init = .waiting ∨ s.init = .returned false) :
    Reachable (RecordingThread.system errorRetry) s.thread := by
  induction h with
  | init hs =>
    rw [show _ = (⟨.waiting, initial⟩ : Session) from hs]
    exact .init rfl
  | @step s s' l _ hstep ih =>
    have hnext : s.next errorRetry l = some s' := hstep
    cases l with
    | base failed =>
      simp only [next] at hnext
      split at hnext
      · next hwaiting =>
        cases failed with
        | true =>
          cases hnext
          simp at hinit
        | false =>
          cases hnext
          exact ih (.inl hwaiting)
      · cases hnext
    | return_ =>
      simp only [next] at hnext
      split at hnext
      · cases hnext
        simp at hinit
      · cases hnext
    | step l =>
      obtain ⟨hthread, hsame⟩ := thread_next hnext
      exact .step l (ih (hsame ▸ hinit)) hthread

/-- The thread stays detached. -/
theorem detached {s : Session} (h : Reachable (system errorRetry) s) :
    s.thread.joinable = false := by
  refine invariant (system errorRetry) (fun s => s.thread.joinable = false) ?_ ?_ h
  · rintro s rfl
    rfl
  · intro s l s' hs hstep
    have hnext : s.next errorRetry l = some s' := hstep
    cases l with
    | base failed =>
      simp only [next] at hnext
      split at hnext
      · cases failed with
        | true => cases hnext; exact hs
        | false => cases hnext; exact hs
      · cases hnext
    | return_ =>
      simp only [next] at hnext
      split at hnext
      · cases hnext
        exact hs
      · cases hnext
    | step l => exact (next_joinable errorRetry (thread_next hnext).1).trans hs

/-- A thread that has left its loop does not come back. -/
theorem exited_of_exited {s s' : Session}
    (h : Reachable ((system errorRetry).startingAt s) s') (hexited : s.thread.fn = .exited) :
    s'.thread.fn = .exited := by
  refine invariant ((system errorRetry).startingAt s) (fun s => s.thread.fn = .exited) ?_ ?_ h
  · rintro s rfl
    exact hexited
  · intro s l s' hs hstep
    have hnext : s.next errorRetry l = some s' := hstep
    cases l with
    | base failed =>
      simp only [next] at hnext
      split at hnext
      · cases failed with
        | true => cases hnext; exact hs
        | false => cases hnext; exact hs
      · cases hnext
    | return_ =>
      simp only [next] at hnext
      split at hnext
      · cases hnext
        exact hs
      · cases hnext
    | step l => exact next_exited errorRetry (thread_next hnext).1 hs

/-- What the thread and its client can do they can do after `init_siren`. -/
theorem reachable_of_thread {failed : Bool} {t t' : State}
    (h : Reachable ((RecordingThread.system errorRetry).startingAt t) t') :
    Reachable ((system errorRetry).startingAt ⟨.returned failed, t⟩) ⟨.returned failed, t'⟩ := by
  induction h with
  | init ht => exact .init (by rw [show _ = t from ht]; rfl)
  | @step t₁ t₂ l _ hstep ih =>
    refine .step (.step l) ih ?_
    have hnext : RecordingThread.next errorRetry t₁ l = some t₂ := hstep
    have hlets : Session.lets ⟨.returned failed, t₁⟩ l = true := by
      cases l <;> cases failed <;> simp [lets]
    show Session.next errorRetry ⟨.returned failed, t₁⟩ (.step l) = _
    simp only [next, hlets, hnext, Option.map_some, if_true]

/-- A thread in its loop may stand still until the object is deleted. -/
theorem not_stops {s : Session} (h : Reachable (system errorRetry) s) {failed : Bool}
    (hinit : s.init = .returned failed) (hidle : s.thread.client = .idle)
    (halive : s.thread.fn ≠ .exited) : ¬ Stops errorRetry s := by
  intro hstops
  obtain ⟨t₁, t', hdestroy, hrun, hdeleted, hexited, -, -⟩ :=
    deleted_of_idle errorRetry (detached h) hidle halive
  have hlets : s.lets .destroy = true := by
    cases failed <;> simp [lets, hinit]
  have hnext : s.next errorRetry (.step .destroy) = some ⟨.returned failed, t₁⟩ := by
    simp only [next, hlets, hdestroy, hinit, Option.map_some, if_true]
  exact hexited ((hstops _ _ hnext (reachable_of_thread hrun)).1 (.inr hdeleted))

/-- `destroy_siren` stops the thread exactly if it has left its loop before; and
    unless the base had failed it has not. -/
theorem stops_iff {s : Session} (h : Reachable (system errorRetry) s) {failed : Bool}
    (hinit : s.init = .returned failed) (hidle : s.thread.client = .idle) :
    (Stops errorRetry s ↔ s.thread.fn = .exited) ∧ (failed = false → s.thread.fn ≠ .exited) := by
  refine ⟨⟨?_, ?_⟩, ?_⟩
  · intro hstops
    by_contra halive
    exact not_stops h hinit hidle halive hstops
  · intro hexited s₁ s' hdestroy hrun
    have hexited₁ : s₁.thread.fn = .exited :=
      next_exited errorRetry (thread_next hdestroy).1 hexited
    have hexited' := exited_of_exited hrun hexited₁
    refine ⟨fun _ => hexited', fun _ len => ?_⟩
    simp only [next, lets, RecordingThread.next, fnStep, hexited', Option.map_none, if_true]
  · rintro rfl
    have hbefore := before errorRetry (thread_reachable h (.inr hinit))
    exact hbefore.alive (by rw [hidle]; rfl)

/-- The base fails, and the thread finds `recordingTerm` set before `destroy_siren` is
    called. -/
def failed : List Label :=
  [.base true] ++ List.replicate 4 (.step .client) ++ [.return_, .step (.fn 0)]

theorem stops_iff_failed :
    ∃ s, exec (next 3) ⟨.waiting, initial⟩ failed = some s ∧ Stops 3 s := by
  have hseen : (exec (next 3) ⟨.waiting, initial⟩ failed).map
      (fun s => (s.init, s.thread.client, s.thread.fn)) =
        some (.returned true, .idle, .exited) := by decide
  obtain ⟨s, hs, hplaces⟩ := Option.map_eq_some_iff.mp hseen
  simp only [Prod.mk.injEq] at hplaces
  obtain ⟨hinit, hidle, hexited⟩ := hplaces
  exact ⟨s, hs, (stops_iff (reachable_of_exec rfl hs) hinit hidle).1.mpr hexited⟩

/-- The service is destroyed while the thread reads. -/
def reading : List Label :=
  [.base false] ++ List.replicate 4 (.step (.fn 0)) ++ [.step (.start 0), .step .client] ++
    List.replicate 3 (.step (.fn 0))

/-- When `stop` has returned the thread may be in its loop. -/
theorem not_exited_when_stopped :
    ¬ ∀ (errorRetry : Int) (s : Session) (failed : Bool), Reachable (system errorRetry) s →
      s.init = .returned failed → s.thread.client = .idle → Stops errorRetry s := by
  intro hall
  have hseen : (exec (next 0) ⟨.waiting, initial⟩ reading).map
      (fun s => (s.init, s.thread.client, s.thread.fn)) =
        some (.returned false, .idle, .reading) := by decide
  obtain ⟨s, hs, hplaces⟩ := Option.map_eq_some_iff.mp hseen
  simp only [Prod.mk.injEq] at hplaces
  obtain ⟨hinit, hidle, hreading⟩ := hplaces
  have hreach : Reachable (system 0) s := reachable_of_exec rfl hs
  exact not_stops hreach hinit hidle (by rw [hreading]; decide)
    (hall 0 s false hreach hinit hidle)

end Session

end RecordingThread

end BlackSiren

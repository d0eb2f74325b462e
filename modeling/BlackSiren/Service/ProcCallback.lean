import BlackSiren.Recording.Thread
import BlackSiren.Service.Base

/-! # `proc_callback`

    A voice event takes a long way to its callback:

        recording thread  read_input        -> recording socket
        base              recording socket  -> response channel
        response thread   response channel  -> proc_callback

    while `proc_callback` follows the calls of the client: set on a start, null
    again if `start_input` fails, and left alone by a stop.  So a start that
    fails takes the callback away from what is left of the stream before it.

    - `Loaded`: an event may still come out of what is on the way
    - `Careful`: no start fails then
    - `callback_set`: then, and only then, no event meets a null callback
-/

open LTS

namespace BlackSiren

namespace ProcCallback

open Base (Package Request Response)
open RecordingThread (Fn Client)

structure Config where
  errorRetry : Int
  frameSize : Nat
  frameSize_pos : 0 < frameSize

structure State where
  /-- The recording thread and the client of it. -/
  recording : RecordingThread.State
  /-- `proc_callback` is not null. -/
  procCallback : Bool
  /-- `start_input` is called. -/
  calling : Bool
  /-- A request that the client is about to push. -/
  unpushed : Option Request
  requestQueue : List Request
  requestChannel : List Request
  /-- Bytes in the recording socket. -/
  socket : Nat
  base : Base.State
  responseChannel : List Response
  /-- `SirenProxy::responseThreadHandler` has the event in hand. -/
  dispatching : Option Int
  deriving DecidableEq

def initial : State where
  recording := RecordingThread.initial
  procCallback := false
  calling := false
  unpushed := none
  requestQueue := []
  requestChannel := []
  socket := 0
  base := Base.initial
  responseChannel := []
  dispatching := none

inductive Label where
  /-- `start_siren_process_stream`, up to `start_input`. -/
  | call
  /-- `start_input` returns. -/
  | result (r : Int)
  /-- `stop_siren_process_stream`, up to its push. -/
  | stop
  | push
  /-- The client goes on with the recording thread. -/
  | client
  /-- `recordingFn` goes on: what `read_input` returns, and how many bytes
      `write` takes. -/
  | fn (len : Int) (written : Nat)
  | spurious
  | requestThread
  /-- The base reads a request. -/
  | request
  | base (l : Base.Label)
  /-- The response thread of the proxy reads a message. -/
  | receive
  /-- It calls `voice_event_callback`. -/
  | dispatch
  /-- `requestQueue` has overflowed. -/
  | overflow (requestQueue : List Request)

/-- The event that is to be dispatched. -/
def event : Response → Option Int
  | .onVoiceEvent prop => some prop
  | _ => none

variable (c : Config)

/-- A step of the base on its own. -/
def State.baseNext (s : State) (l : Base.Label) : Option State :=
  (Base.next s.base l).map fun r =>
    { s with base := r.1, responseChannel := s.responseChannel ++ r.2 }

def next (s : State) : Label → Option State
  | .call =>
      if s.recording.client = .idle ∧ s.recording.procStreamStart = false ∧ s.calling = false ∧
          s.unpushed = none then
        some { s with procCallback := true, calling := true }
      else none
  | .result r =>
      if s.calling then
        (RecordingThread.next c.errorRetry s.recording (.start r)).map fun r' =>
          { s with
            recording := r'
            calling := false
            procCallback := if r = 0 then s.procCallback else false }
      else none
  | .stop =>
      if s.calling = false ∧ s.unpushed = none then
        (RecordingThread.next c.errorRetry s.recording .stop).map fun r' =>
          { s with
            recording := r'
            unpushed := if s.recording.procStreamStart then some .stopProcessStream else none }
      else none
  | .push => s.unpushed.map fun r =>
      { s with unpushed := none, requestQueue := s.requestQueue ++ [r] }
  | .client =>
      if s.unpushed = none then
        (RecordingThread.next c.errorRetry s.recording .client).map fun r' =>
          { s with
            recording := r'
            -- after a start the request follows
            unpushed := if s.recording.client = .starting then some .startProcessStream else none }
      else none
  | .fn len written =>
      if written ≤ c.frameSize then
        (RecordingThread.next c.errorRetry s.recording (.fn len)).map fun r' =>
          { s with
            recording := r'
            socket := if s.recording.fn = .handling 0 then s.socket + written else s.socket }
      else none
  | .spurious => (RecordingThread.next c.errorRetry s.recording .spurious).map fun r' =>
      { s with recording := r' }
  | .requestThread =>
      match s.requestQueue with
      | r :: rest => some { s with requestQueue := rest, requestChannel := s.requestChannel ++ [r] }
      | [] => none
  | .request =>
      match s.requestChannel with
      | r :: rest => State.baseNext { s with requestChannel := rest } (.request r)
      | [] => none
  | .base (.request _) => none
  | .base (.read status) =>
      if status.toNat ≤ s.socket ∧ status.toNat ≤ c.frameSize then
        State.baseNext { s with socket := s.socket - status.toNat } (.read status)
      else none
  | .base l => s.baseNext l
  | .receive =>
      match s.dispatching, s.responseChannel with
      | none, m :: rest => some { s with responseChannel := rest, dispatching := event m }
      | _, _ => none
  | .dispatch => if s.dispatching = none then none else some { s with dispatching := none }
  | .overflow requestQueue =>
      if requestQueue.Subperm s.requestQueue then some { s with requestQueue := requestQueue }
      else none

def system : System State Label := .ofFn (· = initial) (next c)

/-- No event is in the hands of the response thread while the callback is null. -/
def Safe (s : State) : Prop := s.dispatching ≠ none → s.procCallback = true

/-! ### On the way -/

/-- There are bytes in the recording socket, or the recording thread is about to
    write a frame. -/
def HasBytes (s : State) : Prop := 0 < s.socket ∨ s.recording.fn = .handling 0

/-- The base is reading, or may come to it without another start. -/
inductive Reads (s : State) : Prop
  | main (hmain : s.base.main = .testing ∨ s.base.main = .reading)
  | start (hstart : s.base.recordingStart = true)
  | channel (hmem : .startProcessStream ∈ s.requestChannel)
  | queue (hmem : .startProcessStream ∈ s.requestQueue)

/-- An event may come out of what is on the way. -/
inductive Loaded (s : State) : Prop
  | dispatching (hdispatching : s.dispatching ≠ none)
  | channel {m : Response} (hmem : m ∈ s.responseChannel) (hevent : event m ≠ none)
  | hand {m m' : Response} {ms : List Response} (hprocess : s.base.process = .writing m' ms)
      (hmem : m ∈ m' :: ms) (hevent : event m ≠ none)
  | queue (hmem : .dataProcess ∈ s.base.processQueue)
  | frame (hmain : s.base.main = .preprocessing ∨ s.base.main = .pushing)
  | bytes (hbytes : HasBytes s) (hreads : Reads s)

/-- A start that fails finds nothing on the way. -/
def Careful (s : State) : Label → Prop
  | .result r => r ≠ 0 → ¬ Loaded s
  | _ => True

variable {c}

/-! ### Beyond the client -/

/-- The steps that are not of the client or the recording thread. -/
def Label.flows : Label → Bool
  | .requestThread => true
  | .request => true
  | .base _ => true
  | .receive => true
  | .dispatch => true
  | .overflow _ => true
  | _ => false

/-- What they do. -/
inductive Flow (s : State) : Label → State → Prop
  | requestThread (r : Request) (rest : List Request) (hqueue : s.requestQueue = r :: rest) :
      Flow s .requestThread { s with
        requestQueue := rest, requestChannel := s.requestChannel ++ [r] }
  | request (r : Request) (rest : List Request) (b : Base.State) (out : List Response)
      (hchannel : s.requestChannel = r :: rest) (hbase : Base.Step s.base (.request r) b out) :
      Flow s .request { s with
        requestChannel := rest, base := b, responseChannel := s.responseChannel ++ out }
  | base (l : Base.Label) (b : Base.State) (out : List Response) (socket : Nat)
      (hl : ∀ r, l ≠ .request r) (hsocket : socket ≤ s.socket)
      (hread : ∀ status, l = .read status → status.toNat ≤ s.socket)
      (hbase : Base.Step s.base l b out) :
      Flow s (.base l) { s with
        socket := socket, base := b, responseChannel := s.responseChannel ++ out }
  | receive (m : Response) (rest : List Response) (hnone : s.dispatching = none)
      (hchannel : s.responseChannel = m :: rest) :
      Flow s .receive { s with responseChannel := rest, dispatching := event m }
  | dispatch (hsome : s.dispatching ≠ none) : Flow s .dispatch { s with dispatching := none }
  | overflow (q : List Request) (hqueue : q.Subperm s.requestQueue) :
      Flow s (.overflow q) { s with requestQueue := q }

theorem flow_cases {s s' : State} {l : Label} (h : next c s l = some s') (hl : l.flows = true) :
    Flow s l s' := by
  cases l with
  | requestThread =>
    simp only [next] at h
    split at h
    · cases h; exact .requestThread _ _ ‹_›
    · cases h
  | request =>
    simp only [next] at h
    split at h
    · obtain ⟨b, hb, rfl⟩ := Option.map_eq_some_iff.mp h
      exact .request _ _ _ _ ‹_› (Base.step_cases hb)
    · cases h
  | base lb =>
    cases lb with
    | request r => cases h
    | read status =>
      simp only [next] at h
      split at h
      · next hstatus =>
        obtain ⟨b, hb, rfl⟩ := Option.map_eq_some_iff.mp h
        refine .base _ _ _ _ (by simp) (Nat.sub_le _ _) ?_ (Base.step_cases hb)
        rintro status' heq
        cases heq
        exact hstatus.1
      · cases h
    | _ =>
      obtain ⟨b, hb, rfl⟩ := Option.map_eq_some_iff.mp h
      exact .base _ _ _ s.socket (by simp) (Nat.le_refl _) (by simp) (Base.step_cases hb)
  | receive =>
    simp only [next] at h
    split at h
    · cases h; exact .receive _ _ ‹_› ‹_›
    · cases h
  | dispatch =>
    simp only [next] at h
    split at h
    · cases h
    · cases h; exact .dispatch ‹_›
  | overflow q =>
    simp only [next] at h
    split at h
    · cases h; exact .overflow _ ‹_›
    · cases h
  | call | result | stop | push | client | fn | spurious => cases hl

/-! ### In every run -/

/-- The place of the client, `recordingStart` and `procStreamStart`. -/
inductive Flags : Client → Bool → Bool → Prop
  | stopped : Flags .idle false false
  | starting : Flags .starting false false
  | started : Flags .idle true true
  | pausing : Flags .pausing true false

/-- The client starts and stops streams, and does nothing else. -/
structure Streaming (s : State) : Prop where
  flags : Flags s.recording.client s.recording.recordingStart s.recording.procStreamStart
  /-- The client has not got the lock from a thread that is past its loop. -/
  fn : s.recording.recordingStart = false → s.recording.fn.recording = false
  calling : s.calling = true → s.recording.client = .idle ∧
    s.recording.procStreamStart = false ∧ s.unpushed = none
  null : s.procCallback = false → s.recording.client = .idle ∧
    s.recording.procStreamStart = false ∧ s.unpushed = none ∧ s.calling = false

/-- A step away from the client. -/
theorem Streaming.of_eq {s s' : State} (h : Streaming s) (hrecording : s'.recording = s.recording)
    (hcalling : s'.calling = s.calling) (hunpushed : s'.unpushed = s.unpushed)
    (hcallback : s'.procCallback = s.procCallback) : Streaming s' := by
  obtain ⟨hflags, hfn, hcall, hnull⟩ := h
  refine ⟨?_, ?_, ?_, ?_⟩
  all_goals rw [hrecording]
  · exact hflags
  · exact hfn
  · rw [hcalling, hunpushed]
    exact hcall
  · rw [hcallback, hcalling, hunpushed]
    exact hnull

theorem Streaming.flow {s s' : State} (h : Streaming s) {l : Label} (hstep : Flow s l s') :
    Streaming s' := by
  cases hstep <;> exact h.of_eq rfl rfl rfl rfl

theorem Streaming.recordingStart {s : State} (h : Streaming s) (hidle : s.recording.client = .idle)
    (hstart : s.recording.procStreamStart = false) : s.recording.recordingStart = false := by
  have hflags := h.flags
  rw [hidle, hstart] at hflags
  generalize s.recording.recordingStart = rs at hflags
  cases hflags
  rfl

theorem Streaming.result {s s' : State} (h : Streaming s) {r : Int}
    (hstep : next c s (.result r) = some s') : Streaming s' := by
  simp only [next] at hstep
  split at hstep
  · next hcalling =>
    obtain ⟨hidle, hps, hunpushed⟩ := h.calling hcalling
    have hrs := h.recordingStart hidle hps
    simp only [RecordingThread.next, hidle, hps, ne_eq, not_true_eq_false, if_false,
      Bool.false_eq_true, Option.map_some, Option.some.injEq] at hstep
    subst hstep
    by_cases hr : r = 0
    · refine ⟨?_, h.fn, ?_, ?_⟩
      · simp only [hr, if_true, hrs]
        exact .starting
      · intro hfalse
        cases hfalse
      · intro hnull
        simp only [hr, if_true] at hnull
        rw [(h.null hnull).2.2.2] at hcalling
        cases hcalling
    · refine ⟨?_, h.fn, ?_, ?_⟩
      · simp only [hr, if_false, hrs]
        exact .stopped
      · intro hfalse
        cases hfalse
      · intro _
        exact ⟨by simp [hr], rfl, hunpushed, rfl⟩
  · cases hstep

theorem Streaming.stop {s s' : State} (h : Streaming s) (hstep : next c s .stop = some s') :
    Streaming s' := by
  simp only [next] at hstep
  split at hstep
  · next hfree =>
    obtain ⟨r', hr', rfl⟩ := Option.map_eq_some_iff.mp hstep
    simp only [RecordingThread.next] at hr'
    split at hr'
    · cases hr'
    · next hidle =>
      have hidle := Decidable.not_not.mp hidle
      split at hr'
      · next hps =>
        cases hr'
        have hflags := h.flags
        rw [hidle, hps] at hflags
        -- while a stream is open the callback is set
        have hnull : s.procCallback ≠ false := by
          intro hnull
          rw [(h.null hnull).2.1] at hps
          cases hps
        have hcalling : s.calling ≠ true := by
          rw [hfree.1]
          simp
        refine ⟨?_, h.fn, fun hc => absurd hc hcalling, fun hn => absurd hn hnull⟩
        show Flags .pausing s.recording.recordingStart false
        generalize s.recording.recordingStart = rs at hflags
        cases hflags
        exact .pausing
      · next hps =>
        cases hr'
        refine h.of_eq rfl rfl ?_ rfl
        rw [if_neg hps]
        exact hfree.2.symm
  · cases hstep

theorem Streaming.client {s s' : State} (h : Streaming s) (hstep : next c s .client = some s') :
    Streaming s' := by
  simp only [next] at hstep
  split at hstep
  · next hunpushed =>
    obtain ⟨r', hr', rfl⟩ := Option.map_eq_some_iff.mp hstep
    simp only [RecordingThread.next] at hr'
    -- the client is in the middle of a call
    have hbusy : s.recording.client ≠ .idle := by
      intro hidle
      simp only [RecordingThread.clientStep, hidle] at hr'
      cases hr'
    have hcalling : s.calling ≠ true := fun hcalling => hbusy (h.calling hcalling).1
    have hnull : s.procCallback ≠ false := fun hnull => hbusy (h.null hnull).1
    have hflags := h.flags
    cases hclient : s.recording.client with
    | starting =>
      simp only [RecordingThread.clientStep, hclient] at hr'
      split at hr'
      · cases hr'
      · cases hr'
        refine ⟨.started, ?_, fun hc => absurd hc hcalling, fun hn => absurd hn hnull⟩
        intro hrs
        cases hrs
    | pausing =>
      simp only [RecordingThread.clientStep, hclient] at hr'
      split at hr'
      · cases hr'
      · next hlock =>
        cases hr'
        rw [hclient] at hflags
        refine ⟨?_, ?_, fun hc => absurd hc hcalling, fun hn => absurd hn hnull⟩
        · generalize s.recording.recordingStart = rs at hflags
          generalize s.recording.procStreamStart = ps at hflags
          cases hflags
          exact .stopped
        · intro _
          -- the lock is free, so the thread is not past its loop
          cases hfn : s.recording.fn <;> simp_all [Fn.recording, Fn.holdsStartMutex]
    | idle => exact absurd hclient hbusy
    | terminating | testingStart | notifying | joining | stopped | deleted =>
      rw [hclient] at hflags
      cases hflags
  · cases hstep

theorem Streaming.next {s s' : State} (h : Streaming s) {l : Label}
    (hstep : next c s l = some s') : Streaming s' := by
  cases l with
  | call =>
    simp only [ProcCallback.next] at hstep
    split at hstep
    · next hfree =>
      cases hstep
      refine ⟨h.flags, h.fn, fun _ => ⟨hfree.1, hfree.2.1, hfree.2.2.2⟩, ?_⟩
      intro hnull
      cases hnull
    · cases hstep
  | result r => exact h.result hstep
  | stop => exact h.stop hstep
  | client => exact h.client hstep
  | push =>
    obtain ⟨r, hr, rfl⟩ := Option.map_eq_some_iff.mp hstep
    refine ⟨h.flags, h.fn, ?_, ?_⟩
    · intro hcalling
      rw [(h.calling hcalling).2.2] at hr
      cases hr
    · intro hnull
      rw [(h.null hnull).2.2.1] at hr
      cases hr
  | fn len written =>
    simp only [ProcCallback.next] at hstep
    split at hstep
    · obtain ⟨r', hr', rfl⟩ := Option.map_eq_some_iff.mp hstep
      simp only [RecordingThread.next] at hr'
      obtain ⟨hclient, hrs, hps⟩ := RecordingThread.fnStep_kept hr'
      refine ⟨?_, ?_, ?_, ?_⟩
      · rw [hclient, hrs, hps]
        exact h.flags
      · intro hstart
        rw [hrs] at hstart
        exact (RecordingThread.fnStep_recording hr' hstart (h.fn hstart)).1
      · rw [hclient, hps]
        exact h.calling
      · rw [hclient, hps]
        exact h.null
    · cases hstep
  | spurious =>
    obtain ⟨r', hr', rfl⟩ := Option.map_eq_some_iff.mp hstep
    simp only [RecordingThread.next] at hr'
    split at hr'
    · cases hr'
      exact ⟨h.flags, fun _ => rfl, h.calling, h.null⟩
    · cases hr'
  | requestThread | request | base | receive | dispatch | overflow =>
    exact h.flow (flow_cases hstep rfl)

/-- No request is one to destroy. -/
structure Requests (s : State) : Prop where
  unpushed : s.unpushed ≠ some .destroy
  queue : .destroy ∉ s.requestQueue
  channel : .destroy ∉ s.requestChannel
  alive : Base.Alive s.base

theorem Requests.of_unpushed {s s' : State} (h : Requests s)
    (hunpushed : s'.unpushed ≠ some .destroy)
    (hqueue : s'.requestQueue = s.requestQueue) (hchannel : s'.requestChannel = s.requestChannel)
    (hbase : s'.base = s.base) : Requests s' := by
  obtain ⟨-, hq, hch, halive⟩ := h
  refine ⟨hunpushed, ?_, ?_, ?_⟩
  · rwa [hqueue]
  · rwa [hchannel]
  · rwa [hbase]

theorem Requests.flow {s s' : State} (h : Requests s) {l : Label} (hstep : Flow s l s') :
    Requests s' := by
  cases hstep with
  | requestThread r rest hqueue =>
    have hq := h.queue
    rw [hqueue, List.mem_cons, not_or] at hq
    exact ⟨h.unpushed, hq.2, by simp [h.channel, hq.1], h.alive⟩
  | request r rest b out hchannel hbase =>
    have hch := h.channel
    rw [hchannel, List.mem_cons, not_or] at hch
    refine ⟨h.unpushed, h.queue, hch.2, h.alive.step hbase ?_⟩
    intro heq
    cases heq
    exact hch.1 rfl
  | base l b out socket hl hsocket hread hbase =>
    exact ⟨h.unpushed, h.queue, h.channel, h.alive.step hbase (hl _)⟩
  | receive m rest hnone hchannel => exact h.of_unpushed h.unpushed rfl rfl rfl
  | dispatch hsome => exact h.of_unpushed h.unpushed rfl rfl rfl
  | overflow q hqueue =>
    exact ⟨h.unpushed, fun hmem => h.queue (hqueue.subset hmem), h.channel, h.alive⟩

theorem Requests.next {s s' : State} (h : Requests s) {l : Label}
    (hstep : next c s l = some s') : Requests s' := by
  cases l with
  | call =>
    simp only [ProcCallback.next] at hstep
    split at hstep
    · cases hstep
      exact h.of_unpushed h.unpushed rfl rfl rfl
    · cases hstep
  | result r =>
    simp only [ProcCallback.next] at hstep
    split at hstep
    · obtain ⟨r', -, rfl⟩ := Option.map_eq_some_iff.mp hstep
      exact h.of_unpushed h.unpushed rfl rfl rfl
    · cases hstep
  | stop | client =>
    simp only [ProcCallback.next] at hstep
    split at hstep
    · obtain ⟨r', -, rfl⟩ := Option.map_eq_some_iff.mp hstep
      refine h.of_unpushed ?_ rfl rfl rfl
      split <;> simp
    · cases hstep
  | push =>
    obtain ⟨r, hr, rfl⟩ := Option.map_eq_some_iff.mp hstep
    -- only `destroy_siren` pushes that, and it is not among the calls
    have hne : r ≠ .destroy := by
      rintro rfl
      exact h.unpushed hr
    exact ⟨by simp, by simp [h.queue, Ne.symm hne], h.channel, h.alive⟩
  | fn len written =>
    simp only [ProcCallback.next] at hstep
    split at hstep
    · obtain ⟨r', -, rfl⟩ := Option.map_eq_some_iff.mp hstep
      exact h.of_unpushed h.unpushed rfl rfl rfl
    · cases hstep
  | spurious =>
    obtain ⟨r', -, rfl⟩ := Option.map_eq_some_iff.mp hstep
    exact h.of_unpushed h.unpushed rfl rfl rfl
  | requestThread | request | base | receive | dispatch | overflow =>
    exact h.flow (flow_cases hstep rfl)

theorem streaming {s : State} (h : Reachable (system c) s) : Streaming s := by
  refine invariant (system c) Streaming ?_ ?_ h
  · rintro s rfl
    refine ⟨.stopped, fun _ => rfl, ?_, ?_⟩
    · intro hcalling
      cases hcalling
    · intro _
      exact ⟨rfl, rfl, rfl, rfl⟩
  · intro s l s' hs hstep
    exact hs.next hstep

theorem requests {s : State} (h : Reachable (system c) s) : Requests s := by
  refine invariant (system c) Requests ?_ ?_ h
  · rintro s rfl
    refine ⟨by simp [initial], by simp [initial], by simp [initial], ?_⟩
    exact ⟨rfl, by simp [initial, Base.initial], by simp [initial, Base.initial], rfl,
      by simp [initial, Base.initial]⟩
  · intro s l s' hs hstep
    exact hs.next hstep

/-! ### Nothing on the way -/

section base

variable {b b' : Base.State} {l : Base.Label} {out : List Response}

theorem hand_of_out (hstep : Base.Step b l b' out) {m : Response} (hmem : m ∈ out)
    (hevent : event m ≠ none) : ∃ m' ms, b.process = .writing m' ms ∧ m ∈ m' :: ms := by
  cases hstep with
  | write props m' ms hprocess =>
    rw [List.mem_singleton.mp hmem]
    exact ⟨m', ms, hprocess, List.mem_cons_self⟩
  | writeDestroy hresponse =>
    rw [List.mem_singleton.mp hmem] at hevent
    exact absurd rfl hevent
  | _ => cases hmem

theorem hand_of_hand (hstep : Base.Step b l b' out) {m m' : Response} {ms : List Response}
    (hprocess : b'.process = .writing m' ms) (hmem : m ∈ m' :: ms) (hevent : event m ≠ none) :
    (∃ m' ms, b.process = .writing m' ms ∧ m ∈ m' :: ms) ∨ .dataProcess ∈ b.processQueue := by
  cases hstep with
  | request r hpolling => cases r <;> exact .inl ⟨m', ms, hprocess, hmem⟩
  | pop props p rest hpopping hqueue =>
    cases p with
    | dataProcess =>
      right
      rw [hqueue]
      exact List.mem_cons_self
    | setState state =>
      -- no event comes of a state
      cases hprocess
      rw [List.mem_singleton.mp hmem] at hevent
      exact absurd rfl hevent
    | setSteer | syncVtWordList | destroy => cases hprocess
  | write props m'' ms' hwriting =>
    cases ms' with
    | nil => cases hprocess
    | cons m₁ ms₁ =>
      cases hprocess
      exact .inl ⟨m'', _, hwriting, List.mem_cons_of_mem _ hmem⟩
  | _ => exact .inl ⟨m', ms, hprocess, hmem⟩

theorem queue_of_queue (hstep : Base.Step b l b' out) (hmem : .dataProcess ∈ b'.processQueue) :
    .dataProcess ∈ b.processQueue ∨ b.main = .pushing := by
  cases hstep with
  | request r hpolling =>
    left
    cases r <;> simpa [Base.State.handle] using hmem
  | pushDestroy hresponse =>
    left
    simpa using hmem
  | pushFrame hmain => exact .inr hmain
  | pop props p rest hprocess hqueue =>
    left
    rw [hqueue]
    exact List.mem_cons_of_mem _ hmem
  | overflow q hqueue => exact .inl (hqueue.subset hmem)
  | _ => exact .inl hmem

theorem frame_of_frame (hstep : Base.Step b l b' out)
    (hmain : b'.main = .preprocessing ∨ b'.main = .pushing) :
    (b.main = .preprocessing ∨ b.main = .pushing) ∨
      b.main = .reading ∧ ∃ status, 0 < status ∧ l = .read status := by
  cases hstep with
  | request r hpolling => cases r <;> exact .inl hmain
  | main l main hmoves => cases hmoves <;> rcases hmain with h | h <;> cases h
  | read status hreading hstatus => exact .inr ⟨hreading, status, hstatus, rfl⟩
  | preprocess hpreprocessing => exact .inl (.inl hpreprocessing)
  | pushFrame hpushing => rcases hmain with h | h <;> cases h
  | _ => exact .inl hmain

theorem reads_of_reads (halive : Base.Alive b) (hstep : Base.Step b l b' out)
    (hreads : (b'.main = .testing ∨ b'.main = .reading) ∨ b'.recordingStart = true) :
    ((b.main = .testing ∨ b.main = .reading) ∨ b.recordingStart = true) ∨
      l = .request .startProcessStream := by
  cases hstep with
  | request r hpolling =>
    cases r with
    | startProcessStream => exact .inr rfl
    | stopProcessStream => exact .inl (hreads.imp id fun h => by cases h)
    | _ => exact .inl hreads
  | notify hresponse =>
    rw [halive.response] at hresponse
    cases hresponse
  | main l main hmoves =>
    left
    rcases hreads with hreads | hstart
    · cases hmoves with
      | wake hmain hstart => exact .inr hstart
      | goOn hmain hexit => exact .inl (.inl hmain)
      | _ => rcases hreads with h | h <;> cases h
    · exact .inr hstart
  | read status hreading hstatus => exact .inl (.inl (.inr hreading))
  | preprocess hmain =>
    rcases hreads with (h | h) | hstart
    · cases h
    · cases h
    · exact .inl (.inr hstart)
  | pushFrame hmain =>
    rcases hreads with (h | h) | hstart
    · cases h
    · cases h
    · exact .inl (.inr hstart)
  | _ => exact .inl hreads

end base

theorem Loaded.of_base {s : State} {l : Base.Label} {b : Base.State} {out : List Response}
    {rest : List Request} {socket : Nat} (halive : Base.Alive s.base)
    (hbase : Base.Step s.base l b out) (hsocket : socket ≤ s.socket)
    (hread : ∀ status, l = .read status → status.toNat ≤ s.socket)
    (hrest : rest ⊆ s.requestChannel)
    (hstart : l = .request .startProcessStream → .startProcessStream ∈ s.requestChannel)
    (h : Loaded { s with
      socket := socket, requestChannel := rest, base := b,
      responseChannel := s.responseChannel ++ out }) : Loaded s := by
  cases h with
  | dispatching hsome => exact .dispatching hsome
  | channel hmem hevent =>
    rcases List.mem_append.mp hmem with hmem | hmem
    · exact .channel hmem hevent
    · obtain ⟨m', ms, hprocess, hmem⟩ := hand_of_out hbase hmem hevent
      exact .hand hprocess hmem hevent
  | hand hprocess hmem hevent =>
    rcases hand_of_hand hbase hprocess hmem hevent with ⟨m', ms, hprocess, hmem⟩ | hmem
    · exact .hand hprocess hmem hevent
    · exact .queue hmem
  | queue hmem =>
    rcases queue_of_queue hbase hmem with hmem | hmain
    · exact .queue hmem
    · exact .frame (.inr hmain)
  | frame hmain =>
    rcases frame_of_frame hbase hmain with hmain | ⟨hmain, status, hstatus, rfl⟩
    · exact .frame hmain
    · -- the bytes that have been read
      have hle := hread status rfl
      exact .bytes (.inl (by omega)) (.main (.inr hmain))
  | bytes hbytes hreads =>
    have hbytes' : HasBytes s := hbytes.imp (fun h => Nat.lt_of_lt_of_le h hsocket) id
    refine .bytes hbytes' ?_
    have hbase' : ((b.main = .testing ∨ b.main = .reading) ∨ b.recordingStart = true) →
        Reads s := by
      intro hb
      rcases reads_of_reads halive hbase hb with (hmain | hstart') | heq
      · exact .main hmain
      · exact .start hstart'
      · exact .channel (hstart heq)
    cases hreads with
    | main hmain => exact hbase' (.inl hmain)
    | start hstart' => exact hbase' (.inr hstart')
    | channel hmem => exact .channel (hrest hmem)
    | queue hmem => exact .queue hmem

/-- Without a step of the base, only bytes and starts count. -/
theorem Loaded.carry {s s' : State} (h : Loaded s') (hbase : s'.base = s.base)
    (hdispatching : s'.dispatching = s.dispatching)
    (hresponse : s'.responseChannel = s.responseChannel) (hbytes : HasBytes s' → HasBytes s)
    (hstart : .startProcessStream ∈ s'.requestQueue ∨ .startProcessStream ∈ s'.requestChannel →
      .startProcessStream ∈ s.requestQueue ∨ .startProcessStream ∈ s.requestChannel) :
    Loaded s := by
  have hreads : .startProcessStream ∈ s'.requestQueue ∨ .startProcessStream ∈ s'.requestChannel →
      Reads s := fun hmem => (hstart hmem).elim .queue .channel
  cases h with
  | dispatching hsome => exact .dispatching (hdispatching ▸ hsome)
  | channel hmem hevent => exact .channel (hresponse ▸ hmem) hevent
  | hand hprocess hmem hevent => exact .hand (hbase ▸ hprocess) hmem hevent
  | queue hmem => exact .queue (hbase ▸ hmem)
  | frame hmain => exact .frame (hbase ▸ hmain)
  | bytes hsome hreads' =>
    refine .bytes (hbytes hsome) ?_
    cases hreads' with
    | main hmain => exact .main (hbase ▸ hmain)
    | start hstart => exact .start (hbase ▸ hstart)
    | channel hmem => exact hreads (.inr hmem)
    | queue hmem => exact hreads (.inl hmem)

/-- Nothing comes to be on the way but by a start. -/
theorem Loaded.of_flow {s s' : State} {l : Label} (halive : Base.Alive s.base) (h : Loaded s')
    (hstep : Flow s l s') : Loaded s := by
  cases hstep with
  | requestThread r rest hqueue =>
    refine h.carry rfl rfl rfl id ?_
    rw [hqueue]
    rintro (hmem | hmem)
    · exact .inl (List.mem_cons_of_mem _ hmem)
    · rcases List.mem_append.mp hmem with hmem | hmem
      · exact .inr hmem
      · rw [List.mem_singleton.mp hmem]
        exact .inl List.mem_cons_self
  | request r rest b out hchannel hbase =>
    refine Loaded.of_base halive hbase (Nat.le_refl _) (by simp) ?_ ?_ h
    · rw [hchannel]
      exact List.subset_cons_self r rest
    · intro heq
      cases heq
      rw [hchannel]
      exact List.mem_cons_self
  | base l b out socket hl hsocket hread hbase =>
    exact Loaded.of_base halive hbase hsocket hread (List.Subset.refl _)
      (fun heq => absurd heq (hl _)) h
  | receive m rest hnone hchannel =>
    cases h with
    | dispatching hsome =>
      refine .channel (m := m) ?_ hsome
      rw [hchannel]
      exact List.mem_cons_self
    | channel hmem hevent =>
      refine .channel ?_ hevent
      rw [hchannel]
      exact List.mem_cons_of_mem _ hmem
    | hand hprocess hmem hevent => exact .hand hprocess hmem hevent
    | queue hmem => exact .queue hmem
    | frame hmain => exact .frame hmain
    | bytes hbytes hreads =>
      refine .bytes hbytes ?_
      cases hreads with
      | main hmain => exact .main hmain
      | start hstart => exact .start hstart
      | channel hmem => exact .channel hmem
      | queue hmem => exact .queue hmem
  | dispatch hsome => exact .dispatching hsome
  | overflow q hqueue =>
    exact h.carry rfl rfl rfl id (.imp_left fun hmem => hqueue.subset hmem)

/-- The recording thread, without a stream, writes what it has read before. -/
theorem Loaded.of_fn {s s' : State} (hs : Streaming s)
    (hstart : s.recording.recordingStart = false) {len : Int} {written : Nat} (h : Loaded s')
    (hstep : ProcCallback.next c s (.fn len written) = some s') : Loaded s := by
  simp only [ProcCallback.next] at hstep
  split at hstep
  · obtain ⟨r', hr', rfl⟩ := Option.map_eq_some_iff.mp hstep
    have hnot := (RecordingThread.fnStep_recording hr' hstart (hs.fn hstart)).2
    refine h.carry rfl rfl rfl ?_ id
    rintro (hsocket | hfn)
    · by_cases hhandling : s.recording.fn = .handling 0
      · exact .inr hhandling
      · rw [if_neg hhandling] at hsocket
        exact .inl hsocket
    · exact absurd hfn (hnot 0)
  · cases hstep

theorem Loaded.of_client {s : State} {r' : RecordingThread.State} {procCallback calling : Bool}
    {unpushed : Option Request} (hfn : r'.fn = .handling 0 → s.recording.fn = .handling 0)
    (h : Loaded { s with
      recording := r', procCallback := procCallback, calling := calling, unpushed := unpushed }) :
    Loaded s :=
  h.carry rfl rfl rfl (.imp_right hfn) id

theorem unloaded_step {s s' : State} {l : Label} (hs : Streaming s) (hr : Requests s)
    (h : s.procCallback = false → ¬ Loaded s) (hcareful : Careful s l)
    (hstep : next c s l = some s') (hnull : s'.procCallback = false) : ¬ Loaded s' := by
  intro hloaded
  cases l with
  | call =>
    simp only [next] at hstep
    split at hstep
    · cases hstep
      cases hnull
    · cases hstep
  | result r =>
    simp only [next] at hstep
    split at hstep
    · next hcalling =>
      obtain ⟨r', hr', rfl⟩ := Option.map_eq_some_iff.mp hstep
      by_cases hzero : r = 0
      · simp only [hzero, if_true] at hnull
        rw [(hs.null hnull).2.2.2] at hcalling
        cases hcalling
      · refine hcareful hzero (hloaded.of_client ?_)
        simp only [RecordingThread.next] at hr'
        grind
    · cases hstep
  | stop =>
    simp only [next] at hstep
    split at hstep
    · obtain ⟨r', hr', rfl⟩ := Option.map_eq_some_iff.mp hstep
      refine h hnull (hloaded.of_client ?_)
      simp only [RecordingThread.next] at hr'
      grind
    · cases hstep
  | push =>
    obtain ⟨r, hsome, rfl⟩ := Option.map_eq_some_iff.mp hstep
    rw [(hs.null hnull).2.2.1] at hsome
    cases hsome
  | client =>
    simp only [next] at hstep
    split at hstep
    · obtain ⟨r', hr', rfl⟩ := Option.map_eq_some_iff.mp hstep
      simp only [RecordingThread.next, RecordingThread.clientStep, (hs.null hnull).1] at hr'
      cases hr'
    · cases hstep
  | fn len written =>
    have hcallback : s.procCallback = false := by
      simp only [next] at hstep
      split at hstep
      · obtain ⟨r', -, rfl⟩ := Option.map_eq_some_iff.mp hstep
        exact hnull
      · cases hstep
    have hstart := hs.recordingStart (hs.null hcallback).1 (hs.null hcallback).2.1
    exact h hcallback (hloaded.of_fn hs hstart hstep)
  | spurious =>
    obtain ⟨r', hr', rfl⟩ := Option.map_eq_some_iff.mp hstep
    refine h hnull (hloaded.of_client ?_)
    simp only [RecordingThread.next] at hr'
    grind
  | requestThread | request | base | receive | dispatch | overflow =>
    have hflow := flow_cases hstep rfl
    refine h ?_ (hloaded.of_flow hr.alive hflow)
    cases hflow
    all_goals exact hnull

/-- In careful runs nothing is on the way while the callback is null. -/
theorem unloaded {s : State} (h : Reachable ((system c).restrict Careful) s) :
    s.procCallback = false → ¬ Loaded s := by
  refine invariant_of_reachable ((system c).restrict Careful)
    (fun s => s.procCallback = false → ¬ Loaded s) ?_ ?_ h
  · rintro s rfl - hloaded
    cases hloaded with
    | dispatching hsome => exact hsome rfl
    | channel hmem => cases hmem
    | hand hprocess => cases hprocess
    | queue hmem => cases hmem
    | frame hmain => rcases hmain with h | h <;> cases h
    | bytes hbytes => rcases hbytes with h | h <;> cases h
  · rintro s l s' hreach hs ⟨hcareful, hstep⟩
    have hreach := hreach.of_restrict
    exact unloaded_step (streaming hreach) (requests hreach) hs hcareful hstep

/-! ### An event on the way comes out -/

variable (c) in
/-- It may be that an event meets a null callback. -/
def Doomed (s : State) : Prop := ∃ s', Reachable ((system c).startingAt s) s' ∧ ¬ Safe s'

theorem Doomed.head {s s' : State} {l : Label} (hstep : next c s l = some s')
    (h : Doomed c s') : Doomed c s := by
  obtain ⟨s'', hs'', hnot⟩ := h
  exact ⟨s'', hs''.head l hstep, hnot⟩

theorem doomed_of_dispatching {s : State} (hnull : s.procCallback = false)
    (hsome : s.dispatching ≠ none) : Doomed c s := by
  refine ⟨s, .refl _ _, fun hsafe => ?_⟩
  rw [hsafe hsome] at hnull
  cases hnull

theorem doomed_of_channel {ms : List Response} {s : State} (hnull : s.procCallback = false)
    (hchannel : s.responseChannel = ms) {m : Response} (hmem : m ∈ ms) (hevent : event m ≠ none) :
    Doomed c s := by
  induction ms generalizing s with
  | nil => cases hmem
  | cons m' ms ih =>
    by_cases hnone : s.dispatching = none
    · have hstep : next c s .receive =
          some { s with responseChannel := ms, dispatching := event m' } := by
        simp [next, hnone, hchannel]
      refine .head hstep ?_
      rcases List.mem_cons.mp hmem with rfl | hmem
      · exact doomed_of_dispatching hnull hevent
      · exact ih hnull rfl hmem
    · exact doomed_of_dispatching hnull hnone

theorem doomed_of_hand {ms : List Response} {m' : Response} {s : State}
    (hnull : s.procCallback = false) (hprocess : s.base.process = .writing m' ms) {m : Response}
    (hmem : m ∈ m' :: ms) (hevent : event m ≠ none) : Doomed c s := by
  induction ms generalizing s m' with
  | nil =>
    have hstep : next c s (.base (.process [])) = some { s with
        base := { s.base with process := .popping },
        responseChannel := s.responseChannel ++ [m'] } := by
      simp [next, State.baseNext, Base.next, hprocess, Base.ProcessThread.of]
    refine .head hstep (doomed_of_channel hnull rfl (m := m) ?_ hevent)
    rw [List.mem_singleton.mp hmem]
    simp
  | cons m₁ ms ih =>
    have hstep : next c s (.base (.process [])) = some { s with
        base := { s.base with process := .writing m₁ ms },
        responseChannel := s.responseChannel ++ [m'] } := by
      simp [next, State.baseNext, Base.next, hprocess, Base.ProcessThread.of]
    refine .head hstep ?_
    rcases List.mem_cons.mp hmem with rfl | hmem
    · exact doomed_of_channel hnull rfl (m := m) (by simp) hevent
    · exact ih hnull rfl hmem

/-- The process thread writes what it has and is ready for the next package. -/
theorem doomed_of_popping {s : State} (hprocess : s.base.process ≠ .exited)
    (h : ∀ channel, Doomed c { s with
      base := { s.base with process := .popping }, responseChannel := channel }) :
    Doomed c s := by
  obtain ⟨recording, cb, calling, unpushed, rq, rc, socket, base, channel, dispatching⟩ := s
  obtain ⟨response, main, process, rs, re, pq⟩ := base
  dsimp only at h
  cases process with
  | popping => exact h channel
  | exited => exact absurd rfl hprocess
  | writing m ms =>
    clear hprocess
    induction ms generalizing m channel with
    | nil => exact .head (l := .base (.process [])) rfl (h _)
    | cons m' ms ih => exact .head (l := .base (.process [])) rfl (ih _ _)

theorem doomed_of_queue {q : List Package} {s : State} (hnull : s.procCallback = false)
    (hprocess : s.base.process ≠ .exited) (hqueue : s.base.processQueue = q)
    (hdestroy : .destroy ∉ q) (hmem : .dataProcess ∈ q) : Doomed c s := by
  induction q generalizing s with
  | nil => cases hmem
  | cons p q ih =>
    rw [List.mem_cons, not_or] at hdestroy
    refine doomed_of_popping hprocess fun channel => ?_
    have hstep : next c { s with
        base := { s.base with process := .popping }, responseChannel := channel }
        (.base (.process [0])) = some { s with
          base := { s.base with process := p.handle [0], processQueue := q },
          responseChannel := channel } := by
      simp [next, State.baseNext, Base.next, hqueue]
    refine .head hstep ?_
    rcases List.mem_cons.mp hmem with rfl | hmem
    · -- the engines give an event for the frame
      exact doomed_of_hand (m := .onVoiceEvent 0) (by exact hnull) rfl List.mem_cons_self
        (by simp [event])
    · exact ih hnull (Base.Package.handle_ne_exited (Ne.symm hdestroy.1) _) rfl hdestroy.2 hmem

theorem doomed_of_frame {s : State} (hnull : s.procCallback = false) (halive : Base.Alive s.base)
    (hmain : s.base.main = .preprocessing ∨ s.base.main = .pushing) : Doomed c s := by
  have hpushing : ∀ {s : State}, s.procCallback = false → Base.Alive s.base →
      s.base.main = .pushing → Doomed c s := by
    intro s hnull halive hmain
    have hstep : next c s (.base .main) = some { s with base := { s.base with
        main := .waiting, processQueue := s.base.processQueue ++ [.dataProcess] } } := by
      simp [next, State.baseNext, Base.next, hmain]
    exact .head hstep (doomed_of_queue hnull halive.process rfl (by simp [halive.queue]) (by simp))
  rcases hmain with hmain | hmain
  · have hstep : next c s (.base (.preprocess true)) = some { s with
        base := { s.base with main := .pushing } } := by
      simp [next, State.baseNext, Base.next, hmain]
    refine .head hstep (hpushing hnull ?_ rfl)
    exact ⟨halive.response, by simp, halive.process, halive.exit, halive.queue⟩
  · exact hpushing hnull halive hmain

theorem doomed_of_main {s : State} (hnull : s.procCallback = false) (halive : Base.Alive s.base)
    (hsocket : 0 < s.socket) (hmain : s.base.main = .testing ∨ s.base.main = .reading) :
    Doomed c s := by
  have hreading : ∀ {s : State}, s.procCallback = false → Base.Alive s.base → 0 < s.socket →
      s.base.main = .reading → Doomed c s := by
    intro s hnull halive hsocket hmain
    have hone : 1 ≤ s.socket ∧ 1 ≤ c.frameSize := ⟨hsocket, c.frameSize_pos⟩
    have hstep : next c s (.base (.read 1)) = some { s with
        socket := s.socket - 1, base := { s.base with main := .preprocessing } } := by
      simp [next, State.baseNext, Base.next, hmain, hone]
    refine .head hstep (doomed_of_frame hnull ?_ (.inl rfl))
    exact ⟨halive.response, by simp, halive.process, halive.exit, halive.queue⟩
  rcases hmain with hmain | hmain
  · have hstep : next c s (.base .main) = some { s with
        base := { s.base with main := .reading } } := by
      simp [next, State.baseNext, Base.next, hmain, halive.exit]
    refine .head hstep (hreading hnull ?_ hsocket rfl)
    exact ⟨halive.response, by simp, halive.process, halive.exit, halive.queue⟩
  · exact hreading hnull halive hsocket hmain

theorem doomed_of_start {s : State} (hnull : s.procCallback = false) (halive : Base.Alive s.base)
    (hsocket : 0 < s.socket) (hstart : s.base.recordingStart = true) : Doomed c s := by
  have hwaiting : ∀ {s : State}, s.procCallback = false → Base.Alive s.base → 0 < s.socket →
      s.base.recordingStart = true → s.base.main = .waiting → Doomed c s := by
    intro s hnull halive hsocket hstart hmain
    have hstep : next c s (.base .main) = some { s with
        base := { s.base with main := .testing } } := by
      simp [next, State.baseNext, Base.next, hmain, hstart]
    refine .head hstep (doomed_of_main hnull ?_ hsocket (.inl rfl))
    exact ⟨halive.response, by simp, halive.process, halive.exit, halive.queue⟩
  cases hmain : s.base.main with
  | waiting => exact hwaiting hnull halive hsocket hstart hmain
  | testing => exact doomed_of_main hnull halive hsocket (.inl hmain)
  | reading => exact doomed_of_main hnull halive hsocket (.inr hmain)
  | failed =>
    have hstep : next c s (.base .main) = some { s with
        base := { s.base with main := .waiting } } := by
      simp [next, State.baseNext, Base.next, hmain, halive.exit]
    refine .head hstep (hwaiting hnull ?_ hsocket hstart rfl)
    exact ⟨halive.response, by simp, halive.process, halive.exit, halive.queue⟩
  | preprocessing => exact doomed_of_frame hnull halive (.inl hmain)
  | pushing => exact doomed_of_frame hnull halive (.inr hmain)
  | exited => exact absurd hmain halive.main

/-- The base reads the requests up to the start. -/
theorem doomed_of_requestChannel {q : List Request} {s : State} (hnull : s.procCallback = false)
    (halive : Base.Alive s.base) (hsocket : 0 < s.socket) (hchannel : s.requestChannel = q)
    (hdestroy : .destroy ∉ q) (hmem : .startProcessStream ∈ q) : Doomed c s := by
  induction q generalizing s with
  | nil => cases hmem
  | cons r q ih =>
    rw [List.mem_cons, not_or] at hdestroy
    have hstep : next c s .request = some { s with
        requestChannel := q, base := s.base.handle r } := by
      simp [next, State.baseNext, Base.next, hchannel, halive.response]
    have halive' := halive.handle (Ne.symm hdestroy.1)
    refine .head hstep ?_
    rcases List.mem_cons.mp hmem with rfl | hmem
    · exact doomed_of_start hnull halive' hsocket rfl
    · exact ih hnull halive' hsocket rfl hdestroy.2 hmem

theorem doomed_of_requestQueue {q : List Request} {s : State} (hnull : s.procCallback = false)
    (halive : Base.Alive s.base) (hsocket : 0 < s.socket) (hqueue : s.requestQueue = q)
    (hdestroy : .destroy ∉ q) (hchannel : .destroy ∉ s.requestChannel)
    (hmem : .startProcessStream ∈ q) : Doomed c s := by
  induction q generalizing s with
  | nil => cases hmem
  | cons r q ih =>
    rw [List.mem_cons, not_or] at hdestroy
    have hstep : next c s .requestThread = some { s with
        requestQueue := q, requestChannel := s.requestChannel ++ [r] } := by
      simp [next, hqueue]
    have hchannel' : .destroy ∉ s.requestChannel ++ [r] := by simp [hchannel, hdestroy.1]
    refine .head hstep ?_
    rcases List.mem_cons.mp hmem with rfl | hmem
    · exact doomed_of_requestChannel hnull halive hsocket rfl hchannel' (by simp)
    · exact ih hnull halive hsocket rfl hdestroy.2 hchannel' hmem

theorem doomed_of_bytes {s : State} (hnull : s.procCallback = false) (hr : Requests s)
    (hbytes : HasBytes s) (hreads : Reads s) : Doomed c s := by
  have hsocket : ∀ {s : State}, s.procCallback = false → Requests s → 0 < s.socket → Reads s →
      Doomed c s := by
    intro s hnull hr hsocket hreads
    cases hreads with
    | main hmain => exact doomed_of_main hnull hr.alive hsocket hmain
    | start hstart => exact doomed_of_start hnull hr.alive hsocket hstart
    | channel hmem => exact doomed_of_requestChannel hnull hr.alive hsocket rfl hr.channel hmem
    | queue hmem => exact doomed_of_requestQueue hnull hr.alive hsocket rfl hr.queue hr.channel hmem
  rcases hbytes with hbytes | hfn
  · exact hsocket hnull hr hbytes hreads
  · -- the frame is written first
    have hstep : next c s (.fn 0 1) = some { s with
        recording := { s.recording with fn := .top, currentRetry := 0 }
        socket := s.socket + 1 } := by
      have hone : 1 ≤ c.frameSize := c.frameSize_pos
      simp [next, RecordingThread.next, RecordingThread.fnStep, hfn, hone]
    refine .head hstep (hsocket hnull ⟨hr.unpushed, hr.queue, hr.channel, hr.alive⟩ (by simp) ?_)
    cases hreads with
    | main hmain => exact .main hmain
    | start hstart => exact .start hstart
    | channel hmem => exact .channel hmem
    | queue hmem => exact .queue hmem

theorem doomed_of_loaded {s : State} (hnull : s.procCallback = false) (hr : Requests s)
    (h : Loaded s) : Doomed c s := by
  cases h with
  | dispatching hsome => exact doomed_of_dispatching hnull hsome
  | channel hmem hevent => exact doomed_of_channel hnull rfl hmem hevent
  | hand hprocess hmem hevent => exact doomed_of_hand hnull hprocess hmem hevent
  | queue hmem => exact doomed_of_queue hnull hr.alive.process rfl hr.alive.queue hmem
  | frame hmain => exact doomed_of_frame hnull hr.alive hmain
  | bytes hbytes hreads => exact doomed_of_bytes hnull hr hbytes hreads

/-! ### Starts that fail -/

/-- In every run whose steps are careful the callback is there when an event is
    to be dispatched; and after any start that fails while something is on the
    way, an event may meet a null callback. -/
theorem callback_set (c : Config) :
    (∀ s, Reachable ((system c).restrict Careful) s → Safe s) ∧
    (∀ s r s', Reachable (system c) s → (system c).step s (.result r) s' → r ≠ 0 → Loaded s →
      ∃ s'', Reachable ((system c).startingAt s') s'' ∧ ¬ Safe s'') := by
  refine ⟨?_, ?_⟩
  · intro s h hsome
    cases hcallback : s.procCallback with
    | true => rfl
    | false => exact absurd (.dispatching hsome) (unloaded h hcallback)
  · intro s r s' h hstep hr hloaded
    have hrequests := requests (.step _ h hstep)
    have hnext : next c s (.result r) = some s' := hstep
    simp only [next] at hnext
    split at hnext
    · obtain ⟨r', hr', rfl⟩ := Option.map_eq_some_iff.mp hnext
      refine doomed_of_loaded rfl hrequests ?_
      refine Loaded.of_client (fun hfn => ?_) hloaded
      rw [← hfn]
      simp only [RecordingThread.next] at hr'
      grind
    · cases hnext

/-- A stream is stopped and the next start fails before the event of a frame of
    it has come back. -/
def revoked : List Label :=
  [.fn 0 0, .fn 0 0, .fn 0 0, .fn 0 0, .call, .result 0, .client, .push, .requestThread, .request,
    .fn 0 0, .fn 0 0, .fn 0 0, .fn 0 0, .fn 0 0, .fn 0 4, .base .main, .base .main, .base (.read 4),
    .stop, .push, .client, .call, .result 1, .base (.preprocess true), .base .main,
    .base (.process [7]), .base (.process []), .receive]

/-- An event may meet a null callback. -/
theorem not_callback_set :
    ¬ ∀ (c : Config) (s : State), Reachable (system c) s → Safe s := by
  intro h
  have hrun : (exec (next ⟨3, 4, by decide⟩) initial revoked).map
      (fun s => (s.dispatching, s.procCallback)) = some (some 7, false) := by decide
  obtain ⟨s, hs, hplaces⟩ := Option.map_eq_some_iff.mp hrun
  simp only [Prod.mk.injEq] at hplaces
  have hsafe := h ⟨3, 4, by decide⟩ s (reachable_of_exec rfl hs)
  rw [Safe, hplaces.1, hplaces.2] at hsafe
  exact absurd (hsafe (by simp)) (by decide)

end ProcCallback

end BlackSiren

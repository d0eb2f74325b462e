import BlackSiren.Framework.CondVar
import BlackSiren.Framework.System

/-! # Starting the service

    `SirenProxy::init_siren` forks, starts the proxy's threads and waits for one
    message of the child.  The child's main thread starts the process thread,
    waits for it and then initialises the preprocessor itself:

        base   process thread    SirenAudioVBVProcessor::init
        base   main thread       SirenAudioPreProcessor::init, ON_INIT_OK / FAILED
        proxy  response thread   waitingInit, sirenBaseInitFailed
        proxy  client thread     init_siren

    `Base` and `Proxy` are the two processes from the fork on, and the message is
    all that goes from one to the other.  `parseConfigFile` returns `CONFIG_OK`
    or aborts, so `result` is `SIREN_STATUS_OK` by then.  What needs a request of
    the client to go on waits for ever here.
-/

open LTS CondVar

namespace BlackSiren

def SIREN_STATUS_OK : Int := 0

namespace SirenInit

/-- What the initialisers come to. -/
structure Outcome where
  /-- `SirenAudioVBVProcessor::init` returns `SIREN_STATUS_OK`. -/
  processor : Bool
  /-- `SirenAudioPreProcessor::init` returns `SIREN_STATUS_OK`. -/
  preprocessor : Bool

/-- The messages about it. -/
inductive Reply where
  /-- `SIREN_RESPONSE_MSG_ON_INIT_OK` -/
  | initOk
  /-- `SIREN_RESPONSE_MSG_ON_INIT_FAILED` -/
  | initFailed
  deriving DecidableEq

/-- The one message that tells the outcome. -/
def Outcome.reply (o : Outcome) : Reply :=
  if o.processor && o.preprocessor then .initOk else .initFailed

/-! ### The base -/

/-- `SirenBase::processThreadHandler` -/
inductive ProcessThread where
  | notStarted
  /-- In `audioProcessor.init()`. -/
  | initialising
  /-- The flags are set, before `initCond.notify_one()`. -/
  | notifying (ok : Bool)
  /-- In `processQueue.pop`. -/
  | popping
  | exited
  deriving DecidableEq

/-- `SirenBase::main` -/
inductive MainThread where
  | launchProcessThread
  | waitingProcessInit (w : Waiter)
  /-- `if (processInitFailed)` -/
  | testInitFailed
  | launchResponseThread
  /-- In `preProcessor.init()`; from here on `loopRecording`. -/
  | initialising
  | pushDestroy
  | writeInitFailed
  | writeInitOk
  /-- In `recordingCond.wait`. -/
  | recording
  /-- In `responseThread.join()`. -/
  | joinResponse
  deriving DecidableEq

structure Base where
  main : MainThread
  process : ProcessThread
  /-- The base's response thread waits for requests. -/
  responseLaunched : Bool
  processThreadInit : Bool
  processInitFailed : Bool
  /-- `processQueue` holds a `SIREN_REQUEST_MSG_DESTROY` package. -/
  destroyQueued : Bool
  /-- What the base has written on the response channel. -/
  sent : List Reply
  deriving DecidableEq

def MainThread.notify : MainThread → MainThread
  | .waitingProcessInit w => .waitingProcessInit w.notify
  | main => main

def Base.mainStep (o : Outcome) (b : Base) : Option Base :=
  match b.main with
  | .launchProcessThread =>
      some { b with main := .waitingProcessInit .checking, process := .initialising }
  | .waitingProcessInit w =>
      (w.run b.processThreadInit).map fun w' =>
        { b with main := w'.elim .testInitFailed .waitingProcessInit }
  | .testInitFailed =>
      -- no return follows the message
      some { b with
        main := .launchResponseThread
        sent := if b.processInitFailed then b.sent ++ [.initFailed] else b.sent }
  | .launchResponseThread => some { b with main := .initialising, responseLaunched := true }
  | .initialising =>
      some { b with main := if o.preprocessor then .writeInitOk else .pushDestroy }
  | .pushDestroy => some { b with main := .writeInitFailed, destroyQueued := true }
  | .writeInitFailed => some { b with main := .joinResponse, sent := b.sent ++ [.initFailed] }
  | .writeInitOk => some { b with main := .recording, sent := b.sent ++ [.initOk] }
  | .recording => none
  | .joinResponse => none

def Base.processStep (o : Outcome) (b : Base) : Option Base :=
  match b.process with
  | .notStarted => none
  | .initialising =>
      -- without `initMutex`
      if o.processor then
        some { b with process := .notifying true, processThreadInit := true }
      else
        some { b with
          process := .notifying false
          processInitFailed := true
          processThreadInit := false }
  | .notifying ok =>
      some { b with main := b.main.notify, process := if ok then .popping else .exited }
  | .popping => if b.destroyQueued then some { b with process := .exited } else none
  | .exited => none

def Base.spurious (b : Base) : Option Base :=
  match b.main with
  | .waitingProcessInit w => w.spurious.map fun w' => { b with main := .waitingProcessInit w' }
  | _ => none

/-! ### The proxy -/

/-- `SirenProxy::init_siren`, in the parent. -/
inductive ClientThread where
  | launchThreads
  | waitingRequestResponseThread (w : Waiter)
  | launchRecordingThread
  | waitingInit (w : Waiter)
  /-- `if (sirenBaseInitFailed)`, with `initMutex` up to `stopRecording`. -/
  | testInitFailed
  /-- `stopRequestThread(true)` -/
  | pushDestroyOnInit
  | joinRequest
  | joinResponse
  | stopRecording
  /-- `input_callback->init_input` -/
  | initInput
  | returned (result : Int)
  deriving DecidableEq

/-- `SirenProxy::responseThreadHandler` -/
inductive ResponseThread where
  | notStarted
  /-- Before `requestResponseLaunch` is set. -/
  | announcing
  | polling
  | handling (msg : Reply)
  | exited
  deriving DecidableEq

/-- `SirenProxy::requestThreadHandler` -/
inductive RequestThread where
  | notStarted
  | popping
  | exited
  deriving DecidableEq

structure Proxy where
  client : ClientThread
  request : RequestThread
  response : ResponseThread
  requestResponseLaunch : Bool
  waitingInit : Bool
  sirenBaseInitFailed : Bool
  /-- `requestQueue` holds `SIREN_REQUEST_MSG_DESTROY_ON_INIT`. -/
  destroyOnInit : Bool
  recordingTerm : Bool
  /-- What the response thread has read. -/
  received : List Reply
  deriving DecidableEq

/-- `launchMutex` is taken. -/
def ClientThread.holdsLaunchMutex : ClientThread → Bool
  | .waitingRequestResponseThread .blocking => true
  | _ => false

/-- `initMutex` is taken. -/
def ClientThread.holdsInitMutex : ClientThread → Bool
  | .waitingInit .blocking => true
  | .testInitFailed => true
  | .pushDestroyOnInit => true
  | .joinRequest => true
  | .joinResponse => true
  | .stopRecording => true
  | _ => false

/-- `launchCond.notify_one()` -/
def ClientThread.notifyLaunch : ClientThread → ClientThread
  | .waitingRequestResponseThread w => .waitingRequestResponseThread w.notify
  | client => client

/-- `initCond.notify_one()` -/
def ClientThread.notifyInit : ClientThread → ClientThread
  | .waitingInit w => .waitingInit w.notify
  | client => client

def Proxy.clientStep (p : Proxy) : Option Proxy :=
  match p.client with
  | .launchThreads =>
      some { p with
        client := .waitingRequestResponseThread .checking
        request := .popping
        response := .announcing }
  | .waitingRequestResponseThread w =>
      (w.run p.requestResponseLaunch).map fun w' =>
        { p with client := w'.elim .launchRecordingThread .waitingRequestResponseThread }
  | .launchRecordingThread => some { p with client := .waitingInit .checking }
  | .waitingInit w =>
      (w.run p.waitingInit).map fun w' =>
        { p with client := w'.elim .testInitFailed .waitingInit }
  | .testInitFailed =>
      some { p with client := if p.sirenBaseInitFailed then .pushDestroyOnInit else .initInput }
  | .pushDestroyOnInit => some { p with client := .joinRequest, destroyOnInit := true }
  | .joinRequest => if p.request = .exited then some { p with client := .joinResponse } else none
  | .joinResponse =>
      if p.response = .exited then some { p with client := .stopRecording } else none
  | .stopRecording => some { p with client := .initInput, recordingTerm := true }
  -- `result` is still the one of `parseConfigFile`
  | .initInput => some { p with client := .returned SIREN_STATUS_OK }
  | .returned _ => none

def Proxy.requestStep (p : Proxy) : Option Proxy :=
  match p.request with
  | .popping => if p.destroyOnInit then some { p with request := .exited } else none
  | _ => none

/-- `sent` is what the base has written. -/
def Proxy.responseStep (sent : List Reply) (p : Proxy) : Option Proxy :=
  match p.response with
  | .notStarted => none
  | .announcing =>
      if p.client.holdsLaunchMutex then none
      else some { p with
        client := p.client.notifyLaunch
        requestResponseLaunch := true
        response := .polling }
  | .polling =>
      (sent[p.received.length]?).map fun msg =>
        { p with response := .handling msg, received := p.received ++ [msg] }
  | .handling msg =>
      if p.client.holdsInitMutex then none
      else
        match msg with
        | .initOk => some { p with
            client := p.client.notifyInit
            waitingInit := true
            response := .announcing }
        | .initFailed => some { p with
            client := p.client.notifyInit
            waitingInit := true
            sirenBaseInitFailed := true
            response := .exited }
  | .exited => none

def Proxy.spurious (p : Proxy) : Option Proxy :=
  match p.client with
  | .waitingRequestResponseThread w =>
      w.spurious.map fun w' => { p with client := .waitingRequestResponseThread w' }
  | .waitingInit w => w.spurious.map fun w' => { p with client := .waitingInit w' }
  | _ => none

/-- `init_siren` of `siren.cpp`: is the handle other than zero? -/
def handle (result : Int) : Bool := result == SIREN_STATUS_OK

/-! ### The system -/

structure State where
  base : Base
  proxy : Proxy
  deriving DecidableEq

/-- Right after the fork. -/
def forked : State where
  base := ⟨.launchProcessThread, .notStarted, false, false, false, false, []⟩
  proxy := ⟨.launchThreads, .notStarted, .notStarted, false, false, false, false, false, []⟩

inductive Label where
  | main
  | process
  | spuriousMain
  | client
  | request
  | response
  | spuriousClient
  deriving DecidableEq

def next (o : Outcome) (s : State) : Label → Option State
  | .main => (s.base.mainStep o).map fun b => { s with base := b }
  | .process => (s.base.processStep o).map fun b => { s with base := b }
  | .spuriousMain => s.base.spurious.map fun b => { s with base := b }
  | .client => s.proxy.clientStep.map fun p => { s with proxy := p }
  | .request => s.proxy.requestStep.map fun p => { s with proxy := p }
  | .response => (s.proxy.responseStep s.base.sent).map fun p => { s with proxy := p }
  | .spuriousClient => s.proxy.spurious.map fun p => { s with proxy := p }

def system (o : Outcome) : System State Label := .ofFn (· = forked) (next o)

/-- No thread can go on. A wake-up without a notification cannot be counted on. -/
def Stuck (o : Outcome) (s : State) : Prop :=
  ∀ l, l ≠ .spuriousMain → l ≠ .spuriousClient → next o s l = none

/-- `init_siren` waits for the message of the base. -/
def Awaiting (s : State) : Prop := ∃ w, s.proxy.client = .waitingInit w

/-- What starting the service promises. -/
structure Handshake (o : Outcome) (s : State) : Prop where
  /-- The base writes no message but the right one, and that once. -/
  message : s.base.sent = [] ∨ s.base.sent = [o.reply]
  /-- It does write it. -/
  written : Stuck o s → s.base.sent = [o.reply]
  /-- `init_siren` does not wait for ever. -/
  heard : Stuck o s → ¬ Awaiting s
  /-- A handle means that the base is ready. -/
  handed : ∀ result, s.proxy.client = .returned result → handle result = true →
    .initOk ∈ s.proxy.received

/-! ### The base comes up -/

/-- Where the base can be when both initialisers succeed and the process thread
    does not notify while the main thread is about to sleep. -/
inductive Base.Rising : Base → Prop
  | launching : Rising ⟨.launchProcessThread, .notStarted, false, false, false, false, []⟩
  | initialising (w : Waiter) :
      Rising ⟨.waitingProcessInit w, .initialising, false, false, false, false, []⟩
  | notifying (w : Waiter) :
      Rising ⟨.waitingProcessInit w, .notifying true, false, true, false, false, []⟩
  | notified : Rising ⟨.waitingProcessInit .checking, .popping, false, true, false, false, []⟩
  | past (main : MainThread) (process : ProcessThread) (response : Bool)
      (hmain : main ∈ [.testInitFailed, .launchResponseThread, .initialising, .writeInitOk])
      (hprocess : process ∈ [.notifying true, .popping]) :
      Rising ⟨main, process, response, true, false, false, []⟩
  | recording (process : ProcessThread) (response : Bool)
      (hprocess : process ∈ [.notifying true, .popping]) :
      Rising ⟨.recording, process, response, true, false, false, [.initOk]⟩

namespace Base.Rising

variable {b b' : Base}

theorem mainStep (h : b.Rising) (hstep : b.mainStep ⟨true, true⟩ = some b') : b'.Rising := by
  cases h with
  | launching => cases hstep; exact .initialising .checking
  | initialising w =>
    cases w with
    | checking => cases hstep; exact .initialising .blocking
    | blocking => cases hstep; exact .initialising .asleep
    | asleep => cases hstep
  | notifying w =>
    cases w with
    | checking => cases hstep; exact .past _ _ _ (by decide) (by decide)
    | blocking => cases hstep; exact .notifying .asleep
    | asleep => cases hstep
  | notified => cases hstep; exact .past _ _ _ (by decide) (by decide)
  | past main process response hmain hprocess =>
    simp only [List.mem_cons, List.not_mem_nil, or_false] at hmain
    rcases hmain with rfl | rfl | rfl | rfl
    · cases hstep; exact .past _ _ _ (by decide) hprocess
    · cases hstep; exact .past _ _ _ (by decide) hprocess
    · cases hstep; exact .past _ _ _ (by decide) hprocess
    · cases hstep; exact .recording _ _ hprocess
  | recording process response hprocess => cases hstep

/-- The notification must not fall into the gap. -/
theorem processStep (h : b.Rising) (hstep : b.processStep ⟨true, true⟩ = some b')
    (hheard : b.process = .notifying true → b.main ≠ .waitingProcessInit .blocking) :
    b'.Rising := by
  cases h with
  | launching => cases hstep
  | initialising w => cases hstep; exact .notifying w
  | notifying w =>
    cases w with
    | checking => cases hstep; exact .notified
    -- the one notification that would be lost
    | blocking => exact absurd rfl (hheard rfl)
    | asleep => cases hstep; exact .notified
  | notified => cases hstep
  | past main process response hmain hprocess =>
    simp only [List.mem_cons, List.not_mem_nil, or_false] at hprocess
    rcases hprocess with rfl | rfl
    · cases hstep
      have hnotify : main.notify = main := by
        simp only [List.mem_cons, List.not_mem_nil, or_false] at hmain
        rcases hmain with rfl | rfl | rfl | rfl <;> rfl
      exact .past _ _ _ (by rw [hnotify]; exact hmain) (by decide)
    · cases hstep
  | recording process response hprocess =>
    simp only [List.mem_cons, List.not_mem_nil, or_false] at hprocess
    rcases hprocess with rfl | rfl
    · cases hstep; exact .recording _ _ (by decide)
    · cases hstep

theorem spurious (h : b.Rising) (hstep : b.spurious = some b') : b'.Rising := by
  cases h with
  | launching => cases hstep
  | initialising w =>
    cases w with
    | checking => cases hstep
    | blocking => cases hstep
    | asleep => cases hstep; exact .initialising .checking
  | notifying w =>
    cases w with
    | checking => cases hstep
    | blocking => cases hstep
    | asleep => cases hstep; exact .notifying .checking
  | notified => cases hstep
  | past main process response hmain hprocess =>
    simp only [List.mem_cons, List.not_mem_nil, or_false] at hmain
    rcases hmain with rfl | rfl | rfl | rfl <;> cases hstep
  | recording process response hprocess => cases hstep

theorem sent_eq (h : b.Rising) : b.sent = [] ∨ b.sent = [.initOk] := by
  cases h with
  | recording process response hprocess => exact .inr rfl
  | launching => exact .inl rfl
  | initialising w => exact .inl rfl
  | notifying w => exact .inl rfl
  | notified => exact .inl rfl
  | past main process response hmain hprocess => exact .inl rfl

/-- Until the message is written one of the two threads goes on. -/
theorem moves (h : b.Rising) (hsent : b.sent = []) :
    b.mainStep ⟨true, true⟩ ≠ none ∨ b.processStep ⟨true, true⟩ ≠ none := by
  cases h with
  | launching => left; intro h; cases h
  | initialising w => right; intro h; cases h
  | notifying w => right; intro h; cases h
  | notified => left; intro h; cases h
  | past main process response hmain hprocess =>
    left
    simp only [List.mem_cons, List.not_mem_nil, or_false] at hmain
    rcases hmain with rfl | rfl | rfl | rfl <;> (intro h; cases h)
  | recording process response hprocess => cases hsent

end Base.Rising

/-! ### The proxy hears -/

/-- `init_siren` has seen `waitingInit`. -/
def ClientThread.told : ClientThread → Bool
  | .testInitFailed => true
  | .pushDestroyOnInit => true
  | .joinRequest => true
  | .joinResponse => true
  | .stopRecording => true
  | .initInput => true
  | .returned _ => true
  | _ => false

@[simp] theorem ClientThread.notifyLaunch_told (c : ClientThread) :
    c.notifyLaunch.told = c.told := by
  cases c <;> rfl

@[simp] theorem ClientThread.notifyLaunch_eq_launchThreads {c : ClientThread} :
    c.notifyLaunch = .launchThreads ↔ c = .launchThreads := by
  cases c <;> simp [notifyLaunch]

@[simp] theorem ClientThread.notifyLaunch_eq_waitingInit {c : ClientThread} {w : Waiter} :
    c.notifyLaunch = .waitingInit w ↔ c = .waitingInit w := by
  cases c <;> simp [notifyLaunch]

@[simp] theorem ClientThread.notifyInit_eq_launchThreads {c : ClientThread} :
    c.notifyInit = .launchThreads ↔ c = .launchThreads := by
  cases c <;> simp [notifyInit]

@[simp] theorem ClientThread.notifyInit_eq_waitingLaunch {c : ClientThread} {w : Waiter} :
    c.notifyInit = .waitingRequestResponseThread w ↔ c = .waitingRequestResponseThread w := by
  cases c <;> simp [notifyInit]

/-- What the proxy knows while only `ON_INIT_OK` is written. -/
structure Proxy.Listening (p : Proxy) : Prop where
  /-- All flags are set under their lock. -/
  heardLaunch : ∀ w, p.client = .waitingRequestResponseThread w → w.Heard p.requestResponseLaunch
  heardInit : ∀ w, p.client = .waitingInit w → w.Heard p.waitingInit
  started : p.response = .notStarted ↔ p.client = .launchThreads
  notExited : p.response ≠ .exited
  handling : ∀ msg, p.response = .handling msg → msg = .initOk ∧ .initOk ∈ p.received
  /-- A message that was read is being handled or known. -/
  pending : p.received = [] ∨ p.waitingInit = true ∨ ∃ msg, p.response = .handling msg
  known : p.waitingInit = true → .initOk ∈ p.received
  told : p.client.told = true → p.waitingInit = true

namespace Proxy.Listening

variable {p p' : Proxy}

theorem forked : Proxy.Listening SirenInit.forked.proxy := by
  constructor <;> simp [SirenInit.forked, ClientThread.told]

/-- The client thread moves on; what the response thread reads and writes stays. -/
theorem of_client (h : p.Listening) {client : ClientThread} (destroy term : Bool)
    (hlaunch : ∀ w, client = .waitingRequestResponseThread w → w.Heard p.requestResponseLaunch)
    (hinit : ∀ w, client = .waitingInit w → w.Heard p.waitingInit)
    (hfrom : p.client ≠ .launchThreads) (hto : client ≠ .launchThreads)
    (htold : client.told = true → p.waitingInit = true) :
    Proxy.Listening { p with
      client := client, destroyOnInit := destroy, recordingTerm := term } where
  heardLaunch := hlaunch
  heardInit := hinit
  started := ⟨fun hr => absurd (h.started.mp hr) hfrom, fun hc => absurd hc hto⟩
  notExited := h.notExited
  handling := h.handling
  pending := h.pending
  known := h.known
  told := htold

/-- The client thread moves on from one place without a lock to another. -/
theorem of_client_told (h : p.Listening) {client : ClientThread} (destroy term : Bool)
    (hfrom : p.client.told = true) (hto : client.told = true) :
    Proxy.Listening { p with
      client := client, destroyOnInit := destroy, recordingTerm := term } := by
  apply h.of_client
  · intro w hw; rw [hw] at hto; cases hto
  · intro w hw; rw [hw] at hto; cases hto
  · intro hc; rw [hc] at hfrom; cases hfrom
  · intro hc; rw [hc] at hto; cases hto
  · intro _; exact h.told hfrom

theorem waitLaunch (h : p.Listening) (hfrom : p.client ≠ .launchThreads) {w : Waiter}
    (hw : w.Heard p.requestResponseLaunch) :
    Proxy.Listening { p with client := .waitingRequestResponseThread w } := by
  apply h.of_client
  · intro w' hw'
    cases hw'
    exact hw
  · intro w' hw'; cases hw'
  · exact hfrom
  · intro hne; cases hne
  · intro ht; cases ht

theorem waitInit (h : p.Listening) (hfrom : p.client ≠ .launchThreads) {w : Waiter}
    (hw : w.Heard p.waitingInit) : Proxy.Listening { p with client := .waitingInit w } := by
  apply h.of_client
  · intro w' hw'; cases hw'
  · intro w' hw'
    cases hw'
    exact hw
  · exact hfrom
  · intro hne; cases hne
  · intro ht; cases ht

/-- A response thread that runs has been launched. -/
theorem launched (h : p.Listening) (hr : p.response ≠ .notStarted) : p.client ≠ .launchThreads :=
  fun hc => hr (h.started.mpr hc)

theorem clientStep (h : p.Listening) (hstep : p.clientStep = some p') : p'.Listening := by
  unfold Proxy.clientStep at hstep
  split at hstep
  · -- the response thread starts
    next hc =>
    cases hstep
    have hresponse := h.started.mpr hc
    refine ⟨?_, ?_, ?_, ?_, ?_, ?_, h.known, ?_⟩
    · intro w hw
      cases hw
      exact Waiter.heard_checking _
    · intro w hw; cases hw
    · constructor <;> (intro hr; cases hr)
    · intro hr; cases hr
    · intro msg hr; cases hr
    · rcases h.pending with hnil | hwait | ⟨msg, hmsg⟩
      · exact .inl hnil
      · exact .inr (.inl hwait)
      · rw [hresponse] at hmsg; cases hmsg
    · intro ht; cases ht
  · next w hc =>
    obtain ⟨w', hrun, rfl⟩ := Option.map_eq_some_iff.mp hstep
    cases w' with
    | none =>
      apply h.of_client
      · intro w' hw'; cases hw'
      · intro w' hw'; cases hw'
      · rw [hc]; intro hne; cases hne
      · intro hne; cases hne
      · intro ht; cases ht
    | some w' =>
      exact h.waitLaunch (by rw [hc]; intro hne; cases hne) ((h.heardLaunch w hc).run hrun)
  · next hc =>
    cases hstep
    exact h.waitInit (by rw [hc]; intro hne; cases hne) (Waiter.heard_checking _)
  · next w hc =>
    obtain ⟨w', hrun, rfl⟩ := Option.map_eq_some_iff.mp hstep
    cases w' with
    | none =>
      apply h.of_client
      · intro w' hw'; cases hw'
      · intro w' hw'; cases hw'
      · rw [hc]; intro hne; cases hne
      · intro hne; cases hne
      · intro _
        exact Waiter.flag_of_run hrun
    | some w' =>
      exact h.waitInit (by rw [hc]; intro hne; cases hne) ((h.heardInit w hc).run hrun)
  · next hc =>
    cases hstep
    apply h.of_client_told _ _ (by rw [hc]; rfl)
    split <;> rfl
  · next hc =>
    cases hstep
    exact h.of_client_told _ _ (by rw [hc]; rfl) rfl
  · next hc =>
    split at hstep
    · cases hstep
      exact h.of_client_told _ _ (by rw [hc]; rfl) rfl
    · cases hstep
  · next hc =>
    split at hstep
    · cases hstep
      exact h.of_client_told _ _ (by rw [hc]; rfl) rfl
    · cases hstep
  · next hc =>
    cases hstep
    exact h.of_client_told _ _ (by rw [hc]; rfl) rfl
  · next hc =>
    cases hstep
    exact h.of_client_told _ _ (by rw [hc]; rfl) rfl
  · cases hstep

theorem requestStep (h : p.Listening) (hstep : p.requestStep = some p') : p'.Listening := by
  unfold Proxy.requestStep at hstep
  split at hstep
  · split at hstep
    · cases hstep
      exact ⟨h.heardLaunch, h.heardInit, h.started, h.notExited, h.handling, h.pending, h.known,
        h.told⟩
    · cases hstep
  · cases hstep

theorem spurious (h : p.Listening) (hstep : p.spurious = some p') : p'.Listening := by
  unfold Proxy.spurious at hstep
  split at hstep
  · next w hc =>
    obtain ⟨w', hw', rfl⟩ := Option.map_eq_some_iff.mp hstep
    exact h.waitLaunch (by rw [hc]; intro hne; cases hne) (Waiter.Heard.spurious hw')
  · next w hc =>
    obtain ⟨w', hw', rfl⟩ := Option.map_eq_some_iff.mp hstep
    exact h.waitInit (by rw [hc]; intro hne; cases hne) (Waiter.Heard.spurious hw')
  · cases hstep

/-- `notifyLaunch` wakes a thread that did not hold the lock. -/
theorem heard_notifyLaunch {client : ClientThread} (hlock : client.holdsLaunchMutex = false)
    {w : Waiter} (hw : client.notifyLaunch = .waitingRequestResponseThread w) (flag : Bool) :
    w.Heard flag := by
  cases client with
  | waitingRequestResponseThread v =>
    cases hw
    apply Waiter.heard_notify
    rintro rfl
    cases hlock
  | _ => cases hw

theorem heard_notifyInit {client : ClientThread} (hlock : client.holdsInitMutex = false)
    {w : Waiter} (hw : client.notifyInit = .waitingInit w) (flag : Bool) : w.Heard flag := by
  cases client with
  | waitingInit v =>
    cases hw
    apply Waiter.heard_notify
    rintro rfl
    cases hlock
  | _ => cases hw

theorem responseStep (h : p.Listening) {sent : List Reply} (hsent : ∀ msg ∈ sent, msg = .initOk)
    (hstep : p.responseStep sent = some p') : p'.Listening := by
  unfold Proxy.responseStep at hstep
  split at hstep
  · cases hstep
  · next hr =>
    split at hstep
    · cases hstep
    · next hlock =>
      cases hstep
      -- the launch is announced, for the first time or again
      have hclient := h.launched (by rw [hr]; intro hne; cases hne)
      refine ⟨?_, ?_, ?_, ?_, ?_, ?_, h.known, ?_⟩
      · intro w hw
        exact heard_notifyLaunch (by simpa using hlock) hw _
      · intro w hw
        exact h.heardInit w (ClientThread.notifyLaunch_eq_waitingInit.mp hw)
      · refine iff_of_false ?_ fun hc =>
          hclient (ClientThread.notifyLaunch_eq_launchThreads.mp hc)
        intro hc; cases hc
      · intro hc; cases hc
      · intro msg hc; cases hc
      · rcases h.pending with hnil | hwait | ⟨msg, hmsg⟩
        · exact .inl hnil
        · exact .inr (.inl hwait)
        · rw [hr] at hmsg; cases hmsg
      · intro ht
        exact h.told (by simpa using ht)
  · next hr =>
    obtain ⟨msg, hmsg, rfl⟩ := Option.map_eq_some_iff.mp hstep
    have hok : msg = .initOk := hsent msg (List.mem_of_getElem? hmsg)
    refine ⟨h.heardLaunch, h.heardInit, ?_, ?_, ?_, .inr (.inr ⟨msg, rfl⟩), ?_, h.told⟩
    · refine iff_of_false ?_ (h.launched (by rw [hr]; intro hne; cases hne))
      intro hc; cases hc
    · intro hc; cases hc
    · intro msg' hc
      cases hc
      exact ⟨hok, by simp [hok]⟩
    · intro _
      simp [hok]
  · next msg hr =>
    split at hstep
    · cases hstep
    · next hlock =>
      -- the message is the one that was promised
      obtain ⟨rfl, hmem⟩ := h.handling msg hr
      cases hstep
      have hclient := h.launched (by rw [hr]; intro hne; cases hne)
      refine ⟨?_, ?_, ?_, ?_, ?_, .inr (.inl rfl), fun _ => hmem, fun _ => rfl⟩
      · intro w hw
        exact h.heardLaunch w (ClientThread.notifyInit_eq_waitingLaunch.mp hw)
      · intro w hw
        exact heard_notifyInit (by simpa using hlock) hw _
      · refine iff_of_false ?_ fun hc =>
          hclient (ClientThread.notifyInit_eq_launchThreads.mp hc)
        intro hc; cases hc
      · intro hc; cases hc
      · intro msg' hc; cases hc
  · cases hstep

/-- A proxy that waits for the message and does not move has not been sent any. -/
theorem unsent (h : p.Listening) {sent : List Reply} {w : Waiter} (hc : p.client = .waitingInit w)
    (hclient : p.clientStep = none) (hresponse : p.responseStep sent = none) : sent = [] := by
  have hasleep : w = .asleep := by
    unfold Proxy.clientStep at hclient
    rw [hc] at hclient
    exact Waiter.run_eq_none.mp (Option.map_eq_none_iff.mp hclient)
  subst hasleep
  have hwaiting : p.waitingInit = false := h.heardInit _ hc (by intro hw; cases hw)
  unfold Proxy.responseStep at hresponse
  split at hresponse
  · next hr =>
    rw [h.started.mp hr] at hc
    cases hc
  · rw [hc] at hresponse
    cases hresponse
  · next hr =>
    -- all that was sent has been read
    have hlen : sent.length ≤ p.received.length :=
      List.getElem?_eq_none_iff.mp (Option.map_eq_none_iff.mp hresponse)
    rcases h.pending with hnil | hwait | ⟨msg, hmsg⟩
    · rw [hnil] at hlen
      exact List.eq_nil_of_length_eq_zero (Nat.le_zero.mp hlen)
    · rw [hwaiting] at hwait; cases hwait
    · rw [hr] at hmsg; cases hmsg
  · next msg hr =>
    rw [hc] at hresponse
    cases msg <;> cases hresponse
  · next hr => exact absurd hr h.notExited

end Proxy.Listening

/-! ### The handshake -/

/-- Before `initCond.notify_one()`. -/
def ProcessThread.notifies : ProcessThread → Bool
  | .notifying _ => true
  | _ => false

/-- The process thread does not notify while the main thread is about to sleep. -/
def NotifyHeard (s : State) (l : Label) : Prop :=
  ¬ (l = .process ∧ s.base.process.notifies = true ∧
    s.base.main = .waitingProcessInit .blocking)

instance (s : State) (l : Label) : Decidable (NotifyHeard s l) :=
  inferInstanceAs (Decidable (¬ (_ ∧ _ ∧ _)))

/-- Both sides of a start that goes well. -/
structure Rising (s : State) : Prop where
  base : s.base.Rising
  proxy : s.proxy.Listening

theorem rising {s : State}
    (h : Reachable ((system ⟨true, true⟩).restrict NotifyHeard) s) : Rising s := by
  refine invariant _ Rising ?_ ?_ h
  · rintro s rfl
    exact ⟨.launching, Proxy.Listening.forked⟩
  · rintro s l s' ⟨hbase, hproxy⟩ ⟨hguard, hstep⟩
    have hsent : ∀ msg ∈ s.base.sent, msg = .initOk := by
      intro msg hmsg
      rcases hbase.sent_eq with hnil | hone
      · rw [hnil] at hmsg; cases hmsg
      · rw [hone] at hmsg; exact List.mem_singleton.mp hmsg
    cases l with
    | main =>
      obtain ⟨b, hb, rfl⟩ := Option.map_eq_some_iff.mp hstep
      exact ⟨hbase.mainStep hb, hproxy⟩
    | process =>
      obtain ⟨b, hb, rfl⟩ := Option.map_eq_some_iff.mp hstep
      refine ⟨hbase.processStep hb ?_, hproxy⟩
      intro hn hmain
      -- the guard excludes this notification
      exact hguard ⟨rfl, by rw [hn]; rfl, hmain⟩
    | spuriousMain =>
      obtain ⟨b, hb, rfl⟩ := Option.map_eq_some_iff.mp hstep
      exact ⟨hbase.spurious hb, hproxy⟩
    | client =>
      obtain ⟨p, hp, rfl⟩ := Option.map_eq_some_iff.mp hstep
      exact ⟨hbase, hproxy.clientStep hp⟩
    | request =>
      obtain ⟨p, hp, rfl⟩ := Option.map_eq_some_iff.mp hstep
      exact ⟨hbase, hproxy.requestStep hp⟩
    | response =>
      obtain ⟨p, hp, rfl⟩ := Option.map_eq_some_iff.mp hstep
      exact ⟨hbase, hproxy.responseStep hsent hp⟩
    | spuriousClient =>
      obtain ⟨p, hp, rfl⟩ := Option.map_eq_some_iff.mp hstep
      exact ⟨hbase, hproxy.spurious hp⟩

theorem Rising.sent_of_stuck {s : State} (h : Rising s) (hstuck : Stuck ⟨true, true⟩ s) :
    s.base.sent = [.initOk] := by
  rcases h.base.sent_eq with hnil | hone
  · have hmain := hstuck .main (by decide) (by decide)
    have hprocess := hstuck .process (by decide) (by decide)
    rcases h.base.moves hnil with hmove | hmove
    · exact absurd (Option.map_eq_none_iff.mp hmain) hmove
    · exact absurd (Option.map_eq_none_iff.mp hprocess) hmove
  · exact hone

theorem Rising.handshake {s : State} (h : Rising s) : Handshake ⟨true, true⟩ s where
  message := h.base.sent_eq
  written := h.sent_of_stuck
  heard := by
    rintro hstuck ⟨w, hw⟩
    have hclient := hstuck .client (by decide) (by decide)
    have hresponse := hstuck .response (by decide) (by decide)
    have hnil := h.proxy.unsent hw (Option.map_eq_none_iff.mp hclient)
      (Option.map_eq_none_iff.mp hresponse)
    rw [h.sent_of_stuck hstuck] at hnil
    cases hnil
  handed := by
    intro result hc _
    apply h.proxy.known
    apply h.proxy.told
    rw [hc]
    rfl

/-! ### How a start fails -/

/-- The client thread and the response thread, up to where they wait. -/
def proxyWaits : List Label :=
  [.client, .response, .client, .client, .client, .client]

/-- `SirenAudioVBVProcessor::init` fails: the flag the main thread waits for is
    set to false. -/
def processorFails : List Label := [.main, .process, .process, .main, .main] ++ proxyWaits

/-- `SirenAudioPreProcessor::init` fails: `init_siren` cleans up and returns
    `result`. -/
def preprocessorFails : List Label :=
  [.main, .process, .process, .main, .main, .main, .main, .main, .main] ++ proxyWaits ++
  [.response, .response, .client, .client, .client, .request, .client, .client, .client, .client]

/-- The process thread is done between the main thread's look at the flag and its
    sleep. -/
def lostNotify : List Label := [.main, .main, .process, .process, .main] ++ proxyWaits

/-- A base that says nothing and a client that waits. -/
def Silent (o : Outcome) (s : State) : Bool :=
  s.base.sent == [] && s.proxy.client == .waitingInit .asleep &&
    [Label.main, .process, .client, .request, .response].all fun l => next o s l == none

theorem not_handshake_of_silent {o : Outcome} {s : State} (h : Silent o s = true) :
    ¬ Handshake o s := by
  simp only [Silent, Bool.and_eq_true, beq_iff_eq, List.all_eq_true] at h
  obtain ⟨⟨hsent, hclient⟩, hnone⟩ := h
  intro hs
  have hstuck : Stuck o s := by
    intro l hmain hclient
    cases l with
    | spuriousMain => exact absurd rfl hmain
    | spuriousClient => exact absurd rfl hclient
    | _ => exact hnone _ (by decide)
  exact hs.heard hstuck ⟨_, hclient⟩

theorem silent_of_processorFails (pre : Bool) :
    (exec (guarded NotifyHeard (next ⟨false, pre⟩)) forked processorFails).any
      (Silent ⟨false, pre⟩) = true := by
  cases pre <;> decide

theorem silent_of_lostNotify (o : Outcome) :
    (exec (next o) forked lostNotify).any (Silent o) = true := by
  obtain ⟨processor, preprocessor⟩ := o
  cases processor <;> cases preprocessor <;> decide

theorem returned_of_preprocessorFails :
    (exec (guarded NotifyHeard (next ⟨true, false⟩)) forked preprocessorFails).any
      (fun s => s.proxy.client == .returned SIREN_STATUS_OK && s.proxy.received == [.initFailed]) =
      true := by
  decide

/-- A client that was told of the failure alone has the handle. -/
theorem not_handshake_of_returned {o : Outcome} {s : State}
    (h : (s.proxy.client == .returned SIREN_STATUS_OK && s.proxy.received == [.initFailed]) =
      true) : ¬ Handshake o s := by
  simp only [Bool.and_eq_true, beq_iff_eq] at h
  obtain ⟨hclient, hreceived⟩ := h
  intro hs
  have hmem := hs.handed _ hclient rfl
  rw [hreceived] at hmem
  exact absurd hmem (by decide)

/-- The promise is kept in every run in which both initialisers succeed and the
    notification does not get lost, and in no others: a failure of either breaks
    it without any race, a lost notification whatever the outcome. -/
theorem init_handshake (o : Outcome) :
    ((∀ s, Reachable ((system o).restrict NotifyHeard) s → Handshake o s) ↔
      o.processor = true ∧ o.preprocessor = true) ∧
    ∃ s, Reachable (system o) s ∧ ¬ Handshake o s := by
  refine ⟨⟨?_, ?_⟩, ?_⟩
  · intro hall
    obtain ⟨processor, preprocessor⟩ := o
    cases processor with
    | false =>
      obtain ⟨s, hs, hsilent⟩ := (Option.any_eq_true _ _).mp (silent_of_processorFails preprocessor)
      exact absurd (hall s (reachable_restrict_of_guarded rfl hs)) (not_handshake_of_silent hsilent)
    | true =>
      cases preprocessor with
      | false =>
        obtain ⟨s, hs, hreturned⟩ := (Option.any_eq_true _ _).mp returned_of_preprocessorFails
        exact absurd (hall s (reachable_restrict_of_guarded rfl hs))
          (not_handshake_of_returned hreturned)
      | true => exact ⟨rfl, rfl⟩
  · obtain ⟨processor, preprocessor⟩ := o
    rintro ⟨rfl, rfl⟩ s hs
    exact (rising hs).handshake
  · obtain ⟨s, hs, hsilent⟩ := (Option.any_eq_true _ _).mp (silent_of_lostNotify o)
    exact ⟨s, reachable_of_exec rfl hs, not_handshake_of_silent hsilent⟩

/-- A preprocessor that does not start leaves the client with a handle. -/
theorem not_init_handshake :
    ¬ ∀ (o : Outcome) (s : State), Reachable (system o) s → Handshake o s := by
  intro h
  obtain ⟨s, hs, hreturned⟩ := (Option.any_eq_true _ _).mp returned_of_preprocessorFails
  have hreach : Reachable ((system ⟨true, false⟩).restrict NotifyHeard) s :=
    reachable_restrict_of_guarded rfl hs
  exact not_handshake_of_returned hreturned (h _ s hreach.of_restrict)

end SirenInit

end BlackSiren

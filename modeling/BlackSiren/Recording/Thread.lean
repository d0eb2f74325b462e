import BlackSiren.Framework.System

/-! # The recording thread

    `RecordingThread::recordingFn` runs in a thread of its own from `init_siren`
    on.  It shares two flags with the client thread: `recordingStart`, under
    `startMutex`, and `recordingTerm`, under `termMutex`; `stop` writes both
    under `termMutex` alone.

    - `Fn`: where the thread is.  It holds `startMutex` from `testing` to
      `readDone`, except while it sleeps in `startCond.wait`
    - `Client`: where the client thread is in a call of `SirenProxy`
    - `fnStep`: `recordingFn` from one of its places to the next
    - `next`: all steps; the input callbacks made are kept in `calls`

    Sections that hold `termMutex` and wait for nothing are single steps.  An
    `init_siren` whose base fails calls `stop` itself: see
    `BlackSiren.Recording.Destroy`.
-/

open LTS

namespace BlackSiren

namespace RecordingThread

/-- A call of one of the user's input callbacks. -/
inductive InputCall where
  | startInput (result : Int)
  | stopInput
  | readInput
  | onErrInput
  deriving DecidableEq

/-- `RecordingThread::recordingFn` -/
inductive Fn where
  /-- Before `lock(termMutex)`. -/
  | top
  /-- Before `lock(startMutex)`. -/
  | entering
  /-- At `while (!recordingStart)`. -/
  | testing
  /-- Before `startCond.wait(lock)`. -/
  | blocking
  /-- In `startCond.wait(lock)`, without the lock. -/
  | asleep
  /-- Woken up, before it has the lock again. -/
  | woken
  /-- After the loop, at `if (recordingTerm)`. -/
  | leaving
  /-- In `read_input`. -/
  | reading
  /-- `read_input` has returned `len`. -/
  | readDone (len : Int)
  /-- After the block, without the lock. -/
  | handling (len : Int)
  | exited
  deriving DecidableEq

/-- The thread that calls `SirenProxy`. -/
inductive Client where
  | idle
  /-- In `start`: `start_input` has returned 0. -/
  | starting
  /-- Before `pause`. -/
  | pausing
  /-- In `stop`, with `termMutex`. -/
  | terminating
  /-- In `stop`, at `if (!recordingStart)`. -/
  | testingStart
  /-- In `stop`, before `startCond.notify_one()`. -/
  | notifying
  /-- In `stop`, at `if (thread.joinable())`. -/
  | joining
  /-- Before `delete recordingThread`. -/
  | stopped
  | deleted
  deriving DecidableEq

structure State where
  client : Client
  fn : Fn
  first : Bool
  inputStart : Bool
  recordingStart : Bool
  recordingTerm : Bool
  /-- `thread.joinable()` -/
  joinable : Bool
  currentRetry : Int
  /-- `SirenProxy::procStreamStart` -/
  procStreamStart : Bool
  calls : List InputCall
  deriving DecidableEq

/-- `init_siren` has detached the thread.  What it does when the base fails is in
    `RecordingThread.Session`. -/
def initial : State where
  client := .idle
  fn := .top
  first := true
  inputStart := false
  recordingStart := false
  recordingTerm := false
  joinable := false
  currentRetry := 0
  procStreamStart := false
  calls := []

inductive Label where
  /-- `start_siren_process_stream`, and what `start_input` returns. -/
  | start (result : Int)
  /-- `stop_siren_process_stream` -/
  | stop
  /-- `destroy_siren` -/
  | destroy
  /-- The client goes on in its call. -/
  | client
  /-- `recordingFn` goes on; `len` is what `read_input` returns. -/
  | fn (len : Int)
  /-- `startCond.wait` returns for no reason. -/
  | spurious
  deriving DecidableEq

/-- The thread has `startMutex`. -/
def Fn.holdsStartMutex : Fn → Bool
  | .testing => true
  | .blocking => true
  | .leaving => true
  | .reading => true
  | .readDone _ => true
  | _ => false

/-- `termMutex` is taken by `stop`. -/
def Client.holdsTermMutex : Client → Bool
  | .terminating => true
  | .testingStart => true
  | .notifying => true
  | .joining => true
  | _ => false

/-- `startCond.notify_one()` -/
def Fn.notify : Fn → Fn
  | .asleep => .woken
  | fn => fn

variable (errorRetry : Int)

/-- `RecordingThread::recordingFn` -/
def fnStep (s : State) (len : Int) : Option State :=
  match s.fn with
  | .top =>
      if s.client.holdsTermMutex then none
      else if s.recordingTerm then
        some { s with
          fn := .exited
          calls := if s.inputStart then s.calls ++ [.stopInput] else s.calls }
      else some { s with fn := .entering }
  | .entering => some { s with fn := .testing }
  | .testing =>
      if s.recordingStart then some { s with fn := .leaving }
      else if s.first then some { s with fn := .blocking }
      else some { s with
        fn := .blocking, inputStart := false, calls := s.calls ++ [.stopInput] }
  | .blocking => some { s with fn := .asleep }
  | .asleep => none
  | .woken =>
      some { s with
        fn := .testing
        first := false
        inputStart := if s.recordingTerm then s.inputStart else true }
  -- without `stop_input`
  | .leaving => some { s with fn := if s.recordingTerm then .exited else .reading }
  | .reading => some { s with fn := .readDone len, calls := s.calls ++ [.readInput] }
  | .readDone len => some { s with fn := if s.recordingStart then .handling len else .top }
  | .handling len =>
      if len ≠ 0 then
        if s.currentRetry ≥ errorRetry then
          some { s with fn := .top, currentRetry := 0, calls := s.calls ++ [.onErrInput] }
        else some { s with fn := .top, currentRetry := s.currentRetry + 1 }
      else
        -- the frame is written to the socket
        some { s with fn := .top, currentRetry := 0 }
  | .exited => none

/-- The client in the middle of a call. -/
def clientStep (s : State) : Option State :=
  match s.client with
  | .idle => none
  | .starting =>
      if s.fn.holdsStartMutex then none
      else some { s with
        client := .idle, fn := s.fn.notify, recordingStart := true, procStreamStart := true }
  | .pausing =>
      if s.fn.holdsStartMutex then none
      else some { s with client := .idle, recordingStart := false }
  | .terminating => some { s with client := .testingStart, recordingTerm := true }
  | .testingStart =>
      if s.recordingStart then some { s with client := .joining }
      -- without `startMutex`
      else some { s with client := .notifying, recordingStart := true }
  | .notifying => some { s with client := .joining, fn := s.fn.notify }
  | .joining =>
      if s.joinable then if s.fn = .exited then some { s with client := .stopped } else none
      else some { s with client := .stopped }
  | .stopped => some { s with client := .deleted }
  | .deleted => none

def next (s : State) : Label → Option State
  | .start result =>
      if s.client ≠ .idle then none
      -- "already start..."
      else if s.procStreamStart then some s
      else some { s with
        client := if result = 0 then .starting else .idle
        calls := s.calls ++ [.startInput result] }
  | .stop =>
      if s.client ≠ .idle then none
      -- "already stop.."
      else if s.procStreamStart then some { s with client := .pausing, procStreamStart := false }
      else some s
  | .destroy => if s.client ≠ .idle then none else some { s with client := .terminating }
  | .client => clientStep s
  | .fn len => fnStep errorRetry s len
  | .spurious => if s.fn = .asleep then some { s with fn := .woken } else none

def system : System State Label := .ofFn (· = initial) (next errorRetry)

/-! ### What a step of the thread leaves alone -/

variable {errorRetry}

theorem fnStep_kept {s s' : State} {len : Int} (h : fnStep errorRetry s len = some s') :
    s'.client = s.client ∧ s'.recordingStart = s.recordingStart ∧
      s'.procStreamStart = s.procStreamStart := by
  unfold fnStep at h
  grind

/-- Past its loop, up to the handling of what it has read. -/
def Fn.recording : Fn → Bool
  | .leaving => true
  | .reading => true
  | .readDone _ => true
  | _ => false

/-- Without `recordingStart` the thread does not leave its loop, and reads no
    frame. -/
theorem fnStep_recording {s s' : State} {len : Int} (h : fnStep errorRetry s len = some s')
    (hstart : s.recordingStart = false) (hfn : s.fn.recording = false) :
    s'.fn.recording = false ∧ ∀ len, s'.fn ≠ .handling len := by
  unfold fnStep at h
  grind [Fn.recording]

end RecordingThread

end BlackSiren

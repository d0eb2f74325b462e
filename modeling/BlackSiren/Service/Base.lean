import BlackSiren.Framework.System
import Mathlib.Data.List.Perm.Subperm

/-! # The base

    Once it has told the proxy that it is initialised, the base has three
    threads:

        response thread   requests -> flags, processQueue
        main thread       recording socket -> preprocess -> processQueue
        process thread    processQueue -> engine -> response channel

    `next` takes what comes from outside in its label (a request, what `read`
    returns, what the engines make of a frame) and gives back what is written on
    the response channel.  It is put together with the other end of the channel
    by the modules that import this one.

    A thread that has taken an item and not passed it on yet is shown as not
    having taken it, except where something can be seen of it.
-/

namespace BlackSiren

namespace Base

/-- What the proxy asks for. -/
inductive Request where
  | startProcessStream
  | stopProcessStream
  | setState (state : Int)
  | setSteer
  | syncVtWordList
  | destroy
  deriving DecidableEq

/-- `PreprocessVoicePackage`, by its `msg`. -/
inductive Package where
  | dataProcess
  | setState (state : Int)
  | setSteer
  | syncVtWordList
  | destroy
  deriving DecidableEq

/-- What the base writes on the response channel. -/
inductive Response where
  /-- `prop` of the `ProcessedVoiceResult`. -/
  | onVoiceEvent (prop : Int)
  /-- `SIREN_CALLBACK_ON_STATE_CHANGED` -/
  | onCallback (state : Int)
  | onDestroy
  deriving DecidableEq

/-- `SirenBase::responseThreadHandler` -/
inductive ResponseThread where
  | polling
  /-- In `destroy_siren`, before its push. -/
  | pushing
  /-- Before the write of `ON_DESTROY`. -/
  | writing
  /-- Before `recordingExit.store(true)`. -/
  | storing
  /-- At `if (!recordingStart)`. -/
  | notifying
  | exited
  deriving DecidableEq

/-- `SirenBase::loopRecording` -/
inductive MainThread where
  /-- In `recordingCond.wait`. -/
  | waiting
  /-- At the first `recordingExit.load`. -/
  | testing
  /-- In `read`. -/
  | reading
  /-- `read` has returned nothing, at the second `recordingExit.load`. -/
  | failed
  | preprocessing
  /-- With the package of a frame. -/
  | pushing
  | exited
  deriving DecidableEq

/-- `SirenBase::processThreadHandler` -/
inductive ProcessThread where
  | popping
  /-- Before the write of a message; `ms` follow. -/
  | writing (m : Response) (ms : List Response)
  | exited
  deriving DecidableEq

structure State where
  response : ResponseThread
  main : MainThread
  process : ProcessThread
  recordingStart : Bool
  recordingExit : Bool
  processQueue : List Package
  deriving DecidableEq

def initial : State where
  response := .polling
  main := .waiting
  process := .popping
  recordingStart := false
  recordingExit := false
  processQueue := []

inductive Label where
  /-- The response thread reads a request. -/
  | request (r : Request)
  /-- The response thread goes on in `destroy_siren`. -/
  | response
  | main
  /-- What `read` returns. -/
  | read (status : Int)
  /-- Whether `preprocess` gives a package. -/
  | preprocess (package : Bool)
  /-- The process thread; `props` are the results if the package holds a frame. -/
  | process (props : List Int)
  /-- `processQueue` has overflowed: packages are lost and may come out of
      order. -/
  | overflow (processQueue : List Package)

/-- The process thread with messages to write, or none. -/
def ProcessThread.of : List Response → ProcessThread
  | [] => .popping
  | m :: ms => .writing m ms

/-- What the process thread does with a package. -/
def Package.handle (props : List Int) : Package → ProcessThread
  | .dataProcess => .of (props.map .onVoiceEvent)
  -- `setSysState(state, true)`
  | .setState state => .of [.onCallback state]
  | .setSteer => .popping
  | .syncVtWordList => .popping
  | .destroy => .exited

/-- `SirenBase::responseThreadHandler`, for one request. -/
def State.handle (s : State) : Request → State
  | .startProcessStream => { s with recordingStart := true }
  | .stopProcessStream => { s with recordingStart := false }
  | .setState state => { s with processQueue := s.processQueue ++ [.setState state] }
  | .setSteer => { s with processQueue := s.processQueue ++ [.setSteer] }
  | .syncVtWordList => { s with processQueue := s.processQueue ++ [.syncVtWordList] }
  | .destroy => { s with response := .pushing }

/-- A step, and what it writes on the response channel. -/
def next (s : State) : Label → Option (State × List Response)
  | .request r => if s.response = .polling then some (s.handle r, []) else none
  | .response =>
      match s.response with
      | .pushing => some ({ s with
          response := .writing, processQueue := s.processQueue ++ [.destroy] }, [])
      | .writing => some ({ s with response := .storing }, [.onDestroy])
      | .storing => some ({ s with response := .notifying, recordingExit := true }, [])
      | .notifying => some ({ s with response := .exited, recordingStart := true }, [])
      | _ => none
  | .main =>
      match s.main with
      | .waiting => if s.recordingStart then some ({ s with main := .testing }, []) else none
      | .testing => some ({ s with main := if s.recordingExit then .exited else .reading }, [])
      | .failed => some ({ s with main := if s.recordingExit then .exited else .waiting }, [])
      | .pushing => some ({ s with
          main := .waiting, processQueue := s.processQueue ++ [.dataProcess] }, [])
      | _ => none
  | .read status =>
      if s.main = .reading then
        some ({ s with main := if status ≤ 0 then .failed else .preprocessing }, [])
      else none
  | .preprocess package =>
      if s.main = .preprocessing then
        some ({ s with main := if package then .pushing else .waiting }, [])
      else none
  | .process props =>
      match s.process, s.processQueue with
      | .popping, p :: rest => some ({ s with
          process := p.handle props, processQueue := rest }, [])
      | .writing m ms, _ => some ({ s with process := .of ms }, [m])
      | _, _ => none
  | .overflow processQueue =>
      if processQueue.Subperm s.processQueue then
        some ({ s with processQueue := processQueue }, [])
      else none

/-! ### What a step does -/

/-- The main thread between two frames. -/
inductive Moves (s : State) : Label → MainThread → Prop
  | wake (hmain : s.main = .waiting) (hstart : s.recordingStart = true) : Moves s .main .testing
  | goOn (hmain : s.main = .testing) (hexit : s.recordingExit = false) : Moves s .main .reading
  | exit (hmain : s.main = .testing ∨ s.main = .failed) (hexit : s.recordingExit = true) :
      Moves s .main .exited
  | fail (status : Int) (hmain : s.main = .reading) (hstatus : status ≤ 0) :
      Moves s (.read status) .failed
  | retry (hmain : s.main = .failed) (hexit : s.recordingExit = false) : Moves s .main .waiting
  /-- The frame gives no package. -/
  | skip (hmain : s.main = .preprocessing) : Moves s (.preprocess false) .waiting

/-- The steps, with what is known of the state they are made in. -/
inductive Step (s : State) : Label → State → List Response → Prop
  | request (r : Request) (hpolling : s.response = .polling) : Step s (.request r) (s.handle r) []
  | pushDestroy (hresponse : s.response = .pushing) :
      Step s .response
        { s with response := .writing, processQueue := s.processQueue ++ [.destroy] } []
  | writeDestroy (hresponse : s.response = .writing) :
      Step s .response { s with response := .storing } [.onDestroy]
  | storeExit (hresponse : s.response = .storing) :
      Step s .response { s with response := .notifying, recordingExit := true } []
  | notify (hresponse : s.response = .notifying) :
      Step s .response { s with response := .exited, recordingStart := true } []
  | main (l : Label) (main : MainThread) (hmoves : Moves s l main) :
      Step s l { s with main := main } []
  /-- A frame goes from the socket to the queue. -/
  | read (status : Int) (hmain : s.main = .reading) (hstatus : 0 < status) :
      Step s (.read status) { s with main := .preprocessing } []
  | preprocess (hmain : s.main = .preprocessing) :
      Step s (.preprocess true) { s with main := .pushing } []
  | pushFrame (hmain : s.main = .pushing) :
      Step s .main { s with
        main := .waiting, processQueue := s.processQueue ++ [.dataProcess] } []
  | pop (props : List Int) (p : Package) (rest : List Package) (hprocess : s.process = .popping)
      (hqueue : s.processQueue = p :: rest) :
      Step s (.process props) { s with process := p.handle props, processQueue := rest } []
  | write (props : List Int) (m : Response) (ms : List Response)
      (hprocess : s.process = .writing m ms) :
      Step s (.process props) { s with process := .of ms } [m]
  | overflow (processQueue : List Package) (hqueue : processQueue.Subperm s.processQueue) :
      Step s (.overflow processQueue) { s with processQueue := processQueue } []

theorem step_cases {s s' : State} {l : Label} {out : List Response}
    (h : next s l = some (s', out)) : Step s l s' out := by
  cases l with
  | request r =>
    simp only [next] at h
    split at h
    · cases h; exact .request r ‹_›
    · cases h
  | response =>
    simp only [next] at h
    split at h
    · cases h; exact .pushDestroy ‹_›
    · cases h; exact .writeDestroy ‹_›
    · cases h; exact .storeExit ‹_›
    · cases h; exact .notify ‹_›
    · cases h
  | main =>
    simp only [next] at h
    split at h
    · next hmain =>
      split at h
      · cases h; exact .main _ _ (.wake hmain ‹_›)
      · cases h
    · next hmain =>
      cases h
      by_cases hexit : s.recordingExit = true
      · rw [if_pos hexit]
        exact .main _ _ (.exit (.inl hmain) hexit)
      · rw [if_neg hexit]
        exact .main _ _ (.goOn hmain (eq_false_of_ne_true hexit))
    · next hmain =>
      cases h
      by_cases hexit : s.recordingExit = true
      · rw [if_pos hexit]
        exact .main _ _ (.exit (.inr hmain) hexit)
      · rw [if_neg hexit]
        exact .main _ _ (.retry hmain (eq_false_of_ne_true hexit))
    · cases h; exact .pushFrame ‹_›
    · cases h
  | read status =>
    simp only [next] at h
    split at h
    · next hmain =>
      cases h
      by_cases hstatus : status ≤ 0
      · rw [if_pos hstatus]
        exact .main _ _ (.fail status hmain hstatus)
      · rw [if_neg hstatus]
        exact .read status hmain (by omega)
    · cases h
  | preprocess package =>
    simp only [next] at h
    split at h
    · next hmain =>
      cases h
      cases package with
      | true => exact .preprocess hmain
      | false => exact .main _ _ (.skip hmain)
    · cases h
  | process props =>
    simp only [next] at h
    split at h
    · cases h; exact .pop props _ _ ‹_› ‹_›
    · cases h; exact .write props _ _ ‹_›
    · cases h
  | overflow processQueue =>
    simp only [next] at h
    split at h
    · cases h; exact .overflow _ ‹_›
    · cases h

/-! ### Without a request to destroy -/

/-- No thread of the base has ended, or been told to. -/
structure Alive (s : State) : Prop where
  response : s.response = .polling
  main : s.main ≠ .exited
  process : s.process ≠ .exited
  exit : s.recordingExit = false
  queue : .destroy ∉ s.processQueue

theorem ProcessThread.of_ne_exited (ms : List Response) : ProcessThread.of ms ≠ .exited := by
  cases ms <;> simp [ProcessThread.of]

theorem Package.handle_ne_exited {p : Package} (h : p ≠ .destroy) (props : List Int) :
    p.handle props ≠ .exited := by
  cases p with
  | dataProcess => exact ProcessThread.of_ne_exited _
  | setState state => exact ProcessThread.of_ne_exited [_]
  | setSteer | syncVtWordList => simp [Package.handle]
  | destroy => exact absurd rfl h

theorem Alive.handle {s : State} (h : Alive s) {r : Request} (hr : r ≠ .destroy) :
    Alive (s.handle r) := by
  cases r with
  | startProcessStream | stopProcessStream =>
    exact ⟨h.response, h.main, h.process, h.exit, h.queue⟩
  | setState | setSteer | syncVtWordList =>
    refine ⟨h.response, h.main, h.process, h.exit, ?_⟩
    simpa [State.handle] using h.queue
  | destroy => exact absurd rfl hr

theorem Alive.step {s s' : State} {l : Label} {out : List Response} (h : Alive s)
    (hstep : Step s l s' out) (hl : l ≠ .request .destroy) : Alive s' := by
  cases hstep with
  | request r hpolling =>
    -- only `destroy` would end it
    apply h.handle
    rintro rfl
    exact hl rfl
  | pushDestroy hresponse | writeDestroy hresponse | storeExit hresponse | notify hresponse =>
    rw [h.response] at hresponse
    cases hresponse
  | main l main hmoves =>
    refine ⟨h.response, ?_, h.process, h.exit, h.queue⟩
    cases hmoves with
    | exit hmain hexit =>
      rw [h.exit] at hexit
      cases hexit
    | _ => simp
  | read status hmain hstatus => exact ⟨h.response, by simp, h.process, h.exit, h.queue⟩
  | preprocess hmain => exact ⟨h.response, by simp, h.process, h.exit, h.queue⟩
  | pushFrame hmain => exact ⟨h.response, by simp, h.process, h.exit, by simpa using h.queue⟩
  | pop props p rest hprocess hqueue =>
    have hdestroy := h.queue
    rw [hqueue, List.mem_cons, not_or] at hdestroy
    exact ⟨h.response, h.main, Package.handle_ne_exited (Ne.symm hdestroy.1) props, h.exit,
      hdestroy.2⟩
  | write props m ms hprocess =>
    exact ⟨h.response, h.main, ProcessThread.of_ne_exited ms, h.exit, h.queue⟩
  | overflow q hqueue =>
    exact ⟨h.response, h.main, h.process, h.exit, fun hmem => h.queue (hqueue.subset hmem)⟩

end Base

end BlackSiren

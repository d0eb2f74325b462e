import BlackSiren.Channel.VTWordCodec
import BlackSiren.LFQueue.Spsc
import BlackSiren.Processor.Process
import BlackSiren.VTWord.Registry

/-! # From the client to the wake-word engine

    A list of words goes through four threads and two processes:

        client            add_vt_word, remove_vt_word    -> requestQueue
        request thread    requestQueue                   -> channel
        response thread   channel, copyMessage           -> processQueue
        process thread    processQueue, syncVTWord       -> SetWords

    Each thread is modelled up to its accesses of what it shares.  The queues
    take the atomic steps of `BlackSiren.LFQueue.Steps`; the channel delivers
    every message whole, so it holds messages.  What a thread does by itself
    between two such accesses is part of the step before.

    The client makes no other calls, so `SIREN_REQUEST_MSG_SYNC_VT_WORD_LIST` is
    the only message.  Undefined behaviour (a length that is no `int`, a `strcpy`
    that overruns) is no step.
-/

namespace BlackSiren

/-! ### What the engine is given -/

/-- The same engine, keeping the lists it is given. -/
def VbvEngine.recorded {F : Type} (eng : VbvEngine F) : VbvEngine F where
  State := eng.State × List (List (WordInfo F))
  create := fun pos delay nnet phone => (eng.create pos delay nnet phone, [])
  unassigned := fun h => eng.unassigned h.1
  setwords := fun h words => (eng.setwords h.1 words, h.2 ++ [words])
  process := fun h wav aec dirty =>
    let (h', rt) := eng.process h.1 wav aec dirty
    ((h', h.2), rt)
  getdetwordinfo := fun h => eng.getdetwordinfo h.1
  getlastaudio := fun h => eng.getlastaudio h.1
  getsl := fun h start stop =>
    let (h', sl) := eng.getsl h.1 start stop
    ((h', h.2), sl)

def Engines.recorded {F : Type} (E : Engines F) : Engines F := { E with vbv := E.vbv.recorded }

/-- The lists given to `SetWords`. -/
def SirenProcessorImpl.given {F : Type} {E : Engines F} (p : SirenProcessorImpl F E.recorded) :
    List (List (WordInfo F)) :=
  p.m_pMem_vbv3.m_hEngine_Vbv.2

/-! ### Messages -/

def SIREN_REQUEST_MSG_DESTROY_ON_INIT : BitVec 32 := 10

/-- `copyMessage`: the header, and the data behind it. -/
def copyMessage (m : Message) : Message := m

namespace Pipeline

open LFQueue (Side Ret)

/-! ### Threads -/

/-- `requestQueue(32)` -/
def requestParams : LFParams := ⟨5, 64, by decide⟩

/-- `processQueue(4 * 1024)` -/
def processParams : LFParams := ⟨12, 64, by decide⟩

/-- `SirenProxy::requestThreadHandler` -/
inductive RequestThread where
  | loop
  /-- In `requestQueue.pop`. -/
  | popping
  /-- Before `requestWriter.writeMessage`. -/
  | writing (req : Message)
  | exited
  deriving DecidableEq

/-- `SirenBase::processThreadHandler` -/
inductive ProcessThread where
  | loop
  /-- In `processQueue.pop`. -/
  | popping
  /-- With a package whose `data` is a message. -/
  | handling (msg : Message)
  deriving DecidableEq

/-- The pointer with which a thread goes on after `pop`: none for the status -2 or
    a null pointer. -/
def popped : Option (Ret Message) → Option Message
  | some (.pop status data) => if status = -2 then none else data
  | _ => none

/-! ### The system -/

/-- The state of all threads.  `returned`, `written` and `handled` are records:
    the results of the calls, the messages written to the channel, and those the
    process thread is done with. -/
structure State (F : Type) (E : Engines F) where
  vt_words : List (SirenVTWord F)
  returned : List SirenVT
  requestQueue : LFQueue.State Side Message
  request : RequestThread
  written : List Message
  channel : List Message
  processQueue : LFQueue.State Side Message
  process : ProcessThread
  handled : List Message
  processor : SirenProcessorImpl F E.recorded

/-- Calls of the client, and steps of the threads. -/
inductive Label (F : Type) where
  | add (word : Option (SirenVTWord F)) (use_default_settings : Bool)
  | remove (word : Option (List UInt8))
  | client (errno : Nat)
  | request (errno : Nat)
  | response (errno : Nat)
  | process (errno : Nat)

variable {F : Type} {E : Engines F}

namespace State

/-- Everything has been started, nothing has been called. -/
def new (processor : SirenProcessorImpl F E.recorded) : State F E where
  vt_words := []
  returned := []
  requestQueue := LFQueue.State.new
  request := .loop
  written := []
  channel := []
  processQueue := LFQueue.State.new
  process := .loop
  handled := []
  processor := processor

/-- The client's call is one of `add_vt_word` or `remove_vt_word`, with its result
    and its words; if it succeeds, it goes on to push them. -/
def call [CFloat F] (s : State F E) (result : SirenVT) (vt_words : List (SirenVTWord F)) :
    Option (State F E) :=
  match s.requestQueue.pc .producer with
  | .idle _ =>
      if result = .SIREN_VT_OK then
        (allocateMessageFromVTWord vt_words).bind fun req =>
          (s.requestQueue.next requestParams (.push .producer req)).map fun q =>
            { s with
              vt_words := vt_words
              returned := s.returned ++ [result]
              requestQueue := q }
      else
        some { s with
          vt_words := vt_words
          returned := s.returned ++ [result] }
  | _ => none

def requestStep (s : State F E) (errno : Nat) : Option (State F E) :=
  match s.request with
  | .loop =>
      (s.requestQueue.next requestParams (.pop .consumer)).map fun q =>
        { s with
          requestQueue := q
          request := .popping }
  | .popping =>
      match s.requestQueue.pc .consumer with
      | .idle last =>
          match popped last with
          | none => some { s with request := .loop }
          | some req =>
              if req.msg = SIREN_REQUEST_MSG_DESTROY_ON_INIT then
                some { s with request := .exited }
              else
                some { s with request := .writing req }
      | _ =>
          (s.requestQueue.next requestParams (.step .consumer errno)).map fun q =>
            { s with requestQueue := q }
  | .writing req =>
      some { s with
        written := s.written ++ [req]
        channel := s.channel ++ [req]
        request := if req.msg = SIREN_REQUEST_MSG_DESTROY then .exited else .loop }
  | .exited => none

/-- `SirenBase::responseThreadHandler`, and `sync_vt_word` with its push. -/
def responseStep (s : State F E) (errno : Nat) : Option (State F E) :=
  match s.processQueue.pc .producer with
  | .idle _ =>
      match s.channel with
      | [] => none
      | message :: channel =>
          if message.msg = SIREN_REQUEST_MSG_SYNC_VT_WORD_LIST then
            (s.processQueue.next processParams (.push .producer (copyMessage message))).map
              fun q =>
                { s with
                  channel := channel
                  processQueue := q }
          else none
  | _ =>
      (s.processQueue.next processParams (.step .producer errno)).map fun q =>
        { s with processQueue := q }

/-- The branch of the process thread for the message. -/
def handle [CFloat F] (s : State F E) (msg : Message) : Option (State F E) :=
  match getVTWordFromMessage (some msg) [] with
  | none => none
  | some (ret, vt_words) =>
      if ret = 0 ∨ ret = -2 then
        match s.processor.syncVTWord vt_words with
        | .error _ => none
        | .ok p =>
            some { s with
              processor := p
              handled := s.handled ++ [msg]
              process := .loop }
      else
        some { s with
          handled := s.handled ++ [msg]
          process := .loop }

def processStep [CFloat F] (s : State F E) (errno : Nat) : Option (State F E) :=
  match s.process with
  | .loop =>
      (s.processQueue.next processParams (.pop .consumer)).map fun q =>
        { s with
          processQueue := q
          process := .popping }
  | .popping =>
      match s.processQueue.pc .consumer with
      | .idle last =>
          match popped last with
          | none => some { s with process := .loop }
          | some msg => some { s with process := .handling msg }
      | _ =>
          (s.processQueue.next processParams (.step .consumer errno)).map fun q =>
            { s with processQueue := q }
  | .handling msg => s.handle msg

variable [CFloat F]

def next (gen : SirenPhonemeGen) (s : State F E) : Label F → Option (State F E)
  | .add word use_default_settings =>
      let r := add_vt_word gen s.vt_words word use_default_settings
      s.call r.1 r.2.2
  | .remove word =>
      let r := remove_vt_word s.vt_words word
      s.call r.1 r.2
  | .client errno =>
      (s.requestQueue.next requestParams (.step .producer errno)).map fun q =>
        { s with requestQueue := q }
  | .request errno => s.requestStep errno
  | .response errno => s.responseStep errno
  | .process errno => s.processStep errno

/-- All four threads, in any order. -/
def system (gen : SirenPhonemeGen) (processor : SirenProcessorImpl F E.recorded) :
    LTS.System (State F E) (Label F) :=
  .ofFn (· = new processor) (next gen)

end State

end Pipeline

end BlackSiren

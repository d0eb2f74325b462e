import BlackSiren.Service.Listening
import BlackSiren.Service.Requests

/-! # Callbacks of the client

    What the process thread writes comes to the client through the response thread of
    the proxy, which takes the messages apart and calls back.  Whatever the process
    thread logs, the client is called back with it, in this order.

    - `ClientCallback`, `callbacksOf`: what the client is to be told
    - `Written`: the messages behind a log
    - `ProxyHandler`: `SirenProxy::responseThreadHandler` on bytes
    - `run_log`: the callbacks of a log
    - `next_written`, `exec_written`: what the process thread has written for its
      packages
-/

open LTS

namespace BlackSiren

def SIREN_RESPONSE_MSG_ON_INIT_OK : BitVec 32 := 12
def SIREN_RESPONSE_MSG_ON_INIT_FAILED : BitVec 32 := 13
def SIREN_RESPONSE_MSG_ON_CALLBACK : BitVec 32 := 17

def SIREN_CALLBACK_ON_STATE_CHANGED : Int := 0

/-- A call of the client's functions. -/
inductive ClientCallback where
  | voice_event_callback (e : VoiceEvent)
  | state_changed_callback (state : Int)
  deriving DecidableEq

def Entry.callback : Entry → Option ClientCallback
  | .frame => none
  | .setState state => some (.state_changed_callback state.value)
  | .event e => some (.voice_event_callback e)

/-- What the client is to be told of a log. -/
def callbacksOf (log : List Entry) : List ClientCallback := log.filterMap Entry.callback

/-! ### Messages -/

/-- The message of `onStateChanged`. -/
def stateMessage (state : R2vSysState) : Message where
  msg := SIREN_RESPONSE_MSG_ON_CALLBACK
  data := Bytes.toLE32 SIREN_CALLBACK_ON_STATE_CHANGED ++ Bytes.toLE32 state.value
  fits := by
    rw [List.length_append, Bytes.length_toLE32, Bytes.length_toLE32]
    decide

/-- The messages the process thread has written with this log. -/
inductive Written : List Entry → List Message → Prop
  | nil : Written [] []
  | frame {log : List Entry} {ms : List Message} (h : Written log ms) : Written (.frame :: log) ms
  | setState {log : List Entry} {ms : List Message} (state : R2vSysState) (h : Written log ms) :
      Written (.setState state :: log) (stateMessage state :: ms)
  | event {log : List Entry} {ms : List Message} (r : ProcessedVoiceResult) (h : Written log ms) :
      Written (.event r.event :: log) (r.message :: ms)

theorem Written.append {log log' : List Entry} {ms ms' : List Message} (h : Written log ms)
    (h' : Written log' ms') : Written (log ++ log') (ms ++ ms') := by
  induction h with
  | nil => exact h'
  | frame _ ih => exact .frame ih
  | setState state _ ih => exact .setState state ih
  | event r _ ih => exact .event r ih

theorem Written.results (result : List ProcessedVoiceResult) :
    Written (result.map fun r => .event r.event) (result.map (·.message)) := by
  induction result with
  | nil => exact .nil
  | cons r result ih => exact .event r ih

/-! ### The response thread of the proxy -/

/-- What `SirenProxy::responseThreadHandler` has done. -/
structure ProxyHandler where
  waitingInit : Bool
  sirenBaseInitFailed : Bool
  callbacks : List ClientCallback
  exited : Bool
  deriving DecidableEq

namespace ProxyHandler

def new : ProxyHandler := ⟨false, false, [], false⟩

def call (s : ProxyHandler) (c : ClientCallback) : ProxyHandler :=
  { s with callbacks := s.callbacks ++ [c] }

/-- A message that has been read. -/
def onMessage (s : ProxyHandler) (m : Message) : Except Fault ProxyHandler :=
  if m.msg = SIREN_RESPONSE_MSG_ON_INIT_OK then .ok { s with waitingInit := true }
  else if m.msg = SIREN_RESPONSE_MSG_ON_INIT_FAILED then
    .ok { s with waitingInit := true, sirenBaseInitFailed := true, exited := true }
  else if m.msg = SIREN_RESPONSE_MSG_ON_CALLBACK then
    if m.data.length < 4 then .error .outOfBounds
    else if Bytes.ofLE32 (m.data.take 4) = SIREN_CALLBACK_ON_STATE_CHANGED then
      if m.data.length < 8 then .error .outOfBounds
      else .ok (s.call (.state_changed_callback (Bytes.ofLE32 ((m.data.drop 4).take 4))))
    else .ok s
  else if m.msg = SIREN_RESPONSE_MSG_ON_DESTROY then .ok { s with exited := true }
  else do
    let voice_event ← responseThread m
    return voice_event.elim s fun e => s.call (.voice_event_callback e)

/-- A call of `pollMessage` as it ends. -/
def onOutcome (s : ProxyHandler) : Outcome → Except Fault ProxyHandler
  | .ok m => s.onMessage m
  | .magicError => .ok { s with exited := true }
  -- the thread stays in the call
  | .stuck => .ok s
  | .fault => .error .badAlloc

/-- The calls one after the other, until the thread returns. -/
def run (s : ProxyHandler) : List Outcome → Except Fault ProxyHandler
  | [] => .ok s
  | o :: os => if s.exited then .ok s else do
      let s ← s.onOutcome o
      s.run os

theorem onMessage_state (s : ProxyHandler) (state : R2vSysState) :
    s.onMessage (stateMessage state) = .ok (s.call (.state_changed_callback state.value)) := by
  have hvalue : Bytes.ofLE32 (((stateMessage state).data.drop 4).take 4) = state.value := by
    have hdrop : (stateMessage state).data.drop 4 = Bytes.toLE32 state.value :=
      List.drop_left' (Bytes.length_toLE32 _)
    rw [hdrop, List.take_of_length_le (Nat.le_of_eq (Bytes.length_toLE32 state.value)),
      Bytes.ofLE32_toLE32 state.fits.1 state.fits.2]
  have hkind : Bytes.ofLE32 ((stateMessage state).data.take 4) =
      SIREN_CALLBACK_ON_STATE_CHANGED := by
    have htake : (stateMessage state).data.take 4 =
        Bytes.toLE32 SIREN_CALLBACK_ON_STATE_CHANGED := List.take_left' (Bytes.length_toLE32 _)
    rw [htake]
    decide
  have hlength : (stateMessage state).data.length = 8 := by
    show (Bytes.toLE32 _ ++ Bytes.toLE32 _).length = 8
    rw [List.length_append, Bytes.length_toLE32, Bytes.length_toLE32]
  have hmsg : (stateMessage state).msg = SIREN_RESPONSE_MSG_ON_CALLBACK := rfl
  unfold onMessage
  rw [hmsg, if_neg (by decide), if_neg (by decide), if_pos rfl, hlength, if_neg (by decide),
    if_pos hkind, if_neg (by decide), hvalue]

theorem onMessage_result (s : ProxyHandler) (r : ProcessedVoiceResult) :
    s.onMessage r.message = .ok (s.call (.voice_event_callback r.event)) := by
  have hevent : s.onMessage r.message = do
      let voice_event ← responseThread r.message
      return voice_event.elim s fun e => s.call (.voice_event_callback e) := rfl
  rw [hevent, responseThread_message]
  rfl

/-- The thread goes on behind a message that calls back. -/
theorem run_call {s : ProxyHandler} (h : s.exited = false) {m : Message} {c : ClientCallback}
    (hm : s.onMessage m = .ok (s.call c)) (os : List Outcome) :
    s.run (.ok m :: os) = (s.call c).run os := by
  have houtcome : s.onOutcome (.ok m) = .ok (s.call c) := hm
  rw [run, if_neg (by rw [h]; exact Bool.false_ne_true), houtcome]
  rfl

theorem run_exited {s : ProxyHandler} (h : s.exited = true) (os : List Outcome) :
    s.run os = .ok s := by
  cases os with
  | nil => rfl
  | cons o os => rw [run, if_pos h]

/-- The messages of a log, with others behind them. -/
theorem run_written {log : List Entry} {ms : List Message} (hms : Written log ms)
    {s : ProxyHandler} (h : s.exited = false) (os : List Outcome) :
    s.run (ms.map .ok ++ os) =
      run { s with callbacks := s.callbacks ++ callbacksOf log } os := by
  induction hms generalizing s with
  | nil =>
    show s.run os = run { s with callbacks := s.callbacks ++ [] } os
    rw [List.append_nil]
  | frame _ ih => exact ih h
  | setState state _ ih =>
    rw [List.map_cons, List.cons_append, run_call h (onMessage_state s state)]
    refine (ih (show (s.call _).exited = false from h)).trans ?_
    show run { s with callbacks := s.callbacks ++ [_] ++ _ } os = _
    rw [List.append_assoc]
    rfl
  | event r _ ih =>
    rw [List.map_cons, List.cons_append, run_call h (onMessage_result s r)]
    refine (ih (show (s.call _).exited = false from h)).trans ?_
    show run { s with callbacks := s.callbacks ++ [_] ++ _ } os = _
    rw [List.append_assoc]
    rfl

end ProxyHandler

/-! ### From the process thread to the client -/

/-- What may follow: nothing, or the end of the thread with whatever is behind it. -/
def Follows (tail : List Message) : Prop :=
  tail = [] ∨ ∃ after, tail = ⟨SIREN_RESPONSE_MSG_ON_DESTROY, [], nil_fits⟩ :: after

theorem ProxyHandler.run_follows {tail : List Message} (h : Follows tail) (s : ProxyHandler) :
    ∃ s', s.run (tail.map .ok) = .ok s' ∧ s'.callbacks = s.callbacks := by
  rcases h with rfl | ⟨after, rfl⟩
  · exact ⟨s, rfl, rfl⟩
  · rw [List.map_cons, run]
    split
    · exact ⟨s, rfl, rfl⟩
    · exact ⟨{ s with exited := true }, run_exited rfl _, rfl⟩

/-- The client is called back with a log in its order, and with nothing else. -/
theorem ProxyHandler.run_log {log : List Entry} {ms tail : List Message} (hms : Written log ms)
    (htail : Follows tail) : ∃ s, new.run ((ms ++ tail).map .ok) = .ok s ∧
      s.callbacks = callbacksOf log := by
  obtain ⟨s, hs, hcallbacks⟩ := run_follows htail { new with callbacks := callbacksOf log }
  refine ⟨s, ?_, hcallbacks⟩
  rw [List.map_append, run_written hms rfl]
  exact hs

/-! ### States -/

def ClientRequest.state {F : Type} : ClientRequest F → Option Int
  | .setState state => some state.value
  | _ => none

namespace VoicePackage

variable {F : Type}

def state : VoicePackage F → Option Int
  | .setState state => some state.value
  | _ => none

def isRequest : VoicePackage F → Bool
  | .dataProcess _ _ _ => false
  | _ => true

/-- A state is asked for by a request. -/
theorem filterMap_state_requests (ps : List (VoicePackage F)) :
    (ps.filter isRequest).filterMap state = ps.filterMap state := by
  rw [List.filterMap_filter]
  refine List.filterMap_congr fun p _ => ?_
  cases p with
  | dataProcess | setState | setSteer | syncVTWordList | destroy => rfl

end VoicePackage

def ClientCallback.state : ClientCallback → Option Int
  | .state_changed_callback state => some state
  | .voice_event_callback _ => none

/-- The states the client has been called back with. -/
def statesOf (log : List Entry) : List Int := (callbacksOf log).filterMap ClientCallback.state

theorem statesOf_append (log log' : List Entry) :
    statesOf (log ++ log') = statesOf log ++ statesOf log' := by
  unfold statesOf callbacksOf
  rw [List.filterMap_append, List.filterMap_append]

theorem statesOf_results (result : List ProcessedVoiceResult) :
    statesOf (.frame :: result.map fun r => .event r.event) = [] := by
  induction result with
  | nil => rfl
  | cons r result ih => exact ih

theorem ClientRequest.state_packages {F : Type} [CFloat F] (rs : List (ClientRequest F)) :
    (packages rs).filterMap VoicePackage.state <+: rs.filterMap state ∧
      ((∀ r ∈ rs, r.isDestroy = false) →
        (packages rs).filterMap VoicePackage.state = rs.filterMap state) := by
  induction rs with
  | nil => exact ⟨List.prefix_rfl, fun _ => rfl⟩
  | cons r rs ih =>
    have hcons : (r :: rs).filterMap state = r.state.toList ++ rs.filterMap state := by
      cases r with
      | startProcessStream | stopProcessStream | setState | setSteer | syncVTWordList | destroy =>
        rfl
    have hpackage : r.package.toList.filterMap VoicePackage.state = r.state.toList := by
      cases r with
      | startProcessStream | stopProcessStream | setState | setSteer | syncVTWordList | destroy =>
        rfl
    rw [packages, List.filterMap_append, hpackage, hcons]
    cases hdestroy : r.isDestroy with
    | true =>
      refine ⟨?_, fun hall => ?_⟩
      · rw [if_pos rfl, List.filterMap_nil, List.append_nil]
        exact List.prefix_append _ _
      · rw [hall r List.mem_cons_self] at hdestroy
        cases hdestroy
    | false =>
      rw [if_neg Bool.false_ne_true]
      refine ⟨(List.prefix_append_right_inj _).mpr ih.1, fun hall => ?_⟩
      rw [ih.2 fun r hr => hall r (List.mem_cons_of_mem _ hr)]

namespace ProcessThread

variable {F : Type} [CFloat F] {E : Engines F}

/-- A package is answered by the state it asks for, if it does. -/
theorem next_written {s s' : ProcessThread F E} {pkg : VoicePackage F} {env : ResultEnv}
    (h : s.next (pkg, env) = some s') : ∃ es ms, s'.log = s.log ++ es ∧ Written es ms ∧
      statesOf es = pkg.state.toList := by
  have h := next_eq_some h
  -- a package that gives no message
  have hsilent : s'.log = s.log → pkg.state = none → ∃ es ms, s'.log = s.log ++ es ∧
      Written es ms ∧ statesOf es = pkg.state.toList := by
    intro hlog hstate
    exact ⟨[], [], by rw [hlog, List.append_nil], .nil, by rw [hstate]; rfl⟩
  cases pkg with
  | dataProcess aec size data =>
    obtain ⟨⟨a, result⟩, _, h⟩ := bind_eq_ok.mp h
    cases h
    exact ⟨_, _, rfl, .frame (.results result), statesOf_results result⟩
  | setState state =>
    cases h
    exact ⟨_, _, rfl, .setState state .nil, rfl⟩
  | setSteer ho ver =>
    cases h
    exact hsilent rfl rfl
  | syncVTWordList msg =>
    simp only [handle] at h
    split at h
    · cases h
    · split at h
      · obtain ⟨p, _, h⟩ := bind_eq_ok.mp h
        cases h
        exact hsilent rfl rfl
      · cases h
        exact hsilent rfl rfl
  | destroy =>
    cases h
    exact hsilent rfl rfl

theorem exec_written {s s' : ProcessThread F E} {ls : List (VoicePackage F × ResultEnv)}
    (h : exec next s ls = some s') : ∃ es ms, s'.log = s.log ++ es ∧ Written es ms ∧
      statesOf es = (ls.map Prod.fst).filterMap VoicePackage.state := by
  induction ls generalizing s with
  | nil =>
    cases h
    exact ⟨[], [], (List.append_nil _).symm, .nil, rfl⟩
  | cons l ls ih =>
    obtain ⟨pkg, env⟩ := l
    obtain ⟨s₁, hs₁, hrest⟩ := exec_cons_eq_some.mp h
    obtain ⟨es, ms, hlog, hms, hstates⟩ := next_written hs₁
    obtain ⟨es', ms', hlog', hms', hstates'⟩ := ih hrest
    refine ⟨es ++ es', ms ++ ms', by rw [hlog', hlog, List.append_assoc], hms.append hms', ?_⟩
    rw [statesOf_append, hstates, hstates', List.map_cons]
    cases pkg with
    | dataProcess | setState | setSteer | syncVTWordList | destroy => rfl

end ProcessThread

end BlackSiren

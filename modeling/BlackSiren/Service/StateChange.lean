import BlackSiren.Framework.CondVar
import BlackSiren.Framework.System
import Mathlib.Data.List.Perm.Subperm
import Mathlib.Tactic.Tauto

/-! # `set_siren_state`

    A request to change the state goes from the client to the process thread of
    the base, and its acknowledgement comes back:

        client              set_siren_state       -> requestQueue
        request thread      requestQueue          -> request channel
        response thread     request channel       -> processQueue     (base)
        process thread      setSysState           -> response channel (base)
        response thread     response channel      -> waitStateChange, callback

    A request carries no number; the `id` below is the place of its call among
    all calls and nothing in the code looks at it.  Other requests and messages
    take the same way and change nothing here.  A thread that has taken an item
    and not passed it on yet is shown as not having taken it.
-/

open LTS CondVar

namespace BlackSiren

namespace StateChange

/-- A `SIREN_REQUEST_MSG_SET_STATE`, or its acknowledgement. -/
structure Request where
  id : Nat
  state : Int
  deriving DecidableEq

/-- A call of `set_siren_state`; without a callback it is synchronous. -/
structure Call (Cb : Type) where
  state : Int
  callback : Option Cb
  deriving DecidableEq

/-- The thread that calls `set_siren_state`. -/
inductive Client where
  | idle
  /-- Before `requestQueue.push`. -/
  | pushing (r : Request) (sync : Bool)
  /-- In `stateChangeCond.wait_for`. -/
  | waiting (r : Request) (w : Waiter)
  /-- Three seconds are over. -/
  | expired (r : Request)
  deriving DecidableEq

/-- `SirenProxy::responseThreadHandler` -/
inductive Response where
  | polling
  /-- Before `stateChangeCallback(token, prevState)`. -/
  | calling (r : Request)
  deriving DecidableEq

structure State (Cb : Type) where
  client : Client
  /-- All calls so far. -/
  calls : List (Call Cb)
  waitStateChange : Bool
  /-- None is the function of the constructor, which prints the state. -/
  stateChangeCallback : Option Cb
  requestQueue : List Request
  requestChannel : List Request
  processQueue : List Request
  /-- The process thread, between `setState` and the end of `stateCallback`. -/
  process : Option Request
  responseChannel : List Request
  response : Response
  /-- Requests for which `setSysState` has set the state. -/
  executed : List Request
  /-- Acknowledgements and the callback each was given to. -/
  invoked : List (Request × Option Cb)
  /-- Synchronous calls that have returned and not timed out. -/
  returned : List Request
  deriving DecidableEq

inductive Label (Cb : Type) where
  | call (state : Int) (callback : Option Cb)
  | push
  | wait
  | timeout
  | spurious
  | requestThread
  | baseResponse
  | execute
  | acknowledge
  | release
  | invoke
  /-- A queue has overflowed: items are lost and may come out of order. -/
  | overflow (requestQueue processQueue : List Request)

variable {Cb : Type}

/-- `stateChangeCond.notify_one()` -/
def Client.notify : Client → Client
  | .waiting r w => .waiting r w.notify
  | client => client

/-- `stateChangeMutex` is taken. -/
def Client.holdsLock : Client → Bool
  | .waiting _ .blocking => true
  | _ => false

/-- `set_siren_state` up to its push. -/
def State.called (s : State Cb) (state : Int) : Option Cb → State Cb
  | some cb => { s with
      client := .pushing ⟨s.calls.length, state⟩ false
      calls := s.calls ++ [⟨state, some cb⟩]
      stateChangeCallback := some cb }
  | none => { s with
      client := .pushing ⟨s.calls.length, state⟩ true
      calls := s.calls ++ [⟨state, none⟩]
      -- without `stateChangeMutex`
      waitStateChange := false }

@[simp] theorem State.called_calls (s : State Cb) (state : Int) (callback : Option Cb) :
    (s.called state callback).calls = s.calls ++ [⟨state, callback⟩] := by
  cases callback <;> rfl

@[simp] theorem State.called_invoked (s : State Cb) (state : Int) (callback : Option Cb) :
    (s.called state callback).invoked = s.invoked := by
  cases callback <;> rfl

/-- `wait_for` ends; after a timeout the predicate is looked at once more. -/
def State.waited (s : State Cb) (r : Request) (flag : Bool) : State Cb :=
  if flag then { s with client := .idle, returned := s.returned ++ [r] }
  else { s with client := .idle }

def next (s : State Cb) : Label Cb → Option (State Cb)
  | .call state callback =>
      match s.client with
      | .idle => some (s.called state callback)
      | _ => none
  | .push =>
      match s.client with
      | .pushing r sync => some { s with
          client := if sync then .waiting r .checking else .idle
          requestQueue := s.requestQueue ++ [r] }
      | _ => none
  | .wait =>
      match s.client with
      | .waiting r w => (w.run s.waitStateChange).map fun w' =>
          w'.elim (s.waited r true) fun w' => { s with client := .waiting r w' }
      | .expired r => some (s.waited r s.waitStateChange)
      | _ => none
  | .timeout =>
      match s.client with
      | .waiting r .asleep => some { s with client := .expired r }
      | _ => none
  | .spurious =>
      match s.client with
      | .waiting r w => w.spurious.map fun w' => { s with client := .waiting r w' }
      | _ => none
  | .requestThread =>
      match s.requestQueue with
      | r :: rest => some { s with
          requestQueue := rest, requestChannel := s.requestChannel ++ [r] }
      | [] => none
  | .baseResponse =>
      match s.requestChannel with
      | r :: rest => some { s with requestChannel := rest, processQueue := s.processQueue ++ [r] }
      | [] => none
  | .execute =>
      match s.process, s.processQueue with
      | none, r :: rest => some { s with
          process := some r, processQueue := rest, executed := s.executed ++ [r] }
      | _, _ => none
  | .acknowledge =>
      match s.process with
      | some r => some { s with process := none, responseChannel := s.responseChannel ++ [r] }
      | none => none
  | .release =>
      match s.response, s.responseChannel with
      | .polling, r :: rest =>
          if s.client.holdsLock then none
          else some { s with
            client := s.client.notify
            waitStateChange := true
            responseChannel := rest
            response := .calling r }
      | _, _ => none
  | .invoke =>
      match s.response with
      | .calling r => some { s with
          response := .polling, invoked := s.invoked ++ [(r, s.stateChangeCallback)] }
      | .polling => none
  | .overflow requestQueue processQueue =>
      if requestQueue.Subperm s.requestQueue ∧ processQueue.Subperm s.processQueue then
        some { s with requestQueue := requestQueue, processQueue := processQueue }
      else none

def initial : State Cb where
  client := .idle
  calls := []
  waitStateChange := false
  stateChangeCallback := none
  requestQueue := []
  requestChannel := []
  processQueue := []
  process := none
  responseChannel := []
  response := .polling
  executed := []
  invoked := []
  returned := []

variable (Cb) in
def system : System (State Cb) (Label Cb) := .ofFn (· = initial) next

/-! ### What a step does -/

/-- The request of the call that the client is in. -/
def Client.request : Client → Option Request
  | .idle => none
  | .pushing r _ => some r
  | .waiting r _ => some r
  | .expired r => some r

/-- The request that is still to be pushed. -/
def Client.unpushed : Client → List Request
  | .pushing r _ => [r]
  | _ => []

@[simp] theorem Client.notify_request (c : Client) : c.notify.request = c.request := by
  cases c <;> rfl

@[simp] theorem Client.notify_unpushed (c : Client) : c.notify.unpushed = c.unpushed := by
  cases c <;> rfl

/-- The steps, with what is known of the state they are made in. -/
inductive Step (s : State Cb) : Label Cb → State Cb → Prop
  | call (state : Int) (callback : Option Cb) (hclient : s.client = .idle) :
      Step s (.call state callback) (s.called state callback)
  | push (r : Request) (sync : Bool) (hclient : s.client = .pushing r sync) :
      Step s .push { s with
        client := if sync then .waiting r .checking else .idle
        requestQueue := s.requestQueue ++ [r] }
  /-- The client stays in `wait_for`. -/
  | waits (l : Label Cb) (client : Client) (hl : l = .wait ∨ l = .timeout ∨ l = .spurious)
      (hrequest : client.request = s.client.request) (hfrom : s.client.unpushed = [])
      (hto : client.unpushed = []) :
      Step s l { s with client := client }
  | givesUp (r : Request) (hclient : s.client = .expired r) :
      Step s .wait { s with client := .idle }
  | returns (r : Request) (hrequest : s.client.request = some r) (hfrom : s.client.unpushed = [])
      (hflag : s.waitStateChange = true) :
      Step s .wait { s with client := .idle, returned := s.returned ++ [r] }
  | requestThread (r : Request) (rest : List Request) (hqueue : s.requestQueue = r :: rest) :
      Step s .requestThread { s with
        requestQueue := rest, requestChannel := s.requestChannel ++ [r] }
  | baseResponse (r : Request) (rest : List Request) (hchannel : s.requestChannel = r :: rest) :
      Step s .baseResponse { s with
        requestChannel := rest, processQueue := s.processQueue ++ [r] }
  | execute (r : Request) (rest : List Request) (hprocess : s.process = none)
      (hqueue : s.processQueue = r :: rest) :
      Step s .execute { s with
        process := some r, processQueue := rest, executed := s.executed ++ [r] }
  | acknowledge (r : Request) (hprocess : s.process = some r) :
      Step s .acknowledge { s with
        process := none, responseChannel := s.responseChannel ++ [r] }
  | release (r : Request) (rest : List Request) (hresponse : s.response = .polling)
      (hchannel : s.responseChannel = r :: rest) :
      Step s .release { s with
        client := s.client.notify
        waitStateChange := true
        responseChannel := rest
        response := .calling r }
  | invoke (r : Request) (hresponse : s.response = .calling r) :
      Step s .invoke { s with
        response := .polling, invoked := s.invoked ++ [(r, s.stateChangeCallback)] }
  | overflow (requestQueue processQueue : List Request)
      (hrequest : requestQueue.Subperm s.requestQueue)
      (hprocess : processQueue.Subperm s.processQueue) :
      Step s (.overflow requestQueue processQueue) { s with
        requestQueue := requestQueue, processQueue := processQueue }

theorem step_cases {s s' : State Cb} {l : Label Cb} (h : (system Cb).step s l s') :
    Step s l s' := by
  have hnext : next s l = some s' := h
  cases l with
  | call state callback =>
    simp only [next] at hnext
    split at hnext
    · cases hnext; exact .call state callback ‹_›
    · cases hnext
  | push =>
    simp only [next] at hnext
    split at hnext
    · cases hnext; exact .push _ _ ‹_›
    · cases hnext
  | wait =>
    simp only [next] at hnext
    split at hnext
    · next r w hclient =>
      obtain ⟨w', hrun, rfl⟩ := Option.map_eq_some_iff.mp hnext
      cases w' with
      | none =>
        have hflag := Waiter.flag_of_run hrun
        exact .returns r (by rw [hclient]; rfl) (by rw [hclient]; rfl) hflag
      | some w' => exact .waits _ _ (by simp) (by rw [hclient]; rfl) (by rw [hclient]; rfl) rfl
    · next r hclient =>
      cases hnext
      unfold State.waited
      split
      · exact .returns r (by rw [hclient]; rfl) (by rw [hclient]; rfl) ‹_›
      · exact .givesUp r hclient
    · cases hnext
  | timeout =>
    simp only [next] at hnext
    split at hnext
    · next r hclient =>
      cases hnext
      exact .waits _ _ (by simp) (by rw [hclient]; rfl) (by rw [hclient]; rfl) rfl
    · cases hnext
  | spurious =>
    simp only [next] at hnext
    split at hnext
    · next r w hclient =>
      obtain ⟨w', -, rfl⟩ := Option.map_eq_some_iff.mp hnext
      exact .waits _ _ (by simp) (by rw [hclient]; rfl) (by rw [hclient]; rfl) rfl
    · cases hnext
  | requestThread =>
    simp only [next] at hnext
    split at hnext
    · cases hnext; exact .requestThread _ _ ‹_›
    · cases hnext
  | baseResponse =>
    simp only [next] at hnext
    split at hnext
    · cases hnext; exact .baseResponse _ _ ‹_›
    · cases hnext
  | execute =>
    simp only [next] at hnext
    split at hnext
    · cases hnext; exact .execute _ _ ‹_› ‹_›
    · cases hnext
  | acknowledge =>
    simp only [next] at hnext
    split at hnext
    · cases hnext; exact .acknowledge _ ‹_›
    · cases hnext
  | release =>
    simp only [next] at hnext
    split at hnext
    · split at hnext
      · cases hnext
      · cases hnext; exact .release _ _ ‹_› ‹_›
    · cases hnext
  | invoke =>
    simp only [next] at hnext
    split at hnext
    · cases hnext; exact .invoke _ ‹_›
    · cases hnext
  | overflow requestQueue processQueue =>
    simp only [next] at hnext
    split at hnext
    · next hsub => cases hnext; exact .overflow _ _ hsub.1 hsub.2
    · cases hnext

/-! ### Requests in flight -/

/-- Requests pushed and not acknowledged yet, as far as they are not lost. -/
def State.inFlight (s : State Cb) : List Request :=
  s.responseChannel ++ s.process.toList ++ s.processQueue ++ s.requestChannel ++ s.requestQueue

theorem mem_inFlight {s : State Cb} {r : Request} :
    r ∈ s.inFlight ↔ r ∈ s.responseChannel ∨ s.process = some r ∨ r ∈ s.processQueue ∨
      r ∈ s.requestChannel ∨ r ∈ s.requestQueue := by
  simp only [State.inFlight, List.mem_append, Option.mem_toList, or_assoc]

/-- A step brings nothing into flight but the request that is pushed. -/
theorem Step.inFlight {s s' : State Cb} {l : Label Cb} (h : Step s l s') {r : Request}
    (hr : r ∈ s'.inFlight) : r ∈ s.inFlight ∨ s.client.request = some r := by
  rw [mem_inFlight] at hr
  cases h with
  | call state callback hclient =>
    left
    rw [mem_inFlight]
    cases callback <;> exact hr
  | push q sync hclient =>
    simp only [List.mem_append, List.mem_singleton] at hr
    rcases hr with h | h | h | h | h | rfl
    iterate 5 (left; rw [mem_inFlight]; simp [h])
    right
    rw [hclient]
    rfl
  | waits l client hl hrequest hfrom hto => exact .inl (mem_inFlight.mpr hr)
  | givesUp q hclient => exact .inl (mem_inFlight.mpr hr)
  | returns q hrequest hfrom hflag => exact .inl (mem_inFlight.mpr hr)
  | requestThread q rest hqueue =>
    left
    rw [mem_inFlight, hqueue, List.mem_cons]
    simp only [List.mem_append, List.mem_singleton] at hr
    tauto
  | baseResponse q rest hchannel =>
    left
    rw [mem_inFlight, hchannel, List.mem_cons]
    simp only [List.mem_append, List.mem_singleton] at hr
    tauto
  | execute q rest hprocess hqueue =>
    left
    rw [mem_inFlight, hqueue, List.mem_cons]
    simp only [Option.some.injEq] at hr
    tauto
  | acknowledge q hprocess =>
    left
    rw [mem_inFlight, hprocess, Option.some.injEq]
    simp only [List.mem_append, List.mem_singleton, reduceCtorEq, false_or] at hr
    tauto
  | release q rest hresponse hchannel =>
    left
    rw [mem_inFlight, hchannel, List.mem_cons]
    tauto
  | invoke q hresponse => exact .inl (mem_inFlight.mpr hr)
  | overflow requestQueue processQueue hrequest hprocess =>
    left
    rw [mem_inFlight]
    rcases hr with h | h | h | h | h
    · exact .inl h
    · exact .inr (.inl h)
    · exact .inr (.inr (.inl (hprocess.subset h)))
    · exact .inr (.inr (.inr (.inl h)))
    · exact .inr (.inr (.inr (.inr (hrequest.subset h))))

/-- What has been executed stays so. -/
theorem Step.executed {s s' : State Cb} {l : Label Cb} (h : Step s l s') :
    s.executed <+: s'.executed := by
  cases h with
  | call state callback hclient => cases callback <;> exact List.prefix_refl _
  | execute r rest hprocess hqueue => exact List.prefix_append _ _
  | _ => exact List.prefix_refl _

/-- The client enters a call with the next number and is in no other before. -/
theorem Step.request {s s' : State Cb} {l : Label Cb} (h : Step s l s') {r : Request}
    (hr : s'.client.request = some r) :
    s.client.request = some r ∨ r.id = s.calls.length ∧ r.id < s'.calls.length := by
  cases h with
  | call state callback hclient =>
    right
    cases callback <;> (cases hr; simp [State.called])
  | push q sync hclient =>
    left
    rw [hclient]
    cases sync with
    | true => exact hr
    | false => cases hr
  | waits l client hl hrequest hfrom hto => exact .inl (hrequest ▸ hr)
  | givesUp q hclient => cases hr
  | returns q hrequest hfrom hflag => cases hr
  | release q rest hresponse hchannel => exact .inl ((Client.notify_request _) ▸ hr)
  | _ => exact .inl hr

/-- The number of calls. -/
theorem Step.calls {s s' : State Cb} {l : Label Cb} (h : Step s l s') :
    s.calls <+: s'.calls := by
  cases h with
  | call state callback hclient => cases callback <;> exact List.prefix_append _ _
  | _ => exact List.prefix_refl _

/-- Only what is in flight gets executed. -/
theorem Step.mem_executed {s s' : State Cb} {l : Label Cb} (h : Step s l s') {r : Request}
    (hr : r ∈ s'.executed) : r ∈ s.executed ∨ r ∈ s.inFlight := by
  cases h with
  | call state callback hclient => cases callback <;> exact .inl hr
  | execute q rest hprocess hqueue =>
    rcases List.mem_append.mp hr with hr | hr
    · exact .inl hr
    · right
      rw [mem_inFlight, List.mem_singleton.mp hr, hqueue]
      simp
  | _ => exact .inl hr

/-- Only the call the client is in returns. -/
theorem Step.mem_returned {s s' : State Cb} {l : Label Cb} (h : Step s l s') {r : Request}
    (hr : r ∈ s'.returned) : r ∈ s.returned ∨ s.client.request = some r := by
  cases h with
  | call state callback hclient => cases callback <;> exact .inl hr
  | returns q hrequest hfrom hflag =>
    rcases List.mem_append.mp hr with hr | hr
    · exact .inl hr
    · rw [List.mem_singleton.mp hr]
      exact .inr hrequest
  | _ => exact .inl hr

/-- All requests have the number of a call. -/
structure Numbered (s : State Cb) : Prop where
  inFlight : ∀ r ∈ s.inFlight, r.id < s.calls.length
  client : ∀ r, s.client.request = some r → r.id < s.calls.length
  executed : ∀ r ∈ s.executed, r.id < s.calls.length
  returned : ∀ r ∈ s.returned, r.id < s.calls.length

theorem numbered {s : State Cb} (h : Reachable (system Cb) s) : Numbered s := by
  refine invariant _ Numbered ?_ ?_ h
  · rintro s rfl
    constructor <;> simp [initial, State.inFlight, Client.request]
  · intro s l s' hs hstep
    have hstep := step_cases hstep
    have hlen := hstep.calls.length_le
    refine ⟨?_, ?_, ?_, ?_⟩
    · intro r hr
      rcases hstep.inFlight hr with hr | hr
      · exact Nat.lt_of_lt_of_le (hs.inFlight r hr) hlen
      · exact Nat.lt_of_lt_of_le (hs.client r hr) hlen
    · intro r hr
      rcases hstep.request hr with hr | ⟨-, hr⟩
      · exact Nat.lt_of_lt_of_le (hs.client r hr) hlen
      · exact hr
    · intro r hr
      rcases hstep.mem_executed hr with hr | hr
      · exact Nat.lt_of_lt_of_le (hs.executed r hr) hlen
      · exact Nat.lt_of_lt_of_le (hs.inFlight r hr) hlen
    · intro r hr
      rcases hstep.mem_returned hr with hr | hr
      · exact Nat.lt_of_lt_of_le (hs.returned r hr) hlen
      · exact Nat.lt_of_lt_of_le (hs.client r hr) hlen

/-! ### Acknowledged alone

    While a call waits with nothing but its own request in flight, the flag can
    only come from that request. -/

/-- What the call of request `r` is told is true. -/
structure Answered (r : Request) (s : State Cb) : Prop where
  known : r.id < s.calls.length
  alone : s.client.request = some r → ∀ q ∈ s.inFlight, q = r
  acknowledged : s.client.request = some r →
    ∀ q, s.process = some q ∨ q ∈ s.responseChannel → q ∈ s.executed
  flag : s.client.request = some r → s.waitStateChange = true → r ∈ s.executed
  returned : r ∈ s.returned → r ∈ s.executed

/-- Once in the call, the client was in it before. -/
theorem Answered.request {r : Request} {s s' : State Cb} {l : Label Cb} (h : Answered r s)
    (hstep : Step s l s') (hr : s'.client.request = some r) : s.client.request = some r := by
  rcases hstep.request hr with hsame | hnew
  · exact hsame
  · exact absurd h.known (by omega)

theorem Answered.step {r : Request} {s s' : State Cb} {l : Label Cb} (h : Answered r s)
    (hstep : Step s l s') : Answered r s' := by
  refine ⟨Nat.lt_of_lt_of_le h.known hstep.calls.length_le, ?_, ?_, ?_, ?_⟩
  · intro hr q hq
    have hcall := h.request hstep hr
    rcases hstep.inFlight hq with hq | hq
    · exact h.alone hcall q hq
    · rw [hcall] at hq
      exact (Option.some.inj hq).symm
  · intro hr q hq
    have hold := h.acknowledged (h.request hstep hr)
    cases hstep with
    | call state callback hclient => cases callback <;> exact hold q hq
    | execute p rest hprocess hqueue =>
      rcases hq with hq | hq
      · cases hq
        simp
      · exact List.mem_append_left _ (hold q (.inr hq))
    | acknowledge p hprocess =>
      rcases hq with hq | hq
      · cases hq
      · rcases List.mem_append.mp hq with hq | hq
        · exact hold q (.inr hq)
        · rw [List.mem_singleton.mp hq]
          exact hold p (.inl hprocess)
    | release p rest hresponse hchannel =>
      rcases hq with hq | hq
      · exact hold q (.inl hq)
      · exact hold q (.inr (by rw [hchannel]; exact List.mem_cons_of_mem p hq))
    | _ => exact hold q hq
  · intro hr hflag
    have hcall := h.request hstep hr
    apply hstep.executed.subset
    cases hstep with
    | release p rest hresponse hchannel =>
      -- the acknowledgement is the one of the call
      have hp : p ∈ s.responseChannel := by simp [hchannel]
      have hpr : p = r := h.alone hcall p (mem_inFlight.mpr (.inl hp))
      rw [← hpr]
      exact h.acknowledged hcall p (.inr hp)
    | call state callback hclient =>
      rw [hclient] at hcall
      cases hcall
    | _ => exact h.flag hcall hflag
  · intro hr
    cases hstep with
    | returns q hrequest hfrom hflag =>
      rcases List.mem_append.mp hr with hr | hr
      · exact h.returned hr
      · rw [List.mem_singleton.mp hr] at h ⊢
        exact h.flag hrequest hflag
    | call state callback hclient => cases callback <;> exact h.returned hr
    | execute q rest hprocess hqueue => exact List.mem_append_left _ (h.returned hr)
    | _ => exact h.returned hr

theorem Answered.of_reachable {r : Request} {s s' : State Cb} (h : Answered r s)
    (hrun : Reachable ((system Cb).startingAt s) s') : Answered r s' := by
  refine invariant _ (Answered r) ?_ ?_ hrun
  · rintro t rfl
    exact h
  · intro t l t' ht hstep
    exact ht.step (step_cases hstep)

/-! ### Draining

    Without the client, the threads bring all that is in flight to an end. -/

/-- No queue overflows. -/
def NoOverflow (_ : State Cb) : Label Cb → Prop
  | .overflow _ _ => False
  | _ => True

variable (Cb) in
def inOrder : System (State Cb) (Label Cb) := (system Cb).restrict NoOverflow

def Response.toList : Response → List Request
  | .polling => []
  | .calling r => [r]

/-- The requests whose callback is still to come, in the order of their coming. -/
def State.pending (s : State Cb) : List Request := s.response.toList ++ s.inFlight

@[simp] theorem State.called_pending (s : State Cb) (state : Int) (callback : Option Cb) :
    (s.called state callback).pending = s.pending := by
  cases callback <;> rfl

@[simp] theorem State.called_unpushed (s : State Cb) (state : Int) (callback : Option Cb) :
    (s.called state callback).client.unpushed = [⟨s.calls.length, state⟩] := by
  cases callback <;> rfl

/-- The steps that what is pending has to take. -/
def State.weight (s : State Cb) : Nat :=
  s.response.toList.length + 2 * s.responseChannel.length + 3 * s.process.toList.length +
    4 * s.processQueue.length + 5 * s.requestChannel.length + 6 * s.requestQueue.length

/-- The client neither sleeps nor is about to. -/
def Client.Awake (c : Client) : Prop := ∀ r w, c = .waiting r w → w = .checking

theorem Client.Awake.notify {c : Client} (h : c.Awake) : c.notify = c := by
  cases c with
  | waiting r w => rw [h r w rfl]; rfl
  | _ => rfl

theorem Client.Awake.holdsLock {c : Client} (h : c.Awake) : c.holdsLock = false := by
  cases c with
  | waiting r w => rw [h r w rfl]; rfl
  | _ => rfl

/-- What the other threads leave as it is. -/
structure Moved (s s' : State Cb) : Prop where
  client : s'.client = s.client
  calls : s'.calls = s.calls
  callback : s'.stateChangeCallback = s.stateChangeCallback
  returned : s'.returned = s.returned
  /-- Pending requests are handed to the callback there is now. -/
  invoked : s'.invoked ++ s'.pending.map (·, s.stateChangeCallback) =
    s.invoked ++ s.pending.map (·, s.stateChangeCallback)
  executed : ∀ r ∈ s'.executed, r ∈ s.executed ∨ r ∈ s.inFlight
  inFlight : ∀ r ∈ s'.inFlight, r ∈ s.inFlight
  flag : s.inFlight ≠ [] ∨ s.waitStateChange = true →
    s'.inFlight ≠ [] ∨ s'.waitStateChange = true

theorem Moved.refl (s : State Cb) : Moved s s :=
  ⟨rfl, rfl, rfl, rfl, rfl, fun _ h => .inl h, fun _ h => h, id⟩

theorem Moved.trans {s s' s'' : State Cb} (h : Moved s s') (h' : Moved s' s'') : Moved s s'' where
  client := h'.client.trans h.client
  calls := h'.calls.trans h.calls
  callback := h'.callback.trans h.callback
  returned := h'.returned.trans h.returned
  invoked := by
    have hinvoked := h'.invoked
    rw [h.callback] at hinvoked
    exact hinvoked.trans h.invoked
  executed := by
    intro r hr
    rcases h'.executed r hr with hr | hr
    · exact h.executed r hr
    · exact .inr (h.inFlight r hr)
  inFlight := fun r hr => h.inFlight r (h'.inFlight r hr)
  flag := fun hs => h'.flag (h.flag hs)

/-- A step that passes requests on in their order. -/
theorem Moved.of_eq {s s' : State Cb} (hclient : s'.client = s.client) (hcalls : s'.calls = s.calls)
    (hcallback : s'.stateChangeCallback = s.stateChangeCallback)
    (hreturned : s'.returned = s.returned) (hinvoked : s'.invoked = s.invoked)
    (hpending : s'.pending = s.pending) (hinFlight : s'.inFlight = s.inFlight)
    (hflag : s'.waitStateChange = s.waitStateChange)
    (hexecuted : ∀ r ∈ s'.executed, r ∈ s.executed ∨ r ∈ s.inFlight) : Moved s s' where
  client := hclient
  calls := hcalls
  callback := hcallback
  returned := hreturned
  invoked := by rw [hinvoked, hpending]
  executed := hexecuted
  inFlight := fun r hr => hinFlight ▸ hr
  flag := by rw [hinFlight, hflag]; exact id

/-- As long as anything is pending some thread moves it. -/
theorem exists_move {s : State Cb} (hawake : s.client.Awake) (hpending : s.pending ≠ []) :
    ∃ l s', (inOrder Cb).step s l s' ∧ Moved s s' ∧ s'.weight < s.weight := by
  obtain ⟨client, calls, flag, callback, requestQueue, requestChannel, processQueue, process,
    responseChannel, response, executed, invoked, returned⟩ := s
  -- the stage nearest to the client moves first
  cases response with
  | calling r =>
    refine ⟨.invoke, _, ⟨trivial, rfl⟩, ⟨rfl, rfl, rfl, rfl, ?_, fun _ h => .inl h, fun _ h => h,
      id⟩, ?_⟩
    · simp [State.pending, Response.toList, State.inFlight]
    · simp [State.weight, Response.toList]
  | polling =>
    cases responseChannel with
    | cons r rest =>
      refine ⟨.release, _, ⟨trivial, if_neg (by rw [hawake.holdsLock]; decide)⟩,
        ⟨hawake.notify, rfl, rfl, rfl, rfl, fun _ h => .inl h, ?_, fun _ => .inr rfl⟩, ?_⟩
      · intro q hq
        exact List.mem_cons_of_mem r hq
      · simp [State.weight, Response.toList]
        omega
    | nil =>
      cases process with
      | some r =>
        refine ⟨.acknowledge, _, ⟨trivial, rfl⟩, .of_eq rfl rfl rfl rfl rfl rfl rfl rfl ?_, ?_⟩
        · intro q hq
          exact .inl hq
        · simp [State.weight, Response.toList]
      | none =>
        cases processQueue with
        | cons r rest =>
          refine ⟨.execute, _, ⟨trivial, rfl⟩, .of_eq rfl rfl rfl rfl rfl rfl rfl rfl ?_, ?_⟩
          · intro q hq
            rcases List.mem_append.mp hq with hq | hq
            · exact .inl hq
            · rw [List.mem_singleton.mp hq]
              exact .inr List.mem_cons_self
          · simp [State.weight, Response.toList]
            omega
        | nil =>
          cases requestChannel with
          | cons r rest =>
            refine ⟨.baseResponse, _, ⟨trivial, rfl⟩, .of_eq rfl rfl rfl rfl rfl rfl rfl rfl ?_, ?_⟩
            · intro q hq
              exact .inl hq
            · simp [State.weight, Response.toList]
              omega
          | nil =>
            cases requestQueue with
            | cons r rest =>
              refine ⟨.requestThread, _, ⟨trivial, rfl⟩,
                .of_eq rfl rfl rfl rfl rfl rfl rfl rfl ?_, ?_⟩
              · intro q hq
                exact .inl hq
              · simp [State.weight, Response.toList]
                omega
            | nil => exact absurd rfl hpending

/-- All that is pending is handed to the callback there is now. -/
theorem drain (s : State Cb) (hawake : s.client.Awake) :
    ∃ s', Reachable ((inOrder Cb).startingAt s) s' ∧ Moved s s' ∧ s'.pending = [] := by
  induction hw : s.weight using Nat.strongRecOn generalizing s with
  | ind n ih =>
    by_cases hpending : s.pending = []
    · exact ⟨s, .refl _ s, .refl s, hpending⟩
    · obtain ⟨l, t, hstep, hmoved, hlt⟩ := exists_move hawake hpending
      obtain ⟨s', hrun, hmoved', hdone⟩ :=
        ih t.weight (hw ▸ hlt) t (hmoved.client ▸ hawake) rfl
      exact ⟨s', hrun.head l hstep, hmoved.trans hmoved', hdone⟩

/-! ### Synchronous calls -/

/-- A synchronous call is made when nothing is in flight. -/
def Alone (s : State Cb) : Label Cb → Prop
  | .call _ none => s.inFlight = []
  | _ => True

/-- A call that returns and has not timed out has had its state set. -/
def Prompt (s : State Cb) : Prop := ∀ r ∈ s.returned, r ∈ s.executed

/-- The request of a synchronous call. -/
def Client.syncRequest : Client → Option Request
  | .pushing r true => some r
  | .waiting r _ => some r
  | .expired r => some r
  | _ => none

theorem Client.syncRequest_of_request {c : Client} (h : c.unpushed = []) :
    c.syncRequest = c.request := by
  cases c with
  | pushing r sync => cases h
  | _ => rfl

@[simp] theorem Client.notify_syncRequest (c : Client) : c.notify.syncRequest = c.syncRequest := by
  cases c <;> rfl

/-- A synchronous call is entered with nothing said about it. -/
theorem answered_called {s : State Cb} (hs : Numbered s) (hempty : s.inFlight = []) (state : Int) :
    Answered ⟨s.calls.length, state⟩ (s.called state none) where
  known := by simp [State.called]
  alone := by
    intro _ q hq
    have hq : q ∈ s.inFlight := hq
    rw [hempty] at hq
    cases hq
  acknowledged := by
    intro _ q hq
    have hmem : q ∈ s.inFlight := mem_inFlight.mpr (by tauto)
    rw [hempty] at hmem
    cases hmem
  flag := by
    intro _ hflag
    cases hflag
  returned := by
    intro hr
    exact absurd (hs.returned _ hr) (Nat.lt_irrefl _)

/-- A synchronous call goes on, or begins. -/
theorem Step.syncRequest {s s' : State Cb} {l : Label Cb} (h : Step s l s') {r : Request}
    (hr : s'.client.syncRequest = some r) :
    s.client.syncRequest = some r ∨
      ∃ state, l = .call state none ∧ s' = s.called state none ∧ r = ⟨s.calls.length, state⟩ := by
  cases h with
  | call state callback hclient =>
    cases callback with
    | none => exact .inr ⟨state, rfl, rfl, (Option.some.inj hr).symm⟩
    | some cb => cases hr
  | push q sync hclient =>
    left
    rw [hclient]
    cases sync with
    | true => exact hr
    | false => cases hr
  | waits l client hl hrequest hfrom hto =>
    left
    rw [Client.syncRequest_of_request hfrom, ← hrequest, ← Client.syncRequest_of_request hto]
    exact hr
  | givesUp q hclient => cases hr
  | returns q hrequest hfrom hflag => cases hr
  | release q rest hresponse hchannel => exact .inl ((Client.notify_syncRequest _) ▸ hr)
  | _ => exact .inl hr

/-- Runs in which every synchronous call is made with nothing in flight. -/
theorem prompt_of_alone {s : State Cb} (h : Reachable ((system Cb).restrict Alone) s) :
    Prompt s := by
  have hinv : Prompt s ∧ ∀ r, s.client.syncRequest = some r → Answered r s := by
    refine invariant_of_reachable _
      (fun s => Prompt s ∧ ∀ r, s.client.syncRequest = some r → Answered r s) ?_ ?_ h
    · rintro s rfl
      exact ⟨by simp [Prompt, initial], by simp [initial, Client.syncRequest]⟩
    · rintro s l s' hreach ⟨hprompt, hanswered⟩ ⟨hguard, hstep⟩
      have hstep := step_cases hstep
      refine ⟨?_, ?_⟩
      · intro r hr
        cases hstep with
        | returns q hrequest hfrom hflag =>
          rcases List.mem_append.mp hr with hr | hr
          · exact hprompt r hr
          · rw [List.mem_singleton.mp hr]
            have hsync := (Client.syncRequest_of_request hfrom).trans hrequest
            exact (hanswered q hsync).flag hrequest hflag
        | call state callback hclient => cases callback <;> exact hprompt r hr
        | execute q rest hprocess hqueue => exact List.mem_append_left _ (hprompt r hr)
        | _ => exact hprompt r hr
      · intro r hr
        rcases hstep.syncRequest hr with hr | ⟨state, rfl, rfl, rfl⟩
        · exact (hanswered r hr).step hstep
        · exact answered_called (numbered hreach.of_restrict) hguard state
  exact hinv.1

/-- What a synchronous call can come to from the moment it is made. -/
def PromptFrom (s : State Cb) (state : Int) : Prop :=
  ∀ s', Reachable ((system Cb).startingAt (s.called state none)) s' →
    ⟨s.calls.length, state⟩ ∈ s'.returned → ⟨s.calls.length, state⟩ ∈ s'.executed

/-- A client that has not pushed yet and finds the flag set is let go. -/
theorem returns_of_flag {s : State Cb} {r : Request} (hclient : s.client = .pushing r true)
    (hflag : s.waitStateChange = true) :
    ∃ s', Reachable ((system Cb).startingAt s) s' ∧ r ∈ s'.returned ∧ s'.executed = s.executed := by
  obtain ⟨client, calls, flag, callback, requestQueue, requestChannel, processQueue, process,
    responseChannel, response, executed, invoked, returned⟩ := s
  cases hclient
  cases hflag
  refine ⟨_, .step .wait (.step .push (.refl _ _) rfl) rfl, ?_, rfl⟩
  exact List.mem_append_right _ (List.mem_singleton.mpr rfl)

/-- With anything in flight the call may return on its acknowledgement. -/
theorem alone_of_promptFrom {s : State Cb} (h : Reachable (system Cb) s) {state : Int}
    (hprompt : PromptFrom s state) : s.inFlight = [] := by
  by_contra hne
  have hs := numbered h
  -- the threads drain what is in flight before the client has pushed
  have hawake : (s.called state none).client.Awake := by
    intro r w hw
    cases hw
  obtain ⟨t, hdrain, hmoved, hdone⟩ := drain (s.called state none) hawake
  have hrun : Reachable (((system Cb).startingAt (s.called state none)).restrict NoOverflow) t :=
    hdrain
  have hflag : t.waitStateChange = true := by
    rcases hmoved.flag (.inl hne) with hinFlight | hflag
    · exact absurd (List.append_eq_nil_iff.mp hdone).2 hinFlight
    · exact hflag
  obtain ⟨t', hreturn, hmem, hexecuted⟩ := returns_of_flag hmoved.client hflag
  have hnew := hprompt t' (hrun.of_restrict.trans hreturn) hmem
  rw [hexecuted] at hnew
  -- but only what was in flight has been executed since
  rcases hmoved.executed _ hnew with hold | hold
  · exact absurd (hs.executed _ hold) (Nat.lt_irrefl _)
  · exact absurd (hs.inFlight _ hold) (Nat.lt_irrefl _)

/-- A synchronous call that returns and has not timed out has had its own state
    set: so it is in every run whose synchronous calls are made with nothing in
    flight, and wherever anything is in flight a call may return too early. -/
theorem sync_returns_executed (Cb : Type) :
    (∀ s, Reachable ((system Cb).restrict Alone) s → Prompt s) ∧
    (∀ s state, Reachable (system Cb) s → s.client = .idle →
      (PromptFrom s state ↔ s.inFlight = [])) := by
  refine ⟨fun s h => prompt_of_alone h, ?_⟩
  intro s state h hidle
  refine ⟨alone_of_promptFrom h, ?_⟩
  intro hempty s' hrun
  exact ((answered_called (numbered h) hempty state).of_reachable hrun).returned

/-- An asynchronous call and a synchronous one: the acknowledgement of the first
    ends the wait of the second. -/
def earlyAck : List (Label Nat) :=
  [.call 1 (some 0), .push, .call 2 none, .push, .requestThread, .baseResponse, .execute,
    .acknowledge, .release, .wait]

/-- A synchronous call may return before its state is set, with no timeout and
    no overflow. -/
theorem not_sync_returns_executed :
    ¬ ∀ (Cb : Type) (s : State Cb), Reachable (system Cb) s → Prompt s := by
  intro h
  have hrun : (exec next initial earlyAck).map (fun s => (s.returned, s.executed)) =
      some ([⟨1, 2⟩], [⟨0, 1⟩]) := by decide
  obtain ⟨s, hs, hval⟩ := Option.map_eq_some_iff.mp hrun
  rw [Prod.mk.injEq] at hval
  have hprompt := h Nat s (reachable_of_exec rfl hs) ⟨1, 2⟩ (by rw [hval.1]; decide)
  rw [hval.2] at hprompt
  exact absurd hprompt (by decide)

end StateChange

end BlackSiren

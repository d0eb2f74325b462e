import BlackSiren.VTWord.Pipeline

/-! # The engine has the words of the client

    Every stage of the pipeline hands on, in order, what it has received.  So
    once nothing is on its way, the last message handled is the last one sent,
    and its words are the client's.

    - `Effect`: what one step can do
    - `Chain`: each stage's record continues in the next one's
    - `Latest`: the two ends of the pipeline
    - `words_in_step`: the words given to the engine
-/

namespace BlackSiren

namespace Pipeline

open LFQueue (Side Ret)
open LFQueue.Trace (called taken fills overflowed)

variable {F : Type} {E : Engines F}

/-! ### What one step can do -/

section

variable [CFloat F]

/-- The steps, with what must hold for them and what they change. -/
inductive Effect (gen : SirenPhonemeGen) (l : Label F) (s : State F E) : State F E → Prop
  | refused (result : SirenVT) (hresult : result ≠ .SIREN_VT_OK) :
      Effect gen l s { s with returned := s.returned ++ [result] }
  | sent (vt_words : List (SirenVTWord F)) (req : Message) (q : LFQueue.State Side Message)
      (hwords : ∀ w ∈ vt_words, w ∈ s.vt_words ∨ ∃ w₀ d, l = .add (some w₀) d ∧
        Legal w₀.vt_type ∧ stored gen w₀ d = some w)
      (hreq : allocateMessageFromVTWord vt_words = some req)
      (hpush : s.requestQueue.next requestParams (.push .producer req) = some q) :
      Effect gen l s { s with
        vt_words := vt_words
        returned := s.returned ++ [.SIREN_VT_OK]
        requestQueue := q }
  | client (errno : Nat) (q : LFQueue.State Side Message)
      (hstep : s.requestQueue.next requestParams (.step .producer errno) = some q) :
      Effect gen l s { s with requestQueue := q }
  | requestPop (hloop : s.request = .loop) (q : LFQueue.State Side Message)
      (hpop : s.requestQueue.next requestParams (.pop .consumer) = some q) :
      Effect gen l s { s with requestQueue := q, request := .popping }
  | requestPopping (hpopping : s.request = .popping) (errno : Nat)
      (q : LFQueue.State Side Message)
      (hstep : s.requestQueue.next requestParams (.step .consumer errno) = some q) :
      Effect gen l s { s with requestQueue := q }
  | requestPopped (hpopping : s.request = .popping) (last : Option (Ret Message))
      (hpc : s.requestQueue.pc .consumer = .idle last) (next : RequestThread)
      (hnext : popped last = none ∧ next = .loop ∨ ∃ req, popped last = some req ∧
        next = if req.msg = SIREN_REQUEST_MSG_DESTROY_ON_INIT then .exited else .writing req) :
      Effect gen l s { s with request := next }
  | write (req : Message) (hwriting : s.request = .writing req) :
      Effect gen l s { s with
        written := s.written ++ [req]
        channel := s.channel ++ [req]
        request := if req.msg = SIREN_REQUEST_MSG_DESTROY then .exited else .loop }
  | poll (message : Message) (channel : List Message) (hchannel : s.channel = message :: channel)
      (q : LFQueue.State Side Message)
      (hpush : s.processQueue.next processParams (.push .producer (copyMessage message)) = some q) :
      Effect gen l s { s with channel := channel, processQueue := q }
  | response (errno : Nat) (q : LFQueue.State Side Message)
      (hstep : s.processQueue.next processParams (.step .producer errno) = some q) :
      Effect gen l s { s with processQueue := q }
  | processPop (hloop : s.process = .loop) (q : LFQueue.State Side Message)
      (hpop : s.processQueue.next processParams (.pop .consumer) = some q) :
      Effect gen l s { s with processQueue := q, process := .popping }
  | processPopping (hpopping : s.process = .popping) (errno : Nat)
      (q : LFQueue.State Side Message)
      (hstep : s.processQueue.next processParams (.step .consumer errno) = some q) :
      Effect gen l s { s with processQueue := q }
  | processPopped (hpopping : s.process = .popping) (last : Option (Ret Message))
      (hpc : s.processQueue.pc .consumer = .idle last) :
      Effect gen l s { s with
        process := match popped last with
          | none => .loop
          | some msg => .handling msg }
  | synced (msg : Message) (hhandling : s.process = .handling msg) (ret : Int)
      (vt_words : List (SirenVTWord F)) (p : SirenProcessorImpl F E.recorded)
      (hget : getVTWordFromMessage (some msg) [] = some (ret, vt_words))
      (hsync : s.processor.syncVTWord vt_words = .ok p) :
      Effect gen l s { s with processor := p, handled := s.handled ++ [msg], process := .loop }
  | failed (msg : Message) (hhandling : s.process = .handling msg) (ret : Int)
      (vt_words : List (SirenVTWord F))
      (hget : getVTWordFromMessage (some msg) [] = some (ret, vt_words))
      (hret : ¬ (ret = 0 ∨ ret = -2)) :
      Effect gen l s { s with handled := s.handled ++ [msg], process := .loop }

theorem State.call_effect {gen : SirenPhonemeGen} {l : Label F} {s s' : State F E}
    {result : SirenVT} {vt_words : List (SirenVTWord F)}
    (h : s.call result vt_words = some s')
    (hfailed : result ≠ .SIREN_VT_OK → vt_words = s.vt_words)
    (hwords : ∀ w ∈ vt_words, w ∈ s.vt_words ∨ ∃ w₀ d, l = .add (some w₀) d ∧
      Legal w₀.vt_type ∧ stored gen w₀ d = some w) : Effect gen l s s' := by
  unfold call at h
  split at h
  · split at h
    · next hok =>
      obtain ⟨req, hreq, h⟩ := Option.bind_eq_some_iff.mp h
      obtain ⟨q, hpush, rfl⟩ := Option.map_eq_some_iff.mp h
      rw [hok]
      exact .sent vt_words req q hwords hreq hpush
    · next hnot =>
      rw [hfailed hnot] at h
      rw [← Option.some.inj h]
      exact .refused result hnot
  · cases h

theorem State.request_effect {gen : SirenPhonemeGen} {l : Label F} {s s' : State F E} {errno : Nat}
    (h : s.requestStep errno = some s') : Effect gen l s s' := by
  unfold requestStep at h
  split at h
  · next hloop =>
    obtain ⟨q, hpop, rfl⟩ := Option.map_eq_some_iff.mp h
    exact .requestPop hloop q hpop
  · next hpopping =>
    split at h
    · next last hpc =>
      split at h
      · next hnone =>
        rw [← Option.some.inj h]
        exact .requestPopped hpopping last hpc _ (.inl ⟨hnone, rfl⟩)
      · next req hsome =>
        split at h
        · next hexit =>
          rw [← Option.some.inj h]
          exact .requestPopped hpopping last hpc _ (.inr ⟨req, hsome, by rw [if_pos hexit]⟩)
        · next hexit =>
          rw [← Option.some.inj h]
          exact .requestPopped hpopping last hpc _ (.inr ⟨req, hsome, by rw [if_neg hexit]⟩)
    · obtain ⟨q, hstep, rfl⟩ := Option.map_eq_some_iff.mp h
      exact .requestPopping hpopping errno q hstep
  · next req hwriting =>
    rw [← Option.some.inj h]
    exact .write req hwriting
  · cases h

theorem State.response_effect {gen : SirenPhonemeGen} {l : Label F} {s s' : State F E}
    {errno : Nat} (h : s.responseStep errno = some s') : Effect gen l s s' := by
  unfold responseStep at h
  split at h
  · split at h
    · cases h
    · next message channel hchannel =>
      split at h
      · obtain ⟨q, hpush, rfl⟩ := Option.map_eq_some_iff.mp h
        exact .poll message channel hchannel q hpush
      · cases h
  · obtain ⟨q, hstep, rfl⟩ := Option.map_eq_some_iff.mp h
    exact .response errno q hstep

theorem State.process_effect {gen : SirenPhonemeGen} {l : Label F} {s s' : State F E} {errno : Nat}
    (h : s.processStep errno = some s') : Effect gen l s s' := by
  unfold processStep at h
  split at h
  · next hloop =>
    obtain ⟨q, hpop, rfl⟩ := Option.map_eq_some_iff.mp h
    exact .processPop hloop q hpop
  · next hpopping =>
    split at h
    · next last hpc =>
      have hpopped : Effect gen l s _ := .processPopped hpopping last hpc
      split at h
      · next hnone =>
        rw [hnone] at hpopped
        rw [← Option.some.inj h]
        exact hpopped
      · next msg hsome =>
        rw [hsome] at hpopped
        rw [← Option.some.inj h]
        exact hpopped
    · obtain ⟨q, hstep, rfl⟩ := Option.map_eq_some_iff.mp h
      exact .processPopping hpopping errno q hstep
  · next msg hhandling =>
    unfold handle at h
    split at h
    · cases h
    · next ret vt_words hget =>
      split at h
      · split at h
        · cases h
        · next p hsync =>
          rw [← Option.some.inj h]
          exact .synced msg hhandling ret vt_words p hget hsync
      · next hret =>
        rw [← Option.some.inj h]
        exact .failed msg hhandling ret vt_words hget hret

theorem State.next_effect {gen : SirenPhonemeGen} {l : Label F} {s s' : State F E}
    (h : s.next gen l = some s') : Effect gen l s s' := by
  cases l with
  | add word d =>
    rcases add_vt_word_cases gen s.vt_words word d with ⟨hfailed, hsame⟩ |
      ⟨w, w', rfl, hlegal, _, _, hstored, hadd⟩
    · refine call_effect h (fun _ => hsame) fun w hw => .inl ?_
      rwa [hsame] at hw
    · refine call_effect h (fun hnot => absurd (by rw [hadd]) hnot) fun v hv => ?_
      rw [hadd] at hv
      rcases List.mem_append.mp hv with hv | hv
      · exact .inl hv
      · rw [List.mem_singleton.mp hv]
        exact .inr ⟨w, d, rfl, hlegal, hstored⟩
  | remove word =>
    rcases remove_vt_word_cases s.vt_words word with ⟨hfailed, hsame⟩ | ⟨hok, hsub⟩
    · refine call_effect h (fun _ => hsame) fun w hw => .inl ?_
      rwa [hsame] at hw
    · exact call_effect h (fun hnot => absurd hok hnot) fun w hw => .inl (hsub w hw)
  | client errno =>
    obtain ⟨q, hstep, rfl⟩ := Option.map_eq_some_iff.mp h
    exact .client errno q hstep
  | request errno => exact request_effect h
  | response errno => exact response_effect h
  | process errno => exact process_effect h

/-! ### The queues -/

variable {gen : SirenPhonemeGen} {l : Label F} {s s' : State F E}

/-- Each queue makes a step of its own or none. -/
theorem Effect.queues (h : Effect gen l s s') :
    (s'.requestQueue = s.requestQueue ∨
      ∃ l', (LFQueue.State.spsc Message requestParams).step s.requestQueue l' s'.requestQueue) ∧
    (s'.processQueue = s.processQueue ∨
      ∃ l', (LFQueue.State.spsc Message processParams).step s.processQueue l' s'.processQueue) := by
  cases h with
  | sent vt_words req q hwords hreq hpush =>
    exact ⟨.inr ⟨.push .producer req, rfl, hpush⟩, .inl rfl⟩
  | client errno q hstep => exact ⟨.inr ⟨.step .producer errno, trivial, hstep⟩, .inl rfl⟩
  | requestPop hloop q hpop => exact ⟨.inr ⟨.pop .consumer, rfl, hpop⟩, .inl rfl⟩
  | requestPopping hpopping errno q hstep =>
    exact ⟨.inr ⟨.step .consumer errno, trivial, hstep⟩, .inl rfl⟩
  | poll message channel hchannel q hpush =>
    exact ⟨.inl rfl, .inr ⟨.push .producer (copyMessage message), rfl, hpush⟩⟩
  | response errno q hstep => exact ⟨.inl rfl, .inr ⟨.step .producer errno, trivial, hstep⟩⟩
  | processPop hloop q hpop => exact ⟨.inl rfl, .inr ⟨.pop .consumer, rfl, hpop⟩⟩
  | processPopping hpopping errno q hstep =>
    exact ⟨.inl rfl, .inr ⟨.step .consumer errno, trivial, hstep⟩⟩
  | _ => exact ⟨.inl rfl, .inl rfl⟩

variable {processor : SirenProcessorImpl F E.recorded}

theorem reachable_requestQueue (h : LTS.Reachable (State.system gen processor) s) :
    LTS.Reachable (LFQueue.State.spsc Message requestParams) s.requestQueue := by
  refine LTS.Reachable.map State.requestQueue ?_ ?_ h
  · intro s hs
    rw [show s = .new processor from hs]
    rfl
  · intro s l s' _ hstep
    exact (State.next_effect hstep).queues.1

theorem reachable_processQueue (h : LTS.Reachable (State.system gen processor) s) :
    LTS.Reachable (LFQueue.State.spsc Message processParams) s.processQueue := by
  refine LTS.Reachable.map State.processQueue ?_ ?_ h
  · intro s hs
    rw [show s = .new processor from hs]
    rfl
  · intro s l s' _ hstep
    exact (State.next_effect hstep).queues.2

/-- No push of the run has overflowed. -/
structure State.NoOverflow (s : State F E) : Prop where
  request : overflowed s.requestQueue.trace = []
  process : overflowed s.processQueue.trace = []

theorem Effect.noOverflow (h : Effect gen l s s') (hov : s'.NoOverflow) : s.NoOverflow := by
  obtain ⟨hrequest, hprocess⟩ := h.queues
  refine ⟨?_, ?_⟩
  · rcases hrequest with hsame | ⟨l', _, hstep⟩
    · rw [← hsame]
      exact hov.request
    · exact LFQueue.State.overflowed_of_next hstep hov.request
  · rcases hprocess with hsame | ⟨l', _, hstep⟩
    · rw [← hsame]
      exact hov.process
    · exact LFQueue.State.overflowed_of_next hstep hov.process

/-! ### The stages -/

/-- The message a thread has, when `inHand` is what its pop has taken. -/
def RequestThread.held (inHand : List Message) : RequestThread → List Message
  | .popping => inHand
  | .writing req => [req]
  | _ => []

def ProcessThread.held (inHand : List Message) : ProcessThread → List Message
  | .popping => inHand
  | .handling msg => [msg]
  | .loop => []

/-- The message the request thread has. -/
def State.requestHeld (s : State F E) : List Message := s.request.held s.requestQueue.inHand

/-- The message the process thread has. -/
def State.processHeld (s : State F E) : List Message := s.process.held s.processQueue.inHand

/-- Each stage's record continues in the next one's. -/
structure Chain (s : State F E) : Prop where
  sync : ∀ m ∈ called s.requestQueue.trace, m.msg = SIREN_REQUEST_MSG_SYNC_VT_WORD_LIST
  request : taken s.requestQueue.trace = s.written ++ s.requestHeld
  channel : s.written = called s.processQueue.trace ++ s.channel
  process : taken s.processQueue.trace = s.handled ++ s.processHeld

theorem allocate_msg {ws : List (SirenVTWord F)} {m : Message}
    (h : allocateMessageFromVTWord ws = some m) : m.msg = SIREN_REQUEST_MSG_SYNC_VT_WORD_LIST := by
  unfold allocateMessageFromVTWord at h
  split at h
  · rw [← Option.some.inj h]
  · split at h
    · rw [← Option.some.inj h]
    · cases h

/-- A thread goes on with what its pop has taken. -/
theorem inHand_popped {P : LFParams} {q : LFQueue.State Side Message}
    (h : LTS.Reachable (LFQueue.State.spsc Message P) q) {last : Option (Ret Message)}
    (hpc : q.pc .consumer = .idle last) : q.inHand = (popped last).toList := by
  unfold LFQueue.State.inHand
  rw [hpc]
  cases last with
  | none => rfl
  | some r =>
    cases r with
    | push status => rfl
    | pop status data =>
      show data.toList = (if status = -2 then none else data).toList
      rw [if_neg (LFQueue.State.pop_status h hpc)]

/-- Whatever the request thread has in hand has been sent by the client. -/
theorem Chain.held_sync (hr : LTS.Reachable (State.system gen processor) s) (hov : s.NoOverflow)
    (hs : Chain s) {m : Message} (hm : m ∈ s.requestHeld) :
    m.msg = SIREN_REQUEST_MSG_SYNC_VT_WORD_LIST := by
  apply hs.sync
  have hprefix := LFQueue.State.taken_prefix_called (reachable_requestQueue hr) hov.request
  apply hprefix.subset
  rw [hs.request]
  exact List.mem_append_right _ hm

/-- The request thread passes on every message it takes, as each is a client's. -/
theorem Chain.held_next (hr : LTS.Reachable (State.system gen processor) s) (hov : s.NoOverflow)
    (hs : Chain s) (hpopping : s.request = .popping) {last : Option (Ret Message)}
    (hpc : s.requestQueue.pc .consumer = .idle last) {next : RequestThread}
    (hnext : popped last = none ∧ next = .loop ∨ ∃ req, popped last = some req ∧
      next = if req.msg = SIREN_REQUEST_MSG_DESTROY_ON_INIT then .exited else .writing req) :
    next.held s.requestQueue.inHand = s.requestHeld := by
  have hheld : s.requestHeld = (popped last).toList := by
    rw [← inHand_popped (reachable_requestQueue hr) hpc, State.requestHeld, hpopping]
    rfl
  rw [hheld]
  rcases hnext with ⟨hnone, rfl⟩ | ⟨req, hsome, rfl⟩
  · rw [hnone]
    rfl
  · have hsync := hs.held_sync hr hov (m := req) (by rw [hheld, hsome]; simp)
    rw [hsome, if_neg (by rw [hsync]; decide)]
    rfl

theorem Chain.step (hr : LTS.Reachable (State.system gen processor) s) (hov : s.NoOverflow)
    (hs : Chain s) (h : Effect gen l s s') : Chain s' := by
  have hrequest := reachable_requestQueue hr
  have hprocess := reachable_processQueue hr
  cases h with
  | refused result hresult => exact ⟨hs.sync, hs.request, hs.channel, hs.process⟩
  | sent vt_words req q hwords hreq hpush =>
    refine ⟨?_, LFQueue.State.record_of_push s.request.held hs.request hpush, hs.channel,
      hs.process⟩
    intro m hm
    rcases List.mem_append.mp ((LFQueue.State.push_begins hpush).1 ▸ hm) with hm | hm
    · exact hs.sync m hm
    · rw [List.mem_singleton.mp hm]
      exact allocate_msg hreq
  | client errno q hstep =>
    have hcalled := LFQueue.State.step_called hrequest hstep
    exact ⟨fun m hm => hs.sync m (hcalled ▸ hm),
      LFQueue.State.record_of_pushing s.request.held hrequest hov.request hs.request hstep,
      hs.channel, hs.process⟩
  | requestPop hloop q hpop =>
    have hcalled := (LFQueue.State.pop_begins hpop).1
    have hrecord := hs.request
    rw [State.requestHeld, hloop, show RequestThread.loop.held _ = [] from rfl,
      List.append_nil] at hrecord
    exact ⟨fun m hm => hs.sync m (hcalled ▸ hm), LFQueue.State.record_of_pop hrecord hpop,
      hs.channel, hs.process⟩
  | requestPopping hpopping errno q hstep =>
    have hcalled := LFQueue.State.step_called hrequest hstep
    have hrecord := hs.request
    rw [State.requestHeld, hpopping] at hrecord
    refine ⟨fun m hm => hs.sync m (hcalled ▸ hm), ?_, hs.channel, hs.process⟩
    show taken q.trace = s.written ++ s.request.held q.inHand
    rw [hpopping]
    exact LFQueue.State.record_of_popping hrequest hrecord hstep
  | requestPopped hpopping last hpc next hnext =>
    refine ⟨hs.sync, ?_, hs.channel, hs.process⟩
    -- what was in the hand of the pop is in that of the thread
    show taken s.requestQueue.trace = s.written ++ next.held s.requestQueue.inHand
    rw [hs.held_next hr hov hpopping hpc hnext]
    exact hs.request
  | write req hwriting =>
    have hrecord := hs.request
    rw [State.requestHeld, hwriting] at hrecord
    refine ⟨hs.sync, ?_, ?_, hs.process⟩
    · refine hrecord.trans (List.append_nil _).symm |>.trans (congrArg _ ?_)
      show [] = RequestThread.held _ (if _ then _ else _)
      split_ifs <;> rfl
    · show s.written ++ [req] = called s.processQueue.trace ++ (s.channel ++ [req])
      rw [hs.channel, List.append_assoc]
  | poll message channel hchannel q hpush =>
    refine ⟨hs.sync, hs.request, ?_, LFQueue.State.record_of_push s.process.held hs.process hpush⟩
    show s.written = called q.trace ++ channel
    -- the head of the channel goes to the end of the queue
    rw [(LFQueue.State.push_begins hpush).1, hs.channel, hchannel, List.append_assoc]
    rfl
  | response errno q hstep =>
    have hcalled := LFQueue.State.step_called hprocess hstep
    exact ⟨hs.sync, hs.request, hs.channel.trans (congrArg (· ++ s.channel) hcalled.symm),
      LFQueue.State.record_of_pushing s.process.held hprocess hov.process hs.process hstep⟩
  | processPop hloop q hpop =>
    have hcalled := (LFQueue.State.pop_begins hpop).1
    have hrecord := hs.process
    rw [State.processHeld, hloop, show ProcessThread.loop.held _ = [] from rfl,
      List.append_nil] at hrecord
    exact ⟨hs.sync, hs.request, hs.channel.trans (congrArg (· ++ s.channel) hcalled.symm),
      LFQueue.State.record_of_pop hrecord hpop⟩
  | processPopping hpopping errno q hstep =>
    have hcalled := LFQueue.State.step_called hprocess hstep
    have hrecord := hs.process
    rw [State.processHeld, hpopping] at hrecord
    refine ⟨hs.sync, hs.request, hs.channel.trans (congrArg (· ++ s.channel) hcalled.symm), ?_⟩
    show taken q.trace = s.handled ++ s.process.held q.inHand
    rw [hpopping]
    exact LFQueue.State.record_of_popping hprocess hrecord hstep
  | processPopped hpopping last hpc =>
    refine ⟨hs.sync, hs.request, hs.channel, ?_⟩
    have hrecord := hs.process
    rw [State.processHeld, hpopping, inHand_popped hprocess hpc] at hrecord
    cases hlast : popped last with
    | none =>
      rw [hlast] at hrecord
      exact hrecord
    | some msg =>
      rw [hlast] at hrecord
      exact hrecord
  | synced msg hhandling ret vt_words p hget hsync =>
    have hrecord := hs.process
    rw [State.processHeld, hhandling] at hrecord
    refine ⟨hs.sync, hs.request, hs.channel, ?_⟩
    exact hrecord.trans (List.append_nil _).symm
  | failed msg hhandling ret vt_words hget hret =>
    have hrecord := hs.process
    rw [State.processHeld, hhandling] at hrecord
    refine ⟨hs.sync, hs.request, hs.channel, ?_⟩
    exact hrecord.trans (List.append_nil _).symm

theorem chain (h : LTS.Reachable (State.system gen processor) s) (hov : s.NoOverflow) :
    Chain s := by
  refine LTS.invariant_of_reachable (State.system gen processor)
    (fun s => s.NoOverflow → Chain s) ?_ ?_ h hov
  · intro s hs _
    rw [show s = .new processor from hs]
    refine ⟨?_, rfl, rfl, rfl⟩
    intro ws hws
    cases hws
  · intro s l s' hr hs hstep hov
    have heffect := State.next_effect hstep
    have hov' := heffect.noOverflow hov
    exact (hs hov').step hr hov' heffect

/-! ### The two ends -/

/-- The words a call adds fit `WordInfo`. -/
def Label.Fits (gen : SirenPhonemeGen) : Label F → Prop
  | .add (some w) d => ∀ w', stored gen w d = some w' → w'.Fits
  | _ => True

theorem totalLen_lt {ws : List (SirenVTWord F)} {m : Message}
    (h : allocateMessageFromVTWord ws = some m) : totalLen ws < 2 ^ 31 := by
  unfold allocateMessageFromVTWord at h
  split at h
  · next hempty =>
    rw [List.isEmpty_iff.mp hempty]
    show 4 * 4 < 2 ^ 31
    decide
  · split at h
    · next hlen =>
      rwa [length_encodeWords] at hlen
    · cases h

/-- The words behind a call that succeeds have a message whose length is an `int`. -/
def LengthFits (result : SirenVT) (vt_words : List (SirenVTWord F)) : Prop :=
  result = .SIREN_VT_OK → totalLen vt_words < 2 ^ 31

instance (result : SirenVT) (vt_words : List (SirenVTWord F)) :
    Decidable (LengthFits result vt_words) :=
  inferInstanceAs (Decidable (_ → _))

def Label.LengthFits (gen : SirenPhonemeGen) (vt_words : List (SirenVTWord F)) :
    Label F → Prop
  | .add word d =>
      let r := add_vt_word gen vt_words word d
      Pipeline.LengthFits r.1 r.2.2
  | .remove word =>
      let r := remove_vt_word vt_words word
      Pipeline.LengthFits r.1 r.2
  | _ => True

/-- The runs of such calls. -/
def State.fitting (gen : SirenPhonemeGen) (processor : SirenProcessorImpl F E.recorded) :
    LTS.System (State F E) (Label F) :=
  (State.system gen processor).restrict fun s l => l.Fits gen ∧ l.LengthFits gen s.vt_words

theorem State.call_length {result : SirenVT} {vt_words : List (SirenVTWord F)}
    (h : s.call result vt_words = some s') : LengthFits result vt_words := by
  intro hok
  unfold call at h
  split at h
  · rw [if_pos hok] at h
    obtain ⟨req, hreq, -⟩ := Option.bind_eq_some_iff.mp h
    exact totalLen_lt hreq
  · cases h

/-- A call whose message has another length is no step. -/
theorem State.next_length {l : Label F} (h : s.next gen l = some s') :
    l.LengthFits gen s.vt_words := by
  cases l with
  | add word d => exact call_length h
  | remove word => exact call_length h
  | _ => trivial

omit [CFloat F] in
/-- What `syncVTWord` gives to the engine. -/
theorem syncVTWord_eq_ok {p p' : SirenProcessorImpl F E.recorded} {ws : List (SirenVTWord F)}
    (h : p.syncVTWord ws = .ok p') :
    p'.config = p.config ∧ ∃ defaults added,
      p.config.def_vt_configs.mapM wordInfoOfDefault = .ok defaults ∧
      ws.mapM wordInfoOfVTWord = .ok added ∧ p'.given = p.given ++ [defaults ++ added] := by
  obtain ⟨defaults, added, hdefaults, hadded, rfl⟩ := SirenProcessorImpl.syncVTWord_eq_ok h
  exact ⟨rfl, defaults, added, hdefaults, hadded, rfl⟩

/-- The client's end holds the words of the last message sent; the engine's end
    has those of the last message handled. -/
structure Latest (processor : SirenProcessorImpl F E.recorded) (s : State F E) : Prop where
  config : s.processor.config = processor.config
  words : ∀ w ∈ s.vt_words, w.Fits ∧ Legal w.vt_type
  sent : .SIREN_VT_OK ∈ s.returned → ∃ m, (called s.requestQueue.trace).getLast? = some m ∧
    allocateMessageFromVTWord s.vt_words = some m
  given : ∀ m ret ws, s.handled.getLast? = some m → getVTWordFromMessage (some m) [] = some (ret, ws) →
    ret = 0 ∨ ret = -2 → ∃ defaults added,
      processor.config.def_vt_configs.mapM wordInfoOfDefault = .ok defaults ∧
      ws.mapM wordInfoOfVTWord = .ok added ∧
      s.processor.given.getLast? = some (defaults ++ added)

theorem stored_legal {w w' : SirenVTWord F} {d : Bool} (hlegal : Legal w.vt_type)
    (h : stored gen w d = some w') : Legal w'.vt_type := by
  rw [stored_vt_type h]
  exact hlegal

/-- A step that neither calls nor handles anything. -/
theorem Latest.of_eq (hs : Latest processor s) (hcalled : called s'.requestQueue.trace =
      called s.requestQueue.trace) (hwords : s'.vt_words = s.vt_words)
    (hreturned : s'.returned = s.returned) (hhandled : s'.handled = s.handled)
    (hprocessor : s'.processor = s.processor) : Latest processor s' := by
  refine ⟨?_, ?_, ?_, ?_⟩
  · rw [hprocessor]
    exact hs.config
  · rw [hwords]
    exact hs.words
  · rw [hreturned, hcalled, hwords]
    exact hs.sent
  · rw [hhandled, hprocessor]
    exact hs.given

theorem Latest.step (hr : LTS.Reachable (State.system gen processor) s) (hs : Latest processor s)
    (h : Effect gen l s s') (hfits : l.Fits gen) : Latest processor s' := by
  have hrequest := reachable_requestQueue hr
  cases h with
  | refused result hresult =>
    refine ⟨hs.config, hs.words, ?_, hs.given⟩
    intro hok
    rcases List.mem_append.mp hok with hok | hok
    · exact hs.sent hok
    · exact absurd (List.mem_singleton.mp hok).symm hresult
  | sent vt_words req q hwords hreq hpush =>
    refine ⟨hs.config, ?_, ?_, hs.given⟩
    · intro w hw
      rcases hwords w hw with hold | ⟨w₀, d, rfl, hlegal, hstored⟩
      · exact hs.words w hold
      · exact ⟨hfits w hstored, stored_legal hlegal hstored⟩
    · intro _
      refine ⟨req, ?_, hreq⟩
      show (called q.trace).getLast? = some req
      rw [(LFQueue.State.push_begins hpush).1]
      exact List.getLast?_concat
  | client errno q hstep =>
    exact hs.of_eq (LFQueue.State.step_called hrequest hstep) rfl rfl rfl rfl
  | requestPop hloop q hpop =>
    exact hs.of_eq (LFQueue.State.pop_begins hpop).1 rfl rfl rfl rfl
  | requestPopping hpopping errno q hstep =>
    exact hs.of_eq (LFQueue.State.step_called hrequest hstep) rfl rfl rfl rfl
  | synced msg hhandling ret vt_words p hget hsync =>
    obtain ⟨hconfig, defaults, added, hdefaults, hadded, hgiven⟩ := syncVTWord_eq_ok hsync
    refine ⟨hconfig.trans hs.config, hs.words, hs.sent, ?_⟩
    intro m ret' ws hlast hget' _
    have hlast' : (s.handled ++ [msg]).getLast? = some m := hlast
    rw [List.getLast?_concat] at hlast'
    -- the message last handled is this one
    rw [← Option.some.inj hlast', hget] at hget'
    obtain ⟨_, rfl⟩ := Prod.mk.inj (Option.some.inj hget')
    rw [hs.config] at hdefaults
    refine ⟨defaults, added, hdefaults, hadded, ?_⟩
    show p.given.getLast? = _
    rw [hgiven]
    exact List.getLast?_concat
  | failed msg hhandling ret vt_words hget hret =>
    refine ⟨hs.config, hs.words, hs.sent, ?_⟩
    intro m ret' ws hlast hget' hret'
    have hlast' : (s.handled ++ [msg]).getLast? = some m := hlast
    rw [List.getLast?_concat] at hlast'
    rw [← Option.some.inj hlast', hget] at hget'
    obtain ⟨rfl, _⟩ := Prod.mk.inj (Option.some.inj hget')
    exact absurd hret' hret
  | _ => exact hs.of_eq rfl rfl rfl rfl rfl

theorem latest (h : LTS.Reachable (State.fitting gen processor) s) : Latest processor s := by
  refine LTS.invariant_of_reachable (State.fitting gen processor) (Latest processor) ?_ ?_ h
  · intro s hs
    rw [show s = .new processor from hs]
    refine ⟨rfl, ?_, ?_, ?_⟩
    · intro w hw
      cases hw
    · intro hret
      cases hret
    · intro msg ret ws hlast
      cases hlast
  · intro s l s' hr hs hstep
    exact hs.step hr.of_restrict (State.next_effect hstep.2) hstep.1.1

/-! ### Nothing on its way -/

/-- No call is in progress, and no message is in a queue or the channel or in a
    thread's hands. -/
structure State.Settled (s : State F E) : Prop where
  client : ∃ last, s.requestQueue.pc .producer = .idle last
  requestQueue : ∀ i < requestParams.capacity, s.requestQueue.queue.data i = none
  request : s.requestHeld = []
  channel : s.channel = []
  response : ∃ last, s.processQueue.pc .producer = .idle last
  processQueue : ∀ i < processParams.capacity, s.processQueue.queue.data i = none
  process : s.processHeld = []

/-- All that has been sent has been handled. -/
theorem handled_eq_called (h : LTS.Reachable (State.system gen processor) s) (hov : s.NoOverflow)
    (hsettled : s.Settled) : s.handled = called s.requestQueue.trace := by
  have hs := chain h hov
  have hrequest := LFQueue.State.taken_eq_called (reachable_requestQueue h) hov.request
    hsettled.client hsettled.requestQueue
  have hprocess := LFQueue.State.taken_eq_called (reachable_processQueue h) hov.process
    hsettled.response hsettled.processQueue
  calc s.handled
      = taken s.processQueue.trace := by
        rw [hs.process, hsettled.process, List.append_nil]
    _ = called s.processQueue.trace := hprocess
    _ = s.written := by
        rw [hs.channel, hsettled.channel, List.append_nil]
    _ = taken s.requestQueue.trace := by
        rw [hs.request, hsettled.request, List.append_nil]
    _ = called s.requestQueue.trace := hrequest

theorem legal_int {t : Int} (h : Legal t) : -2 ^ 31 ≤ t ∧ t < 2 ^ 31 := by
  unfold Legal VT_TYPE_AWAKE VT_TYPE_SLEEP VT_TYPE_HOTWORD VT_TYPE_OTHER at h
  omega

omit [CFloat F] in
theorem info_arrived (ws : List (SirenVTWord F)) :
    (ws.map SirenVTWord.arrived).map SirenVTWord.info = ws.map SirenVTWord.info := by
  rw [List.map_map]
  rfl

/-- Once nothing is on its way, the engine was last given the default words and
    then the client's words, in order. -/
theorem words_in_step [LawfulCFloat F] (h : LTS.Reachable (State.fitting gen processor) s)
    (hdefaults : ∀ c ∈ processor.config.def_vt_configs, c.Fits) (hov : s.NoOverflow)
    (hsettled : s.Settled) (hok : .SIREN_VT_OK ∈ s.returned) :
    s.processor.given.getLast? = some (processor.config.def_vt_configs.map DefVTConfig.info ++
      s.vt_words.map SirenVTWord.info) := by
  have hs := latest h
  obtain ⟨m, hlast, hm⟩ := hs.sent hok
  rw [← handled_eq_called h.of_restrict hov hsettled] at hlast
  have hplain : ∀ w ∈ s.vt_words, w.Plain := by
    intro w hw
    obtain ⟨hfits, hlegal⟩ := hs.words w hw
    exact ⟨legal_int hlegal, hfits.vt_word.1, hfits.vt_phone.1, hfits.nnet_path.1⟩
  obtain ⟨m', hm', _, hget⟩ := exists_message hplain (totalLen_lt hm)
  obtain rfl : m' = m := Option.some.inj (hm'.symm.trans hm)
  have hfits : ∀ w ∈ s.vt_words.map SirenVTWord.arrived, wordInfoOfVTWord w = .ok w.info := by
    intro w hw
    obtain ⟨v, hv, rfl⟩ := List.mem_map.mp hw
    exact wordInfoOfVTWord_eq_ok (hs.words v hv).1
  -- the empty list is decoded with the status -2, any other with 0
  obtain ⟨ret, hret, hdecoded⟩ : ∃ ret : Int, (ret = 0 ∨ ret = -2) ∧
      decoded s.vt_words [] = (ret, s.vt_words.map SirenVTWord.arrived) := by
    unfold decoded
    cases s.vt_words with
    | nil => exact ⟨-2, .inr rfl, rfl⟩
    | cons w ws => exact ⟨0, .inl rfl, rfl⟩
  obtain ⟨defaults, added, hdef, hadd, hgiven⟩ :=
    hs.given m' ret _ hlast ((hget []).trans (congrArg some hdecoded)) hret
  rw [mapM_eq_ok fun c hc => wordInfoOfDefault_eq_ok (hdefaults c hc)] at hdef
  rw [mapM_eq_ok hfits, info_arrived] at hadd
  rw [hgiven, ← Except.ok.inj hdef, ← Except.ok.inj hadd]

end

/-! ### A run

    Two words are added and the first is removed; then the threads run. -/

section Run

/-- Engines that never report anything. -/
def silent : Engines Single where
  opus := { State := Unit, create := (), encode := fun _ _ => ((), .packet []) }
  vad := { State := Unit
           create := ()
           setParam := fun _ _ _ => ()
           restart := id
           setStart := fun _ _ => ()
           input := fun _ _ _ _ => ()
           startFrame := fun _ => -1
           frameNum := fun _ => 0
           voice := fun _ _ => ⟨0⟩
           stopFrame := fun _ => 0 }
  bf := { State := Unit
          create := fun _ _ => ()
          steer := fun _ _ _ => ()
          process := fun _ _ => ((), fun _ => ⟨0⟩) }
  vbv := { State := Unit
           create := fun _ _ _ _ => ()
           unassigned := fun _ => ⟨false, none, none⟩
           setwords := fun _ _ => ()
           process := fun _ _ _ _ => ((), ⟨false, false, false, false, false⟩)
           getdetwordinfo := fun _ => (none, none)
           getlastaudio := fun _ _ _ => []
           getsl := fun _ _ _ => ((), (⟨0⟩, ⟨0⟩)) }
  slText := fun _ _ => []

/-- One microphone and one default word. -/
def oneWordConfig : SirenConfig Single where
  mic_num := 1
  alg_mic_pos := [(⟨0⟩, ⟨0⟩, ⟨0⟩)]
  alg_need_i2s_delay_mics := []
  alg_i2s_delay_mics := []
  alg_aec_mics := [0]
  alg_sl_mics := [0]
  alg_vt_phomod := []
  alg_vt_dnnmod := []
  def_vt_configs := [{
    vt_type := 1
    vt_word := [122]
    vt_phone := [122]
    vt_avg_score := ⟨4⟩
    vt_min_score := ⟨2⟩
    vt_left_sil_det := true
    vt_right_sil_det := false
    vt_remote_check_with_aec := true
    vt_remote_check_without_aec := true
    vt_local_classify_check := false
    vt_classify_shield := ⟨0⟩
    vt_nnet_path := [] }]
  alg_bf_scaling := ⟨1⟩
  alg_vt_enable := true
  alg_vad_enable := true
  alg_opus_compress := false

/-- One syllable. -/
def oneSyllable : SirenPhonemeGen where
  phonemeMaps := fun head => if head = [97, 49] then some [120, 121] else none

/-- A word with this text and settings of its own. -/
def wordOf (text : List UInt8) : SirenVTWord Single where
  vt_type := VT_TYPE_AWAKE
  vt_word := text
  vt_phone := [97, 49]
  use_default_config := true
  alg_config := {
    vt_block_avg_score := ⟨7⟩
    vt_block_min_score := ⟨8⟩
    vt_classify_shield := ⟨9⟩
    vt_left_sil_det := true
    vt_right_sil_det := false
    vt_remote_check_with_aec := true
    vt_remote_check_without_aec := false
    vt_local_classify_check := true
    nnet_path := [47] }

def schedule : List (Label Single) :=
  .add (some (wordOf [98])) false :: List.replicate 5 (.client 0) ++
    .add (some (wordOf [99])) false :: List.replicate 5 (.client 0) ++
    .remove (some [98]) :: List.replicate 5 (.client 0) ++
    List.replicate 27 (.request 0) ++ List.replicate 18 (.response 0) ++
    List.replicate 27 (.process 0)

def started : SirenProcessorImpl Single silent.recorded :=
  ((SirenProcessorImpl.init oneWordConfig).toOption.join).get rfl

theorem schedule_fits : ∀ l ∈ schedule, l.Fits oneSyllable := by
  have hword : ∀ (text : List UInt8), (0 : UInt8) ∉ text → text.length < 256 →
      (Label.add (some (wordOf text)) false).Fits oneSyllable := by
    intro text hnul hlen w' hw'
    have hstored : stored oneSyllable (wordOf text) false =
        some { wordOf text with vt_phone := [120, 121] } := rfl
    rw [hstored] at hw'
    cases hw'
    refine ⟨⟨hnul, hlen⟩, ?_, ?_⟩
    · show (0 : UInt8) ∉ [120, 121] ∧ [120, 121].length < 25600
      decide
    · show (0 : UInt8) ∉ [47] ∧ [47].length < 256
      decide
  intro l hl
  simp only [schedule, List.mem_append, List.mem_cons, List.mem_replicate] at hl
  rcases hl with ((((((rfl | ⟨-, rfl⟩) | rfl | ⟨-, rfl⟩) | rfl | ⟨-, rfl⟩) | ⟨-, rfl⟩) |
    ⟨-, rfl⟩) | ⟨-, rfl⟩)
  · exact hword [98] (by decide) (by decide)
  · trivial
  · exact hword [99] (by decide) (by decide)
  all_goals trivial

theorem words_in_step_schedule :
    ∃ s, LTS.exec (State.next oneSyllable) (State.new started : State Single silent) schedule =
      some s ∧ s.processor.given.getLast? =
        some (started.config.def_vt_configs.map DefVTConfig.info ++
          s.vt_words.map SirenVTWord.info) := by
  have hrun : ((LTS.exec (State.next oneSyllable) (State.new started : State Single silent)
      schedule).any fun (s : State Single silent) => decide (
        (overflowed s.requestQueue.trace = [] ∧ overflowed s.processQueue.trace = []) ∧
        (s.requestQueue.pc .producer = .idle (some (.push 0)) ∧
          s.processQueue.pc .producer = .idle (some (.push 0))) ∧
        (s.requestHeld = [] ∧ s.channel = [] ∧ s.processHeld = []) ∧
        (∀ i ∈ List.range 3, s.requestQueue.queue.data i = none) ∧
        (∀ i ∈ List.range 3, s.processQueue.queue.data i = none) ∧
        (∀ e ∈ fills s.requestQueue.trace, e.1 < 3) ∧ (∀ e ∈ fills s.processQueue.trace, e.1 < 3) ∧
        SirenVT.SIREN_VT_OK ∈ s.returned)) = true := by
    decide +kernel
  obtain ⟨s, hs, hrun⟩ := (Option.any_eq_true _ _).mp hrun
  obtain ⟨⟨hov, hov'⟩, ⟨hclient, hresponse⟩, ⟨hrequest, hchannel, hprocess⟩, hcells, hcells',
    hfills, hfills', hok⟩ := of_decide_eq_true hrun
  have hr : LTS.Reachable (State.system oneSyllable started) s := LTS.reachable_of_exec rfl hs
  -- the cells behind the third have never been filled
  have hempty : ∀ {P : LFParams} {q : LFQueue.State Side Message},
      LTS.Reachable (LFQueue.State.spsc Message P) q → (∀ i ∈ List.range 3, q.queue.data i = none) →
      (∀ e ∈ fills q.trace, e.1 < 3) → ∀ i, q.queue.data i = none := by
    intro P q hq hthree hfilled i
    by_cases hi : i < 3
    · exact hthree i (List.mem_range.mpr hi)
    · apply LFQueue.State.data_eq_none hq
      intro e he heq
      exact hi (heq ▸ hfilled e he)
  have hfits : LTS.Reachable ((State.system oneSyllable started).restrict
      fun _ l => l.Fits oneSyllable) s :=
    LTS.reachable_restrict_of_exec rfl hs fun l hl _ => schedule_fits l hl
  refine ⟨s, hs, words_in_step (hfits.guarded_by fun _ _ _ hfits hstep =>
    ⟨hfits, State.next_length hstep⟩) ?_ ⟨hov, hov'⟩ ?_ hok⟩
  · intro c hc
    have hc' : c ∈ oneWordConfig.def_vt_configs := hc
    rw [List.mem_singleton.mp hc']
    exact ⟨by decide, by decide, by decide⟩
  · exact {
      client := ⟨_, hclient⟩
      requestQueue := fun i _ => hempty (reachable_requestQueue hr) hcells hfills i
      request := hrequest
      channel := hchannel
      response := ⟨_, hresponse⟩
      processQueue := fun i _ => hempty (reachable_processQueue hr) hcells' hfills' i
      process := hprocess }

end Run

end Pipeline

end BlackSiren

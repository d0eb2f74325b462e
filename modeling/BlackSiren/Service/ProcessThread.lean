import BlackSiren.Channel.VTWordCodec
import BlackSiren.Processor.Order
import BlackSiren.Service.VoiceEvent

/-! # The process thread

    `processThreadHandler` takes packages from `processQueue`.  A frame goes through
    `SirenAudioVBVProcessor::process`, whose results are written to the response
    channel one after another; a request changes the processor.

    The asr flag of a frame is `r2v_state`, which requests and the messages of earlier
    frames set.  It is the sleep flag too, the awake flag is always set and the hotword
    flag never is.

    - `SirenAudioVBVProcessor`: the processor with `r2v_state`
    - `ProcessThread`, `handle`, `system`: a package, and all packages
    - `step_cases`: what a package does
    - `Frame.after`: the state behind a frame
    - `reachable_run`: the processor of the thread makes a run, and the events are
      those of its messages

    Left out: the recording to files, and the packages that `pop` does not give.
-/

open LTS

namespace BlackSiren

/-! ### Packages -/

/-- `PreprocessVoicePackage`, by its `msg`. -/
inductive VoicePackage (F : Type) where
  | dataProcess (aec : Int) (size : Nat) (data : Nat → UInt8)
  | setState (state : R2vSysState)
  | setSteer (ho ver : F)
  /-- The message its `data` points to. -/
  | syncVTWordList (msg : Message)
  | destroy

/-- `SirenAudioVBVProcessor` -/
structure SirenAudioVBVProcessor (F : Type) (E : Engines F) where
  pImpl : SirenProcessorImpl F E
  r2v_state : R2vSysState

namespace SirenAudioVBVProcessor

variable {F : Type} {E : Engines F}

/-- `setSysState`; the callback is up to the caller. -/
def setSysState (a : SirenAudioVBVProcessor F E) (state : R2vSysState) :
    SirenAudioVBVProcessor F E where
  pImpl := a.pImpl.setState state
  r2v_state := state

/-- `r2v_state` behind a message. -/
def stateAfter (r2v_state : R2vSysState) (m : R2adMsgBlock) : R2vSysState :=
  match m.iMsgId with
  | .r2ad_awake_cmd => .r2ssp_state_awake
  | .r2ad_sleep => .r2ssp_state_sleep
  | _ => r2v_state

/-- `asrFlag` -/
def asrFlag (a : SirenAudioVBVProcessor F E) : Int :=
  if a.r2v_state = .r2ssp_state_awake then 1 else 0

/-- The call that `process` makes. -/
def call (a : SirenAudioVBVProcessor F E) (aec : Int) (size : Nat) (data : Nat → UInt8) : Call where
  datain := data
  lenin := size
  aecflag := aec
  awakeflag := 1
  sleepflag := a.asrFlag
  asrflag := a.asrFlag
  hotwordflag := 0

variable [CFloat F]

/-- `process(voicePackage, result)` -/
def frame (a : SirenAudioVBVProcessor F E) (env : ResultEnv) (aec : Int) (size : Nat)
    (data : Nat → UInt8) : Except Fault (SirenAudioVBVProcessor F E × List ProcessedVoiceResult) :=
  -- the package has no data
  if size = 0 then .ok (a, [])
  else do
    let p ← a.pImpl.process (a.call aec size data)
    let (pImpl, msgs, _) := p.getMsgs
    let result ← process pImpl env msgs
    return ({ pImpl := pImpl, r2v_state := msgs.foldl stateAfter a.r2v_state }, result)

end SirenAudioVBVProcessor

/-! ### The thread -/

/-- What happens in a run of the thread. -/
inductive Entry where
  /-- A frame is taken. -/
  | frame
  /-- A request is carried out, and its callback written. -/
  | setState (state : R2vSysState)
  /-- A result is written; this is what `voice_event_callback` is given. -/
  | event (e : VoiceEvent)
  deriving DecidableEq

/-- `SIREN_EVENT_SLEEP` -/
def SIREN_EVENT_SLEEP : BitVec 32 := 111

/-- The locals of `processThreadHandler`, and what has happened. -/
structure ProcessThread (F : Type) (E : Engines F) where
  audioProcessor : SirenAudioVBVProcessor F E
  log : List Entry
  exited : Bool

namespace ProcessThread

variable {F : Type} {E : Engines F}

/-- Before a result is written. -/
def onResult (a : SirenAudioVBVProcessor F E) (r : ProcessedVoiceResult) :
    SirenAudioVBVProcessor F E :=
  if r.prop = SIREN_EVENT_SLEEP then a.setSysState .r2ssp_state_sleep else a

variable [CFloat F]

/-- A package. -/
def handle (s : ProcessThread F E) (env : ResultEnv) :
    VoicePackage F → Except Fault (ProcessThread F E)
  | .dataProcess aec size data => do
      let (a, result) ← s.audioProcessor.frame env aec size data
      return { s with
        audioProcessor := result.foldl onResult a
        log := s.log ++ .frame :: result.map fun r => .event r.event }
  | .setState state => .ok { s with
      audioProcessor := s.audioProcessor.setSysState state
      log := s.log ++ [.setState state] }
  | .setSteer ho ver => .ok { s with
      audioProcessor := { s.audioProcessor with
        pImpl := s.audioProcessor.pImpl.setSLSteer ho ver } }
  | .syncVTWordList msg =>
      match getVTWordFromMessage (some msg) [] with
      | none => .error .outOfBounds
      | some (ret, vt_words) =>
          if ret = 0 ∨ ret = -2 then do
            let p ← s.audioProcessor.pImpl.syncVTWord vt_words
            return { s with audioProcessor := { s.audioProcessor with pImpl := p } }
          else .ok s
  | .destroy => .ok { s with exited := true }

def next (s : ProcessThread F E) (l : VoicePackage F × ResultEnv) : Option (ProcessThread F E) :=
  if s.exited then none else (s.handle l.2 l.1).toOption

/-- The thread has been started with this configuration. -/
def Init (cfg : SirenConfig F) (s : ProcessThread F E) : Prop :=
  SirenProcessorImpl.init cfg = .ok (some s.audioProcessor.pImpl) ∧
    s.audioProcessor.r2v_state = .r2ssp_state_sleep ∧ s.log = [] ∧ s.exited = false

/-- Packages in any order. -/
def system (E : Engines F) (cfg : SirenConfig F) :
    System (ProcessThread F E) (VoicePackage F × ResultEnv) :=
  .ofFn (Init cfg) next

theorem next_eq_some {s s' : ProcessThread F E} {l : VoicePackage F × ResultEnv}
    (h : s.next l = some s') : s.handle l.2 l.1 = .ok s' := by
  unfold next at h
  split at h
  · cases h
  · exact Run.toOption_eq_some.mp h

/-! ### What a package does -/

/-- The result of a message has its id, and audio goes into the event. -/
def Shown (m : R2adMsgBlock) (r : ProcessedVoiceResult) : Prop :=
  r.prop = m.iMsgId.value ∧ (m.iMsgId = .r2ad_vad_data → m.pMsgData ≠ [] →
    r.hasSL = 0 ∧ r.hasVoice = 1 ∧ r.bytes = m.pMsgData)

theorem processMsg_shown {pImpl : SirenProcessorImpl F E} {env : ResultEnv} {vt vt' : VTInfo F}
    {i : Nat} {m : R2adMsgBlock} {r : ProcessedVoiceResult}
    (h : SirenAudioVBVProcessor.processMsg pImpl env vt i m = .ok (vt', r)) : Shown m r := by
  refine ⟨(SirenAudioVBVProcessor.processMsg_resultOf h).1, fun hid hdata => ?_⟩
  have hlen : m.pMsgData.length ≠ 0 := mt List.length_eq_zero_iff.mp hdata
  -- neither the source location nor a word is asked for
  have hsl : SirenAudioVBVProcessor.slPart env m = (m.pMsgData.length, false, 0) := by
    unfold SirenAudioVBVProcessor.slPart
    rw [if_neg]
    rintro ⟨_, hkind⟩
    rw [hid] at hkind
    cases hkind
  have hvt : SirenAudioVBVProcessor.vtPart pImpl vt m m.pMsgData.length =
      .ok (m.pMsgData.length, false, vt) := by
    unfold SirenAudioVBVProcessor.vtPart
    rw [if_neg]
    intro hkind
    rw [hid] at hkind
    cases hkind
  unfold SirenAudioVBVProcessor.processMsg at h
  rw [hsl] at h
  simp only [hvt, bind, Except.bind] at h
  obtain ⟨r', hmake, h⟩ := bind_eq_ok.mp h
  cases h
  obtain ⟨-, hflag, hcases⟩ := SirenAudioVBVProcessor.makeResult_eq_ok (Nat.le_refl _) hmake
  have hkind : hasVoice m.iMsgId = true := by
    rw [hid]
    rfl
  rcases hcases with ⟨-, -, hvoice, hbytes⟩ | ⟨hnone, -⟩ | ⟨hnone, -⟩
  · rw [List.take_length] at hbytes
    exact ⟨hflag, hvoice, hbytes⟩
  · exact absurd ⟨hlen, hkind⟩ hnone
  · exact absurd ⟨hlen, hkind⟩ hnone

theorem processMsgs_shown {pImpl : SirenProcessorImpl F E} {env : ResultEnv} {vt : VTInfo F}
    {i : Nat} {msgs : List R2adMsgBlock} {result : List ProcessedVoiceResult}
    (h : SirenAudioVBVProcessor.processMsgs pImpl env vt i msgs = .ok result) :
    List.Forall₂ Shown msgs result := by
  induction msgs generalizing vt i result with
  | nil =>
    cases h
    exact .nil
  | cons m msgs ih =>
    unfold SirenAudioVBVProcessor.processMsgs at h
    obtain ⟨⟨vt', r⟩, hmsg, h⟩ := bind_eq_ok.mp h
    obtain ⟨result', hrest, h⟩ := bind_eq_ok.mp h
    cases h
    exact .cons (processMsg_shown hmsg) (ih hrest)

/-- The results of a frame are those of its messages. -/
structure Frame (s s' : ProcessThread F E) (c : Call) (p : SirenProcessorImpl F E)
    (result : List ProcessedVoiceResult) : Prop where
  call : s.audioProcessor.pImpl.process c = .ok p
  results : List.Forall₂ Shown p.msgLst result
  processor : s'.audioProcessor = result.foldl onResult
    ⟨p.getMsgs.1, p.msgLst.foldl SirenAudioVBVProcessor.stateAfter s.audioProcessor.r2v_state⟩
  log : s'.log = s.log ++ .frame :: result.map fun r => .event r.event

/-- A package of audio: without data, or a frame. -/
theorem handle_dataProcess {s s' : ProcessThread F E} {env : ResultEnv} {aec : Int} {size : Nat}
    {data : Nat → UInt8} (h : s.handle env (.dataProcess aec size data) = .ok s') :
    (s'.audioProcessor = s.audioProcessor ∧ s'.log = s.log ++ [.frame]) ∨
      size ≠ 0 ∧ ∃ p result, Frame s s' (s.audioProcessor.call aec size data) p result := by
  obtain ⟨⟨a, result⟩, hframe, h⟩ := bind_eq_ok.mp h
  cases h
  unfold SirenAudioVBVProcessor.frame at hframe
  by_cases hsize : size = 0
  · rw [if_pos hsize] at hframe
    cases hframe
    exact .inl ⟨rfl, rfl⟩
  · rw [if_neg hsize] at hframe
    obtain ⟨p, hp, hframe⟩ := bind_eq_ok.mp hframe
    obtain ⟨result', hresult, hframe⟩ := bind_eq_ok.mp hframe
    cases hframe
    exact .inr ⟨hsize, p, result, hp, processMsgs_shown hresult, rfl, rfl⟩

/-- The steps. -/
inductive Step (s s' : ProcessThread F E) : Prop
  /-- A package without data. -/
  | empty (hprocessor : s'.audioProcessor = s.audioProcessor) (hlog : s'.log = s.log ++ [.frame])
  | frame (aec : Int) (size : Nat) (data : Nat → UInt8) (p : SirenProcessorImpl F E)
      (result : List ProcessedVoiceResult) (hsize : size ≠ 0)
      (hframe : Frame s s' (s.audioProcessor.call aec size data) p result)
  | setState (state : R2vSysState)
      (hprocessor : s'.audioProcessor = s.audioProcessor.setSysState state)
      (hlog : s'.log = s.log ++ [.setState state])
  | setSteer (ho ver : F)
      (hprocessor : s'.audioProcessor =
        ⟨s.audioProcessor.pImpl.setSLSteer ho ver, s.audioProcessor.r2v_state⟩)
      (hlog : s'.log = s.log)
  | syncVTWord (vt_words : List (SirenVTWord F)) (p : SirenProcessorImpl F E)
      (hsync : s.audioProcessor.pImpl.syncVTWord vt_words = .ok p)
      (hprocessor : s'.audioProcessor = ⟨p, s.audioProcessor.r2v_state⟩) (hlog : s'.log = s.log)
  /-- A list that cannot be read, or the end. -/
  | same (hprocessor : s'.audioProcessor = s.audioProcessor) (hlog : s'.log = s.log)

theorem step_cases {s s' : ProcessThread F E} {l : VoicePackage F × ResultEnv}
    (h : s.next l = some s') : Step s s' := by
  have h := next_eq_some h
  obtain ⟨pkg, env⟩ := l
  cases pkg with
  | dataProcess aec size data =>
    rcases handle_dataProcess h with ⟨hprocessor, hlog⟩ | ⟨hsize, p, result, hframe⟩
    · exact .empty hprocessor hlog
    · exact .frame aec size data p result hsize hframe
  | setState state =>
    cases h
    exact .setState state rfl rfl
  | setSteer ho ver =>
    cases h
    exact .setSteer ho ver rfl rfl
  | syncVTWordList msg =>
    simp only [handle] at h
    split at h
    · cases h
    · next ret vt_words _ =>
      split at h
      · obtain ⟨p, hp, h⟩ := bind_eq_ok.mp h
        cases h
        exact .syncVTWord vt_words p hp rfl rfl
      · cases h
        exact .same rfl rfl
  | destroy =>
    cases h
    exact .same rfl rfl

/-! ### The state behind a frame -/

omit [CFloat F] in
theorem setState_sleep_sleep (p : SirenProcessorImpl F E) :
    (p.setState .r2ssp_state_sleep).setState .r2ssp_state_sleep =
      p.setState .r2ssp_state_sleep := by
  unfold SirenProcessorImpl.setState
  by_cases hawke : p.state.awke = true
  · simp [hawke]
  · simp [hawke]

omit [CFloat F] in
theorem foldl_onResult {ms : List R2adMsgBlock} {result : List ProcessedVoiceResult}
    (h : List.Forall₂ (fun m r => r.prop = m.iMsgId.value) ms result)
    (a : SirenAudioVBVProcessor F E) : result.foldl onResult a =
      if .r2ad_sleep ∈ ms.map (·.iMsgId) then a.setSysState .r2ssp_state_sleep else a := by
  induction h generalizing a with
  | nil => rfl
  | @cons m r ms result hr _ ih =>
    rw [List.foldl_cons, ih, List.map_cons]
    unfold onResult
    have hsleep : r.prop = SIREN_EVENT_SLEEP ↔ .r2ad_sleep = m.iMsgId := by
      rw [hr, SIREN_EVENT_SLEEP]
      cases m.iMsgId <;> decide
    by_cases hm : .r2ad_sleep = m.iMsgId
    · rw [if_pos (hsleep.mpr hm), if_pos (List.mem_cons.mpr (.inl hm))]
      split
      · -- a second time changes nothing
        unfold SirenAudioVBVProcessor.setSysState
        rw [setState_sleep_sleep]
      · rfl
    · rw [if_neg (mt hsleep.mp hm)]
      simp only [List.mem_cons, hm, false_or]

omit [CFloat F] in
theorem foldl_stateAfter {ms : List R2adMsgBlock} (h : .r2ad_sleep ∉ ms.map (·.iMsgId))
    (r2v_state : R2vSysState) : ms.foldl SirenAudioVBVProcessor.stateAfter r2v_state =
      if .r2ad_awake_cmd ∈ ms.map (·.iMsgId) then .r2ssp_state_awake else r2v_state := by
  induction ms generalizing r2v_state with
  | nil => rfl
  | cons m ms ih =>
    rw [List.map_cons, List.mem_cons, not_or] at h
    have hm : SirenAudioVBVProcessor.stateAfter r2v_state m =
        if .r2ad_awake_cmd = m.iMsgId then .r2ssp_state_awake else r2v_state := by
      have hsleep := h.1
      unfold SirenAudioVBVProcessor.stateAfter
      generalize m.iMsgId = id at hsleep ⊢
      cases id <;> first | rfl | exact absurd rfl hsleep
    rw [List.foldl_cons, ih h.2, hm, List.map_cons]
    by_cases hcmd : .r2ad_awake_cmd = m.iMsgId
    · rw [if_pos hcmd, ite_self, if_pos (List.mem_cons.mpr (.inl hcmd))]
    · rw [if_neg hcmd]
      simp only [List.mem_cons, hcmd, false_or]

variable {s s' : ProcessThread F E} {c : Call} {p : SirenProcessorImpl F E}
  {result : List ProcessedVoiceResult}

theorem Frame.props (h : Frame s s' c p result) :
    List.Forall₂ (fun m r => r.prop = m.iMsgId.value) p.msgLst result :=
  h.results.imp fun _ _ hr => hr.1

/-- A sleep word wins over a wake word. -/
theorem Frame.after (h : Frame s s' c p result) : s'.audioProcessor =
    if .r2ad_sleep ∈ p.ids then
      ⟨p.getMsgs.1.setState .r2ssp_state_sleep, .r2ssp_state_sleep⟩
    else ⟨p.getMsgs.1, if .r2ad_awake_cmd ∈ p.ids then .r2ssp_state_awake
      else s.audioProcessor.r2v_state⟩ := by
  rw [h.processor, foldl_onResult h.props]
  show (if .r2ad_sleep ∈ p.ids then _ else _) = _
  split
  · rfl
  · next hsleep => rw [foldl_stateAfter hsleep]; rfl

/-- The events of a frame have the ids of its messages. -/
theorem Frame.events (h : Frame s s' c p result) :
    result.map (·.event.event) = p.ids.map R2adMsg.value := by
  have hprops := h.props
  unfold SirenProcessorImpl.ids
  generalize p.msgLst = ms at hprops ⊢
  clear h
  induction hprops with
  | nil => rfl
  | @cons m r _ _ hr _ ih =>
    simp only [List.map_cons, List.cons.injEq]
    exact ⟨r.event_event.trans hr, ih⟩

/-! ### The thread as a run -/

/-- The events in a log. -/
def events (log : List Entry) : List VoiceEvent :=
  log.filterMap fun
    | .event e => some e
    | _ => none

theorem events_append (log log' : List Entry) : events (log ++ log') = events log ++ events log' :=
  List.filterMap_append

theorem events_results (result : List ProcessedVoiceResult) :
    events (result.map fun r => .event r.event) = result.map (·.event) := by
  unfold events
  rw [List.filterMap_map]
  exact congrFun List.filterMap_eq_map result

/-- The event of a message of a frame: audio arrives with all its bytes. -/
def Arrives (m : R2adMsgBlock) (e : VoiceEvent) : Prop :=
  e.event = m.iMsgId.value ∧ (m.iMsgId = .r2ad_vad_data →
    e.flag = VOICE_MASK ∧ e.buff = .here m.pMsgData ∧ e.length.toNat = m.pMsgData.length ∧
      m.pMsgData ≠ [])

theorem Frame.arrives (h : Frame s s' c p result) :
    List.Forall₂ Arrives p.msgLst (result.map (·.event)) := by
  have hproduced : ∀ m ∈ p.msgLst, Produced m := SirenProcessorImpl.process_produced h.call
  have hresults := h.results
  clear h
  generalize p.msgLst = ms at hproduced hresults
  rw [List.forall₂_map_right_iff]
  induction hresults with
  | nil => exact .nil
  | @cons m r ms result hr _ ih =>
    rw [List.forall_mem_cons] at hproduced
    refine .cons ⟨r.event_event.trans hr.1, fun hid => ?_⟩ (ih hproduced.2)
    have hdata : m.pMsgData ≠ [] := by
      cases hproduced.1 with
      | @text id data hid' =>
        obtain rfl : id = .r2ad_vad_data := hid
        exact absurd hid' (by decide)
      | audio hdata => exact hdata
      | stop => cases hid
      | cancel => cases hid
    obtain ⟨hsl, hvoice, hbytes⟩ := hr.2 hid hdata
    have hsize : r.size ≠ 0 := by
      rw [Ne, r.size_eq_zero_iff, hbytes]
      exact hdata
    obtain ⟨hflag, hbuff⟩ := r.event_voice hsl hvoice hsize
    rw [hbytes] at hbuff
    refine ⟨hflag, hbuff, ?_, hdata⟩
    rw [r.event_length, r.sized, hbytes]

/-- The processor of the thread is that of a run, and the events are those of its
    messages. -/
theorem reachable_run {cfg : SirenConfig F} {s : ProcessThread F E}
    (h : Reachable (system E cfg) s) : ∃ r : Run F E, Reachable (Run.runs E cfg) r ∧
      r.p = s.audioProcessor.pImpl ∧ List.Forall₂ Arrives r.msgs (events s.log) := by
  refine invariant (system E cfg) (fun s => ∃ r : Run F E, Reachable (Run.runs E cfg) r ∧
    r.p = s.audioProcessor.pImpl ∧ List.Forall₂ Arrives r.msgs (events s.log)) ?_ ?_ h
  · intro s hs
    obtain ⟨hinit, -, hlog, -⟩ := hs
    refine ⟨⟨s.audioProcessor.pImpl, [], 0⟩, .init ⟨hinit, rfl, rfl⟩, rfl, ?_⟩
    rw [hlog]
    exact .nil
  · rintro s l s' ⟨⟨p₀, msgs, errors⟩, hr, hp, hmsgs⟩ hstep
    obtain rfl : p₀ = s.audioProcessor.pImpl := hp
    -- a step of the run that gives no messages
    have hsilent : ∀ (e : Event F) (q : SirenProcessorImpl F E),
        Run.next ⟨s.audioProcessor.pImpl, msgs, errors⟩ e = .ok ⟨q, msgs, errors⟩ →
          q = s'.audioProcessor.pImpl → events s'.log = events s.log →
            ∃ r : Run F E, Reachable (Run.runs E cfg) r ∧ r.p = s'.audioProcessor.pImpl ∧
              List.Forall₂ Arrives r.msgs (events s'.log) := by
      intro e q hnext hq hlog
      exact ⟨_, .step e hr (Run.toOption_eq_some.mpr hnext), hq, hlog ▸ hmsgs⟩
    have hlogged : ∀ e : Entry, events [e] = [] → s'.log = s.log ++ [e] →
        events s'.log = events s.log := by
      intro e he hlog
      rw [hlog, events_append, he, List.append_nil]
    cases step_cases hstep with
    | empty hprocessor hlog =>
      exact ⟨_, hr, congrArg (·.pImpl) hprocessor.symm, (hlogged _ rfl hlog) ▸ hmsgs⟩
    | frame aec size data p result hsize hframe =>
      -- the frame, and a `setState` for the results of a sleep word
      have hcall : Run.next ⟨s.audioProcessor.pImpl, msgs, errors⟩
          (.process (s.audioProcessor.call aec size data)) =
          .ok ⟨p.getMsgs.1, msgs ++ p.msgLst, errors + p.getMsgs.2.2⟩ := by
        simp only [Run.next, hframe.call, bind, Except.bind]
        rfl
      have hreached := Reachable.step _ hr (Run.toOption_eq_some.mpr hcall)
      have hall : List.Forall₂ Arrives (msgs ++ p.msgLst) (events s'.log) := by
        rw [hframe.log, events_append]
        have hframeEvents : events (.frame :: result.map fun r => .event r.event) =
            result.map (·.event) := events_results result
        rw [hframeEvents]
        exact List.rel_append hmsgs hframe.arrives
      have hafter := congrArg (·.pImpl) hframe.after
      by_cases hsleep : .r2ad_sleep ∈ p.ids
      · rw [if_pos hsleep] at hafter
        exact ⟨_, .step (.setState .r2ssp_state_sleep) hreached (Run.toOption_eq_some.mpr rfl),
          hafter.symm, hall⟩
      · rw [if_neg hsleep] at hafter
        exact ⟨_, hreached, hafter.symm, hall⟩
    | setState state hprocessor hlog =>
      refine hsilent (.setState state) (s.audioProcessor.pImpl.setState state) rfl ?_
        (hlogged _ rfl hlog)
      rw [hprocessor]
      rfl
    | setSteer ho ver hprocessor hlog =>
      refine hsilent (.setSLSteer ho ver) (s.audioProcessor.pImpl.setSLSteer ho ver) rfl ?_ ?_
      · rw [hprocessor]
      · rw [hlog]
    | syncVTWord vt_words p hsync hprocessor hlog =>
      refine hsilent (.syncVTWord vt_words) p ?_ ?_ ?_
      · simp only [Run.next, hsync, bind, Except.bind]
        rfl
      · rw [hprocessor]
      · rw [hlog]
    | same hprocessor hlog =>
      exact ⟨_, hr, congrArg (·.pImpl) hprocessor.symm, hlog ▸ hmsgs⟩

/-! ### Scripts -/

/-- The thread behind a list of packages, if every call returns. -/
def script (E : Engines F) (cfg : SirenConfig F) (ls : List (VoicePackage F × ResultEnv)) :
    Option (ProcessThread F E) :=
  match SirenProcessorImpl.init cfg with
  | .ok (some p) => exec next ⟨⟨p, .r2ssp_state_sleep⟩, [], false⟩ ls
  | _ => none

theorem script_reachable {cfg : SirenConfig F} {ls : List (VoicePackage F × ResultEnv)}
    {s : ProcessThread F E} (h : script E cfg ls = some s) : Reachable (system E cfg) s := by
  simp only [script] at h
  split at h
  · next p hp => exact reachable_of_exec ⟨hp, rfl, rfl, rfl⟩ h
  · cases h

end ProcessThread

end BlackSiren

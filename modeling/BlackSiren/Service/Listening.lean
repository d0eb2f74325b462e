import BlackSiren.Framework.Observer
import BlackSiren.Service.ProcessThread

/-! # When speech is sent

    Speech goes out only while the device is awake, or in the session that a wake
    word has opened, and only a device that is awake is sent to sleep by a word.
    `Listener` is that rule as an observer of the log: it knows the state from the
    requests and from the WAKE_CMD and SLEEP events, and a session from WAKE_PRE to
    the end of speech.

    - `Listener.next`: the rule
    - `Hears`: the observer beside the thread
    - `sent_only_listening`: every log keeps it
-/

open LTS

namespace BlackSiren

def SIREN_EVENT_VAD_DATA : BitVec 32 := 101

def SIREN_EVENT_VAD_END : BitVec 32 := 102

def SIREN_EVENT_WAKE_PRE : BitVec 32 := 107

def SIREN_EVENT_WAKE_CMD : BitVec 32 := 109

/-- What can be known of the device from outside. -/
structure Listener where
  state : R2vSysState
  /-- The device was awake when the frame was taken. -/
  listening : Bool
  /-- A wake word has been announced, and the speech behind it goes on. -/
  session : Bool
  deriving DecidableEq

namespace Listener

def onEvent (l : Listener) (event : BitVec 32) : Option Listener :=
  if event = SIREN_EVENT_VAD_DATA then if l.listening || l.session then some l else none
  else if event = SIREN_EVENT_WAKE_PRE then some { l with session := true }
  else if event = SIREN_EVENT_WAKE_CMD then some { l with state := .r2ssp_state_awake }
  else if event = SIREN_EVENT_SLEEP then
    if l.listening then some { l with state := .r2ssp_state_sleep, session := false } else none
  else if event = SIREN_EVENT_VAD_END then some { l with session := false }
  else some l

def next (l : Listener) : Entry → Option Listener
  | .frame => some { l with listening := decide (l.state = .r2ssp_state_awake) }
  | .setState state => some { l with
      state := state
      session := l.session && decide (state ≠ .r2ssp_state_sleep) }
  | .event e => l.onEvent e.event

theorem exec_next_events (l : Listener) (result : List ProcessedVoiceResult) :
    exec next l (result.map fun r => .event r.event) =
      exec onEvent l (result.map (·.event.event)) := by
  induction result generalizing l with
  | nil => rfl
  | cons r result ih => exact congrArg (Option.bind _) (funext ih)

/-! ### The messages of a call -/

open R2adMsg

/-- Behind the messages of `onBegin`. -/
def wake (l : Listener) (w : WordFlags) : Listener :=
  { l with session := l.session || w.awakePre }

/-- Behind those of `onWord`. -/
def word (l : Listener) (w : WordFlags) : Listener where
  state :=
    if w.awakeCmd then .r2ssp_state_awake
    else if w.sleepNoCmd then .r2ssp_state_sleep
    else l.state
  listening := l.listening
  session := l.session && !w.sleepNoCmd

theorem exec_front (l : Listener) {front : List R2adMsg}
    (h : front = [] ∨ front = [.r2ad_vad_cancel]) :
    exec onEvent l (front.map value) = some l := by
  rcases h with rfl | rfl
  · rfl
  · rfl

theorem exec_wakeIds (l : Listener) (w : WordFlags) :
    exec onEvent l (w.wakeIds.map value) = some (l.wake w) := by
  unfold WordFlags.wakeIds wake
  cases w.awakePre with
  | true => simp [exec, onEvent, value, SIREN_EVENT_VAD_DATA, SIREN_EVENT_WAKE_PRE,
      SIREN_EVENT_WAKE_CMD, SIREN_EVENT_SLEEP, SIREN_EVENT_VAD_END]
  | false => simp

theorem exec_wordIds {l : Listener} {w : WordFlags}
    (h : w.sleepNoCmd = true → l.listening = true) :
    exec onEvent l (w.wordIds.map value) = some (l.word w) := by
  obtain ⟨state, listening, session⟩ := l
  unfold WordFlags.wordIds word
  generalize w.sleepNoCmd = sleep at h ⊢
  generalize w.awakeNoCmd = noCmd
  generalize w.hotwordNoCmd = hotword
  generalize w.awakeCmd = cmd
  cases sleep with
  | false => cases session <;> cases noCmd <;> cases hotword <;> cases cmd <;> rfl
  | true =>
    obtain rfl : listening = true := h rfl
    cases session <;> cases noCmd <;> cases hotword <;> cases cmd <;> rfl

/-- What a segment gives besides data is no concern of the rule. -/
theorem exec_back {l : Listener} {back : List R2adMsg}
    (h : ∀ m ∈ back, m ∈ SirenProcessorImpl.speechIds)
    (hdata : .r2ad_vad_data ∈ back → (l.listening || l.session) = true) :
    exec onEvent l (back.map value) = some l := by
  refine exec_eq_self fun event hevent => ?_
  obtain ⟨m, hm, rfl⟩ := List.mem_map.mp hevent
  have hkind := h m hm
  simp only [SirenProcessorImpl.speechIds, List.mem_cons, List.not_mem_nil, or_false] at hkind
  rcases hkind with rfl | rfl | rfl
  · rfl
  · rfl
  · exact if_pos (hdata hm)

theorem exec_stop (l : Listener) {stop : List R2adMsg} (h : stop = [] ∨ stop = [.r2ad_vad_end]) :
    exec onEvent l (stop.map value) =
      some (if stop = [] then l else { l with session := false }) := by
  rcases h with rfl | rfl
  · rfl
  · rfl

end Listener

/-! ### The thread -/

section

variable {F : Type} {E : Engines F}

/-- The observer knows the state, and every session of the processor. -/
structure Hears (s : ProcessThread F E) (l : Listener) : Prop where
  state : l.state = s.audioProcessor.r2v_state
  session : s.audioProcessor.pImpl.state.awke = true → l.session = true

theorem setState_awke (p : SirenProcessorImpl F E) (state : R2vSysState) :
    (p.setState state).state.awke = true →
      p.state.awke = true ∧ state ≠ .r2ssp_state_sleep := by
  unfold SirenProcessorImpl.setState
  split
  · intro h
    cases h
  · next hsleep =>
    intro h
    exact ⟨h, fun hstate => hsleep ⟨hstate, h⟩⟩

variable [CFloat F]

theorem ProcessThread.Frame.hears {s s' : ProcessThread F E} {l : Listener} {aec : Int} {size : Nat}
    {data : Nat → UInt8} {p : SirenProcessorImpl F E} {result : List ProcessedVoiceResult}
    (h : Frame s s' (s.audioProcessor.call aec size data) p result) (hl : Hears s l) :
    ∃ es l', s'.log = s.log ++ es ∧ exec Listener.next l es = some l' ∧ Hears s' l' := by
  obtain ⟨st, front, back, stop, horder⟩ := SirenProcessorImpl.process_order h.call
  generalize hw : st.w = w at horder
  have hsleepflag : w.sleepNoCmd = true → s.audioProcessor.r2v_state = .r2ssp_state_awake := by
    intro hsleep
    have hflag := SirenProcessorImpl.sleepflag_of_sleepNoCmd st.wakeWord (hw ▸ hsleep)
    by_contra hstate
    have hflag : s.audioProcessor.asrFlag = 1 := hflag
    rw [SirenAudioVBVProcessor.asrFlag, if_neg hstate] at hflag
    cases hflag
  have hexclusive : w.sleepNoCmd = true → w.awakeCmd = false := fun hsleep =>
    hw ▸ SirenProcessorImpl.awakeCmd_of_sleepNoCmd st.wakeWord (hw ▸ hsleep)
  -- the frame is taken
  let taken : Listener := { l with listening := decide (l.state = .r2ssp_state_awake) }
  let heard : Listener := (taken.wake w).word w
  have hlistening : w.sleepNoCmd = true → (taken.wake w).listening = true := fun hsleep =>
    decide_eq_true (hl.state.trans (hsleepflag hsleep))
  have hdata : .r2ad_vad_data ∈ back → (heard.listening || heard.session) = true := by
    intro hmem
    by_cases hawake : l.state = .r2ssp_state_awake
    · exact Bool.or_eq_true_iff.mpr (.inl (decide_eq_true hawake))
    · -- no sleep word is heard, so the session is open
      have hsleep : w.sleepNoCmd = false :=
        Bool.eq_false_iff.mpr fun hsleep => hawake (hl.state.trans (hsleepflag hsleep))
      have hopen : w.awakePre = true ∨ l.session = true := by
        rcases horder.data hmem with hpre | hawke | hasr
        · exact .inl hpre
        · exact .inr (hl.session hawke)
        · refine absurd (hl.state.trans ?_) hawake
          by_contra hstate
          have hasr : s.audioProcessor.asrFlag = 1 := eq_of_beq hasr
          rw [SirenAudioVBVProcessor.asrFlag, if_neg hstate] at hasr
          cases hasr
      have hsession : heard.session = true := by
        show ((l.session || w.awakePre) && !w.sleepNoCmd) = true
        rw [hsleep]
        rcases hopen with hopen | hopen
        · rw [hopen, Bool.or_true, Bool.not_false, Bool.and_self]
        · rw [hopen, Bool.true_or, Bool.not_false, Bool.and_self]
      rw [hsession, Bool.or_true]
  let l' : Listener := if stop = [] then heard else { heard with session := false }
  have hstate : l'.state = heard.state := by
    show (if stop = [] then heard else _).state = _
    split <;> rfl
  refine ⟨_, l', h.log, ?_, ?_⟩
  · refine exec_cons_eq_some.mpr ⟨taken, rfl, ?_⟩
    rw [Listener.exec_next_events, h.events, horder.ids]
    simp only [List.map_append, exec_append]
    rw [Listener.exec_front _ horder.cut, Option.bind_some, Listener.exec_wakeIds,
      Option.bind_some, Listener.exec_wordIds hlistening, Option.bind_some,
      Listener.exec_back horder.speech hdata, Option.bind_some]
    exact Listener.exec_stop _ horder.ends
  · have hsleep := (horder.mem_word (m := .r2ad_sleep) (by decide)).trans w.mem_wordIds_sleep
    have hcmd := (horder.mem_word (m := .r2ad_awake_cmd) (by decide)).trans w.mem_wordIds_awakeCmd
    have hafter := h.after
    have hheard : heard.state = if w.awakeCmd then R2vSysState.r2ssp_state_awake
      else if w.sleepNoCmd then .r2ssp_state_sleep else l.state := rfl
    by_cases hs : w.sleepNoCmd = true
    · rw [if_pos (hsleep.mpr hs)] at hafter
      refine ⟨?_, ?_⟩
      · rw [hafter, hstate, hheard, hexclusive hs, hs]
        rfl
      · rw [hafter]
        intro hawke
        exact absurd rfl (setState_awke _ _ hawke).2
    · rw [if_neg (mt hsleep.mp hs)] at hafter
      refine ⟨?_, ?_⟩
      · rw [hafter, hstate, hheard, if_neg hs]
        by_cases hc : w.awakeCmd = true
        · rw [if_pos (hcmd.mpr hc), if_pos hc]
        · rw [if_neg (mt hcmd.mp hc), if_neg hc]
          exact hl.state
      · rw [hafter]
        intro hawke
        obtain ⟨hstop, hopen⟩ := horder.awke hawke
        show (if stop = [] then heard else _).session = true
        rw [if_pos hstop]
        show ((l.session || w.awakePre) && !w.sleepNoCmd) = true
        rw [Bool.eq_false_iff.mpr hs]
        rcases hopen with hopen | hopen
        · rw [hopen, Bool.or_true, Bool.not_false, Bool.and_self]
        · rw [hl.session hopen, Bool.true_or, Bool.not_false, Bool.and_self]

namespace ProcessThread

theorem next_hears {s s' : ProcessThread F E} {l : Listener} {pkg : VoicePackage F × ResultEnv}
    (hl : Hears s l) (h : s.next pkg = some s') :
    ∃ es l', s'.log = s.log ++ es ∧ exec Listener.next l es = some l' ∧ Hears s' l' := by
  cases step_cases h with
  | empty hprocessor hlog =>
    refine ⟨_, _, hlog, rfl, ?_, ?_⟩
    · rw [hprocessor]
      exact hl.state
    · rw [hprocessor]
      exact hl.session
  | frame aec size data p result hsize hframe => exact hframe.hears hl
  | setState state hprocessor hlog =>
    refine ⟨_, _, hlog, rfl, ?_, ?_⟩
    · rw [hprocessor]
      rfl
    · rw [hprocessor]
      intro hawke
      obtain ⟨hopen, hsleep⟩ := setState_awke _ _ hawke
      exact Bool.and_eq_true_iff.mpr ⟨hl.session hopen, decide_eq_true hsleep⟩
  | setSteer ho ver hprocessor hlog =>
    refine ⟨[], l, by rw [hlog, List.append_nil], rfl, ?_, ?_⟩
    · rw [hprocessor]
      exact hl.state
    · rw [hprocessor]
      exact hl.session
  | syncVTWord vt_words p hsync hprocessor hlog =>
    refine ⟨[], l, by rw [hlog, List.append_nil], rfl, ?_, ?_⟩
    · rw [hprocessor]
      exact hl.state
    · rw [hprocessor]
      obtain ⟨_, _, _, _, rfl⟩ := SirenProcessorImpl.syncVTWord_eq_ok hsync
      exact hl.session
  | same hprocessor hlog =>
    refine ⟨[], l, by rw [hlog, List.append_nil], rfl, ?_, ?_⟩
    · rw [hprocessor]
      exact hl.state
    · rw [hprocessor]
      exact hl.session

theorem observes (cfg : SirenConfig F) : Observes (system E cfg) (·.log) Listener.next
    ⟨.r2ssp_state_sleep, false, false⟩ Hears where
  init := by
    rintro s ⟨hinit, hstate, hlog, -⟩
    refine ⟨hlog, ?_, ?_⟩
    · exact hstate.symm
    · obtain ⟨_, _, _, _, hp⟩ := SirenProcessorImpl.init_eq_some hinit
      rw [hp]
      exact fun h => nomatch h
  step := fun _ _ _ _ _ hl hstep => next_hears hl hstep

/-- Whatever packages the thread takes, in whatever order: speech is sent only in a
    frame taken while the device was awake, or in the session of a wake word; a sleep
    word is reported only in a frame taken awake; and the state known from the log is
    the one the thread has. -/
theorem sent_only_listening {cfg : SirenConfig F} {s : ProcessThread F E}
    (h : Reachable (system E cfg) s) : ∃ l : Listener,
      exec Listener.next ⟨.r2ssp_state_sleep, false, false⟩ s.log = some l ∧
        l.state = s.audioProcessor.r2v_state := by
  obtain ⟨l, hlog, hl⟩ := (observes cfg).accepts h
  exact ⟨l, hlog, hl.state⟩

/-- The rule refuses data of a device that sleeps. -/
example (e : VoiceEvent) (h : e.event = SIREN_EVENT_VAD_DATA) :
    exec Listener.next ⟨.r2ssp_state_sleep, false, false⟩ [.frame, .event e] = none := by
  simp [exec, Listener.next, Listener.onEvent, h, R2vSysState.r2ssp_state_sleep,
    R2vSysState.r2ssp_state_awake]

end ProcessThread

end

/-! ### A wake word with a command -/

section Scripted

/-- A wake word in the first frame, its command in the second. -/
def wakeWordCmd : Engines ℚ :=
  scripted [1] [] [⟨true, false, false, false, false⟩, ⟨false, false, false, true, false⟩]
    ⟨WORD_AWAKE, [], [], 0, 0, false, false, false, false, false, 0, none⟩

/-- A package of samples 1.0. -/
def onePackage : VoicePackage ℚ × ResultEnv :=
  (.dataProcess 0 640 fun i => if i % 4 = 2 then 0x80 else if i % 4 = 3 then 0x3f else 0, quietEnv)

/-- The speech behind a wake word is sent though the device was asleep. -/
theorem ProcessThread.sent_only_listening_wakeWord : ∃ s : ProcessThread ℚ wakeWordCmd,
    script wakeWordCmd (smallConfig true true) [onePackage, onePackage] = some s ∧
      (events s.log).map (·.event) = [SIREN_EVENT_WAKE_PRE, 114, SIREN_EVENT_WAKE_CMD, 100,
        SIREN_EVENT_VAD_DATA] ∧
      ∃ l : Listener, exec Listener.next ⟨.r2ssp_state_sleep, false, false⟩ s.log = some l ∧
        l.state = s.audioProcessor.r2v_state := by
  have hrun : (script wakeWordCmd (smallConfig true true) [onePackage, onePackage]).map
      (fun s => (events s.log).map (·.event)) = some [SIREN_EVENT_WAKE_PRE, 114,
        SIREN_EVENT_WAKE_CMD, 100, SIREN_EVENT_VAD_DATA] := by
    decide +kernel
  obtain ⟨s, hs, hlog⟩ := Option.map_eq_some_iff.mp hrun
  exact ⟨s, hs, hlog, sent_only_listening (script_reachable hs)⟩

end Scripted

end BlackSiren

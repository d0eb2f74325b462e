import BlackSiren.Processor.Messages
import BlackSiren.Service.WakeWords

/-! # What the client hears

    The client sees no messages but the events of `voice_event_callback`.  Those
    about speech form segments, as the messages do, and with each VAD_DATA comes
    audio.

    - `segmentEvents`, `clientSegments`
    - `events_form_segments`
-/

open LTS

namespace BlackSiren

theorem R2adMsg.value_injective : Function.Injective R2adMsg.value := by
  intro m m' h
  cases m <;> cases m' <;> first | rfl | exact absurd h (by decide)

/-- The events about speech, in a log. -/
def segmentEvents (log : List Entry) : List (BitVec 32) :=
  ((ProcessThread.events log).map (·.event)).filter
    [SIREN_EVENT_VAD_START, SIREN_EVENT_VAD_DATA, SIREN_EVENT_VAD_END,
      SIREN_EVENT_VAD_CANCEL].contains

/-- The events that end a segment. -/
def clientStop : Finset (BitVec 32) := {SIREN_EVENT_VAD_END, SIREN_EVENT_VAD_CANCEL}

/-- `(VAD_START VAD_DATA* (VAD_END | VAD_CANCEL))*`. -/
def clientSegments : Language (BitVec 32) :=
  Segments.segments SIREN_EVENT_VAD_START SIREN_EVENT_VAD_DATA clientStop

theorem segmentEvents_eq {msgs : List R2adMsgBlock} {log : List Entry}
    (h : List.Forall₂ ProcessThread.Arrives msgs (ProcessThread.events log)) :
    segmentEvents log = (segmentMsgs msgs).map R2adMsg.value := by
  unfold segmentEvents segmentMsgs
  generalize ProcessThread.events log = es at h
  induction h with
  | nil => rfl
  | @cons m e msgs es he _ ih =>
    simp only [List.map_cons, List.filter_cons, he.1]
    have hkind : [SIREN_EVENT_VAD_START, SIREN_EVENT_VAD_DATA, SIREN_EVENT_VAD_END,
        SIREN_EVENT_VAD_CANCEL].contains m.iMsgId.value = m.iMsgId.isVad := by
      cases m.iMsgId <;> decide
    rw [hkind]
    split
    · rw [ih, List.map_cons]
    · exact ih

namespace ProcessThread

variable {F : Type} [CFloat F] {E : Engines F}

/-- With `alg_vt_enable`, whatever packages the thread takes: the events about speech
    are the beginning of a sequence of segments, and every VAD_DATA has a buffer with
    as many bytes as its length says, which is not 0. -/
theorem events_form_segments {cfg : SirenConfig F} (hvt : cfg.alg_vt_enable = true)
    {s : ProcessThread F E} (h : Reachable (system E cfg) s) :
    (∃ rest, segmentEvents s.log ++ rest ∈ clientSegments) ∧
      ∀ e ∈ events s.log, e.event = SIREN_EVENT_VAD_DATA → e.flag = VOICE_MASK ∧
        ∃ bytes, bytes ≠ [] ∧ e.buff = .here bytes ∧ bytes.length = e.length.toNat := by
  obtain ⟨r, hr, -, harrive⟩ := reachable_run h
  constructor
  · have hstream := (Run.reachable_wellFormed hvt hr).stream
    have hstop : segmentStop.image R2adMsg.value = clientStop := by decide
    rw [segmentEvents_eq harrive]
    refine Segments.run_prefix _ _ _ (e := SIREN_EVENT_VAD_END) (by decide)
      (b := r.p.ctl.isOpen) ?_
    rw [← hstop]
    exact (Segments.run_map _ _ _ R2adMsg.value_injective _ _).trans hstream
  · generalize events s.log = es at harrive
    generalize r.msgs = msgs at harrive
    induction harrive with
    | nil => exact fun _ he => nomatch he
    | @cons m e msgs es hm _ ih =>
      refine List.forall_mem_cons.mpr ⟨fun hdata => ?_, ih⟩
      have hid : m.iMsgId = .r2ad_vad_data := R2adMsg.value_injective (hm.1.symm.trans hdata)
      obtain ⟨hflag, hbuff, hlength, hbytes⟩ := hm.2 hid
      exact ⟨hflag, m.pMsgData, hbytes, hbuff, hlength.symm⟩

/-- The segment behind a wake word is still open. -/
theorem events_form_segments_wakeWord : ∃ s : ProcessThread ℚ wakeWordCmd,
    script wakeWordCmd (smallConfig true true) [onePackage, onePackage] = some s ∧
      segmentEvents s.log = [SIREN_EVENT_VAD_START, SIREN_EVENT_VAD_DATA] ∧
      (∃ rest, segmentEvents s.log ++ rest ∈ clientSegments) ∧
      ∀ e ∈ events s.log, e.event = SIREN_EVENT_VAD_DATA → e.flag = VOICE_MASK ∧
        ∃ bytes, bytes ≠ [] ∧ e.buff = .here bytes ∧ bytes.length = e.length.toNat := by
  have hrun : (script wakeWordCmd (smallConfig true true) [onePackage, onePackage]).map
      (fun s => segmentEvents s.log) = some [SIREN_EVENT_VAD_START, SIREN_EVENT_VAD_DATA] := by
    decide +kernel
  obtain ⟨s, hs, hlog⟩ := Option.map_eq_some_iff.mp hrun
  exact ⟨s, hs, hlog, events_form_segments rfl (script_reachable hs)⟩

end ProcessThread

end BlackSiren

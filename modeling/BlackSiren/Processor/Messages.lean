import BlackSiren.Framework.Segments
import BlackSiren.Processor.Run

/-! # The messages of a speech segment

    With `alg_vt_enable` on, START, DATA, END and CANCEL reach the client as a
    sequence of segments, each opened by START and closed by END or CANCEL.

    A segment is open exactly while `dataOutput` is set and `canceled` is not.
    Between frames this goes with three facts (`Ctl.Between`): output needs a
    started segment, a segment without output is not canceled, and no segment
    is started while the VAD unit is idle.
-/

open LTS

namespace BlackSiren

/-! ### Streams of segment messages -/

/-- The letters that close a segment. -/
def segmentStop : Finset R2adMsg := {.r2ad_vad_end, .r2ad_vad_cancel}

/-- `(START DATA* (END | CANCEL))*`. -/
def segments : Language R2adMsg :=
  Segments.segments .r2ad_vad_start .r2ad_vad_data segmentStop

/-- The check of a stream of messages. -/
def segRun (isOpen : Bool) (w : List R2adMsg) : Option Bool :=
  Segments.run .r2ad_vad_start .r2ad_vad_data segmentStop isOpen w

/-- The segment messages among the messages delivered. -/
def segmentMsgs (msgs : List R2adMsgBlock) : List R2adMsg :=
  (msgs.map (·.iMsgId)).filter (·.isVad)

theorem segmentMsgs_append (u v : List R2adMsgBlock) :
    segmentMsgs (u ++ v) = segmentMsgs u ++ segmentMsgs v := by
  simp [segmentMsgs]

theorem mem_segmentMsgs {msgs : List R2adMsgBlock} {id : R2adMsg} :
    id ∈ segmentMsgs msgs ↔ (∃ m ∈ msgs, m.iMsgId = id) ∧ id.isVad = true := by
  simp [segmentMsgs, List.mem_filter]

/-- A START that is not followed by its END or CANCEL is followed by no START. -/
theorem no_start_in_segment {b c : Bool} {before mid after : List R2adMsgBlock}
    {start : R2adMsgBlock} (hstart : start.iMsgId = .r2ad_vad_start)
    (h : segRun b (segmentMsgs (before ++ start :: (mid ++ after))) = some c)
    (hmid : ∀ m ∈ mid, m.iMsgId ≠ .r2ad_vad_end ∧ m.iMsgId ≠ .r2ad_vad_cancel) :
    ∀ m ∈ mid, m.iMsgId ≠ .r2ad_vad_start := by
  have hsplit : segmentMsgs (before ++ start :: (mid ++ after)) =
      segmentMsgs before ++ .r2ad_vad_start :: (segmentMsgs mid ++ segmentMsgs after) := by
    simp [segmentMsgs, hstart, R2adMsg.isVad]
  rw [hsplit, segRun] at h
  have hdata := Segments.data_of_run _ _ _ (by decide) (by decide) h (w := segmentMsgs mid) ?_
  · intro m hm hid
    have hmem : .r2ad_vad_start ∈ segmentMsgs mid := mem_segmentMsgs.mpr ⟨⟨m, hm, hid⟩, rfl⟩
    cases hdata _ hmem
  · intro id hid
    obtain ⟨⟨m, hm, rfl⟩, -⟩ := mem_segmentMsgs.mp hid
    obtain ⟨hend, hcancel⟩ := hmid m hm
    simp [segmentStop, hend, hcancel]

/-- The value of `asrMsgCheckFlag` that stands for an open or closed segment. -/
def checkFlag (isOpen : Bool) : Int := if isOpen then 1 else 0

theorem dumpMsg_other {m : R2adMsgBlock} (h : m.iMsgId.isVad = false) (flag : Int) :
    SirenProcessorImpl.dumpMsg flag m = (flag, false) := by
  obtain ⟨id, data⟩ := m
  cases id <;> first | rfl | cases h

/-- On a message the check accepts, `dumpMsg` logs no error and keeps its flag
    in step. -/
theorem dumpMsg_of_next {m : R2adMsgBlock} {b b' : Bool}
    (h : Segments.next .r2ad_vad_start .r2ad_vad_data segmentStop b m.iMsgId = some b') :
    SirenProcessorImpl.dumpMsg (checkFlag b) m = (checkFlag b', false) := by
  obtain ⟨id, data⟩ := m
  cases b with
  | false =>
    simp only [Segments.next] at h
    split at h
    · next heq =>
      cases h
      rw [heq]
      rfl
    · cases h
  | true =>
    simp only [Segments.next] at h
    split at h
    · next heq =>
      cases h
      rw [heq]
      rfl
    · split at h
      · next hstop =>
        cases h
        rcases Finset.mem_insert.mp hstop with heq | hmem
        · rw [heq]
          rfl
        · rw [Finset.mem_singleton.mp hmem]
          rfl
      · cases h

theorem dumpMsgs_of_segRun {ms : List R2adMsgBlock} {b b' : Bool}
    (h : segRun b (segmentMsgs ms) = some b') :
    SirenProcessorImpl.dumpMsgs (checkFlag b) ms = (checkFlag b', 0) := by
  induction ms generalizing b with
  | nil =>
    cases h
    rfl
  | cons m ms ih =>
    cases hv : m.iMsgId.isVad with
    | false =>
      -- a message of another kind is checked by neither
      have hskip : segmentMsgs (m :: ms) = segmentMsgs ms := by
        simp [segmentMsgs, hv]
      rw [hskip] at h
      simp [SirenProcessorImpl.dumpMsgs, dumpMsg_other hv, ih h]
    | true =>
      have hcons : segmentMsgs (m :: ms) = [m.iMsgId] ++ segmentMsgs ms := by
        simp [segmentMsgs, hv]
      rw [hcons, segRun, Segments.run_append, Segments.run_singleton] at h
      obtain ⟨b₁, hb₁, hrest⟩ := Option.bind_eq_some_iff.mp h
      simp [SirenProcessorImpl.dumpMsgs, dumpMsg_of_next hb₁, ih hrest]

/-! ### The invariant -/

namespace Ctl

/-- A segment is open: START has gone out, neither END nor CANCEL has. -/
def isOpen (c : Ctl) : Bool := c.dataOutput && !c.canceled

/-- The messages of the call so far lead from the open flag before it to the
    current one. -/
def Tracks (b : Bool) (c : Ctl) : Prop := segRun b c.out = some c.isOpen

/-- The control state between frames. -/
structure Between (c : Ctl) : Prop where
  output : c.dataOutput = true → c.vadStart = true
  fresh : c.vadStart = true → c.dataOutput = false → c.canceled = false
  idle : c.speech = false → c.vadStart = false

/-- With both flags of a segment cleared. -/
theorem between_of_closed {c : Ctl} (hv : c.vadStart = false) (hd : c.dataOutput = false) :
    c.Between := by
  refine ⟨?_, ?_, fun _ => hv⟩
  · intro hd'
    rw [hd] at hd'
    cases hd'
  · intro hv'
    rw [hv] at hv'
    cases hv'

/-- The control state inside a call that began with open flag `b`; `ended` is
    whether speech ends in this call. -/
structure Midway (b ended : Bool) (c : Ctl) : Prop where
  tracks : c.Tracks b
  output : c.dataOutput = true → c.vadStart = true
  fresh : c.vadStart = true → c.dataOutput = false → c.canceled = false
  idle : c.speech = false → ended = false → c.vadStart = false

/-- Emitting a message that may stand here. -/
theorem Tracks.emit {b : Bool} {c c' : Ctl} {m : R2adMsg} (h : c.Tracks b)
    (hout : c'.out = c.out ++ [m])
    (hnext : Segments.next .r2ad_vad_start .r2ad_vad_data segmentStop c.isOpen m =
      some c'.isOpen) : c'.Tracks b := by
  unfold Tracks segRun at h ⊢
  rw [hout, Segments.run_concat, h]
  exact hnext

/-! ### The stages -/

/-- Up to the output stage. A pre event cancels an open segment and restarts
    the VAD unit, whose begin then resets the flags. -/
theorem begin_midway {fx : Fixed} {ch : Choice} {c : Ctl} (h : c.Between)
    (hv : ch.Valid c.speech) : (c.begin fx ch).Midway c.isOpen ch.vad.audio_end := by
  have hstart : ({ c with out := [] } : Ctl).Tracks c.isOpen := rfl
  cases hpre : ch.pre with
  | true =>
    have hvad := hv.forced hpre
    simp only [begin, readInput, onPre, runVad, onBegin, hpre, hvad, if_true]
    by_cases ho : c.isOpen = true
    · have ho' : (c.dataOutput && !c.canceled) = true := ho
      simp only [ho', if_true]
      refine ⟨?_, ?_, fun _ _ => rfl, ?_⟩
      · apply hstart.emit (m := .r2ad_vad_cancel) rfl
        rw [show ({ c with out := [] } : Ctl).isOpen = true from ho]
        rfl
      · intro hd
        cases hd
      · intro hs
        cases hs
    · have ho' : c.isOpen = false := by simpa using ho
      have ho'' : ¬ (c.dataOutput && !c.canceled) = true := ho
      simp only [ho'']
      refine ⟨?_, ?_, fun _ _ => rfl, ?_⟩
      · rw [ho']
        rfl
      · intro hd
        cases hd
      · intro hs
        cases hs
  | false =>
    simp only [begin, readInput, onPre, runVad, onBegin, hpre, Bool.false_eq_true, if_false]
    cases hb : ch.vad.audio_begin with
    | true =>
      -- speech begins, so no segment was open
      have hidle : c.speech = false := by
        rcases hv.begins hb with hp | hs
        · rw [hpre] at hp
          cases hp
        · exact hs
      have hvs := h.idle hidle
      have ho : c.isOpen = false := by
        cases hd : c.dataOutput with
        | false => simp [isOpen, hd]
        | true =>
          rw [h.output hd] at hvs
          cases hvs
      simp only [if_true]
      refine ⟨?_, ?_, fun _ _ => rfl, ?_⟩
      · rw [ho]
        rfl
      · intro hd
        cases hd
      · intro hs he
        simp [he] at hs
    | false =>
      simp only [Bool.false_eq_true, if_false, Bool.or_false]
      refine ⟨rfl, h.output, h.fresh, ?_⟩
      intro hs he
      rw [he, Bool.not_false, Bool.and_true] at hs
      exact h.idle hs

theorem decideStart_midway {b ended cmd noCmd : Bool} {c : Ctl} (h : c.Midway b ended)
    (hv : c.vadStart = true) : (c.decideStart cmd noCmd).Midway b ended ∧
      (c.decideStart cmd noCmd).vadStart = true := by
  simp only [decideStart]
  cases hd : c.dataOutput with
  | true => simpa [hv] using h
  | false =>
    have hc := h.fresh hv hd
    have ho : c.isOpen = false := by simp [isOpen, hd]
    -- START opens the segment
    have hopen : ({ c with dataOutput := true }.emit .r2ad_vad_start : Ctl).Midway b ended := by
      refine ⟨?_, fun _ => hv, ?_, h.idle⟩
      · apply h.tracks.emit (m := .r2ad_vad_start) rfl
        rw [ho]
        simp [isOpen, emit, hc, Segments.next]
      · intro _ hd'
        cases hd'
    simp only [Bool.false_eq_true, if_false]
    split
    · exact ⟨hopen, hv⟩
    · split
      · refine ⟨⟨?_, fun _ => hv, ?_, h.idle⟩, hv⟩
        · have ht := h.tracks
          rw [Tracks, ho] at ht
          exact ht
        · intro _ hd'
          cases hd'
      · split
        · exact ⟨hopen, hv⟩
        · exact ⟨h, hv⟩

/-- After the decision to cancel: whatever is not canceled goes out, and with
    `alg_vad_enable` output stays on. -/
structure Decided (fx : Fixed) (c : Ctl) : Prop where
  open_ : c.canceled = false → c.dataOutput = true
  keeps : fx.vad_enable = true → c.dataOutput = true

theorem decideCancel_midway {fx : Fixed} {b ended tooLong asr : Bool} {c : Ctl}
    (h : c.Midway b ended) (hd : c.dataOutput = true) :
    (c.decideCancel fx tooLong asr).Midway b ended ∧
      (c.decideCancel fx tooLong asr).Decided fx := by
  simp only [decideCancel]
  cases hc : c.canceled with
  | true => exact ⟨by simpa using h, ⟨fun _ => by simpa using hd, fun _ => by simpa using hd⟩⟩
  | false =>
    have ho : c.isOpen = true := by simp [isOpen, hd, hc]
    simp only [Bool.false_eq_true, if_false]
    split
    · -- too long, or asleep and without ASR: the open segment ends here
      refine ⟨⟨?_, ?_, ?_, ?_⟩, ⟨?_, ?_⟩⟩
      · apply h.tracks.emit (m := .r2ad_vad_cancel) rfl
        rw [ho]
        simp [isOpen, emit, Segments.next, segmentStop]
      · intro hd'
        simp only [emit, hd, Bool.and_true] at hd' ⊢
        rw [hd', Bool.true_and]
        exact h.output hd
      · intro hv hd'
        simp only [emit, hd, Bool.and_true] at hv hd'
        rw [hd', Bool.false_and] at hv
        cases hv
      · intro hs he
        have hv := h.idle hs he
        simp [emit, hv]
      · intro hc'
        cases hc'
      · intro hvad
        simp [emit, hvad, hd]
    · exact ⟨h, ⟨fun _ => hd, fun _ => hd⟩⟩

theorem decideResume_midway {fx : Fixed} {b ended needResume : Bool} {c : Ctl}
    (h : c.Midway b ended) (hd : c.Decided fx) :
    (c.decideResume fx needResume).Midway b ended ∧
      (c.decideResume fx needResume).Decided fx := by
  simp only [decideResume]
  split
  · next hr =>
    simp only [Bool.and_eq_true] at hr
    have hout := hd.keeps hr.1.1.1.1
    have ho : c.isOpen = false := by simp [isOpen, hr.1.1.1.2]
    refine ⟨⟨?_, h.output, fun _ _ => rfl, h.idle⟩, ⟨fun _ => hout, fun _ => hout⟩⟩
    apply h.tracks.emit (m := .r2ad_vad_start) rfl
    rw [ho]
    simp [isOpen, emit, hout, Segments.next]
  · exact ⟨h, hd⟩

/-- DATA inside an open segment. -/
theorem emitData_midway {b ended : Bool} {c : Ctl} (h : c.Midway b ended)
    (ho : c.isOpen = true) : (c.emit .r2ad_vad_data).Midway b ended := by
  refine ⟨?_, h.output, h.fresh, h.idle⟩
  apply h.tracks.emit (m := .r2ad_vad_data) rfl
  rw [ho]
  show some true = some c.isOpen
  rw [ho]

theorem sendData_midway {fx : Fixed} {b ended someData lastData : Bool} {vad : VadResult}
    {c c' : Ctl} (h : c.Midway b ended) (hd : c.Decided fx)
    (hs : c.sendData someData lastData vad = some c') : c'.Midway b ended := by
  simp only [sendData] at hs
  cases hc : c.canceled with
  | true =>
    simp only [hc, if_true, Option.some.injEq] at hs
    rwa [← hs]
  | false =>
    have ho : c.isOpen = true := by simp [isOpen, hd.open_ hc, hc]
    simp only [hc, Bool.false_eq_true, if_false] at hs
    split at hs
    · cases hs
    · -- the first message, then the second
      have hfirst : (if someData then c.emit .r2ad_vad_data else c).Midway b ended ∧
          (if someData then c.emit .r2ad_vad_data else c).isOpen = true := by
        split
        · exact ⟨emitData_midway h ho, ho⟩
        · exact ⟨h, ho⟩
      rw [← Option.some.inj hs]
      split
      · exact emitData_midway hfirst.1 hfirst.2
      · exact hfirst.1

theorem onVadStart_midway {fx : Fixed} {b ended : Bool} {ch : Choice} {c c' : Ctl}
    (h : c.Midway b ended) (hs : c.onVadStart fx ch = some c') : c'.Midway b ended := by
  simp only [onVadStart] at hs
  split at hs
  · next hv =>
    obtain ⟨hstart, _⟩ := decideStart_midway h hv
    split at hs
    · next hd =>
      obtain ⟨hcancel, hdec⟩ := decideCancel_midway hstart hd
      obtain ⟨hresume, hdec⟩ := decideResume_midway hcancel hdec
      exact sendData_midway hresume hdec hs
    · cases hs
      exact hstart
  · cases hs
    exact h

/-- The end of speech closes the segment and, with `alg_vt_enable`, forgets
    it. -/
theorem onEnd_between {fx : Fixed} {b : Bool} {vad : VadResult} {c : Ctl}
    (h : c.Midway b vad.audio_end) (hvt : fx.vt_enable = true) :
    (c.onEnd fx vad).Between ∧ (c.onEnd fx vad).Tracks b := by
  simp only [onEnd]
  cases he : vad.audio_end with
  | false =>
    simp only [Bool.false_eq_true, if_false]
    exact ⟨⟨h.output, h.fresh, fun hs => h.idle hs he⟩, h.tracks⟩
  | true =>
    simp only [if_true, hvt, Bool.not_true, Bool.false_and]
    refine ⟨between_of_closed rfl rfl, ?_⟩
    by_cases ho : c.isOpen = true
    · have ho' : (c.dataOutput && !c.canceled) = true := ho
      simp only [ho', if_true]
      apply h.tracks.emit (m := .r2ad_vad_end) rfl
      rw [ho]
      simp [isOpen, Segments.next, segmentStop]
    · have ho' : c.isOpen = false := by simpa using ho
      have ho'' : ¬ (c.dataOutput && !c.canceled) = true := ho
      simp only [ho'']
      have ht := h.tracks
      rw [Tracks, ho'] at ht
      exact ht

/-- What one call preserves. -/
theorem call_between {fx : Fixed} {ch : Choice} {c c' : Ctl} (h : c.Between)
    (hv : ch.Valid c.speech) (hvt : fx.vt_enable = true) (hcall : c.call fx ch = some c') :
    c'.Between ∧ c'.Tracks c.isOpen := by
  simp only [call, Option.map_eq_some_iff] at hcall
  obtain ⟨c₁, hc₁, rfl⟩ := hcall
  exact onEnd_between (onVadStart_midway (begin_midway h hv) hc₁) hvt

end Ctl

/-! ### Runs -/

namespace Run

variable {F : Type} [CFloat F] {E : Engines F}

/-- The invariant of a run: the messages delivered so far are a stream of
    segments that is open exactly when the control state says so, and the flag
    of `dumpMsg` agrees. -/
structure WellFormed (s : Run F E) : Prop where
  vt : s.p.fixed.vt_enable = true
  between : s.p.ctl.Between
  stream : segRun false (segmentMsgs s.msgs) = some s.p.ctl.isOpen
  flag : s.p.fixed.asrMsgCheckFlag = checkFlag s.p.ctl.isOpen
  errors : s.errors = 0

theorem init_wellFormed {cfg : SirenConfig F} {s : Run F E} (hvt : cfg.alg_vt_enable = true)
    (h : Init cfg s) : s.WellFormed := by
  obtain ⟨hctl, hfixed⟩ := init_ctl h
  refine ⟨?_, ?_, ?_, ?_, h.2.2⟩
  · rw [hfixed]
    exact hvt
  · rw [hctl]
    exact Ctl.between_of_closed rfl rfl
  · rw [h.2.1, hctl]
    rfl
  · rw [hfixed, hctl]
    rfl

/-- A silent event changes at most `awke`. -/
theorem quiet_between {c c' : Ctl} (h : c.Between) (hq : Quiet c c') :
    c'.Between ∧ c'.isOpen = c.isOpen := by
  cases hq with
  | same => exact ⟨h, rfl⟩
  | sleep => exact ⟨⟨h.output, h.fresh, h.idle⟩, rfl⟩

theorem next_wellFormed {s s' : Run F E} {e : Event F} (h : s.WellFormed)
    (hnext : s.next e = .ok s') : s'.WellFormed := by
  obtain ⟨hvt, _, hstep⟩ := next_ctl hnext
  have hvt' : s'.p.fixed.vt_enable = true := hvt.trans h.vt
  rcases hstep with ⟨ch, hvalid, hcall, hdel⟩ | hsil
  · -- a call of `process` runs on from where the messages stand
    obtain ⟨hbetween, htracks⟩ := Ctl.call_between h.between hvalid h.vt hcall
    have htracks : segRun s.p.ctl.isOpen (segmentMsgs s'.p.msgLst) = some s'.p.ctl.isOpen :=
      htracks
    have hdump := dumpMsgs_of_segRun htracks
    refine ⟨hvt', hbetween, ?_, ?_, ?_⟩
    · rw [hdel.msgs, segmentMsgs_append, segRun, Segments.run_append]
      rw [show Segments.run _ _ _ false (segmentMsgs s.msgs) = _ from h.stream]
      exact htracks
    · rw [hdel.flag, h.flag, hdump]
    · rw [hdel.errors, h.flag, hdump, h.errors]
      rfl
  · -- the other events send nothing
    obtain ⟨hbetween, hopen⟩ := quiet_between h.between hsil.ctl
    refine ⟨hvt', hbetween, ?_, ?_, ?_⟩
    · rw [hsil.msgs, hopen]
      exact h.stream
    · rw [hsil.flag, hopen]
      exact h.flag
    · rw [hsil.errors]
      exact h.errors

theorem reachable_wellFormed {cfg : SirenConfig F} (hvt : cfg.alg_vt_enable = true)
    {s : Run F E} (h : Reachable (runs E cfg) s) : s.WellFormed := by
  refine invariant (runs E cfg) WellFormed ?_ ?_ h
  · intro s hs
    exact init_wellFormed hvt hs
  · intro s e s' hs hstep
    exact next_wellFormed hs (toOption_eq_some.mp hstep)

/-- Every run with `alg_vt_enable` delivers a prefix of a sequence of segments,
    and `dumpMsg` logs no error. -/
theorem messages_form_segments {cfg : SirenConfig F} (hvt : cfg.alg_vt_enable = true)
    {s : Run F E} (h : Reachable (runs E cfg) s) :
    (∃ rest, segmentMsgs s.msgs ++ rest ∈ segments) ∧ s.errors = 0 := by
  have hinv := reachable_wellFormed hvt h
  refine ⟨?_, hinv.errors⟩
  exact Segments.run_prefix _ _ _ (e := .r2ad_vad_end) (by decide) hinv.stream

/-- Two segments of a scripted run: speech that ends, and speech whose asr flag
    is withdrawn. -/
theorem messages_form_segments_scripted :
    ∃ s, script (scripted [1, 3] [2] [] ⟨1, [], [], 0, 0, false, false, false, false, false, 0,
        none⟩) (smallConfig true true) [frame 0 0 1, frame 0 0 1, frame 0 0 1, frame 0 0 0] =
        some s ∧
      segmentMsgs s.msgs = [.r2ad_vad_start, .r2ad_vad_data, .r2ad_vad_end,
        .r2ad_vad_start, .r2ad_vad_data, .r2ad_vad_cancel] ∧
      (∃ rest, segmentMsgs s.msgs ++ rest ∈ segments) ∧ s.errors = 0 := by
  have hrun : ((script (scripted [1, 3] [2] [] ⟨1, [], [], 0, 0, false, false, false, false, false,
      0, none⟩) (smallConfig true true) [frame 0 0 1, frame 0 0 1, frame 0 0 1,
      frame 0 0 0]).map fun s => segmentMsgs s.msgs) = some [.r2ad_vad_start, .r2ad_vad_data,
        .r2ad_vad_end, .r2ad_vad_start, .r2ad_vad_data, .r2ad_vad_cancel] := by
    decide +kernel
  obtain ⟨s, hs, hmsgs⟩ := Option.map_eq_some_iff.mp hrun
  exact ⟨s, hs, hmsgs, messages_form_segments rfl (script_reachable hs)⟩

end Run

end BlackSiren

import BlackSiren.Processor.Run

/-! # The pause flag of the encoder

    `r2mem_cod` asserts that data is read only while it is not paused.  The
    processor pauses it when it cancels a segment, and relies on `canceled` to
    keep off it until the next `reset` or `resume`.

    With `alg_vt_enable` on this works.  With it off, the end of speech clears
    `canceled` and leaves the segment started and the encoder paused, and the
    next frame with an asr flag reads data: `stale_pause_fails` is such a run.
    Only calls from such a state (`Ctl.StalePause`) can fail.
-/

open LTS

namespace BlackSiren

namespace Ctl

/-- A started segment goes out although the encoder is paused. -/
def StalePause (c : Ctl) : Prop :=
  c.vadStart = true ∧ c.dataOutput = true ∧ c.canceled = false ∧ c.paused = true

/-- What holds between frames under either switch. -/
structure Settled (c : Ctl) : Prop where
  output : c.dataOutput = true → c.vadStart = true
  fresh : c.vadStart = true → c.dataOutput = false → c.canceled = false ∧ c.paused = false

/-- Two states with the same segment and the same pause. -/
structure SameFlags (c c' : Ctl) : Prop where
  vadStart : c'.vadStart = c.vadStart
  dataOutput : c'.dataOutput = c.dataOutput
  canceled : c'.canceled = c.canceled
  paused : c'.paused = c.paused

theorem SameFlags.settled {c c' : Ctl} (hs : SameFlags c c') (h : c.Settled) : c'.Settled := by
  refine ⟨?_, ?_⟩
  · rw [hs.vadStart, hs.dataOutput]
    exact h.output
  · rw [hs.vadStart, hs.dataOutput, hs.canceled, hs.paused]
    exact h.fresh

theorem SameFlags.not_stale {c c' : Ctl} (hs : SameFlags c c') (h : ¬ c.StalePause) :
    ¬ c'.StalePause := by
  unfold StalePause
  rw [hs.vadStart, hs.dataOutput, hs.canceled, hs.paused]
  exact h

/-! ### The stages -/

/-- A pre event forces a begin. -/
theorem pre_of_no_begin {ch : Choice} {speech : Bool} (hv : ch.Valid speech)
    (hb : ch.vad.audio_begin = false) : ch.pre = false := by
  cases hp : ch.pre with
  | false => rfl
  | true =>
    rw [hv.forced hp] at hb
    cases hb

theorem begin_same {fx : Fixed} {ch : Choice} {c : Ctl} (hv : ch.Valid c.speech)
    (hb : ch.vad.audio_begin = false) : SameFlags c (c.begin fx ch) := by
  simp only [begin, onBegin, hb, onPre, pre_of_no_begin hv hb, Bool.false_eq_true, if_false]
  exact ⟨rfl, rfl, rfl, rfl⟩

/-- The flags `begin` leaves: those of a new segment, or the old ones. -/
theorem begin_cases {fx : Fixed} {ch : Choice} {c : Ctl} (hv : ch.Valid c.speech) :
    ((c.begin fx ch).vadStart = true ∧ (c.begin fx ch).dataOutput = false ∧
        (c.begin fx ch).canceled = false ∧ (c.begin fx ch).paused = false) ∨
      SameFlags c (c.begin fx ch) := by
  cases hb : ch.vad.audio_begin with
  | true =>
    left
    simp only [begin, onBegin, hb, if_true, and_self]
  | false => exact .inr (begin_same hv hb)

theorem begin_settled {fx : Fixed} {ch : Choice} {c : Ctl} (h : c.Settled)
    (hv : ch.Valid c.speech) : (c.begin fx ch).Settled := by
  rcases begin_cases hv with ⟨hvs, _, hc, hp⟩ | hsame
  · exact ⟨fun _ => hvs, fun _ _ => ⟨hc, hp⟩⟩
  · exact hsame.settled h

theorem begin_not_stale {fx : Fixed} {ch : Choice} {c : Ctl} (h : ¬ c.StalePause)
    (hv : ch.Valid c.speech) : ¬ (c.begin fx ch).StalePause := by
  rcases begin_cases hv with ⟨_, hd, _, _⟩ | hsame
  · rintro ⟨_, hd', _, _⟩
    rw [hd] at hd'
    cases hd'
  · exact hsame.not_stale h

/-- Inside the output stage: what is not canceled is not paused. -/
def Free (c : Ctl) : Prop := c.canceled = false → c.paused = false

theorem decideStart_free (cmd noCmd : Bool) {c : Ctl} (h : c.Settled) (hs : ¬ c.StalePause)
    (hv : c.vadStart = true) : (c.decideStart cmd noCmd).Free := by
  simp only [decideStart]
  cases hd : c.dataOutput with
  | true =>
    intro hc
    by_contra hp
    exact hs ⟨hv, hd, hc, by simpa using hp⟩
  | false =>
    obtain ⟨hc, hp⟩ := h.fresh hv hd
    simp only [Bool.false_eq_true, if_false]
    split
    · exact fun _ => hp
    · split
      · intro hc'
        cases hc'
      · split
        · exact fun _ => hp
        · exact fun _ => hp

/-- The output stage up to the reading of data. -/
def decide (fx : Fixed) (ch : Choice) (c : Ctl) : Ctl :=
  (c.decideCancel fx ch.tooLong ch.asr).decideResume fx ch.needResume

theorem decide_free (fx : Fixed) (ch : Choice) {c : Ctl} (h : c.Free) :
    (c.decide fx ch).Free := by
  have hcancel : (c.decideCancel fx ch.tooLong ch.asr).Free := by
    simp only [decideCancel]
    split
    · exact h
    · split
      · intro hc
        cases hc
      · exact h
  simp only [decide, decideResume]
  split
  · exact fun _ => rfl
  · exact hcancel

/-- Canceling without `alg_vad_enable` clears both flags of the segment, and
    nothing else clears one. -/
theorem decide_output (fx : Fixed) (ch : Choice) {c : Ctl} (hv : c.vadStart = true)
    (hd : c.dataOutput = true) : (c.decide fx ch).vadStart = (c.decide fx ch).dataOutput := by
  have hcancel : (c.decideCancel fx ch.tooLong ch.asr).vadStart =
      (c.decideCancel fx ch.tooLong ch.asr).dataOutput := by
    simp only [decideCancel]
    split
    · rw [hv, hd]
    · split
      · simp [emit, hv, hd]
      · rw [hv, hd]
  simp only [decide, decideResume]
  split
  · exact hcancel
  · exact hcancel

theorem emit_same (c : Ctl) (m : R2adMsg) : SameFlags c (c.emit m) := ⟨rfl, rfl, rfl, rfl⟩

/-- Reading data keeps the flags. -/
theorem sendData_same {someData lastData : Bool} {vad : VadResult} {c c' : Ctl}
    (h : c.sendData someData lastData vad = some c') : SameFlags c c' := by
  have hrefl : SameFlags c c := ⟨rfl, rfl, rfl, rfl⟩
  simp only [sendData] at h
  split at h
  · cases h
    exact hrefl
  · split at h
    · cases h
    · rw [← Option.some.inj h]
      cases someData with
      | true =>
        simp only [if_true]
        split
        · exact ⟨rfl, rfl, rfl, rfl⟩
        · exact emit_same c _
      | false =>
        simp only [Bool.false_eq_true, if_false]
        split
        · exact emit_same c _
        · exact hrefl

/-- It succeeds on a free state. -/
theorem sendData_of_free {someData lastData : Bool} {vad : VadResult} {c : Ctl}
    (h : c.Free) : ∃ c', c.sendData someData lastData vad = some c' := by
  simp only [sendData]
  cases hc : c.canceled with
  | true => exact ⟨c, by simp⟩
  | false =>
    simp only [h hc, Bool.false_eq_true, if_false]
    exact ⟨_, rfl⟩

/-- Without output nothing has been decided. -/
theorem decideStart_eq_self {cmd noCmd : Bool} {c : Ctl}
    (h : ¬ (c.decideStart cmd noCmd).dataOutput = true) : c.decideStart cmd noCmd = c := by
  revert h
  simp only [decideStart]
  split
  · exact fun _ => rfl
  · split
    · exact fun h => (h rfl).elim
    · split
      · exact fun h => (h rfl).elim
      · split
        · exact fun h => (h rfl).elim
        · exact fun _ => rfl

theorem decideStart_vadStart {cmd noCmd : Bool} {c : Ctl} :
    (c.decideStart cmd noCmd).vadStart = c.vadStart := by
  simp only [decideStart]
  split
  · rfl
  · split
    · rfl
    · split
      · rfl
      · split <;> rfl

theorem onVadStart_settled {fx : Fixed} {ch : Choice} {c c' : Ctl} (h : c.Settled)
    (hs : c.onVadStart fx ch = some c') : c'.Settled := by
  simp only [onVadStart] at hs
  split at hs
  · next hv =>
    split at hs
    · next hd =>
      have hv' : (c.decideStart ch.cmd ch.noCmd).vadStart = true :=
        decideStart_vadStart.trans hv
      have hout := decide_output fx ch hv' hd
      refine (sendData_same hs).settled ⟨?_, ?_⟩
      · intro hd'
        exact hout.trans hd'
      · intro hvs hd'
        have hvs' : ((c.decideStart ch.cmd ch.noCmd).decide fx ch).vadStart = true := hvs
        rw [hout, show ((c.decideStart ch.cmd ch.noCmd).decide fx ch).dataOutput = false
          from hd'] at hvs'
        cases hvs'
    · next hd =>
      rw [← Option.some.inj hs, decideStart_eq_self hd]
      exact h
  · rw [← Option.some.inj hs]
    exact h

/-- The output stage of a call that does not start stale has a result, which is
    not stale either. -/
theorem onVadStart_not_stale {fx : Fixed} {ch : Choice} {c : Ctl} (h : c.Settled)
    (hs : ¬ c.StalePause) : ∃ c', c.onVadStart fx ch = some c' ∧ ¬ c'.StalePause := by
  simp only [onVadStart]
  by_cases hv : c.vadStart = true
  · rw [if_pos hv]
    have hfree := decideStart_free ch.cmd ch.noCmd h hs hv
    by_cases hd : (c.decideStart ch.cmd ch.noCmd).dataOutput = true
    · rw [if_pos hd]
      have hfree' := decide_free fx ch hfree
      obtain ⟨c', hc'⟩ := sendData_of_free hfree'
      refine ⟨c', hc', (sendData_same hc').not_stale ?_⟩
      rintro ⟨_, _, hc, hp⟩
      rw [hfree' hc] at hp
      cases hp
    · rw [if_neg hd, decideStart_eq_self hd]
      exact ⟨c, rfl, hs⟩
  · rw [if_neg hv]
    exact ⟨c, rfl, hs⟩

theorem onEnd_settled {fx : Fixed} {vad : VadResult} {c : Ctl} (h : c.Settled) :
    (c.onEnd fx vad).Settled := by
  simp only [onEnd]
  split
  · refine ⟨?_, ?_⟩
    · intro hd
      simp only [Bool.and_eq_true] at hd ⊢
      exact ⟨hd.1, h.output hd.2⟩
    · intro hv hd
      simp only [Bool.and_eq_true] at hv
      rw [hv.1, Bool.true_and] at hd
      refine ⟨rfl, ?_⟩
      rw [(h.fresh hv.2 hd).2, Bool.and_false]
  · exact h

/-- With `alg_vt_enable` the end of speech leaves no segment behind. -/
theorem onEnd_not_stale {fx : Fixed} {vad : VadResult} {c : Ctl} (hvt : fx.vt_enable = true)
    (hs : ¬ c.StalePause) : ¬ (c.onEnd fx vad).StalePause := by
  simp only [onEnd]
  split
  · rintro ⟨hv, _⟩
    simp [hvt] at hv
  · exact hs

/-! ### Calls -/

theorem call_settled {fx : Fixed} {ch : Choice} {c c' : Ctl} (h : c.Settled)
    (hv : ch.Valid c.speech) (hcall : c.call fx ch = some c') : c'.Settled := by
  simp only [call, Option.map_eq_some_iff] at hcall
  obtain ⟨c₁, hc₁, rfl⟩ := hcall
  exact onEnd_settled (onVadStart_settled (begin_settled h hv) hc₁)

/-- A call fails only from a state with a stale pause. -/
theorem stale_of_call_none {fx : Fixed} {ch : Choice} {c : Ctl} (h : c.Settled)
    (hv : ch.Valid c.speech) (hcall : c.call fx ch = none) : c.StalePause := by
  by_contra hs
  obtain ⟨c', hc', _⟩ := onVadStart_not_stale (begin_settled h hv) (begin_not_stale hs hv)
  rw [call, hc'] at hcall
  cases hcall

theorem call_not_stale {fx : Fixed} {ch : Choice} {c c' : Ctl} (hvt : fx.vt_enable = true)
    (h : c.Settled) (hs : ¬ c.StalePause) (hv : ch.Valid c.speech)
    (hcall : c.call fx ch = some c') : ¬ c'.StalePause := by
  obtain ⟨c₁, hc₁, hs₁⟩ := onVadStart_not_stale (begin_settled h hv) (begin_not_stale hs hv)
  rw [call, hc₁] at hcall
  rw [← Option.some.inj hcall]
  exact onEnd_not_stale hvt hs₁

end Ctl

/-! ### Runs -/

namespace Run

variable {F : Type} [CFloat F] {E : Engines F}

/-- No call of a run of any configuration with these switches fails an
    assertion of the encoder. -/
def EncoderSafe (vt_enable vad_enable : Bool) : Prop :=
  ∀ (F : Type) (_ : CFloat F) (E : Engines F) (cfg : SirenConfig F),
    cfg.alg_vt_enable = vt_enable → cfg.alg_vad_enable = vad_enable →
    ∀ s, Reachable (runs E cfg) s → ∀ e f, s.next e = .error f → f.isCodAssert = false

theorem quiet_settled {c c' : Ctl} (h : c.Settled) (hq : Quiet c c') :
    c'.Settled ∧ (c'.StalePause → c.StalePause) := by
  cases hq with
  | same => exact ⟨h, id⟩
  | sleep => exact ⟨⟨h.output, h.fresh⟩, id⟩

theorem reachable_settled {cfg : SirenConfig F} {s : Run F E}
    (h : Reachable (runs E cfg) s) :
    s.p.fixed.vt_enable = cfg.alg_vt_enable ∧ s.p.ctl.Settled := by
  refine invariant (runs E cfg)
    (fun s => s.p.fixed.vt_enable = cfg.alg_vt_enable ∧ s.p.ctl.Settled) ?_ ?_ h
  · intro s hs
    obtain ⟨hctl, hfixed⟩ := init_ctl hs
    rw [hctl, hfixed]
    refine ⟨rfl, ⟨?_, ?_⟩⟩
    · intro hd
      cases hd
    · intro hv
      cases hv
  · rintro s e s' ⟨hfx, hset⟩ hstep
    obtain ⟨hvt, _, hcases⟩ := next_ctl (toOption_eq_some.mp hstep)
    refine ⟨hvt.trans hfx, ?_⟩
    rcases hcases with ⟨ch, hvalid, hcall, _⟩ | hsil
    · exact Ctl.call_settled hset hvalid hcall
    · exact (quiet_settled hset hsil.ctl).1

theorem reachable_not_stale {cfg : SirenConfig F} (hvt : cfg.alg_vt_enable = true)
    {s : Run F E} (h : Reachable (runs E cfg) s) : ¬ s.p.ctl.StalePause := by
  refine invariant_of_reachable (runs E cfg) (fun s => ¬ s.p.ctl.StalePause) ?_ ?_ h
  · intro s hs
    rw [(init_ctl hs).1]
    rintro ⟨hv, _⟩
    cases hv
  · intro s e s' hr hns hstep
    obtain ⟨hfx, hset⟩ := reachable_settled hr
    obtain ⟨_, _, hcases⟩ := next_ctl (toOption_eq_some.mp hstep)
    rcases hcases with ⟨ch, hvalid, hcall, _⟩ | hsil
    · exact Ctl.call_not_stale (hfx.trans hvt) hset hns hvalid hcall
    · exact fun hst => hns ((quiet_settled hset hsil.ctl).2 hst)

omit [CFloat F] in
/-- `syncVTWord` fails only by overrunning a field of a word. -/
theorem syncVTWord_eq_error {p : SirenProcessorImpl F E} {words : List (SirenVTWord F)}
    {f : Fault} (h : p.syncVTWord words = .error f) : f = .strcpyOverrun := by
  simp only [SirenProcessorImpl.syncVTWord] at h
  rcases bind_eq_error.mp h with h | ⟨_, _, h⟩
  · obtain ⟨_, _, h⟩ := mapM_eq_error h
    exact wordInfoOfDefault_eq_error h
  rcases bind_eq_error.mp h with h | ⟨_, _, h⟩
  · obtain ⟨_, _, h⟩ := mapM_eq_error h
    exact wordInfoOfVTWord_eq_error h
  · cases h

/-- A call can fail an assertion of the encoder only in a state with a stale
    pause. -/
theorem stale_of_cod_fault {cfg : SirenConfig F} {s : Run F E} (h : Reachable (runs E cfg) s)
    {e : Event F} {f : Fault} (hnext : s.next e = .error f) (hf : f.isCodAssert = true) :
    s.p.ctl.StalePause := by
  obtain ⟨_, hset⟩ := reachable_settled h
  cases e with
  | process c =>
    simp only [next] at hnext
    rcases bind_eq_error.mp hnext with hp | ⟨_, _, hp⟩
    · obtain ⟨ch, hvalid, hcall⟩ := SirenProcessorImpl.process_cod_fault hp hf
      exact Ctl.stale_of_call_none hset hvalid hcall
    · cases hp
  | setState a => cases hnext
  | setSLSteer ho ver => cases hnext
  | syncVTWord words =>
    simp only [next] at hnext
    rcases bind_eq_error.mp hnext with hp | ⟨_, _, hp⟩
    · rw [syncVTWord_eq_error hp] at hf
      cases hf
    · cases hp

/-- A sleep word that begins and is detected in one frame cancels the segment
    at once; speech ends in the next frame; the third frame has an asr flag. -/
theorem stale_pause_fails (vad_enable : Bool) :
    ∃ s, Reachable (runs (scripted [1] [2] [⟨true, false, false, false, true⟩]
        ⟨WORD_SLEEP, [], [], 0, 0, false, false, false, false, false, 0, none⟩)
        (smallConfig false vad_enable)) s ∧
      s.next (frame 0 0 1) = .error .codPaused := by
  have hrun : ((script (scripted [1] [2] [⟨true, false, false, false, true⟩]
      ⟨WORD_SLEEP, [], [], 0, 0, false, false, false, false, false, 0, none⟩)
      (smallConfig false vad_enable) [frame 0 1 0, frame 0 0 0]).map fun s =>
        match s.next (frame 0 0 1) with
        | .ok _ => none
        | .error f => some f) = some (some .codPaused) := by
    cases vad_enable <;> decide +kernel
  obtain ⟨s, hs, hfault⟩ := Option.map_eq_some_iff.mp hrun
  refine ⟨s, script_reachable hs, ?_⟩
  split at hfault
  · cases hfault
  · next f hf => rw [hf, Option.some.inj hfault]

/-- The encoder is safe for all runs exactly with `alg_vt_enable` on; in any
    run, only a call from a state with a stale pause fails. -/
theorem encoderSafe_iff (vt_enable vad_enable : Bool) :
    (EncoderSafe vt_enable vad_enable ↔ vt_enable = true) ∧
      ∀ (F : Type) (_ : CFloat F) (E : Engines F) (cfg : SirenConfig F),
        cfg.alg_vt_enable = vt_enable → cfg.alg_vad_enable = vad_enable →
        ∀ s, Reachable (runs E cfg) s → ¬ s.p.ctl.StalePause →
        ∀ e f, s.next e = .error f → f.isCodAssert = false := by
  have hfree : ∀ (F : Type) (_ : CFloat F) (E : Engines F) (cfg : SirenConfig F),
      ∀ s, Reachable (runs E cfg) s → ¬ s.p.ctl.StalePause →
      ∀ e f, s.next e = .error f → f.isCodAssert = false := by
    intro F _ E cfg s hs hns e f hf
    by_contra hcod
    exact hns (stale_of_cod_fault hs hf (by simpa using hcod))
  refine ⟨⟨?_, ?_⟩, ?_⟩
  · intro hsafe
    by_contra hvt
    have hoff : vt_enable = false := by simpa using hvt
    obtain ⟨s, hs, hfail⟩ := stale_pause_fails vad_enable
    have hcod := hsafe ℚ inferInstance _ _ hoff.symm rfl s hs _ _ hfail
    cases hcod
  · intro hvt F _ E cfg hcfg _ s hs
    exact hfree F _ E cfg s hs (reachable_not_stale (hcfg.trans hvt) hs)
  · intro F _ E cfg _ _
    exact hfree F _ E cfg

/-- Not every configuration is safe, whatever `alg_vad_enable` is. -/
theorem encoder_not_safe :
    ¬ (∀ vt_enable vad_enable, EncoderSafe vt_enable vad_enable) := by
  intro hsafe
  obtain ⟨s, hs, hfail⟩ := stale_pause_fails true
  have hcod := hsafe false true ℚ inferInstance _ _ rfl rfl s hs _ _ hfail
  cases hcod

end Run

end BlackSiren

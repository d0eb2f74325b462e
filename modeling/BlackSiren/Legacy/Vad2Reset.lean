import BlackSiren.Legacy.Vad2Ledger

/-! # `r2mem_vad2` after `reset`

    `reset` forgets the speech but not the samples that wait for their frame.

    - `R2memVad2Call`, `call`: the calls and their answers
    - `Alike`: units that cannot be told apart while no call leaves frames over
    - `reset_alike`: a reset unit that holds nothing, and a new one
    - `empty_of_observe_eq`: where forced starts work, samples that are held show
-/

namespace BlackSiren

/-- The calls of `r2mem_vad2`. -/
inductive R2memVad2Call (F : Type) where
  | process (c : VadInput F)
  | setvadendparam (iFrmNum : Int)
  | forcestart (bIsAec : Bool)
  | getenergy
  | reset

/-- What a call returns. -/
inductive R2memVad2Answer (F : Type) where
  | done
  | result (out : List F) (rt : VadResult)
  | energy (lastframe threshold : F)

namespace VadEngine

variable {F : Type} (eng : VadEngine F)

/-- `VD_RestartVad` restores the state of a new unit, once the end parameters
    are set alike. -/
def RestartRestores : Prop :=
  ∀ h, eng.Reached h → ∀ sil pitch,
    eng.setEnd (eng.restart h) sil pitch = eng.setEnd eng.constructed sil pitch

/-- A forced start begins speech with the next frame. -/
def StartsForced : Prop :=
  ∀ h, eng.Reached h → ∀ bIsAec wave bIsEnd,
    eng.startFrame (eng.input (eng.force h bIsAec) wave bIsEnd bIsAec) ≥ 0

end VadEngine

namespace R2memVad2

variable {F : Type} [CFloat F] {eng : VadEngine F}

/-- One call; `energy` reads the two energies off the engine. -/
def call (energy : eng.State → F × F) (v : R2memVad2 F eng) :
    R2memVad2Call F → Except Fault (R2memVad2 F eng × R2memVad2Answer F)
  | .process c => do
      let (v, out, rt) ← v.input c
      return (v, .result out rt)
  | .setvadendparam iFrmNum => .ok (v.setvadendparam iFrmNum, .done)
  | .forcestart bIsAec => .ok (v.forcestart bIsAec, .done)
  | .getenergy =>
      .ok (v, .energy (energy v.m_hEngine_Vad).1 (energy v.m_hEngine_Vad).2)
  | .reset => .ok (v.reset, .done)

/-- Two units with the same engine and the same position in the voice buffer. -/
structure SameSpeech (v w : R2memVad2 F eng) : Prop where
  engine : v.m_hEngine_Vad = w.m_hEngine_Vad
  speech : v.m_iVadState = w.m_iVadState
  lastFrame : v.m_iLastFrame = w.m_iLastFrame
  endParam : v.m_iVadEndParam = w.m_iVadEndParam
  endPitch : v.m_iVadEndPitchParam = w.m_iVadEndPitchParam

/-- Two units that also hold the same samples. -/
structure Alike (v w : R2memVad2 F eng) : Prop extends SameSpeech v w where
  held : v.held = w.held

omit [CFloat F] in
theorem SameSpeech.takeVoice {v w : R2memVad2 F eng} (h : SameSpeech v w) :
    SameSpeech v.takeVoice.1 w.takeVoice.1 ∧ v.takeVoice.2 = w.takeVoice.2 := by
  unfold R2memVad2.takeVoice
  simp only
  rw [← h.engine, ← h.lastFrame]
  by_cases hgain : eng.frameNum v.m_hEngine_Vad > v.m_iLastFrame
  · rw [if_pos hgain, if_pos hgain]
    exact ⟨⟨rfl, h.speech, rfl, h.endParam, h.endPitch⟩, rfl⟩
  · rw [if_neg hgain, if_neg hgain]
    exact ⟨h, rfl⟩

omit [CFloat F] in
theorem SameSpeech.idleEngine {v w : R2memVad2 F eng} (h : SameSpeech v w) {i : Nat}
    (hwave : v.wave i = w.wave i) (e a f : Bool) : v.idleEngine i e a f = w.idleEngine i e a f := by
  rw [R2memVad2.idleEngine, R2memVad2.idleEngine, h.engine, hwave]

omit [CFloat F] in
theorem SameSpeech.idleFrame {v w : R2memVad2 F eng} (h : SameSpeech v w) {i : Nat}
    (hwave : v.wave i = w.wave i) (e a f : Bool) :
    SameSpeech (idleFrame v i e a f).1 (idleFrame w i e a f).1 ∧
      (idleFrame v i e a f).2 = (idleFrame w i e a f).2 := by
  have hengine := h.idleEngine hwave e a f
  have hheard : SameSpeech (v.heard i e a f) (w.heard i e a f) :=
    ⟨hengine, h.speech, h.lastFrame, h.endParam, h.endPitch⟩
  rw [idleFrame_eq, idleFrame_eq, ← hengine]
  by_cases hstart : eng.startFrame (v.idleEngine i e a f) ≥ 0
  · rw [if_pos hstart, if_pos hstart]
    have hopened : SameSpeech { v.heard i e a f with m_iLastFrame := 0, m_iVadState := true }
        { w.heard i e a f with m_iLastFrame := 0, m_iVadState := true } :=
      ⟨hengine, rfl, rfl, h.endParam, h.endPitch⟩
    obtain ⟨hspeech, hout⟩ := hopened.takeVoice
    refine ⟨hspeech, ?_⟩
    simp only [hout]
  · rw [if_neg hstart, if_neg hstart]
    exact ⟨hheard, rfl⟩

omit [CFloat F] in
/-- On the same frames the loop does the same. -/
theorem SameSpeech.frames {v w : R2memVad2 F eng} (h : SameSpeech v w) (e a f : Bool)
    (n fuel i : Nat) (hwaves : v.waves i fuel = w.waves i fuel) :
    SameSpeech (frames e a f n fuel i v).1 (frames e a f n fuel i w).1 ∧
      (R2memVad2.frames e a f n fuel i v).2 = (R2memVad2.frames e a f n fuel i w).2 := by
  -- both loops take the same branch in every turn
  induction fuel generalizing i v w with
  | zero => exact ⟨h, rfl⟩
  | succ fuel ih =>
    obtain ⟨hwave, hwaves⟩ := List.cons.inj hwaves
    have hspeech := h.speech
    cases hv : v.m_iVadState with
    | false =>
      have hw : w.m_iVadState = false := hspeech.symm.trans hv
      rw [frames_idle e a f n fuel i hv, frames_idle e a f n fuel i hw]
      obtain ⟨hsame, hturn⟩ := h.idleFrame hwave e a f
      have hrest : (R2memVad2.idleFrame v i e a f).1.waves (i + 1) fuel =
          (R2memVad2.idleFrame w i e a f).1.waves (i + 1) fuel := by
        rw [(idleFrame_state i e a f hv).2.2.waves, (idleFrame_state i e a f hw).2.2.waves]
        exact hwaves
      obtain ⟨hlater, hout⟩ := ih hsame (i + 1) hrest
      refine ⟨hlater, ?_⟩
      simp only [hturn, hout]
    | true =>
      have hw : w.m_iVadState = true := hspeech.symm.trans hv
      have hengine : v.speechEngine i e a = w.speechEngine i e a := by
        rw [speechEngine, speechEngine, h.engine]
        exact congrArg (fun l => eng.input w.m_hEngine_Vad l e a) hwave
      have hlistened : SameSpeech (v.listened i e a) (w.listened i e a) :=
        ⟨hengine, h.speech, h.lastFrame, h.endParam, h.endPitch⟩
      obtain ⟨hsame, htake⟩ := hlistened.takeVoice
      by_cases hstop : eng.stopFrame (v.speechEngine i e a) > 0
      · have hstop' : eng.stopFrame (w.speechEngine i e a) > 0 := hengine ▸ hstop
        rw [frames_stops f fuel hv hstop, frames_stops f fuel hw hstop', htake]
        exact ⟨⟨congrArg eng.restart hengine, rfl, hsame.lastFrame, hsame.endParam,
          hsame.endPitch⟩, rfl⟩
      · have hstop' : ¬ eng.stopFrame (w.speechEngine i e a) > 0 := hengine ▸ hstop
        rw [frames_goes_on f fuel hv hstop, frames_goes_on f fuel hw hstop']
        have hrest : (v.listened i e a).takeVoice.1.waves (i + 1) fuel =
            (w.listened i e a).takeVoice.1.waves (i + 1) fuel := by
          rw [(listened_sameInput v i e a).waves, (listened_sameInput w i e a).waves]
          exact hwaves
        obtain ⟨hlater, hout⟩ := ih hsame (i + 1) hrest
        refine ⟨hlater, ?_⟩
        simp only [htake, hout]

omit [CFloat F] in
theorem Alike.m_iLen_In {v w : R2memVad2 F eng} (h : Alike v w) : v.m_iLen_In = w.m_iLen_In :=
  (map_range_inj.mp h.held).1

omit [CFloat F] in
theorem Alike.frmNum {v w : R2memVad2 F eng} (h : Alike v w) (c : VadInput F) :
    v.frmNum c = w.frmNum c := by
  rw [R2memVad2.frmNum, R2memVad2.frmNum, h.m_iLen_In]

/-- Behind the chunk the arrays may differ. -/
theorem Alike.filled {v w : R2memVad2 F eng} (h : Alike v w) (c : VadInput F) :
    ∀ k < v.m_iLen_In + c.pData_In.length,
      (v.filled c).m_pData_In k = (w.filled c).m_pData_In k := by
  have heq := filled_samples v c
  rw [h.held, ← filled_samples w c, ← h.m_iLen_In] at heq
  exact (map_range_inj.mp heq).2

theorem Alike.waves {v w : R2memVad2 F eng} (h : Alike v w) (c : VadInput F) :
    (v.cut c).waves 0 (v.frmNum c) = (w.cut c).waves 0 (v.frmNum c) := by
  refine List.map_congr_left ?_
  intro i hi
  refine List.map_congr_left ?_
  intro k hk
  refine h.filled c _ ?_
  -- the frames lie within the samples there are
  have hle : v.frmNum c * m_iFrmSize ≤ v.m_iLen_In + c.pData_In.length := Nat.div_mul_le_self _ _
  have hi : i < v.frmNum c := by
    have := (List.mem_range'_1.mp hi).2
    omega
  have hk := List.mem_range.mp hk
  have hsize : m_iFrmSize = 160 := rfl
  rw [hsize] at hle hk ⊢
  omega

theorem Alike.cut {v w : R2memVad2 F eng} (h : Alike v w) (c : VadInput F) :
    SameSpeech (v.cut c) (w.cut c) :=
  ⟨h.engine, h.speech, h.lastFrame, h.endParam, h.endPitch⟩

theorem Alike.reads {v w : R2memVad2 F eng} (h : Alike v w) (c : VadInput F) :
    (v.cut c).reads 0 (v.frmNum c) c.bIsEnd c.bIsAec c.bForceStart =
      (w.cut c).reads 0 (w.frmNum c) c.bIsEnd c.bIsAec c.bForceStart := by
  rw [R2memVad2.reads, R2memVad2.reads, (h.cut c).engine, (h.cut c).speech, h.waves, h.frmNum]

theorem Alike.loop {v w : R2memVad2 F eng} (h : Alike v w) (c : VadInput F) :
    SameSpeech (v.loop c).1 (w.loop c).1 ∧ (v.loop c).2 = (w.loop c).2 := by
  have hframes := (h.cut c).frames c.bIsEnd c.bIsAec c.bForceStart (v.frmNum c) (v.frmNum c) 0
    (h.waves c)
  rw [R2memVad2.loop, R2memVad2.loop, ← h.frmNum]
  exact hframes

omit [CFloat F] in
/-- The move behind the loop moves samples only. -/
theorem tailMove_sameSpeech (n : Nat) (v : R2memVad2 F eng) : SameSpeech (v.tailMove n) v := by
  unfold tailMove
  split
  · exact ⟨rfl, rfl, rfl, rfl, rfl⟩
  · exact ⟨rfl, rfl, rfl, rfl, rfl⟩

/-- A call that leaves no frames over gives the same and keeps the units
    alike. -/
theorem Alike.input {v w : R2memVad2 F eng} (h : Alike v w) {c : VadInput F}
    (hc : ¬ v.ClosesEarly c) : Objects.Agree Alike (v.input c) (w.input c) := by
  obtain ⟨hspeech, hout⟩ := h.loop c
  have hearly : ¬ w.ClosesEarly c := by
    rw [ClosesEarly, StopsShort, ← h.reads, ← h.frmNum]
    exact hc
  have hread : v.framesRead c = w.framesRead c := congrArg Prod.fst (h.reads c)
  -- a call that leaves no frames over holds the end of its input
  have hheld : ((v.loop c).1.tailMove (v.frmNum c)).held =
      ((w.loop c).1.tailMove (w.frmNum c)).held := by
    rw [(held_iff v c).mpr fun h => absurd h hc, (held_iff w c).mpr fun h => absurd h hearly,
      ← h.m_iLen_In, ← hread]
    refine List.map_congr_left ?_
    intro k hk
    refine h.filled c _ ?_
    have hk := List.mem_range.mp hk
    omega
  rw [input_eq, input_eq, ← hspeech.speech, ← hout]
  cases c.bForceStart && !(v.loop c).1.m_iVadState with
  | true => exact .fault Fault.vadNotStarted
  | false =>
    have hv := tailMove_sameSpeech (v.frmNum c) (v.loop c).1
    have hw := tailMove_sameSpeech (w.frmNum c) (w.loop c).1
    refine .answer _ ⟨⟨?_, ?_, ?_, ?_, ?_⟩, hheld⟩
    · exact (hv.engine.trans hspeech.engine).trans hw.engine.symm
    · exact (hv.speech.trans hspeech.speech).trans hw.speech.symm
    · exact (hv.lastFrame.trans hspeech.lastFrame).trans hw.lastFrame.symm
    · exact (hv.endParam.trans hspeech.endParam).trans hw.endParam.symm
    · exact (hv.endPitch.trans hspeech.endPitch).trans hw.endPitch.symm

/-- The condition on a call: `process` does not close speech with frames left
    over. -/
def LeavesNothing (v : R2memVad2 F eng) : R2memVad2Call F → Prop
  | .process c => ¬ v.ClosesEarly c
  | _ => True

/-- A call of `process` without a forced start. -/
theorem call_of_unforced (energy : eng.State → F × F) (v : R2memVad2 F eng) {c : VadInput F}
    (h : c.bForceStart = false) :
    v.call energy (.process c) =
      .ok ((v.loop c).1.tailMove (v.frmNum c), .result (v.loop c).2.1 (v.loop c).2.2) := by
  show (v.input c >>= _) = _
  rw [v.input_of_unforced h]
  rfl

/-- It leaves nothing if it does not close speech early, and the later calls leave
    nothing. -/
theorem along_of_unforced {energy : eng.State → F × F} {v : R2memVad2 F eng} {c : VadInput F}
    (h : c.bForceStart = false) (hearly : ¬ v.ClosesEarly c) {further : List (R2memVad2Call F)}
    (hfurther : Objects.Along (R2memVad2.call energy) LeavesNothing
      ((v.loop c).1.tailMove (v.frmNum c)) further) :
    Objects.Along (R2memVad2.call energy) LeavesNothing v (.process c :: further) := by
  refine ⟨hearly, fun v' a hcall => ?_⟩
  rw [call_of_unforced energy v h] at hcall
  cases hcall
  exact hfurther

theorem Alike.call (energy : eng.State → F × F) {v w : R2memVad2 F eng} (h : Alike v w)
    {k : R2memVad2Call F} (hk : v.LeavesNothing k) :
    Objects.Agree Alike (v.call energy k) (w.call energy k) := by
  cases k with
  | process c =>
    have hinput := h.input hk
    simp only [R2memVad2.call]
    generalize v.input c = r at hinput ⊢
    generalize w.input c = r' at hinput ⊢
    cases hinput with
    | fault e => exact .fault e
    | answer a h => exact .answer _ h
  | setvadendparam n =>
    refine .answer R2memVad2Answer.done
      ⟨⟨?_, h.speech, h.lastFrame, h.endParam, h.endPitch⟩, h.held⟩
    simp only [setvadendparam, h.engine, h.endParam, h.endPitch]
  | forcestart a =>
    exact .answer R2memVad2Answer.done ⟨⟨congrArg (fun e => eng.setStart e a) h.engine, h.speech,
      h.lastFrame, h.endParam, h.endPitch⟩, h.held⟩
  | getenergy =>
    simp only [R2memVad2.call, h.engine]
    exact .answer _ h
  | reset =>
    exact .answer R2memVad2Answer.done ⟨⟨congrArg eng.restart h.engine, rfl, rfl, h.endParam,
      h.endPitch⟩, h.held⟩

/-- Units alike cannot be told apart by calls that leave no frames over. -/
theorem Alike.observe_eq {energy : eng.State → F × F} {v w : R2memVad2 F eng} (h : Alike v w)
    {further : List (R2memVad2Call F)}
    (hfurther : Objects.Along (R2memVad2.call energy) LeavesNothing v further) :
    Objects.observe (R2memVad2.call energy) v further =
      Objects.observe (R2memVad2.call energy) w further := by
  apply Objects.observe_eq Alike LeavesNothing _ h hfurther
  intro v w k halike hk
  exact halike.call energy hk

/-! ### After a history -/

/-- What a history leaves of a unit: the end parameters, and an engine that its
    calls can bring about. -/
structure Used (v : R2memVad2 F eng) : Prop where
  reached : eng.Reached v.m_hEngine_Vad
  endParam : v.m_iVadEndParam = 45
  endPitch : v.m_iVadEndPitchParam = 1

omit [CFloat F] in
theorem takeVoice_used {v : R2memVad2 F eng} (hv : v.Used) : v.takeVoice.1.Used := by
  unfold takeVoice
  simp only
  split
  · exact ⟨hv.reached, hv.endParam, hv.endPitch⟩
  · exact hv

omit [CFloat F] in
theorem frames_used (e a f : Bool) (n fuel i : Nat) {v : R2memVad2 F eng} (hv : v.Used) :
    (frames e a f n fuel i v).1.Used := by
  induction fuel generalizing i v with
  | zero => exact hv
  | succ fuel ih =>
    cases hs : v.m_iVadState with
    | false =>
      rw [frames_idle e a f n fuel i hs, idleFrame_eq]
      have hreached := idleEngine_reached hv.reached i e a f
      by_cases hstart : eng.startFrame (v.idleEngine i e a f) ≥ 0
      · rw [if_pos hstart]
        exact ih _ (takeVoice_used ⟨hreached, hv.endParam, hv.endPitch⟩)
      · rw [if_neg hstart]
        exact ih _ ⟨hreached, hv.endParam, hv.endPitch⟩
    | true =>
      have hreached : eng.Reached (v.speechEngine i e a) := .input _ _ _ _ hv.reached
      have hlistened : (v.listened i e a).takeVoice.1.Used :=
        takeVoice_used ⟨hreached, hv.endParam, hv.endPitch⟩
      by_cases hstop : eng.stopFrame (v.speechEngine i e a) > 0
      · rw [frames_stops f fuel hs hstop]
        exact ⟨.restart _ hreached, hlistened.endParam, hlistened.endPitch⟩
      · rw [frames_goes_on f fuel hs hstop]
        exact ih _ hlistened

theorem call_used {energy : eng.State → F × F} {v v' : R2memVad2 F eng} {k : R2memVad2Call F}
    {a : R2memVad2Answer F} (hv : v.Used) (h : v.call energy k = .ok (v', a)) : v'.Used := by
  cases k with
  | process c =>
    simp only [call] at h
    obtain ⟨⟨w, out, rt⟩, hinput, h⟩ := bind_eq_ok.mp h
    cases h
    obtain ⟨-, rfl, -⟩ := input_eq_ok.mp hinput
    have hloop : (v.loop c).1.Used :=
      frames_used c.bIsEnd c.bIsAec c.bForceStart _ _ _ ⟨hv.reached, hv.endParam, hv.endPitch⟩
    have hmove := tailMove_sameSpeech (v.frmNum c) (v.loop c).1
    exact ⟨hmove.engine ▸ hloop.reached, hmove.endParam.trans hloop.endParam,
      hmove.endPitch.trans hloop.endPitch⟩
  | setvadendparam n =>
    cases h
    exact ⟨.setEnd _ _ _ hv.reached, hv.endParam, hv.endPitch⟩
  | forcestart a =>
    cases h
    exact ⟨.setStart _ _ hv.reached, hv.endParam, hv.endPitch⟩
  | getenergy =>
    cases h
    exact hv
  | reset =>
    cases h
    exact ⟨.restart _ hv.reached, hv.endParam, hv.endPitch⟩

theorem run_used {energy : eng.State → F × F} {history : List (R2memVad2Call F)}
    {v : R2memVad2 F eng} {answers : List (R2memVad2Answer F)}
    (h : Objects.run (call energy) new history = .ok (v, answers)) : v.Used :=
  Objects.run_invariant Used (fun _ _ _ _ hv hcall => call_used hv hcall)
    ⟨.constructed, rfl, rfl⟩ h

/-- The two units to be compared: one reset, one new, with the end parameters
    set alike. -/
theorem reset_alike (hrestart : eng.RestartRestores) {v : R2memVad2 F eng} (hv : v.Used)
    (hempty : v.m_iLen_In = 0) (n : Int) :
    Alike (new.setvadendparam n) (v.reset.setvadendparam n) := by
  refine ⟨⟨?_, rfl, rfl, hv.endParam.symm, hv.endPitch.symm⟩, ?_⟩
  · simp only [setvadendparam, reset]
    rw [hv.endParam, hv.endPitch]
    exact (hrestart _ hv.reached _ _).symm
  · show [] = (List.range v.m_iLen_In).map _
    rw [hempty]
    rfl

/-! ### Samples that are held show

    A forced call fails when there is no frame to start on.  A unit that holds
    samples gets its frame before a new unit does. -/

omit [CFloat F] in
/-- A batch that is stopped is stopped as well when more follows. -/
theorem readUntilStop_append {e a f : Bool} {h : eng.State} {speech : Bool}
    {waves : List (List F)} (more : List (List F))
    (hs : (eng.readUntilStop e a f h speech waves).2 = true) :
    (eng.readUntilStop e a f h speech (waves ++ more)).2 = true := by
  induction waves generalizing h speech with
  | nil => cases hs
  | cons wave waves ih =>
    cases speech with
    | true =>
      simp only [List.cons_append, VadEngine.readUntilStop] at hs ⊢
      split
      · rfl
      · next hstop =>
        rw [if_neg hstop] at hs
        exact ih hs
    | false => exact ih hs

omit [CFloat F] in
/-- From inside speech, speech is open afterwards unless the loop is stopped. -/
theorem frames_m_iVadState (e a f : Bool) {n fuel i : Nat} {v : R2memVad2 F eng}
    (hv : v.m_iVadState = true) :
    (frames e a f n fuel i v).1.m_iVadState = !(v.reads i fuel e a f).2 := by
  induction fuel generalizing i v with
  | zero => exact hv
  | succ fuel ih =>
    by_cases hstop : eng.stopFrame (v.speechEngine i e a) > 0
    · rw [frames_stops f fuel hv hstop, reads_stops fuel f hv hstop]
      rfl
    · rw [frames_goes_on f fuel hv hstop, reads_goes_on fuel f hv hstop]
      exact ih ((takeVoice_m_iVadState _).trans hv)

omit [CFloat F] in
/-- A forced loop over at least one frame opens speech. -/
theorem frames_forced (hforce : eng.StartsForced) (e a : Bool) {n fuel i : Nat}
    {v : R2memVad2 F eng} (hused : v.Used) (hv : v.m_iVadState = false) (hfuel : 0 < fuel) :
    (frames e a true n fuel i v).1.m_iVadState = !(v.reads i fuel e a true).2 := by
  obtain ⟨fuel, rfl⟩ := Nat.exists_eq_succ_of_ne_zero (Nat.ne_of_gt hfuel)
  have hstart : eng.startFrame (v.idleEngine i e a true) ≥ 0 := hforce _ hused.reached a _ e
  have hopen := (idleFrame_state i e a true hv).2.1
  rw [decide_eq_true hstart] at hopen
  rw [frames_idle e a true n fuel i hv, reads_idle i fuel e a true hv]
  exact frames_m_iVadState e a true hopen

/-- A forced call with `k` zeros. -/
def forcedZeros (k : Nat) : VadInput F where
  pData_In := List.replicate k (CFloat.ofInt 0)
  bIsEnd := false
  bIsAec := false
  bForceStart := true

theorem forcedZeros_frmNum (v : R2memVad2 F eng) (k : Nat) :
    v.frmNum (forcedZeros k) = (v.m_iLen_In + k) / m_iFrmSize := by
  rw [frmNum, forcedZeros, List.length_replicate]

/-- Whether a forced call on an idle unit is stopped. -/
def forcedStop (v : R2memVad2 F eng) (k : Nat) : Bool :=
  ((v.cut (forcedZeros k)).reads 0 (v.frmNum (forcedZeros k)) false false true).2

/-- A forced call on an idle unit fails if there is no frame, or if the engine
    ends the speech it has started. -/
theorem input_forcedZeros (hforce : eng.StartsForced) {v : R2memVad2 F eng} (hused : v.Used)
    (hv : v.m_iVadState = false) (k : Nat) :
    (∃ r, v.input (forcedZeros k) = .ok r) ↔
      0 < v.frmNum (forcedZeros k) ∧ v.forcedStop k = false := by
  have hcut : (v.cut (forcedZeros k)).Used := ⟨hused.reached, hused.endParam, hused.endPitch⟩
  rw [input_eq]
  rcases Nat.eq_zero_or_pos (v.frmNum (forcedZeros k)) with hnum | hnum
  · have hloop : (v.loop (forcedZeros k)).1.m_iVadState = false := by
      rw [loop, hnum]
      exact hv
    rw [hloop, hnum]
    simp [forcedZeros]
  · have hloop : (v.loop (forcedZeros k)).1.m_iVadState = !v.forcedStop k :=
      frames_forced hforce false false hcut hv hnum
    have hforced : (forcedZeros k : VadInput F).bForceStart = true := rfl
    rw [hloop, hforced]
    cases v.forcedStop k with
    | true => simp
    | false => simp [hnum]

/-- A forced call that is stopped is stopped as well with more zeros. -/
theorem forcedStop_mono {v : R2memVad2 F eng} {k k' : Nat} (hk : k ≤ k')
    (h : v.forcedStop k = true) : v.forcedStop k' = true := by
  have hnum : v.frmNum (forcedZeros k) ≤ v.frmNum (forcedZeros k') := by
    rw [forcedZeros_frmNum, forcedZeros_frmNum]
    exact Nat.div_le_div_right (Nat.add_le_add_left hk _)
  -- the first samples are the same
  have hdata : ∀ i < v.m_iLen_In + k,
      (v.filled (forcedZeros k')).m_pData_In i = (v.filled (forcedZeros k)).m_pData_In i := by
    have hzeros : ∀ m, (forcedZeros m : VadInput F).pData_In = List.replicate m (CFloat.ofInt 0) :=
      fun _ => rfl
    have hshort := filled_samples v (forcedZeros k)
    have hlong := filled_samples v (forcedZeros k')
    rw [hzeros, List.length_replicate] at hshort hlong
    obtain ⟨d, rfl⟩ := Nat.exists_eq_add_of_le hk
    rw [← Nat.add_assoc, map_range_add, List.replicate_add, ← List.append_assoc] at hlong
    have hfirst := List.append_inj_left hlong (by simp [held])
    rw [← hshort] at hfirst
    exact (map_range_inj.mp hfirst).2
  have hwaves : (v.cut (forcedZeros k')).waves 0 (v.frmNum (forcedZeros k)) =
      (v.cut (forcedZeros k)).waves 0 (v.frmNum (forcedZeros k)) := by
    refine List.map_congr_left ?_
    intro i hi
    refine List.map_congr_left ?_
    intro j hj
    refine hdata _ ?_
    have hle : v.frmNum (forcedZeros k) * m_iFrmSize ≤ v.m_iLen_In + k := by
      rw [forcedZeros_frmNum]
      exact Nat.div_mul_le_self _ _
    have hi := (List.mem_range'_1.mp hi).2
    have hj := List.mem_range.mp hj
    have hsize : m_iFrmSize = 160 := rfl
    rw [hsize] at hle hj ⊢
    omega
  obtain ⟨d, hd⟩ := Nat.exists_eq_add_of_le hnum
  have hsplit : (v.cut (forcedZeros k')).waves 0 (v.frmNum (forcedZeros k')) =
      (v.cut (forcedZeros k)).waves 0 (v.frmNum (forcedZeros k)) ++
        (v.cut (forcedZeros k')).waves (0 + v.frmNum (forcedZeros k)) d := by
    rw [← hwaves, hd, waves, waves, waves, ← List.map_append, List.range'_append_1]
  unfold forcedStop reads
  rw [hsplit]
  exact readUntilStop_append _ h

omit [CFloat F] in
/-- A single idle frame cannot end speech. -/
theorem reads_one_idle {v : R2memVad2 F eng} (i : Nat) (e a f : Bool)
    (hv : v.m_iVadState = false) : v.reads i 1 e a f = (1, false) :=
  (reads_idle i 0 e a f hv).trans rfl

/-- A forced call on an idle unit with one frame at most leaves nothing over. -/
theorem not_closesEarly_of_few {v : R2memVad2 F eng} (hv : v.m_iVadState = false)
    {k : Nat} (hnum : v.frmNum (forcedZeros k) ≤ 1) : ¬ v.ClosesEarly (forcedZeros k) := by
  rintro ⟨hs, hlt⟩
  rcases Nat.le_one_iff_eq_zero_or_eq_one.mp hnum with hnum | hnum
  · rw [hnum] at hlt
    exact Nat.not_lt_zero _ hlt
  · rw [hnum, reads_one_idle (v := v.cut (forcedZeros k)) 0 _ _ _ hv] at hs
    cases hs

theorem returns_process_iff {energy : eng.State → F × F} {v : R2memVad2 F eng} {c : VadInput F} :
    (∃ r, v.call energy (.process c) = .ok r) ↔ ∃ r, v.input c = .ok r := by
  simp only [call]
  cases v.input c with
  | error e =>
    constructor
    · rintro ⟨_, h⟩
      cases h
    · rintro ⟨_, h⟩
      cases h
  | ok r => exact ⟨fun _ => ⟨r, rfl⟩, fun _ => ⟨_, rfl⟩⟩

/-- If forced calls tell nothing, no samples are held. -/
theorem empty_of_observe_eq (hforce : eng.StartsForced) (energy : eng.State → F × F)
    {v : R2memVad2 F eng} (hv : v.Used) (n : Int)
    (h : ∀ further, Objects.Along (call energy) LeavesNothing (new.setvadendparam n) further →
      Objects.observe (call energy) (v.reset.setvadendparam n) further =
        Objects.observe (call energy) (new.setvadendparam n) further) : v.m_iLen_In = 0 := by
  by_contra hne
  let u : R2memVad2 F eng := v.reset.setvadendparam n
  let w : R2memVad2 F eng := new.setvadendparam n
  have hu : u.Used := ⟨.setEnd _ _ _ (.restart _ hv.reached), hv.endParam, hv.endPitch⟩
  have hw : w.Used := ⟨.setEnd _ _ _ .constructed, rfl, rfl⟩
  have hlen : u.m_iLen_In = v.m_iLen_In := rfl
  have hnew : ∀ k, w.frmNum (forcedZeros k) = (0 + k) / m_iFrmSize := forcedZeros_frmNum w
  have hsize : m_iFrmSize = 160 := rfl
  -- the answers to one forced call
  have hcall : ∀ k ≤ 160, (∃ r, u.input (forcedZeros k) = .ok r) ↔
      ∃ r, w.input (forcedZeros k) = .ok r := by
    intro k hk
    have hone : w.frmNum (forcedZeros k) ≤ 1 := by
      rw [hnew, hsize]
      omega
    have hearly : ¬ w.ClosesEarly (forcedZeros k) := not_closesEarly_of_few rfl hone
    have hobs := h [.process (forcedZeros k)] ⟨hearly, fun _ _ _ => trivial⟩
    exact (returns_process_iff.symm.trans (Objects.returns_iff_of_observe hobs)).trans
      returns_process_iff
  -- with just enough zeros for a frame the new unit has none, so the other is stopped
  have hfew : u.forcedStop (160 - v.m_iLen_In) = true := by
    by_contra hgo
    have hgo := Bool.eq_false_iff.mpr hgo
    have hok : ∃ r, u.input (forcedZeros (160 - v.m_iLen_In)) = .ok r := by
      refine (input_forcedZeros hforce hu rfl _).mpr ⟨?_, hgo⟩
      rw [forcedZeros_frmNum, hlen, hsize]
      omega
    have hnum := ((input_forcedZeros hforce hw rfl _).mp
      ((hcall _ (Nat.sub_le _ _)).mp hok)).1
    rw [hnew, hsize] at hnum
    omega
  -- with a whole frame the new unit starts, and the other one is still stopped
  have hmany : ∃ r, w.input (forcedZeros 160) = .ok r := by
    refine (input_forcedZeros hforce hw rfl 160).mpr ⟨?_, ?_⟩
    · rw [hnew]
      decide
    · unfold forcedStop
      rw [hnew]
      exact congrArg Prod.snd (reads_one_idle (v := w.cut (forcedZeros 160)) 0 _ _ _ rfl)
  have hstop := ((input_forcedZeros hforce hu rfl 160).mp
    ((hcall 160 (Nat.le_refl _)).mpr hmany)).2
  rw [forcedStop_mono (Nat.sub_le _ _) hfew] at hstop
  cases hstop

end R2memVad2

end BlackSiren

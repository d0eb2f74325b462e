import BlackSiren.Processor.Process

/-! # The stages of a call

    What holds of a call that has returned is read off its stages:

    - `Kept`, and which stages leave the flags, the encoder and the messages
      alone
    - `onWord_rule`: what the blocks of a wake word keep
    - `onPre_eq_ok`: what the block of a pre event does
    - `Stages`: the results of the stages up to `if (state.vadStart)`
    - `process_eq_ok`: a call is its stages
-/

namespace BlackSiren

namespace SirenProcessorImpl

variable {F : Type} {E : Engines F}

/-- The same processor but for the units in front of the VAD unit. -/
structure Kept (p p' : SirenProcessorImpl F E) : Prop where
  vt_enable : p'.config.alg_vt_enable = p.config.alg_vt_enable
  vad_enable : p'.config.alg_vad_enable = p.config.alg_vad_enable
  state : p'.state = p.state
  vad2 : p'.m_pMem_vad2 = p.m_pMem_vad2
  cod : p'.m_pMem_cod = p.m_pMem_cod
  msgs : p'.msgLst = p.msgLst

theorem Kept.refl (p : SirenProcessorImpl F E) : Kept p p := ⟨rfl, rfl, rfl, rfl, rfl, rfl⟩

/-- The wake-word stage replaces its unit. -/
theorem wakeWord_eq_ok {p p' : SirenProcessorImpl F E} {c : Call} {n : Nat} {w : WordFlags}
    (h : p.wakeWord c n = .ok (p', w)) :
    ∃ m_pMem_vbv3, p' = { p with m_pMem_vbv3 := m_pMem_vbv3 } := by
  unfold wakeWord at h
  obtain ⟨⟨m_pMem_vbv3, _⟩, _, h⟩ := bind_eq_ok.mp h
  obtain ⟨_, _, h⟩ := bind_eq_ok.mp h
  -- the seven questions about the word
  iterate 7 obtain ⟨_, _, h⟩ := bind_eq_ok.mp h
  cases h
  exact ⟨m_pMem_vbv3, rfl⟩

theorem wakeWord_kept {p p' : SirenProcessorImpl F E} {c : Call} {n : Nat} {w : WordFlags}
    (h : p.wakeWord c n = .ok (p', w)) : Kept p p' := by
  obtain ⟨_, rfl⟩ := wakeWord_eq_ok h
  exact ⟨rfl, rfl, rfl, rfl, rfl, rfl⟩

/-- The messages of the blocks `if (noCmd)` and `if (cmd)`. -/
def wordMsgs : List R2adMsg := [.r2ad_sleep, .r2ad_awake_nocmd, .r2ad_hotword, .r2ad_awake_cmd]

/-- What these messages and the VAD parameters keep, the blocks keep. -/
theorem onWord_rule {P : SirenProcessorImpl F E → Prop}
    (hmsg : ∀ q m, m ∈ wordMsgs → P q → P (q.addMsgSl m)) (hvad : ∀ q n, P q → P (q.setVadEnd n))
    {p : SirenProcessorImpl F E} (hp : P p) (w : WordFlags) : P (p.onWord w) := by
  have hadd : ∀ (b : Bool) (q : SirenProcessorImpl F E) (m : R2adMsg), m ∈ wordMsgs → P q →
      P (if b then q.addMsgSl m else q) := by
    intro b q m hm hq
    cases b with
    | false => exact hq
    | true => exact hmsg q m hm hq
  have hend : ∀ q, P q →
      P (if q.config.alg_vad_enable then q.setVadEnd (-1) else q.setVadEnd 2000) := by
    intro q hq
    by_cases henable : q.config.alg_vad_enable
    · rw [if_pos henable]
      exact hvad q (-1) hq
    · rw [if_neg henable]
      exact hvad q 2000 hq
  have hnoCmd : P (if w.noCmd then
      let p := if w.sleepNoCmd then p.addMsgSl .r2ad_sleep else p
      let p := if w.awakeNoCmd then p.addMsgSl .r2ad_awake_nocmd else p
      let p := if w.hotwordNoCmd then p.addMsgSl .r2ad_hotword else p
      if p.config.alg_vad_enable then p.setVadEnd (-1) else p.setVadEnd 2000
      else p) := by
    by_cases hno : w.noCmd
    · rw [if_pos hno]
      apply hend
      apply hadd _ _ _ (by decide)
      apply hadd _ _ _ (by decide)
      exact hadd _ _ _ (by decide) hp
    · rw [if_neg hno]
      exact hp
  -- the block with a command comes behind the one without
  unfold onWord
  by_cases hcmd : w.cmd
  · rw [if_pos hcmd]
    apply hend
    exact hadd _ _ _ (by decide) hnoCmd
  · rw [if_neg hcmd]
    exact hnoCmd

variable [CFloat F]

theorem resetASR_cod (p : SirenProcessorImpl F E) :
    p.resetASR.m_pMem_cod = p.m_pMem_cod.reset := by
  simp only [resetASR]
  split
  · rfl
  · rfl

/-- The check of the microphones replaces units in front only. -/
theorem checkMics_output (p : SirenProcessorImpl F E) (n : Nat) :
    (p.checkMics n).m_pMem_cod = p.m_pMem_cod ∧ (p.checkMics n).msgLst = p.msgLst := by
  simp only [checkMics, fixErrorMic]
  split
  · split
    · split <;> exact ⟨rfl, rfl⟩
    · split <;> exact ⟨rfl, rfl⟩
  · exact ⟨rfl, rfl⟩

theorem readInput_output {p p' : SirenProcessorImpl F E} {c : Call} {n : Nat}
    (h : p.readInput c = .ok (p', n)) :
    p'.m_pMem_cod = p.m_pMem_cod ∧ p'.msgLst = [] := by
  unfold readInput at h
  obtain ⟨⟨m_in, len⟩, _, h⟩ := bind_eq_ok.mp h
  cases h
  refine ⟨(checkMics_output _ _).1.trans ?_, (checkMics_output _ _).2.trans ?_⟩
  all_goals
    by_cases hasr : c.asrflag = 1
    · simp only [hasr, if_true]
    · simp only [hasr, if_false]

theorem beamform_kept {p p' : SirenProcessorImpl F E} {n : Nat} {sig : Sig F}
    (h : p.beamform n = .ok (p', sig)) : Kept p p' := by
  unfold beamform at h
  obtain ⟨_, _, h⟩ := bind_eq_ok.mp h
  cases h
  exact ⟨rfl, rfl, rfl, rfl, rfl, rfl⟩

/-- The processor in the block `if (pre)`, with the audio of the word fetched. -/
def fetchWord (p : SirenProcessorImpl F E) (det : WordDetInfo F) : SirenProcessorImpl F E :=
  let p := p.resetASR
  let p := { p with
    slinfo := p.m_pMmem_bf.m_fSlInfo
    m_pMmem_bf := p.m_pMmem_bf.steer det.fWordSlInfo.1 det.fWordSlInfo.2 }
  let start := det.iWordPos_Start + 20 * frmSize
  let p :=
    if start > p.colNoNew then
      { p with
        colNoNew := (start * 2).toNat
        dataNoNew := fun _ _ => CFloat.ofInt 0 }
    else p
  { p with dataNoNew := p.m_pMem_vbv3.GetLastAudio p.dataNoNew start 0 }

/-- The block behind the audio of the word. -/
theorem onPre_eq {p : SirenProcessorImpl F E} {w : WordFlags} (sig : Sig F) {det : WordDetInfo F}
    (hpre : w.pre = true) (hdet : p.resetASR.m_pMem_vbv3.m_pWordDetInfo = some det) :
    p.onPre w sig =
      if w.sleepNoCmd then .ok (p.fetchWord det, sig)
      else (do
        let q := p.fetchWord det
        let (m_pMmem_bf, out) ←
          q.m_pMmem_bf.process q.dataNoNew (det.iWordPos_Start + 20 * frmSize)
        return ({ q with m_pMmem_bf := m_pMmem_bf },
          { data := fun i =>
              scaleSample q.config.alg_bf_scaling ((sigOfList out).data (15 * frmSize + i))
            len := (sigOfList out).len - 15 * frmSize })) := by
  unfold onPre
  rw [if_pos hpre]
  dsimp only
  rw [hdet]
  rfl

/-- What the block `if (pre)` has done: nothing; or it has fetched the audio of
    the word, and after a sleep word kept the samples of the call, otherwise
    taken those the beamformer makes of that audio. -/
theorem onPre_eq_ok {p p' : SirenProcessorImpl F E} {w : WordFlags} {sig sig' : Sig F}
    (h : p.onPre w sig = .ok (p', sig')) : (w.pre = false ∧ p' = p ∧ sig' = sig) ∨
      (w.pre = true ∧ ∃ det, p.resetASR.m_pMem_vbv3.m_pWordDetInfo = some det ∧
        ((w.sleepNoCmd = true ∧ p' = p.fetchWord det ∧ sig' = sig) ∨
          (w.sleepNoCmd = false ∧ ∃ m_pMmem_bf out,
            (p.fetchWord det).m_pMmem_bf.process (p.fetchWord det).dataNoNew
                (det.iWordPos_Start + 20 * frmSize) = .ok (m_pMmem_bf, out) ∧
              p' = { p.fetchWord det with m_pMmem_bf := m_pMmem_bf } ∧
                sig'.len = out.length - 15 * frmSize))) := by
  cases hpre : w.pre with
  | false =>
    unfold onPre at h
    rw [hpre] at h
    cases h
    exact .inl ⟨rfl, rfl, rfl⟩
  | true =>
    refine .inr ⟨rfl, ?_⟩
    cases hdet : p.resetASR.m_pMem_vbv3.m_pWordDetInfo with
    | none =>
      -- the word is read through the pointer
      unfold onPre at h
      rw [if_pos hpre] at h
      dsimp only at h
      rw [hdet] at h
      cases h
    | some det =>
      rw [onPre_eq sig hpre hdet] at h
      refine ⟨det, rfl, ?_⟩
      cases hsleep : w.sleepNoCmd with
      | true =>
        rw [if_pos hsleep] at h
        cases h
        exact .inl ⟨rfl, rfl, rfl⟩
      | false =>
        rw [hsleep] at h
        obtain ⟨⟨m_pMmem_bf, out⟩, hbf, h⟩ := bind_eq_ok.mp h
        cases h
        exact .inr ⟨rfl, m_pMmem_bf, out, hbf, rfl, rfl⟩

theorem fetchWord_kept (p : SirenProcessorImpl F E) (det : WordDetInfo F) :
    Kept p.resetASR (p.fetchWord det) := by
  unfold fetchWord
  dsimp only
  split
  · exact ⟨rfl, rfl, rfl, rfl, rfl, rfl⟩
  · exact ⟨rfl, rfl, rfl, rfl, rfl, rfl⟩

/-- After `resetASR` the block `if (pre)` works on the beamformer only. -/
theorem onPre_kept {p p' : SirenProcessorImpl F E} {w : WordFlags} {sig sig' : Sig F}
    (h : p.onPre w sig = .ok (p', sig')) : Kept (if w.pre then p.resetASR else p) p' := by
  rcases onPre_eq_ok h with ⟨hpre, rfl, _⟩ | ⟨hpre, det, _, hword⟩
  · rw [hpre]
    exact .refl p'
  · rw [hpre]
    have hfetch := p.fetchWord_kept det
    rcases hword with ⟨_, rfl, _⟩ | ⟨_, _, _, _, rfl, _⟩
    · exact hfetch
    · exact ⟨hfetch.vt_enable, hfetch.vad_enable, hfetch.state, hfetch.vad2, hfetch.cod,
        hfetch.msgs⟩

theorem runVad_output {p p' : SirenProcessorImpl F E} {w : WordFlags} {sig : Sig F}
    {out : List F} {vad2 : VadResult} (h : p.runVad w sig = .ok (p', out, vad2)) :
    p'.m_pMem_cod = p.m_pMem_cod ∧ p'.msgLst = p.msgLst := by
  unfold runVad at h
  obtain ⟨_, _, h⟩ := bind_eq_ok.mp h
  cases h
  exact ⟨rfl, rfl⟩

/-! ### A call -/

/-- The results of the stages up to `if (state.vadStart)`. -/
structure Stages (p : SirenProcessorImpl F E) (c : Call) where
  (p₁ p₂ p₃ p₄ p₅ p₆ : SirenProcessorImpl F E)
  len_mul : Nat
  (sig sig' : Sig F)
  w : WordFlags
  out : List F
  vad2 : VadResult
  readInput : p.readInput c = .ok (p₁, len_mul)
  beamform : p₁.beamform len_mul = .ok (p₂, sig)
  wakeWord : p₂.wakeWord c len_mul = .ok (p₃, w)
  onPre : p₃.onPre w sig = .ok (p₄, sig')
  runVad : p₄.runVad w sig' = .ok (p₅, out, vad2)
  onBegin : p₅.onBegin (c.asrflag == 1) w vad2 = .ok p₆

/-- The processor at `if (state.vadStart)`. -/
def Stages.last {p : SirenProcessorImpl F E} {c : Call} (st : Stages p c) :
    SirenProcessorImpl F E :=
  st.p₆.onWord st.w

/-- A call that has returned has gone through all its stages. -/
theorem process_eq_ok {p p' : SirenProcessorImpl F E} {c : Call} (h : p.process c = .ok p') :
    ∃ (st : Stages p c) (p₇ : SirenProcessorImpl F E),
      st.last.onVadStart (c.asrflag == 1) st.w st.out st.vad2 = .ok p₇ ∧
        p₇.onEnd st.vad2 = .ok p' := by
  unfold process at h
  obtain ⟨⟨p₁, n⟩, h₁, h⟩ := bind_eq_ok.mp h
  obtain ⟨⟨p₂, sig⟩, h₂, h⟩ := bind_eq_ok.mp h
  obtain ⟨⟨p₃, w⟩, h₃, h⟩ := bind_eq_ok.mp h
  obtain ⟨⟨p₄, sig'⟩, h₄, h⟩ := bind_eq_ok.mp h
  obtain ⟨⟨p₅, out, vad2⟩, h₅, h⟩ := bind_eq_ok.mp h
  obtain ⟨p₆, h₆, h⟩ := bind_eq_ok.mp h
  obtain ⟨p₇, h₇, h⟩ := bind_eq_ok.mp h
  exact ⟨⟨p₁, p₂, p₃, p₄, p₅, p₆, n, sig, sig', w, out, vad2, h₁, h₂, h₃, h₄, h₅, h₆⟩, p₇, h₇, h⟩

end SirenProcessorImpl

end BlackSiren

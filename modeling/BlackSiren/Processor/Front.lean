import BlackSiren.Processor.Stages

/-! # The front of the processor

    The beamformer, its microphones, the first-frame flag and the wake word are the
    business of the stages up to `if (pre)`; the stages from the VAD unit on leave
    them alone.

    - `front`, `ahead`: those fields
    - `process_ahead`: a call that has returned, behind the VAD unit
-/

namespace BlackSiren

namespace SirenProcessorImpl

variable {F : Type} {E : Engines F}

/-- The beamformer, the list of its microphones and `firstFrm`. -/
def front (p : SirenProcessorImpl F E) : R2memBf F E.bf × MicIdLst × Bool :=
  (p.m_pMmem_bf, p.m_pMicInfo_bf, p.state.firstFrm)

/-- The front and the word of the wake-word unit. -/
def ahead (p : SirenProcessorImpl F E) : (R2memBf F E.bf × MicIdLst × Bool) × VbvMembers F :=
  (p.front, p.m_pMem_vbv3.members)

theorem onBegin_ahead {p p' : SirenProcessorImpl F E} {asr : Bool} {w : WordFlags}
    {vad2 : VadResult} (h : p.onBegin asr w vad2 = .ok p') : p'.ahead = p.ahead := by
  unfold onBegin at h
  split at h
  · dsimp only at h
    split at h
    · split at h
      · cases h
      · cases h
        rfl
    · cases h
      rfl
  · cases h
    rfl

theorem onWord_ahead (p : SirenProcessorImpl F E) (w : WordFlags) :
    (p.onWord w).ahead = p.ahead :=
  onWord_rule (P := fun q => q.ahead = p.ahead) (fun _ _ _ hq => hq) (fun _ _ hq => hq) rfl w

theorem decideStart_ahead (p : SirenProcessorImpl F E) (w : WordFlags) :
    (p.decideStart w).ahead = p.ahead := by
  unfold decideStart
  by_cases hd : p.state.dataOutput
  · rw [if_pos hd]
  rw [if_neg hd]
  by_cases hword : w.cmd || w.noCmd
  · rw [if_pos hword]
    dsimp only
    split <;> rfl
  rw [if_neg hword]
  by_cases hasr : p.state.asr && !p.state.awke
  · rw [if_pos hasr]
    by_cases hv : p.config.alg_vad_enable
    · simp only [hv]
      rfl
    · simp only [hv]
      rfl
  · rw [if_neg hasr]

theorem decideCancel_ahead (p : SirenProcessorImpl F E) (asr : Bool) :
    (p.decideCancel asr).ahead = p.ahead := by
  unfold decideCancel cancelOutput
  split
  · rfl
  · dsimp only
    split
    · split <;> rfl
    · rfl

theorem decideResume_ahead {p p' : SirenProcessorImpl F E} (h : p.decideResume = .ok p') :
    p'.ahead = p.ahead := by
  unfold decideResume at h
  split at h
  · obtain ⟨_, _, h⟩ := bind_eq_ok.mp h
    cases h
    rfl
  · cases h
    rfl

theorem restartCod_ahead {p p' : SirenProcessorImpl F E} (h : p.restartCod = .ok p') :
    p'.ahead = p.ahead := by
  unfold restartCod at h
  split at h
  · obtain ⟨_, _, h⟩ := bind_eq_ok.mp h
    cases h
    rfl
  · cases h
    rfl

theorem onEnd_ahead {p p' : SirenProcessorImpl F E} {vad2 : VadResult}
    (h : p.onEnd vad2 = .ok p') : p'.ahead = p.ahead := by
  unfold onEnd at h
  split at h
  · obtain ⟨q, hq, h⟩ := bind_eq_ok.mp h
    cases h
    have hmsg : (if p.state.dataOutput && !p.state.canceled then p.addMsg .r2ad_vad_end []
        else p).ahead = p.ahead := by
      split <;> rfl
    -- the flags at the end of speech are not the first-frame flag
    have hend : (endState q.config.alg_vt_enable q.state).firstFrm = q.state.firstFrm := by
      unfold endState
      cases q.config.alg_vt_enable <;> rfl
    apply Eq.trans _ ((restartCod_ahead hq).trans hmsg)
    exact congrArg (fun b => ((q.m_pMmem_bf, q.m_pMicInfo_bf, b), q.m_pMem_vbv3.members)) hend
  · cases h
    rfl

theorem wakeWord_front {p p' : SirenProcessorImpl F E} {c : Call} {n : Nat} {w : WordFlags}
    (h : p.wakeWord c n = .ok (p', w)) : p'.front = p.front := by
  obtain ⟨_, rfl⟩ := wakeWord_eq_ok h
  rfl

variable [CFloat F]

theorem runVad_ahead {p p' : SirenProcessorImpl F E} {w : WordFlags} {sig : Sig F} {out : List F}
    {vad2 : VadResult} (h : p.runVad w sig = .ok (p', out, vad2)) : p'.ahead = p.ahead := by
  unfold runVad at h
  obtain ⟨_, _, h⟩ := bind_eq_ok.mp h
  cases h
  rfl

theorem addMsgCod_ahead {p p' : SirenProcessorImpl F E} {m : R2adMsg}
    (h : p.addMsgCod m = .ok p') : p'.ahead = p.ahead := by
  unfold addMsgCod at h
  obtain ⟨_, _, h⟩ := bind_eq_ok.mp h
  cases h
  rfl

theorem dataIfAbove_ahead {p p' : SirenProcessorImpl F E} {k : Nat}
    (h : p.dataIfAbove k = .ok p') : p'.ahead = p.ahead := by
  unfold dataIfAbove at h
  obtain ⟨r, _, h⟩ := bind_eq_ok.mp h
  dsimp only at h
  split at h
  · exact (addMsgCod_ahead h).trans rfl
  · cases h
    rfl

theorem sendData_ahead {p p' : SirenProcessorImpl F E} {vad2 : VadResult}
    (h : p.sendData vad2 = .ok p') : p'.ahead = p.ahead := by
  unfold sendData at h
  split at h
  · cases h
    rfl
  · obtain ⟨p₁, h₁, h⟩ := bind_eq_ok.mp h
    split at h
    · exact (dataIfAbove_ahead h).trans (dataIfAbove_ahead h₁)
    · cases h
      exact dataIfAbove_ahead h₁

theorem onVadStart_ahead {p p' : SirenProcessorImpl F E} {asr : Bool} {w : WordFlags}
    {out : List F} {vad2 : VadResult} (h : p.onVadStart asr w out vad2 = .ok p') :
    p'.ahead = p.ahead := by
  unfold onVadStart at h
  split at h
  · dsimp only at h
    have hstart := decideStart_ahead { p with m_pMem_cod := p.m_pMem_cod.process out } w
    -- the decisions and the messages that follow are behind the front
    generalize decideStart { p with m_pMem_cod := p.m_pMem_cod.process out } w = q at h hstart
    split at h
    · obtain ⟨p₁, h₁, h⟩ := bind_eq_ok.mp h
      apply (sendData_ahead h).trans
      apply (decideResume_ahead h₁).trans
      exact (decideCancel_ahead q asr).trans hstart
    · cases h
      exact hstart
  · cases h
    rfl

/-- What the VAD unit found in front of it is there after the call. -/
theorem process_ahead {p p' : SirenProcessorImpl F E} {c : Call} (h : p.process c = .ok p') :
    ∃ st : Stages p c, p'.ahead = st.p₄.ahead := by
  obtain ⟨st, p₇, h₇, hend⟩ := process_eq_ok h
  refine ⟨st, ?_⟩
  apply (onEnd_ahead hend).trans
  apply (onVadStart_ahead h₇).trans
  apply (onWord_ahead st.p₆ st.w).trans
  exact (onBegin_ahead st.onBegin).trans (runVad_ahead st.runVad)

theorem process_front {p p' : SirenProcessorImpl F E} {c : Call} (h : p.process c = .ok p') :
    ∃ st : Stages p c, p'.front = st.p₄.front := by
  obtain ⟨st, hahead⟩ := process_ahead h
  exact ⟨st, congrArg Prod.fst hahead⟩

end SirenProcessorImpl

end BlackSiren

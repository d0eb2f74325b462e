import BlackSiren.Processor.Stages

/-! # The control state of the processor

    Which messages a call emits depends on a few flags only.  `Ctl` keeps them,
    `Ctl.call` is `process` on them alone, with everything the units decide
    (`Choice`) as an input:

    - `Ctl` and the stages of `Ctl.call`
    - `process_ctl`: a call that returns is a step of `Ctl.call`
    - `process_cod_fault`: a call that fails an assertion of the encoder is one
      on which `Ctl.call` has no result
-/

namespace BlackSiren

/-! ### The control machine -/

/-- The messages of a speech segment. -/
def R2adMsg.isVad : R2adMsg → Bool
  | .r2ad_vad_start => true
  | .r2ad_vad_data => true
  | .r2ad_vad_end => true
  | .r2ad_vad_cancel => true
  | _ => false

/-- The flags of `ProcessState`, the open flag of the VAD unit, the pause flag
    of the encoder, and the segment messages of the current call. -/
structure Ctl where
  asr : Bool
  vadStart : Bool
  dataOutput : Bool
  canceled : Bool
  awke : Bool
  speech : Bool
  paused : Bool
  out : List R2adMsg
  deriving DecidableEq, Repr

/-- What no call of `process` changes: `alg_vt_enable`, `alg_vad_enable` and
    the flag of `dumpMsg`. -/
structure Fixed where
  vt_enable : Bool
  vad_enable : Bool
  asrMsgCheckFlag : Int
  deriving DecidableEq, Repr

/-- What a call reads from its flags and from the units. -/
structure Choice where
  asr : Bool
  pre : Bool
  awakePre : Bool
  cmd : Bool
  noCmd : Bool
  vad : VadResult
  /-- `istoolong`. -/
  tooLong : Bool
  /-- `isneedresume`. -/
  needResume : Bool
  /-- The first `getdatalen` is above 100. -/
  someData : Bool
  /-- The second `getdatalen` is above 0. -/
  lastData : Bool
  deriving DecidableEq, Repr

/-- What the VAD unit guarantees: begin from idle, end inside speech, and
    speech open after a forced start. -/
structure Choice.Valid (ch : Choice) (speech : Bool) : Prop where
  begins : ch.vad.audio_begin = true → ch.pre = true ∨ speech = false
  ends : ch.vad.audio_end = true →
    ch.vad.audio_begin = true ∨ (ch.pre = false ∧ speech = true)
  forced : ch.pre = true → ch.vad = ⟨true, false⟩

namespace Ctl

def emit (c : Ctl) (m : R2adMsg) : Ctl := { c with out := c.out ++ [m] }

def readInput (asr : Bool) (c : Ctl) : Ctl := { c with asr := asr || c.asr, out := [] }

def onPre (fx : Fixed) (pre : Bool) (c : Ctl) : Ctl :=
  if pre then
    { (if c.dataOutput && !c.canceled then c.emit .r2ad_vad_cancel else c) with
      asr := false
      vadStart := false
      dataOutput := if fx.vad_enable then false else c.dataOutput
      canceled := false
      awke := false
      speech := false
      paused := false }
  else c

def runVad (vad : VadResult) (c : Ctl) : Ctl :=
  { c with speech := (c.speech || vad.audio_begin) && !vad.audio_end }

def onBegin (asr awakePre : Bool) (vad : VadResult) (c : Ctl) : Ctl :=
  if vad.audio_begin then
    { c with
      asr := asr
      vadStart := true
      dataOutput := false
      canceled := false
      awke := awakePre
      paused := false }
  else c

def decideStart (cmd noCmd : Bool) (c : Ctl) : Ctl :=
  if c.dataOutput then c
  else if cmd then { c with dataOutput := true }.emit .r2ad_vad_start
  else if noCmd then { c with dataOutput := true, canceled := true, paused := true }
  else if c.asr && !c.awke then { c with dataOutput := true }.emit .r2ad_vad_start
  else c

def decideCancel (fx : Fixed) (tooLong asr : Bool) (c : Ctl) : Ctl :=
  if c.canceled then c
  else if (fx.vad_enable && tooLong) || (!c.awke && !asr) then
    { c with
      canceled := true
      paused := true
      vadStart := fx.vad_enable && c.vadStart
      dataOutput := fx.vad_enable && c.dataOutput }.emit .r2ad_vad_cancel
  else c

def decideResume (fx : Fixed) (needResume : Bool) (c : Ctl) : Ctl :=
  if fx.vad_enable && c.canceled && c.awke && needResume && c.paused then
    { c with canceled := false, paused := false }.emit .r2ad_vad_start
  else c

/-- Reading encoded data fails the encoder's assertion when it is paused. -/
def sendData (someData lastData : Bool) (vad : VadResult) (c : Ctl) : Option Ctl :=
  if c.canceled then some c
  else if c.paused then none
  else
    let c := if someData then c.emit .r2ad_vad_data else c
    some (if vad.audio_end && lastData then c.emit .r2ad_vad_data else c)

def onVadStart (fx : Fixed) (ch : Choice) (c : Ctl) : Option Ctl :=
  if c.vadStart then
    let c := c.decideStart ch.cmd ch.noCmd
    if c.dataOutput then
      ((c.decideCancel fx ch.tooLong ch.asr).decideResume fx ch.needResume).sendData
        ch.someData ch.lastData ch.vad
    else some c
  else some c

def onEnd (fx : Fixed) (vad : VadResult) (c : Ctl) : Ctl :=
  if vad.audio_end then
    { (if c.dataOutput && !c.canceled then c.emit .r2ad_vad_end else c) with
      asr := !fx.vt_enable && c.asr
      vadStart := !fx.vt_enable && c.vadStart
      dataOutput := !fx.vt_enable && c.dataOutput
      canceled := false
      awke := false
      paused := !c.awke && c.paused }
  else c

/-- The part of a call before `if (state.vadStart)`. -/
def begin (fx : Fixed) (ch : Choice) (c : Ctl) : Ctl :=
  (((c.readInput ch.asr).onPre fx ch.pre).runVad ch.vad).onBegin ch.asr ch.awakePre ch.vad

/-- `process`; no result where it fails an assertion of the encoder. -/
def call (fx : Fixed) (ch : Choice) (c : Ctl) : Option Ctl :=
  ((c.begin fx ch).onVadStart fx ch).map (onEnd fx ch.vad)

/-- `setState(r2ssp_state_sleep)`. -/
def sleep (c : Ctl) : Ctl := { c with awke := false }

end Ctl

/-! ### The control state of a processor -/

namespace SirenProcessorImpl

variable {F : Type} {E : Engines F}

/-- The segment messages among those of the current call. -/
def vadMsgs (p : SirenProcessorImpl F E) : List R2adMsg :=
  (p.msgLst.map (·.iMsgId)).filter (·.isVad)

def ctl (p : SirenProcessorImpl F E) : Ctl where
  asr := p.state.asr
  vadStart := p.state.vadStart
  dataOutput := p.state.dataOutput
  canceled := p.state.canceled
  awke := p.state.awke
  speech := p.m_pMem_vad2.m_iVadState
  paused := p.m_pMem_cod.m_bPaused
  out := p.vadMsgs

def fixed (p : SirenProcessorImpl F E) : Fixed where
  vt_enable := p.config.alg_vt_enable
  vad_enable := p.config.alg_vad_enable
  asrMsgCheckFlag := p.state.asrMsgCheckFlag

/-! ### The stages on the control state -/

theorem addMsg_ctl (p : SirenProcessorImpl F E) (m : R2adMsg) (d : List UInt8) :
    (p.addMsg m d).ctl = if m.isVad then p.ctl.emit m else p.ctl := by
  have hout : (p.addMsg m d).vadMsgs = if m.isVad then p.vadMsgs ++ [m] else p.vadMsgs := by
    simp only [vadMsgs, addMsg, List.map_append, List.map_cons, List.map_nil,
      List.filter_append, List.filter_cons, List.filter_nil]
    cases m.isVad <;> simp
  show ({ p.ctl with out := (p.addMsg m d).vadMsgs } : Ctl) = _
  rw [hout]
  cases m.isVad <;> rfl

/-- A message of another kind leaves the control state alone. -/
theorem addMsg_other (p : SirenProcessorImpl F E) {m : R2adMsg} (d : List UInt8)
    (h : m.isVad = false) : (p.addMsg m d).ctl = p.ctl := by
  rw [addMsg_ctl, h]
  rfl

theorem Kept.ctl {p p' : SirenProcessorImpl F E} (h : Kept p p') :
    p'.ctl = p.ctl ∧ p'.fixed = p.fixed := by
  unfold SirenProcessorImpl.ctl SirenProcessorImpl.fixed vadMsgs
  rw [h.vt_enable, h.vad_enable, h.state, h.vad2, h.cod, h.msgs]
  exact ⟨rfl, rfl⟩

theorem checkMics_ctl [CFloat F] (p : SirenProcessorImpl F E) (n : Nat) :
    (p.checkMics n).ctl = p.ctl ∧ (p.checkMics n).fixed = p.fixed := by
  simp only [checkMics, fixErrorMic]
  split
  · split
    · split <;> exact ⟨rfl, rfl⟩
    · split <;> exact ⟨rfl, rfl⟩
  · exact ⟨rfl, rfl⟩

theorem readInput_ctl [CFloat F] {p p' : SirenProcessorImpl F E} {c : Call} {n : Nat}
    (h : p.readInput c = .ok (p', n)) :
    p'.ctl = p.ctl.readInput (c.asrflag == 1) ∧ p'.fixed = p.fixed := by
  simp only [readInput] at h
  obtain ⟨⟨m_in, len⟩, _, h⟩ := bind_eq_ok.mp h
  cases h
  -- the status fields written last are not part of the control state
  have hstatus : ∀ q : SirenProcessorImpl F E, ∀ l a b d e : Int,
      ({ q with state := updateAndDumpStatus q.state l a b d e } : SirenProcessorImpl F E).ctl
        = q.ctl ∧
      ({ q with state := updateAndDumpStatus q.state l a b d e } : SirenProcessorImpl F E).fixed
        = q.fixed := by
    intro q l a b d e
    simp only [updateAndDumpStatus]
    split <;> exact ⟨rfl, rfl⟩
  rw [(hstatus _ _ _ _ _ _).1, (hstatus _ _ _ _ _ _).2]
  refine ⟨(checkMics_ctl _ _).1.trans ?_, (checkMics_ctl _ _).2.trans ?_⟩
  · by_cases hasr : c.asrflag = 1
    · simp only [hasr]
      rfl
    · have hb : (c.asrflag == 1) = false := by simpa using hasr
      simp only [hasr, hb]
      rfl
  · by_cases hasr : c.asrflag = 1
    · simp only [hasr]
      rfl
    · simp only [hasr]
      rfl

theorem resetASR_ctl [CFloat F] (p : SirenProcessorImpl F E) :
    p.resetASR.ctl = p.ctl.onPre p.fixed true ∧ p.resetASR.fixed = p.fixed := by
  simp only [resetASR]
  by_cases hopen : (p.state.dataOutput && !p.state.canceled) = true
  · have hadd := addMsg_ctl p .r2ad_vad_cancel []
    simp only [hopen, if_true]
    refine ⟨?_, rfl⟩
    have hopen' : (p.ctl.dataOutput && !p.ctl.canceled) = true := hopen
    simp only [Ctl.onPre, if_true, hopen']
    rw [← show (p.addMsg .r2ad_vad_cancel []).ctl = p.ctl.emit .r2ad_vad_cancel from hadd]
    rfl
  · simp only [hopen]
    refine ⟨?_, rfl⟩
    have hopen' : ¬ (p.ctl.dataOutput && !p.ctl.canceled) = true := hopen
    simp only [Ctl.onPre, if_true, hopen']
    rfl

theorem onPre_ctl [CFloat F] {p p' : SirenProcessorImpl F E} {w : WordFlags} {sig sig' : Sig F}
    (h : p.onPre w sig = .ok (p', sig')) :
    p'.ctl = p.ctl.onPre p.fixed w.pre ∧ p'.fixed = p.fixed := by
  obtain ⟨hctl, hfixed⟩ := (onPre_kept h).ctl
  cases hpre : w.pre with
  | false =>
    rw [hpre] at hctl hfixed
    exact ⟨hctl, hfixed⟩
  | true =>
    rw [hpre] at hctl hfixed
    exact ⟨hctl.trans (resetASR_ctl p).1, hfixed.trans (resetASR_ctl p).2⟩

theorem runVad_ctl [CFloat F] {p p' : SirenProcessorImpl F E} {w : WordFlags} {sig : Sig F}
    {out : List F} {vad2 : VadResult} (h : p.runVad w sig = .ok (p', out, vad2)) :
    p'.ctl = p.ctl.runVad vad2 ∧ p'.fixed = p.fixed ∧
      R2memVad2.Transition p.ctl.speech vad2 p'.ctl.speech ∧
      (w.pre = true → p'.ctl.speech = true) := by
  simp only [runVad] at h
  obtain ⟨⟨v, out', rt⟩, hvad, h⟩ := bind_eq_ok.mp h
  cases h
  obtain ⟨htrans, hforce⟩ := R2memVad2.process_eq_ok hvad
  refine ⟨?_, rfl, htrans, hforce⟩
  have hspeech : v.m_iVadState =
      ((p.m_pMem_vad2.m_iVadState || rt.audio_begin) && !rt.audio_end) := by
    generalize p.m_pMem_vad2.m_iVadState = b at htrans ⊢
    generalize v.m_iVadState = b' at htrans ⊢
    cases htrans with
    | stay => cases b <;> rfl
    | begins => rfl
    | ends => rfl
    | both => rfl
  show ({ p.ctl with speech := v.m_iVadState } : Ctl) = _
  rw [hspeech]
  rfl

theorem onBegin_ctl {p p' : SirenProcessorImpl F E} {asr : Bool} {w : WordFlags}
    {vad2 : VadResult} (h : p.onBegin asr w vad2 = .ok p') :
    p'.ctl = p.ctl.onBegin asr w.awakePre vad2 ∧ p'.fixed = p.fixed := by
  simp only [onBegin] at h
  cases hb : vad2.audio_begin with
  | false =>
    simp only [hb, Bool.false_eq_true, if_false] at h
    cases h
    exact ⟨by simp [Ctl.onBegin, hb], rfl⟩
  | true =>
    cases ha : w.awakePre with
    | false =>
      simp only [hb, ha, Bool.false_eq_true, if_false, if_true] at h
      cases h
      exact ⟨by simp only [Ctl.onBegin, hb, if_true]; rfl, rfl⟩
    | true =>
      simp only [hb, ha, if_true] at h
      split at h
      · cases h
      · cases h
        refine ⟨?_, rfl⟩
        -- the two messages of a pre event are not segment messages
        apply (addMsg_other _ _ rfl).trans
        apply (addMsg_other _ _ rfl).trans
        simp only [Ctl.onBegin, hb, if_true]
        rfl

/-- The blocks of the wake words add messages of other kinds and set VAD
    parameters only. -/
theorem onWord_ctl (p : SirenProcessorImpl F E) (w : WordFlags) :
    (p.onWord w).ctl = p.ctl ∧ (p.onWord w).fixed = p.fixed := by
  have hother : ∀ m ∈ wordMsgs, m.isVad = false := by decide
  apply onWord_rule (P := fun q => q.ctl = p.ctl ∧ q.fixed = p.fixed)
  · intro q m hm hq
    exact ⟨(addMsg_other q _ (hother m hm)).trans hq.1, hq.2⟩
  · intro q n hq
    exact hq
  · exact ⟨rfl, rfl⟩

theorem decideStart_ctl (p : SirenProcessorImpl F E) (w : WordFlags) :
    (p.decideStart w).ctl = p.ctl.decideStart w.cmd w.noCmd ∧
      (p.decideStart w).fixed = p.fixed := by
  simp only [decideStart, Ctl.decideStart]
  by_cases hd : p.state.dataOutput
  · have hd' : p.ctl.dataOutput := hd
    simp [hd, hd']
  have hd' : ¬ p.ctl.dataOutput := hd
  simp only [hd, hd']
  cases hc : w.cmd with
  | true => exact ⟨addMsg_ctl _ _ _, rfl⟩
  | false =>
    cases hn : w.noCmd with
    | true => exact ⟨rfl, rfl⟩
    | false =>
      by_cases ha : (p.state.asr && !p.state.awke) = true
      · have ha' : (p.ctl.asr && !p.ctl.awke) = true := ha
        simp only [ha, ha']
        refine ⟨(addMsg_ctl _ _ _).trans ?_, ?_⟩
        · by_cases hv : p.config.alg_vad_enable <;> simp only [hv] <;> rfl
        · by_cases hv : p.config.alg_vad_enable <;> simp only [hv] <;> rfl
      · have ha' : ¬ (p.ctl.asr && !p.ctl.awke) = true := ha
        simp only [ha, ha']
        exact ⟨rfl, rfl⟩

theorem cancelOutput_ctl (p : SirenProcessorImpl F E) :
    p.cancelOutput.ctl = { p.ctl with
      paused := true
      vadStart := p.fixed.vad_enable && p.ctl.vadStart
      dataOutput := p.fixed.vad_enable && p.ctl.dataOutput }.emit .r2ad_vad_cancel ∧
      p.cancelOutput.fixed = p.fixed := by
  simp only [cancelOutput]
  by_cases hv : p.config.alg_vad_enable = true
  · have hv' : p.fixed.vad_enable = true := hv
    rw [if_pos hv, hv', Bool.true_and, Bool.true_and]
    exact ⟨addMsg_ctl _ _ _, rfl⟩
  · have hv' : p.fixed.vad_enable = false := by
      show p.config.alg_vad_enable = false
      simpa using hv
    rw [if_neg hv, hv', Bool.false_and, Bool.false_and]
    exact ⟨addMsg_ctl { p with
      state := { p.state with vadStart := false, dataOutput := false }
      m_pMem_cod := p.m_pMem_cod.pause } _ _, rfl⟩

theorem decideCancel_ctl (p : SirenProcessorImpl F E) (asr : Bool) :
    (p.decideCancel asr).ctl = p.ctl.decideCancel p.fixed p.m_pMem_cod.istoolong asr ∧
      (p.decideCancel asr).fixed = p.fixed := by
  simp only [decideCancel, Ctl.decideCancel]
  by_cases hc : p.state.canceled
  · have hc' : p.ctl.canceled := hc
    rw [if_pos hc, if_pos hc']
    exact ⟨rfl, rfl⟩
  have hc' : ¬ p.ctl.canceled := hc
  rw [if_neg hc, if_neg hc']
  by_cases ht : (p.config.alg_vad_enable && p.m_pMem_cod.istoolong ||
      (!p.state.awke && !asr)) = true
  · have ht' : (p.fixed.vad_enable && p.m_pMem_cod.istoolong ||
        (!p.ctl.awke && !asr)) = true := ht
    rw [if_pos ht, if_pos ht']
    exact cancelOutput_ctl { p with state := { p.state with canceled := true } }
  · have ht' : ¬ (p.fixed.vad_enable && p.m_pMem_cod.istoolong ||
        (!p.ctl.awke && !asr)) = true := ht
    rw [if_neg ht, if_neg ht']
    exact ⟨rfl, rfl⟩

theorem decideResume_ctl {p p' : SirenProcessorImpl F E} (h : p.decideResume = .ok p') :
    p'.ctl = p.ctl.decideResume p.fixed p.m_pMem_cod.isneedresume ∧
      p'.fixed = p.fixed := by
  simp only [decideResume] at h
  by_cases hr : (p.config.alg_vad_enable && p.state.canceled && p.state.awke &&
      p.m_pMem_cod.isneedresume) = true
  · have hneed : p.m_pMem_cod.isneedresume = true := by
      simp only [Bool.and_eq_true] at hr
      exact hr.2
    -- only a paused encoder needs a resume
    have hpaused : p.ctl.paused = true := R2memCod.isneedresume_paused hneed
    have hr' : (p.fixed.vad_enable && p.ctl.canceled && p.ctl.awke &&
        p.m_pMem_cod.isneedresume && p.ctl.paused) = true := by
      rw [hpaused, Bool.and_true]
      exact hr
    simp only [hr, if_true] at h
    obtain ⟨cod, hcod, h⟩ := bind_eq_ok.mp h
    cases h
    have hcod := (R2memCod.resume_eq_ok hcod).2
    refine ⟨(addMsg_ctl _ _ _).trans ?_, rfl⟩
    simp only [Ctl.decideResume, hr', if_true, R2adMsg.isVad]
    show Ctl.emit { p.ctl with canceled := false, paused := cod.m_bPaused } _ = _
    rw [hcod]
  · simp only [hr] at h
    cases h
    have hr' : ¬ (p.fixed.vad_enable && p.ctl.canceled && p.ctl.awke &&
        p.m_pMem_cod.isneedresume && p.ctl.paused) = true := by
      rw [Bool.and_eq_true]
      exact fun hboth => hr hboth.1
    refine ⟨?_, rfl⟩
    simp only [Ctl.decideResume, hr']
    rfl

/-- `resume` is called only where the encoder is paused. -/
theorem decideResume_eq_error {p : SirenProcessorImpl F E} {f : Fault}
    (h : p.decideResume = .error f) : False := by
  simp only [decideResume] at h
  split at h
  · next hr =>
    simp only [Bool.and_eq_true] at hr
    have hpaused := R2memCod.isneedresume_paused hr.2
    rcases bind_eq_error.mp h with h | ⟨_, _, h⟩
    · rw [R2memCod.resume_of_paused hpaused] at h
      cases h
    · cases h
  · cases h

variable [CFloat F]

theorem addMsgCod_ctl {p p' : SirenProcessorImpl F E} {m : R2adMsg} (hm : m.isVad = true)
    (h : p.addMsgCod m = .ok p') :
    p.ctl.paused = false ∧ p'.ctl = p.ctl.emit m ∧ p'.fixed = p.fixed := by
  simp only [addMsgCod] at h
  obtain ⟨⟨data, cod⟩, hcod, h⟩ := bind_eq_ok.mp h
  cases h
  simp only [R2memCod.getdata2] at hcod
  obtain ⟨cod', hproc, hcod⟩ := bind_eq_ok.mp hcod
  cases hcod
  obtain ⟨hp, hp'⟩ := R2memCod.processdata_eq_ok hproc
  refine ⟨hp, (addMsg_ctl _ _ _).trans ?_, rfl⟩
  rw [if_pos hm]
  show Ctl.emit { p.ctl with paused := cod'.m_bPaused } m = p.ctl.emit m
  rw [hp', ← show p.ctl.paused = false from hp]

theorem addMsgCod_eq_error {p : SirenProcessorImpl F E} {m : R2adMsg} {f : Fault}
    (h : p.addMsgCod m = .error f) (hf : f.isCodAssert = true) : p.ctl.paused = true := by
  simp only [addMsgCod, R2memCod.getdata2] at h
  rcases bind_eq_error.mp h with h | ⟨_, _, h⟩
  · rcases bind_eq_error.mp h with h | ⟨_, _, h⟩
    · exact R2memCod.processdata_eq_error h hf
    · cases h
  · cases h

/-- `getdatalen` in the middle of a stage. -/
theorem getdatalen_ctl {p : SirenProcessorImpl F E} {n : Nat} {cod : R2memCod F E.opus}
    (h : p.m_pMem_cod.getdatalen = .ok (n, cod)) :
    p.ctl.paused = false ∧
      ({ p with m_pMem_cod := cod } : SirenProcessorImpl F E).ctl = p.ctl := by
  simp only [R2memCod.getdatalen] at h
  obtain ⟨cod', hproc, h⟩ := bind_eq_ok.mp h
  cases h
  obtain ⟨hp, hp'⟩ := R2memCod.processdata_eq_ok hproc
  refine ⟨hp, ?_⟩
  show ({ p.ctl with paused := cod.m_bPaused } : Ctl) = p.ctl
  rw [hp', ← show p.ctl.paused = false from hp]

theorem getdatalen_eq_error {p : SirenProcessorImpl F E} {f : Fault}
    (h : p.m_pMem_cod.getdatalen = .error f) (hf : f.isCodAssert = true) :
    p.ctl.paused = true := by
  simp only [R2memCod.getdatalen] at h
  rcases bind_eq_error.mp h with h | ⟨_, _, h⟩
  · exact R2memCod.processdata_eq_error h hf
  · cases h

theorem dataIfAbove_ctl {p p' : SirenProcessorImpl F E} {k : Nat}
    (h : p.dataIfAbove k = .ok p') :
    p.ctl.paused = false ∧
      (∃ b : Bool, p'.ctl = if b then p.ctl.emit .r2ad_vad_data else p.ctl) ∧
      p'.fixed = p.fixed := by
  simp only [dataIfAbove] at h
  obtain ⟨⟨n, cod⟩, hlen, h⟩ := bind_eq_ok.mp h
  obtain ⟨hp, hctl⟩ := getdatalen_ctl hlen
  refine ⟨hp, ?_⟩
  split at h
  · obtain ⟨_, hemit, hsw⟩ := addMsgCod_ctl rfl h
    rw [hctl] at hemit
    exact ⟨⟨true, hemit⟩, hsw⟩
  · cases h
    exact ⟨⟨false, hctl⟩, rfl⟩

/-- Data is read after the length, so the length finds the encoder paused
    first. -/
theorem dataIfAbove_eq_error {p : SirenProcessorImpl F E} {k : Nat} {f : Fault}
    (h : p.dataIfAbove k = .error f) (hf : f.isCodAssert = true) : p.ctl.paused = true := by
  simp only [dataIfAbove] at h
  rcases bind_eq_error.mp h with h | ⟨⟨n, cod⟩, hlen, h⟩
  · exact getdatalen_eq_error h hf
  · have hctl := (getdatalen_ctl hlen).2
    split at h
    · have hp := addMsgCod_eq_error h hf
      rw [hctl] at hp
      exact hp
    · cases h

theorem sendData_ctl {p p' : SirenProcessorImpl F E} {vad2 : VadResult}
    (h : p.sendData vad2 = .ok p') :
    (∃ someData lastData, p.ctl.sendData someData lastData vad2 = some p'.ctl) ∧
      p'.fixed = p.fixed := by
  simp only [sendData] at h
  by_cases hc : p.state.canceled
  · have hc' : p.ctl.canceled := hc
    rw [if_pos hc] at h
    cases h
    exact ⟨⟨false, false, by simp only [Ctl.sendData, hc', if_true]⟩, rfl⟩
  have hc' : ¬ p.ctl.canceled := hc
  rw [if_neg hc] at h
  obtain ⟨q, hq, h⟩ := bind_eq_ok.mp h
  obtain ⟨hp, ⟨b, hb⟩, hsw⟩ := dataIfAbove_ctl hq
  -- the end of the speech takes out what is left
  cases he : vad2.audio_end with
  | false =>
    simp only [he, Bool.false_eq_true, if_false] at h
    cases h
    refine ⟨⟨b, false, ?_⟩, hsw⟩
    simp [Ctl.sendData, hc', hp, he, hb]
  | true =>
    simp only [he, if_true] at h
    obtain ⟨_, ⟨b', hb'⟩, hsw'⟩ := dataIfAbove_ctl h
    refine ⟨⟨b, b', ?_⟩, hsw'.trans hsw⟩
    simp [Ctl.sendData, hc', hp, he, hb', hb]

theorem sendData_eq_error {p : SirenProcessorImpl F E} {vad2 : VadResult} {f : Fault}
    (h : p.sendData vad2 = .error f) (hf : f.isCodAssert = true) (someData lastData : Bool) :
    p.ctl.sendData someData lastData vad2 = none := by
  simp only [sendData] at h
  by_cases hc : p.state.canceled
  · rw [if_pos hc] at h
    cases h
  have hc' : ¬ p.ctl.canceled := hc
  rw [if_neg hc] at h
  -- after a first read that succeeded the encoder is not paused
  have hpaused : p.ctl.paused = true := by
    rcases bind_eq_error.mp h with h | ⟨q, hq, h⟩
    · exact dataIfAbove_eq_error h hf
    · obtain ⟨hp, ⟨b, hb⟩, _⟩ := dataIfAbove_ctl hq
      split at h
      · have hq := dataIfAbove_eq_error h hf
        rw [hb] at hq
        cases b
        · exact hq
        · exact hq
      · cases h
  simp [Ctl.sendData, hc', hpaused]

omit [CFloat F] in
theorem restartCod_ctl {p p' : SirenProcessorImpl F E} (h : p.restartCod = .ok p') :
    p'.ctl = { p.ctl with paused := !p.ctl.awke && p.ctl.paused } ∧
      p'.fixed = p.fixed := by
  simp only [restartCod] at h
  by_cases ha : p.state.awke
  · have ha' : p.ctl.awke = true := ha
    rw [if_pos ha] at h
    obtain ⟨cod, hcod, h⟩ := bind_eq_ok.mp h
    cases h
    refine ⟨?_, rfl⟩
    show ({ p.ctl with paused := cod.m_bPaused } : Ctl) = _
    rw [(R2memCod.resume_eq_ok hcod).2, ha']
    rfl
  · have ha' : p.ctl.awke = false := by
      show p.state.awke = false
      simpa using ha
    rw [if_neg ha] at h
    cases h
    refine ⟨?_, rfl⟩
    rw [ha', Bool.not_false, Bool.true_and]

omit [CFloat F] in
theorem restartCod_eq_error {p : SirenProcessorImpl F E} {f : Fault}
    (h : p.restartCod = .error f) : False := by
  simp only [restartCod] at h
  split at h
  · rcases bind_eq_error.mp h with h | ⟨_, _, h⟩
    · rw [R2memCod.resume_of_paused (R2memCod.pause_m_bPaused _)] at h
      cases h
    · cases h
  · cases h

omit [CFloat F] in
theorem onEnd_ctl {p p' : SirenProcessorImpl F E} {vad2 : VadResult}
    (h : p.onEnd vad2 = .ok p') :
    p'.ctl = p.ctl.onEnd p.fixed vad2 ∧ p'.fixed = p.fixed := by
  simp only [onEnd] at h
  cases he : vad2.audio_end with
  | false =>
    simp only [he, Bool.false_eq_true, if_false] at h
    cases h
    exact ⟨by simp [Ctl.onEnd, he], rfl⟩
  | true =>
    simp only [he, if_true] at h
    obtain ⟨q, hq, h⟩ := bind_eq_ok.mp h
    obtain ⟨hctl, hsw⟩ := restartCod_ctl hq
    -- the END message, if there is one
    have hmsg : (if p.state.dataOutput && !p.state.canceled then
        p.addMsg .r2ad_vad_end [] else p).ctl =
        (if p.ctl.dataOutput && !p.ctl.canceled then p.ctl.emit .r2ad_vad_end else p.ctl) ∧
        (if p.state.dataOutput && !p.state.canceled then
          p.addMsg .r2ad_vad_end [] else p).fixed = p.fixed := by
      by_cases ho : (p.state.dataOutput && !p.state.canceled) = true
      · have ho' : (p.ctl.dataOutput && !p.ctl.canceled) = true := ho
        simp only [ho, ho', if_true]
        exact ⟨addMsg_ctl _ _ _, rfl⟩
      · have ho' : ¬ (p.ctl.dataOutput && !p.ctl.canceled) = true := ho
        simp only [ho, ho']
        exact ⟨rfl, rfl⟩
    rw [hmsg.1] at hctl
    rw [hmsg.2] at hsw
    cases h
    have hvt : q.config.alg_vt_enable = p.fixed.vt_enable := by rw [← hsw]; rfl
    have hend : ∀ vt : Bool,
        ({ q with state := endState vt q.state } : SirenProcessorImpl F E).ctl =
          { q.ctl with
            asr := !vt && q.ctl.asr
            vadStart := !vt && q.ctl.vadStart
            dataOutput := !vt && q.ctl.dataOutput
            canceled := false
            awke := false } ∧
        ({ q with state := endState vt q.state } : SirenProcessorImpl F E).fixed = q.fixed := by
      intro vt
      cases vt <;> exact ⟨rfl, rfl⟩
    refine ⟨?_, (hend _).2.trans hsw⟩
    rw [hvt, (hend _).1, hctl]
    simp only [Ctl.onEnd, he, if_true]
    by_cases ho : (p.ctl.dataOutput && !p.ctl.canceled) = true
    · rw [if_pos ho]
      rfl
    · rw [if_neg ho]

/-- `if (state.vadStart)`, with some outcome of what the encoder is asked. -/
theorem onVadStart_ctl {p p' : SirenProcessorImpl F E} {asr : Bool} {w : WordFlags}
    {out : List F} {vad2 : VadResult} (h : p.onVadStart asr w out vad2 = .ok p') (ch : Choice)
    (hasr : ch.asr = asr) (hcmd : ch.cmd = w.cmd) (hnoCmd : ch.noCmd = w.noCmd)
    (hvad : ch.vad = vad2) :
    (∃ tooLong needResume someData lastData,
      p.ctl.onVadStart p.fixed { ch with
        tooLong := tooLong
        needResume := needResume
        someData := someData
        lastData := lastData } = some p'.ctl) ∧ p'.fixed = p.fixed := by
  simp only [onVadStart] at h
  by_cases hv : p.state.vadStart
  · have hv' : p.ctl.vadStart := hv
    rw [if_pos hv] at h
    obtain ⟨hq, hsw⟩ := decideStart_ctl
      { p with m_pMem_cod := p.m_pMem_cod.process out } w
    -- from here on only the flags after `decideStart` count
    generalize decideStart { p with m_pMem_cod := p.m_pMem_cod.process out } w = q at h hq hsw
    have hq : q.ctl = p.ctl.decideStart w.cmd w.noCmd := hq
    have hsw : q.fixed = p.fixed := hsw
    by_cases hd : q.state.dataOutput
    · have hd' : (p.ctl.decideStart w.cmd w.noCmd).dataOutput := by
        rw [← hq]
        exact hd
      rw [if_pos hd] at h
      obtain ⟨hc, hcsw⟩ := decideCancel_ctl q asr
      obtain ⟨r, hr, h⟩ := bind_eq_ok.mp h
      obtain ⟨hr, hrsw⟩ := decideResume_ctl hr
      obtain ⟨⟨b, b', hs⟩, hssw⟩ := sendData_ctl h
      refine ⟨⟨q.m_pMem_cod.istoolong, (q.decideCancel asr).m_pMem_cod.isneedresume, b, b', ?_⟩,
        hssw.trans (hrsw.trans (hcsw.trans hsw))⟩
      simp only [Ctl.onVadStart, hcmd, hnoCmd, hasr, hvad]
      rw [if_pos hv', if_pos hd', ← hs, hr, hc, hcsw, hq, hsw]
    · have hd' : ¬ (p.ctl.decideStart w.cmd w.noCmd).dataOutput := by
        rw [← hq]
        exact hd
      rw [if_neg hd] at h
      cases h
      refine ⟨⟨false, false, false, false, ?_⟩, hsw⟩
      simp only [Ctl.onVadStart, hcmd, hnoCmd]
      rw [if_pos hv', if_neg hd', hq]
  · have hv' : ¬ p.ctl.vadStart := hv
    rw [if_neg hv] at h
    cases h
    refine ⟨⟨false, false, false, false, ?_⟩, rfl⟩
    simp only [Ctl.onVadStart]
    rw [if_neg hv']

theorem onVadStart_eq_error {p : SirenProcessorImpl F E} {asr : Bool} {w : WordFlags}
    {out : List F} {vad2 : VadResult} {f : Fault}
    (h : p.onVadStart asr w out vad2 = .error f) (hf : f.isCodAssert = true) (ch : Choice)
    (hasr : ch.asr = asr) (hcmd : ch.cmd = w.cmd) (hnoCmd : ch.noCmd = w.noCmd)
    (hvad : ch.vad = vad2) :
    ∃ tooLong needResume, p.ctl.onVadStart p.fixed { ch with
      tooLong := tooLong, needResume := needResume } = none := by
  simp only [onVadStart] at h
  by_cases hv : p.state.vadStart
  · have hv' : p.ctl.vadStart := hv
    rw [if_pos hv] at h
    obtain ⟨hq, hsw⟩ := decideStart_ctl
      { p with m_pMem_cod := p.m_pMem_cod.process out } w
    generalize decideStart { p with m_pMem_cod := p.m_pMem_cod.process out } w = q at h hq hsw
    have hq : q.ctl = p.ctl.decideStart w.cmd w.noCmd := hq
    have hsw : q.fixed = p.fixed := hsw
    by_cases hd : q.state.dataOutput
    · have hd' : (p.ctl.decideStart w.cmd w.noCmd).dataOutput := by
        rw [← hq]
        exact hd
      rw [if_pos hd] at h
      obtain ⟨hc, hcsw⟩ := decideCancel_ctl q asr
      rcases bind_eq_error.mp h with h | ⟨r, hr, h⟩
      · exact (decideResume_eq_error h).elim
      obtain ⟨hr, _⟩ := decideResume_ctl hr
      -- of the three stages only the sending asserts
      have hs := sendData_eq_error h hf ch.someData ch.lastData
      refine ⟨q.m_pMem_cod.istoolong, (q.decideCancel asr).m_pMem_cod.isneedresume, ?_⟩
      simp only [Ctl.onVadStart, hcmd, hnoCmd, hasr, hvad]
      rw [if_pos hv', if_pos hd', ← hs, hr, hc, hcsw, hq, hsw]
    · rw [if_neg hd] at h
      cases h
  · rw [if_neg hv] at h
    cases h

/-! ### Faults before the output stage

    None of them is an assertion of the encoder. -/

theorem readInput_eq_error {p : SirenProcessorImpl F E} {c : Call} {f : Fault}
    (h : p.readInput c = .error f) : f.isCodAssert = false := by
  simp only [readInput] at h
  rcases bind_eq_error.mp h with h | ⟨_, _, h⟩
  · exact R2memI.process_eq_error h
  · cases h

theorem beamform_eq_error {p : SirenProcessorImpl F E} {n : Nat} {f : Fault}
    (h : p.beamform n = .error f) : f.isCodAssert = false := by
  simp only [beamform] at h
  rcases bind_eq_error.mp h with h | ⟨_, _, h⟩
  · rw [R2memBf.process_eq_error h]; rfl
  · cases h

omit [CFloat F] in
theorem wordTypeIs_eq_error {p : SirenProcessorImpl F E} {b : Bool} {t : Int} {f : Fault}
    (h : p.wordTypeIs b t = .error f) : f.isCodAssert = false := by
  simp only [wordTypeIs] at h
  split at h
  · split at h
    · cases h; rfl
    · cases h
  · cases h

omit [CFloat F] in
theorem wakeWord_eq_error {p : SirenProcessorImpl F E} {c : Call} {n : Nat} {f : Fault}
    (h : p.wakeWord c n = .error f) : f.isCodAssert = false := by
  simp only [wakeWord] at h
  rcases bind_eq_error.mp h with h | ⟨_, _, h⟩
  · rcases R2memVbv3.Process_eq_error h with rfl | rfl <;> rfl
  rcases bind_eq_error.mp h with h | ⟨_, _, h⟩
  · rw [← (assertThat_eq_error.mp h).2]; rfl
  rcases bind_eq_error.mp h with h | ⟨_, _, h⟩
  · exact wordTypeIs_eq_error h
  rcases bind_eq_error.mp h with h | ⟨_, _, h⟩
  · exact wordTypeIs_eq_error h
  rcases bind_eq_error.mp h with h | ⟨_, _, h⟩
  · exact wordTypeIs_eq_error h
  rcases bind_eq_error.mp h with h | ⟨_, _, h⟩
  · exact wordTypeIs_eq_error h
  rcases bind_eq_error.mp h with h | ⟨_, _, h⟩
  · exact wordTypeIs_eq_error h
  rcases bind_eq_error.mp h with h | ⟨_, _, h⟩
  · exact wordTypeIs_eq_error h
  rcases bind_eq_error.mp h with h | ⟨_, _, h⟩
  · exact wordTypeIs_eq_error h
  · cases h

theorem onPre_eq_error {p : SirenProcessorImpl F E} {w : WordFlags} {sig : Sig F} {f : Fault}
    (h : p.onPre w sig = .error f) : f.isCodAssert = false := by
  simp only [onPre] at h
  split at h
  · split at h
    · cases h; rfl
    · split at h
      · split at h <;> cases h
      · rcases bind_eq_error.mp h with h | ⟨_, _, h⟩
        · rw [R2memBf.process_eq_error h]; rfl
        · cases h
  · cases h

theorem runVad_eq_error {p : SirenProcessorImpl F E} {w : WordFlags} {sig : Sig F} {f : Fault}
    (h : p.runVad w sig = .error f) : f.isCodAssert = false := by
  simp only [runVad] at h
  rcases bind_eq_error.mp h with h | ⟨_, _, h⟩
  · exact R2memVad2.process_eq_error h
  · cases h

omit [CFloat F] in
theorem onBegin_eq_error {p : SirenProcessorImpl F E} {asr : Bool} {w : WordFlags}
    {vad2 : VadResult} {f : Fault} (h : p.onBegin asr w vad2 = .error f) :
    f.isCodAssert = false := by
  simp only [onBegin] at h
  split at h
  · split at h
    · split at h
      · cases h; rfl
      · cases h
    · cases h
  · cases h

/-! ### Calls -/

omit [CFloat F] in
/-- The guarantees of the VAD unit, read off its transition. -/
theorem valid_of_transition {ch : Choice} {speech speech' : Bool}
    (htrans : R2memVad2.Transition (!ch.pre && speech) ch.vad speech')
    (hforce : ch.pre = true → speech' = true) : ch.Valid speech := by
  -- a pre event has reset the VAD, so it comes from no speech
  generalize hs : (!ch.pre && speech) = s₀ at htrans
  generalize hr : ch.vad = rt at htrans
  refine ⟨?_, ?_, ?_⟩
  · intro hb
    rw [hr] at hb
    cases htrans with
    | stay => cases hb
    | begins => cases hp : ch.pre <;> simp_all
    | ends => cases hb
    | both => cases hp : ch.pre <;> simp_all
  · intro he
    rw [hr] at he ⊢
    cases htrans with
    | stay => cases he
    | begins => cases he
    | ends => cases hp : ch.pre <;> simp_all
    | both => exact .inl rfl
  · intro hp
    have hopen := hforce hp
    rw [hp] at hs
    rw [hr]
    cases htrans with
    | stay => simp_all
    | begins => rfl
    | ends => simp_all
    | both => simp_all

/-- What the stages have decided, with some outcome of what the encoder is
    asked. -/
def Stages.choice {p : SirenProcessorImpl F E} {c : Call} (st : Stages p c)
    (tooLong needResume someData lastData : Bool) : Choice where
  asr := c.asrflag == 1
  pre := st.w.pre
  awakePre := st.w.awakePre
  cmd := st.w.cmd
  noCmd := st.w.noCmd
  vad := st.vad2
  tooLong := tooLong
  needResume := needResume
  someData := someData
  lastData := lastData

/-- What holds when a call has come to `if (state.vadStart)`. -/
theorem begin_ctl {p : SirenProcessorImpl F E} {c : Call} (st : Stages p c)
    (tooLong needResume someData lastData : Bool) :
    st.last.ctl = p.ctl.begin p.fixed (st.choice tooLong needResume someData lastData) ∧
      st.last.fixed = p.fixed ∧
      (st.choice tooLong needResume someData lastData).Valid p.ctl.speech := by
  obtain ⟨c₁, s₁⟩ := readInput_ctl st.readInput
  obtain ⟨c₂, s₂⟩ := (beamform_kept st.beamform).ctl
  obtain ⟨c₃, s₃⟩ := (wakeWord_kept st.wakeWord).ctl
  obtain ⟨c₄, s₄⟩ := onPre_ctl st.onPre
  obtain ⟨c₅, s₅, htrans, hforce⟩ := runVad_ctl st.runVad
  obtain ⟨c₆, s₆⟩ := onBegin_ctl st.onBegin
  obtain ⟨c₇, s₇⟩ := onWord_ctl st.p₆ st.w
  have hsw : st.p₃.fixed = p.fixed := s₃.trans (s₂.trans s₁)
  refine ⟨?_, s₇.trans (s₆.trans (s₅.trans (s₄.trans hsw))), ?_⟩
  · simp only [Ctl.begin, Stages.choice, Stages.last]
    rw [c₇, c₆, c₅, c₄, hsw, c₃, c₂, c₁]
  · -- the pre event has closed any speech, so the VAD unit starts from there
    have hspeech : st.p₄.ctl.speech = (!st.w.pre && p.ctl.speech) := by
      rw [c₄, c₃, c₂, c₁]
      cases st.w.pre <;> rfl
    rw [hspeech] at htrans
    exact valid_of_transition htrans hforce

theorem process_ctl {p p' : SirenProcessorImpl F E} {c : Call} (h : p.process c = .ok p') :
    (∃ ch : Choice, ch.Valid p.ctl.speech ∧ p.ctl.call p.fixed ch = some p'.ctl) ∧
      p'.fixed = p.fixed := by
  obtain ⟨st, p₇, hstart, hend⟩ := process_eq_ok h
  obtain ⟨⟨tl, nr, sd, ld, hstart⟩, hsw₇⟩ :=
    onVadStart_ctl hstart (st.choice false false false false) rfl rfl rfl rfl
  obtain ⟨hbegin, hsw, hvalid⟩ := begin_ctl st tl nr sd ld
  obtain ⟨hend, hsw'⟩ := onEnd_ctl hend
  refine ⟨⟨st.choice tl nr sd ld, hvalid, ?_⟩, hsw'.trans (hsw₇.trans hsw)⟩
  rw [hbegin, hsw] at hstart
  unfold Ctl.call
  rw [show (p.ctl.begin p.fixed _).onVadStart p.fixed (st.choice tl nr sd ld) = some p₇.ctl
    from hstart, hend, hsw₇, hsw]
  rfl

/-- A call fails an assertion of the encoder only where the control machine
    has no result. -/
theorem process_cod_fault {p : SirenProcessorImpl F E} {c : Call} {f : Fault}
    (h : p.process c = .error f) (hf : f.isCodAssert = true) :
    ∃ ch : Choice, ch.Valid p.ctl.speech ∧ p.ctl.call p.fixed ch = none := by
  have hnot : f.isCodAssert = false → ∃ ch : Choice, ch.Valid p.ctl.speech ∧
      p.ctl.call p.fixed ch = none := by
    intro hf'
    rw [hf] at hf'
    cases hf'
  simp only [process] at h
  rcases bind_eq_error.mp h with h | ⟨⟨p₁, n⟩, h₁, h⟩
  · exact hnot (readInput_eq_error h)
  rcases bind_eq_error.mp h with h | ⟨⟨p₂, sig⟩, h₂, h⟩
  · exact hnot (beamform_eq_error h)
  rcases bind_eq_error.mp h with h | ⟨⟨p₃, w⟩, h₃, h⟩
  · exact hnot (wakeWord_eq_error h)
  rcases bind_eq_error.mp h with h | ⟨⟨p₄, sig'⟩, h₄, h⟩
  · exact hnot (onPre_eq_error h)
  rcases bind_eq_error.mp h with h | ⟨⟨p₅, out, vad2⟩, h₅, h⟩
  · exact hnot (runVad_eq_error h)
  rcases bind_eq_error.mp h with h | ⟨p₆, h₆, h⟩
  · exact hnot (onBegin_eq_error h)
  rcases bind_eq_error.mp h with h | ⟨p₇, h₇, h⟩
  · -- the call has come to the encoder
    let st : Stages p c := ⟨p₁, p₂, p₃, p₄, p₅, p₆, n, sig, sig', w, out, vad2, h₁, h₂, h₃, h₄,
      h₅, h₆⟩
    obtain ⟨tl, nr, hstart⟩ :=
      onVadStart_eq_error h hf (st.choice false false false false) rfl rfl rfl rfl
    obtain ⟨hbegin, hsw, hvalid⟩ := begin_ctl st tl nr false false
    refine ⟨st.choice tl nr false false, hvalid, ?_⟩
    have hlast : (p₆.onWord w).ctl = _ := hbegin
    have hsw : (p₆.onWord w).fixed = _ := hsw
    rw [hlast, hsw] at hstart
    unfold Ctl.call
    rw [show (p.ctl.begin p.fixed _).onVadStart p.fixed (st.choice tl nr false false) = none
      from hstart]
    rfl
  · simp only [onEnd] at h
    split at h
    · rcases bind_eq_error.mp h with h | ⟨_, _, h⟩
      · exact (restartCod_eq_error h).elim
      · cases h
    · cases h

end SirenProcessorImpl

end BlackSiren

import BlackSiren.Framework.System
import BlackSiren.Processor.Control

/-! # Runs of the processor

    The process thread calls `process` on every frame, fetches its messages,
    and calls `setState`, `setSLSteer` and `syncVTWord` between frames.  A run
    ends at a call that does not return.

    - `Run`, `Event`, `next` and the transition system `runs`
    - `next_ctl`: an event on the control state
-/

open LTS

namespace BlackSiren

/-- A processor with what it has delivered so far. -/
structure Run (F : Type) (E : Engines F) where
  p : SirenProcessorImpl F E
  msgs : List R2adMsgBlock
  /-- How often `dumpMsg` has logged "asrflag error". -/
  errors : Nat

/-- The calls of the process thread. -/
inductive Event (F : Type) where
  | process (c : Call)
  | setState (awake_state : R2vSysState)
  | setSLSteer (ho ver : F)
  | syncVTWord (words : List (SirenVTWord F))

namespace Run

variable {F : Type} [CFloat F] {E : Engines F}

/-- One event; a frame is followed by `getMsgs`. -/
def next (s : Run F E) : Event F → Except Fault (Run F E)
  | .process c => do
      let p ← s.p.process c
      let (p, msgs, errors) := p.getMsgs
      return { p := p, msgs := s.msgs ++ msgs, errors := s.errors + errors }
  | .setState awake_state => .ok { s with p := s.p.setState awake_state }
  | .setSLSteer ho ver => .ok { s with p := s.p.setSLSteer ho ver }
  | .syncVTWord words => do
      let p ← s.p.syncVTWord words
      return { s with p := p }

/-- `init` has succeeded and nothing has happened yet. -/
def Init (cfg : SirenConfig F) (s : Run F E) : Prop :=
  SirenProcessorImpl.init cfg = .ok (some s.p) ∧ s.msgs = [] ∧ s.errors = 0

/-- The runs of a processor with configuration `cfg`. -/
def runs (E : Engines F) (cfg : SirenConfig F) : System (Run F E) (Event F) :=
  .ofFn (Init cfg) fun s e => (s.next e).toOption

/-- The run that a list of events gives, if every call returns. -/
def script (E : Engines F) (cfg : SirenConfig F) (es : List (Event F)) :
    Option (Run F E) :=
  match SirenProcessorImpl.init cfg with
  | .ok (some p) => exec (fun s e => (s.next e).toOption) ⟨p, [], 0⟩ es
  | _ => none

theorem script_reachable {cfg : SirenConfig F} {es : List (Event F)} {s : Run F E}
    (h : script E cfg es = some s) : Reachable (runs E cfg) s := by
  simp only [script] at h
  split at h
  · next p hp => exact reachable_of_exec ⟨hp, rfl, rfl⟩ h
  · cases h

/-- Before the first event. -/
theorem init_of_script {cfg : SirenConfig F} {s : Run F E} (h : script E cfg [] = some s) :
    Init cfg s := by
  unfold script at h
  split at h
  · next p hp =>
    cases h
    exact ⟨hp, rfl, rfl⟩
  · cases h

/-! ### Initial states -/

/-- The control state after `init`. -/
theorem init_ctl {cfg : SirenConfig F} {s : Run F E} (h : Init cfg s) :
    s.p.ctl = ⟨false, false, false, false, false, false, false, []⟩ ∧
      s.p.fixed = ⟨cfg.alg_vt_enable, cfg.alg_vad_enable, 0⟩ := by
  obtain ⟨mic_i2s_delay, m_pWordLst, _, _, hp⟩ := SirenProcessorImpl.init_eq_some h.1
  rw [hp]
  exact ⟨rfl, rfl⟩

/-! ### Events -/

theorem toOption_eq_some {α : Type} {x : Except Fault α} {a : α} :
    x.toOption = some a ↔ x = .ok a := by
  cases x <;> simp [Except.toOption]

/-- What an event other than a frame does to the control state. -/
inductive Quiet (c : Ctl) : Ctl → Prop where
  | same : Quiet c c
  | sleep : Quiet c c.sleep

/-- What `getMsgs` does with the messages of a frame. -/
structure Delivers (s s' : Run F E) : Prop where
  msgs : s'.msgs = s.msgs ++ s'.p.msgLst
  flag : s'.p.fixed.asrMsgCheckFlag =
    (SirenProcessorImpl.dumpMsgs s.p.fixed.asrMsgCheckFlag s'.p.msgLst).1
  errors : s'.errors = s.errors +
    (SirenProcessorImpl.dumpMsgs s.p.fixed.asrMsgCheckFlag s'.p.msgLst).2

/-- An event that delivers nothing. -/
structure Silent (s s' : Run F E) : Prop where
  ctl : Quiet s.p.ctl s'.p.ctl
  msgs : s'.msgs = s.msgs
  flag : s'.p.fixed.asrMsgCheckFlag = s.p.fixed.asrMsgCheckFlag
  errors : s'.errors = s.errors

omit [CFloat F] in
theorem setState_ctl (p : SirenProcessorImpl F E) (a : R2vSysState) :
    Quiet p.ctl (p.setState a).ctl ∧ (p.setState a).fixed = p.fixed := by
  simp only [SirenProcessorImpl.setState]
  split
  · exact ⟨.sleep, rfl⟩
  · exact ⟨.same, rfl⟩

omit [CFloat F] in
theorem syncVTWord_ctl {p p' : SirenProcessorImpl F E} {words : List (SirenVTWord F)}
    (h : p.syncVTWord words = .ok p') : p'.ctl = p.ctl ∧ p'.fixed = p.fixed := by
  obtain ⟨_, _, _, _, rfl⟩ := SirenProcessorImpl.syncVTWord_eq_ok h
  exact ⟨rfl, rfl⟩

/-- The switches stay; an event is a step of the control machine, whose
    messages are delivered and checked, or a silent one. -/
theorem next_ctl {s s' : Run F E} {e : Event F} (h : s.next e = .ok s') :
    s'.p.fixed.vt_enable = s.p.fixed.vt_enable ∧
      s'.p.fixed.vad_enable = s.p.fixed.vad_enable ∧
      ((∃ ch : Choice, ch.Valid s.p.ctl.speech ∧
          s.p.ctl.call s.p.fixed ch = some s'.p.ctl ∧ Delivers s s') ∨ Silent s s') := by
  cases e with
  | process c =>
    simp only [next] at h
    obtain ⟨p, hp, h⟩ := bind_eq_ok.mp h
    obtain ⟨⟨ch, hvalid, hcall⟩, hfixed⟩ := SirenProcessorImpl.process_ctl hp
    cases h
    -- `getMsgs` changes the check flag only
    have hget : p.getMsgs.1.ctl = p.ctl := rfl
    have hflag : p.state.asrMsgCheckFlag = s.p.fixed.asrMsgCheckFlag := by
      rw [← hfixed]
      rfl
    have hvt : p.fixed.vt_enable = s.p.fixed.vt_enable := congrArg Fixed.vt_enable hfixed
    have hvad : p.fixed.vad_enable = s.p.fixed.vad_enable := congrArg Fixed.vad_enable hfixed
    refine ⟨hvt, hvad, .inl ⟨ch, hvalid, hget ▸ hcall, rfl, ?_, ?_⟩⟩
    · rw [← hflag]
      rfl
    · rw [← hflag]
      rfl
  | setState a =>
    cases h
    obtain ⟨hq, hfixed⟩ := setState_ctl s.p a
    exact ⟨congrArg Fixed.vt_enable hfixed, congrArg Fixed.vad_enable hfixed,
      .inr ⟨hq, rfl, congrArg Fixed.asrMsgCheckFlag hfixed, rfl⟩⟩
  | setSLSteer ho ver =>
    cases h
    exact ⟨rfl, rfl, .inr ⟨.same, rfl, rfl, rfl⟩⟩
  | syncVTWord words =>
    simp only [next] at h
    obtain ⟨p, hp, h⟩ := bind_eq_ok.mp h
    cases h
    obtain ⟨hctl, hfixed⟩ := syncVTWord_ctl hp
    refine ⟨congrArg Fixed.vt_enable hfixed, congrArg Fixed.vad_enable hfixed,
      .inr ⟨?_, rfl, congrArg Fixed.asrMsgCheckFlag hfixed, rfl⟩⟩
    show Quiet s.p.ctl p.ctl
    rw [hctl]
    exact .same

end Run

/-! ### Scripted engines

    Engines that follow a script, for runs on concrete input: the VAD engine
    reports a start and a stop after the frames listed and has three frames of
    voice, the wake-word engine plays back a list of events about one word. -/

section Scripted

/-- A VAD engine that counts the frames it has read. -/
def scriptedVad (starts stops : List Nat) : VadEngine ℚ where
  State := Nat
  create := 0
  setParam := fun n _ _ => n
  restart := id
  setStart := fun n _ => n
  input := fun n _ _ _ => n + 1
  startFrame := fun n => if n ∈ starts then 0 else -1
  frameNum := fun _ => 3
  voice := fun _ _ => 0
  stopFrame := fun n => if n ∈ stops then 1 else 0

/-- A wake-word engine that counts the calls and knows one word. -/
def scriptedVbv (events : List VbvResult) (word : WordInfo ℚ) : VbvEngine ℚ where
  State := Nat
  create := fun _ _ _ _ => 0
  unassigned := fun _ => ⟨false, none, none⟩
  setwords := fun n _ => n
  process := fun n _ _ _ => (n + 1, events.getD n ⟨false, false, false, false, false⟩)
  getdetwordinfo := fun _ => (some word, some ⟨0, 0, 0, (0, 0)⟩)
  getlastaudio := fun _ _ _ => []
  getsl := fun n _ _ => (n, (0, 0))

def scripted (starts stops : List Nat) (events : List VbvResult) (word : WordInfo ℚ) :
    Engines ℚ where
  opus := { State := Unit, create := (), encode := fun _ _ => ((), .packet []) }
  vad := scriptedVad starts stops
  bf := { State := Unit
          create := fun _ _ => ()
          steer := fun _ _ _ => ()
          process := fun _ _ => ((), fun _ => 0) }
  vbv := scriptedVbv events word
  slText := fun _ _ => []

/-- One microphone, no default words, PCM output. -/
def smallConfig (vt_enable vad_enable : Bool) : SirenConfig ℚ where
  mic_num := 1
  alg_mic_pos := [(0, 0, 0)]
  alg_need_i2s_delay_mics := []
  alg_i2s_delay_mics := []
  alg_aec_mics := [0]
  alg_sl_mics := [0]
  alg_vt_phomod := []
  alg_vt_dnnmod := []
  def_vt_configs := []
  alg_bf_scaling := 1
  alg_vt_enable := vt_enable
  alg_vad_enable := vad_enable
  alg_opus_compress := false

/-- One frame of samples 1.0. -/
def frame (awakeflag sleepflag asrflag : Int) : Event ℚ :=
  .process {
    datain := fun i => if i % 4 = 2 then 0x80 else if i % 4 = 3 then 0x3f else 0
    lenin := 640
    aecflag := 0
    awakeflag := awakeflag
    sleepflag := sleepflag
    asrflag := asrflag
    hotwordflag := 0 }

end Scripted

end BlackSiren

import BlackSiren.Framework.CInt
import BlackSiren.Legacy.Bf
import BlackSiren.Legacy.Cod
import BlackSiren.Legacy.In
import BlackSiren.Legacy.Vad2
import BlackSiren.VTWord.Word

/-! # `SirenProcessorImpl`: from audio to messages

    The unit chain of one call of `process`: sample conversion, beamforming,
    wake-word detection, voice activity detection, encoding.  The call is cut
    into the stages its source has; a stage takes the processor and returns it
    with what the later stages read.

    - `init`, `setState`, `setSLSteer`, `syncVTWord`
    - `process`, from `readInput` to `onEnd`
    - `getMsgs` and `dumpMsg`

    Left out: the recording of audio to files, the log texts, and the energy
    queries.
-/

namespace BlackSiren

/-! ### Data -/

/-- `r2ad_msg`. -/
inductive R2adMsg where
  | r2ad_vad_start
  | r2ad_vad_data
  | r2ad_vad_end
  | r2ad_vad_cancel
  | r2ad_awake_vad_start
  | r2ad_awake_vad_data
  | r2ad_awake_vad_end
  | r2ad_awake_pre
  | r2ad_awake_nocmd
  | r2ad_awake_cmd
  | r2ad_awake_cancel
  | r2ad_sleep
  | r2ad_hotword
  | r2ad_sr
  | r2ad_debug_audio
  | r2ad_dirty
  deriving DecidableEq, Repr

/-- `r2v_sys_state`: any `int` that is cast to it. -/
@[ext] structure R2vSysState where
  value : Int
  fits : CInt.Fits value
  deriving DecidableEq

namespace R2vSysState

def r2ssp_state_awake : R2vSysState := ⟨1, by decide⟩

def r2ssp_state_sleep : R2vSysState := ⟨2, by decide⟩

end R2vSysState

/-- `r2ad_msg_block`; `iMsgDataLen` is the length of the data. -/
structure R2adMsgBlock where
  iMsgId : R2adMsg
  pMsgData : List UInt8
  deriving DecidableEq, Repr

/-- The fields of `AlgConfig` and `SirenConfig` the processor reads. -/
structure SirenConfig (F : Type) where
  mic_num : Nat
  alg_mic_pos : List (F × F × F)
  alg_need_i2s_delay_mics : List Int
  alg_i2s_delay_mics : List F
  alg_aec_mics : MicIdLst
  alg_sl_mics : MicIdLst
  alg_vt_phomod : List UInt8
  alg_vt_dnnmod : List UInt8
  def_vt_configs : List (DefVTConfig F)
  alg_bf_scaling : F
  alg_vt_enable : Bool
  alg_vad_enable : Bool
  alg_opus_compress : Bool

/-- The code outside the repository. -/
structure Engines (F : Type) where
  opus : OpusEncoder F
  vad : VadEngine F
  bf : BfEngine F
  vbv : VbvEngine F
  /-- The text `getinfo_sl` prints for azimuth and elevation. -/
  slText : F → F → List UInt8

/-- `SirenProcessorImpl::ProcessState`. -/
structure ProcessState where
  asr : Bool
  vadStart : Bool
  dataOutput : Bool
  canceled : Bool
  awke : Bool
  firstFrm : Bool
  lastDuration : Int
  aecFlag : Int
  awakeFlag : Int
  sleepFlag : Int
  asrFlag : Int
  asrMsgCheckFlag : Int
  lastAwakeInfo : List UInt8

/-- `frmSize`. -/
def frmSize : Nat := R2_AUDIO_SAMPLE_RATE / 1000 * R2_AUDIO_FRAME_MS

/-- `SirenProcessorImpl`, with the members of `micinfo`, `unit` and
    `allocator`. -/
structure SirenProcessorImpl (F : Type) (E : Engines F) where
  config : SirenConfig F
  mic_pos : Int → F × F × F
  mic_i2s_delay : Int → F
  m_pMicInfo_bf : MicIdLst
  m_pWordLst : List (WordInfo F)
  m_pMem_in : R2memI F
  m_pMem_vbv3 : R2memVbv3 F E.vbv
  m_pMmem_bf : R2memBf F E.bf
  m_pMem_vad2 : R2memVad2 F E.vad
  m_pMem_cod : R2memCod F E.opus
  state : ProcessState
  msgLst : List R2adMsgBlock
  colNoNew : Nat
  dataNoNew : Chan F
  slinfo : F × F

/-- The arguments of `process`. -/
structure Call where
  datain : Nat → UInt8
  lenin : Int
  aecflag : Int
  awakeflag : Int
  sleepflag : Int
  asrflag : Int
  hotwordflag : Int

/-- `data_sig` and `len_sig`. -/
structure Sig (F : Type) where
  data : Nat → F
  len : Int

/-- What `process` derives from the wake-word result. -/
structure WordFlags where
  pre : Bool
  awakePre : Bool
  awakeNoCmd : Bool
  awakeCmd : Bool
  sleepNoCmd : Bool
  sleepCmd : Bool
  hotwordNoCmd : Bool
  hotwordCmd : Bool

def WordFlags.cmd (w : WordFlags) : Bool := w.awakeCmd || w.sleepCmd || w.hotwordCmd

def WordFlags.noCmd (w : WordFlags) : Bool := w.awakeNoCmd || w.sleepNoCmd || w.hotwordNoCmd

namespace SirenProcessorImpl

variable {F : Type} [CFloat F] {E : Engines F}

/-- A list as the array behind a pointer. -/
def sigOfList (l : List F) : Sig F where
  data := fun i => l.getD i (CFloat.ofInt 0)
  len := l.length

/-! ### Initialisation -/

/-- The loop over `alg_need_i2s_delay_mics`: an index that is too large is
    skipped, the delay is taken at the position in the list. -/
def micDelays (cfg : SirenConfig F) : List (Int × Nat) → (Int → F) → Except Fault (Int → F)
  | [], d => .ok d
  | (mic_idx, i) :: rest, d =>
      if mic_idx ≥ cfg.mic_num then micDelays cfg rest d
      else do
        assertThat (0 ≤ mic_idx) .outOfBounds
        match cfg.alg_i2s_delay_mics[i]? with
        | none => .error .outOfBounds
        | some delay => micDelays cfg rest (Function.update d mic_idx delay)

/-- `ProcessState` as `init` leaves it. -/
def initState : ProcessState where
  asr := false
  vadStart := false
  dataOutput := false
  canceled := false
  awke := false
  firstFrm := true
  lastDuration := 0
  aecFlag := -1
  awakeFlag := -1
  sleepFlag := -1
  asrFlag := -1
  asrMsgCheckFlag := 0
  lastAwakeInfo := []

/-- The processor that `init` builds from the delays and the words. -/
def built (cfg : SirenConfig F) (mic_i2s_delay : Int → F) (m_pWordLst : List (WordInfo F)) :
    SirenProcessorImpl F E :=
  let zero : F := CFloat.ofInt 0
  let mic_pos := fun i : Int => cfg.alg_mic_pos.getD i.toNat (zero, zero, zero)
  { config := cfg
    mic_pos := mic_pos
    mic_i2s_delay := mic_i2s_delay
    m_pMicInfo_bf := cfg.alg_sl_mics
    m_pWordLst := m_pWordLst
    m_pMem_in := R2memI.new .r2_in_float_32 cfg.alg_aec_mics
    m_pMem_vbv3 :=
      (R2memVbv3.new mic_pos mic_i2s_delay cfg.alg_sl_mics cfg.alg_vt_dnnmod
        cfg.alg_vt_phomod : R2memVbv3 F E.vbv).SetWords m_pWordLst
    m_pMmem_bf := R2memBf.new mic_pos mic_i2s_delay cfg.alg_sl_mics
    m_pMem_vad2 := R2memVad2.new
    m_pMem_cod := R2memCod.new (if cfg.alg_opus_compress then .r2ad_cod_opu else .r2ad_cod_pcm)
    state := initState
    msgLst := []
    colNoNew := R2_AUDIO_SAMPLE_RATE * 5
    dataNoNew := fun _ _ => zero
    slinfo := (zero, zero) }

/-- `init`; `none` is the result -1. -/
def init (cfg : SirenConfig F) : Except Fault (Option (SirenProcessorImpl F E)) := do
  assertThat (cfg.mic_num ≤ cfg.alg_mic_pos.length) .outOfBounds
  let mic_i2s_delay ← micDelays cfg cfg.alg_need_i2s_delay_mics.zipIdx fun _ => CFloat.ofInt 0
  if cfg.alg_aec_mics.isEmpty then return none
  if cfg.alg_sl_mics.isEmpty then return none
  let m_pWordLst ← cfg.def_vt_configs.mapM wordInfoOfDefault
  return some (built cfg mic_i2s_delay m_pWordLst)

/-- An `init` that has succeeded has built this processor. -/
theorem init_eq_some {cfg : SirenConfig F} {p : SirenProcessorImpl F E}
    (h : init cfg = .ok (some p)) : ∃ mic_i2s_delay m_pWordLst,
      micDelays cfg cfg.alg_need_i2s_delay_mics.zipIdx (fun _ => CFloat.ofInt 0) =
          .ok mic_i2s_delay ∧
        cfg.def_vt_configs.mapM wordInfoOfDefault = .ok m_pWordLst ∧
          p = built cfg mic_i2s_delay m_pWordLst := by
  unfold init at h
  obtain ⟨_, _, h⟩ := bind_eq_ok.mp h
  obtain ⟨mic_i2s_delay, hdelay, h⟩ := bind_eq_ok.mp h
  split at h
  · cases h
  split at h
  · cases h
  obtain ⟨m_pWordLst, hwords, h⟩ := bind_eq_ok.mp h
  exact ⟨mic_i2s_delay, m_pWordLst, hdelay, hwords, (Option.some.inj (Except.ok.inj h)).symm⟩

/-! ### Messages -/

/-- `addMsg(msgid, msgdatalen, data)`. -/
def addMsg (p : SirenProcessorImpl F E) (msgid : R2adMsg) (data : List UInt8) :
    SirenProcessorImpl F E :=
  { p with msgLst := p.msgLst ++ [⟨msgid, data⟩] }

/-- `addMsg(msgid, sl)`: the string with its NUL. -/
def addMsgStr (p : SirenProcessorImpl F E) (msgid : R2adMsg) (sl : List UInt8) :
    SirenProcessorImpl F E :=
  p.addMsg msgid (cstr sl ++ [0])

/-- `addMsg(msgid, unit.m_pMmem_bf->getinfo_sl())`. -/
def addMsgSl (p : SirenProcessorImpl F E) (msgid : R2adMsg) : SirenProcessorImpl F E :=
  p.addMsgStr msgid (p.m_pMmem_bf.getinfo_sl E.slText)

/-- `addMsg(msgid, cod)`. -/
def addMsgCod (p : SirenProcessorImpl F E) (msgid : R2adMsg) :
    Except Fault (SirenProcessorImpl F E) := do
  let (data, cod) ← p.m_pMem_cod.getdata2
  return { p with m_pMem_cod := cod }.addMsg msgid data

/-! ### Input -/

/-- `getErrorInfo`. -/
def getErrorInfo (p : SirenProcessorImpl F E) (data_mul : Chan F) : List Int :=
  p.m_pMem_in.m_pMicInfo_In.filter fun id =>
    CFloat.lt (CFloat.abs (data_mul id 0)) (CFloat.ofRat (1 / 2))

/-- `fixErrorMic`: drops the error microphones from the list of the
    beamformer and says whether that changed it. -/
def fixErrorMic (p : SirenProcessorImpl F E) (errorMic : List Int) :
    SirenProcessorImpl F E × Bool :=
  if errorMic.isEmpty then (p, false)
  else
    let kept := p.m_pMicInfo_bf.filter fun id => !errorMic.contains id
    ({ p with m_pMicInfo_bf := kept }, kept.length != p.m_pMicInfo_bf.length)

/-- The check of the microphones on the first samples. -/
def checkMics (p : SirenProcessorImpl F E) (len_mul : Nat) : SirenProcessorImpl F E :=
  if p.state.firstFrm && decide (len_mul > 0) then
    let p := { p with state := { p.state with firstFrm := false } }
    let (p, fixed) := p.fixErrorMic (p.getErrorInfo p.m_pMem_in.m_pData_Out)
    if fixed then
      let m_pMem_vbv3 :=
        (R2memVbv3.new p.mic_pos p.mic_i2s_delay p.m_pMicInfo_bf p.config.alg_vt_dnnmod
          p.config.alg_vt_phomod : R2memVbv3 F E.vbv).SetWords p.m_pWordLst
      { p with
        m_pMem_vbv3 := m_pMem_vbv3
        m_pMmem_bf := R2memBf.new p.mic_pos p.mic_i2s_delay p.m_pMicInfo_bf }
    else p
  else p

/-- `updateAndDumpStatus`. -/
def updateAndDumpStatus (s : ProcessState) (lenin aecflag awakeflag sleepflag asrflag : Int) :
    ProcessState :=
  if awakeflag ≠ s.awakeFlag ∨ sleepflag ≠ s.sleepFlag ∨ asrflag ≠ s.asrFlag ∨
      aecflag ≠ s.aecFlag then
    { s with
      aecFlag := aecflag
      awakeFlag := awakeflag
      sleepFlag := sleepflag
      asrFlag := asrflag }
  else
    let d := s.lastDuration + lenin
    { s with lastDuration := if d > frmSize * 5000 then 0 else d }

/-- `process` up to the beamformer: the `asr` flag, the samples, the
    microphones, the status. -/
def readInput (p : SirenProcessorImpl F E) (c : Call) :
    Except Fault (SirenProcessorImpl F E × Nat) := do
  let p := { p with msgLst := [] }
  let p := if c.asrflag = 1 then { p with state := { p.state with asr := true } } else p
  let (m_pMem_in, len_mul) ← p.m_pMem_in.process c.datain c.lenin
  let p := checkMics { p with m_pMem_in := m_pMem_in } len_mul
  return ({ p with
    state := updateAndDumpStatus p.state len_mul c.aecflag c.awakeflag c.sleepflag c.asrflag },
    len_mul)

/-- The scaling of one sample. -/
def scaleSample (s x : F) : F :=
  if CFloat.lt (CFloat.ofInt 0) s then CFloat.mul x s else CFloat.div x (CFloat.abs s)

/-- The beamformer and the scaling, which turns a scale of 0 into 1. -/
def beamform (p : SirenProcessorImpl F E) (len_mul : Nat) :
    Except Fault (SirenProcessorImpl F E × Sig F) := do
  let (m_pMmem_bf, out) ← p.m_pMmem_bf.process p.m_pMem_in.m_pData_Out len_mul
  let scaling := p.config.alg_bf_scaling
  let scaling := if CFloat.eq scaling (CFloat.ofInt 0) then CFloat.ofInt 1 else scaling
  let sig := sigOfList (out.map (scaleSample scaling))
  return ({ p with
    m_pMmem_bf := m_pMmem_bf
    config := { p.config with alg_bf_scaling := scaling } }, sig)

/-! ### Wake words -/

/-- `c && m_pWordInfo->iWordType == t`. -/
def wordTypeIs (p : SirenProcessorImpl F E) (c : Bool) (t : Int) : Except Fault Bool :=
  if c then
    match p.m_pMem_vbv3.m_pWordInfo with
    | none => .error .nullWord
    | some w => .ok (w.iWordType == t)
  else .ok false

/-- The wake-word engine and the flags read off its result. -/
def wakeWord (p : SirenProcessorImpl F E) (c : Call) (len_mul : Nat) :
    Except Fault (SirenProcessorImpl F E × WordFlags) := do
  let awake := c.awakeflag == 1
  let sleep := c.sleepflag == 1
  let hotword := c.hotwordflag == 1
  let (m_pMem_vbv3, rt) ←
    p.m_pMem_vbv3.Process p.m_pMem_in.m_pData_Out len_mul p.state.dataOutput (c.aecflag == 1)
  let p := { p with m_pMem_vbv3 := m_pMem_vbv3 }
  assertThat (!rt.R2_VT_WORD_CANCEL || rt.R2_VT_WORD_PRE) .cancelWithoutPre
  let pre := rt.R2_VT_WORD_PRE && !rt.R2_VT_WORD_CANCEL
  let awakePre ← p.wordTypeIs (awake && pre) WORD_AWAKE
  let awakeNoCmd ← p.wordTypeIs (awake && rt.R2_VT_WORD_DET_NOCMD) WORD_AWAKE
  let awakeCmd ← p.wordTypeIs (awake && rt.R2_VT_WORD_DET_CMD) WORD_AWAKE
  let sleepNoCmd ← p.wordTypeIs (sleep && rt.R2_VT_WORD_DET_NOCMD) WORD_SLEEP
  let sleepCmd ← p.wordTypeIs (sleep && rt.R2_VT_WORD_DET_CMD) WORD_SLEEP
  let hotwordNoCmd ← p.wordTypeIs (hotword && rt.R2_VT_WORD_DET_NOCMD) WORD_HOTWORD
  let hotwordCmd ← p.wordTypeIs (hotword && rt.R2_VT_WORD_DET_CMD) WORD_HOTWORD
  return (p, ⟨pre, awakePre, awakeNoCmd, awakeCmd, sleepNoCmd, sleepCmd,
    hotwordNoCmd, hotwordCmd⟩)

/-- `resetASR`. -/
def resetASR (p : SirenProcessorImpl F E) : SirenProcessorImpl F E :=
  let p :=
    if p.state.dataOutput && !p.state.canceled then p.addMsg .r2ad_vad_cancel [] else p
  { p with
    state := { p.state with
      asr := false
      vadStart := false
      dataOutput := if p.config.alg_vad_enable then false else p.state.dataOutput
      canceled := false
      awke := false }
    m_pMem_vad2 := p.m_pMem_vad2.reset
    m_pMem_cod := p.m_pMem_cod.reset
    m_pMmem_bf := p.m_pMmem_bf.reset }

/-- The block `if (pre)`: restart everything on the audio of the word. After a
    sleep word the beamformed audio of the call itself is kept. -/
def onPre (p : SirenProcessorImpl F E) (w : WordFlags) (sig : Sig F) :
    Except Fault (SirenProcessorImpl F E × Sig F) := do
  if w.pre then
    let p := p.resetASR
    let p := { p with slinfo := p.m_pMmem_bf.m_fSlInfo }
    match p.m_pMem_vbv3.m_pWordDetInfo with
    | none => .error .nullWord
    | some det =>
        let p := { p with
          m_pMmem_bf := p.m_pMmem_bf.steer det.fWordSlInfo.1 det.fWordSlInfo.2 }
        let start := det.iWordPos_Start + 20 * frmSize
        let p :=
          if start > p.colNoNew then
            { p with
              colNoNew := (start * 2).toNat
              dataNoNew := fun _ _ => CFloat.ofInt 0 }
          else p
        let p := { p with dataNoNew := p.m_pMem_vbv3.GetLastAudio p.dataNoNew start 0 }
        if w.sleepNoCmd then return (p, sig)
        else
          let (m_pMmem_bf, out) ← p.m_pMmem_bf.process p.dataNoNew start
          let sig := sigOfList out
          return ({ p with m_pMmem_bf := m_pMmem_bf },
            { data := fun i =>
                scaleSample p.config.alg_bf_scaling (sig.data (15 * frmSize + i))
              len := sig.len - 15 * frmSize })
  else return (p, sig)

/-! ### Voice activity -/

/-- `r2mem_vad2` on the beamformed audio, forced to start by a pre event. -/
def runVad (p : SirenProcessorImpl F E) (w : WordFlags) (sig : Sig F) :
    Except Fault (SirenProcessorImpl F E × List F × VadResult) := do
  let (m_pMem_vad2, out, vad2) ← p.m_pMem_vad2.process sig.data sig.len false false w.pre
  return ({ p with m_pMem_vad2 := m_pMem_vad2 }, out, vad2)

/-- The block of `r2vad_audio_begin`. -/
def onBegin (p : SirenProcessorImpl F E) (asr : Bool) (w : WordFlags) (vad2 : VadResult) :
    Except Fault (SirenProcessorImpl F E) :=
  if vad2.audio_begin then
    let p := { p with
      state := { p.state with
        asr := asr
        vadStart := true
        dataOutput := false
        canceled := false
        awke := false }
      m_pMem_cod := p.m_pMem_cod.reset }
    if w.awakePre then
      let p := { p with state := { p.state with awke := true } }
      let p := p.addMsgSl .r2ad_awake_pre
      let p := p.addMsgStr .r2ad_debug_audio []
      match p.m_pMem_vbv3.m_pWordInfo with
      | none => .error .nullWord
      | some word => .ok { p with
          state := { p.state with lastAwakeInfo := cstr word.pWordContent_UTF8 } }
    else .ok p
  else .ok p

/-- `setvadendparam` on the VAD unit. -/
def setVadEnd (p : SirenProcessorImpl F E) (n : Int) : SirenProcessorImpl F E :=
  { p with m_pMem_vad2 := p.m_pMem_vad2.setvadendparam n }

/-- The blocks `if (noCmd)` and `if (cmd)`. -/
def onWord (p : SirenProcessorImpl F E) (w : WordFlags) : SirenProcessorImpl F E :=
  let vadEnd := fun p : SirenProcessorImpl F E =>
    if p.config.alg_vad_enable then p.setVadEnd (-1) else p.setVadEnd 2000
  let p :=
    if w.noCmd then
      let p := if w.sleepNoCmd then p.addMsgSl .r2ad_sleep else p
      let p := if w.awakeNoCmd then p.addMsgSl .r2ad_awake_nocmd else p
      let p := if w.hotwordNoCmd then p.addMsgSl .r2ad_hotword else p
      vadEnd p
    else p
  if w.cmd then
    let p := if w.awakeCmd then p.addMsgSl .r2ad_awake_cmd else p
    vadEnd p
  else p

/-! ### Output -/

/-- `if (!state.dataOutput)`: does the segment go out? Comparing the real
    direction with the steered one only changes the log. -/
def decideStart (p : SirenProcessorImpl F E) (w : WordFlags) : SirenProcessorImpl F E :=
  if p.state.dataOutput then p
  else if w.cmd || w.noCmd then
    let p := { p with state := { p.state with dataOutput := true } }
    if w.cmd then p.addMsgSl .r2ad_vad_start
    else { p with
      state := { p.state with canceled := true }
      m_pMem_cod := p.m_pMem_cod.pause }
  else if p.state.asr && !p.state.awke then
    let p := { p with m_pMem_vbv3 := (p.m_pMem_vbv3.GetRealSl 36).1 }
    let p := if p.config.alg_vad_enable then p else p.setVadEnd 2000
    let p := { p with state := { p.state with dataOutput := true } }
    p.addMsgSl .r2ad_vad_start
  else p

/-- The block `if (state.canceled)` behind the two reasons to cancel. -/
def cancelOutput (p : SirenProcessorImpl F E) : SirenProcessorImpl F E :=
  let q := { p with m_pMem_cod := p.m_pMem_cod.pause }.addMsg .r2ad_vad_cancel []
  if p.config.alg_vad_enable then q
  else
    let q := q.setVadEnd (-1)
    { q with state := { q.state with vadStart := false, dataOutput := false } }

/-- The first block of `if (state.dataOutput)`: cancel a segment that is too
    long or has lost its asr flag. -/
def decideCancel (p : SirenProcessorImpl F E) (asr : Bool) : SirenProcessorImpl F E :=
  if p.state.canceled then p
  else
    let tooLong := p.config.alg_vad_enable && p.m_pMem_cod.istoolong
    let noAsr := !p.state.awke && !asr
    if tooLong || noAsr then
      { p with state := { p.state with canceled := true } }.cancelOutput
    else p

/-- The second block: resume a canceled segment after a wake word. -/
def decideResume (p : SirenProcessorImpl F E) : Except Fault (SirenProcessorImpl F E) :=
  if p.config.alg_vad_enable && p.state.canceled && p.state.awke &&
      p.m_pMem_cod.isneedresume then do
    let p := { p with state := { p.state with canceled := false } }
    let m_pMem_cod ← p.m_pMem_cod.resume
    return { p with m_pMem_cod := m_pMem_cod }.addMsgSl .r2ad_vad_start
  else .ok p

/-- `if (getdatalen() > k) addMsg(r2ad_vad_data, unit.m_pMem_cod)`. -/
def dataIfAbove (p : SirenProcessorImpl F E) (k : Nat) :
    Except Fault (SirenProcessorImpl F E) := do
  let (n, cod) ← p.m_pMem_cod.getdatalen
  let p := { p with m_pMem_cod := cod }
  if n > k then p.addMsgCod .r2ad_vad_data else .ok p

/-- The third block: hand out encoded data. -/
def sendData (p : SirenProcessorImpl F E) (vad2 : VadResult) :
    Except Fault (SirenProcessorImpl F E) :=
  if p.state.canceled then .ok p
  else do
    let p ← p.dataIfAbove 100
    if vad2.audio_end then p.dataIfAbove 0 else .ok p

/-- `if (state.vadStart)`. -/
def onVadStart (p : SirenProcessorImpl F E) (asr : Bool) (w : WordFlags) (out : List F)
    (vad2 : VadResult) : Except Fault (SirenProcessorImpl F E) :=
  if p.state.vadStart then
    let p := { p with m_pMem_cod := p.m_pMem_cod.process out }
    let p := p.decideStart w
    if p.state.dataOutput then do
      let p ← (p.decideCancel asr).decideResume
      p.sendData vad2
    else .ok p
  else .ok p

/-- `if (state.awke)` at the end of speech: pause and resume the encoder. -/
def restartCod (p : SirenProcessorImpl F E) : Except Fault (SirenProcessorImpl F E) :=
  if p.state.awke then do
    let m_pMem_cod ← p.m_pMem_cod.pause.resume
    return { p with m_pMem_cod := m_pMem_cod }
  else .ok p

/-- The flags at the end of speech. -/
def endState (vt_enable : Bool) (state : ProcessState) : ProcessState :=
  let state := { state with awke := false }
  let state :=
    if vt_enable then { state with asr := false, vadStart := false, dataOutput := false }
    else state
  { state with canceled := false }

/-- The block of `r2vad_audio_end`. -/
def onEnd (p : SirenProcessorImpl F E) (vad2 : VadResult) :
    Except Fault (SirenProcessorImpl F E) :=
  if vad2.audio_end then do
    let p :=
      if p.state.dataOutput && !p.state.canceled then p.addMsg .r2ad_vad_end [] else p
    let p ← p.restartCod
    return { p with state := endState p.config.alg_vt_enable p.state }
  else .ok p

/-- `process`. -/
def process (p : SirenProcessorImpl F E) (c : Call) :
    Except Fault (SirenProcessorImpl F E) := do
  let asr := c.asrflag == 1
  let (p, len_mul) ← p.readInput c
  let (p, sig) ← p.beamform len_mul
  let (p, w) ← p.wakeWord c len_mul
  let (p, sig) ← p.onPre w sig
  let (p, out, vad2) ← p.runVad w sig
  let p ← p.onBegin asr w vad2
  let p ← (p.onWord w).onVadStart asr w out vad2
  p.onEnd vad2

/-! ### The other calls -/

/-- `setState`. -/
def setState (p : SirenProcessorImpl F E) (awake_state : R2vSysState) :
    SirenProcessorImpl F E :=
  if awake_state = .r2ssp_state_sleep ∧ p.state.awke then
    { p with state := { p.state with awke := false } }
  else p

/-- `setSLSteer`. -/
def setSLSteer (p : SirenProcessorImpl F E) (ho ver : F) : SirenProcessorImpl F E :=
  { p with m_pMmem_bf := p.m_pMmem_bf.steer ho ver }

/-- `syncVTWord`: the words of the configuration, then those given. -/
def syncVTWord (p : SirenProcessorImpl F E) (words : List (SirenVTWord F)) :
    Except Fault (SirenProcessorImpl F E) := do
  let defaults ← p.config.def_vt_configs.mapM wordInfoOfDefault
  let added ← words.mapM wordInfoOfVTWord
  let m_pWordLst := defaults ++ added
  return { p with
    m_pWordLst := m_pWordLst
    m_pMem_vbv3 := p.m_pMem_vbv3.SetWords m_pWordLst }

omit [CFloat F] in
/-- A `syncVTWord` that returns has replaced the words. -/
theorem syncVTWord_eq_ok {p p' : SirenProcessorImpl F E} {words : List (SirenVTWord F)}
    (h : p.syncVTWord words = .ok p') : ∃ defaults added,
      p.config.def_vt_configs.mapM wordInfoOfDefault = .ok defaults ∧
        words.mapM wordInfoOfVTWord = .ok added ∧ p' = { p with
          m_pWordLst := defaults ++ added
          m_pMem_vbv3 := p.m_pMem_vbv3.SetWords (defaults ++ added) } := by
  unfold syncVTWord at h
  obtain ⟨defaults, hdefaults, h⟩ := bind_eq_ok.mp h
  obtain ⟨added, hadded, h⟩ := bind_eq_ok.mp h
  exact ⟨defaults, added, hdefaults, hadded, (Except.ok.inj h).symm⟩

/-- `dumpMsg`: the new `asrMsgCheckFlag`, and whether "asrflag error" is
    logged. -/
def dumpMsg (asrMsgCheckFlag : Int) (msg : R2adMsgBlock) : Int × Bool :=
  match msg.iMsgId with
  | .r2ad_vad_start => (1, asrMsgCheckFlag != 0)
  | .r2ad_vad_data => (asrMsgCheckFlag, asrMsgCheckFlag != 1)
  | .r2ad_vad_end => (0, asrMsgCheckFlag != 1)
  | .r2ad_vad_cancel => (0, false)
  | _ => (asrMsgCheckFlag, false)

/-- `dumpMsg` on a list of messages: the final flag and the number of errors. -/
def dumpMsgs : Int → List R2adMsgBlock → Int × Nat
  | flag, [] => (flag, 0)
  | flag, m :: ms =>
      let (flag, err) := dumpMsg flag m
      let (flag, n) := dumpMsgs flag ms
      (flag, n + err.toNat)

/-- `getMsgs`: the messages of the last call, and the errors `dumpMsg` logs on
    the way. -/
def getMsgs (p : SirenProcessorImpl F E) :
    SirenProcessorImpl F E × List R2adMsgBlock × Nat :=
  let (flag, errors) := dumpMsgs p.state.asrMsgCheckFlag p.msgLst
  ({ p with state := { p.state with asrMsgCheckFlag := flag } }, p.msgLst, errors)

end SirenProcessorImpl

end BlackSiren

import BlackSiren.Config.Load
import BlackSiren.Legacy.Aec
import BlackSiren.Legacy.In
import BlackSiren.Legacy.Out
import BlackSiren.Legacy.Rdc
import BlackSiren.Legacy.Rs2

/-! # `SirenPreprocessorImpl`: from the microphones to packages

    The unit chain in front of the processor: sample conversion, resampling,
    calibration, echo cancellation, and back to bytes.  The first samples it puts
    out are replaced by the verdict of the calibration.

    - `init`
    - `processData`, `getResultLen`, `getResult`
    - `preprocess`: one frame, and the package it may give

    Left out: the recording of audio to files and the log texts.
-/

namespace BlackSiren

/-- The code outside the repository. -/
structure PreEngines (F : Type) where
  rs : RsEngine F
  aec : AecEngine F
  /-- `__ARM_ARCH_ARM__`: the echo canceller is given its processors. -/
  arm : Bool

/-- `PreprocessorMicInfoAdapter`. -/
structure PreprocessorMicInfoAdapter where
  m_pMicInfo_in : MicInfo
  m_pMicInfo_rs : MicInfo
  m_pMicInfo_aec : MicInfo
  m_pMicInfo_aec_ref : MicInfo
  m_pCpuInfo_aec : MicInfo
  deriving DecidableEq

/-- `SirenPreprocessorImpl`, with the members of `unit`. -/
structure SirenPreprocessorImpl (F D : Type) (E : PreEngines F) where
  config : ConfigIf.SirenConfig F D
  m_pMem_in : R2memI F
  m_pMem_rs : R2memRs2 F E.rs
  m_pMem_rdc : R2memRdc F D
  m_pMem_aec : R2memAec F E.aec
  m_pMem_out : R2memO
  m_pMem_buff : R2memBuff
  firstFrm : Bool
  doAEC : Bool

/-- `PreprocessVoicePackage` of a frame. -/
structure PreprocessVoicePackage where
  aec : Int
  data : List UInt8
  deriving DecidableEq

namespace SirenPreprocessorImpl

variable {F D : Type} [CFloat F] [CDouble F D] {E : PreEngines F}

/-! ### Initialisation -/

/-- A list of the configuration, null when it is empty. -/
def micInfo (l : List Int) : MicInfo := if l.isEmpty then none else some l

/-- The echo canceller's list, and `doAEC`. An empty list clears the ids of the
    resampler's, through its pointer; they are not read again, since the
    constructors fail without this list. -/
def aecInfo (cfg : ConfigIf.SirenConfig F D) (rs : MicInfo) : Except NullMicInfo (MicInfo × Bool) :=
  if cfg.alg_config.alg_aec then
    if cfg.alg_config.alg_aec_mics.isEmpty then do
      let _ ← rs.get
      return (none, false)
    else .ok (some cfg.alg_config.alg_aec_mics, true)
  else .ok (none, false)

/-- The type of the samples; `none` for a width that is not supported. -/
def inType (cfg : ConfigIf.SirenConfig F D) : Option R2InType :=
  if cfg.mic_audio_byte = 3 then some .r2_in_int_24
  else if cfg.mic_num = 10 ∧ cfg.mic_audio_byte = 4 then some .r2_in_int_32_10
  else if cfg.mic_audio_byte = 4 then some .r2_in_int_32
  else none

/-- The microphone lists of `init`, and `doAEC`. -/
def initMicInfo (cfg : ConfigIf.SirenConfig F D) :
    Except NullMicInfo (PreprocessorMicInfoAdapter × Bool) := do
  let m_pMicInfo_rs := micInfo cfg.alg_config.alg_rs_mics
  let (m_pMicInfo_aec, doAEC) ← aecInfo cfg m_pMicInfo_rs
  let (m_pMicInfo_aec_ref, doAEC) :=
    if doAEC then
      let ref := micInfo cfg.alg_config.alg_aec_ref_mics
      (ref, ref.isSome)
    else (none, false)
  return ({
    m_pMicInfo_in := some ((List.range cfg.mic_num.toNat).map Int.ofNat)
    m_pMicInfo_rs := m_pMicInfo_rs
    m_pMicInfo_aec := m_pMicInfo_aec
    m_pMicInfo_aec_ref := m_pMicInfo_aec_ref
    m_pCpuInfo_aec := if doAEC then some cfg.alg_config.alg_aec_aff_cpus else none }, doAEC)

/-- The processors the echo canceller is given. -/
def affineCpus (E : PreEngines F) (micinfo : PreprocessorMicInfoAdapter) :
    Except NullMicInfo (Option MicIdLst) :=
  if E.arm then micinfo.m_pCpuInfo_aec.get.map some else .ok none

/-- The constructors of the units, each reading the lists it is given. -/
def initUnits (cfg : ConfigIf.SirenConfig F D) (in_type : R2InType)
    (micinfo : PreprocessorMicInfoAdapter) (doAEC : Bool) :
    Except NullMicInfo (SirenPreprocessorImpl F D E) := do
  let mics_in ← micinfo.m_pMicInfo_in.get
  let mics_rs ← micinfo.m_pMicInfo_rs.get
  let mics_rdc ← micinfo.m_pMicInfo_aec.get
  let cpus ← affineCpus E micinfo
  let mics_aec ← micinfo.m_pMicInfo_aec.get
  let mics_ref ← micinfo.m_pMicInfo_aec_ref.get
  let mics_out ← micinfo.m_pMicInfo_aec.get
  return {
    config := cfg
    m_pMem_in := R2memI.new in_type mics_in
    m_pMem_rs := R2memRs2.new mics_rs false
    m_pMem_rdc := R2memRdc.new mics_rdc 16000
    m_pMem_aec := R2memAec.new mics_aec mics_ref cpus
    m_pMem_out := ⟨mics_out⟩
    m_pMem_buff := R2memBuff.new
    firstFrm := true
    doAEC := doAEC }

/-- The second half of `init`, behind the microphone lists. -/
def initType (cfg : ConfigIf.SirenConfig F D) (micinfo : PreprocessorMicInfoAdapter)
    (doAEC : Bool) : Except NullMicInfo (Option (SirenPreprocessorImpl F D E)) :=
  match inType cfg with
  | none => .ok none
  | some in_type => (initUnits cfg in_type micinfo doAEC).map some

/-- `init`; `none` is the result -1. -/
def init (cfg : ConfigIf.SirenConfig F D) :
    Except NullMicInfo (Option (SirenPreprocessorImpl F D E)) :=
  if cfg.mic_num > 0 then do
    let (micinfo, doAEC) ← initMicInfo cfg
    initType cfg micinfo doAEC
  else .ok none

/-! ### Data -/

/-- The verdict of the calibration, as the first sample of each channel. -/
def markMics (p : SirenPreprocessorImpl F D E) (pData_mul : Chan F) : Chan F :=
  (p.config.alg_config.alg_aec_mics.zip p.m_pMem_rdc.m_bMicOk).foldl (fun d r => fun id i =>
    if id = r.1 ∧ i = 0 then
      if r.2 then CFloat.ofInt 1 else CFloat.ofInt 0
    else d id i) pData_mul

/-- The echo canceller, if there is one: the channels it puts out are its own,
    and without it those of the resampler. -/
def cancelEcho (p : SirenPreprocessorImpl F D E) (n : Nat) :
    SirenPreprocessorImpl F D E × Nat × Int :=
  if p.doAEC then
    let (m_pMem_aec, n, rt) := p.m_pMem_aec.process p.m_pMem_rs.m_pData_Out n
    ({ p with m_pMem_aec := m_pMem_aec }, n, rt)
  else (p, n, 0)

/-- `pData_mul` behind the echo canceller. -/
def dataMul (p : SirenPreprocessorImpl F D E) : Chan F :=
  if p.doAEC then p.m_pMem_aec.m_pData_Out else p.m_pMem_rs.m_pData_Out

/-- A change to `pData_mul`, in the array it is. -/
def setDataMul (p : SirenPreprocessorImpl F D E) (d : Chan F) : SirenPreprocessorImpl F D E :=
  if p.doAEC then { p with m_pMem_aec := { p.m_pMem_aec with m_pData_Out := d } }
  else { p with m_pMem_rs := { p.m_pMem_rs with m_pData_Out := d } }

/-- The first samples put out, with the verdict in front. -/
def markFirst (p : SirenPreprocessorImpl F D E) (n : Nat) : SirenPreprocessorImpl F D E :=
  if n > 0 ∧ p.firstFrm = true then
    let p := { p with firstFrm := false }
    p.setDataMul (p.markMics p.dataMul)
  else p

/-- `processData` with its four arguments: the bytes and the result. -/
def processData' (p : SirenPreprocessorImpl F D E) (pDataIn : Nat → UInt8) (lenIn : Int) :
    Except Fault (SirenPreprocessorImpl F D E × List UInt8 × Int) := do
  let (m_pMem_in, n) ← p.m_pMem_in.process pDataIn lenIn
  let (m_pMem_rs, n) := p.m_pMem_rs.process m_pMem_in.m_pData_Out n
  let (m_pMem_rdc, d, n) := p.m_pMem_rdc.process m_pMem_rs.m_pData_Out n
  let p := { p with
    m_pMem_in := m_pMem_in
    m_pMem_rs := { m_pMem_rs with m_pData_Out := d }
    m_pMem_rdc := m_pMem_rdc }
  let (p, n, rt) := p.cancelEcho n
  let p := p.markFirst n
  return (p, p.m_pMem_out.process p.dataMul n, rt)

/-- `processData`. -/
def processData (p : SirenPreprocessorImpl F D E) (pDataIn : Nat → UInt8) (lenIn : Int) :
    Except Fault (SirenPreprocessorImpl F D E × Int) := do
  let (p, pDataOut, rt) ← p.processData' pDataIn lenIn
  return ({ p with m_pMem_buff := p.m_pMem_buff.put pDataOut }, rt)

/-- `getResultLen`. -/
def getResultLen (p : SirenPreprocessorImpl F D E) : Nat := p.m_pMem_buff.getdatalen

/-- `getResult`. -/
def getResult (p : SirenPreprocessorImpl F D E) (lenOut : Nat) :
    List UInt8 × SirenPreprocessorImpl F D E :=
  let (data, m_pMem_buff) := p.m_pMem_buff.getdata lenOut
  (data, { p with m_pMem_buff := m_pMem_buff })

/-- `SirenAudioPreProcessor::preprocess`: the package, if there is a result. -/
def preprocess (p : SirenPreprocessorImpl F D E) (rawBuffer : Nat → UInt8) (frameSize : Int) :
    Except Fault (SirenPreprocessorImpl F D E × Option PreprocessVoicePackage) := do
  let (p, aec) ← p.processData rawBuffer frameSize
  let len := p.getResultLen
  if len = 0 then return (p, none)
  else
    let (data, p) := p.getResult len
    return (p, some ⟨aec, data⟩)

end SirenPreprocessorImpl

end BlackSiren

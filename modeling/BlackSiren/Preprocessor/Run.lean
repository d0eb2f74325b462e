import BlackSiren.Framework.Access
import BlackSiren.Preprocessor.Init

/-! # Runs of the preprocessor

    `SirenBase::loopRecording` hands frame after frame to `preprocess` and pushes
    the packages it gets.

    - `feed`: a sequence of frames, and their packages
    - `init_eq_some`: the units `init` has built
    - `returns_feed_iff`: when no assertion fails in a run
-/

namespace BlackSiren

namespace SirenPreprocessorImpl

variable {F D : Type} [CFloat F] [CDouble F D] {E : PreEngines F}

/-- The arguments of `preprocess`. -/
structure RawFrame where
  rawBuffer : Nat → UInt8
  frameSize : Int

/-- `loopRecording`: the preprocessor after some frames, and the packages it has
    given. -/
def feed (p : SirenPreprocessorImpl F D E) :
    List RawFrame → Except Fault (SirenPreprocessorImpl F D E × List PreprocessVoicePackage)
  | [] => .ok (p, [])
  | f :: fs => do
      let (p, package) ← p.preprocess f.rawBuffer f.frameSize
      let (p, packages) ← feed p fs
      return (p, package.toList ++ packages)

/-! ### The units -/

/-- The units of a preprocessor with configuration `cfg`. -/
def built (cfg : ConfigIf.SirenConfig F D) (in_type : R2InType) (cpus : Option MicIdLst) :
    SirenPreprocessorImpl F D E where
  config := cfg
  m_pMem_in := R2memI.new in_type ((List.range cfg.mic_num.toNat).map Int.ofNat)
  m_pMem_rs := R2memRs2.new cfg.alg_config.alg_rs_mics false
  m_pMem_rdc := R2memRdc.new cfg.alg_config.alg_aec_mics 16000
  m_pMem_aec := R2memAec.new cfg.alg_config.alg_aec_mics cfg.alg_config.alg_aec_ref_mics cpus
  m_pMem_out := ⟨cfg.alg_config.alg_aec_mics⟩
  m_pMem_buff := R2memBuff.new
  firstFrm := true
  doAEC := true

/-- An `init` that has succeeded has found its lists and has built these units;
    echo cancellation is on. -/
theorem init_eq_some {cfg : ConfigIf.SirenConfig F D} {p : SirenPreprocessorImpl F D E}
    (h : init cfg = .ok (some p)) : 0 < cfg.mic_num ∧ HasLists cfg ∧
      ∃ in_type cpus, inType cfg = some in_type ∧ p = built cfg in_type cpus := by
  have hsafe := (init_safe_iff E cfg).mp ⟨_, h⟩
  have hnum : cfg.mic_num > 0 := by
    by_contra hle
    unfold init at h
    rw [if_neg hle] at h
    cases h
  have htype : inType cfg ≠ none := by
    intro htype
    unfold init at h
    rw [if_pos hnum] at h
    cases hinfo : initMicInfo cfg with
    | error e =>
      rw [hinfo] at h
      cases h
    | ok r =>
      rw [hinfo] at h
      change initType cfg r.1 r.2 = _ at h
      unfold initType at h
      rw [htype] at h
      cases h
  -- of the three ways to return two give no preprocessor
  have hlists : HasLists cfg := by
    rcases hsafe with hle | ⟨h3, h4, _⟩ | hlists
    · omega
    · exact absurd (inType_eq_none_iff.mpr ⟨h3, h4⟩) htype
    · exact hlists
  refine ⟨hnum, hlists, ?_⟩
  obtain ⟨in_type, htype⟩ := Option.ne_none_iff_exists'.mp htype
  unfold init at h
  rw [if_pos hnum, initMicInfo_of_aec ⟨hlists.aec, hlists.aec_mics⟩,
    micInfo_of_ne_nil hlists.rs, micInfo_of_ne_nil hlists.aec_ref_mics] at h
  change initType cfg _ true = _ at h
  unfold initType at h
  rw [htype] at h
  unfold initUnits affineCpus at h
  by_cases harm : E.arm = true
  · rw [if_pos harm] at h
    cases h
    exact ⟨in_type, _, htype, rfl⟩
  · rw [if_neg harm] at h
    cases h
    exact ⟨in_type, _, htype, rfl⟩

/-! ### A frame -/

/-- The stages between the sample conversion and the echo canceller: the samples
    left in each channel. -/
def calibrated (p : SirenPreprocessorImpl F D E) (m_pMem_in : R2memI F) (n : Nat) :
    SirenPreprocessorImpl F D E × Nat :=
  let (m_pMem_rs, n) := p.m_pMem_rs.process m_pMem_in.m_pData_Out n
  let (m_pMem_rdc, d, n) := p.m_pMem_rdc.process m_pMem_rs.m_pData_Out n
  ({ p with
    m_pMem_in := m_pMem_in
    m_pMem_rs := { m_pMem_rs with m_pData_Out := d }
    m_pMem_rdc := m_pMem_rdc }, n)

/-- The stages behind the echo canceller, up to the buffer. -/
def emit (p : SirenPreprocessorImpl F D E) (n : Nat) : SirenPreprocessorImpl F D E :=
  let p := p.markFirst n
  { p with m_pMem_buff := p.m_pMem_buff.put (p.m_pMem_out.process p.dataMul n) }

/-- The package made of what is in the buffer. -/
def fetch (p : SirenPreprocessorImpl F D E) (aec : Int) :
    SirenPreprocessorImpl F D E × Option PreprocessVoicePackage :=
  let len := p.getResultLen
  if len = 0 then (p, none)
  else
    let (data, p) := p.getResult len
    (p, some ⟨aec, data⟩)

/-- `preprocess` behind the sample conversion. -/
def converted (p : SirenPreprocessorImpl F D E) (m_pMem_in : R2memI F) (n : Nat) :
    SirenPreprocessorImpl F D E × Option PreprocessVoicePackage :=
  let (p, n) := p.calibrated m_pMem_in n
  let (p, n, aec) := p.cancelEcho n
  (p.emit n).fetch aec

/-- Only the sample conversion can fail. -/
theorem preprocess_eq (p : SirenPreprocessorImpl F D E) (rawBuffer : Nat → UInt8)
    (frameSize : Int) : p.preprocess rawBuffer frameSize = do
      let r ← p.m_pMem_in.process rawBuffer frameSize
      return p.converted r.1 r.2 := by
  have hfetch : p.preprocess rawBuffer frameSize = do
      let r ← p.processData rawBuffer frameSize
      return r.1.fetch r.2 := by
    unfold preprocess
    cases p.processData rawBuffer frameSize with
    | error e => rfl
    | ok r =>
      show (if r.1.getResultLen = 0 then _ else _) = Except.ok (r.1.fetch r.2)
      -- `getResult` is asked for all that is there
      unfold fetch
      dsimp only
      by_cases hlen : r.1.getResultLen = 0
      · rw [if_pos hlen, if_pos hlen]
        rfl
      · rw [if_neg hlen, if_neg hlen]
        rfl
  rw [hfetch]
  unfold processData processData'
  cases p.m_pMem_in.process rawBuffer frameSize with
  | error e => rfl
  | ok r => rfl

/-! ### Assertions -/

/-- The assertions of `r2mem_i::process` on a frame of `len` bytes. -/
structure Whole (sampleFrame : Nat) (len : Int) : Prop where
  lenIn : 0 ≤ len
  frameLen : len.toNat % sampleFrame = 0

omit [CFloat F] [CDouble F D] in
theorem returns_assertThat_iff {c : Bool} {f : Fault} :
    Access.Returns (assertThat c f) ↔ c = true := by
  constructor
  · rintro ⟨_, h⟩
    exact assertThat_eq_ok.mp h
  · intro h
    exact ⟨(), assertThat_eq_ok.mpr h⟩

/-- `r2mem_i` on a list of microphones that is not empty. -/
theorem returns_process_iff {u : R2memI F} (hmics : u.m_pMicInfo_In ≠ [])
    {pData_In : Nat → UInt8} {iLen_In : Int} :
    Access.Returns (u.process pData_In iLen_In) ↔
      Whole (u.m_iInType.size * u.m_pMicInfo_In.length) iLen_In := by
  have hnum : u.m_pMicInfo_In.length ≠ 0 := by
    intro h
    exact hmics (List.length_eq_zero_iff.mp h)
  unfold R2memI.process
  dsimp only
  -- the three assertions do not depend on one another
  rw [Access.returns_bind_and
    (P := iLen_In.toNat % (u.m_iInType.size * u.m_pMicInfo_In.length) = 0),
    returns_assertThat_iff]
  · constructor
    · rintro ⟨hlen, hframe⟩
      exact ⟨of_decide_eq_true hlen, hframe⟩
    · rintro ⟨hlen, hframe⟩
      exact ⟨decide_eq_true hlen, hframe⟩
  · intro _ _
    rw [Access.returns_bind_and
      (P := iLen_In.toNat % (u.m_iInType.size * u.m_pMicInfo_In.length) = 0),
      returns_assertThat_iff]
    · exact ⟨fun h => h.2, fun h => ⟨decide_eq_true hnum, h⟩⟩
    · intro _ _
      rw [Access.returns_bind_pure_iff, returns_assertThat_iff, decide_eq_true_iff]

omit [CDouble F D] in
theorem markFirst_in (p : SirenPreprocessorImpl F D E) (n : Nat) :
    (p.markFirst n).m_pMem_in = p.m_pMem_in := by
  unfold markFirst setDataMul
  split
  · dsimp only
    split <;> rfl
  · rfl

omit [CDouble F D] in
theorem cancelEcho_in (p : SirenPreprocessorImpl F D E) (n : Nat) :
    (p.cancelEcho n).1.m_pMem_in = p.m_pMem_in := by
  unfold cancelEcho
  split <;> rfl

omit [CFloat F] [CDouble F D] in
theorem fetch_in (p : SirenPreprocessorImpl F D E) (aec : Int) :
    (p.fetch aec).1.m_pMem_in = p.m_pMem_in := by
  unfold fetch
  dsimp only
  split <;> rfl

theorem converted_in (p : SirenPreprocessorImpl F D E) (m_pMem_in : R2memI F) (n : Nat) :
    (p.converted m_pMem_in n).1.m_pMem_in = m_pMem_in := by
  unfold converted
  rw [fetch_in]
  show (markFirst _ _).m_pMem_in = m_pMem_in
  rw [markFirst_in, cancelEcho_in]
  rfl

/-- The unit in front is the one the sample conversion has returned. -/
theorem preprocess_eq_ok {p p' : SirenPreprocessorImpl F D E} {rawBuffer : Nat → UInt8}
    {frameSize : Int} {package : Option PreprocessVoicePackage}
    (h : p.preprocess rawBuffer frameSize = .ok (p', package)) :
    ∃ n, p.m_pMem_in.process rawBuffer frameSize = .ok (p'.m_pMem_in, n) ∧
      p.converted p'.m_pMem_in n = (p', package) := by
  rw [preprocess_eq] at h
  obtain ⟨⟨m_pMem_in, n⟩, hin, h⟩ := bind_eq_ok.mp h
  have hconv : p.converted m_pMem_in n = (p', package) := Except.ok.inj h
  have hsame : p'.m_pMem_in = m_pMem_in := by
    rw [← converted_in p m_pMem_in n, hconv]
  rw [hsame]
  exact ⟨n, hin, hconv⟩

theorem feed_singleton {p p' : SirenPreprocessorImpl F D E} {f : RawFrame}
    {package : Option PreprocessVoicePackage}
    (h : p.preprocess f.rawBuffer f.frameSize = .ok (p', package)) :
    p.feed [f] = .ok (p', package.toList) := by
  unfold feed
  rw [h]
  show Except.ok (p', package.toList ++ []) = _
  rw [List.append_nil]

/-- A run returns if every frame is whole, and only then. -/
theorem returns_feed_iff {p : SirenPreprocessorImpl F D E} (hmics : p.m_pMem_in.m_pMicInfo_In ≠ [])
    {frames : List RawFrame} : Access.Returns (p.feed frames) ↔ ∀ f ∈ frames,
      Whole (p.m_pMem_in.m_iInType.size * p.m_pMem_in.m_pMicInfo_In.length) f.frameSize := by
  induction frames generalizing p with
  | nil => exact ⟨fun _ => by simp, fun _ => Access.returns_ok _⟩
  | cons f fs ih =>
    have hfirst : Access.Returns (p.preprocess f.rawBuffer f.frameSize) ↔
        Whole (p.m_pMem_in.m_iInType.size * p.m_pMem_in.m_pMicInfo_In.length) f.frameSize := by
      rw [preprocess_eq, ← returns_process_iff hmics]
      exact Access.returns_bind_pure_iff
    rw [List.forall_mem_cons, ← hfirst]
    unfold feed
    apply Access.returns_bind_and
    rintro ⟨p', package⟩ h
    -- the later frames are read in the same format
    obtain ⟨n, hin, _⟩ := preprocess_eq_ok h
    obtain ⟨htype, hlist⟩ := R2memI.process_format hin
    rw [← hlist] at hmics
    rw [← htype, ← hlist, ← ih hmics]
    exact Access.returns_bind_pure_iff

end SirenPreprocessorImpl

end BlackSiren

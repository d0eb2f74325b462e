import BlackSiren.Framework.CInt
import BlackSiren.Preprocessor.Run
import BlackSiren.Recording.Stream

/-! # The size of a frame

    `RecordingThread` and `SirenBase` compute it by the same two divisions from
    four numbers of the configuration; `r2mem_i` asserts that what it is given
    divides into sample frames of a fifth, `mic_num`.

    - `frameSize`: the computation, with C's traps
    - `Joint`: how the five numbers have to go together
    - `wholeFrames_iff`: when the computation is defined and no assertion fails in
      any run on frames of that size
-/

namespace BlackSiren

open Access

namespace ConfigIf.SirenConfig

variable {F D : Type}

/-- `frameSize`, in the constructors of `RecordingThread` and of `SirenBase`. -/
def frameSize (config : ConfigIf.SirenConfig F D) : Except CInt.Trap Int := do
  let frameLenInMs ← CInt.div 1000 config.mic_frame_length
  let perSecond ← CInt.mul config.mic_channel_num config.mic_sample_rate
  let perSecond ← CInt.mul perSecond config.mic_audio_byte
  CInt.div perSecond frameLenInMs

/-- The bytes of a second. -/
def byteRate (config : ConfigIf.SirenConfig F D) : Int :=
  config.mic_channel_num * config.mic_sample_rate * config.mic_audio_byte

/-- The divisor of the byte rate, without its sign. -/
def framesPerSecond (config : ConfigIf.SirenConfig F D) : Nat :=
  1000 / config.mic_frame_length.natAbs

/-- The five numbers go together: a frame lasts at most a second; the rates are
    in the range of an `int`, and that of the bytes has the sign of the frame
    length; a frame has at least one byte and at most an `int` of them; and the
    bytes of a second leave, divided by one sample frame of `mic_num` samples for
    each frame, a remainder that is lost in the division by the frames. -/
structure Joint (config : ConfigIf.SirenConfig F D) : Prop where
  nonzero : config.mic_frame_length ≠ 0
  second : config.mic_frame_length.natAbs ≤ 1000
  sampleRate : CInt.Fits (config.mic_channel_num * config.mic_sample_rate)
  byteRate : CInt.Fits config.byteRate
  sign : 0 < config.byteRate * config.mic_frame_length
  byte : config.framesPerSecond ≤ config.byteRate.natAbs
  int : config.byteRate.natAbs < config.framesPerSecond * 2 ^ 31
  whole : config.byteRate.natAbs %
    (config.framesPerSecond * (config.mic_audio_byte * config.mic_num).natAbs) <
      config.framesPerSecond

variable {config : ConfigIf.SirenConfig F D}

theorem frameSize_eq_ok_iff {n : Int} : config.frameSize = .ok n ↔
    ∃ len, CInt.div 1000 config.mic_frame_length = .ok len ∧
      CInt.Fits (config.mic_channel_num * config.mic_sample_rate) ∧
        CInt.Fits config.byteRate ∧ CInt.div config.byteRate len = .ok n := by
  unfold frameSize
  constructor
  · intro h
    obtain ⟨len, hlen, h⟩ := Access.bind_eq_ok.mp h
    obtain ⟨rate, hr, h⟩ := Access.bind_eq_ok.mp h
    obtain ⟨bytes, hb, h⟩ := Access.bind_eq_ok.mp h
    obtain ⟨hrate, rfl⟩ := CInt.mul_eq_ok_iff.mp hr
    obtain ⟨hbytes, rfl⟩ := CInt.mul_eq_ok_iff.mp hb
    exact ⟨len, hlen, hrate, hbytes, h⟩
  · rintro ⟨len, hlen, hrate, hbytes, h⟩
    apply Access.bind_eq_ok.mpr
    refine ⟨len, hlen, Access.bind_eq_ok.mpr ?_⟩
    refine ⟨_, CInt.mul_eq_ok_iff.mpr ⟨hrate, rfl⟩, Access.bind_eq_ok.mpr ?_⟩
    exact ⟨_, CInt.mul_eq_ok_iff.mpr ⟨hbytes, rfl⟩, h⟩

/-- The divisor of the byte rate is zero beyond a second, and has the sign of the
    frame length up to there. -/
theorem frameLen_eq_ok_iff {len : Int} : CInt.div 1000 config.mic_frame_length = .ok len ↔
    config.mic_frame_length ≠ 0 ∧ len = Int.tdiv 1000 config.mic_frame_length := by
  have habs := Int.natAbs_tdiv_le_natAbs 1000 config.mic_frame_length
  rw [CInt.div_eq_ok_iff]
  constructor
  · rintro ⟨hf, _, h⟩
    exact ⟨hf, h⟩
  · rintro ⟨hf, h⟩
    refine ⟨hf, ⟨?_, ?_⟩, h⟩
    · omega
    · omega

/-- The computation is defined, and its result a positive number of sample
    frames of `q` bytes. -/
theorem frameSize_dvd_iff {q : Int} :
    (∃ n, config.frameSize = .ok n ∧ 0 < n ∧ q ∣ n) ↔
      config.mic_frame_length ≠ 0 ∧ config.mic_frame_length.natAbs ≤ 1000 ∧
        CInt.Fits (config.mic_channel_num * config.mic_sample_rate) ∧
          CInt.Fits config.byteRate ∧ 0 < config.byteRate * config.mic_frame_length ∧
            config.framesPerSecond ≤ config.byteRate.natAbs ∧
              config.byteRate.natAbs < config.framesPerSecond * 2 ^ 31 ∧
                config.byteRate.natAbs % (config.framesPerSecond * q.natAbs) <
                  config.framesPerSecond := by
  have habs : (Int.tdiv 1000 config.mic_frame_length).natAbs = config.framesPerSecond :=
    Int.natAbs_tdiv 1000 config.mic_frame_length
  constructor
  · rintro ⟨n, hn, hpos, hdvd⟩
    obtain ⟨len, hlen, hrate, hbytes, hdiv⟩ := frameSize_eq_ok_iff.mp hn
    obtain ⟨hf, rfl⟩ := frameLen_eq_ok_iff.mp hlen
    obtain ⟨hlen, _, rfl⟩ := CInt.div_eq_ok_iff.mp hdiv
    obtain ⟨hsign, hle, hlt⟩ := CInt.exists_div_pos_iff.mp ⟨_, hdiv, hpos⟩
    rw [CInt.dvd_tdiv_iff hlen] at hdvd
    rw [habs] at hle hlt hdvd
    have hsecond : config.mic_frame_length.natAbs ≤ 1000 := by
      by_contra hgt
      have hzero : config.framesPerSecond = 0 := Nat.div_eq_of_lt (Nat.not_le.mp hgt)
      omega
    rw [CInt.mul_tdiv_pos_iff (b := 1000) (by decide) hf hsecond] at hsign
    exact ⟨hf, hsecond, hrate, hbytes, hsign, hle, hlt, hdvd⟩
  · rintro ⟨hf, hsecond, hrate, hbytes, hsign, hle, hlt, hdvd⟩
    have hpos : 0 < config.framesPerSecond :=
      Nat.div_pos hsecond (Int.natAbs_pos.mpr hf)
    have hlen : Int.tdiv 1000 config.mic_frame_length ≠ 0 := by omega
    rw [← CInt.mul_tdiv_pos_iff (b := 1000) (by decide) hf hsecond] at hsign
    rw [← habs] at hle hlt hdvd
    obtain ⟨n, hn, hnpos⟩ := CInt.exists_div_pos_iff.mpr ⟨hsign, hle, hlt⟩
    refine ⟨n, ?_, hnpos, ?_⟩
    · exact frameSize_eq_ok_iff.mpr ⟨_, frameLen_eq_ok_iff.mpr ⟨hf, rfl⟩, hrate, hbytes, hn⟩
    · rw [(CInt.div_eq_ok_iff.mp hn).2.2, CInt.dvd_tdiv_iff hlen]
      exact hdvd

/-- The five numbers go together exactly if the size is a positive number of
    sample frames. -/
theorem joint_iff : Joint config ↔
    ∃ n, config.frameSize = .ok n ∧ 0 < n ∧ config.mic_audio_byte * config.mic_num ∣ n := by
  rw [frameSize_dvd_iff]
  constructor
  · intro h
    exact ⟨h.nonzero, h.second, h.sampleRate, h.byteRate, h.sign, h.byte, h.int, h.whole⟩
  · rintro ⟨h₁, h₂, h₃, h₄, h₅, h₆, h₇, h₈⟩
    exact ⟨h₁, h₂, h₃, h₄, h₅, h₆, h₇, h₈⟩

/-- On numbers that are not negative this is the size of the frames in the
    recording socket. -/
theorem frameSize_eq_stream {mic : MicConfig} {n : Int}
    (hchannels : config.mic_channel_num = mic.mic_channel_num)
    (hsample : config.mic_sample_rate = mic.mic_sample_rate)
    (hbyte : config.mic_audio_byte = mic.mic_audio_byte)
    (hlen : config.mic_frame_length = mic.mic_frame_length) (h : config.frameSize = .ok n) :
    n = mic.frameSize := by
  obtain ⟨len, hdiv, _, _, hn⟩ := frameSize_eq_ok_iff.mp h
  obtain ⟨_, rfl⟩ := frameLen_eq_ok_iff.mp hdiv
  obtain ⟨_, _, rfl⟩ := CInt.div_eq_ok_iff.mp hn
  unfold byteRate MicConfig.frameSize
  rw [hchannels, hsample, hbyte, hlen]
  rfl

end ConfigIf.SirenConfig

namespace SirenPreprocessorImpl

variable {F D : Type} [CFloat F] [CDouble F D] {E : PreEngines F}

/-- The size of a frame is defined, positive and a whole number of interleaved
    sample frames, and no run on frames of that size stops at an assertion. -/
def WholeFrames (cfg : ConfigIf.SirenConfig F D) (p : SirenPreprocessorImpl F D E) : Prop :=
  ∃ n, cfg.frameSize = .ok n ∧ 0 < n ∧ cfg.mic_audio_byte * cfg.mic_num ∣ n ∧
    ∀ frames : List RawFrame, (∀ f ∈ frames, f.frameSize = n) → Returns (p.feed frames)

omit [CFloat F] [CDouble F D] in
/-- The size of one interleaved sample frame is what `r2mem_i` divides by. -/
theorem sampleFrame_eq {cfg : ConfigIf.SirenConfig F D} {in_type : R2InType}
    (htype : inType cfg = some in_type) (hnum : 0 < cfg.mic_num) :
    cfg.mic_audio_byte * cfg.mic_num =
      ((in_type.size * ((List.range cfg.mic_num.toNat).map Int.ofNat).length : Nat) : Int) := by
  have hsize : cfg.mic_audio_byte = in_type.size := by
    unfold inType at htype
    split at htype
    · next h3 =>
      cases htype
      exact h3
    · split at htype
      · next h4 =>
        cases htype
        exact h4.2
      · split at htype
        · next h4 =>
          cases htype
          exact h4
        · cases htype
  rw [List.length_map, List.length_range, hsize]
  push_cast
  rw [Int.toNat_of_nonneg (Int.le_of_lt hnum)]

/-- A configuration that `init` accepts gives whole frames exactly if its five
    numbers go together. -/
theorem wholeFrames_iff {cfg : ConfigIf.SirenConfig F D} {p : SirenPreprocessorImpl F D E}
    (h : init cfg = .ok (some p)) : WholeFrames cfg p ↔ cfg.Joint := by
  obtain ⟨hnum, _, in_type, cpus, htype, rfl⟩ := init_eq_some h
  rw [ConfigIf.SirenConfig.joint_iff]
  constructor
  · rintro ⟨n, hn, hpos, hdvd, _⟩
    exact ⟨n, hn, hpos, hdvd⟩
  · rintro ⟨n, hn, hpos, hdvd⟩
    refine ⟨n, hn, hpos, hdvd, ?_⟩
    intro frames hframes
    have hmics : (List.range cfg.mic_num.toNat).map Int.ofNat ≠ [] := by
      intro hnil
      rw [List.map_eq_nil_iff, List.range_eq_nil] at hnil
      omega
    apply (returns_feed_iff hmics).mpr
    intro f hf
    rw [hframes f hf]
    refine ⟨Int.le_of_lt hpos, ?_⟩
    -- a divisor of the size as `r2mem_i` computes it
    rw [sampleFrame_eq htype hnum] at hdvd
    apply Nat.mod_eq_zero_of_dvd
    rw [← Int.natCast_dvd_natCast, Int.toNat_of_nonneg (Int.le_of_lt hpos)]
    exact hdvd

/-- The file of the board: frames of 480 sample frames. -/
theorem wholeFrames_mini : ∃ p : SirenPreprocessorImpl ℚ ℚ silentEngines,
    init (ConfigIf.Sample.config {}) = .ok (some p) ∧
      WholeFrames (ConfigIf.Sample.config {}) p := by
  refine ⟨_, rfl, (wholeFrames_iff rfl).mpr ?_⟩
  exact ⟨by decide, by decide, by decide, by decide, by decide, by decide, by decide, by decide⟩

/-- A file with frames of no length, which the loader and `init` take: both
    constructors divide by zero. -/
theorem frameSize_zero : ∃ (s : ConfigIf.Sample) (p : SirenPreprocessorImpl ℚ ℚ silentEngines),
    ConfigIf.loadConfigFromJSON s.env ConfigIf.Sample.mem ConfigIf.Sample.text
        (.new ConfigIf.Sample.mem) = (.CONFIG_OK, s.config) ∧
      init s.config = .ok (some p) ∧ s.config.frameSize = .error .divByZero ∧
        ¬ WholeFrames s.config p := by
  refine ⟨{ mic_frame_length := 0 }, _, ConfigIf.Sample.accepted _, rfl, rfl, ?_⟩
  rintro ⟨n, hn, _⟩
  cases hn

/- A file with one microphone less than channels: the first frame of its size
   aborts. -/
example : ∃ p : SirenPreprocessorImpl ℚ ℚ silentEngines,
    init (ConfigIf.Sample.config { mic_num := 7 }) = .ok (some p) ∧
      (ConfigIf.Sample.config { mic_num := 7 }).frameSize = .ok 15360 ∧
        p.feed [⟨fun _ => 0, 15360⟩] = .error .frameLen :=
  ⟨_, rfl, rfl, rfl⟩

end SirenPreprocessorImpl

end BlackSiren

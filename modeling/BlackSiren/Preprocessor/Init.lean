import BlackSiren.Config.Sample
import BlackSiren.Preprocessor.Impl

/-! # Null lists in `SirenPreprocessorImpl::init`

    Five lists may be null when the units are built, and the constructors read
    them without asking.

    - `HasLists`: the lists the constructors read
    - `init_safe_iff`: when `init` dereferences no null list
-/

namespace BlackSiren

namespace SirenPreprocessorImpl

variable {F D : Type} [CFloat F] [CDouble F D] {E : PreEngines F}

/-- The lists that must not be empty, and the echo cancellation that must be on. -/
structure HasLists (cfg : ConfigIf.SirenConfig F D) : Prop where
  rs : cfg.alg_config.alg_rs_mics ≠ []
  aec : cfg.alg_config.alg_aec = true
  aec_mics : cfg.alg_config.alg_aec_mics ≠ []
  aec_ref_mics : cfg.alg_config.alg_aec_ref_mics ≠ []

omit [CFloat F] [CDouble F D] in
theorem micInfo_eq_some {l mics : List Int} : micInfo l = some mics ↔ l ≠ [] ∧ l = mics := by
  unfold micInfo
  cases l with
  | nil =>
    constructor
    · intro h
      cases h
    · rintro ⟨h, _⟩
      exact absurd rfl h
  | cons a l =>
    constructor
    · intro h
      exact ⟨List.cons_ne_nil a l, Option.some.inj h⟩
    · rintro ⟨_, h⟩
      rw [← h]
      rfl

/-- An empty list for the echo canceller while the resampler has none either:
    `init` clears the ids of a list that is not there. -/
structure ClearsNull (cfg : ConfigIf.SirenConfig F D) : Prop where
  aec : cfg.alg_config.alg_aec = true
  aec_mics : cfg.alg_config.alg_aec_mics = []
  rs : cfg.alg_config.alg_rs_mics = []

omit [CFloat F] [CDouble F D] in
theorem micInfo_of_ne_nil {l : List Int} (h : l ≠ []) : micInfo l = some l :=
  micInfo_eq_some.mpr ⟨h, rfl⟩

/-- Echo cancellation is on and has microphones. -/
def HasAec (cfg : ConfigIf.SirenConfig F D) : Prop :=
  cfg.alg_config.alg_aec = true ∧ cfg.alg_config.alg_aec_mics ≠ []

/-! ### The lists -/

omit [CFloat F] [CDouble F D] in
theorem aecInfo_of_aec {cfg : ConfigIf.SirenConfig F D} (h : HasAec cfg) (rs : MicInfo) :
    aecInfo cfg rs = .ok (some cfg.alg_config.alg_aec_mics, true) := by
  have hnonempty : ¬ (cfg.alg_config.alg_aec_mics.isEmpty = true) := by
    simpa using h.2
  unfold aecInfo
  rw [if_pos h.1, if_neg hnonempty]

omit [CFloat F] [CDouble F D] in
theorem aecInfo_of_clears {cfg : ConfigIf.SirenConfig F D} (h : ClearsNull cfg) :
    aecInfo cfg (micInfo cfg.alg_config.alg_rs_mics) = .error .nullMicInfo := by
  unfold aecInfo
  rw [if_pos h.aec, h.aec_mics, h.rs]
  rfl

omit [CFloat F] [CDouble F D] in
theorem aecInfo_without_aec {cfg : ConfigIf.SirenConfig F D} (h : ¬ HasAec cfg)
    (hclear : ¬ ClearsNull cfg) :
    aecInfo cfg (micInfo cfg.alg_config.alg_rs_mics) = .ok (none, false) := by
  unfold aecInfo
  by_cases haec : cfg.alg_config.alg_aec = true
  · have hmics : cfg.alg_config.alg_aec_mics = [] := by
      by_contra hne
      exact h ⟨haec, hne⟩
    -- the list of the resampler is there to be cleared
    have hrs : cfg.alg_config.alg_rs_mics ≠ [] := fun hrs => hclear ⟨haec, hmics, hrs⟩
    rw [if_pos haec, hmics, micInfo_of_ne_nil hrs]
    rfl
  · rw [if_neg haec]

omit [CFloat F] [CDouble F D] in
/-- The lists with echo cancellation; `doAEC` is whether there are reference
    microphones. -/
theorem initMicInfo_of_aec {cfg : ConfigIf.SirenConfig F D} (h : HasAec cfg) :
    initMicInfo cfg = .ok (
      { m_pMicInfo_in := some ((List.range cfg.mic_num.toNat).map Int.ofNat)
        m_pMicInfo_rs := micInfo cfg.alg_config.alg_rs_mics
        m_pMicInfo_aec := some cfg.alg_config.alg_aec_mics
        m_pMicInfo_aec_ref := micInfo cfg.alg_config.alg_aec_ref_mics
        m_pCpuInfo_aec :=
          if (micInfo cfg.alg_config.alg_aec_ref_mics).isSome then
            some cfg.alg_config.alg_aec_aff_cpus
          else none },
      (micInfo cfg.alg_config.alg_aec_ref_mics).isSome) := by
  unfold initMicInfo
  dsimp only
  rw [aecInfo_of_aec h]
  rfl

omit [CFloat F] [CDouble F D] in
theorem initMicInfo_of_clears {cfg : ConfigIf.SirenConfig F D} (h : ClearsNull cfg) :
    initMicInfo cfg = .error .nullMicInfo := by
  unfold initMicInfo
  dsimp only
  rw [aecInfo_of_clears h]
  rfl

omit [CFloat F] [CDouble F D] in
theorem initMicInfo_without_aec {cfg : ConfigIf.SirenConfig F D} (h : ¬ HasAec cfg)
    (hclear : ¬ ClearsNull cfg) : ∃ micinfo doAEC, initMicInfo cfg = .ok (micinfo, doAEC) ∧
      micinfo.m_pMicInfo_aec = none := by
  unfold initMicInfo
  dsimp only
  rw [aecInfo_without_aec h hclear]
  exact ⟨_, _, rfl, rfl⟩

/-! ### The constructors -/

/-- Without the list of the echo canceller the constructors fail. -/
theorem initUnits_of_null {cfg : ConfigIf.SirenConfig F D} {t : R2InType}
    {micinfo : PreprocessorMicInfoAdapter} {doAEC : Bool} {p : SirenPreprocessorImpl F D E}
    (h : initUnits cfg t micinfo doAEC = .ok p) :
    micinfo.m_pMicInfo_rs.isSome = true ∧ micinfo.m_pMicInfo_aec.isSome = true ∧
      micinfo.m_pMicInfo_aec_ref.isSome = true := by
  unfold initUnits at h
  obtain ⟨mics_in, _, h⟩ := MicInfo.get_bind_eq_ok.mp h
  obtain ⟨mics_rs, hrs, h⟩ := MicInfo.get_bind_eq_ok.mp h
  obtain ⟨mics_rdc, hrdc, h⟩ := MicInfo.get_bind_eq_ok.mp h
  -- each constructor reads the list it is given
  cases hcpu : affineCpus E micinfo with
  | error e =>
    rw [hcpu] at h
    cases h
  | ok cpus =>
    rw [hcpu] at h
    obtain ⟨mics_aec, _, h⟩ := MicInfo.get_bind_eq_ok.mp h
    obtain ⟨mics_ref, href, _⟩ := MicInfo.get_bind_eq_ok.mp h
    rw [hrs, hrdc, href]
    exact ⟨rfl, rfl, rfl⟩

/-- With the lists there, every constructor returns. -/
theorem initUnits_of_lists {cfg : ConfigIf.SirenConfig F D} (h : HasLists cfg) (t : R2InType)
    {micinfo : PreprocessorMicInfoAdapter} {doAEC : Bool}
    (hinfo : initMicInfo cfg = .ok (micinfo, doAEC)) :
    ∃ p : SirenPreprocessorImpl F D E, initUnits cfg t micinfo doAEC = .ok p := by
  rw [initMicInfo_of_aec ⟨h.aec, h.aec_mics⟩, micInfo_of_ne_nil h.rs,
    micInfo_of_ne_nil h.aec_ref_mics] at hinfo
  cases hinfo
  unfold initUnits affineCpus
  by_cases harm : E.arm = true
  · rw [if_pos harm]
    exact ⟨_, rfl⟩
  · rw [if_neg harm]
    exact ⟨_, rfl⟩

omit [CFloat F] [CDouble F D] in
theorem inType_eq_none_iff {cfg : ConfigIf.SirenConfig F D} :
    inType cfg = none ↔ cfg.mic_audio_byte ≠ 3 ∧ cfg.mic_audio_byte ≠ 4 := by
  unfold inType
  by_cases h3 : cfg.mic_audio_byte = 3
  · rw [if_pos h3]
    constructor
    · intro h
      cases h
    · rintro ⟨h, _⟩
      exact absurd h3 h
  · rw [if_neg h3]
    by_cases h4 : cfg.mic_audio_byte = 4
    · constructor
      · intro h
        split at h
        · cases h
        · cases h
      · rintro ⟨_, h⟩
        exact absurd h4 h
    · rw [if_neg (fun h => h4 h.2), if_neg h4]
      exact ⟨fun _ => ⟨h3, h4⟩, fun _ => rfl⟩

theorem initType_needs {cfg : ConfigIf.SirenConfig F D} {micinfo : PreprocessorMicInfoAdapter}
    {doAEC : Bool} {r : Option (SirenPreprocessorImpl F D E)}
    (h : initType cfg micinfo doAEC = .ok r) :
    inType cfg = none ∨ micinfo.m_pMicInfo_rs.isSome = true ∧
      micinfo.m_pMicInfo_aec.isSome = true ∧ micinfo.m_pMicInfo_aec_ref.isSome = true := by
  unfold initType at h
  split at h
  · next htype => exact .inl htype
  · next t _ =>
    cases hp : (initUnits cfg t micinfo doAEC :
      Except NullMicInfo (SirenPreprocessorImpl F D E)) with
    | error e =>
      rw [hp] at h
      cases h
    | ok p => exact .inr (initUnits_of_null hp)

theorem initType_of_lists {cfg : ConfigIf.SirenConfig F D} (h : HasLists cfg)
    {micinfo : PreprocessorMicInfoAdapter} {doAEC : Bool}
    (hinfo : initMicInfo cfg = .ok (micinfo, doAEC)) :
    ∃ r : Option (SirenPreprocessorImpl F D E), initType cfg micinfo doAEC = .ok r := by
  unfold initType
  split
  · exact ⟨none, rfl⟩
  · next t _ =>
    obtain ⟨p, hp⟩ := initUnits_of_lists (E := E) h t hinfo
    rw [hp]
    exact ⟨some p, rfl⟩

/-! ### `init` -/

/-- A width that is not supported is noticed before any constructor. -/
theorem init_of_unsupported {cfg : ConfigIf.SirenConfig F D} (hnum : cfg.mic_num > 0)
    (htype : inType cfg = none) (hclear : ¬ ClearsNull cfg) :
    (init cfg : Except NullMicInfo (Option (SirenPreprocessorImpl F D E))) = .ok none := by
  have hinfo : ∃ r, initMicInfo cfg = .ok r := by
    by_cases haec : HasAec cfg
    · exact ⟨_, initMicInfo_of_aec haec⟩
    · obtain ⟨micinfo, doAEC, hinfo, _⟩ := initMicInfo_without_aec haec hclear
      exact ⟨_, hinfo⟩
  obtain ⟨r, hinfo⟩ := hinfo
  unfold init
  rw [if_pos hnum, hinfo]
  show initType cfg r.1 r.2 = _
  unfold initType
  rw [htype]

theorem init_of_lists {cfg : ConfigIf.SirenConfig F D} (hnum : cfg.mic_num > 0)
    (h : HasLists cfg) : ∃ r : Option (SirenPreprocessorImpl F D E), init cfg = .ok r := by
  have hinfo := initMicInfo_of_aec ⟨h.aec, h.aec_mics⟩
  unfold init
  rw [if_pos hnum, hinfo]
  exact initType_of_lists h hinfo

/-- With microphones, an `init` that returns has noticed the width or found its
    lists, and has cleared no list through a null pointer. -/
theorem init_needs {cfg : ConfigIf.SirenConfig F D} (hnum : cfg.mic_num > 0)
    {r : Option (SirenPreprocessorImpl F D E)} (h : init cfg = .ok r) :
    (inType cfg = none ∧ ¬ ClearsNull cfg) ∨ HasLists cfg := by
  unfold init at h
  rw [if_pos hnum] at h
  by_cases hclear : ClearsNull cfg
  · -- the ids of a null list are cleared
    rw [initMicInfo_of_clears hclear] at h
    cases h
  by_cases haec : HasAec cfg
  · rw [initMicInfo_of_aec haec] at h
    -- a supported width leads to the constructors, which need the lists
    rcases initType_needs h with htype | ⟨hrs, _, href⟩
    · exact .inl ⟨htype, hclear⟩
    · obtain ⟨_, hrs⟩ := Option.isSome_iff_exists.mp hrs
      obtain ⟨_, href⟩ := Option.isSome_iff_exists.mp href
      exact .inr ⟨(micInfo_eq_some.mp hrs).1, haec.1, haec.2, (micInfo_eq_some.mp href).1⟩
  · -- without echo cancellation the constructors fail
    obtain ⟨micinfo, doAEC, hinfo, hnull⟩ := initMicInfo_without_aec haec hclear
    rw [hinfo] at h
    rcases initType_needs h with htype | ⟨_, hsome, _⟩
    · exact .inl ⟨htype, hclear⟩
    · rw [hnull] at hsome
      cases hsome

/-- `init` reports an error or builds its units, dereferencing no null list,
    exactly if there is no microphone, or the width of the samples is not
    supported and no list is cleared through a null pointer, or the lists are
    there. -/
theorem init_safe_iff (E : PreEngines F) (cfg : ConfigIf.SirenConfig F D) :
    (∃ r : Option (SirenPreprocessorImpl F D E), init cfg = .ok r) ↔
      cfg.mic_num ≤ 0 ∨
        (cfg.mic_audio_byte ≠ 3 ∧ cfg.mic_audio_byte ≠ 4 ∧ ¬ ClearsNull cfg) ∨ HasLists cfg := by
  by_cases hnum : cfg.mic_num > 0
  · constructor
    · rintro ⟨r, h⟩
      apply Or.inr
      rcases init_needs hnum h with ⟨htype, hclear⟩ | hlists
      · obtain ⟨h3, h4⟩ := inType_eq_none_iff.mp htype
        exact .inl ⟨h3, h4, hclear⟩
      · exact .inr hlists
    · rintro (h | ⟨h3, h4, hclear⟩ | hlists)
      · omega
      · exact ⟨none, init_of_unsupported hnum (inType_eq_none_iff.mpr ⟨h3, h4⟩) hclear⟩
      · exact init_of_lists hnum hlists
  · unfold init
    rw [if_neg hnum]
    exact ⟨fun _ => .inl (by omega), fun _ => ⟨none, rfl⟩⟩

/-! ### A file without reference microphones -/

/-- A resampler that passes on the first third of its samples, and an echo canceller
    that puts out silence. -/
def silentEngines : PreEngines ℚ where
  rs := { State := Unit, create := fun _ _ _ _ => (), process := fun _ rows n => ((), rows, n / 3) }
  aec := { State := Unit
           create := fun _ _ _ => ()
           buffer_farend := fun _ _ => ()
           process := fun _ _ => ((), fun _ => 0, 0) }
  arm := false

/-- The file without reference microphones: the loader takes it, `init` says
    that it disables echo cancellation, and a constructor reads the null list. -/
theorem init_without_ref : ∃ s : ConfigIf.Sample,
    ConfigIf.loadConfigFromJSON s.env ConfigIf.Sample.mem ConfigIf.Sample.text
        (.new ConfigIf.Sample.mem) = (.CONFIG_OK, s.config) ∧
      ¬ ∃ r : Option (SirenPreprocessorImpl ℚ ℚ silentEngines), init s.config = .ok r := by
  refine ⟨{ alg_aec_ref_mics := [] }, ConfigIf.Sample.accepted _, ?_⟩
  rintro ⟨r, h⟩
  cases h

end SirenPreprocessorImpl

end BlackSiren

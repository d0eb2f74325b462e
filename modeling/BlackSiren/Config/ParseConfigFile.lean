import BlackSiren.Config.Sample

/-! # `parseConfigFile`

    The configuration comes from the user's file or, when that is of no use,
    from the backup.  The second attempt is made under the status the first one
    left, so it is made only after a user's file that cannot be opened.

    - `parseConfigFile`
    - `fallback_iff`: when the fallback gives what the backup says
-/

namespace BlackSiren

namespace ConfigIf

variable {F D : Type} [CFloat F]

/-- How `parseConfigFile` ends: `abort`, or its result and the configuration of
    the manager. -/
inductive Parsed (F D : Type) where
  | aborted
  | returned (error_status : ConfigError) (siren_config : SirenConfig F D)

/-- `updateConfigFile`: the remote configuration is compiled out. -/
def updateConfigFile : Bool := false

def CONFIG_LAN_ZH : Int := 0

def LEGACY_ALG_DIR_CN : List UInt8 := lit "/system/workdir_cn"

/-- The settings a `CONFIG_LEGACY_SIREN_TEST` build writes over the loaded ones. -/
def legacySettings (cfg : SirenConfig F D) : SirenConfig F D :=
  { cfg with
    alg_config := { cfg.alg_config with
      alg_lan := CONFIG_LAN_ZH
      alg_legacy_dir := LEGACY_ALG_DIR_CN } }

/-- The attempt at the user's file: the status, the configuration, and
    `use_valid_path`. -/
def loadUser (env : JsonC F D) (mem : Unassigned F) (validPath : Bool)
    (user : Option (List UInt8)) (cfg : SirenConfig F D) : ConfigError × SirenConfig F D × Bool :=
  if validPath then
    match user with
    | none => (.CONFIG_OK, cfg, false)
    | some contents =>
        let (error_status, cfg) := loadConfigFromJSON env mem contents cfg
        (error_status, cfg, error_status == .CONFIG_OK)
  else (.CONFIG_OK, cfg, false)

/-- The attempt at the backup, under the status of the first. -/
def loadBackup (env : JsonC F D) (mem : Unassigned F) (backup : Option (List UInt8))
    (error_status : ConfigError) (cfg : SirenConfig F D) : ConfigError × SirenConfig F D :=
  let error_status := if backup.isNone then .CONFIG_ERROR_OPEN_FILE else error_status
  match error_status, backup with
  | .CONFIG_OK, some contents => loadConfigFromJSON env mem contents cfg
  | error_status, _ => (error_status, cfg)

/-- `parseConfigFile` of a new manager. `user` and `backup` are what the two
    files hold, `none` for one that cannot be opened; `legacyTest` is
    `CONFIG_LEGACY_SIREN_TEST`. -/
def parseConfigFile (env : JsonC F D) (legacyTest : Bool) (mem : Unassigned F) (validPath : Bool)
    (user backup : Option (List UInt8)) : Parsed F D :=
  let siren_config : SirenConfig F D := .new mem
  let (error_status, siren_config) :=
    if updateConfigFile then (.CONFIG_OK, siren_config)
    else
      let (error_status, siren_config, use_valid_path) :=
        loadUser env mem validPath user siren_config
      if use_valid_path then (error_status, siren_config)
      else loadBackup env mem backup error_status siren_config
  let siren_config := if legacyTest then legacySettings siren_config else siren_config
  if error_status ≠ .CONFIG_OK then .aborted else .returned error_status siren_config

/-! ### The fallback -/

variable {env : JsonC F D} {mem : Unassigned F}

/-- There is a user's file, but the loader does not take it. -/
def Rejected (env : JsonC F D) (mem : Unassigned F) (contents : List UInt8) : Prop :=
  (loadConfigFromJSON env mem contents (.new mem)).1 ≠ .CONFIG_OK

/-- The user's file cannot be opened. -/
def Unopened (validPath : Bool) (user : Option (List UInt8)) : Prop :=
  validPath = false ∨ user = none

theorem loadUser_of_unopened {validPath : Bool} {user : Option (List UInt8)}
    (h : Unopened validPath user) (cfg : SirenConfig F D) :
    loadUser env mem validPath user cfg = (.CONFIG_OK, cfg, false) := by
  unfold loadUser
  by_cases hv : validPath = true
  · rw [if_pos hv]
    rcases h with h | h
    · rw [hv] at h
      cases h
    · rw [h]
  · rw [if_neg hv]

/-- A rejected file leaves its status and what the loader has read of it. -/
theorem loadUser_of_rejected {contents : List UInt8} (h : Rejected env mem contents) :
    loadUser env mem true (some contents) (.new mem) =
      ((loadConfigFromJSON env mem contents (.new mem)).1,
        (loadConfigFromJSON env mem contents (.new mem)).2, false) := by
  unfold loadUser
  have hne : ((loadConfigFromJSON env mem contents (.new mem)).1 == ConfigError.CONFIG_OK) =
      false := beq_eq_false_iff_ne.mpr h
  rw [if_pos rfl]
  simp only [hne]

/-- After a failure the backup is not read. -/
theorem loadBackup_of_failed {contents : List UInt8} {error_status : ConfigError}
    (h : error_status ≠ .CONFIG_OK) (cfg : SirenConfig F D) :
    loadBackup env mem (some contents) error_status cfg = (error_status, cfg) := by
  unfold loadBackup
  cases error_status with
  | CONFIG_OK => exact absurd rfl h
  | CONFIG_ERROR_OPEN_FILE => rfl
  | CONFIG_ERROR_PARSE_FAIL => rfl
  | CONFIG_ERROR_UNKNOWN => rfl

theorem parseConfigFile_of_unopened {legacyTest validPath : Bool}
    {user : Option (List UInt8)} {contents : List UInt8} {cfg : SirenConfig F D}
    (huser : Unopened validPath user)
    (hload : loadConfigFromJSON env mem contents (.new mem) = (.CONFIG_OK, cfg)) :
    parseConfigFile env legacyTest mem validPath user (some contents) =
      .returned .CONFIG_OK (if legacyTest then legacySettings cfg else cfg) := by
  have hbackup : loadBackup env mem (some contents) .CONFIG_OK (.new mem) = (.CONFIG_OK, cfg) :=
    hload
  unfold parseConfigFile
  simp only [updateConfigFile, Bool.false_eq_true, if_false, loadUser_of_unopened huser, hbackup]
  rfl

/-- A user's file that is there but rejected ends in `abort`, whatever the backup
    holds. -/
theorem parseConfigFile_of_rejected {legacyTest : Bool} {contents backup : List UInt8}
    (h : Rejected env mem contents) :
    parseConfigFile env legacyTest mem true (some contents) (some backup) = .aborted := by
  unfold parseConfigFile
  simp only [updateConfigFile, Bool.false_eq_true, if_false, loadUser_of_rejected h,
    loadBackup_of_failed h]
  exact if_pos h

omit [CFloat F] in
theorem legacySettings_eq_iff {cfg : SirenConfig F D} : legacySettings cfg = cfg ↔
    cfg.alg_config.alg_lan = CONFIG_LAN_ZH ∧ cfg.alg_config.alg_legacy_dir = LEGACY_ALG_DIR_CN := by
  unfold legacySettings
  constructor
  · intro h
    have halg := congrArg SirenConfig.alg_config h
    exact ⟨(congrArg AlgConfig.alg_lan halg).symm, (congrArg AlgConfig.alg_legacy_dir halg).symm⟩
  · rintro ⟨hlan, hdir⟩
    rw [← hlan, ← hdir]

/-- With a user's file that gives no configuration and a backup that does, the
    result is the backup's exactly if the user's file cannot be opened, and a
    test build overwrites nothing of it. -/
theorem fallback_iff (env : JsonC F D) (mem : Unassigned F) {legacyTest validPath : Bool}
    {user : Option (List UInt8)} {backup : List UInt8} {cfg : SirenConfig F D}
    (huser : Unopened validPath user ∨ ∃ contents, user = some contents ∧ Rejected env mem contents)
    (hload : loadConfigFromJSON env mem backup (.new mem) = (.CONFIG_OK, cfg)) :
    parseConfigFile env legacyTest mem validPath user (some backup) = .returned .CONFIG_OK cfg ↔
      Unopened validPath user ∧ (legacyTest = true →
        cfg.alg_config.alg_lan = CONFIG_LAN_ZH ∧
          cfg.alg_config.alg_legacy_dir = LEGACY_ALG_DIR_CN) := by
  by_cases hopen : Unopened validPath user
  · rw [parseConfigFile_of_unopened hopen hload]
    cases legacyTest with
    | false =>
      constructor
      · intro _
        refine ⟨hopen, ?_⟩
        intro htest
        cases htest
      · intro _
        rfl
    | true =>
      rw [if_pos rfl]
      -- the settings of the test build come on top of the backup
      constructor
      · intro h
        have hsame : legacySettings cfg = cfg := by
          injection h
        exact ⟨hopen, fun _ => legacySettings_eq_iff.mp hsame⟩
      · rintro ⟨_, hsame⟩
        rw [legacySettings_eq_iff.mpr (hsame rfl)]
  · -- the file is there, so the loader has rejected it
    obtain ⟨contents, hcontents, hreject⟩ := huser.resolve_left hopen
    have hvalid : validPath = true := by
      by_contra hv
      exact hopen (.inl (by simpa using hv))
    rw [hvalid, hcontents, parseConfigFile_of_rejected hreject]
    constructor
    · intro h
      cases h
    · rintro ⟨hno, _⟩
      rw [← hvalid, ← hcontents] at hno
      exact absurd hno hopen

/-- Without a user's file. -/
theorem fallback_iff_no_file :
    parseConfigFile (Sample.env {}) false Sample.mem true none (some Sample.text) =
        .returned .CONFIG_OK (Sample.config {}) ↔
      Unopened true none ∧ (false = true →
        (Sample.config {}).alg_config.alg_lan = CONFIG_LAN_ZH ∧
          (Sample.config {}).alg_config.alg_legacy_dir = LEGACY_ALG_DIR_CN) :=
  fallback_iff (Sample.env {}) Sample.mem (.inl (.inr rfl)) (Sample.accepted {})

/-- A user's file `{}`, and a backup that loads. -/
theorem fallback_aborts :
    Rejected (Sample.env {}) Sample.mem (lit "{}") ∧
      loadConfigFromJSON (Sample.env {}) Sample.mem Sample.text (.new Sample.mem) =
        (.CONFIG_OK, Sample.config {}) ∧
      parseConfigFile (Sample.env {}) false Sample.mem true (some (lit "{}")) (some Sample.text) =
        .aborted := by
  have hreject : Rejected (Sample.env {}) Sample.mem (lit "{}") := by
    intro h
    cases h
  exact ⟨hreject, Sample.accepted {}, parseConfigFile_of_rejected hreject⟩

end ConfigIf

end BlackSiren

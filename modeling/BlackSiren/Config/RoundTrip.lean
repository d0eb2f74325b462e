import BlackSiren.Config.ParseConfigFile
import BlackSiren.Framework.Keyed

/-! # The file of a configuration

    The repository only reads configurations.  `document` is the file that says a given
    one, and the loader reads back from it what it says: no key sets what another is
    for, and none is forgotten.  The order of the keys, and others among them, make no
    difference, in the entries of `alg_def_vt` either, which are read in the order of
    their members.

    Not every configuration can be said: there is one key for two flags, two languages
    are known, and numbers and strings are C's.

    - `document`, `Carries`: the file, and the files that say the same
    - `Writable`: the configurations that can be said
    - `defVT_of_carries`: an entry, in any order
    - `load_carried`, `parse_carried`
-/

namespace BlackSiren

namespace ConfigIf

variable {F D : Type}

/-! ### Values -/

def IsInt (v : Int) : Prop := -2 ^ 31 ≤ v ∧ v < 2 ^ 31

instance (v : Int) : Decidable (IsInt v) := inferInstanceAs (Decidable (_ ∧ _))

theorem asInt_int {v : Int} (h : IsInt v) : (Json.int v : Json D).asInt = some v := by
  obtain ⟨hlo, hhi⟩ := h
  show some (max (-2 ^ 31) (min v (2 ^ 31 - 1))) = some v
  rw [min_eq_left (by omega), max_eq_right hlo]

/-- An `unsigned long` that fits in an `int64_t`. -/
def IsSize (env : JsonC F D) (v : Int) : Prop := 0 ≤ v ∧ v < 2 ^ 63 ∧ v < 2 ^ env.ulong

instance (env : JsonC F D) (v : Int) : Decidable (IsSize env v) :=
  inferInstanceAs (Decidable (_ ∧ _))

theorem asInt64_int {env : JsonC F D} {v : Int} (h : IsSize env v) :
    (Json.int v : Json D).asInt64 = some v ∧ v % 2 ^ env.ulong = v := by
  obtain ⟨hlo, hhi, hulong⟩ := h
  constructor
  · show some (max (-2 ^ 63) (min v (2 ^ 63 - 1))) = some v
    rw [min_eq_left (by omega), max_eq_right (by omega)]
  · exact Int.emod_eq_of_lt hlo hulong

theorem asString_string {s : List UInt8} (h : (0 : UInt8) ∉ s) :
    (Json.string s : Json D).asString = some s :=
  congrArg some (cstr_eq_self h)

/-- The array of some values. -/
def arrayOf {α : Type} (value : α → Json D) (l : List α) : Json D := .array (l.map value)

theorem asList_arrayOf {α β : Type} {read : Json D → Option β} {value : α → Json D} {f : α → β}
    {l : List α} (h : ∀ x ∈ l, read (value x) = some (f x)) :
    asList read (arrayOf value l) = some (l.map f) := by
  have hread : l.filterMap (read ∘ value) = l.filterMap (some ∘ f) := List.filterMap_congr h
  show some ((l.map value).filterMap read) = _
  rw [List.filterMap_map, hread, List.filterMap_eq_map]

/-- An array whose elements are all read is read. -/
theorem asList_self {α : Type} {read : Json D → Option α} {value : α → Json D} {l : List α}
    (h : ∀ x ∈ l, read (value x) = some x) : asList read (arrayOf value l) = some l :=
  (asList_arrayOf h).trans (congrArg some l.map_id)

def IsInts (l : List Int) : Prop := ∀ v ∈ l, IsInt v

instance (l : List Int) : Decidable (IsInts l) := inferInstanceAs (Decidable (∀ v ∈ l, _))

theorem asList_ints {l : List Int} (h : IsInts l) :
    asList Json.asInt (arrayOf (D := D) .int l) = some l :=
  asList_self fun v hv => asInt_int (h v hv)

theorem asList_doubles (l : List D) : asList Json.asDouble (arrayOf .double l) = some l :=
  asList_self fun _ _ => rfl

theorem asList_micPos (l : List (MicPos D)) :
    asList (asList Json.asDouble) (arrayOf (arrayOf .double) l) = some l :=
  asList_self fun p _ => asList_doubles p

/-! ### The document -/

section Document

variable (ofFloat : F → D) (cfg : SirenConfig F D)

def basicMembers : List (String × Json D) := [
  ("mic_num", .int cfg.mic_num),
  ("mic_channel_num", .int cfg.mic_channel_num),
  ("mic_sample_rate", .int cfg.mic_sample_rate),
  ("mic_audio_byte", .int cfg.mic_audio_byte),
  ("mic_frame_length", .int cfg.mic_frame_length),
  ("siren_ipc", .string (lit (if cfg.siren_use_share_mem then "share_mem" else "channel"))),
  ("siren_channel_rmem", .int cfg.siren_recording_socket_rmem),
  ("siren_channel_wmem", .int cfg.siren_recording_socket_wmem),
  ("siren_input_err_retry_num", .int cfg.siren_input_err_retry_num),
  ("siren_input_err_retry_timeout", .int cfg.siren_input_err_retry_timeout),
  ("siren_monitor_udp_port", .int cfg.udp_port)]

/-- An entry of `alg_def_vt`. -/
def vtMembers (c : DefVTConfig F) : List (String × Json D) := [
  ("vt_type", .int c.vt_type),
  ("vt_word", .string c.vt_word),
  ("vt_phone", .string c.vt_phone),
  ("vt_block_avg_score", .double (ofFloat c.vt_avg_score)),
  ("vt_block_min_score", .double (ofFloat c.vt_min_score)),
  ("vt_left_check", .boolean c.vt_left_sil_det),
  ("vt_right_check", .boolean c.vt_right_sil_det),
  ("vt_remote_check_with_aec", .boolean c.vt_remote_check_with_aec),
  ("vt_remote_check_without_aec", .boolean c.vt_remote_check_without_aec),
  ("vt_local_classify_check", .boolean c.vt_local_classify_check),
  ("vt_classify_shield", .double (ofFloat c.vt_classify_shield)),
  ("vt_nnet_path", .string c.vt_nnet_path)]

def algMembers : List (String × Json D) :=
  let a := cfg.alg_config
  let r := cfg.raw_stream_config
  let float := fun v : F => Json.double (ofFloat v)
  [("alg_use_legacy_config_file", .boolean a.alg_use_legacy_ssp_config_file),
  ("alg_legacy_config_file_path", .string a.alg_legacy_dir),
  ("alg_lan", .string (lit (if a.alg_lan = 1 then "en" else "zh"))),
  ("alg_rs_mics", arrayOf .int a.alg_rs_mics),
  ("alg_aec", .boolean a.alg_aec),
  ("alg_aec_mics", arrayOf .int a.alg_aec_mics),
  ("alg_aec_ref_mics", arrayOf .int a.alg_aec_ref_mics),
  ("alg_aec_shield", float a.alg_aec_shield),
  ("alg_aec_aff_cpus", arrayOf .int a.alg_aec_aff_cpus),
  ("alg_aec_mat_aff_cpus", arrayOf .int a.alg_aec_mat_aff_cpus),
  ("alg_raw_stream_sl_direction", float a.alg_raw_stream_sl_direction),
  ("alg_raw_stream_bf", .boolean a.alg_raw_stream_bf),
  ("alg_raw_stream_agc", .boolean a.alg_raw_stream_agc),
  ("alg_vt_enable", .boolean a.alg_vt_enable),
  ("alg_vad_enable", .boolean a.alg_vad_enable),
  ("alg_vad_mics", arrayOf .int a.alg_vad_mics),
  ("alg_vad_baserange", float a.alg_vad_baserange),
  ("alg_vad_dynrange_min", float a.alg_vad_dynrange_min),
  ("alg_vad_dynrange_max", float a.alg_vad_dynrange_max),
  ("alg_bf_scaling", float a.alg_bf_scaling),
  ("alg_need_i2s_delay_mics", arrayOf .int a.alg_need_i2s_delay_mics),
  ("alg_i2s_delay_mics", arrayOf .double a.alg_i2s_delay_mics),
  ("alg_mic_pos", arrayOf (arrayOf .double) a.alg_mic_pos),
  ("alg_sl_mics", arrayOf .int a.alg_sl_mics),
  ("alg_bf_mics", arrayOf .int a.alg_bf_mics),
  ("alg_opus_compress", .boolean a.alg_opus_compress),
  ("alg_vt_phomod", .string a.alg_vt_phomod),
  ("alg_vt_dnnmod", .string a.alg_vt_dnnmod),
  ("alg_rs_delay_on_left_right_channel", .boolean a.alg_rs_delay_on_left_right_channel),
  ("raw_stream_channel_num", .int r.raw_stream_channel_num),
  ("raw_stream_sample_rate", .int r.raw_stream_sample_rate),
  ("raw_stream_byte", .int r.raw_stream_byte)]

def debugMembers : List (String × Json D) :=
  let d := cfg.debug_config
  [("debug_mic_array_record", .boolean d.mic_array_record),
  ("debug_pre_result_record", .boolean d.preprocessed_result_record),
  ("debug_proc_result_record", .boolean d.processed_result_record),
  ("debug_rs_record", .boolean d.rs_record),
  ("debug_aec_record", .boolean d.aec_record),
  ("debug_bf_record", .boolean d.bf_record),
  ("debug_bf_raw_record", .boolean d.bf_raw_record),
  ("debug_vad_record", .boolean d.vad_record),
  ("debug_opu_record", .boolean d.debug_opu_record),
  ("debug_record_path", .string d.recording_path)]

/-- The file that says a configuration. -/
def document : Json D := .object [
  ("basic_config", .object (basicMembers cfg)),
  ("alg_config", .object (("alg_def_vt", arrayOf .object
    (cfg.alg_config.def_vt_configs.map (vtMembers ofFloat))) :: algMembers ofFloat cfg)),
  ("debug_config", .object (debugMembers cfg))]

end Document

/-- The object has these members, in any order and perhaps with others. -/
def HasMembers (members : List (String × Json D)) (j : Json D) : Prop :=
  ∀ m ∈ members, j.json_object_object_get_ex m.1 = some m.2

/-- The entry of `alg_def_vt` has these members, in any order and perhaps with others,
    and none twice. -/
structure CarriesVT (ofFloat : F → D) (c : DefVTConfig F) (members : List (String × Json D)) :
    Prop where
  distinct : Keyed.Distinct Prod.fst members
  members : ∀ m ∈ vtMembers ofFloat c, m ∈ members

/-- The file says the configuration. -/
structure Carries (ofFloat : F → D) (cfg : SirenConfig F D) (object : Json D) : Prop where
  basic : ∃ j, object.json_object_object_get_ex "basic_config" = some j ∧
    HasMembers (basicMembers cfg) j
  alg : ∃ j entries, object.json_object_object_get_ex "alg_config" = some j ∧
    HasMembers (algMembers ofFloat cfg) j ∧
    j.json_object_object_get_ex "alg_def_vt" = some (arrayOf .object entries) ∧
    List.Forall₂ (CarriesVT ofFloat) cfg.alg_config.def_vt_configs entries
  debug : ∃ j, object.json_object_object_get_ex "debug_config" = some j ∧
    HasMembers (debugMembers cfg) j

/-- The members of an object with no key twice. -/
theorem hasMembers_object {members l : List (String × Json D)} (h : Keyed.Distinct Prod.fst l)
    (hsub : ∀ m ∈ members, m ∈ l) : HasMembers members (.object l) :=
  fun m hm => Keyed.lookup_of_mem h (hsub m hm)

theorem vtMembers_carries (ofFloat : F → D) (c : DefVTConfig F) :
    CarriesVT ofFloat c (vtMembers ofFloat c) where
  distinct := by simp [Keyed.Distinct, vtMembers]
  members := fun _ hm => hm

/-- The keys of the section, which no configuration changes. -/
theorem algMembers_nodup (ofFloat : F → D) (cfg : SirenConfig F D) :
    ("alg_def_vt" :: (algMembers ofFloat cfg).map Prod.fst).Nodup := by
  have hkeys : (algMembers ofFloat cfg).map Prod.fst =
      (algMembers id (.new Sample.mem : SirenConfig ℚ ℚ)).map Prod.fst := rfl
  rw [hkeys]
  decide +kernel

theorem document_carries (ofFloat : F → D) (cfg : SirenConfig F D) :
    Carries ofFloat cfg (document ofFloat cfg) where
  basic := ⟨_, rfl, hasMembers_object (by simp [Keyed.Distinct, basicMembers]) fun _ hm => hm⟩
  alg := by
    refine ⟨_, cfg.alg_config.def_vt_configs.map (vtMembers ofFloat), rfl, ?_, rfl, ?_⟩
    · exact hasMembers_object (Keyed.distinct_iff_nodup.mpr (algMembers_nodup ofFloat cfg))
        fun _ hm => List.mem_cons_of_mem _ hm
    · exact List.forall₂_map_right_iff.mpr
        (List.forall₂_same.mpr fun c _ => vtMembers_carries ofFloat c)
  debug := ⟨_, rfl, hasMembers_object (by simp [Keyed.Distinct, debugMembers]) fun _ hm => hm⟩

/-! ### What can be said -/

section Writable

variable (cfg : SirenConfig F D)

/-- The members of type `int`. -/
def ints : List Int :=
  [cfg.mic_num, cfg.mic_channel_num, cfg.mic_sample_rate, cfg.mic_audio_byte,
    cfg.mic_frame_length, cfg.siren_input_err_retry_num, cfg.siren_input_err_retry_timeout,
    cfg.udp_port, cfg.raw_stream_config.raw_stream_channel_num,
    cfg.raw_stream_config.raw_stream_sample_rate, cfg.raw_stream_config.raw_stream_byte]

/-- The lists of those. -/
def intLists : List (List Int) :=
  let a := cfg.alg_config
  [a.alg_rs_mics, a.alg_aec_mics, a.alg_aec_ref_mics, a.alg_aec_aff_cpus,
    a.alg_aec_mat_aff_cpus, a.alg_vad_mics, a.alg_need_i2s_delay_mics, a.alg_sl_mics,
    a.alg_bf_mics]

def strings : List (List UInt8) :=
  let a := cfg.alg_config
  [a.alg_legacy_dir, a.alg_vt_phomod, a.alg_vt_dnnmod, cfg.debug_config.recording_path]

structure WritableVT (c : DefVTConfig F) : Prop where
  vt_type : IsInt c.vt_type
  strings : ∀ s ∈ [c.vt_word, c.vt_phone, c.vt_nnet_path], (0 : UInt8) ∉ s

structure Writable (env : JsonC F D) : Prop where
  ints : ∀ v ∈ ints cfg, IsInt v
  intLists : ∀ l ∈ intLists cfg, IsInts l
  rmem : IsSize env cfg.siren_recording_socket_rmem
  wmem : IsSize env cfg.siren_recording_socket_wmem
  strings : ∀ s ∈ strings cfg, (0 : UInt8) ∉ s
  def_vt_configs : ∀ c ∈ cfg.alg_config.def_vt_configs, WritableVT c
  /-- `CONFIG_LAN_ZH` or `CONFIG_LAN_EN`. -/
  lan : cfg.alg_config.alg_lan = 0 ∨ cfg.alg_config.alg_lan = 1
  /-- Both are `alg_use_legacy_config_file`. -/
  legacy : cfg.alg_config.alg_use_legacy_vt_config_file =
    cfg.alg_config.alg_use_legacy_ssp_config_file

end Writable

/-! ### Reading it back -/

variable {env : JsonC F D} {ofFloat : F → D} {cfg : SirenConfig F D}

theorem run_cons {step : Step F D} {steps : List (Step F D)} {c c' : SirenConfig F D}
    (h : step c = (true, c')) : run (step :: steps) c = run steps c' := by
  rw [run, h]

theorem run_append {steps steps' : List (Step F D)} {c c' : SirenConfig F D}
    (h : run steps c = (true, c')) : run (steps ++ steps') c = run steps' c' := by
  induction steps generalizing c with
  | nil =>
    cases h
    rfl
  | cons step steps ih =>
    obtain ⟨⟨ok, c₁⟩, hstep⟩ : ∃ r, step c = r := ⟨_, rfl⟩
    cases ok with
    | false =>
      rw [run, hstep] at h
      cases h
    | true =>
      rw [run_cons hstep] at h
      rw [List.cons_append, run_cons hstep, ih h]

theorem asString_ipc (shareMem : Bool) :
    (Json.string (lit (if shareMem then "share_mem" else "channel")) : Json D).asString =
      some (lit (if shareMem then "share_mem" else "channel")) ∧
    (lit (if shareMem then "share_mem" else "channel") != lit "channel") = shareMem := by
  cases shareMem with
  | false => exact ⟨rfl, rfl⟩
  | true => exact ⟨rfl, rfl⟩

theorem run_basicKeys (hcfg : Writable cfg env) {basic : Json D}
    (h : HasMembers (basicMembers cfg) basic) (c : SirenConfig F D) :
    run (basicKeys env basic) c = (true, { cfg with
      alg_config := c.alg_config
      raw_stream_config := c.raw_stream_config
      debug_config := c.debug_config }) := by
  have hints := hcfg.ints
  have hrmem := asInt64_int hcfg.rmem
  have hwmem := asInt64_int hcfg.wmem
  have hipc := asString_ipc (D := D) cfg.siren_use_share_mem
  simp only [HasMembers, basicMembers, ints, List.forall_mem_cons] at h hints
  simp only [basicKeys, run, required, h, Option.bind_some, asInt_int, hints, hipc, hrmem, hwmem]

theorem run_debugKeys (hcfg : Writable cfg env) {debug : Json D}
    (h : HasMembers (debugMembers cfg) debug) (c : SirenConfig F D) :
    run (debugKeys debug) c = (true, { c with debug_config := cfg.debug_config }) := by
  have hpath : (0 : UInt8) ∉ cfg.debug_config.recording_path :=
    hcfg.strings _ (by simp [strings])
  simp only [HasMembers, debugMembers, List.forall_mem_cons] at h
  simp only [debugKeys, run, required, optional, ConfigIf.debug, h, Option.bind_some,
    Json.asBoolean, asString_string hpath]

section Alg

variable [CFloat F] (mem : Unassigned F)

/-- A member that says a setting sets it. -/
theorem vtKey_self (hfloat : Function.LeftInverse env.toFloat ofFloat) {c : DefVTConfig F}
    (hc : WritableVT c) {m : String × Json D} (hm : m ∈ vtMembers ofFloat c)
    (c' : DefVTConfig F) :
    (vtMembers ofFloat (vtKey env c' m.1 m.2)).lookup m.1 = some m.2 := by
  have hstrings := hc.strings
  simp only [List.forall_mem_cons] at hstrings
  revert m
  simp [vtMembers, vtKey, List.lookup_cons, asInt_int hc.vt_type, asString_string, hstrings,
    Json.asDouble, Json.asBoolean, hfloat _]

/-- It leaves the others alone. -/
theorem vtKey_other (c : DefVTConfig F) {m : String × Json D} {key : String} (hne : m.1 ≠ key) :
    (vtMembers ofFloat (vtKey env c m.1 m.2)).lookup key = (vtMembers ofFloat c).lookup key := by
  have hne : ∀ k, m.1 = k → (key == k) = false := fun k hk =>
    beq_eq_false_iff_ne.mpr fun heq => hne (hk.trans heq.symm)
  unfold vtKey
  split
  all_goals first
    | rfl
    | next hkey => simp only [vtMembers, List.lookup_cons, hne _ hkey]

omit [CFloat F] in
/-- The members say all settings. -/
theorem vtMembers_inj (hfloat : Function.LeftInverse env.toFloat ofFloat) {c c' : DefVTConfig F}
    (h : ∀ m ∈ vtMembers ofFloat c, (vtMembers ofFloat c').lookup m.1 = some m.2) : c' = c := by
  have hinj := hfloat.injective
  obtain ⟨⟩ := c
  obtain ⟨⟩ := c'
  simp [vtMembers, List.lookup_cons, hinj.eq_iff] at h
  simp only [DefVTConfig.mk.injEq]
  exact h

/-- Each member of an entry sets its own setting, so the order makes no difference. -/
theorem defVT_of_carries (hfloat : Function.LeftInverse env.toFloat ofFloat)
    {c : DefVTConfig F} (hc : WritableVT c) {members : List (String × Json D)}
    (h : CarriesVT ofFloat c members) : defVT env mem members = c := by
  refine vtMembers_inj hfloat fun m hm => ?_
  exact Keyed.foldl_field (fun c' => (vtMembers ofFloat c').lookup m.1)
    (vtKey_self hfloat hc hm) (fun _ _ hne => vtKey_other _ hne) h.distinct (h.members m hm) _

theorem map_defVT (hfloat : Function.LeftInverse env.toFloat ofFloat) {l : List (DefVTConfig F)}
    {entries : List (List (String × Json D))} (h : ∀ c ∈ l, WritableVT c)
    (hentries : List.Forall₂ (CarriesVT ofFloat) l entries) :
    entries.map (defVT env mem) = l := by
  induction hentries with
  | nil => rfl
  | cons hentry _ ih =>
    obtain ⟨hc, hl⟩ := List.forall_mem_cons.mp h
    rw [List.map_cons, defVT_of_carries mem hfloat hc hentry, ih hl]

theorem asString_lan {lan : Int} (h : lan = 0 ∨ lan = 1) :
    (Json.string (lit (if lan = 1 then "en" else "zh")) : Json D).asString =
      some (lit (if lan = 1 then "en" else "zh")) ∧
    (if lit (if lan = 1 then "en" else "zh") = lit "en" then (1 : Int) else 0) = lan := by
  rcases h with rfl | rfl
  · exact ⟨rfl, rfl⟩
  · exact ⟨rfl, rfl⟩

theorem run_algKeys (hfloat : Function.LeftInverse env.toFloat ofFloat) (hcfg : Writable cfg env)
    {sec : Json D} (h : HasMembers (algMembers ofFloat cfg) sec)
    {entries : List (List (String × Json D))}
    (hvt : sec.json_object_object_get_ex "alg_def_vt" = some (arrayOf .object entries))
    (hentries : List.Forall₂ (CarriesVT ofFloat) cfg.alg_config.def_vt_configs entries)
    {c : SirenConfig F D} (hc : c.alg_config = (SirenConfig.new mem).alg_config) :
    run (algKeys env mem sec) c = (true, { c with
      alg_config := cfg.alg_config
      raw_stream_config := cfg.raw_stream_config }) := by
  have hdefVT := map_defVT mem hfloat hcfg.def_vt_configs hentries
  have hvts : asList Json.asObject (arrayOf .object entries) = some entries :=
    asList_self fun _ _ => rfl
  have hlan := asString_lan (D := D) hcfg.lan
  have hints := hcfg.ints
  have hlists := hcfg.intLists
  have hstrings := hcfg.strings
  simp only [HasMembers, algMembers, ints, intLists, strings, List.forall_mem_cons]
    at h hints hlists hstrings
  simp only [algKeys, run, required, optional, bfScaling, h, Option.bind_some,
    Option.map_some, Option.getD_some, Json.asBoolean, Json.asDouble, asInt_int, asList_ints,
    asList_doubles, asList_micPos, asString_string, not_false_eq_true, hints, hlists, hstrings,
    hlan, hvt, hvts, hdefVT, hfloat _, alg, raw, hc, SirenConfig.new, List.nil_append]
  -- one key has set two flags
  have halg : { cfg.alg_config with
      alg_use_legacy_vt_config_file := cfg.alg_config.alg_use_legacy_ssp_config_file } =
      cfg.alg_config := by rw [← hcfg.legacy]
  exact congrArg (fun a => (true, { c with
    alg_config := a, raw_stream_config := cfg.raw_stream_config })) halg

/-- A file that says a configuration that can be said: the loader takes it, and gives
    that configuration, whatever the members without an initialiser held. -/
theorem load_carried (hfloat : Function.LeftInverse env.toFloat ofFloat)
    (hcfg : Writable cfg env) {contents : List UInt8} {object : Json D}
    (hparse : env.json_tokener_parse (cstr contents) = some object)
    (hobject : Carries ofFloat cfg object) :
    loadConfigFromJSON env mem contents (.new mem) = (.CONFIG_OK, cfg) := by
  obtain ⟨basic, hbasic, hbasicMembers⟩ := hobject.basic
  obtain ⟨sec, entries, hsec, halgMembers, hvt, hentries⟩ := hobject.alg
  obtain ⟨debug, hdebug, hdebugMembers⟩ := hobject.debug
  have hrun : run (basicKeys env basic ++ algKeys env mem sec ++ debugKeys debug) (.new mem) =
      (true, cfg) := by
    rw [List.append_assoc, run_append (run_basicKeys hcfg hbasicMembers _)]
    refine (run_append (run_algKeys mem hfloat hcfg halgMembers hvt hentries ?_)).trans
      (run_debugKeys hcfg hdebugMembers _)
    rfl
  unfold loadConfigFromJSON
  simp only [hparse, hbasic, hsec, hdebug, hrun]

/-- So `parseConfigFile` comes back with that configuration if the user's file says it,
    whatever the backup holds; a test build writes its settings over it. -/
theorem parse_carried (hfloat : Function.LeftInverse env.toFloat ofFloat)
    (hcfg : Writable cfg env) {contents : List UInt8} {object : Json D}
    (hparse : env.json_tokener_parse (cstr contents) = some object)
    (hobject : Carries ofFloat cfg object) (legacyTest : Bool)
    (backup : Option (List UInt8)) :
    loadConfigFromJSON env mem contents (.new mem) = (.CONFIG_OK, cfg) ∧
    parseConfigFile env legacyTest mem true (some contents) backup =
      .returned .CONFIG_OK (if legacyTest then legacySettings cfg else cfg) := by
  have hload := load_carried mem hfloat hcfg hparse hobject
  have huser : loadUser env mem true (some contents) (.new mem) = (.CONFIG_OK, cfg, true) := by
    simp only [loadUser, if_true, hload]
    rfl
  refine ⟨hload, ?_⟩
  unfold parseConfigFile
  simp only [updateConfigFile, Bool.false_eq_true, if_false, huser, if_true]
  rfl

end Alg

/-- The defaults, with microphones and a word in English. -/
def spoken : SirenConfig ℚ ℚ :=
  let cfg : SirenConfig ℚ ℚ := .new Sample.mem
  { cfg with alg_config := { cfg.alg_config with
      alg_rs_mics := [0, 1, 2, 3]
      alg_i2s_delay_mics := [1041 / 10 ^ 8]
      alg_mic_pos := [[0, 1 / 2, 0], []]
      alg_lan := 1
      def_vt_configs := [⟨1, lit "ruoqi", lit "r|l|ruo", 21 / 5, 7 / 2, true, false, true, true,
        false, 0, []⟩] } }

def remark : String × Json ℚ := ("remark", .string (lit "ruoqi"))

/-- The entries of the words in another order, with a remark. -/
def spokenEntries : List (List (String × Json ℚ)) :=
  spoken.alg_config.def_vt_configs.map fun c => remark :: (vtMembers id c).reverse

/-- A file that says it in another order, with a remark here and there. -/
def spokenFile : Json ℚ := .object [
  ("debug_config", .object (debugMembers spoken).reverse),
  remark,
  ("alg_config", .object (("alg_def_vt", arrayOf .object spokenEntries) :: remark ::
    (algMembers id spoken).reverse)),
  ("basic_config", .object (remark :: (basicMembers spoken).reverse))]

theorem spokenFile_carries : Carries id spoken spokenFile where
  basic := by
    refine ⟨_, rfl, hasMembers_object (by simp [Keyed.Distinct, basicMembers, remark]) ?_⟩
    exact fun m hm => List.mem_cons_of_mem _ (List.mem_reverse.mpr hm)
  alg := by
    refine ⟨_, spokenEntries, rfl, hasMembers_object ?_ fun m hm => ?_, rfl, ?_⟩
    · exact Keyed.distinct_iff_nodup.mpr (by decide +kernel)
    · exact List.mem_cons_of_mem _ (List.mem_cons_of_mem _ (List.mem_reverse.mpr hm))
    · refine List.forall₂_map_right_iff.mpr (List.forall₂_same.mpr fun c _ => ⟨?_, ?_⟩)
      · simp [Keyed.Distinct, vtMembers, remark]
      · exact fun m hm => List.mem_cons_of_mem _ (List.mem_reverse.mpr hm)
  debug := ⟨_, rfl, hasMembers_object (by simp [Keyed.Distinct, debugMembers])
    fun _ hm => List.mem_reverse.mpr hm⟩

/-- A json-c that knows this file. -/
def spokenEnv : JsonC ℚ ℚ where
  json_tokener_parse := fun text => if text = Sample.text then some spokenFile else none
  toFloat := id
  ulong := 64

theorem spoken_writable : Writable spoken spokenEnv where
  ints := by decide +kernel
  intLists := by decide +kernel
  rmem := by decide +kernel
  wmem := by decide +kernel
  strings := by decide +kernel
  def_vt_configs := by
    rintro c hc
    obtain rfl := List.mem_singleton.mp hc
    exact ⟨by decide, by decide +kernel⟩
  lan := .inr rfl
  legacy := rfl

theorem parse_carried_spoken :
    loadConfigFromJSON spokenEnv Sample.mem Sample.text (.new Sample.mem) =
      (.CONFIG_OK, spoken) ∧
    parseConfigFile spokenEnv false Sample.mem true (some Sample.text) none =
      .returned .CONFIG_OK spoken :=
  parse_carried Sample.mem (show Function.LeftInverse spokenEnv.toFloat id from fun _ => rfl)
    spoken_writable (if_pos (by decide +kernel)) spokenFile_carries false none

end ConfigIf

end BlackSiren

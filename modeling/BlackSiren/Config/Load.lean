import BlackSiren.Config.Json

/-! # `loadConfigFromJSON`

    The loader fills the configuration it is given in place, key by key in a
    fixed order, and stops at the first key that is missing or of the wrong type.
    What it has written until then stays written, and lists are appended to.

    - the structures of `siren_config_if.h`
    - `Step` and `run`: reading one key, and a list of keys
    - `loadConfigFromJSON`
-/

namespace BlackSiren

namespace ConfigIf

/-! ### Data -/

/-- `MicPos`, the coordinates of one microphone. -/
abbrev MicPos (D : Type) : Type := List D

/-- `AlgConfig`. -/
structure AlgConfig (F D : Type) where
  alg_legacy_dir : List UInt8
  alg_rs_mics : List Int
  alg_aec_mics : List Int
  alg_aec_ref_mics : List Int
  alg_aec_aff_cpus : List Int
  alg_aec_mat_aff_cpus : List Int
  alg_vad_mics : List Int
  alg_need_i2s_delay_mics : List Int
  alg_i2s_delay_mics : List D
  alg_mic_pos : List (MicPos D)
  alg_sl_mics : List Int
  alg_bf_mics : List Int
  alg_vt_phomod : List UInt8
  alg_vt_dnnmod : List UInt8
  def_vt_configs : List (DefVTConfig F)
  alg_lan : Int
  alg_aec_shield : F
  alg_raw_stream_sl_direction : F
  alg_vad_baserange : F
  alg_vad_dynrange_min : F
  alg_vad_dynrange_max : F
  alg_bf_scaling : F
  alg_use_legacy_ssp_config_file : Bool
  alg_aec : Bool
  alg_rs_delay_on_left_right_channel : Bool
  alg_raw_stream_bf : Bool
  alg_raw_stream_agc : Bool
  alg_vt_enable : Bool
  alg_vad_enable : Bool
  alg_opus_compress : Bool
  alg_use_legacy_vt_config_file : Bool

/-- `RawStreamConfig`. -/
structure RawStreamConfig where
  raw_stream_channel_num : Int
  raw_stream_sample_rate : Int
  raw_stream_byte : Int

/-- `DebugConfig`. -/
structure DebugConfig where
  mic_array_record : Bool
  preprocessed_result_record : Bool
  processed_result_record : Bool
  rs_record : Bool
  aec_record : Bool
  bf_record : Bool
  bf_raw_record : Bool
  vad_record : Bool
  debug_opu_record : Bool
  recording_path : List UInt8

/-- `SirenConfig`. -/
structure SirenConfig (F D : Type) where
  mic_num : Int
  mic_channel_num : Int
  mic_sample_rate : Int
  mic_audio_byte : Int
  mic_frame_length : Int
  siren_use_share_mem : Bool
  siren_recording_socket_wmem : Int
  siren_recording_socket_rmem : Int
  siren_input_err_retry_num : Int
  siren_input_err_retry_timeout : Int
  udp_port : Int
  alg_config : AlgConfig F D
  raw_stream_config : RawStreamConfig
  debug_config : DebugConfig

/-- What the members without an initialiser hold. -/
structure Unassigned (F : Type) where
  udp_port : Int
  alg_lan : Int
  alg_rs_delay_on_left_right_channel : Bool
  /-- The local `config` of the loop over `alg_def_vt`. -/
  vt : DefVTConfig F

variable {F D : Type} [CFloat F]

/-- A new `SirenConfig`. -/
def SirenConfig.new (mem : Unassigned F) : SirenConfig F D where
  mic_num := 8
  mic_channel_num := 8
  mic_sample_rate := 48000
  mic_audio_byte := 4
  mic_frame_length := 10
  siren_use_share_mem := false
  siren_recording_socket_wmem := 4 * 1024 * 1024
  siren_recording_socket_rmem := 6 * 1024 * 1024
  siren_input_err_retry_num := 5
  siren_input_err_retry_timeout := 100
  udp_port := mem.udp_port
  alg_config := {
    alg_legacy_dir := []
    alg_rs_mics := []
    alg_aec_mics := []
    alg_aec_ref_mics := []
    alg_aec_aff_cpus := []
    alg_aec_mat_aff_cpus := []
    alg_vad_mics := []
    alg_need_i2s_delay_mics := []
    alg_i2s_delay_mics := []
    alg_mic_pos := []
    alg_sl_mics := []
    alg_bf_mics := []
    alg_vt_phomod := []
    alg_vt_dnnmod := []
    def_vt_configs := []
    alg_lan := mem.alg_lan
    alg_aec_shield := CFloat.ofInt 200
    alg_raw_stream_sl_direction := CFloat.ofInt 180
    alg_vad_baserange := CFloat.ofRat (5 / 4)
    alg_vad_dynrange_min := CFloat.ofRat (7 / 2)
    alg_vad_dynrange_max := CFloat.ofInt 6
    alg_bf_scaling := CFloat.ofInt 1
    alg_use_legacy_ssp_config_file := true
    alg_aec := true
    alg_rs_delay_on_left_right_channel := mem.alg_rs_delay_on_left_right_channel
    alg_raw_stream_bf := true
    alg_raw_stream_agc := true
    alg_vt_enable := true
    alg_vad_enable := true
    alg_opus_compress := false
    alg_use_legacy_vt_config_file := true }
  raw_stream_config := {
    raw_stream_channel_num := 1
    raw_stream_sample_rate := 16000
    raw_stream_byte := 2 }
  debug_config := {
    mic_array_record := false
    preprocessed_result_record := false
    processed_result_record := false
    rs_record := false
    aec_record := false
    bf_record := false
    bf_raw_record := false
    vad_record := false
    debug_opu_record := false
    recording_path := [] }

/-- `config_error_t`. -/
inductive ConfigError where
  | CONFIG_OK
  | CONFIG_ERROR_OPEN_FILE
  | CONFIG_ERROR_PARSE_FAIL
  | CONFIG_ERROR_UNKNOWN
  deriving DecidableEq, Repr

/-! ### Reading keys -/

/-- The handling of one key: false where it ends in `goto fail`. -/
abbrev Step (F D : Type) : Type := SirenConfig F D → Bool × SirenConfig F D

/-- A list of keys, up to the first that fails. -/
def run : List (Step F D) → Step F D
  | [], cfg => (true, cfg)
  | step :: steps, cfg =>
      match step cfg with
      | (true, cfg) => run steps cfg
      | (false, cfg) => (false, cfg)

variable {α : Type}

/-- A key that must be there and of its type. -/
def required (section_ : Json D) (key : String) (read : Json D → Option α)
    (set : α → SirenConfig F D → SirenConfig F D) : Step F D := fun cfg =>
  match (section_.json_object_object_get_ex key).bind read with
  | some v => (true, set v cfg)
  | none => (false, cfg)

/-- A key that is skipped when it is missing or of another type. -/
def optional (section_ : Json D) (key : String) (read : Json D → Option α)
    (set : α → SirenConfig F D → SirenConfig F D) : Step F D := fun cfg =>
  match (section_.json_object_object_get_ex key).bind read with
  | some v => (true, set v cfg)
  | none => (true, cfg)

/-- An array of the values of one type; the others are dropped. -/
def asList (read : Json D → Option α) (j : Json D) : Option (List α) :=
  j.asArray.map fun l => l.filterMap read

/-- A setting of `alg_config`. -/
def alg (set : AlgConfig F D → AlgConfig F D) (cfg : SirenConfig F D) : SirenConfig F D :=
  { cfg with alg_config := set cfg.alg_config }

/-- A setting of `raw_stream_config`. -/
def raw (set : RawStreamConfig → RawStreamConfig) (cfg : SirenConfig F D) : SirenConfig F D :=
  { cfg with raw_stream_config := set cfg.raw_stream_config }

/-- A setting of `debug_config`. -/
def debug (set : DebugConfig → DebugConfig) (cfg : SirenConfig F D) : SirenConfig F D :=
  { cfg with debug_config := set cfg.debug_config }

/-- The characters of a literal. -/
def lit (s : String) : List UInt8 := s.toUTF8.data.toList

/-! ### The sections -/

/-- `basic_config`. -/
def basicKeys (env : JsonC F D) (basic : Json D) : List (Step F D) := [
  required basic "mic_num" Json.asInt fun v c => { c with mic_num := v },
  required basic "mic_channel_num" Json.asInt fun v c => { c with mic_channel_num := v },
  required basic "mic_sample_rate" Json.asInt fun v c => { c with mic_sample_rate := v },
  required basic "mic_audio_byte" Json.asInt fun v c => { c with mic_audio_byte := v },
  required basic "mic_frame_length" Json.asInt fun v c => { c with mic_frame_length := v },
  required basic "siren_ipc" Json.asString fun v c =>
    { c with siren_use_share_mem := v != lit "channel" },
  required basic "siren_channel_rmem" Json.asInt64 fun v c =>
    { c with siren_recording_socket_rmem := v % 2 ^ env.ulong },
  required basic "siren_channel_wmem" Json.asInt64 fun v c =>
    { c with siren_recording_socket_wmem := v % 2 ^ env.ulong },
  required basic "siren_input_err_retry_num" Json.asInt fun v c =>
    { c with siren_input_err_retry_num := v },
  required basic "siren_input_err_retry_timeout" Json.asInt fun v c =>
    { c with siren_input_err_retry_timeout := v },
  required basic "siren_monitor_udp_port" Json.asInt fun v c => { c with udp_port := v }]

/-- One member of an entry of `alg_def_vt`; a value of the wrong type counts as
    the default next to it. -/
def vtKey (env : JsonC F D) (c : DefVTConfig F) (key : String) (val : Json D) : DefVTConfig F :=
  let float := fun v : Json D => (v.asDouble.map env.toFloat).getD (CFloat.ofInt 0)
  match key with
  | "vt_type" => { c with vt_type := val.asInt.getD 4 }
  | "vt_word" => { c with vt_word := val.asString.getD [] }
  | "vt_phone" => { c with vt_phone := val.asString.getD [] }
  | "vt_block_avg_score" => { c with vt_avg_score := float val }
  | "vt_block_min_score" => { c with vt_min_score := float val }
  | "vt_left_check" => { c with vt_left_sil_det := val.asBoolean.getD false }
  | "vt_right_check" => { c with vt_right_sil_det := val.asBoolean.getD false }
  | "vt_remote_check_with_aec" => { c with vt_remote_check_with_aec := val.asBoolean.getD false }
  | "vt_remote_check_without_aec" =>
      { c with vt_remote_check_without_aec := val.asBoolean.getD false }
  | "vt_local_classify_check" => { c with vt_local_classify_check := val.asBoolean.getD false }
  | "vt_classify_shield" => { c with vt_classify_shield := float val }
  | "vt_nnet_path" => { c with vt_nnet_path := val.asString.getD [] }
  | _ => c

/-- An entry of `alg_def_vt`. A new `DefVTConfig` has empty strings; its other
    members are unassigned. -/
def defVT (env : JsonC F D) (mem : Unassigned F) (members : List (String × Json D)) :
    DefVTConfig F :=
  members.foldl (fun c m => vtKey env c m.1 m.2)
    { mem.vt with vt_word := [], vt_phone := [], vt_nnet_path := [] }

/-- `alg_bf_scaling`: 1 when it is missing or of another type. -/
def bfScaling (env : JsonC F D) (section_ : Json D) : Step F D := fun cfg =>
  let read := (section_.json_object_object_get_ex "alg_bf_scaling").bind Json.asDouble
  (true, alg (fun a => { a with
    alg_bf_scaling := (read.map env.toFloat).getD (CFloat.ofInt 1) }) cfg)

/-- `alg_config`. -/
def algKeys (env : JsonC F D) (mem : Unassigned F) (sec : Json D) : List (Step F D) :=
  let float := fun v : Json D => v.asDouble.map env.toFloat
  let ints := asList (D := D) Json.asInt
  [required sec "alg_use_legacy_config_file" Json.asBoolean fun v => alg fun a =>
    { a with alg_use_legacy_ssp_config_file := v, alg_use_legacy_vt_config_file := v },
  required sec "alg_legacy_config_file_path" Json.asString fun v => alg fun a =>
    { a with alg_legacy_dir := v },
  required sec "alg_lan" Json.asString fun v => alg fun a =>
    { a with alg_lan := if v = lit "en" then 1 else 0 },
  required sec "alg_rs_mics" ints fun v => alg fun a =>
    { a with alg_rs_mics := a.alg_rs_mics ++ v },
  required sec "alg_aec" Json.asBoolean fun v => alg fun a => { a with alg_aec := v },
  required sec "alg_aec_mics" ints fun v => alg fun a =>
    { a with alg_aec_mics := a.alg_aec_mics ++ v },
  required sec "alg_aec_ref_mics" ints fun v => alg fun a =>
    { a with alg_aec_ref_mics := a.alg_aec_ref_mics ++ v },
  required sec "alg_aec_shield" float fun v => alg fun a => { a with alg_aec_shield := v },
  required sec "alg_aec_aff_cpus" ints fun v => alg fun a =>
    { a with alg_aec_aff_cpus := a.alg_aec_aff_cpus ++ v },
  required sec "alg_aec_mat_aff_cpus" ints fun v => alg fun a =>
    { a with alg_aec_mat_aff_cpus := a.alg_aec_mat_aff_cpus ++ v },
  required sec "alg_raw_stream_sl_direction" float fun v => alg fun a =>
    { a with alg_raw_stream_sl_direction := v },
  required sec "alg_raw_stream_bf" Json.asBoolean fun v => alg fun a =>
    { a with alg_raw_stream_bf := v },
  required sec "alg_raw_stream_agc" Json.asBoolean fun v => alg fun a =>
    { a with alg_raw_stream_agc := v },
  required sec "alg_vt_enable" Json.asBoolean fun v => alg fun a => { a with alg_vt_enable := v },
  required sec "alg_vad_enable" Json.asBoolean fun v => alg fun a =>
    { a with alg_vad_enable := v },
  required sec "alg_vad_mics" ints fun v => alg fun a =>
    { a with alg_vad_mics := a.alg_vad_mics ++ v },
  required sec "alg_vad_baserange" float fun v => alg fun a => { a with alg_vad_baserange := v },
  required sec "alg_vad_dynrange_min" float fun v => alg fun a =>
    { a with alg_vad_dynrange_min := v },
  required sec "alg_vad_dynrange_max" float fun v => alg fun a =>
    { a with alg_vad_dynrange_max := v },
  bfScaling env sec,
  required sec "alg_need_i2s_delay_mics" ints fun v => alg fun a =>
    { a with alg_need_i2s_delay_mics := a.alg_need_i2s_delay_mics ++ v },
  required sec "alg_i2s_delay_mics" (asList Json.asDouble) fun v => alg fun a =>
    { a with alg_i2s_delay_mics := a.alg_i2s_delay_mics ++ v },
  required sec "alg_mic_pos" (asList (asList Json.asDouble)) fun v => alg fun a =>
    { a with alg_mic_pos := a.alg_mic_pos ++ v },
  required sec "alg_sl_mics" ints fun v => alg fun a =>
    { a with alg_sl_mics := a.alg_sl_mics ++ v },
  required sec "alg_bf_mics" ints fun v => alg fun a =>
    { a with alg_bf_mics := a.alg_bf_mics ++ v },
  required sec "alg_opus_compress" Json.asBoolean fun v => alg fun a =>
    { a with alg_opus_compress := v },
  required sec "alg_vt_phomod" Json.asString fun v => alg fun a => { a with alg_vt_phomod := v },
  required sec "alg_vt_dnnmod" Json.asString fun v => alg fun a => { a with alg_vt_dnnmod := v },
  required sec "alg_rs_delay_on_left_right_channel" Json.asBoolean fun v => alg fun a =>
    { a with alg_rs_delay_on_left_right_channel := v },
  required sec "raw_stream_channel_num" Json.asInt fun v => raw fun r =>
    { r with raw_stream_channel_num := v },
  required sec "raw_stream_sample_rate" Json.asInt fun v => raw fun r =>
    { r with raw_stream_sample_rate := v },
  required sec "raw_stream_byte" Json.asInt fun v => raw fun r => { r with raw_stream_byte := v },
  optional sec "alg_def_vt" (asList Json.asObject) fun v => alg fun a =>
    { a with def_vt_configs := a.def_vt_configs ++ v.map (defVT env mem) }]

/-- `debug_config`: only the path of the records is required. -/
def debugKeys (sec : Json D) : List (Step F D) := [
  optional sec "debug_mic_array_record" Json.asBoolean fun v => debug fun d =>
    { d with mic_array_record := v },
  optional sec "debug_pre_result_record" Json.asBoolean fun v => debug fun d =>
    { d with preprocessed_result_record := v },
  optional sec "debug_proc_result_record" Json.asBoolean fun v => debug fun d =>
    { d with processed_result_record := v },
  optional sec "debug_rs_record" Json.asBoolean fun v => debug fun d => { d with rs_record := v },
  optional sec "debug_aec_record" Json.asBoolean fun v => debug fun d =>
    { d with aec_record := v },
  optional sec "debug_bf_record" Json.asBoolean fun v => debug fun d => { d with bf_record := v },
  optional sec "debug_bf_raw_record" Json.asBoolean fun v => debug fun d =>
    { d with bf_raw_record := v },
  optional sec "debug_vad_record" Json.asBoolean fun v => debug fun d =>
    { d with vad_record := v },
  optional sec "debug_opu_record" Json.asBoolean fun v => debug fun d =>
    { d with debug_opu_record := v },
  required sec "debug_record_path" Json.asString fun v => debug fun d =>
    { d with recording_path := v }]

/-- `loadConfigFromJSON`, with the configuration it leaves behind. -/
def loadConfigFromJSON (env : JsonC F D) (mem : Unassigned F) (contents : List UInt8)
    (siren_config : SirenConfig F D) : ConfigError × SirenConfig F D :=
  match env.json_tokener_parse (cstr contents) with
  | none => (.CONFIG_ERROR_PARSE_FAIL, siren_config)
  | some object =>
      match object.json_object_object_get_ex "basic_config",
        object.json_object_object_get_ex "alg_config",
        object.json_object_object_get_ex "debug_config" with
      | some basic, some sec, some debug =>
          match run (basicKeys env basic ++ algKeys env mem sec ++ debugKeys debug)
            siren_config with
          | (true, cfg) => (.CONFIG_OK, cfg)
          | (false, cfg) => (.CONFIG_ERROR_PARSE_FAIL, cfg)
      | _, _, _ => (.CONFIG_ERROR_PARSE_FAIL, siren_config)

end ConfigIf

end BlackSiren

import BlackSiren.Config.Load

/-! # A configuration file

    `blacksiren.json` of the `mini` board, for runs on concrete input, with the
    entries left open that these runs change.
-/

namespace BlackSiren

namespace ConfigIf

/-- The entries of the file that vary. -/
structure Sample where
  mic_num : Int := 8
  mic_channel_num : Int := 8
  mic_audio_byte : Int := 4
  mic_frame_length : Int := 10
  alg_lan : String := "zh"
  alg_rs_mics : List Int := [0, 1, 2, 3, 4, 5, 6, 7]
  alg_aec : Bool := true
  alg_aec_mics : List Int := [0, 1, 2, 3, 4, 5]
  alg_aec_ref_mics : List Int := [6, 7]
  alg_need_i2s_delay_mics : List Int := [1, 3, 5, 7]
  alg_i2s_delay_mics : List ℚ := [1041 / 10 ^ 8, 1041 / 10 ^ 8, 1041 / 10 ^ 8, 1041 / 10 ^ 8]
  alg_mic_pos : List (List (Json ℚ)) :=
    List.replicate 8 [.double (375 / 10 ^ 4), .double (-3247595 / 10 ^ 8), .double 0]
  alg_sl_mics : List Int := [0, 1, 2, 3, 4, 5]

namespace Sample

/-- An array of ints. -/
def ints (l : List Int) : Json ℚ := .array (l.map .int)

/-- The file as json-c reads it. -/
def document (s : Sample) : Json ℚ := .object [
  ("basic_config", .object [
    ("mic_num", .int s.mic_num),
    ("mic_channel_num", .int s.mic_channel_num),
    ("mic_sample_rate", .int 48000),
    ("mic_audio_byte", .int s.mic_audio_byte),
    ("mic_frame_length", .int s.mic_frame_length),
    ("siren_ipc", .string (lit "channel")),
    ("siren_channel_rmem", .int 4194304),
    ("siren_channel_wmem", .int 6291456),
    ("siren_input_err_retry_num", .int 5),
    ("siren_input_err_retry_timeout", .int 100),
    ("siren_monitor_udp_port", .int 65456)]),
  ("alg_config", .object [
    ("alg_use_legacy_config_file", .boolean true),
    ("alg_legacy_config_file_path", .string (lit "/system/workdir_cn")),
    ("alg_lan", .string (lit s.alg_lan)),
    ("alg_rs_mics", ints s.alg_rs_mics),
    ("alg_aec", .boolean s.alg_aec),
    ("alg_aec_mics", ints s.alg_aec_mics),
    ("alg_aec_ref_mics", ints s.alg_aec_ref_mics),
    ("alg_aec_shield", .double 200),
    ("alg_aec_aff_cpus", ints [3]),
    ("alg_aec_mat_aff_cpus", ints [2, 3]),
    ("alg_raw_stream_sl_direction", .double 180),
    ("alg_raw_stream_bf", .boolean true),
    ("alg_raw_stream_agc", .boolean true),
    ("alg_vt_enable", .boolean true),
    ("alg_vad_enable", .boolean true),
    ("alg_vad_mics", ints [3]),
    ("alg_vad_baserange", .double (5 / 4)),
    ("alg_vad_dynrange_min", .double (7 / 2)),
    ("alg_vad_dynrange_max", .double 6),
    ("alg_need_i2s_delay_mics", ints s.alg_need_i2s_delay_mics),
    ("alg_i2s_delay_mics", .array (s.alg_i2s_delay_mics.map .double)),
    ("alg_mic_pos", .array (s.alg_mic_pos.map .array)),
    ("alg_sl_mics", ints s.alg_sl_mics),
    ("alg_bf_mics", ints [0, 1, 2, 3, 4, 5]),
    ("alg_opus_compress", .boolean true),
    ("alg_vt_phomod", .string (lit "/system/workdir_cn/phonetable")),
    ("alg_vt_dnnmod", .string (lit "/system/workdir_cn/final.svd.mod")),
    ("alg_rs_delay_on_left_right_channel", .boolean true),
    ("raw_stream_channel_num", .int 1),
    ("raw_stream_sample_rate", .int 16000),
    ("raw_stream_byte", .int 2)]),
  ("debug_config", .object [
    ("debug_bf_record", .boolean true),
    ("debug_record_path", .string (lit "/data/blacksiren"))])]

/-- A json-c that knows two texts: `{}`, and that of the sample. -/
def env (s : Sample) : JsonC ℚ ℚ where
  json_tokener_parse := fun text => if text = lit "{}" then some (.object []) else some s.document
  toFloat := id
  ulong := 64

/-- Zeros where nothing is assigned. -/
def mem : Unassigned ℚ where
  udp_port := 0
  alg_lan := 0
  alg_rs_delay_on_left_right_channel := false
  vt := ⟨0, [], [], 0, 0, false, false, false, false, false, 0, []⟩

/-- The text of the sample. -/
def text : List UInt8 := lit "blacksiren.json"

/-- What the loader makes of it. -/
def config (s : Sample) : SirenConfig ℚ ℚ := (loadConfigFromJSON s.env mem text (.new mem)).2

/-- Every sample is accepted. -/
theorem accepted (s : Sample) :
    loadConfigFromJSON s.env mem text (.new mem) = (.CONFIG_OK, s.config) := by
  rfl

end Sample

end ConfigIf

end BlackSiren

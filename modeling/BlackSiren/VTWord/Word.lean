import BlackSiren.Legacy.Vbv3
import Mathlib.Data.List.TakeWhile

/-! # Wake words

    The words a client adds (`siren_vt_word`), the words of the configuration
    (`DefVTConfig`), and the `WordInfo` records both are copied into.
-/

namespace BlackSiren

/-- `siren_vt_alg_config`. -/
structure SirenVTAlgConfig (F : Type) where
  vt_block_avg_score : F
  vt_block_min_score : F
  vt_classify_shield : F
  vt_left_sil_det : Bool
  vt_right_sil_det : Bool
  vt_remote_check_with_aec : Bool
  vt_remote_check_without_aec : Bool
  vt_local_classify_check : Bool
  nnet_path : List UInt8
  deriving DecidableEq

/-- `siren_vt_word`. -/
structure SirenVTWord (F : Type) where
  vt_type : Int
  vt_word : List UInt8
  vt_phone : List UInt8
  use_default_config : Bool
  alg_config : SirenVTAlgConfig F
  deriving DecidableEq

/-- `DefVTConfig`. -/
structure DefVTConfig (F : Type) where
  vt_type : Int
  vt_word : List UInt8
  vt_phone : List UInt8
  vt_avg_score : F
  vt_min_score : F
  vt_left_sil_det : Bool
  vt_right_sil_det : Bool
  vt_remote_check_with_aec : Bool
  vt_remote_check_without_aec : Bool
  vt_local_classify_check : Bool
  vt_classify_shield : F
  vt_nnet_path : List UInt8

/-- The characters of a string up to the first NUL: what `c_str` shows to the
    C library. -/
def cstr (s : List UInt8) : List UInt8 := s.takeWhile (· ≠ 0)

/-- `strcpy` into an array of `size` characters. -/
def strcpy (size : Nat) (s : List UInt8) : Except Fault (List UInt8) := do
  assertThat ((cstr s).length < size) .strcpyOverrun
  return cstr s

theorem cstr_eq_self {s : List UInt8} (h : (0 : UInt8) ∉ s) : cstr s = s := by
  apply List.takeWhile_eq_self_iff.mpr
  intro b hb
  have hne : b ≠ 0 := by
    intro h0
    rw [h0] at hb
    exact h hb
  simpa using hne

/-- What stands behind a NUL is not shown. -/
theorem cstr_append_nul (s t : List UInt8) : cstr (s ++ 0 :: t) = cstr s := by
  unfold cstr
  rw [List.takeWhile_append]
  split
  · rw [List.takeWhile_cons_of_neg (by decide), List.append_nil]
    exact (List.takeWhile_prefix _).eq_of_length (by assumption) |>.symm
  · rfl

theorem not_mem_cstr (s : List UInt8) : (0 : UInt8) ∉ cstr s := by
  intro h
  have hne := List.mem_takeWhile_imp h
  simp at hne

/-- A string and its NUL. -/
theorem take_cstr {s : List UInt8} (h : (0 : UInt8) ∈ s) :
    s.take ((cstr s).length + 1) = cstr s ++ [0] := by
  induction s with
  | nil => cases h
  | cons b s ih =>
    unfold cstr at ih ⊢
    by_cases hb : b = 0
    · rw [hb, List.takeWhile_cons_of_neg (by decide)]
      rfl
    · have hmem : (0 : UInt8) ∈ s := (List.mem_cons.mp h).resolve_left (Ne.symm hb)
      rw [List.takeWhile_cons_of_pos (by simpa using hb), List.length_cons, List.take_succ_cons,
        ih hmem, List.cons_append]

/-- A string without NUL that fits is copied whole. -/
theorem strcpy_eq_ok {size : Nat} {s : List UInt8} (hnul : (0 : UInt8) ∉ s)
    (hlen : s.length < size) : strcpy size s = .ok s := by
  unfold strcpy
  rw [cstr_eq_self hnul]
  simp [hlen, bind, Except.bind, pure, Except.pure]

/-- `strcpy` fails only by overrunning its array. -/
theorem strcpy_eq_error {size : Nat} {s : List UInt8} {f : Fault}
    (h : strcpy size s = .error f) : f = .strcpyOverrun := by
  simp only [strcpy] at h
  rcases bind_eq_error.mp h with h | ⟨_, _, h⟩
  · exact (assertThat_eq_error.mp h).2.symm
  · cases h

section Fill

variable {F : Type}

/-- `pLocalClassifyNnetPath` is written only for a path that is not empty. -/
def copyNnetPath (path : List UInt8) : Except Fault (Option (List UInt8)) :=
  if path.isEmpty then .ok none else some <$> strcpy 256 path

/-- The body of the loop over the default words. -/
def wordInfoOfDefault (c : DefVTConfig F) : Except Fault (WordInfo F) := do
  let utf8 ← strcpy 256 c.vt_word
  let phone ← strcpy 25600 c.vt_phone
  let nnet ← copyNnetPath c.vt_nnet_path
  return {
    iWordType := c.vt_type
    pWordContent_UTF8 := utf8
    pWordContent_PHONE := phone
    fBlockAvgScore := c.vt_avg_score
    fBlockMinScore := c.vt_min_score
    bLeftSilDet := c.vt_left_sil_det
    bRightSilDet := c.vt_right_sil_det
    bRemoteAsrCheckWithAec := c.vt_remote_check_with_aec
    bRemoteAsrCheckWithNoAec := c.vt_remote_check_without_aec
    bLocalClassifyCheck := c.vt_local_classify_check
    fClassifyShield := c.vt_classify_shield
    pLocalClassifyNnetPath := nnet }

/-- The body of the loop over the added words. -/
def wordInfoOfVTWord (w : SirenVTWord F) : Except Fault (WordInfo F) := do
  let utf8 ← strcpy 256 w.vt_word
  let phone ← strcpy 25600 w.vt_phone
  let nnet ← copyNnetPath w.alg_config.nnet_path
  return {
    iWordType := w.vt_type
    pWordContent_UTF8 := utf8
    pWordContent_PHONE := phone
    fBlockAvgScore := w.alg_config.vt_block_avg_score
    fBlockMinScore := w.alg_config.vt_block_min_score
    bLeftSilDet := w.alg_config.vt_left_sil_det
    bRightSilDet := w.alg_config.vt_right_sil_det
    bRemoteAsrCheckWithAec := w.alg_config.vt_remote_check_with_aec
    bRemoteAsrCheckWithNoAec := w.alg_config.vt_remote_check_without_aec
    bLocalClassifyCheck := w.alg_config.vt_local_classify_check
    fClassifyShield := w.alg_config.vt_classify_shield
    pLocalClassifyNnetPath := nnet }

theorem copyNnetPath_eq_error {path : List UInt8} {f : Fault}
    (h : copyNnetPath path = .error f) : f = .strcpyOverrun := by
  simp only [copyNnetPath] at h
  split at h
  · cases h
  · cases hs : strcpy 256 path with
    | ok s => rw [hs] at h; cases h
    | error e =>
      rw [hs] at h
      cases h
      exact strcpy_eq_error hs

theorem wordInfoOfDefault_eq_error {c : DefVTConfig F} {f : Fault}
    (h : wordInfoOfDefault c = .error f) : f = .strcpyOverrun := by
  simp only [wordInfoOfDefault] at h
  rcases bind_eq_error.mp h with h | ⟨_, _, h⟩
  · exact strcpy_eq_error h
  rcases bind_eq_error.mp h with h | ⟨_, _, h⟩
  · exact strcpy_eq_error h
  rcases bind_eq_error.mp h with h | ⟨_, _, h⟩
  · exact copyNnetPath_eq_error h
  · cases h

theorem wordInfoOfVTWord_eq_error {w : SirenVTWord F} {f : Fault}
    (h : wordInfoOfVTWord w = .error f) : f = .strcpyOverrun := by
  simp only [wordInfoOfVTWord] at h
  rcases bind_eq_error.mp h with h | ⟨_, _, h⟩
  · exact strcpy_eq_error h
  rcases bind_eq_error.mp h with h | ⟨_, _, h⟩
  · exact strcpy_eq_error h
  rcases bind_eq_error.mp h with h | ⟨_, _, h⟩
  · exact copyNnetPath_eq_error h
  · cases h

/-! ### Words that fit

    The records that strings without NUL and not too long become. -/

/-- Strings without NUL that fit the fields of `WordInfo`. -/
structure FitsWordInfo (vt_word vt_phone nnet_path : List UInt8) : Prop where
  vt_word : (0 : UInt8) ∉ vt_word ∧ vt_word.length < 256
  vt_phone : (0 : UInt8) ∉ vt_phone ∧ vt_phone.length < 25600
  nnet_path : (0 : UInt8) ∉ nnet_path ∧ nnet_path.length < 256

def DefVTConfig.Fits (c : DefVTConfig F) : Prop :=
  FitsWordInfo c.vt_word c.vt_phone c.vt_nnet_path

def SirenVTWord.Fits (w : SirenVTWord F) : Prop :=
  FitsWordInfo w.vt_word w.vt_phone w.alg_config.nnet_path

/-- The record for a default word. -/
def DefVTConfig.info (c : DefVTConfig F) : WordInfo F where
  iWordType := c.vt_type
  pWordContent_UTF8 := c.vt_word
  pWordContent_PHONE := c.vt_phone
  fBlockAvgScore := c.vt_avg_score
  fBlockMinScore := c.vt_min_score
  bLeftSilDet := c.vt_left_sil_det
  bRightSilDet := c.vt_right_sil_det
  bRemoteAsrCheckWithAec := c.vt_remote_check_with_aec
  bRemoteAsrCheckWithNoAec := c.vt_remote_check_without_aec
  bLocalClassifyCheck := c.vt_local_classify_check
  fClassifyShield := c.vt_classify_shield
  pLocalClassifyNnetPath := if c.vt_nnet_path.isEmpty then none else some c.vt_nnet_path

/-- The record for an added word. -/
def SirenVTWord.info (w : SirenVTWord F) : WordInfo F where
  iWordType := w.vt_type
  pWordContent_UTF8 := w.vt_word
  pWordContent_PHONE := w.vt_phone
  fBlockAvgScore := w.alg_config.vt_block_avg_score
  fBlockMinScore := w.alg_config.vt_block_min_score
  bLeftSilDet := w.alg_config.vt_left_sil_det
  bRightSilDet := w.alg_config.vt_right_sil_det
  bRemoteAsrCheckWithAec := w.alg_config.vt_remote_check_with_aec
  bRemoteAsrCheckWithNoAec := w.alg_config.vt_remote_check_without_aec
  bLocalClassifyCheck := w.alg_config.vt_local_classify_check
  fClassifyShield := w.alg_config.vt_classify_shield
  pLocalClassifyNnetPath :=
    if w.alg_config.nnet_path.isEmpty then none else some w.alg_config.nnet_path

theorem copyNnetPath_eq_ok {path : List UInt8} (hnul : (0 : UInt8) ∉ path)
    (hlen : path.length < 256) :
    copyNnetPath path = .ok (if path.isEmpty then none else some path) := by
  unfold copyNnetPath
  rw [strcpy_eq_ok hnul hlen]
  split <;> rfl

theorem wordInfoOfDefault_eq_ok {c : DefVTConfig F} (h : c.Fits) :
    wordInfoOfDefault c = .ok c.info := by
  unfold wordInfoOfDefault
  rw [strcpy_eq_ok h.vt_word.1 h.vt_word.2, strcpy_eq_ok h.vt_phone.1 h.vt_phone.2,
    copyNnetPath_eq_ok h.nnet_path.1 h.nnet_path.2]
  rfl

theorem wordInfoOfVTWord_eq_ok {w : SirenVTWord F} (h : w.Fits) :
    wordInfoOfVTWord w = .ok w.info := by
  unfold wordInfoOfVTWord
  rw [strcpy_eq_ok h.vt_word.1 h.vt_word.2, strcpy_eq_ok h.vt_phone.1 h.vt_phone.2,
    copyNnetPath_eq_ok h.nnet_path.1 h.nnet_path.2]
  rfl

end Fill

end BlackSiren

import BlackSiren.VTWord.Word

/-! # The words of a client

    `SirenProxy` keeps the words that a client has added.  The client's phones
    are pinyin with tone digits; the table of phonemes is a parameter.

    - `SirenPhonemeGen.pinyin2Phoneme`
    - `add_vt_word`, `remove_vt_word`

    Both calls end, if they succeed, by sending the new list: that is in
    `BlackSiren.VTWord.Pipeline`.
-/

namespace BlackSiren

/-! ### Phonemes -/

/-- `std::isdigit` and `std::isalnum` of the C locale. -/
def isdigit (c : UInt8) : Bool := 48 ≤ c && c ≤ 57

def isalnum (c : UInt8) : Bool :=
  isdigit c || (65 ≤ c && c ≤ 90) || (97 ≤ c && c ≤ 122)

/-- `SirenPhonemeGen`: what `phonemeMaps` has for a head. -/
structure SirenPhonemeGen where
  phonemeMaps : List UInt8 → Option (List UInt8)

namespace SirenPhonemeGen

/-- The first loop of `pinyin2Phoneme`: `targets`, cut behind each digit; `q` is
    the start of the piece at hand. -/
def cut : (p q : List UInt8) → (targets : List (List UInt8)) → Option (List (List UInt8))
  | [], _, targets => some targets
  | c :: p, q, targets =>
      if !isalnum c then none
      else if isdigit c then cut p [] (targets ++ [q ++ [c]])
      else cut p (q ++ [c]) targets

/-- The second loop: `finalResult`, with a blank behind each piece. -/
def lookup (gen : SirenPhonemeGen) : List (List UInt8) → List UInt8 → Option (List UInt8)
  | [], finalResult => some finalResult
  | str :: targets, finalResult =>
      (gen.phonemeMaps str).bind fun result =>
        lookup gen targets (finalResult ++ result ++ [32])

/-- `pinyin2Phoneme` -/
def pinyin2Phoneme (gen : SirenPhonemeGen) (pinyin : List UInt8) : Option (List UInt8) := do
  let targets ← cut pinyin [] []
  if targets.isEmpty then none
  else do
    let finalResult ← gen.lookup targets []
    return finalResult.take (finalResult.length - 1)

end SirenPhonemeGen

/-! ### Adding and removing -/

/-- `siren_vt_t` -/
inductive SirenVT where
  | SIREN_VT_OK
  | SIREN_VT_DUP
  | SIREN_VT_ERROR
  | SIREN_VT_NO_EXIT
  deriving DecidableEq

def VT_TYPE_AWAKE : Int := 1
def VT_TYPE_SLEEP : Int := 2
def VT_TYPE_HOTWORD : Int := 3
def VT_TYPE_OTHER : Int := 4

variable {F : Type}

/-- `hasVTWord`: the iterator, as what is at it and behind it. -/
def hasVTWord (word : List UInt8) (vt_words : List (SirenVTWord F)) : Option Nat :=
  vt_words.findIdx? fun w => cstr word = cstr w.vt_word

section

variable [CFloat F]

/-- The loop that lowers a threshold `ecx` times. -/
def lowered (score : F) (ecx : Int) : F :=
  if 0 < ecx ∧ ecx < 3 then
    Nat.iterate (fun x => CFloat.sub x (CFloat.ofRat (1 / 2))) ecx.toNat score
  else score

/-- `if (score < least) score = least;` -/
def atLeast (least score : F) : F := if CFloat.lt score least then least else score

/-- The default settings of a word whose phone had `word_size` tones. -/
def defaultSettings (word_size : BitVec 32) : SirenVTAlgConfig F :=
  let ecx := ((word_size + 1) / 2 - 1).toInt
  { vt_block_avg_score := atLeast (CFloat.ofRat (16 / 5)) (lowered (CFloat.ofRat (21 / 5)) ecx)
    vt_block_min_score := atLeast (CFloat.ofRat (17 / 10)) (lowered (CFloat.ofRat (27 / 10)) ecx)
    vt_classify_shield := CFloat.ofRat (-3 / 10)
    vt_left_sil_det := true
    vt_right_sil_det := false
    vt_remote_check_with_aec := true
    vt_remote_check_without_aec := true
    vt_local_classify_check := false
    nnet_path := [] }

/-- `word_size`: the tones `1` to `4` of a phone. -/
def wordSize (vt_phone : List UInt8) : BitVec 32 :=
  BitVec.ofNat 32 (vt_phone.countP fun c => 49 ≤ c && c ≤ 52)

/-- What a legal new word becomes, if there is a phoneme for its phone. -/
def stored (gen : SirenPhonemeGen) (w : SirenVTWord F) (use_default_settings : Bool) :
    Option (SirenVTWord F) :=
  (gen.pinyin2Phoneme (cstr w.vt_phone)).map fun pinyin =>
    { w with
      vt_phone := pinyin
      alg_config := if use_default_settings then defaultSettings (wordSize w.vt_phone)
        else w.alg_config }

/-- `add_vt_word`: the result, the caller's word and the words afterwards. -/
def add_vt_word (gen : SirenPhonemeGen) (vt_words : List (SirenVTWord F))
    (word : Option (SirenVTWord F)) (use_default_settings : Bool) :
    SirenVT × Option (SirenVTWord F) × List (SirenVTWord F) :=
  match word with
  | none => (.SIREN_VT_ERROR, none, vt_words)
  | some w =>
      if w.vt_type ≠ VT_TYPE_AWAKE ∧ w.vt_type ≠ VT_TYPE_SLEEP ∧ w.vt_type ≠ VT_TYPE_HOTWORD ∧
          w.vt_type ≠ VT_TYPE_OTHER then
        (.SIREN_VT_ERROR, some w, vt_words)
      else if w.vt_word.isEmpty then
        (.SIREN_VT_ERROR, some w, vt_words)
      else if (hasVTWord w.vt_word vt_words).isSome then
        (.SIREN_VT_DUP, some w, vt_words)
      else
        match stored gen w use_default_settings with
        | none => (.SIREN_VT_ERROR, some w, vt_words)
        | some w' => (.SIREN_VT_OK, some w', vt_words ++ [w'])

/-- `remove_vt_word` -/
def remove_vt_word (vt_words : List (SirenVTWord F)) (word : Option (List UInt8)) :
    SirenVT × List (SirenVTWord F) :=
  match word with
  | none => (.SIREN_VT_ERROR, vt_words)
  | some word =>
      if vt_words.isEmpty then (.SIREN_VT_ERROR, vt_words)
      else
        match hasVTWord word vt_words with
        | none => (.SIREN_VT_NO_EXIT, vt_words)
        | some it => (.SIREN_VT_OK, vt_words.eraseIdx it)

/-! ### What the calls do to the words -/

/-- One of the four types. -/
def Legal (vt_type : Int) : Prop :=
  vt_type = VT_TYPE_AWAKE ∨ vt_type = VT_TYPE_SLEEP ∨ vt_type = VT_TYPE_HOTWORD ∨
    vt_type = VT_TYPE_OTHER

theorem stored_vt_type {gen : SirenPhonemeGen} {w w' : SirenVTWord F} {d : Bool}
    (h : stored gen w d = some w') : w'.vt_type = w.vt_type := by
  obtain ⟨pinyin, _, rfl⟩ := Option.map_eq_some_iff.mp h
  rfl

/-- A call that fails changes nothing; one that succeeds has checked the word and appends
    what is stored for it. -/
theorem add_vt_word_cases (gen : SirenPhonemeGen) (ws : List (SirenVTWord F))
    (word : Option (SirenVTWord F)) (d : Bool) :
    ((add_vt_word gen ws word d).1 ≠ .SIREN_VT_OK ∧ (add_vt_word gen ws word d).2.2 = ws) ∨
      ∃ w w', word = some w ∧ Legal w.vt_type ∧ w.vt_word ≠ [] ∧
        hasVTWord w.vt_word ws = none ∧ stored gen w d = some w' ∧
        add_vt_word gen ws word d = (.SIREN_VT_OK, some w', ws ++ [w']) := by
  cases word with
  | none => exact .inl ⟨by simp [add_vt_word], rfl⟩
  | some w =>
    unfold add_vt_word
    dsimp only
    split
    · exact .inl ⟨by simp, rfl⟩
    · next htype =>
      split
      · exact .inl ⟨by simp, rfl⟩
      · next hempty =>
        split
        · exact .inl ⟨by simp, rfl⟩
        · next hhas =>
          split
          · exact .inl ⟨by simp, rfl⟩
          · next w' hstored =>
            refine .inr ⟨w, w', rfl, ?_, ?_, ?_, hstored, rfl⟩
            · unfold Legal
              by_contra hnot
              push Not at hnot
              exact htype hnot
            · rwa [List.isEmpty_iff] at hempty
            · rwa [Option.not_isSome_iff_eq_none] at hhas

end

theorem stored_vt_word [CFloat F] {gen : SirenPhonemeGen} {w w' : SirenVTWord F} {d : Bool}
    (h : stored gen w d = some w') : w'.vt_word = w.vt_word := by
  obtain ⟨pinyin, _, rfl⟩ := Option.map_eq_some_iff.mp h
  rfl

/-- What has been checked when a word is added. -/
theorem add_vt_word_ok [CFloat F] {gen : SirenPhonemeGen} {ws : List (SirenVTWord F)}
    {word : Option (SirenVTWord F)} {d : Bool} (h : (add_vt_word gen ws word d).1 = .SIREN_VT_OK) :
    ∃ w w', word = some w ∧ Legal w.vt_type ∧ w.vt_word ≠ [] ∧ hasVTWord w.vt_word ws = none ∧
      stored gen w d = some w' ∧
        add_vt_word gen ws word d = (.SIREN_VT_OK, some w', ws ++ [w']) :=
  (add_vt_word_cases gen ws word d).resolve_left fun hfailed => hfailed.1 h

/-- A word that passes the checks is added. -/
theorem add_vt_word_eq [CFloat F] {gen : SirenPhonemeGen} {ws : List (SirenVTWord F)}
    {w w' : SirenVTWord F} {d : Bool} (hlegal : Legal w.vt_type) (hne : w.vt_word ≠ [])
    (hhas : hasVTWord w.vt_word ws = none) (hstored : stored gen w d = some w') :
    add_vt_word gen ws (some w) d = (.SIREN_VT_OK, some w', ws ++ [w']) := by
  unfold add_vt_word
  have htype : ¬ (w.vt_type ≠ VT_TYPE_AWAKE ∧ w.vt_type ≠ VT_TYPE_SLEEP ∧
      w.vt_type ≠ VT_TYPE_HOTWORD ∧ w.vt_type ≠ VT_TYPE_OTHER) := by
    unfold Legal at hlegal
    omega
  dsimp only
  rw [if_neg htype, if_neg (by rwa [List.isEmpty_iff]),
    if_neg (by rw [hhas]; exact Bool.false_ne_true), hstored]

/-- What has been found when a word is removed. -/
theorem remove_vt_word_ok {ws : List (SirenVTWord F)} {word : Option (List UInt8)}
    (h : (remove_vt_word ws word).1 = .SIREN_VT_OK) :
    ∃ name it, word = some name ∧ hasVTWord name ws = some it ∧
      remove_vt_word ws word = (.SIREN_VT_OK, ws.eraseIdx it) := by
  cases word with
  | none => cases h
  | some name =>
    unfold remove_vt_word at h ⊢
    dsimp only at h ⊢
    split at h
    · cases h
    · cases hhas : hasVTWord name ws with
      | none =>
        rw [hhas] at h
        cases h
      | some it =>
        rw [if_neg (by assumption)]
        exact ⟨name, it, rfl, hhas, rfl⟩

/-- A call that fails changes nothing; one that succeeds leaves no other words. -/
theorem remove_vt_word_cases (ws : List (SirenVTWord F)) (word : Option (List UInt8)) :
    ((remove_vt_word ws word).1 ≠ .SIREN_VT_OK ∧ (remove_vt_word ws word).2 = ws) ∨
      ((remove_vt_word ws word).1 = .SIREN_VT_OK ∧ ∀ w ∈ (remove_vt_word ws word).2, w ∈ ws) := by
  cases word with
  | none => exact .inl ⟨by simp [remove_vt_word], rfl⟩
  | some word =>
    unfold remove_vt_word
    dsimp only
    split
    · exact .inl ⟨by simp, rfl⟩
    · split
      · exact .inl ⟨by simp, rfl⟩
      · exact .inr ⟨rfl, fun w hw => List.mem_of_mem_eraseIdx hw⟩

end BlackSiren

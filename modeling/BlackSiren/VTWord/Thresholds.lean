import BlackSiren.VTWord.Pinyin

/-! # The default thresholds of a word

    `add_vt_word` counts the tones `1` to `4` in a phone before `pinyin2Phoneme` cuts
    it, and takes half a point off both thresholds for three or four of them, and a
    whole one for five or six.

    - `halves`: the half points taken off
    - `Falling`: what is wanted of the thresholds of two phones
    - `falling_iff`: when they are so
    - `falling_of_tones`: phones of at most six syllables with these tones
-/

namespace BlackSiren

/-! ### What is taken off -/

/-- How often half a point is taken off for so many tones. -/
def halves (m : Nat) : Nat :=
  if 3 ≤ m ∧ m ≤ 4 then 1 else if 5 ≤ m ∧ m ≤ 6 then 2 else 0

/-- The number of turns as the code computes it; it wraps for no tones. -/
theorem turns_eq (word_size : BitVec 32) :
    ((word_size + 1) / 2 - 1).toInt = ((word_size.toNat + 1) % 2 ^ 32 / 2 : Nat) - 1 := by
  have hlt := word_size.isLt
  have hsum : (word_size + 1).toNat = (word_size.toNat + 1) % 2 ^ 32 := BitVec.toNat_add _ _
  have hhalf : ((word_size + 1) / 2).toNat = (word_size.toNat + 1) % 2 ^ 32 / 2 := by
    rw [BitVec.toNat_udiv, hsum]
    rfl
  have hdiff : ((word_size + 1) / 2 - 1).toNat =
      ((word_size.toNat + 1) % 2 ^ 32 / 2 + (2 ^ 32 - 1)) % 2 ^ 32 := by
    rw [BitVec.toNat_sub, hhalf, Nat.add_comm]
    rfl
  rw [BitVec.toInt_eq_toNat_cond, hdiff]
  split <;> omega

theorem lowered_eq (score : ℚ) (word_size : BitVec 32) :
    lowered score ((word_size + 1) / 2 - 1).toInt = score - halves word_size.toNat / 2 := by
  have hlt := word_size.isLt
  have hturns := turns_eq word_size
  unfold lowered halves
  by_cases hone : 3 ≤ word_size.toNat ∧ word_size.toNat ≤ 4
  · have hecx : ((word_size + 1) / 2 - 1).toInt = 1 := by omega
    rw [hecx, if_pos hone, if_pos (by decide)]
    show score - 1 / 2 = score - (1 : Nat) / 2
    rw [Nat.cast_one]
  · rw [if_neg hone]
    by_cases htwo : 5 ≤ word_size.toNat ∧ word_size.toNat ≤ 6
    · have hecx : ((word_size + 1) / 2 - 1).toInt = 2 := by omega
      rw [hecx, if_pos htwo, if_pos (by decide)]
      show score - 1 / 2 - 1 / 2 = score - (2 : Nat) / 2
      rw [Nat.cast_ofNat]
      ring
    · rw [if_neg htwo, if_neg (by omega), Nat.cast_zero, zero_div, sub_zero]

theorem halves_le (m : Nat) : halves m ≤ 2 := by
  unfold halves
  split
  · omega
  · split <;> omega

theorem atLeast_of_le {least score : ℚ} (h : least ≤ score) : atLeast least score = score := by
  unfold atLeast
  apply if_neg
  show ¬ decide (score < least) = true
  rw [decide_eq_true_iff]
  exact not_lt.mpr h

/-- The lower bounds are never needed. -/
theorem defaultSettings_scores (word_size : BitVec 32) :
    (defaultSettings word_size : SirenVTAlgConfig ℚ).vt_block_avg_score =
        21 / 5 - halves word_size.toNat / 2 ∧
      (defaultSettings word_size : SirenVTAlgConfig ℚ).vt_block_min_score =
        27 / 10 - halves word_size.toNat / 2 := by
  have hle : (halves word_size.toNat : ℚ) ≤ 2 := by exact_mod_cast halves_le word_size.toNat
  unfold defaultSettings
  dsimp only
  rw [lowered_eq, lowered_eq]
  constructor
  · apply atLeast_of_le
    show (16 / 5 : ℚ) ≤ 21 / 5 - _
    linarith
  · apply atLeast_of_le
    show (17 / 10 : ℚ) ≤ 27 / 10 - _
    linarith

/-! ### What is wanted -/

/-- The syllables that `pinyin2Phoneme` looks up. -/
def matched (vt_phone : List UInt8) : Nat :=
  ((SirenPhonemeGen.cut (cstr vt_phone) [] []).getD []).length

/-- The word is accepted with default settings, and stored as `v`. -/
def Stores (gen : SirenPhonemeGen) (vt_words : List (SirenVTWord ℚ)) (w v : SirenVTWord ℚ) :
    Prop :=
  add_vt_word gen vt_words (some w) true = (.SIREN_VT_OK, some v, vt_words ++ [v])

instance (gen : SirenPhonemeGen) (ws : List (SirenVTWord ℚ)) (w v : SirenVTWord ℚ) :
    Decidable (Stores gen ws w v) := inferInstanceAs (Decidable (_ = _))

/-- The thresholds of a stored word are in their ranges. -/
def InRange (v : SirenVTWord ℚ) : Prop :=
  (16 / 5 ≤ v.alg_config.vt_block_avg_score ∧ v.alg_config.vt_block_avg_score ≤ 21 / 5) ∧
    17 / 10 ≤ v.alg_config.vt_block_min_score ∧ v.alg_config.vt_block_min_score ≤ 27 / 10

/-- Both are in range, and the word with no fewer syllables has no higher thresholds.
    Two words of as many syllables have then the same. -/
def Falling (w v w' v' : SirenVTWord ℚ) : Prop :=
  InRange v ∧ InRange v' ∧ (matched w.vt_phone ≤ matched w'.vt_phone →
    v'.alg_config.vt_block_avg_score ≤ v.alg_config.vt_block_avg_score ∧
      v'.alg_config.vt_block_min_score ≤ v.alg_config.vt_block_min_score)

/-! ### When they are so -/

/-- The first phone has less than three tones or more than six, or the second one has
    three to six; and five or six if the first one has. -/
def Covered (m m' : Nat) : Prop :=
  (3 ≤ m ∧ m ≤ 6 → 3 ≤ m' ∧ m' ≤ 6) ∧ (5 ≤ m ∧ m ≤ 6 → 5 ≤ m' ∧ m' ≤ 6)

theorem halves_le_iff (m m' : Nat) : halves m ≤ halves m' ↔ Covered m m' := by
  unfold halves Covered
  split_ifs <;> omega

theorem Stores.stored {gen : SirenPhonemeGen} {ws : List (SirenVTWord ℚ)} {w v : SirenVTWord ℚ}
    (h : Stores gen ws w v) : stored gen w true = some v := by
  obtain ⟨w', v', hw, _, _, _, hstored, hadd⟩ := add_vt_word_ok (congrArg Prod.fst h)
  have hv : some v = some v' := by
    rw [h] at hadd
    exact congrArg (fun r => r.2.1) hadd
  rw [Option.some.inj hw, hv, hstored]

theorem Stores.scores {gen : SirenPhonemeGen} {ws : List (SirenVTWord ℚ)} {w v : SirenVTWord ℚ}
    (h : Stores gen ws w v) :
    v.alg_config.vt_block_avg_score = 21 / 5 - halves (wordSize w.vt_phone).toNat / 2 ∧
      v.alg_config.vt_block_min_score = 27 / 10 - halves (wordSize w.vt_phone).toNat / 2 := by
  obtain ⟨pinyin, _, rfl⟩ := Option.map_eq_some_iff.mp h.stored
  exact defaultSettings_scores (wordSize w.vt_phone)

theorem Stores.inRange {gen : SirenPhonemeGen} {ws : List (SirenVTWord ℚ)} {w v : SirenVTWord ℚ}
    (h : Stores gen ws w v) : InRange v := by
  obtain ⟨havg, hmin⟩ := h.scores
  have hle : (halves (wordSize w.vt_phone).toNat : ℚ) ≤ 2 := by
    exact_mod_cast halves_le (wordSize w.vt_phone).toNat
  have hnonneg : (0 : ℚ) ≤ halves (wordSize w.vt_phone).toNat := Nat.cast_nonneg _
  unfold InRange
  rw [havg, hmin]
  exact ⟨⟨by linarith, by linarith⟩, by linarith, by linarith⟩

/-- The thresholds of two accepted words fall with the syllables exactly when the tones
    of the phones are as said. -/
theorem falling_iff {gen : SirenPhonemeGen} {ws ws' : List (SirenVTWord ℚ)}
    {w v w' v' : SirenVTWord ℚ} (h : Stores gen ws w v) (h' : Stores gen ws' w' v') :
    Falling w v w' v' ↔ (matched w.vt_phone ≤ matched w'.vt_phone →
      Covered (wordSize w.vt_phone).toNat (wordSize w'.vt_phone).toNat) := by
  obtain ⟨havg, hmin⟩ := h.scores
  obtain ⟨havg', hmin'⟩ := h'.scores
  have hscores : (v'.alg_config.vt_block_avg_score ≤ v.alg_config.vt_block_avg_score ∧
      v'.alg_config.vt_block_min_score ≤ v.alg_config.vt_block_min_score) ↔
      Covered (wordSize w.vt_phone).toNat (wordSize w'.vt_phone).toNat := by
    rw [havg, hmin, havg', hmin', ← halves_le_iff, ← Nat.cast_le (α := ℚ)]
    constructor
    · intro ⟨hle, _⟩
      linarith
    · intro hle
      exact ⟨by linarith, by linarith⟩
  unfold Falling
  rw [hscores]
  exact ⟨fun hf => hf.2.2, fun hc => ⟨h.inRange, h'.inRange, hc⟩⟩

/-! ### Phones with the tones `1` to `4` -/

/-- `1` to `4`: what `wordSize` counts. -/
def istone (c : UInt8) : Bool := 49 ≤ c && c ≤ 52

/-- Letters and one of the four tones. -/
def Toned (key : List UInt8) : Prop :=
  ∃ letters tone, key = letters ++ [tone] ∧ istone tone = true ∧
    ∀ c ∈ letters, SirenPhonemeGen.isletter c = true

theorem isdigit_of_istone {c : UInt8} (h : istone c = true) : isdigit c = true := by
  unfold istone at h
  unfold isdigit
  simp only [Bool.and_eq_true, decide_eq_true_iff, UInt8.le_iff_toNat_le, UInt8.toNat_ofNat] at h ⊢
  omega

theorem istone_of_isletter {c : UInt8} (h : SirenPhonemeGen.isletter c = true) :
    istone c = false := by
  cases hc : istone c with
  | false => rfl
  | true =>
    have hdigit := (SirenPhonemeGen.isletter_iff.mp h).2
    rw [isdigit_of_istone hc] at hdigit
    cases hdigit

theorem Toned.countP {key : List UInt8} (h : Toned key) : key.countP istone = 1 := by
  obtain ⟨letters, tone, rfl, htone, hletters⟩ := h
  have hnone : letters.countP istone = 0 := by
    rw [List.countP_eq_zero]
    intro c hc
    rw [istone_of_isletter (hletters c hc)]
    exact Bool.false_ne_true
  rw [List.countP_append, hnone, List.countP_singleton, htone]
  rfl

theorem Toned.closed {key : List UInt8} (h : Toned key) : Pieces.Closed isdigit key := by
  obtain ⟨letters, tone, rfl, htone, hletters⟩ := h
  exact ⟨letters, tone, rfl, isdigit_of_istone htone,
    fun c hc => (SirenPhonemeGen.isletter_iff.mp (hletters c hc)).2⟩

theorem Toned.isalnum {key : List UInt8} (h : Toned key) : ∀ c ∈ key, isalnum c = true := by
  obtain ⟨letters, tone, rfl, htone, hletters⟩ := h
  intro c hc
  rcases List.mem_append.mp hc with hc | hc
  · exact (SirenPhonemeGen.isletter_iff.mp (hletters c hc)).1
  · rw [List.mem_singleton.mp hc]
    exact SirenPhonemeGen.isalnum_of_isdigit (isdigit_of_istone htone)

/-- The two counts agree on a row of such syllables. -/
theorem wordSize_flatten {keys : List (List UInt8)} (h : ∀ key ∈ keys, Toned key) :
    wordSize keys.flatten = BitVec.ofNat 32 keys.length := by
  have hcount : keys.flatten.countP istone = keys.length := by
    rw [List.countP_flatten, List.map_congr_left fun key hkey => (h key hkey).countP,
      List.map_const', List.sum_replicate_nat, Nat.mul_one]
  exact congrArg (BitVec.ofNat 32) hcount

theorem matched_flatten {keys : List (List UInt8)} (h : ∀ key ∈ keys, Toned key) :
    matched keys.flatten = keys.length := by
  have hgood : ∀ c ∈ keys.flatten, isalnum c = true := by
    intro c hc
    obtain ⟨key, hkey, hc⟩ := List.mem_flatten.mp hc
    exact (h key hkey).isalnum c hc
  have hnul : (0 : UInt8) ∉ keys.flatten := fun h0 => absurd (hgood 0 h0) (by decide)
  have hcut := Pieces.cut_flatten_append (fun key hkey => (h key hkey).closed)
    (List.forall_mem_nil fun c => isdigit c = false)
  rw [List.append_nil] at hcut
  unfold matched
  rw [cstr_eq_self hnul, SirenPhonemeGen.cut_eq_some hgood (List.forall_mem_nil _),
    List.nil_append, List.nil_append, hcut]
  rfl

/-- Phones of up to six such syllables are as wanted. -/
theorem falling_of_tones {gen : SirenPhonemeGen} {ws ws' : List (SirenVTWord ℚ)}
    {w v w' v' : SirenVTWord ℚ} (h : Stores gen ws w v) (h' : Stores gen ws' w' v')
    {keys keys' : List (List UInt8)} (hw : w.vt_phone = keys.flatten)
    (hw' : w'.vt_phone = keys'.flatten) (hkeys : ∀ key ∈ keys, Toned key)
    (hkeys' : ∀ key ∈ keys', Toned key) (hsix : keys'.length ≤ 6) : Falling w v w' v' := by
  rw [falling_iff h h', hw, hw', matched_flatten hkeys, matched_flatten hkeys',
    wordSize_flatten hkeys, wordSize_flatten hkeys', BitVec.toNat_ofNat, BitVec.toNat_ofNat]
  intro hle
  rw [Nat.mod_eq_of_lt (by omega), Nat.mod_eq_of_lt (by omega)]
  unfold Covered
  omega

/-! ### Two syllables, six and seven -/

/-- A word of so many syllables `a1`. -/
def ofSyllables (n : Nat) : SirenVTWord ℚ where
  vt_type := VT_TYPE_AWAKE
  vt_word := [119]
  vt_phone := (List.replicate n [97, 49]).flatten
  use_default_config := true
  alg_config := defaultSettings 0

/-- What is stored for it with the table that has `xy` for `a1`. -/
def storedSyllables (n : Nat) : SirenVTWord ℚ :=
  { ofSyllables n with
    vt_phone := [32].intercalate (List.replicate n [120, 121])
    alg_config := defaultSettings (wordSize (ofSyllables n).vt_phone) }

theorem accepted_two :
    Stores SirenPhonemeGen.oneHead [] (ofSyllables 2) (storedSyllables 2) := by
  decide +kernel

theorem accepted_six :
    Stores SirenPhonemeGen.oneHead [] (ofSyllables 6) (storedSyllables 6) := by
  decide +kernel

theorem accepted_seven :
    Stores SirenPhonemeGen.oneHead [] (ofSyllables 7) (storedSyllables 7) := by
  decide +kernel

/-- From two syllables to six they fall. -/
theorem falling_two_six :
    Falling (ofSyllables 2) (storedSyllables 2) (ofSyllables 6) (storedSyllables 6) :=
  (falling_iff accepted_two accepted_six).mpr fun _ =>
    (halves_le_iff _ _).mp (by decide +kernel)

/-- From six syllables to seven they rise. -/
theorem six_seven_not_falling :
    ¬ ∀ (gen : SirenPhonemeGen) (ws ws' : List (SirenVTWord ℚ)) (w v w' v' : SirenVTWord ℚ),
      gen.Syllabic → Stores gen ws w v → Stores gen ws' w' v' → Falling w v w' v' := by
  intro h
  obtain ⟨_, _, hfalls⟩ := h _ _ _ _ _ _ _ SirenPhonemeGen.syllabic_oneHead accepted_six
    accepted_seven
  obtain ⟨havg, _⟩ := hfalls (by decide +kernel)
  obtain ⟨hsix, _⟩ := accepted_six.scores
  obtain ⟨hseven, _⟩ := accepted_seven.scores
  rw [hsix, hseven] at havg
  have hless : halves (wordSize (ofSyllables 6).vt_phone).toNat = 2 := by decide +kernel
  have hmore : halves (wordSize (ofSyllables 7).vt_phone).toNat = 0 := by decide +kernel
  rw [hless, hmore] at havg
  exact absurd havg (by norm_num)

end BlackSiren

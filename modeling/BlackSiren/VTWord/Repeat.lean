import BlackSiren.Framework.Keyed
import BlackSiren.VTWord.LoadPhoneme
import BlackSiren.VTWord.Thresholds

/-! # A word that is added, removed and added again

    `add_vt_word` writes the phonemes into the caller's word in place of the phone.
    Added again, the word is looked up by its phonemes.

    - `Repeats`: what is wanted
    - `remove_added`: the word is removed
    - `Stable`: phones whose phonemes can be looked up, with the same result
    - `SingleSyllable`: these phones in terms of the table
    - `repeats_iff_single`
-/

namespace BlackSiren

open SirenPhonemeGen (TableLine Token table phonemeText loadPhoneme loadPhoneme_of_good
  not_mem_phonemeText bar_mem_phonemeText shippedLines good_shippedLines)

variable {F : Type} [CFloat F] {gen : SirenPhonemeGen}

/-! ### What is wanted -/

/-- After the first call, which has left `w'` in the caller's word and the words `ws'`:
    removing the word succeeds, and so does adding it again, and the words are `ws'`
    once more. -/
def Repeats (gen : SirenPhonemeGen) (w' : SirenVTWord F) (d : Bool) (ws' : List (SirenVTWord F)) :
    Prop :=
  ∃ ws v, remove_vt_word ws' (some w'.vt_word) = (.SIREN_VT_OK, ws) ∧
    add_vt_word gen ws (some w') d = (.SIREN_VT_OK, v, ws')

/-- The phonemes of the phone are accepted as a phone, and are their own phonemes; and
    both phones give the same default settings, if these are wanted. -/
def Stable (gen : SirenPhonemeGen) (w : SirenVTWord F) (d : Bool) : Prop :=
  ∃ pinyin, gen.pinyin2Phoneme (cstr w.vt_phone) = some pinyin ∧
    gen.pinyin2Phoneme (cstr pinyin) = some pinyin ∧
    (d = true → (defaultSettings (wordSize pinyin) : SirenVTAlgConfig F) =
      defaultSettings (wordSize w.vt_phone))

/-! ### Removing what has just been added -/

omit [CFloat F] in
/-- The word that has just been added is the one that is removed. -/
theorem remove_added {ws : List (SirenVTWord F)} {w : SirenVTWord F}
    (h : hasVTWord w.vt_word ws = none) :
    remove_vt_word (ws ++ [w]) (some w.vt_word) = (.SIREN_VT_OK, ws) := by
  have hnone : Keyed.find? (fun v : SirenVTWord F => cstr v.vt_word) (cstr w.vt_word) ws = none := h
  have hfound : hasVTWord w.vt_word (ws ++ [w]) = some ws.length := Keyed.find?_concat hnone
  have hnonempty : (ws ++ [w]).isEmpty = false := by simp
  unfold remove_vt_word
  dsimp only
  rw [hnonempty, hfound, if_neg Bool.false_ne_true]
  have herase := Keyed.eraseIdx_length_append ws w []
  rw [List.append_nil] at herase
  simp only [herase]

/-! ### Adding it again -/

/-- What is stored when the word has been stored once. -/
theorem stored_again {w w' : SirenVTWord F} {d : Bool} (h : stored gen w d = some w') :
    stored gen w' d = some w' ↔ gen.pinyin2Phoneme (cstr w'.vt_phone) = some w'.vt_phone ∧
      (d = true → (defaultSettings (wordSize w'.vt_phone) : SirenVTAlgConfig F) =
        defaultSettings (wordSize w.vt_phone)) := by
  obtain ⟨pinyin, _, rfl⟩ := Option.map_eq_some_iff.mp h
  unfold stored
  rw [Option.map_eq_some_iff]
  constructor
  · rintro ⟨again, hagain, heq⟩
    have hphone : again = pinyin := congrArg SirenVTWord.vt_phone heq
    subst hphone
    refine ⟨hagain, ?_⟩
    intro hd
    have hconfig := congrArg SirenVTWord.alg_config heq
    simp only [hd, if_true] at hconfig
    exact hconfig
  · rintro ⟨hagain, hsettings⟩
    refine ⟨pinyin, hagain, ?_⟩
    cases d with
    | false => simp only [Bool.false_eq_true, if_false]
    | true =>
      simp only [if_true]
      rw [hsettings rfl]

/-- Removing and adding again gives the same words exactly if the phonemes are their
    own phonemes, with the same settings. -/
theorem repeats_iff_stable {ws ws' : List (SirenVTWord F)} {w w' : SirenVTWord F} {d : Bool}
    (h : add_vt_word gen ws (some w) d = (.SIREN_VT_OK, some w', ws')) :
    Repeats gen w' d ws' ↔ Stable gen w d := by
  obtain ⟨v, v', hv, hlegal, hne, hhas, hstored, hadd⟩ := add_vt_word_ok (congrArg Prod.fst h)
  obtain rfl := Option.some.inj hv
  rw [h] at hadd
  obtain ⟨hw', rfl⟩ := Prod.mk.inj (Prod.mk.inj hadd).2
  obtain rfl := Option.some.inj hw'
  have hword := stored_vt_word hstored
  have hnone : hasVTWord w'.vt_word ws = none := by rw [hword]; exact hhas
  have hagain : Repeats gen w' d (ws ++ [w']) ↔ stored gen w' d = some w' := by
    unfold Repeats
    rw [remove_added hnone]
    constructor
    · rintro ⟨ws₁, v, hws, hadd'⟩
      obtain rfl := (Prod.mk.inj hws).2
      obtain ⟨u, u', hu, _, _, _, hstored', hadd''⟩ := add_vt_word_ok (congrArg Prod.fst hadd')
      obtain rfl := Option.some.inj hu
      rw [hadd'] at hadd''
      have hlast := List.append_cancel_left (Prod.mk.inj (Prod.mk.inj hadd'').2).2
      rw [hstored', List.singleton_inj.mp hlast]
    · intro hstored'
      refine ⟨ws, some w', rfl, add_vt_word_eq ?_ ?_ hnone hstored'⟩
      · rw [stored_vt_type hstored]
        exact hlegal
      · rw [hword]
        exact hne
  obtain ⟨pinyin, hpinyin, hpw⟩ := Option.map_eq_some_iff.mp hstored
  have hphone : pinyin = w'.vt_phone := congrArg SirenVTWord.vt_phone hpw
  rw [hagain, stored_again hstored]
  unfold Stable
  rw [hpinyin, hphone]
  constructor
  · rintro ⟨hsame, hsettings⟩
    exact ⟨w'.vt_phone, rfl, hsame, hsettings⟩
  · rintro ⟨_, hsame, hrest⟩
    obtain rfl := Option.some.inj hsame
    exact hrest

/-! ### Which phones these are -/

theorem mem_intercalate_blank {results : List (List UInt8)} {a b : List UInt8} :
    (32 : UInt8) ∈ [32].intercalate (a :: b :: results) := by
  rw [List.intercalate_cons_cons]
  simp

/-- Phonemes that are letters and digits are those of one piece. -/
theorem pinyin2Phoneme_single {phone pinyin : List UInt8}
    (hgood : ∀ c ∈ pinyin, isalnum c = true) :
    gen.pinyin2Phoneme phone = some pinyin ↔
      (∀ c ∈ phone, isalnum c = true) ∧
        ∃ key, (Pieces.cut isdigit phone).1 = [key] ∧ gen.phonemeMaps key = some pinyin := by
  rw [SirenPhonemeGen.pinyin2Phoneme_eq_some_iff]
  constructor
  · rintro ⟨hphone, hne, results, hmap, rfl⟩
    refine ⟨hphone, ?_⟩
    cases hkeys : (Pieces.cut isdigit phone).1 with
    | nil => exact absurd hkeys hne
    | cons key keys =>
      rw [hkeys, List.mapM_cons] at hmap
      obtain ⟨r, hr, hmap⟩ := Option.bind_eq_some_iff.mp hmap
      obtain ⟨rs, hrs, hmap⟩ := Option.bind_eq_some_iff.mp hmap
      obtain rfl := Option.some.inj hmap
      -- a second piece would bring a blank
      cases keys with
      | nil =>
        obtain rfl := Option.some.inj hrs
        refine ⟨key, rfl, hr.trans (congrArg some ?_)⟩
        simp [List.intercalate]
      | cons key' keys =>
        rw [List.mapM_cons] at hrs
        obtain ⟨r', _, hrs⟩ := Option.bind_eq_some_iff.mp hrs
        obtain ⟨rs', _, hrs⟩ := Option.bind_eq_some_iff.mp hrs
        obtain rfl := Option.some.inj hrs
        exact absurd (hgood 32 mem_intercalate_blank) (by decide)
  · rintro ⟨hphone, key, hkey, hmap⟩
    refine ⟨hphone, ?_, [pinyin], ?_, ?_⟩
    · rw [hkey]
      exact List.cons_ne_nil _ _
    · rw [hkey, List.mapM_cons, hmap]
      rfl
    · simp [List.intercalate]

/-- Texts without NULs give phonemes without NULs. -/
theorem not_mem_pinyin (hnul : gen.NoNuls)
    {phone pinyin : List UInt8} (h : gen.pinyin2Phoneme phone = some pinyin) :
    (0 : UInt8) ∉ pinyin := by
  obtain ⟨_, _, results, hmap, rfl⟩ := SirenPhonemeGen.pinyin2Phoneme_eq_some_iff.mp h
  obtain ⟨_, rfl⟩ := SirenPhonemeGen.mapM_phonemeMaps_iff.mp hmap
  intro hmem
  rcases SirenPhonemeGen.mem_of_mem_intercalate hmem with hblank | ⟨text, htext, hmem⟩
  · cases hblank
  · obtain ⟨key, _, hkey⟩ := List.mem_filterMap.mp htext
    exact hnul key text hkey hmem

/-- The phone is a single syllable, perhaps with letters behind it; the text of the table
    for it is letters and digits with a single syllable, for which the table has the same
    text; and the tones of both give the same default settings, if these are wanted. -/
def SingleSyllable (gen : SirenPhonemeGen) (w : SirenVTWord F) (d : Bool) : Prop :=
  ∃ key key' text, (Pieces.cut isdigit (cstr w.vt_phone)).1 = [key] ∧
    gen.phonemeMaps key = some text ∧ (∀ c ∈ text, isalnum c = true) ∧
    (Pieces.cut isdigit text).1 = [key'] ∧ gen.phonemeMaps key' = some text ∧
    (d = true → (defaultSettings (wordSize text) : SirenVTAlgConfig F) =
      defaultSettings (wordSize w.vt_phone))

/-- A stable phone is such a syllable, and so are its phonemes. -/
theorem stable_iff_single (hnul : gen.NoNuls) (w : SirenVTWord F) (d : Bool) :
    Stable gen w d ↔ (∀ c ∈ cstr w.vt_phone, isalnum c = true) ∧ SingleSyllable gen w d := by
  unfold Stable SingleSyllable
  constructor
  · rintro ⟨pinyin, hfirst, hagain, hsettings⟩
    have hplain : (0 : UInt8) ∉ pinyin := not_mem_pinyin hnul hfirst
    rw [cstr_eq_self hplain] at hagain
    have hgood := (SirenPhonemeGen.pinyin2Phoneme_eq_some_iff.mp hagain).1
    obtain ⟨hphone, key, hkey, hmap⟩ := (pinyin2Phoneme_single hgood).mp hfirst
    obtain ⟨_, key', hkey', hmap'⟩ := (pinyin2Phoneme_single hgood).mp hagain
    exact ⟨hphone, key, key', pinyin, hkey, hmap, hgood, hkey', hmap', hsettings⟩
  · rintro ⟨hphone, key, key', pinyin, hkey, hmap, hgood, hkey', hmap', hsettings⟩
    refine ⟨pinyin, (pinyin2Phoneme_single hgood).mpr ⟨hphone, key, hkey, hmap⟩, ?_, hsettings⟩
    rw [cstr_eq_self (hnul key pinyin hmap)]
    exact (pinyin2Phoneme_single hgood).mpr ⟨hgood, key', hkey', hmap'⟩

/-- With a table that `loadPhoneme` has read, a word that has been added can be removed and
    added again, for the same words, exactly if its phone is such a syllable. -/
theorem repeats_iff_single {PHONEME : List UInt8} {fuel offset : Nat}
    {phonemeMaps : List UInt8 → Option PhonemeEle}
    (hload : loadPhoneme PHONEME fuel = .ok (offset, phonemeMaps))
    {ws ws' : List (SirenVTWord F)} {w w' : SirenVTWord F} {d : Bool}
    (h : add_vt_word (.ofMaps phonemeMaps) ws (some w) d = (.SIREN_VT_OK, some w', ws')) :
    Repeats (.ofMaps phonemeMaps) w' d ws' ↔ SingleSyllable (.ofMaps phonemeMaps) w d := by
  have hstable := stable_iff_single (SirenPhonemeGen.loadPhoneme_noNuls hload) w d
  -- the phone has been accepted once
  obtain ⟨v, v', hv, _, _, _, hstored, _⟩ := add_vt_word_ok (congrArg Prod.fst h)
  obtain rfl := Option.some.inj hv
  obtain ⟨pinyin, hpinyin, _⟩ := Option.map_eq_some_iff.mp hstored
  have hphone := (SirenPhonemeGen.pinyin2Phoneme_eq_some_iff.mp hpinyin).1
  rw [repeats_iff_stable h, hstable, and_iff_right hphone]

/-- A table whose texts all have a mark, as the ones with `_` and `|` have, knows no
    such phone. -/
theorem not_stable_of_marked
    (hmark : ∀ key text, gen.phonemeMaps key = some text →
      (0 : UInt8) ∉ text ∧ ∃ c ∈ text, isalnum c = false)
    (w : SirenVTWord F) (d : Bool) : ¬ Stable gen w d := by
  rw [stable_iff_single fun key text h => (hmark key text h).1]
  rintro ⟨_, key, _, pinyin, _, hmap, hgood, _⟩
  obtain ⟨_, c, hc, hbad⟩ := hmark key pinyin hmap
  rw [hgood c hc] at hbad
  cases hbad

/-- With a table whose lines have an underscore in the first content, as all the shipped
    ones do, no registration can be repeated. -/
theorem not_stable_of_table {F : Type} [CFloat F] {lines : List TableLine}
    (hgood : ∀ l ∈ lines, l.Good)
    (hmark : ∀ l ∈ lines, ∃ content rest, l.contents = content :: rest ∧ 95 ∈ content)
    {phonemeMaps : List UInt8 → Option PhonemeEle}
    (hmaps : ∀ head, (phonemeMaps head).map PhonemeEle.result =
      (lines.find? fun l => l.head = head).map fun l => phonemeText l.contents)
    (w : SirenVTWord F) (d : Bool) : ¬ Stable (SirenPhonemeGen.ofMaps phonemeMaps) w d := by
  apply not_stable_of_marked
  intro key text htext
  have htext : (lines.find? fun l => l.head = key).map (fun l => phonemeText l.contents) =
      some text := (hmaps key).symm.trans htext
  obtain ⟨l, hfind, rfl⟩ := Option.map_eq_some_iff.mp htext
  have hl := List.mem_of_find?_eq_some hfind
  constructor
  · exact not_mem_phonemeText fun t ht => ((hgood l hl).contents t ht).not_mem.2.2
  · obtain ⟨content, rest, hcontents, hmem⟩ := hmark l hl
    rw [hcontents]
    exact ⟨124, bar_mem_phonemeText hmem rest, by decide⟩

/-! ### Two tables -/

/-- A word with the phone `a1`. -/
def wordA1 : SirenVTWord ℚ where
  vt_type := VT_TYPE_AWAKE
  vt_word := [119]
  vt_phone := [97, 49]
  use_default_config := true
  alg_config := defaultSettings 1

/-- Another word that is there already. -/
def wordB : SirenVTWord ℚ := { wordA1 with vt_word := [118] }

/-- A table of one line, which has `a1` for `a1`. -/
def plainLines : List TableLine := [⟨[97, 49], [[97, 49]]⟩]

def plainMaps : List UInt8 → Option PhonemeEle :=
  plainLines.foldl (fun maps l => SirenPhonemeGen.insert maps l.entry) fun _ => none

theorem good_plainLines : ∀ l ∈ plainLines, l.Good := by
  have htoken : Token [97, 49] := ⟨by decide, by decide +kernel⟩
  intro l hl
  obtain rfl := List.mem_singleton.mp hl
  exact ⟨htoken, List.forall_mem_singleton.mpr htoken, List.cons_ne_nil _ _, by decide +kernel⟩

/-- With this table the word can be added again, behind the other one. -/
theorem repeats_plainLines : ∃ phonemeMaps,
    loadPhoneme (table plainLines) 10 = .ok (0, phonemeMaps) ∧
      Repeats (.ofMaps phonemeMaps) wordA1 true [wordB, wordA1] := by
  have hload : loadPhoneme (table plainLines) 10 = .ok (0, plainMaps) :=
    loadPhoneme_of_good (List.cons_ne_nil _ _) good_plainLines
      (show (table plainLines).length ≤ 10 by decide)
  refine ⟨plainMaps, hload, ?_⟩
  have hadd : add_vt_word (.ofMaps plainMaps) [wordB] (some wordA1) true =
      (.SIREN_VT_OK, some wordA1, [wordB, wordA1]) := by
    decide +kernel
  exact (repeats_iff_single hload hadd).mpr ⟨[97, 49], [97, 49], [97, 49], by decide +kernel,
    by decide +kernel, by decide +kernel, by decide +kernel, by decide +kernel, fun _ => rfl⟩

/-- The word as the shipped table, which has `a1|a1_S` for `a1`, leaves it. -/
def markedA1 : SirenVTWord ℚ := { wordA1 with
  vt_phone := [97, 49, 124, 97, 49, 95, 83] }

/-- There it is refused, as one is with every text that has such a mark. -/
theorem marked_not_repeats : ¬ ∀ (PHONEME : List UInt8) (fuel offset : Nat)
    (phonemeMaps : List UInt8 → Option PhonemeEle),
    loadPhoneme PHONEME fuel = .ok (offset, phonemeMaps) →
    ∀ (ws ws' : List (SirenVTWord ℚ)) (w w' : SirenVTWord ℚ) (d : Bool),
      add_vt_word (.ofMaps phonemeMaps) ws (some w) d = (.SIREN_VT_OK, some w', ws') →
        Repeats (.ofMaps phonemeMaps) w' d ws' := by
  intro h
  have hload := loadPhoneme_of_good (List.cons_ne_nil _ _) good_shippedLines
    (show (table shippedLines).length ≤ 50 by decide)
  obtain ⟨ws, v, hremove, hadd⟩ :=
    h _ _ _ _ hload [] [markedA1] wordA1 markedA1 true (by decide +kernel)
  have hws : remove_vt_word [markedA1] (some markedA1.vt_word) = (.SIREN_VT_OK, []) := by
    decide +kernel
  rw [hws] at hremove
  obtain rfl := (Prod.mk.inj hremove).2
  -- the phonemes are no phone
  have hfst : SirenVT.SIREN_VT_ERROR = .SIREN_VT_OK := congrArg Prod.fst hadd
  cases hfst

end BlackSiren

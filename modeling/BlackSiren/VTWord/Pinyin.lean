import BlackSiren.Framework.Pieces
import BlackSiren.VTWord.Registry

/-! # What `pinyin2Phoneme` accepts

    The tokenizer cuts the pinyin behind each digit and looks every piece up.

    - `pinyin2Phoneme_eq_some_iff`: its result in terms of the pieces
    - `Syllabic`: tables whose heads are letters followed by a digit
    - `readsHeads_iff`: it accepts rows of heads, and also rows of heads with
      letters behind them
-/

namespace BlackSiren

namespace SirenPhonemeGen

variable (gen : SirenPhonemeGen)

/-! ### The tokenizer -/

/-- A character that is no digit goes on with the piece at hand. -/
theorem cut_eq_none {p q : List UInt8} {targets : List (List UInt8)}
    (h : ∃ c ∈ p, isalnum c = false) : cut p q targets = none := by
  induction p generalizing q targets with
  | nil =>
    obtain ⟨c, hc, _⟩ := h
    cases hc
  | cons c p ih =>
    unfold cut
    cases hc : isalnum c with
    | false => rfl
    | true =>
      have hrest : ∃ c ∈ p, isalnum c = false := by
        obtain ⟨d, hd, hbad⟩ := h
        rcases List.mem_cons.mp hd with rfl | hd
        · rw [hc] at hbad
          cases hbad
        · exact ⟨d, hd, hbad⟩
      simp only [Bool.not_true, Bool.false_eq_true, if_false]
      split
      · exact ih hrest
      · exact ih hrest

/-- Letters and digits are cut behind each digit; what is left over is dropped. -/
theorem cut_eq_some {p q : List UInt8} {targets : List (List UInt8)}
    (hp : ∀ c ∈ p, isalnum c = true) (hq : ∀ c ∈ q, isdigit c = false) :
    cut p q targets = some (targets ++ (Pieces.cut isdigit (q ++ p)).1) := by
  induction p generalizing q targets with
  | nil => rw [List.append_nil, Pieces.cut_of_open hq, List.append_nil, cut]
  | cons c p ih =>
    rw [List.forall_mem_cons] at hp
    unfold cut
    rw [hp.1]
    simp only [Bool.not_true, Bool.false_eq_true, if_false]
    cases hc : isdigit c with
    | true =>
      -- the piece ends here
      rw [if_pos rfl, ih hp.2 (by simp), Pieces.cut_open_append hq hc, List.nil_append,
        List.append_assoc]
      rfl
    | false =>
      have hq' : ∀ d ∈ q ++ [c], isdigit d = false := by
        intro d hd
        rcases List.mem_append.mp hd with hd | hd
        · exact hq d hd
        · rw [List.mem_singleton.mp hd]
          exact hc
      rw [if_neg Bool.false_ne_true, ih hp.2 hq', List.append_assoc]
      rfl

/-- The second loop looks up every piece. -/
theorem lookup_eq (targets : List (List UInt8)) (finalResult : List UInt8) :
    gen.lookup targets finalResult = (targets.mapM gen.phonemeMaps).map fun results =>
      finalResult ++ results.flatMap (· ++ [32]) := by
  induction targets generalizing finalResult with
  | nil => simp [lookup]
  | cons str targets ih =>
    rw [lookup, List.mapM_cons]
    cases gen.phonemeMaps str with
    | none => rfl
    | some result =>
      show gen.lookup targets (finalResult ++ result ++ [32]) = _
      rw [ih]
      cases targets.mapM gen.phonemeMaps with
      | none => rfl
      | some results =>
        show some _ = some (finalResult ++ (result :: results).flatMap (· ++ [32]))
        rw [List.flatMap_cons]
        simp only [List.append_assoc]

/-- A blank behind each result is a blank between them and one at the end. -/
theorem flatMap_blank {results : List (List UInt8)} (h : results ≠ []) :
    results.flatMap (· ++ [32]) = [32].intercalate results ++ [32] := by
  induction results with
  | nil => exact absurd rfl h
  | cons r results ih =>
    cases results with
    | nil => simp [List.intercalate]
    | cons r' results =>
      rw [List.flatMap_cons, ih (List.cons_ne_nil _ _), List.intercalate_cons_cons]
      simp only [List.append_assoc]

theorem mem_of_mem_intercalate {results : List (List UInt8)} {c : UInt8}
    (h : c ∈ [32].intercalate results) : c = 32 ∨ ∃ text ∈ results, c ∈ text := by
  by_cases hne : results = []
  · subst hne
    cases h
  · have hmem : c ∈ results.flatMap (· ++ [32]) := by
      rw [flatMap_blank hne]
      exact List.mem_append_left _ h
    obtain ⟨text, htext, hc⟩ := List.mem_flatMap.mp hmem
    rcases List.mem_append.mp hc with hc | hc
    · exact .inr ⟨text, htext, hc⟩
    · exact .inl (List.mem_singleton.mp hc)

variable {gen}

/-- The pieces of the pinyin and what the table has for them. -/
theorem pinyin2Phoneme_eq_some_iff {pinyin result : List UInt8} :
    gen.pinyin2Phoneme pinyin = some result ↔
      (∀ c ∈ pinyin, isalnum c = true) ∧ (Pieces.cut isdigit pinyin).1 ≠ [] ∧
        ∃ results, (Pieces.cut isdigit pinyin).1.mapM gen.phonemeMaps = some results ∧
          result = [32].intercalate results := by
  by_cases hgood : ∀ c ∈ pinyin, isalnum c = true
  · have hcut : cut pinyin [] [] = some (Pieces.cut isdigit pinyin).1 :=
      cut_eq_some hgood (by simp)
    unfold pinyin2Phoneme
    rw [hcut]
    show (if (Pieces.cut isdigit pinyin).1.isEmpty then none else _) = some result ↔ _
    cases hpieces : (Pieces.cut isdigit pinyin).1 with
    | nil => simp
    | cons str targets =>
      show (gen.lookup (str :: targets) []).bind (fun finalResult => some
        (finalResult.take (finalResult.length - 1))) = some result ↔ _
      rw [lookup_eq]
      cases hmap : (str :: targets).mapM gen.phonemeMaps with
      | none => simp
      | some results =>
        have hresults : results ≠ [] := by
          rw [List.mapM_cons] at hmap
          obtain ⟨r, -, hmap⟩ := Option.bind_eq_some_iff.mp hmap
          obtain ⟨rs, -, hmap⟩ := Option.bind_eq_some_iff.mp hmap
          rw [← Option.some.inj hmap]
          exact List.cons_ne_nil r rs
        -- the blank behind the last result is cut off again
        show some ((results.flatMap (· ++ [32])).take
          ((results.flatMap (· ++ [32])).length - 1)) = some result ↔ _
        rw [flatMap_blank hresults, List.length_append, List.length_singleton,
          Nat.add_sub_cancel, List.take_left' rfl]
        constructor
        · intro h
          exact ⟨hgood, List.cons_ne_nil _ _, results, rfl, (Option.some.inj h).symm⟩
        · rintro ⟨-, -, _, hsame, rfl⟩
          rw [Option.some.inj hsame]
  · constructor
    · intro h
      have hbad : ∃ c ∈ pinyin, isalnum c = false := by
        push Not at hgood
        obtain ⟨c, hc, hbad⟩ := hgood
        exact ⟨c, hc, Bool.eq_false_iff.mpr hbad⟩
      unfold pinyin2Phoneme at h
      rw [cut_eq_none hbad] at h
      cases h
    · rintro ⟨h, -⟩
      exact absurd h hgood

/-! ### Rows of heads -/

/-- A character of `isalnum` that is no digit. -/
def isletter (c : UInt8) : Bool := isalnum c && !isdigit c

/-- Every head of the table is letters and one digit. -/
def Syllabic (gen : SirenPhonemeGen) : Prop :=
  ∀ head, (gen.phonemeMaps head).isSome = true → ∃ letters tone, head = letters ++ [tone] ∧
    letters ≠ [] ∧ (∀ c ∈ letters, isletter c = true) ∧ isdigit tone = true

/-- Some heads of the table, at least one. -/
structure Heads (gen : SirenPhonemeGen) (keys : List (List UInt8)) : Prop where
  nonempty : keys ≠ []
  found : ∀ key ∈ keys, (gen.phonemeMaps key).isSome = true

/-- The phonemes of some heads, with single blanks between them. -/
def phonemes (gen : SirenPhonemeGen) (keys : List (List UInt8)) : List UInt8 :=
  [32].intercalate (keys.filterMap gen.phonemeMaps)

/-- `pinyin2Phoneme` with its two arguments: what it returns, and `result`
    afterwards. -/
def pinyin2Phoneme' (gen : SirenPhonemeGen) (pinyin : Option (List UInt8))
    (result : List UInt8) : Bool × List UInt8 :=
  match pinyin with
  | none => (false, result)
  | some pinyin =>
      match gen.pinyin2Phoneme (cstr pinyin) with
      | some finalResult => (true, finalResult)
      | none => (false, result)

/-- The call accepts exactly the rows of heads, gives their phonemes, and leaves
    `result` alone when it refuses. -/
structure ReadsHeads (gen : SirenPhonemeGen) (pinyin result : List UInt8) : Prop where
  accepts : (gen.pinyin2Phoneme' (some pinyin) result).1 = true ↔
    ∃ keys, gen.Heads keys ∧ cstr pinyin = keys.flatten
  phonemes : ∀ keys, gen.Heads keys → cstr pinyin = keys.flatten →
    gen.pinyin2Phoneme' (some pinyin) result = (true, gen.phonemes keys)
  untouched : (gen.pinyin2Phoneme' (some pinyin) result).1 = false →
    (gen.pinyin2Phoneme' (some pinyin) result).2 = result

theorem isalnum_of_isdigit {c : UInt8} (h : isdigit c = true) : isalnum c = true := by
  unfold isalnum
  rw [h]
  rfl

theorem isletter_iff {c : UInt8} : isletter c = true ↔ isalnum c = true ∧ isdigit c = false := by
  unfold isletter
  rw [Bool.and_eq_true, Bool.not_eq_true']

/-- A head is a piece. -/
theorem Syllabic.closed (h : gen.Syllabic) {key : List UInt8}
    (hkey : (gen.phonemeMaps key).isSome = true) : Pieces.Closed isdigit key := by
  obtain ⟨letters, tone, rfl, -, hletters, htone⟩ := h key hkey
  refine ⟨letters, tone, rfl, htone, ?_⟩
  intro c hc
  exact (isletter_iff.mp (hletters c hc)).2

theorem Syllabic.isalnum (h : gen.Syllabic) {key : List UInt8}
    (hkey : (gen.phonemeMaps key).isSome = true) : ∀ c ∈ key, isalnum c = true := by
  obtain ⟨letters, tone, rfl, -, hletters, htone⟩ := h key hkey
  intro c hc
  rcases List.mem_append.mp hc with hc | hc
  · exact (isletter_iff.mp (hletters c hc)).1
  · rw [List.mem_singleton.mp hc]
    exact isalnum_of_isdigit htone

/-- Looking up heads. -/
theorem mapM_phonemeMaps_iff {keys results : List (List UInt8)} :
    keys.mapM gen.phonemeMaps = some results ↔
      (∀ key ∈ keys, (gen.phonemeMaps key).isSome = true) ∧
        results = keys.filterMap gen.phonemeMaps := by
  induction keys generalizing results with
  | nil =>
    constructor
    · intro h
      exact ⟨by simp, (Option.some.inj h).symm⟩
    · rintro ⟨-, rfl⟩
      rfl
  | cons key keys ih =>
    rw [List.mapM_cons, List.forall_mem_cons]
    cases hkey : gen.phonemeMaps key with
    | none => simp
    | some r =>
      rw [List.filterMap_cons_some hkey]
      constructor
      · intro h
        change ((keys.mapM gen.phonemeMaps).bind fun rs => some (r :: rs)) = _ at h
        obtain ⟨rs, hrs, h⟩ := Option.bind_eq_some_iff.mp h
        obtain ⟨hfound, rfl⟩ := ih.mp hrs
        exact ⟨⟨rfl, hfound⟩, (Option.some.inj h).symm⟩
      · rintro ⟨⟨-, hfound⟩, rfl⟩
        show (keys.mapM gen.phonemeMaps).bind _ = _
        rw [ih.mpr ⟨hfound, rfl⟩]
        rfl

/-- What is accepted: a row of heads, with or without letters behind it. -/
theorem pinyin2Phoneme_eq_some_iff_heads (h : gen.Syllabic) {pinyin result : List UInt8} :
    gen.pinyin2Phoneme pinyin = some result ↔ ∃ keys tail, gen.Heads keys ∧
      (∀ c ∈ tail, isletter c = true) ∧ pinyin = keys.flatten ++ tail ∧
        result = gen.phonemes keys := by
  rw [pinyin2Phoneme_eq_some_iff]
  constructor
  · rintro ⟨hgood, hne, results, hmap, rfl⟩
    obtain ⟨hfound, rfl⟩ := mapM_phonemeMaps_iff.mp hmap
    refine ⟨_, (Pieces.cut isdigit pinyin).2, ⟨hne, hfound⟩, ?_,
      (Pieces.flatten_cut isdigit pinyin).symm, rfl⟩
    intro c hc
    refine isletter_iff.mpr ⟨hgood c ?_, Pieces.rest_open pinyin c hc⟩
    rw [← Pieces.flatten_cut isdigit pinyin]
    exact List.mem_append_right _ hc
  · rintro ⟨keys, tail, hkeys, htail, rfl, rfl⟩
    -- the text can be cut in no other way
    have hcut : Pieces.cut isdigit (keys.flatten ++ tail) = (keys, tail) := by
      apply Pieces.cut_flatten_append
      · intro key hkey
        exact h.closed (hkeys.found key hkey)
      · intro c hc
        exact (isletter_iff.mp (htail c hc)).2
    rw [hcut]
    refine ⟨?_, hkeys.nonempty, _, mapM_phonemeMaps_iff.mpr ⟨hkeys.found, rfl⟩, rfl⟩
    intro c hc
    rcases List.mem_append.mp hc with hc | hc
    · obtain ⟨key, hkey, hc⟩ := List.mem_flatten.mp hc
      exact h.isalnum (hkeys.found key hkey) c hc
    · exact (isletter_iff.mp (htail c hc)).1

/-- The tokenizer reads its input as claimed unless letters follow a row of
    heads: these it drops. -/
theorem readsHeads_iff (h : gen.Syllabic) (pinyin result : List UInt8) :
    gen.ReadsHeads pinyin result ↔
      ¬ ∃ keys tail, gen.Heads keys ∧ tail ≠ [] ∧ (∀ c ∈ tail, isletter c = true) ∧
        cstr pinyin = keys.flatten ++ tail := by
  constructor
  · rintro ⟨haccepts, -, -⟩ ⟨keys, tail, hkeys, hne, htail, hpinyin⟩
    have hsome : gen.pinyin2Phoneme (cstr pinyin) = some (gen.phonemes keys) :=
      (pinyin2Phoneme_eq_some_iff_heads h).mpr ⟨keys, tail, hkeys, htail, hpinyin, rfl⟩
    have htrue : (gen.pinyin2Phoneme' (some pinyin) result).1 = true := by
      simp only [pinyin2Phoneme', hsome]
    -- accepted, and yet no row of heads: a row of heads is cut without a rest
    obtain ⟨keys', hkeys', hpinyin'⟩ := haccepts.mp htrue
    have hclosed : ∀ {ks : List (List UInt8)}, gen.Heads ks →
        ∀ key ∈ ks, Pieces.Closed isdigit key := fun hks key hkey => h.closed (hks.found key hkey)
    have hcut := Pieces.cut_flatten_append (hclosed hkeys)
      fun c hc => (isletter_iff.mp (htail c hc)).2
    have hcut' := Pieces.cut_flatten_append (hclosed hkeys') (List.forall_mem_nil _)
    rw [List.append_nil, ← hpinyin', hpinyin, hcut] at hcut'
    exact hne (congrArg Prod.snd hcut')
  · intro hnot
    -- whatever is accepted has no letters behind it
    have hread : ∀ {r : List UInt8}, gen.pinyin2Phoneme (cstr pinyin) = some r →
        ∃ keys, gen.Heads keys ∧ cstr pinyin = keys.flatten := by
      intro r hr
      obtain ⟨keys, tail, hkeys, htail, hpinyin, -⟩ := (pinyin2Phoneme_eq_some_iff_heads h).mp hr
      cases tail with
      | nil => exact ⟨keys, hkeys, by rw [hpinyin, List.append_nil]⟩
      | cons c tail =>
        exact absurd ⟨keys, c :: tail, hkeys, List.cons_ne_nil _ _, htail, hpinyin⟩ hnot
    have hgives : ∀ keys, gen.Heads keys → cstr pinyin = keys.flatten →
        gen.pinyin2Phoneme (cstr pinyin) = some (gen.phonemes keys) := by
      intro keys hkeys hpinyin
      exact (pinyin2Phoneme_eq_some_iff_heads h).mpr
        ⟨keys, [], hkeys, by simp, by rw [hpinyin, List.append_nil], rfl⟩
    refine ⟨?_, ?_, ?_⟩
    · unfold pinyin2Phoneme'
      constructor
      · intro htrue
        cases hr : gen.pinyin2Phoneme (cstr pinyin) with
        | none =>
          simp only [hr] at htrue
          cases htrue
        | some r => exact hread hr
      · rintro ⟨keys, hkeys, hpinyin⟩
        simp only [hgives keys hkeys hpinyin]
    · intro keys hkeys hpinyin
      simp only [pinyin2Phoneme', hgives keys hkeys hpinyin]
    · unfold pinyin2Phoneme'
      intro hfalse
      cases hr : gen.pinyin2Phoneme (cstr pinyin) with
      | none => simp only [hr]
      | some r =>
        simp only [hr] at hfalse
        cases hfalse

/-- One head, `a1`, that stands for `xy`. -/
def oneHead : SirenPhonemeGen where
  phonemeMaps := fun head => if head = [97, 49] then some [120, 121] else none

theorem syllabic_oneHead : oneHead.Syllabic := by
  intro head hhead
  have heq : head = [97, 49] := by
    by_contra hne
    simp [oneHead, hne] at hhead
  exact ⟨[97], 49, heq, by decide, List.forall_mem_singleton.mpr (by decide), by decide⟩

theorem heads_oneHead {keys : List (List UInt8)} (h : oneHead.Heads keys) :
    ∀ key ∈ keys, key = [97, 49] := by
  intro key hkey
  have hfound := h.found key hkey
  by_contra hne
  simp [oneHead, hne] at hfound

/-- `a1` is read as it should be: it does not end in a letter. -/
theorem readsHeads_iff_a1 : oneHead.ReadsHeads [97, 49] [0] := by
  refine (readsHeads_iff syllabic_oneHead [97, 49] [0]).mpr ?_
  rintro ⟨keys, tail, -, hne, htail, hpinyin⟩
  have hlast : ([97, 49] : List UInt8).getLast? = tail.getLast? := by
    have hsplit : ([97, 49] : List UInt8) = keys.flatten ++ tail := hpinyin
    rw [hsplit, List.getLast?_append_of_ne_nil _ hne]
  have hmem : (49 : UInt8) ∈ tail := List.mem_of_getLast? hlast.symm
  exact absurd (htail 49 hmem) (by decide)

/-- `a1b` is accepted. -/
theorem letters_dropped : ¬ ∀ (gen : SirenPhonemeGen), gen.Syllabic →
    ∀ pinyin result : List UInt8, gen.ReadsHeads pinyin result := by
  intro h
  obtain ⟨haccepts, -, -⟩ := h oneHead syllabic_oneHead [97, 49, 98] []
  obtain ⟨keys, hkeys, hpinyin⟩ := haccepts.mp rfl
  -- the text of a row of `a1` has no other letters
  have hmem : (98 : UInt8) ∈ keys.flatten := by
    rw [← hpinyin]
    decide
  obtain ⟨key, hkey, hmem⟩ := List.mem_flatten.mp hmem
  rw [heads_oneHead hkeys key hkey] at hmem
  exact absurd hmem (by decide)

end SirenPhonemeGen

end BlackSiren

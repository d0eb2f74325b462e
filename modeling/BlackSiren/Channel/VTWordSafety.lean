import BlackSiren.Channel.VTWordCodec
import BlackSiren.Framework.Access

/-! # Where reading the wake words leads

    `getVTWordFromMessage` takes the count, the lengths of the records and the
    sizes of the strings from the data, and checks no more than that the data
    is as long as that many fixed parts.

    - `Sound`: no read outside the data, and an error or strings inside their
      own records
    - `ReadsInside`, `Refused`, `Lies`: what the bytes of one record say
    - `Walk`, `Stops`, `Fit`: the same for the records one after the other
    - `decodeRecord_cases`: the record; `decodeRecords_cases`: the loop
    - `reading_sound_iff`: when the outcome is sound, from the bytes
-/

namespace BlackSiren

open Buffers Bytes

namespace VTWordData

variable {F : Type}

/-! ### What is wanted -/

/-- The string `s`, with its NUL, lies at `p`, inside the record of `total_len`
    bytes at `k`. -/
def StringIn (data : List UInt8) (k total_len p : Int) (s : List UInt8) : Prop :=
  k ≤ p ∧ p + s.length + 1 ≤ k + total_len ∧
    (data.drop p.toNat).take (s.length + 1) = s ++ [0]

/-- The strings of a word lie in the record at `k`. -/
def WordIn [CFloat F] (data : List UInt8) (k : Int) (config : UnpackedVTConfig F)
    (vt : SirenVTWord F) : Prop :=
  let word_at := k + sizeofUnpackedVTConfig
  let phone_at := word_at + config.vt_word_size + 1
  let nnet_at := phone_at + config.vt_phone_size + 1
  StringIn data k config.total_len word_at vt.vt_word ∧
    StringIn data k config.total_len phone_at vt.vt_phone ∧
    if config.vt_nnet_path_size = 0 then vt.alg_config.nnet_path = []
    else StringIn data k config.total_len nnet_at vt.alg_config.nnet_path

/-- So do those of each word of a list, the first in the record at `k`. -/
def WordsIn [CFloat F] (data : List UInt8) : Int → List (SirenVTWord F) → Prop
  | _, [] => True
  | k, vt :: vts => ∃ config, UnpackedVTConfig.load data k = .ok config ∧
      WordIn data k config vt ∧ WordsIn data (k + config.total_len) vts

/-- No read leads outside the data; the status is negative, or it is 0 and every
    new string lies inside its own record. -/
def Sound [CFloat F] (m : Message) (vt_words : List (SirenVTWord F)) : Prop :=
  ∃ status ws, getVTWordFromMessage (some m) vt_words = some (status, ws) ∧
    (status < 0 ∨ status = 0 ∧ ∃ vts, ws = vt_words ++ vts ∧ WordsIn m.data (4 * 4) vts)

/-! ### What the bytes say -/

/-- The `int` at `p`. -/
def intAt (data : List UInt8) (p : Int) : Int := ofLE32 ((data.drop p.toNat).take 4)

/-- A byte inside the data. -/
def Within (data : List UInt8) (p : Int) : Prop := 0 ≤ p ∧ p < data.length

/-- A NUL. -/
def NulAt (data : List UInt8) (p : Int) : Prop := data[p.toNat]? = some 0

/-- A string that starts at `p` comes to its NUL inside the data. -/
def Ends (data : List UInt8) (p : Int) : Prop := (0 : UInt8) ∈ data.drop p.toNat

section

variable (data : List UInt8) (k : Int)

/-- The bytes that have to be NULs: behind the word, the phones and the path, by
    the sizes in the record at `k`. -/
def wordEnd : Int := k + 37 + intAt data (k + 25)

def phoneEnd : Int := wordEnd data k + 1 + intAt data (k + 29)

def nnetEnd : Int := phoneEnd data k + 1 + intAt data (k + 33)

/-- The byte at `last` is there; if it is a NUL, the string at `p` comes to an
    end, and else the byte at `shown` is there. -/
def StringReads (p last shown : Int) : Prop :=
  Within data last ∧ (NulAt data last → Ends data p) ∧ (¬ NulAt data last → Within data shown)

/-- What is read of the record at `k` is inside the data. -/
def ReadsInside : Prop :=
  (0 ≤ k ∧ k + 37 ≤ data.length) ∧ StringReads data (k + 37) (wordEnd data k) (wordEnd data k) ∧
    (NulAt data (wordEnd data k) →
      StringReads data (wordEnd data k + 1) (phoneEnd data k) (phoneEnd data k) ∧
      (NulAt data (phoneEnd data k) → intAt data (k + 33) ≠ 0 →
        StringReads data (phoneEnd data k + 1) (nnetEnd data k)
          (phoneEnd data k + 1 + intAt data (k + 29))))

/-- One of the bytes that have to be NULs is none. -/
def Refused : Prop :=
  ¬ NulAt data (wordEnd data k) ∨ ¬ NulAt data (phoneEnd data k) ∨
    intAt data (k + 33) ≠ 0 ∧ ¬ NulAt data (nnetEnd data k)

/-- The string at `p`, up to the first NUL there, lies in the record at `k`. -/
def LiesAt (p : Int) : Prop :=
  k ≤ p ∧ p + (cstr (data.drop p.toNat)).length + 1 ≤ k + intAt data (k + 17)

/-- So do the strings of the record. -/
def Lies : Prop :=
  LiesAt data k (k + 37) ∧ LiesAt data k (wordEnd data k + 1) ∧
    (intAt data (k + 33) ≠ 0 → LiesAt data k (phoneEnd data k + 1))

end

section

variable (data : List UInt8)

/-- What is read of `num` records, the first at `k`, is inside the data. -/
def Walk : Nat → Int → Prop
  | 0, _ => True
  | num + 1, k => ReadsInside data k ∧ (Refused data k ∨ Walk num (k + intAt data (k + 17)))

/-- One of the records is refused. -/
def Stops : Nat → Int → Prop
  | 0, _ => False
  | num + 1, k => Refused data k ∨ Stops num (k + intAt data (k + 17))

/-- The strings of each lie inside it. -/
def Fit : Nat → Int → Prop
  | 0, _ => True
  | num + 1, k => Lies data k ∧ Fit num (k + intAt data (k + 17))

/-- The data is empty; or it holds a count that is too large for it; or the
    records follow each other inside the data, and one of them is refused or
    each holds its own strings. -/
def Laid : Prop :=
  data = [] ∨ 4 ≤ data.length ∧ CInt.Fits (37 * intAt data 0) ∧
    ((data.length : Int) < 37 * intAt data 0 ∨
      Walk data (intAt data 0).toNat (4 * 4) ∧
        (Stops data (intAt data 0).toNat (4 * 4) ∨ Fit data (intAt data 0).toNat (4 * 4)))

end

/-! ### One read -/

theorem bytesAt_cases (data : List UInt8) (p : Int) (n : Nat) :
    (0 ≤ p ∧ p + n ≤ data.length ∧ bytesAt data p n = .ok ((data.drop p.toNat).take n)) ∨
      (¬ (0 ≤ p ∧ p + n ≤ data.length) ∧ bytesAt data p n = .error .outside) := by
  unfold bytesAt slice
  by_cases hp : 0 ≤ p
  · rw [if_pos hp]
    by_cases hn : p + n ≤ data.length
    · rw [if_pos (by omega)]
      exact .inl ⟨hp, hn, rfl⟩
    · rw [if_neg (by omega)]
      exact .inr ⟨fun h => hn h.2, rfl⟩
  · rw [if_neg hp]
    exact .inr ⟨fun h => hp h.1, rfl⟩

theorem bytesAt_one {data : List UInt8} {p : Int} (h : Within data p) :
    ∃ b, bytesAt data p 1 = .ok [b] ∧ (NulAt data p ↔ [b] = [0]) := by
  obtain ⟨hp, hlen⟩ := h
  have hlt : p.toNat < data.length := by omega
  refine ⟨data[p.toNat], ?_, ?_⟩
  · obtain ⟨-, -, hbytes⟩ | ⟨hnot, -⟩ := bytesAt_cases data p 1
    · rw [hbytes, List.drop_eq_getElem_cons hlt]
      rfl
    · exact absurd ⟨hp, by omega⟩ hnot
  · unfold NulAt
    rw [List.getElem?_eq_getElem hlt, Option.some_inj, List.singleton_inj]

theorem bytesAt_outside {data : List UInt8} {p : Int} (h : ¬ Within data p) :
    bytesAt data p 1 = .error .outside := by
  obtain ⟨hp, hlen, -⟩ | ⟨-, hout⟩ := bytesAt_cases data p 1
  · exact absurd ⟨hp, by omega⟩ h
  · exact hout

/-- The string at `p`, with the byte at `p + size` behind it. -/
theorem decodeString_cases (data : List UInt8) {p : Int} (hp : 0 ≤ p) (size shown code : Int) :
    (¬ StringReads data p (p + size) (p + shown) ∧
        decodeString data p size shown code = .error .outside) ∨
      (StringReads data p (p + size) (p + shown) ∧ ¬ NulAt data (p + size) ∧
        decodeString data p size shown code = .error (.status code)) ∨
      (StringReads data p (p + size) (p + shown) ∧ NulAt data (p + size) ∧
        decodeString data p size shown code = .ok (cstr (data.drop p.toNat))) := by
  unfold decodeString
  by_cases hlast : Within data (p + size)
  · obtain ⟨b, hb, hnul⟩ := bytesAt_one hlast
    rw [hb]
    simp only [bind, Except.bind]
    by_cases hzero : NulAt data (p + size)
    · rw [if_pos (hnul.mp hzero)]
      unfold cstrAt
      by_cases hend : Ends data p
      · rw [if_pos ⟨hp, hend⟩]
        exact .inr (.inr ⟨⟨hlast, fun _ => hend, fun h => absurd hzero h⟩, hzero, rfl⟩)
      · rw [if_neg fun h => hend h.2]
        exact .inl ⟨fun h => hend (h.2.1 hzero), rfl⟩
    · rw [if_neg fun h => hzero (hnul.mpr h)]
      by_cases hshown : Within data (p + shown)
      · obtain ⟨b', hb', -⟩ := bytesAt_one hshown
        rw [hb']
        exact .inr (.inl ⟨⟨hlast, fun h => absurd h hzero, fun _ => hshown⟩, hzero, rfl⟩)
      · rw [bytesAt_outside hshown]
        exact .inl ⟨fun h => hshown (h.2.2 hzero), rfl⟩
  · rw [bytesAt_outside hlast]
    exact .inl ⟨fun h => hlast h.1, rfl⟩

theorem only_bytesAt (data : List UInt8) (p : Int) (n : Nat) :
    Access.Only Early.outside (bytesAt data p n) := by
  intro e he
  obtain ⟨-, -, hok⟩ | ⟨-, hout⟩ := bytesAt_cases data p n
  · rw [hok] at he
    cases he
  · rw [hout] at he
    exact (Except.error.inj he).symm

/-! ### One record -/

/-- The lengths and sizes of a fixed part are those at `k`. -/
structure SizesAt (data : List UInt8) (k : Int) (config : UnpackedVTConfig F) : Prop where
  total_len : config.total_len = intAt data (k + 17)
  vt_word_size : config.vt_word_size = intAt data (k + 25)
  vt_phone_size : config.vt_phone_size = intAt data (k + 29)
  vt_nnet_path_size : config.vt_nnet_path_size = intAt data (k + 33)

variable [CFloat F]

theorem only_load (data : List UInt8) (k : Int) :
    Access.Only Early.outside (UnpackedVTConfig.load (F := F) data k) := by
  unfold UnpackedVTConfig.load
  iterate 13
    refine Access.only_bind (only_bytesAt data _ _) ?_
    intro bs
  exact Access.only_ok _ _

/-- The fixed part is read as a whole. -/
theorem load_cases (data : List UInt8) (k : Int) :
    (¬ (0 ≤ k ∧ k + 37 ≤ data.length) ∧
        UnpackedVTConfig.load (F := F) data k = .error .outside) ∨
      ((0 ≤ k ∧ k + 37 ≤ data.length) ∧ ∃ config : UnpackedVTConfig F,
        UnpackedVTConfig.load data k = .ok config ∧ SizesAt data k config) := by
  by_cases hin : 0 ≤ k ∧ k + 37 ≤ data.length
  · have field : ∀ (off : Int) (n : Nat), 0 ≤ off → off + n ≤ 37 →
        bytesAt data (k + off) n = .ok ((data.drop (k + off).toNat).take n) := by
      intro off n hoff hn
      obtain ⟨-, -, hok⟩ | ⟨hnot, -⟩ := bytesAt_cases data (k + off) n
      · exact hok
      · exact absurd ⟨by omega, by omega⟩ hnot
    have first := field 0 4 (by decide) (by decide)
    rw [Int.add_zero] at first
    refine .inr ⟨hin, ?_⟩
    unfold UnpackedVTConfig.load
    rw [first, field 17 4 (by decide) (by decide), field 21 4 (by decide) (by decide),
      field 8 4 (by decide) (by decide), field 4 4 (by decide) (by decide),
      field 12 1 (by decide) (by decide), field 13 1 (by decide) (by decide),
      field 16 1 (by decide) (by decide), field 14 1 (by decide) (by decide),
      field 15 1 (by decide) (by decide), field 25 4 (by decide) (by decide),
      field 29 4 (by decide) (by decide), field 33 4 (by decide) (by decide)]
    exact ⟨_, rfl, rfl, rfl, rfl, rfl⟩
  · refine .inl ⟨hin, ?_⟩
    cases hload : UnpackedVTConfig.load (F := F) data k with
    | error e => rw [only_load data k e hload]
    | ok config =>
      -- the reads at both ends
      have hends := hload
      unfold UnpackedVTConfig.load at hends
      simp only [Access.bind_eq_ok] at hends
      obtain ⟨-, -, -, -, -, -, avg, havg, -, -, -, -, -, -, -, -, -, -, -, -, -, -, -, -, nnet,
        hnnet, -⟩ := hends
      obtain ⟨hk, -, -⟩ | ⟨-, hout⟩ := bytesAt_cases data k 4
      · obtain ⟨-, hlen, -⟩ | ⟨-, hout⟩ := bytesAt_cases data (k + 33) 4
        · exact absurd ⟨hk, by omega⟩ hin
        · rw [hout] at hnnet
          cases hnnet
      · rw [hout] at havg
        cases havg

/-- The word that the strings of the record at `k` make. -/
def StringsAt (data : List UInt8) (k : Int) (vt : SirenVTWord F) : Prop :=
  vt.vt_word = cstr (data.drop (k + 37).toNat) ∧
    vt.vt_phone = cstr (data.drop (wordEnd data k + 1).toNat) ∧
    vt.alg_config.nnet_path = if intAt data (k + 33) = 0 then []
      else cstr (data.drop (phoneEnd data k + 1).toNat)

/-- A record is read outside the data, or refused, or read. -/
theorem decodeRecord_cases (data : List UInt8) (k : Int) :
    (¬ ReadsInside data k ∧ decodeRecord (F := F) data k = .error .outside) ∨
      (ReadsInside data k ∧ Refused data k ∧
        ∃ code < 0, decodeRecord (F := F) data k = .error (.status code)) ∨
      (ReadsInside data k ∧ ¬ Refused data k ∧ ∃ (config : UnpackedVTConfig F) (vt : SirenVTWord F),
        UnpackedVTConfig.load data k = .ok config ∧ SizesAt data k config ∧ StringsAt data k vt ∧
        decodeRecord data k = .ok (vt, intAt data (k + 17))) := by
  have hfixed : (sizeofUnpackedVTConfig : Int) = 37 := rfl
  have hword_end : k + 37 + intAt data (k + 25) = wordEnd data k := rfl
  have hphone_end : wordEnd data k + 1 + intAt data (k + 29) = phoneEnd data k := rfl
  have hnnet_end : phoneEnd data k + 1 + intAt data (k + 33) = nnetEnd data k := rfl
  unfold decodeRecord
  obtain ⟨hout, hload⟩ | ⟨hin, config, hload, hsizes⟩ := load_cases (F := F) data k
  · rw [hload]
    exact .inl ⟨fun h => hout h.1, rfl⟩
  rw [hload]
  simp only [bind, Except.bind, pure, Except.pure, hfixed, hsizes.total_len, hsizes.vt_word_size,
    hsizes.vt_phone_size, hsizes.vt_nnet_path_size, hword_end, hphone_end]
  -- the word
  obtain ⟨hreads, hword⟩ | ⟨hreads, hwrong, hword⟩ | ⟨hreads, hnul, hword⟩ :=
    decodeString_cases data (show 0 ≤ k + 37 by omega) (intAt data (k + 25)) (intAt data (k + 25))
      (-4)
  · rw [hword]
    exact .inl ⟨fun h => hreads h.2.1, rfl⟩
  · rw [hword]
    exact .inr (.inl ⟨⟨hin, hreads, fun h => absurd h hwrong⟩, .inl hwrong, -4, by decide, rfl⟩)
  rw [hword]
  rw [hword_end] at hreads hnul
  have hword_end_pos : 0 ≤ wordEnd data k := hreads.1.1
  simp only []
  -- the phones
  obtain ⟨hreads', hphone⟩ | ⟨hreads', hwrong, hphone⟩ | ⟨hreads', hnul', hphone⟩ :=
    decodeString_cases data (show 0 ≤ wordEnd data k + 1 by omega) (intAt data (k + 29))
      (intAt data (k + 29)) (-7)
  · rw [hphone]
    exact .inl ⟨fun h => hreads' (h.2.2 hnul).1, rfl⟩
  · rw [hphone]
    exact .inr (.inl ⟨⟨hin, hreads, fun _ => ⟨hreads', fun h => absurd h hwrong⟩⟩,
      .inr (.inl hwrong), -7, by decide, rfl⟩)
  rw [hphone]
  rw [hphone_end] at hreads' hnul'
  have hphone_end_pos : 0 ≤ phoneEnd data k := hreads'.1.1
  simp only []
  -- the path
  unfold decodeNnetPath
  by_cases hnone : intAt data (k + 33) = 0
  · rw [if_pos hnone]
    refine .inr (.inr ⟨⟨hin, hreads, fun _ => ⟨hreads', fun _ h => absurd hnone h⟩⟩, ?_, config, _,
      rfl, hsizes, ⟨rfl, rfl, ?_⟩, rfl⟩)
    · rintro (h | h | h)
      · exact h hnul
      · exact h hnul'
      · exact h.1 hnone
    · rw [if_pos hnone]
  rw [if_neg hnone]
  obtain ⟨hreads'', hnnet⟩ | ⟨hreads'', hwrong, hnnet⟩ | ⟨hreads'', hnul'', hnnet⟩ :=
    decodeString_cases data (show 0 ≤ phoneEnd data k + 1 by omega) (intAt data (k + 33))
      (intAt data (k + 29)) (-5)
  · rw [hnnet]
    exact .inl ⟨fun h => hreads'' ((h.2.2 hnul).2 hnul' hnone), rfl⟩
  · rw [hnnet]
    exact .inr (.inl ⟨⟨hin, hreads, fun _ => ⟨hreads', fun _ _ => hreads''⟩⟩,
      .inr (.inr ⟨hnone, hwrong⟩), -5, by decide, rfl⟩)
  · rw [hnnet]
    refine .inr (.inr ⟨⟨hin, hreads, fun _ => ⟨hreads', fun _ _ => hreads''⟩⟩, ?_, config, _,
      rfl, hsizes, ⟨rfl, rfl, ?_⟩, rfl⟩)
    · rintro (h | h | h)
      · exact h hnul
      · exact h hnul'
      · exact h.2 hnul''
    · rw [if_neg hnone]

omit [CFloat F] in
/-- A string that comes to its end, as it lies in the data. -/
theorem stringIn_iff {data : List UInt8} {k p : Int} (h : Ends data p) :
    StringIn data k (intAt data (k + 17)) p (cstr (data.drop p.toNat)) ↔ LiesAt data k p := by
  constructor
  · intro hin
    exact ⟨hin.1, hin.2.1⟩
  · intro hlies
    exact ⟨hlies.1, hlies.2, take_cstr h⟩

/-- The strings that were read lie in their record if the bytes say so. -/
theorem wordIn_iff {data : List UInt8} {k : Int} {config : UnpackedVTConfig F}
    {vt : SirenVTWord F} (hsizes : SizesAt data k config) (hvt : StringsAt data k vt)
    (hreads : ReadsInside data k) (hrefused : ¬ Refused data k) :
    WordIn data k config vt ↔ Lies data k := by
  obtain ⟨hword, hphone, hnnet⟩ := hvt
  simp only [Refused, not_or, not_not, not_and] at hrefused
  obtain ⟨hword_nul, hphone_nul, hnnet_nul⟩ := hrefused
  obtain ⟨-, hword_reads, hrest⟩ := hreads
  obtain ⟨hphone_reads, hrest⟩ := hrest hword_nul
  have hfixed : (sizeofUnpackedVTConfig : Int) = 37 := rfl
  have hword_end : k + 37 + intAt data (k + 25) = wordEnd data k := rfl
  have hphone_end : wordEnd data k + 1 + intAt data (k + 29) = phoneEnd data k := rfl
  unfold WordIn Lies
  simp only [hfixed, hsizes.total_len, hsizes.vt_word_size, hsizes.vt_phone_size,
    hsizes.vt_nnet_path_size, hword_end, hphone_end]
  rw [hword, hphone, stringIn_iff (hword_reads.2.1 hword_nul),
    stringIn_iff (hphone_reads.2.1 hphone_nul), hnnet]
  refine and_congr_right fun _ => and_congr_right fun _ => ?_
  by_cases hnone : intAt data (k + 33) = 0
  · rw [if_pos hnone, if_pos hnone]
    exact ⟨fun _ h => absurd hnone h, fun _ => rfl⟩
  · rw [if_neg hnone, if_neg hnone,
      stringIn_iff ((hrest hphone_nul hnone).2.1 (hnnet_nul hnone))]
    exact ⟨fun h _ => h, fun h => h hnone⟩

/-! ### The records -/

/-- The loop leads outside the data, or ends at a refused record, or reads all the
    records. -/
theorem decodeRecords_cases (data : List UInt8) (num : Nat) (k : Int)
    (acc : List (SirenVTWord F)) :
    (¬ Walk data num k ∧ decodeRecords data num k acc = none) ∨
      (Walk data num k ∧ Stops data num k ∧
        ∃ code < 0, ∃ ws, decodeRecords data num k acc = some (code, ws)) ∨
      (Walk data num k ∧ ¬ Stops data num k ∧
        ∃ vts, decodeRecords data num k acc = some (0, acc ++ vts) ∧
          (WordsIn data k vts ↔ Fit data num k)) := by
  induction num generalizing k acc with
  | zero =>
    exact .inr (.inr ⟨trivial, fun h => h, [], by rw [decodeRecords, List.append_nil], Iff.rfl⟩)
  | succ num ih =>
    rw [decodeRecords]
    obtain ⟨hout, hrecord⟩ | ⟨hin, hrefused, code, hcode, hrecord⟩ |
        ⟨hin, hrefused, config, vt, hload, hsizes, hvt, hrecord⟩ :=
      decodeRecord_cases (F := F) data k
    · rw [hrecord]
      exact .inl ⟨fun h => hout h.1, rfl⟩
    · rw [hrecord]
      exact .inr (.inl ⟨⟨hin, .inl hrefused⟩, .inl hrefused, code, hcode, acc, rfl⟩)
    · rw [hrecord]
      -- the records behind this one
      obtain ⟨hwalk, hrest⟩ | ⟨hwalk, hstops, hrest⟩ | ⟨hwalk, hstops, vts, hrest, hfit⟩ :=
        ih (k + intAt data (k + 17)) (acc ++ [vt])
      · exact .inl ⟨fun h => h.2.elim hrefused hwalk, hrest⟩
      · exact .inr (.inl ⟨⟨hin, .inr hwalk⟩, .inr hstops, hrest⟩)
      · refine .inr (.inr ⟨⟨hin, .inr hwalk⟩, fun h => h.elim hrefused hstops, vt :: vts, ?_, ?_⟩)
        · show decodeRecords data num _ _ = _
          rw [hrest, List.append_assoc, List.singleton_append]
        · rw [WordsIn, Fit, ← hfit, ← wordIn_iff hsizes hvt hin hrefused, ← hsizes.total_len]
          constructor
          · rintro ⟨config', hload', hword, hwords⟩
            rw [hload] at hload'
            cases hload'
            exact ⟨hword, hwords⟩
          · rintro ⟨hword, hwords⟩
            exact ⟨config, hload, hword, hwords⟩

/-- What is read of a message is inside its data, and what is found inside its
    record, exactly if the bytes are laid out for it. -/
theorem reading_sound_iff {m : Message} (hmsg : m.msg = SIREN_REQUEST_MSG_SYNC_VT_WORD_LIST)
    (vt_words : List (SirenVTWord F)) : Sound m vt_words ↔ Laid m.data := by
  unfold Sound Laid getVTWordFromMessage
  simp only [hmsg, ne_eq, not_true_eq_false, if_false]
  by_cases hempty : m.data = []
  · rw [if_pos (List.isEmpty_iff.mpr hempty)]
    exact iff_of_true ⟨-2, vt_words, rfl, .inl (by decide)⟩ (.inl hempty)
  rw [if_neg fun h => hempty (List.isEmpty_iff.mp h)]
  -- the count
  obtain ⟨-, hlen, hcount⟩ | ⟨hshort, hcount⟩ := bytesAt_cases m.data 0 4
  swap
  · rw [hcount]
    refine iff_of_false ?_ ?_
    · rintro ⟨status, ws, h, -⟩
      cases h
    · rintro (h | h)
      · exact hempty h
      · exact hshort ⟨le_refl _, by omega⟩
  have hnum : ofLE32 ((m.data.drop (0 : Int).toNat).take 4) = intAt m.data 0 := rfl
  have hfixed : (sizeofUnpackedVTConfig : Int) = 37 := rfl
  rw [hcount]
  simp only [hnum, hfixed]
  by_cases hfits : CInt.Fits (37 * intAt m.data 0)
  swap
  · rw [if_pos (by unfold CInt.Fits at hfits; omega)]
    refine iff_of_false ?_ ?_
    · rintro ⟨status, ws, h, -⟩
      cases h
    · rintro (h | h)
      · exact hempty h
      · exact hfits h.2.1
  rw [if_neg (by unfold CInt.Fits at hfits; omega)]
  by_cases hmany : (m.data.length : Int) < 37 * intAt m.data 0
  · rw [if_pos hmany]
    exact iff_of_true ⟨-6, vt_words, rfl, .inl (by decide)⟩
      (.inr ⟨by omega, hfits, .inl hmany⟩)
  rw [if_neg hmany]
  -- the records
  have hlaid : (m.data = [] ∨ 4 ≤ m.data.length ∧ CInt.Fits (37 * intAt m.data 0) ∧
      ((m.data.length : Int) < 37 * intAt m.data 0 ∨
        Walk m.data (intAt m.data 0).toNat (4 * 4) ∧ (Stops m.data (intAt m.data 0).toNat (4 * 4) ∨
          Fit m.data (intAt m.data 0).toNat (4 * 4)))) ↔
      Walk m.data (intAt m.data 0).toNat (4 * 4) ∧ (Stops m.data (intAt m.data 0).toNat (4 * 4) ∨
        Fit m.data (intAt m.data 0).toNat (4 * 4)) := by
    constructor
    · rintro (h | ⟨-, -, h | h⟩)
      · exact absurd h hempty
      · exact absurd h hmany
      · exact h
    · intro h
      exact .inr ⟨by omega, hfits, .inr h⟩
  rw [hlaid]
  obtain ⟨hwalk, hrecords⟩ | ⟨hwalk, hstops, code, hcode, ws, hrecords⟩ |
      ⟨hwalk, hstops, vts, hrecords, hfit⟩ :=
    decodeRecords_cases m.data (intAt m.data 0).toNat (4 * 4) vt_words
  · refine iff_of_false ?_ fun h => hwalk h.1
    rintro ⟨status, ws, h, -⟩
    rw [hrecords] at h
    cases h
  · exact iff_of_true ⟨code, ws, hrecords, .inl hcode⟩ ⟨hwalk, .inl hstops⟩
  · constructor
    · rintro ⟨status, ws, h, hstatus⟩
      rw [hrecords] at h
      obtain ⟨rfl, rfl⟩ := Prod.mk.inj (Option.some.inj h)
      obtain ⟨-, vts', hvts, hin⟩ := hstatus.resolve_left (by decide)
      rw [← List.append_cancel_left hvts] at hin
      exact ⟨hwalk, .inr (hfit.mp hin)⟩
    · rintro ⟨-, h⟩
      exact ⟨0, _, hrecords, .inr ⟨rfl, vts, rfl, hfit.mpr (h.resolve_left hstops)⟩⟩

/-- The message for one word without a path. -/
theorem reading_sound_iff_one : Sound (F := Single)
      ⟨SIREN_REQUEST_MSG_SYNC_VT_WORD_LIST, toLE32 1 ++ List.replicate 12 0 ++
        List.replicate 17 0 ++ toLE32 48 ++ List.replicate 27 0, by decide⟩ [] ↔
    Laid (toLE32 1 ++ List.replicate 12 0 ++ List.replicate 17 0 ++ toLE32 48 ++
      List.replicate 27 0) :=
  reading_sound_iff rfl []

/-- A count of one record in forty bytes: the fixed part of the record, which is
    to begin behind sixteen of them, goes beyond the data. -/
theorem record_beyond_data : ¬ ∀ m : Message, m.msg = SIREN_REQUEST_MSG_SYNC_VT_WORD_LIST →
    Sound (F := Single) m [] := by
  intro h
  obtain ⟨status, ws, hget, -⟩ := h ⟨SIREN_REQUEST_MSG_SYNC_VT_WORD_LIST,
    toLE32 1 ++ List.replicate 36 0, by decide⟩ rfl
  have hnone : getVTWordFromMessage (F := Single) (some ⟨SIREN_REQUEST_MSG_SYNC_VT_WORD_LIST,
      toLE32 1 ++ List.replicate 36 0, by decide⟩) [] = none := by
    rfl
  rw [hnone] at hget
  cases hget

end VTWordData

end BlackSiren

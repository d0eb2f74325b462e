import BlackSiren.Channel.Message
import BlackSiren.Framework.Buffers
import BlackSiren.Framework.CInt
import BlackSiren.VTWord.Word

/-! # The message that carries the wake words

    `allocateMessageFromVTWord` writes a count of 16 bytes and then, for each
    word, a record: `UnpackedVTConfig` (packed, 37 bytes), the three strings,
    each with its NUL, and zeros up to the next multiple of 8, at least one.
    `getVTWordFromMessage` finds its way by the lengths in the records.

    - `UnpackedVTConfig`: the fixed part, stored and loaded
    - `encodeWords`, `allocateMessageFromVTWord`
    - `decodeRecord`, `getVTWordFromMessage`
    - `encodeWords_eq`: what the writes add up to
    - `getVTWord_allocate`: the round trip
-/

namespace BlackSiren

open Buffers Bytes

variable {F : Type}

/-! ### `UnpackedVTConfig` -/

/-- `UnpackedVTConfig` -/
structure UnpackedVTConfig (F : Type) where
  vt_block_avg_score : F
  vt_block_min_score : F
  vt_classify_shield : F
  vt_left_sil_det : Bool
  vt_right_sil_det : Bool
  vt_remote_check_with_aec : Bool
  vt_remote_check_without_aec : Bool
  vt_local_classify_check : Bool
  total_len : Int
  vt_type : Int
  vt_word_size : Int
  vt_phone_size : Int
  vt_nnet_path_size : Int

/-- `sizeof(UnpackedVTConfig)` -/
def sizeofUnpackedVTConfig : Nat := 37

/-- A `float` and a `bool` in memory. -/
def floatBytes [CFloat F] (x : F) : List UInt8 := toLE 4 (CFloat.bits x).toNat

def boolBytes (b : Bool) : List UInt8 := [if b then 1 else 0]

def ofFloatBytes [CFloat F] (bs : List UInt8) : F := CFloat.ofBits (BitVec.ofNat 32 (ofLE bs))

def ofBoolBytes (bs : List UInt8) : Bool := bs != [0]

namespace UnpackedVTConfig

variable [CFloat F]

/-- The assignments to the fields, in order. -/
def stores (c : UnpackedVTConfig F) : List Write :=
  [.put 17 (toLE32 c.total_len),
    .put 0 (floatBytes c.vt_block_avg_score),
    .put 4 (floatBytes c.vt_block_min_score),
    .put 8 (floatBytes c.vt_classify_shield),
    .put 12 (boolBytes c.vt_left_sil_det),
    .put 13 (boolBytes c.vt_right_sil_det),
    .put 14 (boolBytes c.vt_remote_check_with_aec),
    .put 15 (boolBytes c.vt_remote_check_without_aec),
    .put 16 (boolBytes c.vt_local_classify_check),
    .put 21 (toLE32 c.vt_type),
    .put 25 (toLE32 c.vt_word_size),
    .put 29 (toLE32 c.vt_phone_size),
    .put 33 (toLE32 c.vt_nnet_path_size)]

/-- The bytes they leave. -/
def block (c : UnpackedVTConfig F) : List UInt8 :=
  floatBytes c.vt_block_avg_score ++ floatBytes c.vt_block_min_score ++
    floatBytes c.vt_classify_shield ++ boolBytes c.vt_left_sil_det ++
    boolBytes c.vt_right_sil_det ++ boolBytes c.vt_remote_check_with_aec ++
    boolBytes c.vt_remote_check_without_aec ++ boolBytes c.vt_local_classify_check ++
    toLE32 c.total_len ++ toLE32 c.vt_type ++ toLE32 c.vt_word_size ++
    toLE32 c.vt_phone_size ++ toLE32 c.vt_nnet_path_size

end UnpackedVTConfig

/-- How decoding ends early: with a status, or by a read outside the data. -/
inductive Early where
  | status (code : Int)
  | outside
  deriving DecidableEq

/-- The `n` bytes at a pointer into `data`. -/
def bytesAt (data : List UInt8) (p : Int) (n : Nat) : Except Early (List UInt8) :=
  if 0 ≤ p then (slice data p.toNat n).elim (.error .outside) .ok else .error .outside

/-- Reading the fields of the structure at `k`. -/
def UnpackedVTConfig.load [CFloat F] (data : List UInt8) (k : Int) :
    Except Early (UnpackedVTConfig F) := do
  let total_len ← bytesAt data (k + 17) 4
  let vt_type ← bytesAt data (k + 21) 4
  let shield ← bytesAt data (k + 8) 4
  let avg ← bytesAt data k 4
  let min ← bytesAt data (k + 4) 4
  let left ← bytesAt data (k + 12) 1
  let right ← bytesAt data (k + 13) 1
  let check ← bytesAt data (k + 16) 1
  let withAec ← bytesAt data (k + 14) 1
  let withoutAec ← bytesAt data (k + 15) 1
  let word ← bytesAt data (k + 25) 4
  let phone ← bytesAt data (k + 29) 4
  let nnet ← bytesAt data (k + 33) 4
  return {
    vt_block_avg_score := ofFloatBytes avg
    vt_block_min_score := ofFloatBytes min
    vt_classify_shield := ofFloatBytes shield
    vt_left_sil_det := ofBoolBytes left
    vt_right_sil_det := ofBoolBytes right
    vt_remote_check_with_aec := ofBoolBytes withAec
    vt_remote_check_without_aec := ofBoolBytes withoutAec
    vt_local_classify_check := ofBoolBytes check
    total_len := ofLE32 total_len
    vt_type := ofLE32 vt_type
    vt_word_size := ofLE32 word
    vt_phone_size := ofLE32 phone
    vt_nnet_path_size := ofLE32 nnet }

/-! ### Writing -/

/-- `other_num` and `round_up_len` of a word. -/
def roundUpLen (w : SirenVTWord F) : Nat :=
  let other_num := sizeofUnpackedVTConfig + w.vt_word.length + w.vt_phone.length +
    w.alg_config.nnet_path.length + 3
  other_num + (8 - other_num % 8)

/-- What is assigned to the fixed part. -/
def configOf (w : SirenVTWord F) (packed_len : Nat) : UnpackedVTConfig F where
  vt_block_avg_score := w.alg_config.vt_block_avg_score
  vt_block_min_score := w.alg_config.vt_block_min_score
  vt_classify_shield := w.alg_config.vt_classify_shield
  vt_left_sil_det := w.alg_config.vt_left_sil_det
  vt_right_sil_det := w.alg_config.vt_right_sil_det
  vt_remote_check_with_aec := w.alg_config.vt_remote_check_with_aec
  vt_remote_check_without_aec := w.alg_config.vt_remote_check_without_aec
  vt_local_classify_check := w.alg_config.vt_local_classify_check
  total_len := packed_len
  vt_type := w.vt_type
  vt_word_size := w.vt_word.length
  vt_phone_size := w.vt_phone.length
  vt_nnet_path_size := if w.alg_config.nnet_path.isEmpty then 0 else w.alg_config.nnet_path.length

/-- `memcpy(p, ..)` of one part after the other, `p` going along. -/
def puts : Nat → List (List UInt8) → List Write
  | _, [] => []
  | p, bs :: parts => .put p bs :: puts (p + bs.length) parts

/-- The strings, each with its NUL. -/
def parts (w : SirenVTWord F) : List (List UInt8) :=
  [w.vt_word, [0], w.vt_phone, [0]] ++
    (if w.alg_config.nnet_path.isEmpty then [] else [w.alg_config.nnet_path]) ++ [[0]]

/-- The writes for one word, relative to its record: the fields, the copy of the
    structure onto itself, the strings. -/
def recordWrites [CFloat F] (w : SirenVTWord F) (packed_len : Nat) : List Write :=
  (configOf w packed_len).stores ++ [.copy 0 0 sizeofUnpackedVTConfig] ++
    puts sizeofUnpackedVTConfig (parts w)

/-- The loop over the words: the writes of each, its record at `k`. -/
def recordsFrom [CFloat F] : (k : Nat) → List (SirenVTWord F × Nat) → List (List Write)
  | _, [] => []
  | k, (w, packed_len) :: rest =>
      (recordWrites w packed_len).map (Write.shift k) :: recordsFrom (k + packed_len) rest

/-- `total_len` -/
def totalLen (vt_words : List (SirenVTWord F)) : Nat :=
  (vt_words.map roundUpLen).sum + 4 * 4

/-- The writes of the records, word by word. -/
def wordWrites [CFloat F] (vt_words : List (SirenVTWord F)) : List (List Write) :=
  recordsFrom (4 * 4) (vt_words.zip (vt_words.map roundUpLen))

/-- The data of the message: zeros, the count, the records. -/
def encodeWords [CFloat F] (vt_words : List (SirenVTWord F)) : List UInt8 :=
  writes (store (List.replicate (totalLen vt_words) 0) 0 (toLE32 vt_words.length))
    (wordWrites vt_words).flatten

/-- `allocateMessageFromVTWord`; a length that is no `int` is outside the model. -/
def allocateMessageFromVTWord [CFloat F] (vt_words : List (SirenVTWord F)) : Option Message :=
  if vt_words.isEmpty then
    some ⟨SIREN_REQUEST_MSG_SYNC_VT_WORD_LIST, [], by decide⟩
  else if h : (encodeWords vt_words).length < 2 ^ 31 then
    some ⟨SIREN_REQUEST_MSG_SYNC_VT_WORD_LIST, encodeWords vt_words, h⟩
  else
    none

/-! ### Reading -/

/-- `vt_word = p`: the string at `p`, its NUL inside the data. -/
def cstrAt (data : List UInt8) (p : Int) : Except Early (List UInt8) :=
  if 0 ≤ p ∧ (0 : UInt8) ∈ data.drop p.toNat then
    .ok (cstr (data.drop p.toNat))
  else
    .error .outside

/-- The string at `p` of `size` bytes.  If no NUL ends it, the byte at `shown` is
    logged and `code` returned. -/
def decodeString (data : List UInt8) (p size shown code : Int) :
    Except Early (List UInt8) := do
  let last ← bytesAt data (p + size) 1
  if last = [0] then
    cstrAt data p
  else do
    let _ ← bytesAt data (p + shown) 1
    .error (.status code)

/-- The path; for the size 0 nothing is read. -/
def decodeNnetPath (data : List UInt8) (p size shown : Int) : Except Early (List UInt8) :=
  if size = 0 then .ok [] else decodeString data p size shown (-5)

/-- The record at `k`, and its `total_len`. -/
def decodeRecord [CFloat F] (data : List UInt8) (k : Int) :
    Except Early (SirenVTWord F × Int) := do
  let config ← UnpackedVTConfig.load data k
  let word_at := k + sizeofUnpackedVTConfig
  let vt_word ← decodeString data word_at config.vt_word_size config.vt_word_size (-4)
  let phone_at := word_at + config.vt_word_size + 1
  let vt_phone ← decodeString data phone_at config.vt_phone_size config.vt_phone_size (-7)
  let nnet_path ← decodeNnetPath data (phone_at + config.vt_phone_size + 1)
    config.vt_nnet_path_size config.vt_phone_size
  let vt : SirenVTWord F := {
    vt_type := config.vt_type
    vt_word := vt_word
    vt_phone := vt_phone
    use_default_config := false
    alg_config := {
      vt_block_avg_score := config.vt_block_avg_score
      vt_block_min_score := config.vt_block_min_score
      vt_classify_shield := config.vt_classify_shield
      vt_left_sil_det := config.vt_left_sil_det
      vt_right_sil_det := config.vt_right_sil_det
      vt_remote_check_with_aec := config.vt_remote_check_with_aec
      vt_remote_check_without_aec := config.vt_remote_check_without_aec
      vt_local_classify_check := config.vt_local_classify_check
      nnet_path := nnet_path } }
  return (vt, config.total_len)

/-- The loop over `num` records: the status and `vt_words`, if no read leads
    outside the data. -/
def decodeRecords [CFloat F] (data : List UInt8) :
    Nat → Int → List (SirenVTWord F) → Option (Int × List (SirenVTWord F))
  | 0, _, vt_words => some (0, vt_words)
  | num + 1, k, vt_words =>
      match decodeRecord data k with
      | .ok (vt, total_len) => decodeRecords data num (k + total_len) (vt_words ++ [vt])
      | .error (.status code) => some (code, vt_words)
      | .error .outside => none

/-- `getVTWordFromMessage` -/
def getVTWordFromMessage [CFloat F] (message : Option Message)
    (vt_words : List (SirenVTWord F)) : Option (Int × List (SirenVTWord F)) :=
  match message with
  | none => some (-1, vt_words)
  | some m =>
      if m.msg ≠ SIREN_REQUEST_MSG_SYNC_VT_WORD_LIST then some (-3, vt_words)
      else if m.data.isEmpty then some (-2, vt_words)
      else
        match bytesAt m.data 0 4 with
        | .error _ => none
        | .ok bytes =>
            let num := ofLE32 bytes
            -- the product is computed as an `int`
            if sizeofUnpackedVTConfig * num < -2 ^ 31 ∨ 2 ^ 31 ≤ sizeofUnpackedVTConfig * num then
              none
            else if (m.data.length : Int) < sizeofUnpackedVTConfig * num then
              some (-6, vt_words)
            else
              decodeRecords m.data num.toNat (4 * 4) vt_words

/-! ### What the writes add up to -/

/-- The record of a word. -/
def record [CFloat F] (w : SirenVTWord F) : List UInt8 :=
  (configOf w (roundUpLen w)).block ++ w.vt_word ++ [0] ++ w.vt_phone ++ [0] ++
    w.alg_config.nnet_path ++ [0] ++
    List.replicate (8 - (sizeofUnpackedVTConfig + w.vt_word.length + w.vt_phone.length +
      w.alg_config.nnet_path.length + 3) % 8) 0

section

variable [CFloat F]

@[simp] theorem length_block (c : UnpackedVTConfig F) :
    c.block.length = sizeofUnpackedVTConfig := by
  simp [UnpackedVTConfig.block, floatBytes, boolBytes, sizeofUnpackedVTConfig]

@[simp] theorem length_record (w : SirenVTWord F) : (record w).length = roundUpLen w := by
  simp [record, roundUpLen]
  omega

/-- Four bytes, one by one. -/
theorem toLE_four (v : Nat) : ∃ a b c d, toLE 4 v = [a, b, c, d] := ⟨_, _, _, _, rfl⟩

/-- The assignments fill the structure. -/
theorem writes_stores (c : UnpackedVTConfig F) :
    writes (List.replicate sizeofUnpackedVTConfig 0)
      (c.stores ++ [.copy 0 0 sizeofUnpackedVTConfig]) = c.block := by
  unfold UnpackedVTConfig.stores UnpackedVTConfig.block floatBytes toLE32 boolBytes
  obtain ⟨a₀, a₁, a₂, a₃, ha⟩ := toLE_four (CFloat.bits c.vt_block_avg_score).toNat
  obtain ⟨b₀, b₁, b₂, b₃, hb⟩ := toLE_four (CFloat.bits c.vt_block_min_score).toNat
  obtain ⟨c₀, c₁, c₂, c₃, hc⟩ := toLE_four (CFloat.bits c.vt_classify_shield).toNat
  obtain ⟨d₀, d₁, d₂, d₃, hd⟩ := toLE_four (BitVec.ofInt 32 c.total_len).toNat
  obtain ⟨e₀, e₁, e₂, e₃, he⟩ := toLE_four (BitVec.ofInt 32 c.vt_type).toNat
  obtain ⟨f₀, f₁, f₂, f₃, hf⟩ := toLE_four (BitVec.ofInt 32 c.vt_word_size).toNat
  obtain ⟨g₀, g₁, g₂, g₃, hg⟩ := toLE_four (BitVec.ofInt 32 c.vt_phone_size).toNat
  obtain ⟨h₀, h₁, h₂, h₃, hh⟩ := toLE_four (BitVec.ofInt 32 c.vt_nnet_path_size).toNat
  rw [ha, hb, hc, hd, he, hf, hg, hh]
  generalize (if c.vt_left_sil_det then (1 : UInt8) else 0) = i
  generalize (if c.vt_right_sil_det then (1 : UInt8) else 0) = j
  generalize (if c.vt_remote_check_with_aec then (1 : UInt8) else 0) = k
  generalize (if c.vt_remote_check_without_aec then (1 : UInt8) else 0) = l
  generalize (if c.vt_local_classify_check then (1 : UInt8) else 0) = m
  simp [writes, Write.run, store, sizeofUnpackedVTConfig, List.replicate_succ]

/-- Parts written one after the other into zeros. -/
theorem writes_puts (a : List UInt8) (n : Nat) (ps : List (List UInt8)) :
    writes (a ++ List.replicate n 0) (puts a.length ps) =
      a ++ ps.flatten ++ List.replicate (n - ps.flatten.length) 0 := by
  induction ps generalizing a n with
  | nil => simp [puts, writes]
  | cons bs ps ih =>
    have hnext : store (a ++ List.replicate n 0) a.length bs =
        (a ++ bs) ++ List.replicate (n - bs.length) 0 := by
      rw [store_next, List.drop_replicate]
    show writes (store (a ++ List.replicate n 0) a.length bs) (puts (a.length + bs.length) ps) = _
    rw [hnext, ← List.length_append, ih, List.flatten_cons, List.length_append, Nat.sub_add_eq]
    simp only [List.append_assoc]

theorem puts_reach {p : Nat} {ps : List (List UInt8)} {wr : Write} (h : wr ∈ puts p ps) :
    p ≤ wr.start ∧ wr.reach ≤ p + ps.flatten.length := by
  induction ps generalizing p with
  | nil => cases h
  | cons bs ps ih =>
    rw [List.flatten_cons, List.length_append]
    rcases List.mem_cons.mp h with rfl | h
    · exact ⟨le_refl p, by show p + bs.length ≤ _; omega⟩
    · obtain ⟨hstart, hreach⟩ := ih h
      omega

omit [CFloat F] in
theorem flatten_parts (w : SirenVTWord F) :
    (parts w).flatten =
      w.vt_word ++ [0] ++ w.vt_phone ++ [0] ++ w.alg_config.nnet_path ++ [0] := by
  unfold parts
  cases h : w.alg_config.nnet_path with
  | nil => simp
  | cons b bs => simp

theorem stores_reach (c : UnpackedVTConfig F) {wr : Write}
    (h : wr ∈ c.stores ++ [.copy 0 0 sizeofUnpackedVTConfig]) :
    wr.reach ≤ sizeofUnpackedVTConfig := by
  simp only [UnpackedVTConfig.stores, List.mem_append, List.mem_cons, List.not_mem_nil,
    or_false] at h
  rcases h with (rfl | rfl | rfl | rfl | rfl | rfl | rfl | rfl | rfl | rfl | rfl | rfl | rfl) | rfl
  all_goals simp [Write.reach, floatBytes, boolBytes, sizeofUnpackedVTConfig]

/-- The writes for a word stay inside its record. -/
theorem recordWrites_reach (w : SirenVTWord F) {wr : Write}
    (h : wr ∈ recordWrites w (roundUpLen w)) : wr.reach ≤ roundUpLen w := by
  have hlen : sizeofUnpackedVTConfig + (parts w).flatten.length ≤ roundUpLen w := by
    rw [flatten_parts]
    simp [roundUpLen]
    omega
  rcases List.mem_append.mp h with h | h
  · have hreach := stores_reach _ h
    omega
  · have hreach := (puts_reach h).2
    omega

/-- What the writes for a word make of its zeros. -/
theorem writes_record (w : SirenVTWord F) :
    writes (List.replicate (roundUpLen w) 0) (recordWrites w (roundUpLen w)) = record w := by
  have hsize : sizeofUnpackedVTConfig ≤ roundUpLen w := by
    simp [roundUpLen]
    omega
  obtain ⟨n, hn⟩ := Nat.exists_eq_add_of_le hsize
  have hblock := length_block (configOf w (roundUpLen w))
  unfold recordWrites
  rw [hn, List.replicate_add, ← hn, writes_append, writes_left _ _
    (fun wr hwr => by rw [List.length_replicate]; exact stores_reach _ hwr), writes_stores]
  rw [← hblock, writes_puts, flatten_parts]
  unfold record
  simp only [List.append_assoc]
  congr 8
  rw [hblock] at *
  simp [roundUpLen] at hn ⊢
  omega

/-- The records one after the other. -/
theorem writes_records (ws : List (SirenVTWord F)) (a : List UInt8) {n : Nat}
    (h : (ws.map roundUpLen).sum ≤ n) :
    writes (a ++ List.replicate n 0) (recordsFrom a.length (ws.zip (ws.map roundUpLen))).flatten =
      a ++ ws.flatMap record ++ List.replicate (n - (ws.map roundUpLen).sum) 0 := by
  induction ws generalizing a n with
  | nil => simp [recordsFrom, writes]
  | cons w ws ih =>
    rw [List.map_cons, List.sum_cons] at h
    obtain ⟨n, rfl⟩ := Nat.exists_eq_add_of_le (show roundUpLen w ≤ n by omega)
    have hfirst : writes (a ++ List.replicate (roundUpLen w + n) 0)
        ((recordWrites w (roundUpLen w)).map (Write.shift a.length)) =
        (a ++ record w) ++ List.replicate n 0 := by
      rw [List.replicate_add, ← List.append_assoc, writes_middle, writes_record]
      intro wr hwr
      rw [List.length_replicate]
      exact recordWrites_reach w hwr
    rw [List.map_cons, List.zip_cons_cons, recordsFrom, List.flatten_cons, writes_append, hfirst,
      show a.length + roundUpLen w = (a ++ record w).length by simp, ih _ (by omega),
      List.sum_cons, List.flatMap_cons]
    simp only [List.append_assoc]
    congr 4
    omega

/-- The count, twelve zeros, and the records. -/
theorem encodeWords_eq (ws : List (SirenVTWord F)) :
    encodeWords ws = toLE32 ws.length ++ List.replicate 12 0 ++ ws.flatMap record := by
  have hcount : store (List.replicate (totalLen ws) 0) 0 (toLE32 ws.length) =
      (toLE32 ws.length ++ List.replicate 12 0) ++
        List.replicate (ws.map roundUpLen).sum 0 := by
    have hnext := store_next [] (toLE32 ws.length) (List.replicate (totalLen ws) 0)
    rw [List.nil_append, List.length_nil, List.nil_append, List.drop_replicate, length_toLE32,
      show totalLen ws - 4 = 12 + (ws.map roundUpLen).sum by unfold totalLen; omega,
      List.replicate_add, ← List.append_assoc] at hnext
    exact hnext
  have hrecords := writes_records ws (toLE32 ws.length ++ List.replicate 12 0) (le_refl _)
  rw [Nat.sub_self, List.replicate_zero, List.append_nil] at hrecords
  unfold encodeWords wordWrites
  rw [hcount, ← hrecords]
  rfl

theorem length_flatMap_record (ws : List (SirenVTWord F)) :
    (ws.flatMap record).length = (ws.map roundUpLen).sum := by
  rw [List.length_flatMap]
  simp only [length_record]

theorem length_encodeWords (ws : List (SirenVTWord F)) :
    (encodeWords ws).length = totalLen ws := by
  rw [encodeWords_eq, List.length_append, length_flatMap_record]
  unfold totalLen
  simp
  omega

end

/-! ### What reading finds -/

/-- The bytes of a part. -/
theorem bytesAt_middle (a b c : List UInt8) (off n : Nat) (h : off + n ≤ b.length) :
    bytesAt (a ++ b ++ c) (a.length + off) n = .ok ((b.drop off).take n) := by
  unfold bytesAt
  rw [if_pos (by omega), show ((a.length : Int) + off).toNat = a.length + off by omega,
    slice_middle a b c h]
  rfl

/-- A string between its neighbours, up to its first NUL. -/
theorem decodeString_middle (a s c : List UInt8) (shown code : Int) :
    decodeString (a ++ (s ++ [0]) ++ c) a.length s.length shown code = .ok (cstr s) := by
  have hlast : bytesAt (a ++ (s ++ [0]) ++ c) (a.length + s.length) 1 = .ok [0] := by
    rw [bytesAt_middle a (s ++ [0]) c _ _ (by simp), List.drop_left' rfl]
    rfl
  have hdrop : (a ++ (s ++ [0]) ++ c).drop (a.length : Int).toNat = s ++ 0 :: c := by
    rw [Int.toNat_natCast, List.append_assoc, List.drop_left' rfl, List.append_assoc]
    rfl
  unfold decodeString
  rw [hlast]
  simp only [bind, Except.bind, if_true]
  unfold cstrAt
  rw [hdrop, if_pos ⟨by omega, by simp⟩, cstr_append_nul]

theorem decodeNnetPath_middle (a s c : List UInt8) (shown : Int) :
    decodeNnetPath (a ++ (s ++ [0]) ++ c) a.length s.length shown = .ok (cstr s) := by
  unfold decodeNnetPath
  split
  · next hzero =>
    have hnil : s = [] := List.eq_nil_of_length_eq_zero (by omega)
    rw [hnil]
    rfl
  · exact decodeString_middle a s c shown (-5)

theorem ofBoolBytes_boolBytes (b : Bool) : ofBoolBytes (boolBytes b) = b := by
  cases b <;> rfl

theorem ofFloatBytes_floatBytes [CFloat F] [LawfulCFloat F] (x : F) :
    ofFloatBytes (floatBytes x) = x := by
  unfold ofFloatBytes floatBytes
  rw [ofLE_toLE (CFloat.bits x).isLt, BitVec.ofNat_toNat, BitVec.setWidth_eq]
  exact LawfulCFloat.ofBits_bits x

/-- The integer fields are `int`s. -/
structure UnpackedVTConfig.Ints (c : UnpackedVTConfig F) : Prop where
  total_len : -2 ^ 31 ≤ c.total_len ∧ c.total_len < 2 ^ 31
  vt_type : -2 ^ 31 ≤ c.vt_type ∧ c.vt_type < 2 ^ 31
  vt_word_size : -2 ^ 31 ≤ c.vt_word_size ∧ c.vt_word_size < 2 ^ 31
  vt_phone_size : -2 ^ 31 ≤ c.vt_phone_size ∧ c.vt_phone_size < 2 ^ 31
  vt_nnet_path_size : -2 ^ 31 ≤ c.vt_nnet_path_size ∧ c.vt_nnet_path_size < 2 ^ 31

/-- Where the fields lie. -/
theorem fields_block [CFloat F] (c : UnpackedVTConfig F) :
    (c.block.drop 0).take 4 = floatBytes c.vt_block_avg_score ∧
    (c.block.drop 4).take 4 = floatBytes c.vt_block_min_score ∧
    (c.block.drop 8).take 4 = floatBytes c.vt_classify_shield ∧
    (c.block.drop 12).take 1 = boolBytes c.vt_left_sil_det ∧
    (c.block.drop 13).take 1 = boolBytes c.vt_right_sil_det ∧
    (c.block.drop 14).take 1 = boolBytes c.vt_remote_check_with_aec ∧
    (c.block.drop 15).take 1 = boolBytes c.vt_remote_check_without_aec ∧
    (c.block.drop 16).take 1 = boolBytes c.vt_local_classify_check ∧
    (c.block.drop 17).take 4 = toLE32 c.total_len ∧
    (c.block.drop 21).take 4 = toLE32 c.vt_type ∧
    (c.block.drop 25).take 4 = toLE32 c.vt_word_size ∧
    (c.block.drop 29).take 4 = toLE32 c.vt_phone_size ∧
    (c.block.drop 33).take 4 = toLE32 c.vt_nnet_path_size := by
  unfold UnpackedVTConfig.block floatBytes boolBytes
  refine ⟨?_, ?_, ?_, ?_, ?_, ?_, ?_, ?_, ?_, ?_, ?_, ?_, ?_⟩
  all_goals simp [List.drop_append, List.drop_of_length_le]

/-- The fields come back. -/
theorem load_block [CFloat F] [LawfulCFloat F] (a t : List UInt8) (c : UnpackedVTConfig F)
    (h : c.Ints) : UnpackedVTConfig.load (a ++ c.block ++ t) a.length = .ok c := by
  -- each field stands at its offset in the block
  have field : ∀ {off n : Nat} {bs : List UInt8}, (c.block.drop off).take n = bs →
      off + n ≤ sizeofUnpackedVTConfig →
      bytesAt (a ++ c.block ++ t) (a.length + off) n = .ok bs := by
    intro off n bs hbs hn
    rw [← hbs]
    apply bytesAt_middle
    rw [length_block]
    exact hn
  obtain ⟨f0, f4, f8, f12, f13, f14, f15, f16, f17, f21, f25, f29, f33⟩ := fields_block c
  have h0 := field f0 (by decide)
  have h4 := field f4 (by decide)
  have h8 := field f8 (by decide)
  have h12 := field f12 (by decide)
  have h13 := field f13 (by decide)
  have h14 := field f14 (by decide)
  have h15 := field f15 (by decide)
  have h16 := field f16 (by decide)
  have h17 := field f17 (by decide)
  have h21 := field f21 (by decide)
  have h25 := field f25 (by decide)
  have h29 := field f29 (by decide)
  have h33 := field f33 (by decide)
  rw [Nat.cast_zero, add_zero] at h0
  push_cast at h4 h8 h12 h13 h14 h15 h16 h17 h21 h25 h29 h33
  unfold UnpackedVTConfig.load
  rw [h0, h4, h8, h12, h13, h14, h15, h16, h17, h21, h25, h29, h33]
  simp only [bind, Except.bind, pure, Except.pure, ofFloatBytes_floatBytes, ofBoolBytes_boolBytes,
    ofLE32_toLE32 h.total_len.1 h.total_len.2, ofLE32_toLE32 h.vt_type.1 h.vt_type.2,
    ofLE32_toLE32 h.vt_word_size.1 h.vt_word_size.2,
    ofLE32_toLE32 h.vt_phone_size.1 h.vt_phone_size.2,
    ofLE32_toLE32 h.vt_nnet_path_size.1 h.vt_nnet_path_size.2]

/-! ### The round trip -/

namespace SirenVTWord

/-- A word whose strings have no NUL inside and whose type is an `int`. -/
structure Plain (w : SirenVTWord F) : Prop where
  vt_type : -2 ^ 31 ≤ w.vt_type ∧ w.vt_type < 2 ^ 31
  vt_word : (0 : UInt8) ∉ w.vt_word
  vt_phone : (0 : UInt8) ∉ w.vt_phone
  nnet_path : (0 : UInt8) ∉ w.alg_config.nnet_path

/-- The word as it arrives. -/
def arrived (w : SirenVTWord F) : SirenVTWord F := { w with use_default_config := false }

/-- The word as it arrives, if its strings may have NULs inside. -/
def shown (w : SirenVTWord F) : SirenVTWord F := { w with
  vt_word := cstr w.vt_word
  vt_phone := cstr w.vt_phone
  use_default_config := false
  alg_config := { w.alg_config with nnet_path := cstr w.alg_config.nnet_path } }

theorem Plain.shown_eq {w : SirenVTWord F} (h : w.Plain) : w.shown = w.arrived := by
  unfold shown arrived
  rw [cstr_eq_self h.vt_word, cstr_eq_self h.vt_phone, cstr_eq_self h.nnet_path]

end SirenVTWord

theorem configOf_nnet (w : SirenVTWord F) (packed_len : Nat) :
    (configOf w packed_len).vt_nnet_path_size = w.alg_config.nnet_path.length := by
  unfold configOf
  cases w.alg_config.nnet_path <;> rfl

theorem configOf_ints {w : SirenVTWord F} (htype : CInt.Fits w.vt_type)
    (hfits : roundUpLen w < 2 ^ 31) :
    (configOf w (roundUpLen w)).Ints := by
  have hlen : w.vt_word.length + w.vt_phone.length + w.alg_config.nnet_path.length <
      roundUpLen w := by
    simp [roundUpLen, sizeofUnpackedVTConfig]
    omega
  refine ⟨?_, htype, ?_, ?_, ?_⟩
  · show -2 ^ 31 ≤ (roundUpLen w : Int) ∧ (roundUpLen w : Int) < 2 ^ 31
    omega
  · show -2 ^ 31 ≤ (w.vt_word.length : Int) ∧ (w.vt_word.length : Int) < 2 ^ 31
    omega
  · show -2 ^ 31 ≤ (w.vt_phone.length : Int) ∧ (w.vt_phone.length : Int) < 2 ^ 31
    omega
  · rw [configOf_nnet]
    omega

/-- A record is read as the word it was written for. -/
theorem decodeRecord_record [CFloat F] [LawfulCFloat F] (a c : List UInt8) {w : SirenVTWord F}
    (htype : CInt.Fits w.vt_type) (hfits : roundUpLen w < 2 ^ 31) :
    decodeRecord (a ++ record w ++ c) a.length = .ok (w.shown, (roundUpLen w : Int)) := by
  -- the record is its parts and padding that is not read
  obtain ⟨pad, hrecord⟩ : ∃ pad, record w = (configOf w (roundUpLen w)).block ++
      (w.vt_word ++ [0]) ++ (w.vt_phone ++ [0]) ++ (w.alg_config.nnet_path ++ [0]) ++ pad := by
    refine ⟨List.replicate (8 - (sizeofUnpackedVTConfig + w.vt_word.length + w.vt_phone.length +
      w.alg_config.nnet_path.length + 3) % 8) 0, ?_⟩
    unfold record
    simp only [List.append_assoc]
  have hints := configOf_ints htype hfits
  have hblock := length_block (configOf w (roundUpLen w))
  have hword_size : (configOf w (roundUpLen w)).vt_word_size = w.vt_word.length := rfl
  have hphone_size : (configOf w (roundUpLen w)).vt_phone_size = w.vt_phone.length := rfl
  have hnnet_size := configOf_nnet w (roundUpLen w)
  have hload := load_block a ((w.vt_word ++ [0]) ++ ((w.vt_phone ++ [0]) ++
    ((w.alg_config.nnet_path ++ [0]) ++ (pad ++ c)))) _ hints
  have hword := decodeString_middle (a ++ (configOf w (roundUpLen w)).block) w.vt_word
    ((w.vt_phone ++ [0]) ++ ((w.alg_config.nnet_path ++ [0]) ++ (pad ++ c)))
    w.vt_word.length (-4)
  have hphone := decodeString_middle (a ++ (configOf w (roundUpLen w)).block ++
    (w.vt_word ++ [0])) w.vt_phone ((w.alg_config.nnet_path ++ [0]) ++ (pad ++ c))
    w.vt_phone.length (-7)
  have hnnet := decodeNnetPath_middle (a ++ (configOf w (roundUpLen w)).block ++
    (w.vt_word ++ [0]) ++ (w.vt_phone ++ [0])) w.alg_config.nnet_path (pad ++ c)
    w.vt_phone.length
  rw [hrecord]
  simp only [List.append_assoc, List.length_append, hblock, List.length_singleton,
    Nat.cast_add, Nat.cast_one, ← add_assoc] at hload hword hphone hnnet ⊢
  generalize a ++ ((configOf w (roundUpLen w)).block ++ (w.vt_word ++ ([0] ++ (w.vt_phone ++
    ([0] ++ (w.alg_config.nnet_path ++ ([0] ++ (pad ++ c)))))))) = data at *
  unfold decodeRecord
  rw [hload]
  simp only [bind, Except.bind, pure, Except.pure, hword_size, hphone_size, hnnet_size, hword,
    hphone, hnnet]
  rfl

/-- The loop reads the words one after the other. -/
theorem decodeRecords_records [CFloat F] [LawfulCFloat F] (a c : List UInt8)
    {ws : List (SirenVTWord F)} (htypes : ∀ w ∈ ws, CInt.Fits w.vt_type)
    (hfits : (ws.map roundUpLen).sum < 2 ^ 31) (acc : List (SirenVTWord F)) :
    decodeRecords (a ++ ws.flatMap record ++ c) ws.length a.length acc =
      some (0, acc ++ ws.map SirenVTWord.shown) := by
  induction ws generalizing a acc with
  | nil => simp [decodeRecords]
  | cons w ws ih =>
    rw [List.map_cons, List.sum_cons] at hfits
    have hfirst := decodeRecord_record a (ws.flatMap record ++ c)
      (htypes w List.mem_cons_self) (by omega)
    have hrest := ih (a ++ record w) (fun w' hw' => htypes w' (List.mem_cons_of_mem w hw'))
      (by omega) (acc ++ [w.shown])
    rw [List.length_append, length_record, Nat.cast_add] at hrest
    rw [List.flatMap_cons, List.length_cons, ← List.append_assoc, decodeRecords,
      List.append_assoc (a ++ record w), hfirst]
    show decodeRecords _ _ _ _ = _
    rw [← List.append_assoc, hrest]
    simp

theorem le_roundUpLen (w : SirenVTWord F) : sizeofUnpackedVTConfig ≤ roundUpLen w := by
  simp [roundUpLen]
  omega

theorem configs_le (ws : List (SirenVTWord F)) :
    sizeofUnpackedVTConfig * ws.length ≤ (ws.map roundUpLen).sum := by
  induction ws with
  | nil => simp
  | cons w ws ih =>
    have hw := le_roundUpLen w
    rw [List.map_cons, List.sum_cons, List.length_cons, Nat.mul_succ]
    omega

/-- The message for a list that is not empty. -/
theorem getVTWordFromMessage_encodeWords [CFloat F] [LawfulCFloat F] {ws : List (SirenVTWord F)}
    (htypes : ∀ w ∈ ws, CInt.Fits w.vt_type) (hfits : (encodeWords ws).length < 2 ^ 31)
    (acc : List (SirenVTWord F)) :
    getVTWordFromMessage (some ⟨SIREN_REQUEST_MSG_SYNC_VT_WORD_LIST, encodeWords ws, hfits⟩) acc =
      some (0, acc ++ ws.map SirenVTWord.shown) := by
  have hsum : (encodeWords ws).length = (ws.map roundUpLen).sum + 4 * 4 := length_encodeWords ws
  have hcount := configs_le ws
  have hsize : sizeofUnpackedVTConfig = 37 := rfl
  rw [hsize] at hcount
  have hnum : ofLE32 (toLE32 ws.length) = ws.length := ofLE32_toLE32 (by omega) (by omega)
  have hbytes : bytesAt (encodeWords ws) 0 4 = .ok (toLE32 ws.length) := by
    have hmiddle := bytesAt_middle [] (toLE32 ws.length)
      (List.replicate 12 0 ++ ws.flatMap record) 0 4 (by rw [length_toLE32])
    rw [List.drop_zero, List.take_of_length_le (by rw [length_toLE32]), List.nil_append,
      ← List.append_assoc, ← encodeWords_eq] at hmiddle
    exact hmiddle
  have hrecords := decodeRecords_records (toLE32 ws.length ++ List.replicate 12 0) [] htypes
    (by omega) acc
  rw [List.append_nil, ← encodeWords_eq, List.length_append, length_toLE32, List.length_replicate]
    at hrecords
  have hne : (encodeWords ws).isEmpty = false := by
    rw [List.isEmpty_eq_false_iff, ← List.length_pos_iff]
    omega
  simp only [getVTWordFromMessage, ne_eq, not_true_eq_false, if_false, hne, Bool.false_eq_true,
    hbytes, hnum, hsize, Int.toNat_natCast]
  rw [if_neg (by omega), if_neg (by omega)]
  exact hrecords

/-- What the other side finds in the message for `ws`. -/
def decoded (ws acc : List (SirenVTWord F)) : Int × List (SirenVTWord F) :=
  if ws.isEmpty then (-2, acc) else (0, acc ++ ws.map SirenVTWord.arrived)

/-- The message for any list. -/
theorem exists_message_shown [CFloat F] [LawfulCFloat F] {ws : List (SirenVTWord F)}
    (htypes : ∀ w ∈ ws, CInt.Fits w.vt_type) (hfits : totalLen ws < 2 ^ 31) :
    ∃ m, allocateMessageFromVTWord ws = some m ∧
      (ws ≠ [] → m.data = encodeWords ws) ∧
      ∀ acc, getVTWordFromMessage (some m) acc =
        some (if ws.isEmpty then (-2, acc) else (0, acc ++ ws.map SirenVTWord.shown)) := by
  unfold allocateMessageFromVTWord
  cases hempty : ws.isEmpty with
  | true =>
    refine ⟨_, rfl, ?_, fun acc => rfl⟩
    intro hne
    exact absurd (List.isEmpty_iff.mp hempty) hne
  | false =>
    rw [← length_encodeWords] at hfits
    simp only [Bool.false_eq_true, if_false, dif_pos hfits]
    exact ⟨_, rfl, fun _ => rfl, getVTWordFromMessage_encodeWords htypes hfits⟩

/-- For strings without NULs nothing is lost. -/
theorem exists_message [CFloat F] [LawfulCFloat F] {ws : List (SirenVTWord F)}
    (hplain : ∀ w ∈ ws, w.Plain) (hfits : totalLen ws < 2 ^ 31) :
    ∃ m, allocateMessageFromVTWord ws = some m ∧
      (ws ≠ [] → m.data = encodeWords ws) ∧
      ∀ acc, getVTWordFromMessage (some m) acc = some (decoded ws acc) := by
  obtain ⟨m, hm, hdata, hget⟩ := exists_message_shown (fun w hw => (hplain w hw).vt_type) hfits
  refine ⟨m, hm, hdata, ?_⟩
  intro acc
  rw [hget, List.map_congr_left fun w hw => (hplain w hw).shown_eq]
  rfl

/-! ### Where the encoder writes -/

/-- The offset of a record in the data. -/
def recordStart (ws : List (SirenVTWord F)) (i : Nat) : Nat :=
  4 * 4 + ((ws.take i).map roundUpLen).sum

theorem recordsFrom_getElem? [CFloat F] (k : Nat) (ws : List (SirenVTWord F)) (i : Nat) :
    (recordsFrom k (ws.zip (ws.map roundUpLen)))[i]? = ws[i]?.map fun w =>
      (recordWrites w (roundUpLen w)).map
        (Write.shift (k + ((ws.take i).map roundUpLen).sum)) := by
  induction ws generalizing k i with
  | nil => simp [recordsFrom]
  | cons w ws ih =>
    rw [List.map_cons, List.zip_cons_cons, recordsFrom]
    cases i with
    | zero => simp
    | succ i =>
      rw [List.getElem?_cons_succ, List.getElem?_cons_succ, ih, List.take_succ_cons, List.map_cons,
        List.sum_cons, Nat.add_assoc]

theorem recordStart_le {ws : List (SirenVTWord F)} {i : Nat} {w : SirenVTWord F}
    (h : ws[i]? = some w) : recordStart ws i + roundUpLen w ≤ totalLen ws := by
  obtain ⟨hi, hw⟩ := List.getElem?_eq_some_iff.mp h
  have hsplit : (ws.map roundUpLen).sum = ((ws.take i).map roundUpLen).sum + (roundUpLen w +
      ((ws.drop (i + 1)).map roundUpLen).sum) := by
    conv_lhs => rw [← List.take_append_drop i ws, List.drop_eq_getElem_cons hi, hw]
    rw [List.map_append, List.sum_append, List.map_cons, List.sum_cons]
  unfold recordStart totalLen
  omega

/-- The writes for a word stay inside its record. -/
theorem wordWrites_inside [CFloat F] {ws : List (SirenVTWord F)} {i : Nat} {w : SirenVTWord F}
    (h : ws[i]? = some w) : ∃ wrs, (wordWrites ws)[i]? = some wrs ∧ ∀ wr ∈ wrs,
      recordStart ws i ≤ wr.start ∧ wr.stop ≤ recordStart ws i + roundUpLen w ∧
        wr.stop ≤ totalLen ws := by
  have hget := recordsFrom_getElem? (4 * 4) ws i
  rw [h, Option.map_some] at hget
  refine ⟨_, hget, ?_⟩
  intro wr hwr
  obtain ⟨wr', hwr', rfl⟩ := List.mem_map.mp hwr
  have hreach := recordWrites_reach w hwr'
  have hstop := wr'.stop_le_reach
  have hend := recordStart_le h
  rw [Write.start_shift, Write.stop_shift]
  show recordStart ws i ≤ recordStart ws i + _ ∧ recordStart ws i + _ ≤ _ ∧
    recordStart ws i + _ ≤ _
  omega

/-- The words come back as they were, in order; the empty list is told by its own
    status; and the encoder writes each record inside its place. -/
theorem getVTWord_allocate [CFloat F] [LawfulCFloat F] (ws acc : List (SirenVTWord F))
    (hplain : ∀ w ∈ ws, w.Plain) (hfits : totalLen ws < 2 ^ 31) :
    ∃ m, allocateMessageFromVTWord ws = some m ∧
      (ws ≠ [] → getVTWordFromMessage (some m) acc =
        some (0, acc ++ ws.map fun w => { w with use_default_config := false })) ∧
      (ws = [] → getVTWordFromMessage (some m) acc = some (-2, acc)) ∧
      ∀ i w, ws[i]? = some w → ∃ wrs, (wordWrites ws)[i]? = some wrs ∧ ∀ wr ∈ wrs,
        recordStart ws i ≤ wr.start ∧ wr.stop ≤ recordStart ws i + roundUpLen w ∧
          wr.stop ≤ m.data.length := by
  obtain ⟨m, hm, hdata, hget⟩ := exists_message hplain hfits
  refine ⟨m, hm, ?_, ?_, ?_⟩
  · intro hne
    have hempty : ws.isEmpty = false := List.isEmpty_eq_false_iff.mpr hne
    rw [hget, decoded, hempty]
    rfl
  · intro hnil
    rw [hget, hnil]
    rfl
  · intro i w hw
    have hne : ws ≠ [] := by
      intro hnil
      rw [hnil] at hw
      cases hw
    obtain ⟨wrs, hwrs, hinside⟩ := wordWrites_inside hw
    rw [hdata hne, length_encodeWords]
    exact ⟨wrs, hwrs, hinside⟩

/-- Two words, the first without a path. -/
def twoWords : List (SirenVTWord Single) :=
  [{ vt_type := 1, vt_word := [97, 98], vt_phone := [99], use_default_config := true
     alg_config := {
       vt_block_avg_score := CFloat.ofRat (21 / 5)
       vt_block_min_score := CFloat.ofRat (27 / 10)
       vt_classify_shield := CFloat.ofRat (-3 / 10)
       vt_left_sil_det := true
       vt_right_sil_det := false
       vt_remote_check_with_aec := true
       vt_remote_check_without_aec := true
       vt_local_classify_check := false
       nnet_path := [] } },
   { vt_type := -1, vt_word := [100], vt_phone := [], use_default_config := false
     alg_config := {
       vt_block_avg_score := CFloat.ofRat 0
       vt_block_min_score := CFloat.ofRat 1
       vt_classify_shield := CFloat.ofRat 2
       vt_left_sil_det := false
       vt_right_sil_det := true
       vt_remote_check_with_aec := false
       vt_remote_check_without_aec := false
       vt_local_classify_check := true
       nnet_path := [47, 120] } }]

theorem plain_twoWords : ∀ w ∈ twoWords, w.Plain := by
  intro w hw
  simp only [twoWords, List.mem_cons, List.not_mem_nil, or_false] at hw
  rcases hw with rfl | rfl
  · exact ⟨by decide, by decide, by decide, by decide⟩
  · exact ⟨by decide, by decide, by decide, by decide⟩

theorem getVTWord_allocate_two : getVTWordFromMessage (allocateMessageFromVTWord twoWords) [] =
    some (0, twoWords.map fun w => { w with use_default_config := false }) := by
  obtain ⟨m, hm, hwords, -, -⟩ := getVTWord_allocate twoWords [] plain_twoWords (by decide)
  rw [hm]
  exact hwords (List.cons_ne_nil _ _)

end BlackSiren

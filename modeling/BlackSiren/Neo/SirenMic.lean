import BlackSiren.Framework.Blocks
import BlackSiren.Framework.CInt
import BlackSiren.Framework.Writes
import BlackSiren.Legacy.In
import Mathlib.Data.List.Nodup
import Mathlib.Data.Nat.Bitwise
import Mathlib.Tactic.NormNum

/-! # The sample conversion of `neo/`

    `formatFromNormalPCM` rewrites `r2mem_i::process`, with one row of samples
    per microphone behind the other in a single array.

    - `toint_eq_iff`: on which bytes the two decode a 24-bit sample alike
    - `formatFromNormalPCM_spec`: what the loops store
    - `sameSamples_iff`: when the two conversions store the same samples
-/

namespace BlackSiren

/-- `in_type`. -/
inductive InType where
  | in_int_24
  | in_int_32
  | in_int_32_10
  | in_float_32
  | in_int_16
  | in_int_8
  deriving DecidableEq, Repr

/-- `PCMFormat`. -/
structure PCMFormat where
  frameLen : Int
  type : InType
  channelNum : Int
  channelList : List Int

/-- A conversion to `size_t`. -/
def usize (v : Int) : Nat := (v % 2 ^ 64).toNat

/-! ### 24-bit samples -/

/-- `r2_int24::toint`. -/
def R2Int24.toint (m_Internal : Nat → UInt8) : Int :=
  let bytes := Bytes.low (m_Internal 0) ||| Bytes.low (m_Internal 1) <<< 8 |||
    Bytes.low (m_Internal 2) <<< 16
  if Bytes.low (m_Internal 2) &&& 0x80 ≠ 0 then (bytes ||| ((-1 : BitVec 32) &&& 0xff) <<< 24).toInt
  else (bytes ||| ((0 : BitVec 32) &&& 0xff) <<< 24).toInt

/-- `type_int24::toint`. The third byte is compared with 16, not shifted. -/
def TypeInt24.toint (internal : Nat → UInt8) : Int :=
  let top : BitVec 32 := if Bytes.low (internal 2) &&& 0x80 = 0 then 0 else -1
  let less : BitVec 32 := if Bytes.low (internal 2) < 16 then 1 else 0
  (Bytes.low (internal 0) ||| Bytes.low (internal 1) <<< 8 ||| less |||
    (top &&& 0xff) <<< 24).toInt

/-- The test of the sign bit. -/
theorem low_and_sign (b : UInt8) : Bytes.low b &&& 0x80 = 0 ↔ b.toNat < 128 := by
  have hb := b.toNat_lt
  have hbit : (0x80 : BitVec 32).toNat = 2 ^ 7 := rfl
  rw [← BitVec.toNat_inj, BitVec.toNat_and, Bytes.toNat_low, hbit, Nat.and_two_pow,
    Nat.testBit_eq_decide_div_mod_eq]
  by_cases h : b.toNat < 128
  · have hdiv : b.toNat / 2 ^ 7 % 2 ≠ 1 := by omega
    rw [decide_eq_false hdiv]
    exact ⟨fun _ => h, fun _ => rfl⟩
  · have hdiv : b.toNat / 2 ^ 7 % 2 = 1 := by omega
    rw [decide_eq_true hdiv]
    constructor
    · intro hzero
      cases hzero
    · intro hlt
      exact absurd hlt h

/-- Under a sign byte of zeros the three low bytes are the value. -/
theorem toInt_positive {x : BitVec 32} (hx : x.toNat < 2 ^ 24) :
    (x ||| ((0 : BitVec 32) &&& 0xff) <<< 24).toInt = x.toNat := by
  have hword : (x ||| ((0 : BitVec 32) &&& 0xff) <<< 24).toNat = x.toNat := by
    rw [Bytes.toNat_or_shift (b := 0) hx (by decide) rfl]
    omega
  rw [BitVec.toInt_eq_toNat_of_lt (by omega), hword]

/-- Under a sign byte of ones the value is negative. -/
theorem toInt_negative {x : BitVec 32} (hx : x.toNat < 2 ^ 24) :
    (x ||| ((-1 : BitVec 32) &&& 0xff) <<< 24).toInt = x.toNat - 2 ^ 24 := by
  have hword : (x ||| ((-1 : BitVec 32) &&& 0xff) <<< 24).toNat = x.toNat + 255 * 2 ^ 24 :=
    Bytes.toNat_or_shift (b := 255) hx (by decide) rfl
  rw [BitVec.toInt_eq_toNat_cond, if_neg (by omega), hword]
  omega

/-- The legacy unit decodes a sample as little-endian two's complement. -/
theorem R2Int24.toint_eq (b : Nat → UInt8) :
    R2Int24.toint b = toint24 (Bytes.ofLE [b 0, b 1, b 2]) := by
  have h0 := (b 0).toNat_lt
  have h1 := (b 1).toNat_lt
  have h2 := (b 2).toNat_lt
  have htwo : (Bytes.low (b 0) ||| Bytes.low (b 1) <<< 8).toNat =
      (b 0).toNat + (b 1).toNat * 2 ^ 8 := by
    rw [Bytes.toNat_or_shift (by rw [Bytes.toNat_low]; omega) (by omega) (Bytes.toNat_low (b 1)),
      Bytes.toNat_low]
  have hthree : (Bytes.low (b 0) ||| Bytes.low (b 1) <<< 8 ||| Bytes.low (b 2) <<< 16).toNat =
      (b 0).toNat + (b 1).toNat * 2 ^ 8 + (b 2).toNat * 2 ^ 16 := by
    rw [Bytes.toNat_or_shift (by rw [htwo]; omega) (by omega) (Bytes.toNat_low (b 2)), htwo]
  have hle : Bytes.ofLE [b 0, b 1, b 2] =
      (b 0).toNat + (b 1).toNat * 2 ^ 8 + (b 2).toNat * 2 ^ 16 := by
    simp only [Bytes.ofLE_cons, Bytes.ofLE_nil]
    omega
  unfold R2Int24.toint toint24
  dsimp only
  by_cases hsign : (b 2).toNat < 128
  · rw [if_neg (not_not_intro ((low_and_sign (b 2)).mpr hsign)), toInt_positive (by omega),
      hthree, hle, if_pos (by omega)]
  · rw [if_pos (fun hz => hsign ((low_and_sign (b 2)).mp hz)), toInt_negative (by omega),
      hthree, hle, if_neg (by omega)]

/-- `b | 1`. -/
theorem toNat_or_one (b : UInt8) :
    (Bytes.low b ||| 1).toNat = b.toNat + (1 - b.toNat % 2) := by
  have hone : (1 : BitVec 32).toNat = 1 := rfl
  rw [BitVec.toNat_or, Bytes.toNat_low, hone]
  have hdiv : (b.toNat ||| 1) / 2 = b.toNat / 2 := by
    rw [Nat.or_div_two]
    exact Nat.or_zero _
  have hmod : (b.toNat ||| 1) % 2 = 1 := Nat.or_mod_two_eq_one.mpr (.inr rfl)
  omega

/-- What the rewrite reads: the third byte is lost but for its sign, and the
    comparison with 16 sets the lowest bit. -/
theorem TypeInt24.toint_eq (b : Nat → UInt8) : TypeInt24.toint b =
    (b 0).toNat + (if (b 2).toNat < 16 then 1 - (b 0).toNat % 2 else 0 : Nat) +
      (b 1).toNat * 2 ^ 8 - (if (b 2).toNat < 128 then 0 else 2 ^ 24) := by
  have h0 := (b 0).toNat_lt
  have h1 := (b 1).toNat_lt
  have hcmp : Bytes.low (b 2) < 16 ↔ (b 2).toNat < 16 := by
    rw [BitVec.lt_def, Bytes.toNat_low]
    rfl
  have hor : (Bytes.low (b 0) ||| (if Bytes.low (b 2) < 16 then 1 else 0 : BitVec 32)).toNat =
      (b 0).toNat + (if (b 2).toNat < 16 then 1 - (b 0).toNat % 2 else 0) := by
    by_cases h : (b 2).toNat < 16
    · rw [if_pos (hcmp.mpr h), if_pos h]
      exact toNat_or_one (b 0)
    · rw [if_neg (fun hlt => h (hcmp.mp hlt)), if_neg h]
      exact (congrArg BitVec.toNat BitVec.or_zero).trans (Bytes.toNat_low (b 0))
  have hbound : (b 0).toNat + (if (b 2).toNat < 16 then 1 - (b 0).toNat % 2 else 0) < 2 ^ 8 := by
    split
    · omega
    · omega
  have hword : (Bytes.low (b 0) ||| Bytes.low (b 1) <<< 8 |||
      (if Bytes.low (b 2) < 16 then 1 else 0 : BitVec 32)).toNat =
        (b 0).toNat + (if (b 2).toNat < 16 then 1 - (b 0).toNat % 2 else 0) +
          (b 1).toNat * 2 ^ 8 := by
    rw [BitVec.or_assoc, BitVec.or_comm (Bytes.low (b 1) <<< 8), ← BitVec.or_assoc,
      Bytes.toNat_or_shift (by rw [hor]; exact hbound) (by omega) (Bytes.toNat_low (b 1)), hor]
  unfold TypeInt24.toint
  dsimp only
  by_cases hsign : (b 2).toNat < 128
  · rw [if_pos ((low_and_sign (b 2)).mpr hsign), toInt_positive (by rw [hword]; omega), hword,
      if_pos hsign]
    omega
  · rw [if_neg (fun hz => hsign ((low_and_sign (b 2)).mp hz)),
      toInt_negative (by rw [hword]; omega), hword, if_neg hsign]
    omega

/-- The two read the same sample only if it is one of the odd ones below 256
    whose third byte is zero. -/
theorem toint_eq_iff (b : Nat → UInt8) :
    TypeInt24.toint b = R2Int24.toint b ↔ b 2 = 0 ∧ (b 0).toNat % 2 = 1 := by
  have h0 := (b 0).toNat_lt
  have h1 := (b 1).toNat_lt
  have h2 := (b 2).toNat_lt
  have hzero : b 2 = 0 ↔ (b 2).toNat = 0 := by
    rw [← UInt8.toNat_inj]
    rfl
  rw [TypeInt24.toint_eq, R2Int24.toint_eq, hzero]
  unfold toint24
  simp only [Bytes.ofLE_cons, Bytes.ofLE_nil]
  by_cases hsmall : (b 2).toNat < 16
  · rw [if_pos hsmall, if_pos (by omega), if_pos (by omega)]
    omega
  · rw [if_neg hsmall]
    by_cases hsign : (b 2).toNat < 128
    · rw [if_pos hsign, if_pos (by omega)]
      omega
    · rw [if_neg hsign, if_neg (by omega)]
      omega

/-! ### `formatFromNormalPCM` -/

namespace PCMFormat

/-- `sizeof(..) * channelNum`. -/
def instant (format : PCMFormat) (size : Nat) : Nat := size * usize format.channelNum % 2 ^ 64

/-- The assertion on the length. -/
def wholeFrames (format : PCMFormat) (size : Nat) : Except Fault Unit := do
  assertThat (format.instant size ≠ 0) .divByZero
  assertThat (usize format.frameLen % format.instant size = 0) .frameLen

end PCMFormat

/-- `validFormat`. The assertion in the default branch holds. -/
def validFormat (format : PCMFormat) : Except Fault Unit :=
  match format.type with
  | .in_int_24 => format.wholeFrames 3
  | .in_int_32 => format.wholeFrames 4
  | .in_int_32_10 => format.wholeFrames 4
  | .in_float_32 => format.wholeFrames 4
  | .in_int_16 => return ()
  | .in_int_8 => return ()

variable {F : Type}

/-- The two loops of a format, over its channels and over the samples of each. -/
def deinterleave (format : PCMFormat) (size : Nat) (data : Nat → F) (formatPCM : Int → F) :
    Except Fault (Int → F) := do
  assertThat (format.instant size ≠ 0) .divByZero
  let perChannelLen := Bytes.int32 (usize format.frameLen / format.instant size)
  (List.range format.channelNum.toNat).foldlM (fun formatPCM (j : Nat) => do
    let id ← Access.read .outOfBounds format.channelList j
    return Writes.fill (fun k : Nat => perChannelLen * id + k)
      (fun k : Nat => data (k * format.channelNum.toNat + j)) formatPCM
      (List.range perChannelLen.toNat)) formatPCM

/-- `formatFromNormalPCM`. -/
def formatFromNormalPCM [CFloat F] (formatPCM : Int → F) (pcm : Nat → UInt8) (format : PCMFormat) :
    Except Fault (Int → F) := do
  validFormat format
  match format.type with
  | .in_int_24 =>
      deinterleave format 3 (fun i => CFloat.div
        (CFloat.ofInt (TypeInt24.toint fun k => pcm (3 * i + k))) (CFloat.ofRat 4)) formatPCM
  | .in_int_32_10 =>
      deinterleave format 4 (fun i => CFloat.div
        (CFloat.ofInt (Bytes.int32 (Bytes.readLE pcm (4 * i) 4))) (CFloat.ofRat 4)) formatPCM
  | .in_int_32 =>
      deinterleave format 4 (fun i => CFloat.div
        (CFloat.ofInt (Bytes.int32 (Bytes.readLE pcm (4 * i) 4))) (CFloat.ofRat 1024)) formatPCM
  | .in_float_32 =>
      deinterleave format 4 (fun i => CFloat.ofBits (.ofNat 32 (Bytes.readLE pcm (4 * i) 4)))
        formatPCM
  | .in_int_16 => return formatPCM
  | .in_int_8 => return formatPCM

/-- A format of the legacy unit, as the rewrite calls it. -/
def R2InType.neo : R2InType → InType
  | .r2_in_int_24 => .in_int_24
  | .r2_in_int_32 => .in_int_32
  | .r2_in_int_32_10 => .in_int_32_10
  | .r2_in_float_32 => .in_float_32

/-- The two conversions of one buffer return, and the rewrite has in the row of
    each microphone of the unit what the unit has in its channel. -/
def SameSamples [CFloat F] (formatPCM : Int → F) (pcm : Nat → UInt8) (format : PCMFormat)
    (u : R2memI F) : Prop :=
  ∃ out u' len, formatFromNormalPCM formatPCM pcm format = .ok out ∧
    u.process pcm format.frameLen = .ok (u', len) ∧
    ∀ id ∈ u.m_pMicInfo_In, ∀ k < len, out (len * id + k) = u'.m_pData_Out id k

/-- A quarter of a 24-bit integer is exact, as it is in the floats of the code. -/
class ExactCFloat (F : Type) [CFloat F] : Prop where
  quarter_inj : ∀ x y : Int, x.natAbs ≤ 2 ^ 24 → y.natAbs ≤ 2 ^ 24 →
    CFloat.div (CFloat.ofInt (F := F) x) (CFloat.ofRat 4) =
      CFloat.div (CFloat.ofInt y) (CFloat.ofRat 4) → x = y

instance : ExactCFloat ℚ where
  quarter_inj x y _ _ h := by
    have hquarter : (x : ℚ) / 4 = (y : ℚ) / 4 := h
    exact_mod_cast (div_left_inj' (by norm_num)).mp hquarter

/-! ### What the loops store -/

/-- The format describes the microphones of the unit, in ints. -/
structure PCMFormat.Describes (format : PCMFormat) (t : R2InType) (mics : MicIdLst) : Prop where
  type_eq : format.type = t.neo
  channelNum_eq : format.channelNum = mics.length
  channelList_prefix : mics <+: format.channelList
  channelNum_fits : CInt.Fits format.channelNum
  frameLen_fits : CInt.Fits format.frameLen

/-- The length passes the assertions. -/
structure PCMFormat.Whole (format : PCMFormat) (t : R2InType) (mics : MicIdLst) : Prop where
  mics_ne_nil : mics ≠ []
  frameLen_nonneg : 0 ≤ format.frameLen
  frameLen_mod : format.frameLen.toNat % (t.size * mics.length) = 0

theorem usize_natCast {n : Nat} (h : n < 2 ^ 64) : usize n = n := by
  unfold usize
  omega

theorem R2InType.size_pos (t : R2InType) : 0 < t.size := by
  cases t <;> decide

theorem R2InType.size_le (t : R2InType) : t.size ≤ 4 := by
  cases t <;> decide

section

variable {format : PCMFormat} {t : R2InType} {mics : MicIdLst}

theorem PCMFormat.Describes.instant_eq (h : format.Describes t mics) :
    format.instant t.size = t.size * mics.length := by
  have hnum := h.channelNum_fits.2
  have hle := t.size_le
  rw [h.channelNum_eq] at hnum
  have hmul : t.size * mics.length ≤ 4 * mics.length := Nat.mul_le_mul_right _ hle
  unfold PCMFormat.instant
  rw [h.channelNum_eq, usize_natCast (by omega), Nat.mod_eq_of_lt (by omega)]

theorem PCMFormat.Describes.usize_frameLen (h : format.Describes t mics)
    (hw : format.Whole t mics) : usize format.frameLen = format.frameLen.toNat := by
  have hlen := h.frameLen_fits.2
  have hnonneg := hw.frameLen_nonneg
  unfold usize
  omega

theorem PCMFormat.Whole.instant_pos (hw : format.Whole t mics) : 0 < t.size * mics.length :=
  Nat.mul_pos t.size_pos (List.length_pos_iff.mpr hw.mics_ne_nil)

theorem validFormat_eq (h : format.Describes t mics) (hw : format.Whole t mics) :
    validFormat format = .ok () := by
  have hframes : format.wholeFrames t.size = .ok () := by
    unfold PCMFormat.wholeFrames
    rw [h.instant_eq, h.usize_frameLen hw, decide_eq_true hw.instant_pos.ne',
      decide_eq_true hw.frameLen_mod]
    rfl
  unfold validFormat
  rw [h.type_eq]
  cases t
  · exact hframes
  · exact hframes
  · exact hframes
  · exact hframes

/-- Two places of the array that are the same belong to one microphone and one
    sample. -/
theorem row_inj {len k k' : Nat} {id id' : Int} (hk : k < len) (hk' : k' < len)
    (h : (len : Int) * id + k = len * id' + k') : id = id' ∧ k = k' := by
  have hid : id = id' := by
    have hdiv := congrArg (· / (len : Int)) h
    rw [Int.mul_add_ediv_left _ _ (by omega), Int.mul_add_ediv_left _ _ (by omega),
      Int.ediv_eq_zero_of_lt (by omega) (by omega), Int.ediv_eq_zero_of_lt (by omega) (by omega),
      Int.add_zero, Int.add_zero] at hdiv
    exact hdiv
  subst hid
  exact ⟨rfl, by omega⟩

/-- The samples of one channel. -/
def PCMFormat.samples (format : PCMFormat) (t : R2InType) (mics : MicIdLst) : Nat :=
  format.frameLen.toNat / (t.size * mics.length)

theorem PCMFormat.Describes.perChannelLen_eq (h : format.Describes t mics)
    (hw : format.Whole t mics) :
    Bytes.int32 (usize format.frameLen / format.instant t.size) = format.samples t mics := by
  have hfits := h.frameLen_fits.2
  have hle : format.samples t mics ≤ format.frameLen.toNat := Nat.div_le_self _ _
  rw [h.usize_frameLen hw, h.instant_eq]
  change (BitVec.ofNat 32 (format.samples t mics)).toInt = _
  rw [BitVec.toInt_ofNat', Int.bmod_eq_of_le (by omega) (by omega)]

/-- The loops are one loop over columns and samples. -/
theorem deinterleave_eq (h : format.Describes t mics) (hw : format.Whole t mics)
    (data : Nat → F) (formatPCM : Int → F) :
    deinterleave format t.size data formatPCM = .ok
      (Writes.fill (fun p : Nat × Nat => (format.samples t mics : Int) * mics.getD p.1 0 + p.2)
        (fun p => data (p.2 * mics.length + p.1)) formatPCM
        (List.range mics.length ×ˢ List.range (format.samples t mics))) := by
  unfold deinterleave
  rw [h.instant_eq, decide_eq_true hw.instant_pos.ne', ← h.instant_eq, h.perChannelLen_eq hw,
    h.channelNum_eq, Int.toNat_natCast, ← Writes.foldl_fill
      (fun j (k : Nat) => (format.samples t mics : Int) * mics.getD j 0 + k)
      (fun j k => data (k * mics.length + j))]
  apply Access.foldlM_eq_ok
  intro out j hj
  have hlt := List.mem_range.mp hj
  have hget : format.channelList[j]? = some (mics.getD j 0) := by
    rw [List.getD_eq_getElem _ _ hlt]
    exact List.prefix_iff_getElem?.mp h.channelList_prefix j hlt
  unfold Access.read
  rw [if_pos (by omega), Int.toNat_natCast, hget]
  rfl

/-- The loops store sample `k * channelNum + col` of the buffer for the
    microphone in column `col`. -/
theorem deinterleave_spec (h : format.Describes t mics) (hw : format.Whole t mics)
    (hnodup : mics.Nodup) (data : Nat → F) (formatPCM : Int → F) :
    ∃ out, deinterleave format t.size data formatPCM = .ok out ∧
      ∀ col id k, mics[col]? = some id → k < format.samples t mics →
        out (format.samples t mics * id + k) = data (k * mics.length + col) := by
  refine ⟨_, deinterleave_eq h hw data formatPCM, ?_⟩
  intro col id k hcol hk
  obtain ⟨hlt, rfl⟩ := List.getElem?_eq_some_iff.mp hcol
  have hmem : (col, k) ∈ List.range mics.length ×ˢ List.range (format.samples t mics) :=
    List.mem_product.mpr ⟨List.mem_range.mpr hlt, List.mem_range.mpr hk⟩
  rw [← List.getD_eq_getElem mics 0 hlt]
  refine Writes.fill_apply (a := (col, k)) hmem ?_ formatPCM
  intro p hp hpos
  -- another turn at this place would be the same turn
  obtain ⟨hp₁, hp₂⟩ := List.mem_product.mp hp
  obtain ⟨hid, hsample⟩ := row_inj (List.mem_range.mp hp₂) hk hpos
  rw [List.getD_eq_getElem _ _ (List.mem_range.mp hp₁), List.getD_eq_getElem _ _ hlt] at hid
  have hcol := (List.Nodup.getElem_inj_iff hnodup).mp hid
  rw [hcol, hsample]

end

variable [CFloat F]

/-- The sample the rewrite stores for sample `i` of the buffer. -/
def R2InType.neoSample (t : R2InType) (pcm : Nat → UInt8) (i : Nat) : F :=
  match t with
  | .r2_in_int_24 =>
      CFloat.div (CFloat.ofInt (TypeInt24.toint fun k => pcm (3 * i + k))) (CFloat.ofRat 4)
  | .r2_in_int_32 => R2memI.sample .r2_in_int_32 (Bytes.readLE pcm (4 * i) 4)
  | .r2_in_int_32_10 => R2memI.sample .r2_in_int_32_10 (Bytes.readLE pcm (4 * i) 4)
  | .r2_in_float_32 => R2memI.sample .r2_in_float_32 (Bytes.readLE pcm (4 * i) 4)

theorem formatFromNormalPCM_eq {format : PCMFormat} {t : R2InType} {mics : MicIdLst}
    (h : format.Describes t mics) (hw : format.Whole t mics) (formatPCM : Int → F)
    (pcm : Nat → UInt8) : formatFromNormalPCM formatPCM pcm format =
      deinterleave format t.size (t.neoSample pcm) formatPCM := by
  unfold formatFromNormalPCM
  rw [validFormat_eq h hw, h.type_eq]
  cases t
  · rfl
  · rfl
  · rfl
  · rfl

/-- In the other formats nothing depends on the bytes. -/
theorem neoSample_eq {t : R2InType} (ht : t.neo ≠ .in_int_24) (pcm : Nat → UInt8) (i : Nat) :
    t.neoSample pcm i = R2memI.sample (F := F) t (Bytes.readLE pcm (t.size * i) t.size) := by
  cases t with
  | r2_in_int_24 => exact absurd rfl ht
  | r2_in_int_32 => rfl
  | r2_in_int_32_10 => rfl
  | r2_in_float_32 => rfl

/-- The 24-bit format, sample by sample. -/
theorem neoSample_eq_iff [ExactCFloat F] (pcm : Nat → UInt8) (i : Nat) :
    R2InType.r2_in_int_24.neoSample pcm i =
        R2memI.sample (F := F) .r2_in_int_24 (Bytes.readLE pcm (3 * i) 3) ↔
      pcm (3 * i + 2) = 0 ∧ (pcm (3 * i)).toNat % 2 = 1 := by
  have hlegacy : toint24 (Bytes.readLE pcm (3 * i) 3) =
      R2Int24.toint fun k => pcm (3 * i + k) := by
    rw [R2Int24.toint_eq]
    rfl
  have hbounds (b : Nat → UInt8) :
      (TypeInt24.toint b).natAbs ≤ 2 ^ 24 ∧ (R2Int24.toint b).natAbs ≤ 2 ^ 24 := by
    have h0 := (b 0).toNat_lt
    have h1 := (b 1).toNat_lt
    have h2 := (b 2).toNat_lt
    rw [TypeInt24.toint_eq, R2Int24.toint_eq, toint24, Bytes.ofLE_cons, Bytes.ofLE_cons,
      Bytes.ofLE_cons, Bytes.ofLE_nil]
    constructor
    · split <;> split <;> omega
    · split <;> omega
  obtain ⟨hneo, hold⟩ := hbounds fun k => pcm (3 * i + k)
  have htoint := toint_eq_iff fun k => pcm (3 * i + k)
  change _ ↔ pcm (3 * i + 2) = 0 ∧ (pcm (3 * i)).toNat % 2 = 1 at htoint
  rw [← htoint]
  unfold R2InType.neoSample R2memI.sample
  dsimp only
  rw [hlegacy]
  constructor
  · intro h
    exact ExactCFloat.quarter_inj _ _ hneo hold h
  · intro h
    rw [h]

theorem R2InType.eq_of_neo {t : R2InType} (ht : t.neo = .in_int_24) : t = .r2_in_int_24 := by
  cases t with
  | r2_in_int_24 => rfl
  | r2_in_int_32 => cases ht
  | r2_in_int_32_10 => cases ht
  | r2_in_float_32 => cases ht

/-- The same, for either format. -/
theorem neoSample_eq_sample_iff [ExactCFloat F] (t : R2InType) (pcm : Nat → UInt8) (i : Nat) :
    t.neoSample pcm i = R2memI.sample (F := F) t (Bytes.readLE pcm (t.size * i) t.size) ↔
      (t.neo = .in_int_24 → pcm (3 * i + 2) = 0 ∧ (pcm (3 * i)).toNat % 2 = 1) := by
  by_cases ht : t.neo = .in_int_24
  · obtain rfl := R2InType.eq_of_neo ht
    have hsample := neoSample_eq_iff (F := F) pcm i
    exact hsample.trans ⟨fun h _ => h, fun h => h rfl⟩
  · exact ⟨fun _ h => absurd h ht, fun _ => neoSample_eq ht pcm i⟩

/-- The two conversions store the same samples unless the format is the 24-bit
    one and the buffer holds a sample that is even or has bits in its third
    byte. -/
theorem sameSamples_iff [ExactCFloat F] {u : R2memI F} {format : PCMFormat}
    (h : format.Describes u.m_iInType u.m_pMicInfo_In)
    (hw : format.Whole u.m_iInType u.m_pMicInfo_In) (hnodup : u.m_pMicInfo_In.Nodup)
    (formatPCM : Int → F) (pcm : Nat → UInt8) :
    SameSamples formatPCM pcm format u ↔
      (format.type = .in_int_24 → ∀ i : Nat, 3 * i + 2 < format.frameLen →
        pcm (3 * i + 2) = 0 ∧ (pcm (3 * i)).toNat % 2 = 1) := by
  obtain ⟨out, hout, hrow⟩ :=
    deinterleave_spec h hw hnodup (u.m_iInType.neoSample (F := F) pcm) formatPCM
  rw [← formatFromNormalPCM_eq h hw] at hout
  obtain ⟨u', len, hu'⟩ := R2memI.process_returns hw.frameLen_nonneg hw.mics_ne_nil
    hw.frameLen_mod pcm
  obtain ⟨hlen, hsamples⟩ := R2memI.process_samples hu'
  change len = format.samples u.m_iInType u.m_pMicInfo_In at hlen
  subst hlen
  -- both outputs, at a place of the array
  have hplace : ∀ col id k, u.m_pMicInfo_In[col]? = some id →
      k < format.samples u.m_iInType u.m_pMicInfo_In →
      (out (format.samples u.m_iInType u.m_pMicInfo_In * id + k) = u'.m_pData_Out id k ↔
        (format.type = .in_int_24 → pcm (3 * (k * u.m_pMicInfo_In.length + col) + 2) = 0 ∧
          (pcm (3 * (k * u.m_pMicInfo_In.length + col))).toNat % 2 = 1)) := by
    intro col id k hcol hk
    obtain ⟨hlt, hid⟩ := List.getElem?_eq_some_iff.mp hcol
    obtain ⟨col', hcol', -, hdata⟩ := hsamples id (List.mem_of_getElem? hcol)
    obtain ⟨hlt', hid'⟩ := List.getElem?_eq_some_iff.mp hcol'
    have hcols : col' = col := (List.Nodup.getElem_inj_iff hnodup).mp (hid'.trans hid.symm)
    rw [hcols] at hdata
    rw [hrow col id k hcol hk, hdata k hk, h.type_eq]
    exact neoSample_eq_sample_iff u.m_iInType pcm _
  have hsame : SameSamples formatPCM pcm format u ↔ ∀ id ∈ u.m_pMicInfo_In,
      ∀ k < format.samples u.m_iInType u.m_pMicInfo_In,
        out (format.samples u.m_iInType u.m_pMicInfo_In * id + k) = u'.m_pData_Out id k := by
    constructor
    · rintro ⟨out₁, u₁, len₁, hout₁, hu₁, hall⟩
      rw [hout] at hout₁
      rw [hu'] at hu₁
      cases hout₁
      cases hu₁
      exact hall
    · intro hall
      exact ⟨out, u', _, hout, hu', hall⟩
  have hnum : 0 < u.m_pMicInfo_In.length := List.length_pos_iff.mpr hw.mics_ne_nil
  -- in the 24-bit format the samples fill the buffer
  have hfull : format.type = .in_int_24 → format.frameLen =
      (3 * (format.samples u.m_iInType u.m_pMicInfo_In * u.m_pMicInfo_In.length) : Nat) := by
    intro ht
    have hsize : u.m_iInType.size = 3 := by
      rw [R2InType.eq_of_neo (h.type_eq.symm.trans ht)]
      rfl
    have hmod := Nat.div_mul_cancel (Nat.dvd_of_mod_eq_zero hw.frameLen_mod)
    have hnonneg := hw.frameLen_nonneg
    change format.samples u.m_iInType u.m_pMicInfo_In * _ = _ at hmod
    rw [hsize, Nat.mul_left_comm] at hmod
    omega
  rw [hsame]
  constructor
  · intro hall ht i hi
    rw [hfull ht] at hi
    have hk : i / u.m_pMicInfo_In.length < format.samples u.m_iInType u.m_pMicInfo_In :=
      (Nat.div_lt_iff_lt_mul hnum).mpr (by omega)
    have hlt := Nat.mod_lt i hnum
    have hcol := List.getElem?_eq_getElem hlt
    have hsample := (hplace _ _ _ hcol hk).mp (hall _ (List.mem_of_getElem? hcol) _ hk) ht
    rw [Nat.div_add_mod'] at hsample
    exact hsample
  · intro hall id hid k hk
    obtain ⟨col, hcol⟩ := List.mem_iff_getElem?.mp hid
    refine (hplace col id k hcol hk).mpr ?_
    intro ht
    have hlt : k * u.m_pMicInfo_In.length + col <
        format.samples u.m_iInType u.m_pMicInfo_In * u.m_pMicInfo_In.length :=
      Blocks.index_lt hk (List.getElem?_eq_some_iff.mp hcol).1
    exact hall ht _ (by rw [hfull ht]; omega)

/-- One odd sample below 256. -/
theorem sameSamples_iff_one :
    SameSamples (F := ℚ) (fun _ => 0) (fun k => if k = 0 then 1 else 0)
        ⟨3, .in_int_24, 1, [0]⟩ (R2memI.new .r2_in_int_24 [0]) ↔
      (InType.in_int_24 = .in_int_24 → ∀ i : Nat, 3 * (i : Int) + 2 < 3 →
        (if 3 * i + 2 = 0 then (1 : UInt8) else 0) = 0 ∧
          (if 3 * i = 0 then (1 : UInt8) else 0).toNat % 2 = 1) :=
  sameSamples_iff
    ⟨rfl, rfl, List.prefix_refl _, by decide, by decide⟩ ⟨by decide, by decide, by decide⟩
    (by decide) _ _

/-- The sample with the bytes 0, 0, 1: the legacy unit stores 16384, the rewrite
    a quarter. -/
theorem third_byte_lost :
    ¬ SameSamples (F := ℚ) (fun _ => 0) (fun k => if k = 2 then 1 else 0)
      ⟨3, .in_int_24, 1, [0]⟩ (R2memI.new .r2_in_int_24 [0]) := by
  rintro ⟨out, u', len, hout, hu', hsame⟩
  have hneo : out 0 = ((1 : Int) : ℚ) / 4 := by
    cases hout
    rfl
  have hold : u'.m_pData_Out 0 0 = ((65536 : Int) : ℚ) / 4 := by
    cases hu'
    rfl
  have h := hsame 0 (by decide) 0 (by cases hu'; decide)
  rw [Int.mul_zero, Int.natCast_zero, Int.add_zero, hneo, hold] at h
  norm_num at h

end BlackSiren

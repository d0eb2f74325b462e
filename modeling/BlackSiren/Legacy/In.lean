import BlackSiren.Framework.Bytes
import BlackSiren.Legacy.Basic

/-! # `r2mem_i`: sample conversion

    The unit splits interleaved samples into one channel per microphone of its
    list and converts them to floats.
-/

namespace BlackSiren

/-- `r2_in_type`. -/
inductive R2InType where
  | r2_in_int_24
  | r2_in_int_32
  | r2_in_int_32_10
  | r2_in_float_32
  deriving DecidableEq, Repr

/-- The size of one sample. -/
def R2InType.size : R2InType → Nat
  | .r2_in_int_24 => 3
  | .r2_in_int_32 => 4
  | .r2_in_int_32_10 => 4
  | .r2_in_float_32 => 4

/-- `r2_int24::toint`. -/
def toint24 (n : Nat) : Int := if n < 2 ^ 23 then n else n - 2 ^ 24

/-- `r2mem_i`. The output array keeps what earlier calls left in the channels
    of microphones that are not in the list. -/
structure R2memI (F : Type) where
  m_iInType : R2InType
  m_pMicInfo_In : MicIdLst
  m_iLen_Out_Total : Nat
  m_pData_Out : Chan F

namespace R2memI

variable {F : Type} [CFloat F]

/-- The constructor. -/
def new (iInType : R2InType) (pMicInfo_In : MicIdLst) : R2memI F where
  m_iInType := iInType
  m_pMicInfo_In := pMicInfo_In
  m_iLen_Out_Total := R2_AUDIO_SAMPLE_RATE
  m_pData_Out := fun _ _ => CFloat.ofInt 0

/-- The sample with the given bits. -/
def sample (t : R2InType) (bits : Nat) : F :=
  match t with
  | .r2_in_int_24 => CFloat.div (CFloat.ofInt (toint24 bits)) (CFloat.ofRat 4)
  | .r2_in_int_32_10 => CFloat.div (CFloat.ofInt (Bytes.int32 bits)) (CFloat.ofRat 4)
  | .r2_in_int_32 => CFloat.div (CFloat.ofInt (Bytes.int32 bits)) (CFloat.ofRat 1024)
  | .r2_in_float_32 => CFloat.ofBits (.ofNat 32 bits)

/-- `process`: the unit (which owns the channels) and the samples per channel. -/
def process (u : R2memI F) (pData_In : Nat → UInt8) (iLen_In : Int) :
    Except Fault (R2memI F × Nat) := do
  assertThat (0 ≤ iLen_In) .lenIn
  let size := u.m_iInType.size
  let iMicNum := u.m_pMicInfo_In.length
  assertThat (iMicNum ≠ 0) .divByZero
  assertThat (iLen_In.toNat % (size * iMicNum) = 0) .frameLen
  let iLen_Out := iLen_In.toNat / (size * iMicNum)
  let tooSmall := iLen_Out > u.m_iLen_Out_Total
  let old : Chan F := if tooSmall then fun _ _ => CFloat.ofInt 0 else u.m_pData_Out
  -- the last entry of the list that names the microphone decides
  let column := fun id => u.m_pMicInfo_In.reverse.findIdx? (· == id)
  return (
    { u with
      m_iLen_Out_Total := if tooSmall then iLen_Out * 2 else u.m_iLen_Out_Total
      m_pData_Out := fun id i =>
        match column id with
        | some r =>
            if i < iLen_Out then
              sample u.m_iInType
                (Bytes.readLE pData_In (size * (i * iMicNum + (iMicNum - 1 - r))) size)
            else old id i
        | none => old id i },
    iLen_Out)

theorem process_eq_error {u : R2memI F} {d : Nat → UInt8} {len : Int} {f : Fault}
    (h : u.process d len = .error f) : f.isCodAssert = false := by
  simp only [process] at h
  rcases bind_eq_error.mp h with h | ⟨_, _, h⟩
  · rw [← (assertThat_eq_error.mp h).2]; rfl
  rcases bind_eq_error.mp h with h | ⟨_, _, h⟩
  · rw [← (assertThat_eq_error.mp h).2]; rfl
  rcases bind_eq_error.mp h with h | ⟨_, _, h⟩
  · rw [← (assertThat_eq_error.mp h).2]; rfl
  · cases h

/-- The conversion keeps its format. -/
theorem process_format {u u' : R2memI F} {d : Nat → UInt8} {len : Int} {n : Nat}
    (h : u.process d len = .ok (u', n)) :
    u'.m_iInType = u.m_iInType ∧ u'.m_pMicInfo_In = u.m_pMicInfo_In := by
  unfold process at h
  obtain ⟨_, _, h⟩ := bind_eq_ok.mp h
  obtain ⟨_, _, h⟩ := bind_eq_ok.mp h
  obtain ⟨_, _, h⟩ := bind_eq_ok.mp h
  cases h
  exact ⟨rfl, rfl⟩

/-- A call whose length passes the assertions returns. -/
theorem process_returns {u : R2memI F} {len : Int} (hlen : 0 ≤ len)
    (hmics : u.m_pMicInfo_In ≠ [])
    (hmod : len.toNat % (u.m_iInType.size * u.m_pMicInfo_In.length) = 0) (d : Nat → UInt8) :
    ∃ u' n, u.process d len = .ok (u', n) := by
  have hnum : u.m_pMicInfo_In.length ≠ 0 := by
    intro h
    exact hmics (List.length_eq_zero_iff.mp h)
  unfold process
  dsimp only
  rw [decide_eq_true hlen, decide_eq_true hnum, decide_eq_true hmod]
  exact ⟨_, _, rfl⟩

/-- What a call writes: for each listed microphone the samples of the last column
    that the list has it in. -/
theorem process_samples {u u' : R2memI F} {d : Nat → UInt8} {len : Int} {n : Nat}
    (h : u.process d len = .ok (u', n)) :
    n = len.toNat / (u.m_iInType.size * u.m_pMicInfo_In.length) ∧
      ∀ id ∈ u.m_pMicInfo_In, ∃ col, u.m_pMicInfo_In[col]? = some id ∧
        (∀ j, u.m_pMicInfo_In[j]? = some id → j ≤ col) ∧ ∀ i < n,
          u'.m_pData_Out id i = sample u.m_iInType (Bytes.readLE d
            (u.m_iInType.size * (i * u.m_pMicInfo_In.length + col)) u.m_iInType.size) := by
  unfold process at h
  obtain ⟨_, _, h⟩ := bind_eq_ok.mp h
  obtain ⟨_, _, h⟩ := bind_eq_ok.mp h
  obtain ⟨_, _, h⟩ := bind_eq_ok.mp h
  cases h
  refine ⟨rfl, ?_⟩
  intro id hid
  -- the column of the microphone, counted from the end of the list
  cases hcol : u.m_pMicInfo_In.reverse.findIdx? (· == id) with
  | none =>
    have hnot := List.findIdx?_eq_none_iff.mp hcol id (List.mem_reverse.mpr hid)
    rw [beq_self_eq_true] at hnot
    cases hnot
  | some r =>
    obtain ⟨hr, hget, hfirst⟩ := List.findIdx?_eq_some_iff_getElem.mp hcol
    rw [List.getElem_reverse, beq_iff_eq] at hget
    rw [List.length_reverse] at hr
    refine ⟨u.m_pMicInfo_In.length - 1 - r, ?_, ?_, ?_⟩
    · rw [← hget]
      exact List.getElem?_eq_getElem _
    · intro j hj
      obtain ⟨hlt, hj⟩ := List.getElem?_eq_some_iff.mp hj
      by_contra hgt
      -- a later column would have been found first
      have hback : u.m_pMicInfo_In.length - 1 - (u.m_pMicInfo_In.length - 1 - j) = j := by omega
      refine absurd ?_ (hfirst (u.m_pMicInfo_In.length - 1 - j) (by omega))
      rw [List.getElem_reverse]
      simp only [hback, hj, beq_self_eq_true]
    · intro i hi
      simp only [hcol, if_pos hi]

/-- What a call leaves alone: the other microphones, and what lies behind the
    samples, unless the array has been replaced by a larger one. -/
theorem process_rest {u u' : R2memI F} {d : Nat → UInt8} {len : Int} {n : Nat}
    (h : u.process d len = .ok (u', n)) :
    u'.m_iLen_Out_Total = (if n > u.m_iLen_Out_Total then n * 2 else u.m_iLen_Out_Total) ∧
      ∀ id i, id ∉ u.m_pMicInfo_In ∨ n ≤ i → u'.m_pData_Out id i =
        if n > u.m_iLen_Out_Total then CFloat.ofInt 0 else u.m_pData_Out id i := by
  unfold process at h
  obtain ⟨_, _, h⟩ := bind_eq_ok.mp h
  obtain ⟨_, _, h⟩ := bind_eq_ok.mp h
  obtain ⟨_, _, h⟩ := bind_eq_ok.mp h
  cases h
  refine ⟨rfl, ?_⟩
  intro id i hrest
  have hold : ∀ (c : Prop) [Decidable c], (if c then fun _ _ => CFloat.ofInt 0
      else u.m_pData_Out : Chan F) id i = if c then CFloat.ofInt 0 else u.m_pData_Out id i := by
    intro c _
    split <;> rfl
  dsimp only
  cases hcol : u.m_pMicInfo_In.reverse.findIdx? (· == id) with
  | none => exact hold _
  | some r =>
    obtain ⟨hr, hget, -⟩ := List.findIdx?_eq_some_iff_getElem.mp hcol
    have hid : id ∈ u.m_pMicInfo_In := by
      rw [← List.mem_reverse, ← beq_iff_eq.mp hget]
      exact List.getElem_mem hr
    have hle := hrest.resolve_left (not_not_intro hid)
    simp only [if_neg (Nat.not_lt.mpr hle)]
    exact hold _

end R2memI

end BlackSiren

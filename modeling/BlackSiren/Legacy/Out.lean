import BlackSiren.Framework.Bytes
import BlackSiren.Legacy.MicInfo
import Mathlib.Data.List.GetD

/-! # `r2mem_o` and `r2mem_buff`: the way out

    `r2mem_o` interleaves the channels of its list into bytes, here always as
    floats; `r2mem_buff` collects the bytes until they are fetched.
-/

namespace BlackSiren

/-- `r2mem_o` with `r2_out_float_32`. -/
structure R2memO where
  m_pMicInfo_Out : MicIdLst

namespace R2memO

variable {F : Type} [CFloat F]

/-- `process`: sample after sample, each for every microphone of the list. -/
def process (u : R2memO) (pData_In : Chan F) (iLen_In : Nat) : List UInt8 :=
  (List.range iLen_In).flatMap fun i => u.m_pMicInfo_Out.flatMap fun id =>
    Bytes.toLE 4 (CFloat.bits (pData_In id i)).toNat

end R2memO

/-- `r2mem_buff`. -/
structure R2memBuff where
  m_iLen : Nat
  m_iLen_Cur : Nat
  m_iLen_Total : Nat
  m_pData : Nat → UInt8

namespace R2memBuff

/-- The constructor. -/
def new : R2memBuff where
  m_iLen := 0
  m_iLen_Cur := 0
  m_iLen_Total := 1000
  m_pData := fun _ => 0

/-- A larger array. `m_iLen_Cur` is cleared before the length is corrected by
    it. -/
def grow (b : R2memBuff) (iLen : Nat) : R2memBuff :=
  if b.m_iLen + iLen > b.m_iLen_Total then
    { m_iLen := b.m_iLen
      m_iLen_Cur := 0
      m_iLen_Total := (b.m_iLen + iLen) * 2
      m_pData := fun k =>
        if k < b.m_iLen - b.m_iLen_Cur then b.m_pData (b.m_iLen_Cur + k) else 0 }
  else b

/-- `put`. -/
def put (b : R2memBuff) (pData : List UInt8) : R2memBuff :=
  let b := b.grow pData.length
  { b with
    m_pData := fun k =>
      if b.m_iLen ≤ k ∧ k < b.m_iLen + pData.length then pData.getD (k - b.m_iLen) 0
      else b.m_pData k
    m_iLen := b.m_iLen + pData.length }

/-- `getdatalen`. -/
def getdatalen (b : R2memBuff) : Nat := b.m_iLen - b.m_iLen_Cur

/-- `getdata`: what is copied. -/
def getdata (b : R2memBuff) (iLen : Nat) : List UInt8 × R2memBuff :=
  let ll := min (b.m_iLen - b.m_iLen_Cur) iLen
  let data := (List.range ll).map fun k => b.m_pData (b.m_iLen_Cur + k)
  if b.m_iLen_Cur + ll = b.m_iLen then (data, { b with m_iLen := 0, m_iLen_Cur := 0 })
  else (data, { b with m_iLen_Cur := b.m_iLen_Cur + ll })

/-- Everything has been fetched. -/
structure Empty (b : R2memBuff) : Prop where
  len : b.m_iLen = 0
  cur : b.m_iLen_Cur = 0

theorem empty_new : new.Empty := ⟨rfl, rfl⟩

/-- What is put into an empty buffer is all there is. -/
theorem put_len {b : R2memBuff} (h : b.Empty) (pData : List UInt8) :
    (b.put pData).m_iLen = pData.length ∧ (b.put pData).m_iLen_Cur = 0 := by
  unfold put grow
  dsimp only
  split
  · refine ⟨?_, rfl⟩
    show b.m_iLen + pData.length = _
    rw [h.len, Nat.zero_add]
  · refine ⟨?_, h.cur⟩
    show b.m_iLen + pData.length = _
    rw [h.len, Nat.zero_add]

theorem getdatalen_put {b : R2memBuff} (h : b.Empty) (pData : List UInt8) :
    (b.put pData).getdatalen = pData.length := by
  unfold getdatalen
  rw [(put_len h pData).1, (put_len h pData).2, Nat.sub_zero]

/-- Fetching all of it gives it back and leaves an empty buffer. -/
theorem getdata_put {b : R2memBuff} (h : b.Empty) (pData : List UInt8) :
    ((b.put pData).getdata pData.length).1 = pData ∧
      ((b.put pData).getdata pData.length).2.Empty := by
  -- the bytes start at zero in the array, for the buffer was empty
  have hbyte : ∀ k < pData.length, (b.put pData).m_pData k = pData.getD k 0 := by
    intro k hk
    have hgrow : (b.grow pData.length).m_iLen = 0 := by
      unfold grow
      split
      · exact h.len
      · exact h.len
    unfold put
    dsimp only
    rw [hgrow, if_pos ⟨Nat.zero_le k, by omega⟩, Nat.sub_zero]
  unfold getdata
  dsimp only
  rw [(put_len h pData).1, (put_len h pData).2, Nat.sub_zero, Nat.min_self, Nat.zero_add,
    if_pos rfl]
  refine ⟨?_, rfl, rfl⟩
  apply List.ext_getElem
  · rw [List.length_map, List.length_range]
  · intro k _ hk
    rw [List.getElem_map, List.getElem_range, Nat.zero_add, hbyte k hk]
    exact List.getD_eq_getElem _ _ hk

end R2memBuff

end BlackSiren

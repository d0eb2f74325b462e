import BlackSiren.Framework.Memory
import BlackSiren.Framework.Objects
import BlackSiren.Framework.Writes
import BlackSiren.Legacy.Interleave

/-! # Packages between the two sides

    The preprocessor interleaves each package with its `r2mem_o`, and the
    processor takes it apart with its `r2mem_i`, each with an array that grows.
    Here with both arrays, every access and every `int` checked.

    - `R2memOMem.process_eq`: the array of `r2mem_o` holds what `R2memO` puts out
    - `R2memIMem.process_eq`: the rows of `r2mem_i` are those of `R2memI`
    - `Sides.package`: a package, through both
    - `packages_restored`: runs of packages
-/

namespace BlackSiren

variable {F : Type} [CFloat F]

/-! ### `r2mem_o` -/

/-- `r2mem_o` for floats. -/
structure R2memOMem where
  m_pMicInfo_Out : MicIdLst
  m_iLen_Out_Total : Nat
  m_pData_Out : Nat → UInt8

/-- Rows of samples, a `float**`. -/
structure Rows (F : Type) where
  count : Nat
  len : Nat
  data : Chan F

omit [CFloat F] in
/-- `p[iMicId][i]`. -/
def Rows.get (p : Rows F) (iMicId : Int) (i : Nat) : Except Memory.Fault F :=
  if 0 ≤ iMicId ∧ iMicId < p.count ∧ i < p.len then .ok (p.data iMicId i) else .error .outside

/-- `pData[k] = x`, in an array of `size` bytes. -/
def storeFloat (size : Nat) (pData : Nat → UInt8) (k : Nat) (x : F) :
    Except Memory.Fault (Nat → UInt8) :=
  if 4 * k + 4 ≤ size then
    .ok (Writes.fill (fun b => 4 * k + b)
      (fun b => (Bytes.toLE 4 (CFloat.bits x).toNat).getD b 0) pData (List.range 4))
  else .error .outside

namespace R2memOMem

/-- The constructor. -/
def new (pMicInfo_Out : MicIdLst) : Except Memory.Fault R2memOMem := do
  let total ← Memory.int (R2_AUDIO_SAMPLE_RATE * 4 * pMicInfo_Out.length : Nat)
  return { m_pMicInfo_Out := pMicInfo_Out, m_iLen_Out_Total := total.toNat,
           m_pData_Out := fun _ => 0 }

/-- The array, large enough for a package. -/
def grow (u : R2memOMem) (iLen_Out : Nat) : Except Memory.Fault R2memOMem :=
  if iLen_Out > u.m_iLen_Out_Total then do
    let total ← Memory.int (iLen_Out * 2 : Nat)
    return { u with m_iLen_Out_Total := total.toNat, m_pData_Out := fun _ => 0 }
  else return u

/-- The loops of `process`. -/
def interleave (u : R2memOMem) (pData_In : Rows F) (iLen_In : Nat) :
    Except Memory.Fault (Nat → UInt8) :=
  let iMicNum := u.m_pMicInfo_Out.length
  (List.range iMicNum).foldlM (fun pData (j : Nat) => do
    let iMicId ← Access.read .outside u.m_pMicInfo_Out j
    (List.range iLen_In).foldlM (fun pData (i : Nat) => do
      let x ← pData_In.get iMicId i
      storeFloat u.m_iLen_Out_Total pData (i * iMicNum + j) x) pData) u.m_pData_Out

/-- `process`: the unit, and `iLen_Out`. -/
def process (u : R2memOMem) (pData_In : Rows F) (iLen_In : Nat) :
    Except Memory.Fault (R2memOMem × Nat) := do
  let iLen_Out ← Memory.int (iLen_In * 4 * u.m_pMicInfo_Out.length : Nat)
  let u ← u.grow iLen_Out.toNat
  let data ← u.interleave pData_In iLen_In
  return ({ u with m_pData_Out := data }, iLen_Out.toNat)

end R2memOMem

/-! ### `r2mem_i` -/

/-- `r2mem_i` for floats, with the rows by microphone and position. -/
structure R2memIMem (F : Type) where
  m_iMicNum : Nat
  m_pMicInfo_In : MicIdLst
  m_iLen_Out_Total : Nat
  m_pData_Out : Int × Nat → F

/-- `pData[k]`, in an array of bytes. -/
def loadFloat (pData : List UInt8) (k : Nat) : Except Memory.Fault F :=
  if 4 * k + 4 ≤ pData.length then
    .ok (CFloat.ofBits (.ofNat 32 (Bytes.readLE (fun b => pData.getD b 0) (4 * k) 4)))
  else .error .outside

namespace R2memIMem

/-- `R2_SAFE_NEW_AR2`, which multiplies its sizes as `int`s. -/
def newRows (iMicNum total : Nat) : Except Memory.Fault (Int × Nat → F) := do
  let _ ← Memory.int (4 * iMicNum * total : Nat)
  return fun _ => CFloat.ofInt 0

/-- The constructor. -/
def new (iMicNum : Nat) (pMicInfo_In : MicIdLst) : Except Memory.Fault (R2memIMem F) := do
  let rows ← newRows iMicNum R2_AUDIO_SAMPLE_RATE
  return { m_iMicNum := iMicNum, m_pMicInfo_In := pMicInfo_In,
           m_iLen_Out_Total := R2_AUDIO_SAMPLE_RATE, m_pData_Out := rows }

/-- The rows, long enough for a package. -/
def grow (u : R2memIMem F) (iLen_Out : Nat) : Except Memory.Fault (R2memIMem F) :=
  if iLen_Out > u.m_iLen_Out_Total then do
    let total ← Memory.int (iLen_Out * 2 : Nat)
    let rows ← newRows u.m_iMicNum total.toNat
    return { u with m_iLen_Out_Total := total.toNat, m_pData_Out := rows }
  else return u

omit [CFloat F] in
/-- `m_pData_Out[iMicId][i] = x`. -/
def set (u : R2memIMem F) (rows : Int × Nat → F) (iMicId : Int) (i : Nat) (x : F) :
    Except Memory.Fault (Int × Nat → F) :=
  if 0 ≤ iMicId ∧ iMicId < u.m_iMicNum ∧ i < u.m_iLen_Out_Total then
    .ok (Function.update rows (iMicId, i) x)
  else .error .outside

/-- The loops of `process`. -/
def deinterleave (u : R2memIMem F) (pData_In : List UInt8) (iLen_Out : Nat) :
    Except Memory.Fault (Int × Nat → F) :=
  let iMicNum := u.m_pMicInfo_In.length
  (List.range iMicNum).foldlM (fun rows (j : Nat) => do
    let iMicId ← Access.read .outside u.m_pMicInfo_In j
    (List.range iLen_Out).foldlM (fun rows (i : Nat) => do
      let x ← loadFloat pData_In (i * iMicNum + j)
      u.set rows iMicId i x) rows) u.m_pData_Out

/-- `process`, for an array of bytes: the unit, and `iLen_Out`. -/
def process (u : R2memIMem F) (pData_In : List UInt8) :
    Except Memory.Fault (R2memIMem F × Nat) := do
  let iLen_In := pData_In.length
  let iMicNum := u.m_pMicInfo_In.length
  if iMicNum = 0 then .error .divByZero
  else if iLen_In % (4 * iMicNum) ≠ 0 then .error .assertion
  else
    let iLen_Out := iLen_In / (4 * iMicNum)
    let u ← u.grow iLen_Out
    let rows ← u.deinterleave pData_In iLen_Out
    return ({ u with m_pData_Out := rows }, iLen_Out)

end R2memIMem

/-! ### Both -/

/-- The two units, with one list of microphones. -/
structure Sides (F : Type) where
  out : R2memOMem
  inn : R2memIMem F

namespace Sides

/-- A package: the channels, and their length. -/
structure Package (F : Type) where
  data : Chan F
  len : Nat

/-- `m_pMem_out` of the preprocessor and `m_pMem_in` of the processor. -/
def new (mic_num : Nat) (alg_aec_mics : MicIdLst) : Except Memory.Fault (Sides F) := do
  let out ← R2memOMem.new alg_aec_mics
  let inn ← R2memIMem.new mic_num alg_aec_mics
  return ⟨out, inn⟩

/-- A package: its bytes go from one side to the other. -/
def package (s : Sides F) (p : Package F) : Except Memory.Fault (Sides F × Nat) := do
  let (out, lenOut) ← s.out.process ⟨s.inn.m_iMicNum, p.len, p.data⟩ p.len
  let (inn, len) ← s.inn.process (Memory.window out.m_pData_Out 0 lenOut)
  return (⟨out, inn⟩, len)

/-- The byte counts of a package fit an `int`, with those of the array or the
    rows that have to grow for it. -/
structure Fits (s : Sides F) (p : Package F) : Prop where
  bytes : CInt.Fits (p.len * 4 * s.out.m_pMicInfo_Out.length : Nat)
  array : p.len * 4 * s.out.m_pMicInfo_Out.length > s.out.m_iLen_Out_Total →
    CInt.Fits (p.len * 4 * s.out.m_pMicInfo_Out.length * 2 : Nat)
  rows : p.len > s.inn.m_iLen_Out_Total →
    CInt.Fits (p.len * 2 : Nat) ∧ CInt.Fits (4 * s.inn.m_iMicNum * (p.len * 2) : Nat)

/-- No access or assertion fails, and the other side has the same samples. -/
def Restores (s : Sides F) (p : Package F) : Prop :=
  ∃ s', s.package p = .ok (s', p.len) ∧
    ∀ id ∈ s.inn.m_pMicInfo_In, ∀ i < p.len, s'.inn.m_pData_Out (id, i) = p.data id i

end Sides

/-! ### The loops -/

/-- The entry of the list is found. -/
theorem read_mics {mics : MicIdLst} {j : Nat} (hj : j < mics.length) :
    Access.read Memory.Fault.outside mics (j : Nat) = .ok (mics.getD j 0) := by
  unfold Access.read
  rw [if_pos (by omega), Int.toNat_natCast, List.getD_eq_getElem _ _ hj,
    List.getElem?_eq_getElem hj]

namespace R2memOMem

/-- The place of a byte: its microphone, its instant and its number. -/
def place (num : Nat) (p : Nat × Nat × Nat) : Nat := 4 * (p.2.1 * num + p.1) + p.2.2

theorem place_inj {num : Nat} {p q : Nat × Nat × Nat} (hp : p.1 < num) (hq : q.1 < num)
    (hp' : p.2.2 < 4) (hq' : q.2.2 < 4) (h : place num p = place num q) : p = q := by
  unfold place at h
  have hindex : p.2.1 * num + p.1 = q.2.1 * num + q.1 := by omega
  obtain ⟨hi, hj⟩ := Blocks.index_inj hp hq hindex
  have hb : p.2.2 = q.2.2 := by omega
  exact Prod.ext hj (Prod.ext hi hb)

/-- The loops store the bytes of every sample at its place. -/
theorem interleave_eq {u : R2memOMem} {rows : Rows F}
    (hids : ∀ id ∈ u.m_pMicInfo_Out, 0 ≤ id ∧ id < rows.count)
    (hsize : rows.len * 4 * u.m_pMicInfo_Out.length ≤ u.m_iLen_Out_Total) :
    u.interleave rows rows.len = .ok (Writes.fill (place u.m_pMicInfo_Out.length)
      (fun p => (Bytes.toLE 4
        (CFloat.bits (rows.data (u.m_pMicInfo_Out.getD p.1 0) p.2.1)).toNat).getD p.2.2 0)
      u.m_pData_Out
      (List.range u.m_pMicInfo_Out.length ×ˢ (List.range rows.len ×ˢ List.range 4))) := by
  unfold interleave
  dsimp only
  rw [← Writes.foldl_fill (fun (j : Nat) (q : Nat × Nat) => place u.m_pMicInfo_Out.length (j, q))
    (fun (j : Nat) (q : Nat × Nat) => (Bytes.toLE 4
      (CFloat.bits (rows.data (u.m_pMicInfo_Out.getD j 0) q.1)).toNat).getD q.2 0)]
  apply Access.foldlM_eq_ok
  intro pData j hj
  have hjlt := List.mem_range.mp hj
  obtain ⟨hlo, hhi⟩ := hids (u.m_pMicInfo_Out.getD j 0) (by
    rw [List.getD_eq_getElem _ _ hjlt]
    exact List.getElem_mem hjlt)
  rw [read_mics hjlt, ← Writes.foldl_fill
    (fun (i : Nat) (b : Nat) => place u.m_pMicInfo_Out.length (j, i, b))
    (fun (i : Nat) (b : Nat) => (Bytes.toLE 4
      (CFloat.bits (rows.data (u.m_pMicInfo_Out.getD j 0) i)).toNat).getD b 0)]
  refine Access.foldlM_eq_ok ?_ pData
  intro pData i hi
  have hilt := List.mem_range.mp hi
  have hindex := Blocks.index_lt hilt hjlt
  have hcount : 4 * (rows.len * u.m_pMicInfo_Out.length) =
      rows.len * 4 * u.m_pMicInfo_Out.length := by
    rw [Nat.mul_comm rows.len 4, Nat.mul_assoc]
  unfold Rows.get storeFloat
  rw [if_pos ⟨hlo, hhi, hilt⟩]
  exact if_pos (by omega)

theorem grow_eq {u : R2memOMem} {iLen_Out : Nat}
    (h : iLen_Out > u.m_iLen_Out_Total → CInt.Fits (iLen_Out * 2 : Nat)) :
    ∃ u', u.grow iLen_Out = .ok u' ∧ u'.m_pMicInfo_Out = u.m_pMicInfo_Out ∧
      iLen_Out ≤ u'.m_iLen_Out_Total := by
  unfold grow
  by_cases hgrow : iLen_Out > u.m_iLen_Out_Total
  · rw [if_pos hgrow, Memory.int_eq_ok (h hgrow)]
    refine ⟨_, rfl, rfl, ?_⟩
    show iLen_Out ≤ ((iLen_Out * 2 : Nat) : Int).toNat
    omega
  · rw [if_neg hgrow]
    exact ⟨u, rfl, rfl, Nat.not_lt.mp hgrow⟩

/-- What the loops have stored are the samples, instant by instant. -/
theorem window_fill (mics : MicIdLst) (d : Chan F) (n : Nat) (data : Nat → UInt8) :
    Memory.window (Writes.fill (place mics.length)
      (fun p => (Bytes.toLE 4 (CFloat.bits (d (mics.getD p.1 0) p.2.1)).toNat).getD p.2.2 0)
      data (List.range mics.length ×ˢ (List.range n ×ˢ List.range 4))) 0 (n * 4 * mics.length) =
      (R2memO.mk mics).process d n := by
  have hcount : n * 4 * mics.length = 4 * (n * mics.length) := by
    rw [Nat.mul_comm n 4, Nat.mul_assoc]
  have hlength := R2memO.length_process (R2memO.mk mics) d n
  have hcount' : 4 * mics.length * n = 4 * (n * mics.length) := by
    rw [Nat.mul_assoc, Nat.mul_comm n]
  apply List.ext_getElem
  · rw [Memory.length_window, hlength, hcount, ← hcount']
  · intro q hq _
    rw [Memory.length_window] at hq
    -- the sample the byte belongs to
    have hnum : 0 < mics.length := by
      rcases Nat.eq_zero_or_pos mics.length with h | h
      · rw [h, Nat.mul_zero] at hq
        exact absurd hq (Nat.not_lt_zero q)
      · exact h
    have hj : q / 4 % mics.length < mics.length := Nat.mod_lt _ hnum
    have hi : q / 4 / mics.length < n := by
      rw [Nat.div_lt_iff_lt_mul hnum]
      omega
    have hb : q % 4 < 4 := Nat.mod_lt _ (by decide)
    have hplace : place mics.length (q / 4 % mics.length, q / 4 / mics.length, q % 4) = q := by
      unfold place
      dsimp only
      rw [Nat.div_add_mod']
      omega
    have hmem : (q / 4 % mics.length, q / 4 / mics.length, q % 4) ∈
        List.range mics.length ×ˢ (List.range n ×ˢ List.range 4) :=
      List.mem_product.mpr ⟨List.mem_range.mpr hj, List.mem_product.mpr
        ⟨List.mem_range.mpr hi, List.mem_range.mpr hb⟩⟩
    have hcol : mics[q / 4 % mics.length]? = some (mics.getD (q / 4 % mics.length) 0) := by
      rw [List.getD_eq_getElem _ _ hj]
      exact List.getElem?_eq_getElem hj
    have hbyte := R2memO.getD_process (u := R2memO.mk mics) (d := d) hi hcol hb
    have hindex : 4 * (q / 4 / mics.length * mics.length + q / 4 % mics.length) + q % 4 = q :=
      hplace
    rw [hindex, List.getD_eq_getElem _ _ (by rw [hlength, hcount', ← hcount]; exact hq)] at hbyte
    rw [Memory.getElem_window, Nat.zero_add, hbyte]
    conv_lhs => rw [← hplace]
    refine Writes.fill_apply hmem ?_ data
    intro p hp hpos
    obtain ⟨hp₁, hp⟩ := List.mem_product.mp hp
    obtain ⟨hp₂, hp₃⟩ := List.mem_product.mp hp
    rw [place_inj (List.mem_range.mp hp₁) hj (List.mem_range.mp hp₃) hb hpos]

/-- The array holds what is put out. -/
theorem process_eq (u : R2memOMem) (rows : Rows F)
    (hids : ∀ id ∈ u.m_pMicInfo_Out, 0 ≤ id ∧ id < rows.count)
    (hbytes : CInt.Fits (rows.len * 4 * u.m_pMicInfo_Out.length : Nat))
    (harray : rows.len * 4 * u.m_pMicInfo_Out.length > u.m_iLen_Out_Total →
      CInt.Fits (rows.len * 4 * u.m_pMicInfo_Out.length * 2 : Nat)) :
    ∃ u', u.process rows rows.len = .ok (u', rows.len * 4 * u.m_pMicInfo_Out.length) ∧
      u'.m_pMicInfo_Out = u.m_pMicInfo_Out ∧
      Memory.window u'.m_pData_Out 0 (rows.len * 4 * u.m_pMicInfo_Out.length) =
        (R2memO.mk u.m_pMicInfo_Out).process rows.data rows.len := by
  obtain ⟨u₁, hgrow, hmics, htotal⟩ := grow_eq harray
  rw [← hmics] at hids htotal
  have hloops := interleave_eq hids htotal
  have hwindow := window_fill u₁.m_pMicInfo_Out rows.data rows.len u₁.m_pData_Out
  rw [hmics] at hloops hwindow
  exact ⟨_, Access.bind_eq_ok.mpr ⟨_, Memory.int_eq_ok hbytes, Access.bind_eq_ok.mpr
    ⟨u₁, hgrow, Access.bind_eq_ok.mpr ⟨_, hloops, rfl⟩⟩⟩, hmics, hwindow⟩

end R2memOMem

namespace R2memIMem

/-- The unit without the size of its rows. -/
def abs (u : R2memIMem F) : R2memI F where
  m_iInType := .r2_in_float_32
  m_pMicInfo_In := u.m_pMicInfo_In
  m_iLen_Out_Total := u.m_iLen_Out_Total
  m_pData_Out := fun id i => u.m_pData_Out (id, i)

omit [CFloat F] in
theorem abs_mics (u : R2memIMem F) : u.abs.m_pMicInfo_In = u.m_pMicInfo_In := rfl

/-- The rows are long enough, and cleared if they are new. -/
theorem grow_eq {u : R2memIMem F} {iLen_Out : Nat} (h : iLen_Out > u.m_iLen_Out_Total →
      CInt.Fits (iLen_Out * 2 : Nat) ∧ CInt.Fits (4 * u.m_iMicNum * (iLen_Out * 2) : Nat)) :
    u.grow iLen_Out = .ok { u with
      m_iLen_Out_Total :=
        if iLen_Out > u.m_iLen_Out_Total then iLen_Out * 2 else u.m_iLen_Out_Total
      m_pData_Out := fun p =>
        if iLen_Out > u.m_iLen_Out_Total then CFloat.ofInt 0 else u.m_pData_Out p } := by
  unfold grow
  by_cases hgrow : iLen_Out > u.m_iLen_Out_Total
  · obtain ⟨hcount, hsize⟩ := h hgrow
    have hnew : newRows (F := F) u.m_iMicNum ((iLen_Out * 2 : Nat) : Int).toNat =
        .ok fun _ => CFloat.ofInt 0 := by
      rw [Int.toNat_natCast]
      exact Access.bind_eq_ok.mpr ⟨_, Memory.int_eq_ok hsize, rfl⟩
    simp only [if_pos hgrow]
    refine Access.bind_eq_ok.mpr ⟨_, Memory.int_eq_ok hcount,
      Access.bind_eq_ok.mpr ⟨_, hnew, ?_⟩⟩
    rw [Int.toNat_natCast]
    rfl
  · simp only [if_neg hgrow]
    rfl

/-- The loops store every sample in the row of its microphone. -/
theorem deinterleave_eq (u : R2memIMem F) (pData : List UInt8) (n : Nat)
    (hids : ∀ id ∈ u.m_pMicInfo_In, 0 ≤ id ∧ id < u.m_iMicNum) (htotal : n ≤ u.m_iLen_Out_Total)
    (hlen : 4 * (n * u.m_pMicInfo_In.length) ≤ pData.length) :
    u.deinterleave pData n = .ok (Writes.fill
      (fun p : Nat × Nat => (u.m_pMicInfo_In.getD p.1 0, p.2))
      (fun p => CFloat.ofBits (.ofNat 32 (Bytes.readLE (fun b => pData.getD b 0)
        (4 * (p.2 * u.m_pMicInfo_In.length + p.1)) 4)))
      u.m_pData_Out (List.range u.m_pMicInfo_In.length ×ˢ List.range n)) := by
  unfold deinterleave
  dsimp only
  rw [← Writes.foldl_fill (fun (j : Nat) (i : Nat) => (u.m_pMicInfo_In.getD j 0, i))
    (fun (j : Nat) (i : Nat) => CFloat.ofBits (.ofNat 32 (Bytes.readLE (fun b => pData.getD b 0)
      (4 * (i * u.m_pMicInfo_In.length + j)) 4)))]
  apply Access.foldlM_eq_ok
  intro rows j hj
  have hjlt := List.mem_range.mp hj
  obtain ⟨hlo, hhi⟩ := hids (u.m_pMicInfo_In.getD j 0) (by
    rw [List.getD_eq_getElem _ _ hjlt]
    exact List.getElem_mem hjlt)
  rw [read_mics hjlt]
  refine Access.foldlM_eq_ok ?_ rows
  intro rows i hi
  have hilt := List.mem_range.mp hi
  have hindex := Blocks.index_lt hilt hjlt
  unfold loadFloat set
  rw [if_pos (by omega)]
  exact if_pos ⟨hlo, hhi, by omega⟩

omit [CFloat F] in
/-- What a row has after the loops: the sample of the last column of its
    microphone, as far as there are samples. -/
theorem fill_apply {mics : MicIdLst} {n : Nat} {val : Nat × Nat → F} {data : Int × Nat → F}
    {id : Int} {i : Nat} :
    (∀ col, mics[col]? = some id → (∀ j, mics[j]? = some id → j ≤ col) → i < n →
      Writes.fill (fun p : Nat × Nat => (mics.getD p.1 0, p.2)) val data
        (List.range mics.length ×ˢ List.range n) (id, i) = val (col, i)) ∧
    (id ∉ mics ∨ n ≤ i →
      Writes.fill (fun p : Nat × Nat => (mics.getD p.1 0, p.2)) val data
        (List.range mics.length ×ˢ List.range n) (id, i) = data (id, i)) := by
  have hcolumn : ∀ j < mics.length, mics[j]? = some (mics.getD j 0) := by
    intro j hj
    rw [List.getD_eq_getElem _ _ hj]
    exact List.getElem?_eq_getElem hj
  constructor
  · intro col hcol hlast hi
    obtain ⟨hlt, hid⟩ := List.getElem?_eq_some_iff.mp hcol
    have hmem : (col, i) ∈ List.range mics.length ×ˢ List.range n :=
      List.mem_product.mpr ⟨List.mem_range.mpr hlt, List.mem_range.mpr hi⟩
    have hpos : (fun p : Nat × Nat => (mics.getD p.1 0, p.2)) (col, i) = (id, i) := by
      dsimp only
      rw [List.getD_eq_getElem _ _ hlt, hid]
    rw [← hpos]
    refine Writes.fill_apply_of_pairwise Writes.Before.asymm (Writes.pairwise_before _ _) hmem
      ?_ data
    intro p hp hp'
    obtain ⟨hpid, hpi⟩ := Prod.mk.inj (hp'.trans hpos)
    have hple := hlast p.1 (by
      rw [hcolumn p.1 (List.mem_range.mp (List.mem_product.mp hp).1), hpid])
    rcases Nat.lt_or_eq_of_le hple with hbefore | hsame
    · exact .inr (.inl hbefore)
    · exact .inl (Prod.ext hsame hpi)
  · intro hrest
    apply Writes.fill_of_forall_ne
    intro p hp hpos
    obtain ⟨hpid, hpi⟩ := Prod.mk.inj hpos
    obtain ⟨hp₁, hp₂⟩ := List.mem_product.mp hp
    rcases hrest with hnot | hle
    · exact hnot (List.mem_of_getElem? ((hcolumn p.1 (List.mem_range.mp hp₁)).trans (by rw [hpid])))
    · have hlt := List.mem_range.mp hp₂
      omega

/-- The unit does what the one without the sizes does. -/
theorem process_eq (u : R2memIMem F) (pData : List UInt8) (n : Nat) (hmics : u.m_pMicInfo_In ≠ [])
    (hids : ∀ id ∈ u.m_pMicInfo_In, 0 ≤ id ∧ id < u.m_iMicNum)
    (hlen : pData.length = 4 * u.m_pMicInfo_In.length * n)
    (hrows : n > u.m_iLen_Out_Total →
      CInt.Fits (n * 2 : Nat) ∧ CInt.Fits (4 * u.m_iMicNum * (n * 2) : Nat)) :
    ∃ u', u.process pData = .ok (u', n) ∧ u'.m_iMicNum = u.m_iMicNum ∧
      u.abs.process (fun k => pData.getD k 0) pData.length = .ok (u'.abs, n) := by
  have hnum : 0 < u.m_pMicInfo_In.length := List.length_pos_iff.mpr hmics
  have hmod : pData.length % (4 * u.m_pMicInfo_In.length) = 0 := by
    rw [hlen]
    exact Nat.mul_mod_right _ n
  have hdiv : pData.length / (4 * u.m_pMicInfo_In.length) = n := by
    rw [hlen]
    exact Nat.mul_div_cancel_left n (by omega)
  have hgrow := grow_eq hrows
  generalize hu₁ : ({ u with
      m_iLen_Out_Total := if n > u.m_iLen_Out_Total then n * 2 else u.m_iLen_Out_Total
      m_pData_Out := fun p => if n > u.m_iLen_Out_Total then CFloat.ofInt 0 else u.m_pData_Out p } :
    R2memIMem F) = u₁ at hgrow
  have hmics₁ : u₁.m_pMicInfo_In = u.m_pMicInfo_In := by rw [← hu₁]
  have hloops := deinterleave_eq u₁ pData n
    (by rw [← hu₁]; exact hids)
    (by rw [← hu₁]; dsimp only; split <;> omega)
    (by rw [hmics₁, hlen, Nat.mul_assoc, Nat.mul_comm n])
  rw [hmics₁] at hloops
  obtain ⟨rows, hrows', hcell⟩ : ∃ rows, u₁.deinterleave pData n = .ok rows ∧ ∀ id i,
      (∀ col, u.m_pMicInfo_In[col]? = some id → (∀ j, u.m_pMicInfo_In[j]? = some id → j ≤ col) →
        i < n → rows (id, i) = R2memI.sample .r2_in_float_32
          (Bytes.readLE (fun b => pData.getD b 0) (4 * (i * u.m_pMicInfo_In.length + col)) 4)) ∧
      (id ∉ u.m_pMicInfo_In ∨ n ≤ i → rows (id, i) = u₁.m_pData_Out (id, i)) :=
    ⟨_, hloops, fun id i => fill_apply⟩
  refine ⟨{ u₁ with m_pData_Out := rows }, ?_, by rw [← hu₁], ?_⟩
  · unfold process
    dsimp only
    rw [if_neg hnum.ne', if_neg (not_not_intro hmod), hdiv]
    exact Access.bind_eq_ok.mpr ⟨u₁, hgrow, Access.bind_eq_ok.mpr ⟨rows, hrows', rfl⟩⟩
  · obtain ⟨v, m, hv⟩ := R2memI.process_returns (u := u.abs) (Int.natCast_nonneg pData.length) hmics
      (by rw [Int.toNat_natCast]; exact hmod) (fun k => pData.getD k 0)
    obtain ⟨hm, hsamples⟩ := R2memI.process_samples hv
    obtain ⟨htotal, hrest⟩ := R2memI.process_rest hv
    obtain ⟨htype, hlist⟩ := R2memI.process_format hv
    have hmn : m = n := by
      rw [hm, Int.toNat_natCast]
      exact hdiv
    subst hmn
    have hdata : v.m_pData_Out = fun id i => rows (id, i) := by
      funext id i
      by_cases hin : id ∈ u.m_pMicInfo_In ∧ i < m
      · obtain ⟨col, hcol, hlast, hsample⟩ := hsamples id hin.1
        rw [hsample i hin.2, (hcell id i).1 col hcol hlast hin.2]
        rfl
      · have hout : id ∉ u.m_pMicInfo_In ∨ m ≤ i := by
          by_contra hboth
          push Not at hboth
          exact hin hboth
        rw [hrest id i hout, (hcell id i).2 hout, ← hu₁]
        rfl
    rw [hv]
    obtain ⟨vType, vList, vTotal, vData⟩ := v
    dsimp only at htype hlist htotal hdata
    rw [htype, hlist, htotal, hdata, ← hu₁]
    rfl

end R2memIMem

/-! ### Both sides -/

namespace Sides

/-- The two sides of one configuration. -/
structure Paired (alg_aec_mics : MicIdLst) (mic_num : Nat) (s : Sides F) : Prop where
  out : s.out.m_pMicInfo_Out = alg_aec_mics
  inn : s.inn.m_pMicInfo_In = alg_aec_mics
  count : s.inn.m_iMicNum = mic_num

theorem paired_new {alg_aec_mics : MicIdLst} {mic_num : Nat} {s : Sides F}
    (h : new mic_num alg_aec_mics = .ok s) : s.Paired alg_aec_mics mic_num := by
  obtain ⟨out, hout, h⟩ := Access.bind_eq_ok.mp h
  obtain ⟨inn, hinn, h⟩ := Access.bind_eq_ok.mp h
  obtain ⟨_, _, hout⟩ := Access.bind_eq_ok.mp hout
  obtain ⟨_, _, hinn⟩ := Access.bind_eq_ok.mp hinn
  cases h
  cases hout
  cases hinn
  exact ⟨rfl, rfl, rfl⟩

/-- A package of which the byte counts fit comes out as it went in. -/
theorem Paired.package [LawfulCFloat F] {alg_aec_mics : MicIdLst} {mic_num : Nat} {s : Sides F}
    (hs : s.Paired alg_aec_mics mic_num) (hmics : alg_aec_mics ≠ [])
    (hids : ∀ id ∈ alg_aec_mics, 0 ≤ id ∧ id < mic_num) {p : Package F} (hp : s.Fits p) :
    ∃ s', s.package p = .ok (s', p.len) ∧ s'.Paired alg_aec_mics mic_num ∧
      ∀ id ∈ alg_aec_mics, ∀ i < p.len, s'.inn.m_pData_Out (id, i) = p.data id i := by
  obtain ⟨hout, hinn, hcount⟩ := hs
  subst hout
  obtain ⟨out, hprocess, hlist, hwindow⟩ := R2memOMem.process_eq s.out
    ⟨s.inn.m_iMicNum, p.len, p.data⟩ (by rw [hcount]; exact hids) hp.bytes hp.array
  obtain ⟨u, hu, hsamples⟩ := R2memI.process_interleaved (u := s.inn.abs) rfl
    (by rw [R2memIMem.abs_mics, hinn]; exact hmics) p.data p.len
  rw [R2memIMem.abs_mics, hinn] at hu hsamples
  obtain ⟨inn, hprocess', hcount', habs⟩ := R2memIMem.process_eq s.inn
    ((R2memO.mk s.out.m_pMicInfo_Out).process p.data p.len) p.len
    (by rw [hinn]; exact hmics) (by rw [hinn, hcount]; exact hids)
    (by rw [hinn]; exact R2memO.length_process _ p.data p.len) hp.rows
  obtain ⟨rfl, -⟩ := Prod.mk.inj (Except.ok.inj (hu.symm.trans habs))
  refine ⟨⟨out, inn⟩, ?_, ⟨hlist, ?_, hcount'.trans hcount⟩, ?_⟩
  · unfold Sides.package
    rw [hprocess]
    show (s.inn.process (Memory.window _ _ _) >>= _) = _
    rw [hwindow, hprocess']
    rfl
  · exact (R2memI.process_format hu).2.trans hinn
  · intro id hid i hi
    exact (hsamples id hid i hi).trans (LawfulCFloat.ofBits_bits _)

/-- Every package of a run, of which the byte counts fit, comes out as it went
    in, also when an array or the rows grow. -/
theorem packages_restored [LawfulCFloat F] {alg_aec_mics : MicIdLst} {mic_num : Nat}
    {s : Sides F} (hmics : alg_aec_mics ≠ []) (hids : ∀ id ∈ alg_aec_mics, 0 ≤ id ∧ id < mic_num)
    (hnew : new mic_num alg_aec_mics = .ok s) {packages : List (Package F)}
    (hfits : Objects.Along package Fits s packages) :
    Objects.Along package Restores s packages := by
  refine Objects.along_imp (Paired alg_aec_mics mic_num) ?_ ?_ (paired_new hnew) hfits
  · intro s p hs hp
    obtain ⟨s', hpackage, -, hdata⟩ := hs.package hmics hids hp
    refine ⟨s', hpackage, ?_⟩
    rw [hs.inn]
    exact hdata
  · intro s p s' len hs hp h
    obtain ⟨s'', hpackage, hpaired, -⟩ := hs.package hmics hids hp
    obtain ⟨rfl, -⟩ := Prod.mk.inj (Except.ok.inj (hpackage.symm.trans h))
    exact hpaired

/-- A package that fits also when it needs a larger array and longer rows. -/
structure Package.Small (alg_aec_mics : MicIdLst) (mic_num : Nat) (p : Package F) : Prop where
  array : CInt.Fits (p.len * 4 * alg_aec_mics.length * 2 : Nat)
  rows : CInt.Fits (4 * mic_num * (p.len * 2) : Nat)

omit [CFloat F] in
theorem Paired.fits {alg_aec_mics : MicIdLst} {mic_num : Nat} {s : Sides F}
    (hs : s.Paired alg_aec_mics mic_num) (hnum : 0 < mic_num) {p : Package F}
    (hp : p.Small alg_aec_mics mic_num) : s.Fits p := by
  obtain ⟨hout, -, hcount⟩ := hs
  obtain ⟨harray, hrows⟩ := hp
  subst hout hcount
  have hlen : p.len * 2 ≤ 4 * s.inn.m_iMicNum * (p.len * 2) :=
    Nat.le_mul_of_pos_left _ (by omega)
  unfold CInt.Fits at harray hrows
  refine ⟨⟨by omega, by omega⟩, fun _ => harray, fun _ => ⟨⟨by omega, by omega⟩, hrows⟩⟩

/-- Runs of packages that are small enough, whatever has grown before. -/
theorem along_small [LawfulCFloat F] {alg_aec_mics : MicIdLst} {mic_num : Nat} {s : Sides F}
    (hmics : alg_aec_mics ≠ []) (hids : ∀ id ∈ alg_aec_mics, 0 ≤ id ∧ id < mic_num)
    (hnew : new mic_num alg_aec_mics = .ok s) {packages : List (Package F)}
    (hsmall : ∀ p ∈ packages, p.Small alg_aec_mics mic_num) :
    Objects.Along package Fits s packages := by
  have hnum : 0 < mic_num := by
    obtain ⟨id, hid⟩ := List.exists_mem_of_ne_nil _ hmics
    have hbounds := hids id hid
    omega
  have halong : Objects.Along package (fun _ p => p.Small alg_aec_mics mic_num) s packages :=
    Objects.along_of_forall fun _ => hsmall
  refine Objects.along_imp (Paired alg_aec_mics mic_num) (fun s p hs hp => hs.fits hnum hp) ?_
    (paired_new hnew) halong
  intro s p s' len hs hp h
  obtain ⟨s'', hpackage, hpaired, -⟩ := hs.package hmics hids (hs.fits hnum hp)
  obtain ⟨rfl, -⟩ := Prod.mk.inj (Except.ok.inj (hpackage.symm.trans h))
  exact hpaired

/-- Samples that differ from microphone to microphone and from instant to
    instant. -/
def ramp (len : Nat) : Package Single := ⟨fun id i => ⟨BitVec.ofInt 32 (id * 2 ^ 16 + i + 1)⟩, len⟩

/-- Three of eight microphones, not in their order: the second package is too
    long for the array and for the rows, which grow for it. -/
theorem packages_restored_ramps : ∃ s : Sides Single, new 8 [2, 0, 5] = .ok s ∧
    s.out.m_iLen_Out_Total < 16001 * 4 * 3 ∧ s.inn.m_iLen_Out_Total < 16001 ∧
    Objects.Along package Restores s [ramp 160, ramp 16001, ramp 320] := by
  refine ⟨_, rfl, by decide, by decide, ?_⟩
  apply packages_restored (show ([2, 0, 5] : MicIdLst) ≠ [] by decide) (by decide)
    (show new 8 [2, 0, 5] = .ok _ from rfl)
  apply along_small (show ([2, 0, 5] : MicIdLst) ≠ [] by decide) (by decide)
    (show new 8 [2, 0, 5] = .ok _ from rfl)
  intro p hp
  simp only [List.mem_cons, List.not_mem_nil, or_false] at hp
  rcases hp with rfl | rfl | rfl <;> exact ⟨by decide, by decide⟩

end Sides

end BlackSiren

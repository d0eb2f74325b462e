import BlackSiren.Legacy.MicInfo

/-! # `r2mem_rdc`: calibration

    The unit swallows the first `m_iMaxLen` samples of every channel of its list
    and takes their mean and deviation: the mean is subtracted from what follows,
    and a microphone that deviates too much is marked as broken and muted.
-/

namespace BlackSiren

/-- The operations the calibration applies to C's `double`, next to `float`'s
    sum. -/
class CDouble (F D : Type) where
  addFloat : F → F → F
  ofFloat : F → D
  ofRat : ℚ → D
  add : D → D → D
  sub : D → D → D
  div : D → D → D
  sqrt : D → D
  lt : D → D → Bool

/-- Exact arithmetic, with roots rounded down. -/
instance : CDouble ℚ ℚ where
  addFloat := (· + ·)
  ofFloat := id
  ofRat := id
  add := (· + ·)
  sub := (· - ·)
  div := (· / ·)
  sqrt := fun x => (Nat.sqrt ⌊x⌋.toNat : ℚ)
  lt := fun x y => decide (x < y)

/-- `r2mem_rdc`; the lists hold one entry for each microphone of the list. -/
structure R2memRdc (F D : Type) where
  m_pMicInfo_Rdc : MicIdLst
  m_iCurLen : Nat
  m_iMaxLen : Nat
  m_pRDc : List F
  m_pRDc_Var : List D
  m_bMicOk : List Bool

namespace R2memRdc

variable {F D : Type} [CFloat F] [CDouble F D]

/-- The constructor, on a list that is there. -/
def new (pMicInfo_Rdc : MicIdLst) (iMaxLen : Nat) : R2memRdc F D where
  m_pMicInfo_Rdc := pMicInfo_Rdc
  m_iCurLen := 0
  m_iMaxLen := iMaxLen
  m_pRDc := pMicInfo_Rdc.map fun _ => CFloat.ofInt 0
  m_pRDc_Var := pMicInfo_Rdc.map fun _ => CDouble.ofRat F 0
  m_bMicOk := pMicInfo_Rdc.map fun _ => true

/-- The sums over the first `iCur` samples. -/
def collect (u : R2memRdc F D) (pData_In : Chan F) (iCur : Nat) : R2memRdc F D :=
  { u with
    m_pRDc := List.zipWith (fun id sum => (List.range iCur).foldl (fun sum j =>
      CDouble.addFloat D sum (pData_In id j)) sum) u.m_pMicInfo_Rdc u.m_pRDc
    m_pRDc_Var := List.zipWith (fun id sum => (List.range iCur).foldl (fun sum j =>
      CDouble.add F sum (CDouble.ofFloat (CFloat.mul (pData_In id j) (pData_In id j)))) sum)
      u.m_pMicInfo_Rdc u.m_pRDc_Var
    m_iCurLen := u.m_iCurLen + iCur }

/-- Mean, deviation and verdict, when `m_iMaxLen` samples are there. -/
def calibrate (u : R2memRdc F D) : R2memRdc F D :=
  let mean := u.m_pRDc.map fun sum => CFloat.div sum (CFloat.ofInt u.m_iCurLen)
  let dev := List.zipWith (fun sum mean =>
    CDouble.sqrt F (CDouble.add F
      (CDouble.sub F (CDouble.div F sum (CDouble.ofRat F u.m_iCurLen))
        (CDouble.ofFloat (CFloat.mul mean mean)))
      (CDouble.ofFloat (CFloat.ofRat (1 / 10) : F)))) u.m_pRDc_Var mean
  { u with
    m_pRDc := mean
    m_pRDc_Var := dev
    m_bMicOk := dev.map fun v => !CDouble.lt F (CDouble.ofRat F 200000) v }

/-- Drop the first `iCur` samples of `n` more and the mean of the rest; a broken
    microphone is silent. -/
def correct (u : R2memRdc F D) (pData_In : Chan F) (iCur n : Nat) : Chan F :=
  (u.m_pMicInfo_Rdc.zip (u.m_pRDc.zip u.m_bMicOk)).foldl (fun d r => fun id j =>
    if id = r.1 ∧ j < n then
      if r.2.2 then CFloat.sub (d id (j + iCur)) r.2.1 else CFloat.ofInt 0
    else d id j) pData_In

/-- `process`: the unit, the channels it works on in place, and the samples left
    in each. -/
def process (u : R2memRdc F D) (pData_In : Chan F) (iLen_In : Nat) :
    R2memRdc F D × Chan F × Nat :=
  let iCur := min (u.m_iMaxLen - u.m_iCurLen) iLen_In
  let u :=
    if u.m_iCurLen < u.m_iMaxLen then
      let u := u.collect pData_In iCur
      if u.m_iCurLen = u.m_iMaxLen then u.calibrate else u
    else u
  let iLen := iLen_In - iCur
  (u, if iLen > 0 then u.correct pData_In iCur iLen else pData_In, iLen)

/-! ### The verdict -/

/-- The verdict has been computed; it is not computed again. -/
def Calibrated (u : R2memRdc F D) : Prop := u.m_iMaxLen ≤ u.m_iCurLen

/-- There is an entry for each microphone. -/
structure Sized (u : R2memRdc F D) : Prop where
  mean : u.m_pRDc.length = u.m_pMicInfo_Rdc.length
  dev : u.m_pRDc_Var.length = u.m_pMicInfo_Rdc.length
  ok : u.m_bMicOk.length = u.m_pMicInfo_Rdc.length

theorem sized_new (mics : MicIdLst) (iMaxLen : Nat) : (new mics iMaxLen : R2memRdc F D).Sized :=
  ⟨List.length_map _, List.length_map _, List.length_map _⟩

theorem sized_collect {u : R2memRdc F D} (h : u.Sized) (d : Chan F) (n : Nat) :
    (u.collect d n).Sized := by
  refine ⟨?_, ?_, h.ok⟩
  · show (List.zipWith _ _ _).length = _
    rw [List.length_zipWith, h.mean]
    exact Nat.min_self _
  · show (List.zipWith _ _ _).length = _
    rw [List.length_zipWith, h.dev]
    exact Nat.min_self _

theorem sized_calibrate {u : R2memRdc F D} (h : u.Sized) : u.calibrate.Sized := by
  have hmean : u.calibrate.m_pRDc.length = u.m_pMicInfo_Rdc.length := by
    show (List.map _ _).length = _
    rw [List.length_map, h.mean]
  have hdev : u.calibrate.m_pRDc_Var.length = u.m_pMicInfo_Rdc.length := by
    show (List.zipWith _ _ _).length = _
    rw [List.length_zipWith, h.dev]
    exact (congrArg (min _) hmean).trans (Nat.min_self _)
  refine ⟨hmean, hdev, ?_⟩
  exact (List.length_map _).trans hdev

variable (u : R2memRdc F D) (d : Chan F) (n : Nat)

theorem process_mics : (u.process d n).1.m_pMicInfo_Rdc = u.m_pMicInfo_Rdc := by
  unfold process
  dsimp only
  split
  · split <;> rfl
  · rfl

theorem process_sized {u : R2memRdc F D} (h : u.Sized) (d : Chan F) (n : Nat) :
    (u.process d n).1.Sized := by
  unfold process
  dsimp only
  split
  · split
    · exact sized_calibrate (sized_collect h d _)
    · exact sized_collect h d _
  · exact h

/-- Once it is there the unit does not change. -/
theorem process_of_calibrated {u : R2memRdc F D} (h : u.Calibrated) :
    (u.process d n).1 = u := by
  unfold process
  exact if_neg (Nat.not_lt.mpr h)

/-- Nothing is put out before it is there. -/
theorem process_waiting {u : R2memRdc F D} (h : ¬ (u.process d n).1.Calibrated) :
    (u.process d n).2.2 = 0 := by
  have hlen : (u.process d n).1.m_iMaxLen = u.m_iMaxLen ∧
      (u.process d n).1.m_iCurLen = u.m_iCurLen + min (u.m_iMaxLen - u.m_iCurLen) n := by
    unfold process
    dsimp only
    split
    · split
      · exact ⟨rfl, rfl⟩
      · exact ⟨rfl, rfl⟩
    · refine ⟨rfl, ?_⟩
      omega
  unfold Calibrated at h
  show n - min (u.m_iMaxLen - u.m_iCurLen) n = 0
  omega

omit u d n in
/-- The verdict on a microphone, from its first `n` samples alone. -/
def verdict (D : Type) [CDouble F D] (x : Nat → F) (n : Nat) : Bool :=
  let sum := (List.range n).foldl (fun sum j => CDouble.addFloat D sum (x j)) (CFloat.ofInt 0)
  let sumSq := (List.range n).foldl (fun sum j =>
    CDouble.add F sum (CDouble.ofFloat (CFloat.mul (x j) (x j)))) (CDouble.ofRat F 0 : D)
  let mean := CFloat.div sum (CFloat.ofInt n)
  !CDouble.lt F (CDouble.ofRat F 200000) (CDouble.sqrt F (CDouble.add F
    (CDouble.sub F (CDouble.div F sumSq (CDouble.ofRat F n))
      (CDouble.ofFloat (CFloat.mul mean mean)))
    (CDouble.ofFloat (CFloat.ofRat (1 / 10) : F))) : D)

/-- A new unit that gets enough samples has its verdict after them, microphone by
    microphone. -/
theorem process_new (mics : MicIdLst) {iMaxLen : Nat} (hpos : 0 < iMaxLen) (h : iMaxLen ≤ n) :
    ((new mics iMaxLen : R2memRdc F D).process d n).1.m_bMicOk =
      mics.map fun id => verdict D (d id) iMaxLen := by
  have hcur : min (iMaxLen - 0) n = iMaxLen := by omega
  have hproc : ((new mics iMaxLen : R2memRdc F D).process d n).1 =
      ((new mics iMaxLen : R2memRdc F D).collect d iMaxLen).calibrate := by
    unfold process
    dsimp only [new]
    rw [hcur]
    exact (if_pos hpos).trans (if_pos (Nat.zero_add _))
  rw [hproc]
  unfold calibrate collect new
  dsimp only
  -- every list has one entry for each microphone
  simp only [List.zipWith_map_right, List.zipWith_map_left, List.zipWith_self, Nat.zero_add,
    List.map_map]
  rfl

end R2memRdc

end BlackSiren

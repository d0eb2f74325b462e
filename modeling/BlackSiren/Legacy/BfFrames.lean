import BlackSiren.Framework.Frames
import BlackSiren.Legacy.Bf
import BlackSiren.Legacy.Packages

/-! # `r2mem_bf` on a stream

    The unit with its arrays: every copy, every frame of output and every `int`
    checked.

    - `R2memBfMem`: the unit and the size of its output
    - `process_eq`: nothing is outside, and the samples are those of `R2memBf`
    - `Holds`: the unit is a machine that gets its samples one instant at a time
    - `exists_run`: runs
-/

namespace BlackSiren

variable {F : Type}

/-! ### Pieces of a stream -/

/-- One sample of every channel. -/
abbrev Instant (F : Type) : Type := Int → F

/-- A piece of a stream, as a `float**` with `count` rows. -/
def rowsOf [CFloat F] (count : Nat) (piece : List (Instant F)) : Rows F where
  count := count
  len := piece.length
  data := fun id k => piece.getD k (fun _ => CFloat.ofInt 0) id

/-- The samples from `off` to `off + n` of a row are there. -/
def Rows.within (p : Rows F) (iMicId : Int) (off n : Nat) : Except Memory.Fault PUnit :=
  if 0 ≤ iMicId ∧ iMicId < p.count ∧ off + n ≤ p.len then .ok ⟨⟩ else .error .outside

/-- `r2_new_ar1`, which multiplies its sizes as `int`s. -/
def newFloats (n : Nat) : Except Memory.Fault PUnit := do
  let _ ← Memory.int (4 * n : Nat)

theorem Rows.within_eq_ok {p : Rows F} {id : Int} {off n : Nat} (hid : 0 ≤ id ∧ id < p.count)
    (h : off + n ≤ p.len) : p.within id off n = .ok ⟨⟩ := if_pos ⟨hid.1, hid.2, h⟩

theorem newFloats_eq_ok {n : Nat} (h : CInt.Fits (4 * n : Nat)) : newFloats n = .ok ⟨⟩ :=
  Access.bind_eq_ok.mpr ⟨_, Memory.int_eq_ok h, rfl⟩

theorem R2memBf.flush_mics {eng : BfEngine F} (b : R2memBf F eng) :
    b.flush.1.m_pMicInfo_Bf = b.m_pMicInfo_Bf := by
  unfold R2memBf.flush
  split <;> rfl

/-! ### The unit -/

/-- `r2mem_bf` with the size of its array of output. -/
structure R2memBfMem (F : Type) (eng : BfEngine F) where
  unit : R2memBf F eng
  m_iLen_Out_Total : Nat

variable {eng : BfEngine F}

namespace R2memBfMem

open R2memBf (m_iFrmSize)

/-- The array of output, large enough for a piece. -/
def grow (b : R2memBfMem F eng) (iLen_In : Nat) : Except Memory.Fault (R2memBfMem F eng) := do
  let need ← Memory.int (iLen_In + b.unit.m_iLen_In_Cur : Nat)
  if need.toNat > b.m_iLen_Out_Total then do
    let total ← Memory.int (need.toNat * 2 : Nat)
    newFloats total.toNat
    return { b with m_iLen_Out_Total := total.toNat }
  else return b

/-- The copies from the piece into the rows that wait. -/
def collect (b : R2memBfMem F eng) (pData_In : Rows F) (cur ll : Nat) :
    Except Memory.Fault (R2memBfMem F eng) := do
  b.unit.m_pMicInfo_Bf.forM fun iMicId => do
    Memory.within (m_iFrmSize eng) b.unit.m_iLen_In_Cur ll
    pData_In.within iMicId cur ll
  return { b with unit := b.unit.collect pData_In.data cur ll }

/-- A full frame is copied to `m_pData_Bf` and goes through the engine to
    `m_pData_Out + iLen_Out`. -/
def flush (b : R2memBfMem F eng) (iLen_Out : Nat) :
    Except Memory.Fault (R2memBfMem F eng × List F) := do
  if b.unit.m_iLen_In_Cur = m_iFrmSize eng then do
    let iMicNum := b.unit.m_pMicInfo_Bf.length
    (List.range iMicNum).forM fun j => do
      Memory.within (iMicNum * m_iFrmSize eng) (j * m_iFrmSize eng) (m_iFrmSize eng)
      Memory.within (m_iFrmSize eng) 0 (m_iFrmSize eng)
    Memory.within b.m_iLen_Out_Total iLen_Out (m_iFrmSize eng)
  return ({ b with unit := b.unit.flush.1 }, b.unit.flush.2)

/-- The loop of `process`, with `iLen_Out` samples in the array of output. -/
def chunks (pData_In : Rows F) : Nat → Nat → Nat → R2memBfMem F eng →
    Except Memory.Fault (R2memBfMem F eng × List F)
  | 0, _, _, b => .ok (b, [])
  | fuel + 1, cur, iLen_Out, b =>
      if cur < pData_In.len then do
        let ll := min (m_iFrmSize eng - b.unit.m_iLen_In_Cur) (pData_In.len - cur)
        let b ← b.collect pData_In cur ll
        let (b, out) ← b.flush iLen_Out
        let (b, out') ← chunks pData_In fuel (cur + ll) (iLen_Out + out.length) b
        return (b, out ++ out')
      else .ok (b, [])

/-- `process`. -/
def process (b : R2memBfMem F eng) (pData_In : Rows F) :
    Except Memory.Fault (R2memBfMem F eng × List F) := do
  let b ← b.grow pData_In.len
  chunks pData_In pData_In.len 0 0 b

/-! ### Nothing is outside -/


theorem collect_eq {b : R2memBfMem F eng} {pData_In : Rows F} {cur ll : Nat}
    (hids : ∀ id ∈ b.unit.m_pMicInfo_Bf, 0 ≤ id ∧ id < pData_In.count)
    (hroom : b.unit.m_iLen_In_Cur + ll ≤ m_iFrmSize eng) (hcur : cur + ll ≤ pData_In.len) :
    b.collect pData_In cur ll = .ok { b with unit := b.unit.collect pData_In.data cur ll } := by
  have hchecks : (b.unit.m_pMicInfo_Bf.forM fun iMicId => do
      Memory.within (m_iFrmSize eng) b.unit.m_iLen_In_Cur ll
      pData_In.within iMicId cur ll) = .ok ⟨⟩ := by
    apply Access.forM_eq_ok
    intro id hid
    rw [Memory.within_eq_ok hroom]
    exact Rows.within_eq_ok (hids id hid) hcur
  unfold collect
  rw [hchecks]
  rfl

theorem flush_eq {b : R2memBfMem F eng} {iLen_Out : Nat}
    (hroom : b.unit.m_iLen_In_Cur = m_iFrmSize eng →
      iLen_Out + m_iFrmSize eng ≤ b.m_iLen_Out_Total) :
    b.flush iLen_Out = .ok ({ b with unit := b.unit.flush.1 }, b.unit.flush.2) := by
  unfold flush
  by_cases hfull : b.unit.m_iLen_In_Cur = m_iFrmSize eng
  · have hchecks : ((List.range b.unit.m_pMicInfo_Bf.length).forM fun j => do
        Memory.within (b.unit.m_pMicInfo_Bf.length * m_iFrmSize eng) (j * m_iFrmSize eng)
          (m_iFrmSize eng)
        Memory.within (m_iFrmSize eng) 0 (m_iFrmSize eng)) = .ok ⟨⟩ := by
      apply Access.forM_eq_ok
      intro j hj
      have hrow : j * m_iFrmSize eng + m_iFrmSize eng ≤
          b.unit.m_pMicInfo_Bf.length * m_iFrmSize eng := by
        rw [← Nat.succ_mul]
        exact Nat.mul_le_mul_right _ (List.mem_range.mp hj)
      rw [Memory.within_eq_ok hrow]
      exact Memory.within_eq_ok (Nat.le_of_eq (Nat.zero_add _))
    rw [if_pos hfull]
    dsimp only
    rw [hchecks, Memory.within_eq_ok (hroom hfull)]
    rfl
  · rw [if_neg hfull]
    rfl

/-- The array is large enough, and its size an `int`. -/
theorem grow_eq {b : R2memBfMem F eng} {iLen_In : Nat}
    (hsize : CInt.Fits (4 * b.m_iLen_Out_Total : Nat))
    (hgrow : iLen_In + b.unit.m_iLen_In_Cur > b.m_iLen_Out_Total →
      CInt.Fits (4 * ((iLen_In + b.unit.m_iLen_In_Cur) * 2) : Nat)) :
    ∃ b', b.grow iLen_In = .ok b' ∧ b'.unit = b.unit ∧
      iLen_In + b.unit.m_iLen_In_Cur ≤ b'.m_iLen_Out_Total ∧
      CInt.Fits (4 * b'.m_iLen_Out_Total : Nat) := by
  unfold CInt.Fits at hsize hgrow
  have hneed : Memory.int (iLen_In + b.unit.m_iLen_In_Cur : Nat) = .ok _ :=
    Memory.int_eq_ok ⟨by omega, by omega⟩
  by_cases hmore : iLen_In + b.unit.m_iLen_In_Cur > b.m_iLen_Out_Total
  · have hbytes := hgrow hmore
    have htotal : Memory.int ((iLen_In + b.unit.m_iLen_In_Cur) * 2 : Nat) = .ok _ :=
      Memory.int_eq_ok ⟨by omega, by omega⟩
    refine ⟨{ b with m_iLen_Out_Total := (iLen_In + b.unit.m_iLen_In_Cur) * 2 },
      Access.bind_eq_ok.mpr ⟨_, hneed, ?_⟩, rfl, by dsimp only; omega, hbytes⟩
    rw [Int.toNat_natCast, if_pos hmore]
    refine Access.bind_eq_ok.mpr ⟨_, htotal, ?_⟩
    rw [Int.toNat_natCast, newFloats_eq_ok hbytes]
    rfl
  · refine ⟨b, Access.bind_eq_ok.mpr ⟨_, hneed, ?_⟩, rfl, Nat.not_lt.mp hmore, hsize⟩
    rw [Int.toNat_natCast, if_neg hmore]
    rfl

/-- The loop does what it does without the array, if there is room for what waits
    and what comes. -/
theorem chunks_eq {pData_In : Rows F} (fuel cur iLen_Out : Nat) {b : R2memBfMem F eng}
    (hids : ∀ id ∈ b.unit.m_pMicInfo_Bf, 0 ≤ id ∧ id < pData_In.count)
    (hwait : b.unit.m_iLen_In_Cur < m_iFrmSize eng)
    (hroom : iLen_Out + b.unit.m_iLen_In_Cur + (pData_In.len - cur) ≤ b.m_iLen_Out_Total) :
    chunks pData_In fuel cur iLen_Out b = .ok
      ({ b with unit := (R2memBf.chunks pData_In.data pData_In.len fuel cur b.unit).1 },
        (R2memBf.chunks pData_In.data pData_In.len fuel cur b.unit).2) := by
  induction fuel generalizing cur iLen_Out b with
  | zero => rfl
  | succ fuel ih =>
    unfold chunks R2memBf.chunks
    by_cases hcur : cur < pData_In.len
    · rw [if_pos hcur, if_pos hcur]
      dsimp only
      generalize hll : min (m_iFrmSize eng - b.unit.m_iLen_In_Cur) (pData_In.len - cur) = ll
      have hlen : (b.unit.collect pData_In.data cur ll).m_iLen_In_Cur =
          b.unit.m_iLen_In_Cur + ll := rfl
      obtain ⟨hfull, hpart⟩ := R2memBf.flush_frames (b.unit.collect pData_In.data cur ll)
      -- what has been put out and what waits is what has been put out and has waited
      have hturn : (b.unit.collect pData_In.data cur ll).flush.1.m_iLen_In_Cur < m_iFrmSize eng ∧
          iLen_Out + (b.unit.collect pData_In.data cur ll).flush.2.length +
            (b.unit.collect pData_In.data cur ll).flush.1.m_iLen_In_Cur =
              iLen_Out + b.unit.m_iLen_In_Cur + ll := by
        by_cases hend : b.unit.m_iLen_In_Cur + ll = m_iFrmSize eng
        · obtain ⟨hout, hnone⟩ := hfull hend
          rw [hout, hnone]
          exact ⟨R2memBf.m_iFrmSize_pos eng, by omega⟩
        · rw [hpart hend, List.length_nil, hlen]
          exact ⟨by omega, by omega⟩
      refine Access.bind_eq_ok.mpr ⟨_, collect_eq hids (by omega) (by omega),
        Access.bind_eq_ok.mpr ⟨_, flush_eq (by dsimp only; omega), Access.bind_eq_ok.mpr ⟨_,
          ih _ _ ?_ hturn.1 (by dsimp only; omega), rfl⟩⟩⟩
      rw [R2memBf.flush_mics]
      exact hids
    · rw [if_neg hcur, if_neg hcur]

/-- The call puts out what it puts out without the array. -/
theorem process_eq {b : R2memBfMem F eng} (pData_In : Rows F)
    (hids : ∀ id ∈ b.unit.m_pMicInfo_Bf, 0 ≤ id ∧ id < pData_In.count)
    (hwait : b.unit.m_iLen_In_Cur < m_iFrmSize eng)
    (hsize : CInt.Fits (4 * b.m_iLen_Out_Total : Nat))
    (hgrow : pData_In.len + b.unit.m_iLen_In_Cur > b.m_iLen_Out_Total →
      CInt.Fits (4 * ((pData_In.len + b.unit.m_iLen_In_Cur) * 2) : Nat)) :
    ∃ b' out, b.process pData_In = .ok (b', out) ∧ CInt.Fits (4 * b'.m_iLen_Out_Total : Nat) ∧
      b.unit.process pData_In.data pData_In.len = .ok (b'.unit, out) := by
  obtain ⟨b₁, hb₁, hunit, hroom, hsize₁⟩ := grow_eq hsize hgrow
  rw [← hunit] at hids hwait hroom
  have hloop := chunks_eq pData_In.len 0 0 hids hwait (by omega)
  refine ⟨_, _, Access.bind_eq_ok.mpr ⟨b₁, hb₁, hloop⟩, hsize₁, ?_⟩
  have hassert : decide (0 ≤ (pData_In.len : Int)) = true := decide_eq_true (Int.natCast_nonneg _)
  unfold R2memBf.process
  rw [hassert, Int.toNat_natCast, ← hunit]
  rfl

/-- A piece for which the output would have to grow beyond what an `int` counts. -/
theorem process_overflow {b : R2memBfMem F eng} {pData_In : Rows F}
    (hmore : pData_In.len + b.unit.m_iLen_In_Cur > b.m_iLen_Out_Total)
    (hbytes : ¬ CInt.Fits (4 * ((pData_In.len + b.unit.m_iLen_In_Cur) * 2) : Nat)) :
    b.process pData_In = .error .overflow := by
  have hgrow : b.grow pData_In.len = .error .overflow := by
    unfold grow
    by_cases hneed : CInt.Fits (pData_In.len + b.unit.m_iLen_In_Cur : Nat)
    · refine Access.bind_eq_error.mpr (.inr ⟨_, Memory.int_eq_ok hneed, ?_⟩)
      rw [Int.toNat_natCast, if_pos hmore]
      by_cases htotal : CInt.Fits ((pData_In.len + b.unit.m_iLen_In_Cur) * 2 : Nat)
      · refine Access.bind_eq_error.mpr (.inr ⟨_, Memory.int_eq_ok htotal, ?_⟩)
        rw [Int.toNat_natCast]
        exact Access.bind_eq_error.mpr (.inl
          (Access.bind_eq_error.mpr (.inl (Memory.int_eq_error hbytes))))
      · exact Access.bind_eq_error.mpr (.inl (Memory.int_eq_error htotal))
    · exact Access.bind_eq_error.mpr (.inl (Memory.int_eq_error hneed))
  exact Access.bind_eq_error.mpr (.inl hgrow)

end R2memBfMem

/-! ### One instant at a time -/

namespace R2memBf

/-- The engine on a frame of instants. -/
def frameStep (eng : BfEngine F) (mics : MicIdLst) (h : eng.State) (frame : List (Instant F)) :
    eng.State × List F :=
  ((eng.process h (mics.map fun id => frame.map (· id))).1,
    (List.range (m_iFrmSize eng)).map (eng.process h (mics.map fun id => frame.map (· id))).2)

/-- The unit has this engine, and these instants wait in its rows. -/
structure Holds (mics : MicIdLst) (b : R2memBf F eng)
    (h : Frames.Held eng.State (Instant F)) : Prop where
  m_pMicInfo_Bf : b.m_pMicInfo_Bf = mics
  m_iLen_In_Cur : b.m_iLen_In_Cur = h.waiting.length
  m_pData_In : b.m_pData_In = mics.map fun id => h.waiting.map (· id)
  m_hEngine_Bf : b.m_hEngine_Bf = h.state

theorem length_frameStep (eng : BfEngine F) (mics : MicIdLst) (h : eng.State)
    (frame : List (Instant F)) : (frameStep eng mics h frame).2.length = m_iFrmSize eng := by
  rw [frameStep, List.length_map, List.length_range]

/-- A full frame goes through the engine. -/
theorem Holds.flush {mics : MicIdLst} {b : R2memBf F eng} {h : Frames.Held eng.State (Instant F)}
    (hb : Holds mics b h) (hfull : h.waiting.length = m_iFrmSize eng) :
    Holds mics b.flush.1 ⟨(frameStep eng mics h.state h.waiting).1, []⟩ ∧
      b.flush.2 = (frameStep eng mics h.state h.waiting).2 := by
  have hcur : b.m_iLen_In_Cur = m_iFrmSize eng := hb.m_iLen_In_Cur.trans hfull
  unfold R2memBf.flush frameStep
  rw [if_pos hcur, hb.m_hEngine_Bf, hb.m_pData_In]
  refine ⟨⟨hb.m_pMicInfo_Bf, rfl, ?_, rfl⟩, rfl⟩
  show (b.m_pMicInfo_Bf.map fun _ => []) = _
  rw [hb.m_pMicInfo_Bf]
  rfl

variable [CFloat F]

/-- Some samples of a row. -/
theorem map_rowsOf (count : Nat) {piece : List (Instant F)} {cur ll : Nat}
    (h : cur + ll ≤ piece.length) (id : Int) :
    ((List.range ll).map fun k => (rowsOf count piece).data id (cur + k)) =
      ((piece.drop cur).take ll).map (· id) := by
  apply List.ext_getElem
  · rw [List.length_map, List.length_range, List.length_map, List.length_take, List.length_drop]
    omega
  · intro k hk _
    rw [List.length_map, List.length_range] at hk
    rw [List.getElem_map, List.getElem_range, List.getElem_map, List.getElem_take,
      List.getElem_drop]
    show piece.getD (cur + k) _ id = _
    rw [List.getD_eq_getElem _ _ (by omega)]

/-- The copies add instants to those that wait. -/
theorem Holds.collect {mics : MicIdLst} {b : R2memBf F eng} {h : Frames.Held eng.State (Instant F)}
    (hb : Holds mics b h) (count : Nat) (piece : List (Instant F)) (cur ll : Nat)
    (hcur : cur + ll ≤ piece.length) :
    Holds mics (b.collect (rowsOf count piece).data cur ll)
      ⟨h.state, h.waiting ++ (piece.drop cur).take ll⟩ := by
  refine ⟨hb.m_pMicInfo_Bf, ?_, ?_, hb.m_hEngine_Bf⟩
  · show b.m_iLen_In_Cur + ll = _
    rw [hb.m_iLen_In_Cur, List.length_append, List.length_take, List.length_drop]
    omega
  · show List.zipWith _ b.m_pData_In b.m_pMicInfo_Bf = _
    rw [hb.m_pData_In, hb.m_pMicInfo_Bf, List.zipWith_map_left, List.zipWith_self]
    apply List.map_congr_left
    intro id _
    rw [map_rowsOf count hcur, List.map_append]

/-- The loop is the machine on the rest of the piece. -/
theorem Holds.chunks {mics : MicIdLst} (count : Nat) (piece : List (Instant F)) (fuel cur : Nat)
    {b : R2memBf F eng} {h : Frames.Held eng.State (Instant F)} (hb : Holds mics b h)
    (hwait : h.waiting.length < m_iFrmSize eng) (hfuel : piece.length ≤ cur + fuel) :
    Holds mics (R2memBf.chunks (rowsOf count piece).data piece.length fuel cur b).1
        (Frames.feed (m_iFrmSize eng) (frameStep eng mics) h (piece.drop cur)).1 ∧
      (R2memBf.chunks (rowsOf count piece).data piece.length fuel cur b).2 =
        (Frames.feed (m_iFrmSize eng) (frameStep eng mics) h (piece.drop cur)).2 := by
  induction fuel generalizing cur b h with
  | zero =>
    rw [List.drop_eq_nil_of_le (by omega)]
    exact ⟨hb, rfl⟩
  | succ fuel ih =>
    unfold R2memBf.chunks
    by_cases hcur : cur < piece.length
    · rw [if_pos hcur, hb.m_iLen_In_Cur]
      dsimp only
      generalize hll : min (m_iFrmSize eng - h.waiting.length) (piece.length - cur) = ll
      have hle : cur + ll ≤ piece.length := by omega
      have hcollect := hb.collect count piece cur ll hle
      have hlen : (h.waiting ++ (piece.drop cur).take ll).length = h.waiting.length + ll := by
        rw [List.length_append, Frames.length_take_drop hle]
      by_cases hend : h.waiting.length + ll = m_iFrmSize eng
      · obtain ⟨hflush, hout⟩ := hcollect.flush (hlen.trans hend)
        obtain ⟨hrest, hrest'⟩ := ih (cur + ll) hflush (m_iFrmSize_pos eng) (by omega)
        rw [Frames.feed_drop_of_eq hwait hle hend]
        exact ⟨hrest, by rw [hout, hrest']⟩
      · have hlt : h.waiting.length + ll < m_iFrmSize eng := by omega
        have hflush := (flush_frames _).2 (by rw [hcollect.m_iLen_In_Cur, hlen]; exact hend)
        obtain ⟨hrest, hrest'⟩ := ih (cur + ll) hcollect (by rw [hlen]; exact hlt) (by omega)
        rw [Frames.feed_drop_of_lt hle hlt, hflush]
        exact ⟨hrest, hrest'⟩
    · rw [if_neg hcur, List.drop_eq_nil_of_le (by omega)]
      exact ⟨hb, rfl⟩

end R2memBf

/-! ### Runs -/

namespace R2memBfMem

open R2memBf (m_iFrmSize frameStep)

variable [CFloat F]

/-- The constructor. -/
def new (pMicPosLst : Int → F × F × F) (pMicDelay : Int → F) (pMicInfo_Bf : MicIdLst) :
    Except Memory.Fault (R2memBfMem F eng) := do
  let iMicNum := pMicInfo_Bf.length
  newFloats (iMicNum * 3)
  newFloats iMicNum
  newFloats (iMicNum * m_iFrmSize eng)
  newFloats R2_AUDIO_SAMPLE_RATE
  newFloats (iMicNum * m_iFrmSize eng)
  return { unit := R2memBf.new pMicPosLst pMicDelay pMicInfo_Bf,
           m_iLen_Out_Total := R2_AUDIO_SAMPLE_RATE }

/-- `process`, for a piece of a stream of `mic_num` channels. -/
def call (mic_num : Nat) (b : R2memBfMem F eng) (piece : List (Instant F)) :
    Except Memory.Fault (R2memBfMem F eng × List F) := b.process (rowsOf mic_num piece)

omit [CFloat F] in
/-- If the array of output has to grow for a piece, its new bytes can be counted
    by an `int`. -/
def Fits (b : R2memBfMem F eng) (piece : List (Instant F)) : Prop :=
  piece.length + b.unit.m_iLen_In_Cur > b.m_iLen_Out_Total →
    CInt.Fits (4 * ((piece.length + b.unit.m_iLen_In_Cur) * 2) : Nat)

theorem new_eq_ok {pos : Int → F × F × F} {delay : Int → F} {mics : MicIdLst}
    {b : R2memBfMem F eng} (h : new pos delay mics = .ok b) :
    b = ⟨R2memBf.new pos delay mics, R2_AUDIO_SAMPLE_RATE⟩ := by
  obtain ⟨_, _, h⟩ := Access.bind_eq_ok.mp h
  obtain ⟨_, _, h⟩ := Access.bind_eq_ok.mp h
  obtain ⟨_, _, h⟩ := Access.bind_eq_ok.mp h
  obtain ⟨_, _, h⟩ := Access.bind_eq_ok.mp h
  obtain ⟨_, _, h⟩ := Access.bind_eq_ok.mp h
  exact (Except.ok.inj h).symm

/-- The constructor returns if the rows that wait fit. -/
theorem new_of_fits (pos : Int → F × F × F) (delay : Int → F) {mics : MicIdLst}
    (h : CInt.Fits (4 * (mics.length * m_iFrmSize eng) : Nat)) :
    (new pos delay mics : Except Memory.Fault (R2memBfMem F eng)) =
      .ok ⟨R2memBf.new pos delay mics, R2_AUDIO_SAMPLE_RATE⟩ := by
  have hthree : 3 ≤ m_iFrmSize eng := by
    unfold m_iFrmSize
    split <;> decide
  have hpos := Nat.mul_le_mul_left mics.length hthree
  have hfits : ∀ n ≤ mics.length * m_iFrmSize eng, newFloats n = .ok ⟨⟩ := by
    intro n hn
    apply newFloats_eq_ok
    unfold CInt.Fits at h ⊢
    omega
  have hrate : newFloats R2_AUDIO_SAMPLE_RATE = .ok ⟨⟩ := newFloats_eq_ok (by decide)
  unfold new
  dsimp only
  rw [hfits _ hpos, hfits _ (by omega), hfits _ (le_refl _), hrate]
  rfl

/-- The machine before the first instant. -/
def start (eng : BfEngine F) (pos : Int → F × F × F) (delay : Int → F) (mics : MicIdLst) :
    Frames.Held eng.State (Instant F) :=
  ⟨(R2memBf.new pos delay mics : R2memBf F eng).m_hEngine_Bf, []⟩

/-- What a run leaves: the machine that has had the whole stream. -/
structure Followed (h₀ : Frames.Held eng.State (Instant F)) (mics : MicIdLst)
    (pieces : List (List (Instant F))) (outs : List (List F)) (b : R2memBfMem F eng) : Prop where
  unit : R2memBf.Holds mics b.unit
    (Frames.feed (m_iFrmSize eng) (frameStep eng mics) h₀ pieces.flatten).1
  size : CInt.Fits (4 * b.m_iLen_Out_Total : Nat)
  out : outs.flatten = (Frames.feed (m_iFrmSize eng) (frameStep eng mics) h₀ pieces.flatten).2

theorem followed_new {pos : Int → F × F × F} {delay : Int → F} {mics : MicIdLst}
    {b : R2memBfMem F eng} (hnew : new pos delay mics = .ok b) :
    Followed (start eng pos delay mics) mics [] [] b := by
  rw [new_eq_ok hnew]
  have hsize : CInt.Fits (4 * R2_AUDIO_SAMPLE_RATE : Nat) := by decide
  exact ⟨⟨rfl, rfl, rfl, rfl⟩, hsize, rfl⟩

/-- One more piece. -/
theorem Followed.call {h₀ : Frames.Held eng.State (Instant F)} {mics : MicIdLst} {mic_num : Nat}
    {pieces : List (List (Instant F))} {outs : List (List F)} {b : R2memBfMem F eng}
    (hb : Followed h₀ mics pieces outs b) (h₀wait : h₀.waiting.length < m_iFrmSize eng)
    (hids : ∀ id ∈ mics, 0 ≤ id ∧ id < mic_num) {piece : List (Instant F)} (hpiece : b.Fits piece) :
    ∃ b' out, b.call mic_num piece = .ok (b', out) ∧
      Followed h₀ mics (pieces ++ [piece]) (outs ++ [out]) b' := by
  have hwait : (Frames.feed (m_iFrmSize eng) (frameStep eng mics) h₀
      pieces.flatten).1.waiting.length < m_iFrmSize eng := by
    rw [(Frames.length_feed (R2memBf.length_frameStep eng mics) h₀wait pieces.flatten).2]
    exact Nat.mod_lt _ (R2memBf.m_iFrmSize_pos eng)
  obtain ⟨b', out, hcall, hsize, hunit⟩ := process_eq (rowsOf mic_num piece)
    (by rw [hb.unit.m_pMicInfo_Bf]; exact hids) (by rw [hb.unit.m_iLen_In_Cur]; exact hwait)
    hb.size hpiece
  have hloop : R2memBf.chunks (rowsOf mic_num piece).data piece.length piece.length 0 b.unit =
      (b'.unit, out) := Except.ok.inj hunit
  obtain ⟨hheld, hout⟩ := hb.unit.chunks mic_num piece piece.length 0 hwait (by omega)
  rw [hloop, List.drop_zero] at hheld hout
  refine ⟨b', out, hcall, ?_, hsize, ?_⟩
  · rw [Frames.feed_flatten_concat]
    exact hheld
  · rw [Frames.feed_flatten_concat, List.flatten_append, List.flatten_singleton, hb.out]
    exact congrArg _ hout

/-- In a run nothing is outside, and what is put out is what the machine puts out
    for the whole stream. -/
theorem exists_run {pos : Int → F × F × F} {delay : Int → F} {mics : MicIdLst} {mic_num : Nat}
    (hids : ∀ id ∈ mics, 0 ≤ id ∧ id < mic_num) {b : R2memBfMem F eng}
    (hnew : new pos delay mics = .ok b) {pieces : List (List (Instant F))}
    (hfits : Objects.Along (call mic_num) Fits b pieces) :
    ∃ b' outs, Objects.run (call mic_num) b pieces = .ok (b', outs) ∧ outs.flatten =
      (Frames.feed (m_iFrmSize eng) (frameStep eng mics) (start eng pos delay mics)
        pieces.flatten).2 := by
  have hcall : ∀ pieces outs (b : R2memBfMem F eng) piece,
      Followed (start eng pos delay mics) mics pieces outs b → b.Fits piece →
        ∃ b' out, b.call mic_num piece = .ok (b', out) ∧
          Followed (start eng pos delay mics) mics (pieces ++ [piece]) (outs ++ [out]) b' := by
    intro pieces outs b piece hb hpiece
    exact hb.call (R2memBf.m_iFrmSize_pos eng) hids hpiece
  obtain ⟨b', outs, hrun, hfollowed⟩ := Objects.exists_run _ hcall (followed_new hnew) hfits
  exact ⟨b', outs, hrun, hfollowed.out⟩

/-- Pieces that fit with a whole frame waiting fit in every run. -/
theorem along_fits {pos : Int → F × F × F} {delay : Int → F} {mics : MicIdLst} {mic_num : Nat}
    (hids : ∀ id ∈ mics, 0 ≤ id ∧ id < mic_num) {b : R2memBfMem F eng}
    (hnew : new pos delay mics = .ok b) {pieces : List (List (Instant F))}
    (hlen : ∀ piece ∈ pieces, CInt.Fits (4 * ((piece.length + m_iFrmSize eng) * 2) : Nat)) :
    Objects.Along (call mic_num) Fits b pieces := by
  let inv : R2memBfMem F eng → Prop := fun b =>
    ∃ pieces outs, Followed (start eng pos delay mics) mics pieces outs b
  have hfits : ∀ (b : R2memBfMem F eng) (piece : List (Instant F)), inv b →
      CInt.Fits (4 * ((piece.length + m_iFrmSize eng) * 2) : Nat) → b.Fits piece := by
    rintro b piece ⟨pieces, outs, hb⟩ hpiece -
    -- less than a frame waits
    have hwait : b.unit.m_iLen_In_Cur < m_iFrmSize eng := by
      rw [hb.unit.m_iLen_In_Cur, (Frames.length_feed (R2memBf.length_frameStep eng mics)
        (show (start eng pos delay mics).waiting.length < _ from R2memBf.m_iFrmSize_pos eng)
        pieces.flatten).2]
      exact Nat.mod_lt _ (R2memBf.m_iFrmSize_pos eng)
    unfold CInt.Fits at hpiece ⊢
    omega
  refine Objects.along_imp inv hfits ?_ ⟨[], [], followed_new hnew⟩
    (P := fun _ piece => CInt.Fits (4 * ((piece.length + m_iFrmSize eng) * 2) : Nat))
    (Objects.along_of_forall fun _ => hlen)
  rintro b piece b' out ⟨pieces, outs, hb⟩ hpiece hcall
  obtain ⟨b₁, out₁, hcall₁, hb₁⟩ := hb.call (R2memBf.m_iFrmSize_pos eng) hids
    (hfits b piece ⟨pieces, outs, hb⟩ hpiece)
  obtain ⟨rfl, rfl⟩ := Prod.mk.inj (Except.ok.inj (hcall₁.symm.trans hcall))
  exact ⟨_, _, hb₁⟩

end R2memBfMem

end BlackSiren

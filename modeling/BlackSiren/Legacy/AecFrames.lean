import BlackSiren.Legacy.Aec
import BlackSiren.Legacy.BfFrames

/-! # `r2mem_aec` on a stream

    The unit takes frames of 256 samples and puts out multiples of 160; what it
    has not put out it moves to the front at the next call, and takes along when
    its output has to grow.  Here with every copy and every `int` checked.

    - `R2memAecMem`: the unit and the number of rows of its arrays
    - `process_eq`: nothing is outside, and the samples are those of `R2memAec`
    - `Holds`: the unit is a machine that gets its samples one instant at a time,
      with an array behind it
    - `exists_run`: runs
-/

namespace BlackSiren

variable {F : Type} [CFloat F] {eng : AecEngine F}

/-- The copies between an array of frames and the rows of some microphones, from
    `off` on. -/
def Rows.frames (p : Rows F) (mics : MicIdLst) (off n : Nat) : Except Memory.Fault PUnit :=
  mics.zipIdx.forM fun r => do
    Memory.within (mics.length * n) (r.2 * n) n
    p.within r.1 off n

omit [CFloat F] in
theorem Rows.frames_eq_ok {p : Rows F} {mics : MicIdLst} {off n : Nat}
    (hids : ∀ id ∈ mics, 0 ≤ id ∧ id < p.count) (h : off + n ≤ p.len) :
    p.frames mics off n = .ok ⟨⟩ := by
  apply Access.forM_eq_ok
  intro r hr
  obtain ⟨-, hlt, hget⟩ := List.mem_zipIdx hr
  have hrow : r.2 * n + n ≤ mics.length * n := by
    rw [← Nat.succ_mul]
    exact Nat.mul_le_mul_right n (by omega)
  rw [Memory.within_eq_ok hrow]
  refine Rows.within_eq_ok (hids r.1 ?_) h
  rw [hget]
  exact List.getElem_mem _

theorem R2memAec.chunks_total (d : Chan F) (len fuel cur : Nat) (u : R2memAec F eng) :
    (chunks d len fuel cur u).m_iLen_Out_Total = u.m_iLen_Out_Total := by
  induction fuel generalizing cur u with
  | zero => rfl
  | succ fuel ih =>
    unfold chunks
    split
    · rw [ih]
      split <;> rfl
    · rfl

/-! ### The unit -/

/-- `r2mem_aec` with the number of rows of its arrays. -/
structure R2memAecMem (F : Type) (eng : AecEngine F) where
  m_iMicNum : Nat
  unit : R2memAec F eng

namespace R2memAecMem

open R2memAec (m_iFrmLen_Aec m_iFrmLen_Out)

/-- `m_pData_In`. -/
def rowsIn (u : R2memAecMem F eng) : Rows F := ⟨u.m_iMicNum, m_iFrmLen_Aec, u.unit.m_pData_In⟩

/-- `m_pData_Out`. -/
def rowsOut (u : R2memAecMem F eng) : Rows F :=
  ⟨u.m_iMicNum, u.unit.m_iLen_Out_Total, u.unit.m_pData_Out⟩

/-- The channels of both lists. -/
def mics (u : R2memAecMem F eng) : MicIdLst := u.unit.m_pMicInfo_Aec ++ u.unit.m_pMicInfo_AecRef

/-- What the last call has not put out moves to the front. -/
def keepLeft (u : R2memAecMem F eng) : Except Memory.Fault (R2memAecMem F eng) := do
  let left := u.unit.m_iLen_Out % m_iFrmLen_Out
  u.mics.forM fun iMicId => do
    u.rowsOut.within iMicId 0 left
    u.rowsOut.within iMicId (u.unit.m_iLen_Out - left) left
  return { u with unit := u.unit.keepLeft }

/-- A larger output array, if the call may need it. -/
def grow (u : R2memAecMem F eng) (iLen_In : Nat) : Except Memory.Fault (R2memAecMem F eng) := do
  let need ← Memory.int (iLen_In + u.unit.m_iLen_In + u.unit.m_iLen_Out : Nat)
  if need.toNat > u.unit.m_iLen_Out_Total then do
    let total ← Memory.int (need.toNat * 2 : Nat)
    newFloats (u.m_iMicNum * total.toNat)
    (List.range u.m_iMicNum).forM fun i => do
      Memory.within total.toNat 0 u.unit.m_iLen_Out
      u.rowsOut.within i 0 u.unit.m_iLen_Out
  return { u with unit := u.unit.grow iLen_In }

/-- The copies from the piece into the rows that wait. -/
def collect (u : R2memAecMem F eng) (pData_In : Rows F) (cur ll : Nat) :
    Except Memory.Fault (R2memAecMem F eng) := do
  u.mics.forM fun iMicId => do
    u.rowsIn.within iMicId u.unit.m_iLen_In ll
    pData_In.within iMicId cur ll
  return { u with unit := u.unit.collect pData_In.data cur ll }

/-- `processfrm`. -/
def processfrm (u : R2memAecMem F eng) : Except Memory.Fault (R2memAecMem F eng) := do
  u.rowsIn.frames u.unit.m_pMicInfo_AecRef 0 m_iFrmLen_Aec
  u.rowsIn.frames u.unit.m_pMicInfo_Aec 0 m_iFrmLen_Aec
  u.rowsOut.frames u.unit.m_pMicInfo_Aec u.unit.m_iLen_Out m_iFrmLen_Aec
  return { u with unit := u.unit.processfrm }

/-- The loop of `process`. -/
def chunks (pData_In : Rows F) : Nat → Nat → R2memAecMem F eng →
    Except Memory.Fault (R2memAecMem F eng)
  | 0, _, u => .ok u
  | fuel + 1, cur, u =>
      if cur < pData_In.len then do
        let ll := min (m_iFrmLen_Aec - u.unit.m_iLen_In) (pData_In.len - cur)
        let u ← u.collect pData_In cur ll
        let u ← if u.unit.m_iLen_In = m_iFrmLen_Aec then u.processfrm else .ok u
        chunks pData_In fuel (cur + ll) u
      else .ok u

/-- `process`: the unit, its rows, the samples put out of each, and the result. -/
def process (u : R2memAecMem F eng) (pData_In : Rows F) :
    Except Memory.Fault (R2memAecMem F eng × Chan F × Nat × Int) := do
  let u ← keepLeft { u with unit := { u.unit with m_iRt := 0 } }
  let u ← u.grow pData_In.len
  let u ← chunks pData_In pData_In.len 0 u
  return (u, u.unit.m_pData_Out, u.unit.m_iLen_Out / m_iFrmLen_Out * m_iFrmLen_Out, u.unit.m_iRt)

/-! ### Nothing is outside -/

/-- The microphones of both lists have rows. -/
def Listed (u : R2memAecMem F eng) : Prop := ∀ id ∈ u.mics, 0 ≤ id ∧ id < u.m_iMicNum

omit [CFloat F] in
theorem keepLeft_eq {u : R2memAecMem F eng} (hids : u.Listed)
    (hout : u.unit.m_iLen_Out ≤ u.unit.m_iLen_Out_Total) :
    u.keepLeft = .ok { u with unit := u.unit.keepLeft } := by
  have hleft := Nat.mod_le u.unit.m_iLen_Out m_iFrmLen_Out
  have hchecks : (u.mics.forM fun iMicId => do
      u.rowsOut.within iMicId 0 (u.unit.m_iLen_Out % m_iFrmLen_Out)
      u.rowsOut.within iMicId (u.unit.m_iLen_Out - u.unit.m_iLen_Out % m_iFrmLen_Out)
        (u.unit.m_iLen_Out % m_iFrmLen_Out)) = .ok ⟨⟩ := by
    apply Access.forM_eq_ok
    intro id hid
    rw [Rows.within_eq_ok (hids id hid) (by show _ ≤ u.unit.m_iLen_Out_Total; omega)]
    exact Rows.within_eq_ok (hids id hid) (by show _ ≤ u.unit.m_iLen_Out_Total; omega)
  unfold keepLeft
  dsimp only
  rw [hchecks]
  rfl

omit [CFloat F] in
theorem collect_eq {u : R2memAecMem F eng} (hids : u.Listed) {pData_In : Rows F} (cur ll : Nat)
    (hcount : u.m_iMicNum ≤ pData_In.count) (hroom : u.unit.m_iLen_In + ll ≤ m_iFrmLen_Aec)
    (hcur : cur + ll ≤ pData_In.len) :
    u.collect pData_In cur ll = .ok { u with unit := u.unit.collect pData_In.data cur ll } := by
  have hchecks : (u.mics.forM fun iMicId => do
      u.rowsIn.within iMicId u.unit.m_iLen_In ll
      pData_In.within iMicId cur ll) = .ok ⟨⟩ := by
    apply Access.forM_eq_ok
    intro id hid
    obtain ⟨hlo, hhi⟩ := hids id hid
    rw [Rows.within_eq_ok (hids id hid) hroom]
    exact Rows.within_eq_ok ⟨hlo, by omega⟩ hcur
  unfold collect
  rw [hchecks]
  rfl

theorem processfrm_eq {u : R2memAecMem F eng} (hids : u.Listed)
    (hroom : u.unit.m_iLen_Out + m_iFrmLen_Aec ≤ u.unit.m_iLen_Out_Total) :
    u.processfrm = .ok { u with unit := u.unit.processfrm } := by
  have haec : ∀ id ∈ u.unit.m_pMicInfo_Aec, 0 ≤ id ∧ id < (u.m_iMicNum : Int) :=
    fun id hid => hids id (List.mem_append_left _ hid)
  have href : ∀ id ∈ u.unit.m_pMicInfo_AecRef, 0 ≤ id ∧ id < (u.m_iMicNum : Int) :=
    fun id hid => hids id (List.mem_append_right _ hid)
  have hframe : 0 + m_iFrmLen_Aec ≤ m_iFrmLen_Aec := Nat.le_of_eq (Nat.zero_add _)
  unfold processfrm
  rw [Rows.frames_eq_ok (p := u.rowsIn) href hframe, Rows.frames_eq_ok (p := u.rowsIn) haec hframe,
    Rows.frames_eq_ok (p := u.rowsOut) haec hroom]
  rfl

/-- The rows of output are long enough, and their sizes `int`s. -/
theorem grow_eq {u : R2memAecMem F eng} (iLen_In : Nat)
    (hout : u.unit.m_iLen_Out ≤ u.unit.m_iLen_Out_Total)
    (hsize : CInt.Fits u.unit.m_iLen_Out_Total)
    (hgrow : iLen_In + u.unit.m_iLen_In + u.unit.m_iLen_Out > u.unit.m_iLen_Out_Total →
      CInt.Fits ((iLen_In + u.unit.m_iLen_In + u.unit.m_iLen_Out) * 2 : Nat) ∧
      CInt.Fits (4 * (u.m_iMicNum *
        ((iLen_In + u.unit.m_iLen_In + u.unit.m_iLen_Out) * 2)) : Nat)) :
    u.grow iLen_In = .ok { u with unit := u.unit.grow iLen_In } ∧
      iLen_In + u.unit.m_iLen_In + u.unit.m_iLen_Out ≤ (u.unit.grow iLen_In).m_iLen_Out_Total ∧
      CInt.Fits (u.unit.grow iLen_In).m_iLen_Out_Total := by
  unfold CInt.Fits at hsize
  unfold grow R2memAec.grow
  dsimp only
  by_cases hmore : iLen_In + u.unit.m_iLen_In + u.unit.m_iLen_Out > u.unit.m_iLen_Out_Total
  · obtain ⟨htotal, hbytes⟩ := hgrow hmore
    have hneed : Memory.int (iLen_In + u.unit.m_iLen_In + u.unit.m_iLen_Out : Nat) = .ok _ :=
      Memory.int_eq_ok (by unfold CInt.Fits at htotal ⊢; omega)
    have hrows : ((List.range u.m_iMicNum).forM fun i => do
        Memory.within ((iLen_In + u.unit.m_iLen_In + u.unit.m_iLen_Out) * 2) 0 u.unit.m_iLen_Out
        u.rowsOut.within i 0 u.unit.m_iLen_Out) = .ok ⟨⟩ := by
      apply Access.forM_eq_ok
      intro i hi
      have hlt := List.mem_range.mp hi
      rw [Memory.within_eq_ok (by omega)]
      exact Rows.within_eq_ok ⟨by omega, by show (i : Int) < u.m_iMicNum; omega⟩
        (by show _ ≤ u.unit.m_iLen_Out_Total; omega)
    refine ⟨Access.bind_eq_ok.mpr ⟨_, hneed, ?_⟩, ?_, ?_⟩
    · rw [Int.toNat_natCast, if_pos hmore]
      refine Access.bind_eq_ok.mpr ⟨_, Memory.int_eq_ok htotal, ?_⟩
      rw [Int.toNat_natCast]
      exact Access.bind_eq_ok.mpr ⟨PUnit.unit, newFloats_eq_ok hbytes,
        Access.bind_eq_ok.mpr ⟨PUnit.unit, hrows, rfl⟩⟩
    · rw [if_pos hmore]
      dsimp only
      omega
    · rw [if_pos hmore]
      exact htotal
  · have hneed : Memory.int (iLen_In + u.unit.m_iLen_In + u.unit.m_iLen_Out : Nat) = .ok _ :=
      Memory.int_eq_ok ⟨by omega, by omega⟩
    refine ⟨Access.bind_eq_ok.mpr ⟨_, hneed, ?_⟩, ?_, ?_⟩
    · rw [Int.toNat_natCast, if_neg hmore]
      rfl
    · rw [if_neg hmore]
      exact Nat.not_lt.mp hmore
    · rw [if_neg hmore]
      exact hsize

/-- The loop does what it does without the checks, if there is room for what waits
    and what comes. -/
theorem chunks_eq {pData_In : Rows F} (fuel cur : Nat) {u : R2memAecMem F eng} (hids : u.Listed)
    (hcount : u.m_iMicNum ≤ pData_In.count) (hwait : u.unit.m_iLen_In < m_iFrmLen_Aec)
    (hroom : u.unit.m_iLen_Out + u.unit.m_iLen_In + (pData_In.len - cur) ≤
      u.unit.m_iLen_Out_Total) :
    chunks pData_In fuel cur u = .ok { u with
      unit := R2memAec.chunks pData_In.data pData_In.len fuel cur u.unit } := by
  induction fuel generalizing cur u with
  | zero => rfl
  | succ fuel ih =>
    unfold chunks R2memAec.chunks
    by_cases hcur : cur < pData_In.len
    · rw [if_pos hcur, if_pos hcur]
      dsimp only
      generalize hll : min (m_iFrmLen_Aec - u.unit.m_iLen_In) (pData_In.len - cur) = ll
      have hcollect := collect_eq hids cur ll hcount (by omega) (by omega)
      have hlen : (u.unit.collect pData_In.data cur ll).m_iLen_In = u.unit.m_iLen_In + ll := rfl
      refine Access.bind_eq_ok.mpr ⟨_, hcollect, ?_⟩
      dsimp only
      rw [hlen]
      by_cases hfull : u.unit.m_iLen_In + ll = m_iFrmLen_Aec
      · -- the frame moves from the array of input to that of output
        have hframe : ({ u with unit := u.unit.collect pData_In.data cur ll } :
            R2memAecMem F eng).processfrm = .ok _ :=
          processfrm_eq hids (by show u.unit.m_iLen_Out + _ ≤ u.unit.m_iLen_Out_Total; omega)
        have hnone : 0 < m_iFrmLen_Aec := by decide
        rw [if_pos hfull, if_pos hfull]
        refine Access.bind_eq_ok.mpr ⟨_, hframe, ih (cur + ll) hids hcount hnone ?_⟩
        show u.unit.m_iLen_Out + m_iFrmLen_Aec + 0 + _ ≤ u.unit.m_iLen_Out_Total
        omega
      · rw [if_neg hfull, if_neg hfull]
        refine Access.bind_eq_ok.mpr ⟨_, rfl, ih (cur + ll) hids hcount ?_ ?_⟩
        · show u.unit.m_iLen_In + ll < m_iFrmLen_Aec
          omega
        · show u.unit.m_iLen_Out + (u.unit.m_iLen_In + ll) + _ ≤ u.unit.m_iLen_Out_Total
          omega
    · rw [if_neg hcur, if_neg hcur]

/-- If the output has to grow for some samples, its new length and bytes can be
    counted by an `int`. -/
def Fits (u : R2memAecMem F eng) (iLen_In : Nat) : Prop :=
  iLen_In + u.unit.m_iLen_In + u.unit.m_iLen_Out % m_iFrmLen_Out > u.unit.m_iLen_Out_Total →
    CInt.Fits ((iLen_In + u.unit.m_iLen_In + u.unit.m_iLen_Out % m_iFrmLen_Out) * 2 : Nat) ∧
    CInt.Fits (4 * (u.m_iMicNum *
      ((iLen_In + u.unit.m_iLen_In + u.unit.m_iLen_Out % m_iFrmLen_Out) * 2)) : Nat)

/-- The call does what it does without the checks. -/
theorem process_eq {u : R2memAecMem F eng} (pData_In : Rows F) (hids : u.Listed)
    (hcount : u.m_iMicNum ≤ pData_In.count) (hwait : u.unit.m_iLen_In < m_iFrmLen_Aec)
    (hout : u.unit.m_iLen_Out ≤ u.unit.m_iLen_Out_Total)
    (hsize : CInt.Fits u.unit.m_iLen_Out_Total) (hgrow : u.Fits pData_In.len) :
    u.process pData_In = .ok (⟨u.m_iMicNum, (u.unit.process pData_In.data pData_In.len).1⟩,
        (u.unit.process pData_In.data pData_In.len).1.m_pData_Out,
        (u.unit.process pData_In.data pData_In.len).2) ∧
      pData_In.len + u.unit.m_iLen_In + u.unit.m_iLen_Out % m_iFrmLen_Out ≤
        (u.unit.process pData_In.data pData_In.len).1.m_iLen_Out_Total ∧
      CInt.Fits (u.unit.process pData_In.data pData_In.len).1.m_iLen_Out_Total := by
  have hmod := Nat.mod_le u.unit.m_iLen_Out m_iFrmLen_Out
  have hkeep : keepLeft { u with unit := { u.unit with m_iRt := 0 } } = .ok _ :=
    keepLeft_eq hids hout
  obtain ⟨hgrow', hroom, htotal⟩ := grow_eq pData_In.len
    (u := ⟨u.m_iMicNum, R2memAec.keepLeft { u.unit with m_iRt := 0 }⟩)
    (by show u.unit.m_iLen_Out % m_iFrmLen_Out ≤ u.unit.m_iLen_Out_Total; omega) hsize hgrow
  generalize hv : (R2memAec.keepLeft { u.unit with m_iRt := 0 }).grow pData_In.len = v
    at hgrow' hroom htotal
  have hvu : v.m_pMicInfo_Aec = u.unit.m_pMicInfo_Aec ∧
      v.m_pMicInfo_AecRef = u.unit.m_pMicInfo_AecRef ∧ v.m_iLen_In = u.unit.m_iLen_In ∧
      v.m_iLen_Out = u.unit.m_iLen_Out % m_iFrmLen_Out := by
    rw [← hv]
    unfold R2memAec.grow
    dsimp only
    split <;> exact ⟨rfl, rfl, rfl, rfl⟩
  obtain ⟨haec, href, hin, hout'⟩ := hvu
  have hneed : pData_In.len + u.unit.m_iLen_In + u.unit.m_iLen_Out % m_iFrmLen_Out ≤
      v.m_iLen_Out_Total := hroom
  have hloop : chunks pData_In pData_In.len 0 ⟨u.m_iMicNum, v⟩ = .ok _ :=
    chunks_eq pData_In.len 0 (by unfold Listed mics; rw [haec, href]; exact hids) hcount
      (by show v.m_iLen_In < _; omega)
      (by show v.m_iLen_Out + v.m_iLen_In + (pData_In.len - 0) ≤ v.m_iLen_Out_Total; omega)
  have hunit : (u.unit.process pData_In.data pData_In.len).1 =
      R2memAec.chunks pData_In.data pData_In.len pData_In.len 0 v := by
    rw [← hv]
    rfl
  rw [← R2memAec.chunks_total pData_In.data pData_In.len pData_In.len 0, ← hunit] at hneed
  rw [← R2memAec.chunks_total pData_In.data pData_In.len pData_In.len 0, ← hunit] at htotal
  refine ⟨?_, hneed, htotal⟩
  refine Access.bind_eq_ok.mpr ⟨_, hkeep, Access.bind_eq_ok.mpr ⟨_, hgrow', ?_⟩⟩
  refine Access.bind_eq_ok.mpr ⟨_, hloop, ?_⟩
  rw [← hunit]
  rfl

end R2memAecMem

/-! ### One instant at a time -/

namespace R2memAec

/-- The samples of some channels, channel by channel and scaled. -/
def scaled (mics : MicIdLst) (frame : List (Instant F)) : List F :=
  mics.flatMap fun id => frame.map fun x => CFloat.div (x id) scale

/-- Instant `k` of the engine's samples. -/
def emitted (mics : MicIdLst) (out : Nat → F) (k : Nat) : Instant F := fun id =>
  mics.zipIdx.foldl (fun x r =>
    if id = r.1 then CFloat.mul (out (r.2 * m_iFrmLen_Aec + k)) scale else x) (CFloat.ofInt 0)

/-- The engine on a frame of instants. -/
def frameStep (eng : AecEngine F) (mics refs : MicIdLst) (h : eng.State)
    (frame : List (Instant F)) : eng.State × List (Instant F) :=
  let r := eng.process (eng.buffer_farend h (scaled refs frame)) (scaled mics frame)
  (r.1, (List.range m_iFrmLen_Aec).map (emitted mics r.2.1))

theorem length_frameStep (eng : AecEngine F) (mics refs : MicIdLst) (h : eng.State)
    (frame : List (Instant F)) : (frameStep eng mics refs h frame).2.length = m_iFrmLen_Aec := by
  rw [frameStep, List.length_map, List.length_range]

/-- The unit has this engine, these instants wait in the rows of its input, and
    these are in those of its output. -/
structure Holds (mics refs : MicIdLst) (u : R2memAec F eng)
    (h : Frames.Held eng.State (Instant F)) (buf : List (Instant F)) : Prop where
  m_pMicInfo_Aec : u.m_pMicInfo_Aec = mics
  m_pMicInfo_AecRef : u.m_pMicInfo_AecRef = refs
  m_hEngine_Aec : u.m_hEngine_Aec = h.state
  m_iLen_In : u.m_iLen_In = h.waiting.length
  m_pData_In : ∀ id ∈ mics ++ refs,
    Memory.window (u.m_pData_In id) 0 u.m_iLen_In = h.waiting.map (· id)
  m_iLen_Out : u.m_iLen_Out = buf.length
  m_pData_Out : ∀ id ∈ mics, Memory.window (u.m_pData_Out id) 0 u.m_iLen_Out = buf.map (· id)

variable {mics refs : MicIdLst} {u : R2memAec F eng} {h : Frames.Held eng.State (Instant F)}
  {buf : List (Instant F)}

omit [CFloat F] in
/-- What has not been put out stays. -/
theorem Holds.keepLeft (hu : Holds mics refs u h buf) :
    Holds mics refs u.keepLeft h (Frames.left m_iFrmLen_Out buf) := by
  have hlen : u.keepLeft.m_iLen_Out = (Frames.left m_iFrmLen_Out buf).length := by
    rw [Frames.length_left, ← hu.m_iLen_Out]
    rfl
  refine ⟨hu.m_pMicInfo_Aec, hu.m_pMicInfo_AecRef, hu.m_hEngine_Aec, hu.m_iLen_In, hu.m_pData_In,
    hlen, ?_⟩
  intro id hid
  have hmoved : Memory.window (u.keepLeft.m_pData_Out id) 0 u.keepLeft.m_iLen_Out =
      Memory.window (u.m_pData_Out id) (u.m_iLen_Out - u.m_iLen_Out % m_iFrmLen_Out)
        (u.m_iLen_Out % m_iFrmLen_Out) := by
    apply Memory.window_congr
    intro k hk
    rw [Nat.zero_add]
    exact if_pos ⟨by rw [hu.m_pMicInfo_Aec]; exact List.mem_append_left _ hid, hk⟩
  have hmod := Nat.mod_le u.m_iLen_Out m_iFrmLen_Out
  have hdrop : (Memory.window (u.m_pData_Out id) 0 u.m_iLen_Out).drop
      (u.m_iLen_Out - u.m_iLen_Out % m_iFrmLen_Out) = _ := Memory.drop_window _
  rw [Nat.zero_add, Nat.sub_sub_self hmod, hu.m_pData_Out id hid] at hdrop
  rw [hmoved, ← hdrop, Frames.left_eq_drop, List.map_drop, hu.m_iLen_Out]

/-- Larger rows of output hold what the old ones held. -/
theorem Holds.grow (hu : Holds mics refs u h buf) (iLen_In : Nat) :
    Holds mics refs (u.grow iLen_In) h buf := by
  unfold R2memAec.grow
  dsimp only
  split
  · refine ⟨hu.m_pMicInfo_Aec, hu.m_pMicInfo_AecRef, hu.m_hEngine_Aec, hu.m_iLen_In, hu.m_pData_In,
      hu.m_iLen_Out, ?_⟩
    intro id hid
    rw [← hu.m_pData_Out id hid]
    apply Memory.window_congr
    intro k hk
    rw [Nat.zero_add]
    exact if_pos hk
  · exact hu

/-- The copies add instants to those that wait. -/
theorem Holds.collect (hu : Holds mics refs u h buf) (count : Nat) (piece : List (Instant F))
    (cur ll : Nat) (hcur : cur + ll ≤ piece.length) :
    Holds mics refs (u.collect (rowsOf count piece).data cur ll)
      ⟨h.state, h.waiting ++ (piece.drop cur).take ll⟩ buf := by
  refine ⟨hu.m_pMicInfo_Aec, hu.m_pMicInfo_AecRef, hu.m_hEngine_Aec, ?_, ?_, hu.m_iLen_Out,
    hu.m_pData_Out⟩
  · show u.m_iLen_In + ll = _
    rw [hu.m_iLen_In, List.length_append, List.length_take, List.length_drop]
    omega
  · intro id hid
    have hlisted : id ∈ u.m_pMicInfo_Aec ++ u.m_pMicInfo_AecRef := by
      rw [hu.m_pMicInfo_Aec, hu.m_pMicInfo_AecRef]
      exact hid
    have hold : Memory.window ((u.collect (rowsOf count piece).data cur ll).m_pData_In id) 0
        u.m_iLen_In = Memory.window (u.m_pData_In id) 0 u.m_iLen_In := by
      apply Memory.window_congr
      intro k hk
      exact if_neg (by omega)
    have hnew : Memory.window ((u.collect (rowsOf count piece).data cur ll).m_pData_In id)
        (0 + u.m_iLen_In) ll = Memory.window ((rowsOf count piece).data id) cur ll := by
      apply Memory.window_congr
      intro k hk
      have hplace : 0 + u.m_iLen_In + k - u.m_iLen_In = k := by omega
      refine (if_pos ⟨hlisted, by omega, by omega⟩).trans ?_
      rw [hplace]
    show Memory.window _ 0 (u.m_iLen_In + ll) = _
    rw [Memory.window_add, hold, hnew, hu.m_pData_In id hid, List.map_append]
    congr 1
    exact R2memBf.map_rowsOf count hcur id

/-- The frames that wait, as the engine gets them. -/
theorem Holds.frames (hu : Holds mics refs u h buf) (hfull : u.m_iLen_In = m_iFrmLen_Aec)
    (list : MicIdLst) (hlist : ∀ id ∈ list, id ∈ mics ++ refs) :
    u.frames list = scaled list h.waiting := by
  unfold R2memAec.frames scaled
  apply List.flatMap_congr
  intro id hid
  have hrow := hu.m_pData_In id (hlist id hid)
  rw [hfull] at hrow
  have hscaled := congrArg (List.map fun x => CFloat.div x scale) hrow
  unfold Memory.window at hscaled
  simp only [List.map_map, Function.comp_def, Nat.zero_add] at hscaled
  exact hscaled

omit [CFloat F] in
/-- The writes of a frame, in one place. -/
theorem foldl_write (val : Int × Nat → Nat → F) (len : Nat) (l : List (Int × Nat)) (d : Chan F)
    (id : Int) (i : Nat) :
    l.foldl (fun d r => fun id i =>
      if id = r.1 ∧ len ≤ i ∧ i < len + m_iFrmLen_Aec then val r i else d id i) d id i =
      if len ≤ i ∧ i < len + m_iFrmLen_Aec then
        l.foldl (fun x r => if id = r.1 then val r i else x) (d id i)
      else d id i := by
  induction l generalizing d with
  | nil => split <;> rfl
  | cons r l ih =>
    rw [List.foldl_cons, ih, List.foldl_cons]
    by_cases hi : len ≤ i ∧ i < len + m_iFrmLen_Aec
    · rw [if_pos hi, if_pos hi]
      by_cases hid : id = r.1
      · rw [if_pos ⟨hid, hi⟩, if_pos hid]
      · rw [if_neg fun hr => hid hr.1, if_neg hid]
    · rw [if_neg hi, if_neg hi, if_neg fun hr => hi hr.2]

omit [CFloat F] in
/-- What a place that is written had before does not matter. -/
theorem foldl_overwritten {id : Int} {l : List (Int × Nat)} (val : Int × Nat → F)
    (hid : ∃ r ∈ l, id = r.1) (x y : F) :
    l.foldl (fun x r => if id = r.1 then val r else x) x =
      l.foldl (fun x r => if id = r.1 then val r else x) y := by
  induction l generalizing x y with
  | nil =>
    obtain ⟨r, hr, -⟩ := hid
    cases hr
  | cons r l ih =>
    rw [List.foldl_cons, List.foldl_cons]
    by_cases hr : id = r.1
    · rw [if_pos hr, if_pos hr]
    · rw [if_neg hr, if_neg hr]
      obtain ⟨r', hr', heq⟩ := hid
      rcases List.mem_cons.mp hr' with rfl | hmem
      · exact absurd heq hr
      · exact ih ⟨r', hmem, heq⟩ x y

/-- A full frame goes through the engine to the rows of output. -/
theorem Holds.processfrm (hu : Holds mics refs u h buf) (hfull : h.waiting.length = m_iFrmLen_Aec) :
    Holds mics refs u.processfrm ⟨(frameStep eng mics refs h.state h.waiting).1, []⟩
      (buf ++ (frameStep eng mics refs h.state h.waiting).2) := by
  have hin : u.m_iLen_In = m_iFrmLen_Aec := hu.m_iLen_In.trans hfull
  have hmics := hu.frames hin mics fun id hid => List.mem_append_left refs hid
  have hrefs := hu.frames hin refs fun id hid => List.mem_append_right mics hid
  refine ⟨hu.m_pMicInfo_Aec, hu.m_pMicInfo_AecRef, ?_, rfl, fun _ _ => rfl, ?_, ?_⟩
  · show (eng.process (eng.buffer_farend u.m_hEngine_Aec (u.frames u.m_pMicInfo_AecRef))
      (u.frames u.m_pMicInfo_Aec)).1 = _
    rw [hu.m_pMicInfo_Aec, hu.m_pMicInfo_AecRef, hu.m_hEngine_Aec, hmics, hrefs]
    rfl
  · show u.m_iLen_Out + m_iFrmLen_Aec = _
    rw [List.length_append, length_frameStep, hu.m_iLen_Out]
  · intro id hid
    have hentry : ∃ r ∈ mics.zipIdx, id = r.1 := by
      obtain ⟨i, hi, hget⟩ := List.getElem_of_mem hid
      exact ⟨(mics[i], i), List.mk_mem_zipIdx_iff_getElem?.mpr (List.getElem?_eq_getElem hi),
        hget.symm⟩
    have hcell : ∀ i, u.processfrm.m_pData_Out id i =
        if u.m_iLen_Out ≤ i ∧ i < u.m_iLen_Out + m_iFrmLen_Aec then
          emitted mics (eng.process (eng.buffer_farend h.state (scaled refs h.waiting))
            (scaled mics h.waiting)).2.1 (i - u.m_iLen_Out) id
        else u.m_pData_Out id i := by
      intro i
      unfold R2memAec.processfrm emitted
      rw [hu.m_pMicInfo_Aec, hu.m_pMicInfo_AecRef, hu.m_hEngine_Aec, hmics, hrefs]
      refine (foldl_write (fun r i => CFloat.mul _ _) u.m_iLen_Out _ _ id i).trans ?_
      split
      · exact foldl_overwritten _ hentry _ _
      · rfl
    have hold : Memory.window (u.processfrm.m_pData_Out id) 0 u.m_iLen_Out =
        Memory.window (u.m_pData_Out id) 0 u.m_iLen_Out := by
      apply Memory.window_congr
      intro k hk
      rw [hcell, if_neg (by omega)]
    have hnew : Memory.window (u.processfrm.m_pData_Out id) (0 + u.m_iLen_Out) m_iFrmLen_Aec =
        (frameStep eng mics refs h.state h.waiting).2.map (· id) := by
      unfold Memory.window frameStep
      rw [List.map_map]
      apply List.map_congr_left
      intro k hk
      have hlt := List.mem_range.mp hk
      rw [hcell, if_pos (by omega), Nat.zero_add, Nat.add_sub_cancel_left]
      rfl
    show Memory.window _ 0 (u.m_iLen_Out + m_iFrmLen_Aec) = _
    rw [Memory.window_add, hold, hnew, hu.m_pData_Out id hid, List.map_append]

/-- The loop is the machine on the rest of the piece. -/
theorem Holds.chunks (count : Nat) (piece : List (Instant F)) (fuel cur : Nat)
    (hu : Holds mics refs u h buf) (hwait : h.waiting.length < m_iFrmLen_Aec)
    (hfuel : piece.length ≤ cur + fuel) :
    Holds mics refs (R2memAec.chunks (rowsOf count piece).data piece.length fuel cur u)
      (Frames.feed m_iFrmLen_Aec (frameStep eng mics refs) h (piece.drop cur)).1
      (buf ++ (Frames.feed m_iFrmLen_Aec (frameStep eng mics refs) h (piece.drop cur)).2) := by
  induction fuel generalizing cur u h buf with
  | zero =>
    rw [List.drop_eq_nil_of_le (by omega), Frames.feed_nil, List.append_nil]
    exact hu
  | succ fuel ih =>
    unfold R2memAec.chunks
    by_cases hcur : cur < piece.length
    · rw [if_pos hcur, hu.m_iLen_In]
      dsimp only
      generalize hll : min (m_iFrmLen_Aec - h.waiting.length) (piece.length - cur) = ll
      have hle : cur + ll ≤ piece.length := by omega
      have hcollect := hu.collect count piece cur ll hle
      have hlen : (h.waiting ++ (piece.drop cur).take ll).length = h.waiting.length + ll := by
        rw [List.length_append, Frames.length_take_drop hle]
      have hin : (u.collect (rowsOf count piece).data cur ll).m_iLen_In =
          h.waiting.length + ll := hcollect.m_iLen_In.trans hlen
      rw [hin]
      by_cases hend : h.waiting.length + ll = m_iFrmLen_Aec
      · have hnone : 0 < m_iFrmLen_Aec := by decide
        rw [if_pos hend, Frames.feed_drop_of_eq hwait hle hend, ← List.append_assoc]
        exact ih (cur + ll) (hcollect.processfrm (hlen.trans hend)) hnone (by omega)
      · have hlt : h.waiting.length + ll < m_iFrmLen_Aec := by omega
        rw [if_neg hend, Frames.feed_drop_of_lt hle hlt]
        exact ih (cur + ll) hcollect (by rw [hlen]; exact hlt) (by omega)
    · rw [if_neg hcur, List.drop_eq_nil_of_le (by omega), Frames.feed_nil, List.append_nil]
      exact hu

/-- The call is the machine on the piece, with what is left of the last call in
    front of what it puts out. -/
theorem Holds.process (hu : Holds mics refs u h buf) (hwait : h.waiting.length < m_iFrmLen_Aec)
    (count : Nat) (piece : List (Instant F)) :
    Holds mics refs (u.process (rowsOf count piece).data piece.length).1
      (Frames.feed m_iFrmLen_Aec (frameStep eng mics refs) h piece).1
      (Frames.left m_iFrmLen_Out buf ++
        (Frames.feed m_iFrmLen_Aec (frameStep eng mics refs) h piece).2) := by
  have hbegin : Holds mics refs { u with m_iRt := 0 } h buf :=
    ⟨hu.m_pMicInfo_Aec, hu.m_pMicInfo_AecRef, hu.m_hEngine_Aec, hu.m_iLen_In, hu.m_pData_In,
      hu.m_iLen_Out, hu.m_pData_Out⟩
  have hloop := (hbegin.keepLeft.grow piece.length).chunks count piece piece.length 0 hwait
    (by omega)
  rw [List.drop_zero] at hloop
  exact hloop

omit [CFloat F] in
/-- The samples put out are the whole frames of the rows. -/
theorem Holds.output (hu : Holds mics refs u h buf) {id : Int} (hid : id ∈ mics) :
    Memory.window (u.m_pData_Out id) 0 (u.m_iLen_Out / m_iFrmLen_Out * m_iFrmLen_Out) =
      (Frames.whole m_iFrmLen_Out buf).map (· id) := by
  have htake : (Memory.window (u.m_pData_Out id) 0 u.m_iLen_Out).take
      (u.m_iLen_Out / m_iFrmLen_Out * m_iFrmLen_Out) = _ := Memory.take_window _
  rw [Nat.min_eq_left (Nat.div_mul_le_self _ _), hu.m_pData_Out id hid, hu.m_iLen_Out,
    ← List.map_take] at htake
  rw [hu.m_iLen_Out]
  exact htake.symm

end R2memAec

/-! ### Runs -/

namespace R2memAecMem

open R2memAec (m_iFrmLen_Aec m_iFrmLen_Out frameStep)

/-- The constructor. -/
def new (iMicNum : Nat) (pMicInfo_Aec pMicInfo_AecRef : MicIdLst) (cpus : Option MicIdLst) :
    Except Memory.Fault (R2memAecMem F eng) := do
  newFloats (m_iFrmLen_Aec * pMicInfo_Aec.length)
  newFloats (m_iFrmLen_Aec * pMicInfo_AecRef.length)
  newFloats (m_iFrmLen_Aec * pMicInfo_Aec.length)
  newFloats (iMicNum * m_iFrmLen_Aec)
  newFloats (iMicNum * R2_AUDIO_SAMPLE_RATE)
  return { m_iMicNum := iMicNum, unit := R2memAec.new pMicInfo_Aec pMicInfo_AecRef cpus }

theorem new_eq_ok {mic_num : Nat} {mics refs : MicIdLst} {cpus : Option MicIdLst}
    {u : R2memAecMem F eng} (h : new mic_num mics refs cpus = .ok u) :
    u = ⟨mic_num, R2memAec.new mics refs cpus⟩ := by
  obtain ⟨_, _, h⟩ := Access.bind_eq_ok.mp h
  obtain ⟨_, _, h⟩ := Access.bind_eq_ok.mp h
  obtain ⟨_, _, h⟩ := Access.bind_eq_ok.mp h
  obtain ⟨_, _, h⟩ := Access.bind_eq_ok.mp h
  obtain ⟨_, _, h⟩ := Access.bind_eq_ok.mp h
  exact (Except.ok.inj h).symm

/-- What a call puts out: the rows, the samples of each, and the result. -/
abbrev Answer (F : Type) : Type := Chan F × Nat × Int

/-- The samples put out of a row. -/
def Answer.samples (a : Answer F) (id : Int) : List F := Memory.window (a.1 id) 0 a.2.1

/-- `process`, for a piece of a stream of `mic_num` channels. -/
def call (mic_num : Nat) (u : R2memAecMem F eng) (piece : List (Instant F)) :
    Except Memory.Fault (R2memAecMem F eng × Answer F) := u.process (rowsOf mic_num piece)

/-- The machine before the first instant. -/
def start (eng : AecEngine F) (mics refs : MicIdLst) (cpus : Option MicIdLst) :
    Frames.Held eng.State (Instant F) :=
  ⟨eng.create cpus mics.length refs.length, []⟩

/-- What a run leaves: the machine that has had the whole stream, with the end of
    what it has given in the rows of output, of which the whole frames are out. -/
structure Followed (h₀ : Frames.Held eng.State (Instant F)) (mic_num : Nat) (mics refs : MicIdLst)
    (pieces : List (List (Instant F))) (outs : List (Answer F)) (u : R2memAecMem F eng) : Prop where
  count : u.m_iMicNum = mic_num
  unit : ∃ buf, R2memAec.Holds mics refs u.unit
      (Frames.feed m_iFrmLen_Aec (frameStep eng mics refs) h₀ pieces.flatten).1 buf ∧
    Frames.left m_iFrmLen_Out buf = Frames.left m_iFrmLen_Out
      (Frames.feed m_iFrmLen_Aec (frameStep eng mics refs) h₀ pieces.flatten).2
  size : CInt.Fits u.unit.m_iLen_Out_Total
  room : u.unit.m_iLen_Out ≤ u.unit.m_iLen_Out_Total
  out : ∀ id ∈ mics, outs.flatMap (·.samples id) = (Frames.whole m_iFrmLen_Out
    (Frames.feed m_iFrmLen_Aec (frameStep eng mics refs) h₀ pieces.flatten).2).map (· id)
  len : (outs.map (·.2.1)).sum = (Frames.whole m_iFrmLen_Out
    (Frames.feed m_iFrmLen_Aec (frameStep eng mics refs) h₀ pieces.flatten).2).length

theorem followed_new {mic_num : Nat} {mics refs : MicIdLst} {cpus : Option MicIdLst}
    {u : R2memAecMem F eng} (hnew : new mic_num mics refs cpus = .ok u) :
    Followed (start eng mics refs cpus) mic_num mics refs [] [] u := by
  rw [new_eq_ok hnew]
  have hsize : CInt.Fits R2_AUDIO_SAMPLE_RATE := by decide
  have hnone : Frames.whole m_iFrmLen_Out (Frames.feed m_iFrmLen_Aec (frameStep eng mics refs)
      (start eng mics refs cpus) ([] : List (List (Instant F))).flatten).2 = [] :=
    Frames.whole_nil _
  refine ⟨rfl, ⟨[], ⟨rfl, rfl, rfl, rfl, fun _ _ => rfl, rfl, fun _ _ => rfl⟩, rfl⟩, hsize,
    Nat.zero_le _, fun _ _ => ?_, ?_⟩
  · rw [hnone]
    rfl
  · rw [hnone]
    rfl

/-- One more piece. -/
theorem Followed.call {h₀ : Frames.Held eng.State (Instant F)} {mic_num : Nat}
    {mics refs : MicIdLst} {pieces : List (List (Instant F))} {outs : List (Answer F)}
    {u : R2memAecMem F eng} (hu : Followed h₀ mic_num mics refs pieces outs u)
    (h₀wait : h₀.waiting.length < m_iFrmLen_Aec)
    (hids : ∀ id ∈ mics ++ refs, 0 ≤ id ∧ id < mic_num) {piece : List (Instant F)}
    (hpiece : u.Fits piece.length) :
    ∃ u' out, u.call mic_num piece = .ok (u', out) ∧
      Followed h₀ mic_num mics refs (pieces ++ [piece]) (outs ++ [out]) u' := by
  obtain ⟨buf, hheld, hleft⟩ := hu.unit
  have hlen := Frames.length_feed (R2memAec.length_frameStep eng mics refs) h₀wait pieces.flatten
  have hwait : (Frames.feed m_iFrmLen_Aec (frameStep eng mics refs) h₀
      pieces.flatten).1.waiting.length < m_iFrmLen_Aec := by
    rw [hlen.2]
    exact Nat.mod_lt _ (by decide)
  have hlisted : u.Listed := by
    unfold Listed R2memAecMem.mics
    rw [hheld.m_pMicInfo_Aec, hheld.m_pMicInfo_AecRef, hu.count]
    exact hids
  obtain ⟨hcall, hroom, hsize⟩ := process_eq (rowsOf mic_num piece) hlisted
    (Nat.le_of_eq hu.count) (by rw [hheld.m_iLen_In]; exact hwait) hu.room hu.size hpiece
  have hnext := hheld.process hwait mic_num piece
  rw [hleft] at hnext
  have hlen := hnext.m_iLen_Out
  have hnew := (Frames.length_feed (R2memAec.length_frameStep eng mics refs) hwait piece).1
  have hunit : ∃ buf, R2memAec.Holds mics refs
        (u.unit.process (rowsOf mic_num piece).data piece.length).1
        (Frames.feed m_iFrmLen_Aec (frameStep eng mics refs) h₀ (pieces ++ [piece]).flatten).1 buf ∧
      Frames.left m_iFrmLen_Out buf = Frames.left m_iFrmLen_Out
        (Frames.feed m_iFrmLen_Aec (frameStep eng mics refs) h₀ (pieces ++ [piece]).flatten).2 := by
    rw [Frames.feed_flatten_concat]
    exact ⟨_, hnext, (Frames.left_append _ _ _).symm⟩
  refine ⟨_, _, hcall, hu.count, hunit, hsize, ?_, ?_, ?_⟩
  · -- the frames that the piece completes are no longer than what has waited and the piece
    have hframes := Nat.div_mul_le_self ((Frames.feed m_iFrmLen_Aec (frameStep eng mics refs) h₀
      pieces.flatten).1.waiting.length + piece.length) m_iFrmLen_Aec
    rw [List.length_append, ← hleft, Frames.length_left, ← hheld.m_iLen_Out, hnew] at hlen
    rw [← hheld.m_iLen_In] at hframes hlen
    have hpiece : piece.length + u.unit.m_iLen_In + u.unit.m_iLen_Out % m_iFrmLen_Out ≤
        (u.unit.process (rowsOf mic_num piece).data piece.length).1.m_iLen_Out_Total := hroom
    show (u.unit.process (rowsOf mic_num piece).data piece.length).1.m_iLen_Out ≤
      (u.unit.process (rowsOf mic_num piece).data piece.length).1.m_iLen_Out_Total
    omega
  · intro id hid
    rw [Frames.feed_flatten_concat, List.flatMap_append, hu.out id hid, List.flatMap_singleton,
      Frames.whole_append, List.map_append]
    congr 1
    exact hnext.output hid
  · rw [Frames.feed_flatten_concat, List.map_append, List.sum_append, hu.len, Frames.whole_append,
      List.length_append]
    congr 1
    rw [Frames.length_whole, ← hlen]
    exact List.sum_singleton

/-- In a run nothing is outside, and what is put out are the whole frames of what
    the machine gives for the whole stream. -/
theorem exists_run {mic_num : Nat} {mics refs : MicIdLst} {cpus : Option MicIdLst}
    (hids : ∀ id ∈ mics ++ refs, 0 ≤ id ∧ id < mic_num) {u : R2memAecMem F eng}
    (hnew : new mic_num mics refs cpus = .ok u) {pieces : List (List (Instant F))}
    (hfits : Objects.Along (call mic_num) (fun u piece => u.Fits piece.length) u pieces) :
    ∃ u' outs, Objects.run (call mic_num) u pieces = .ok (u', outs) ∧
      Followed (start eng mics refs cpus) mic_num mics refs pieces outs u' := by
  have hcall : ∀ pieces outs (u : R2memAecMem F eng) piece,
      Followed (start eng mics refs cpus) mic_num mics refs pieces outs u → u.Fits piece.length →
        ∃ u' out, u.call mic_num piece = .ok (u', out) ∧
          Followed (start eng mics refs cpus) mic_num mics refs (pieces ++ [piece])
            (outs ++ [out]) u' := by
    intro pieces outs u piece hu hpiece
    exact hu.call (show 0 < m_iFrmLen_Aec by decide) hids hpiece
  exact Objects.exists_run _ hcall (followed_new hnew) hfits

/-- Pieces that fit with a whole frame of input and one of output waiting fit in
    every run. -/
theorem along_fits {mic_num : Nat} {mics refs : MicIdLst} {cpus : Option MicIdLst}
    (hmics : 0 < mic_num) (hids : ∀ id ∈ mics ++ refs, 0 ≤ id ∧ id < mic_num)
    {u : R2memAecMem F eng} (hnew : new mic_num mics refs cpus = .ok u)
    {pieces : List (List (Instant F))}
    (hlen : ∀ piece ∈ pieces, CInt.Fits
      (4 * (mic_num * ((piece.length + m_iFrmLen_Aec + m_iFrmLen_Out) * 2)) : Nat)) :
    Objects.Along (call mic_num) (fun u piece => u.Fits piece.length) u pieces := by
  let inv : R2memAecMem F eng → Prop := fun u =>
    ∃ pieces outs, Followed (start eng mics refs cpus) mic_num mics refs pieces outs u
  let small : R2memAecMem F eng → List (Instant F) → Prop := fun _ piece => CInt.Fits
    (4 * (mic_num * ((piece.length + m_iFrmLen_Aec + m_iFrmLen_Out) * 2)) : Nat)
  have hfits : ∀ u piece, inv u → small u piece → u.Fits piece.length := by
    rintro u piece ⟨pieces, outs, hu⟩ hpiece -
    obtain ⟨buf, hheld, -⟩ := hu.unit
    -- less than a frame waits on either side
    have hwait : u.unit.m_iLen_In < m_iFrmLen_Aec := by
      rw [hheld.m_iLen_In, (Frames.length_feed (R2memAec.length_frameStep eng mics refs)
        (show (start eng mics refs cpus).waiting.length < _ from (by decide : 0 < m_iFrmLen_Aec))
        pieces.flatten).2]
      exact Nat.mod_lt _ (by decide)
    have hout : u.unit.m_iLen_Out % m_iFrmLen_Out < m_iFrmLen_Out := Nat.mod_lt _ (by decide)
    have hneed : (piece.length + u.unit.m_iLen_In + u.unit.m_iLen_Out % m_iFrmLen_Out) * 2 ≤
        (piece.length + m_iFrmLen_Aec + m_iFrmLen_Out) * 2 := by omega
    have hbytes := Nat.mul_le_mul_left mic_num hneed
    have hone := Nat.le_mul_of_pos_left
      ((piece.length + u.unit.m_iLen_In + u.unit.m_iLen_Out % m_iFrmLen_Out) * 2) hmics
    rw [hu.count]
    simp only [small, CInt.Fits] at hpiece ⊢
    omega
  have hsmall : Objects.Along (call mic_num) small u pieces :=
    Objects.along_of_forall fun _ => hlen
  refine Objects.along_imp inv hfits ?_ ⟨[], [], followed_new hnew⟩ hsmall
  rintro u piece u' out ⟨pieces, outs, hu⟩ hpiece hcall
  obtain ⟨u₁, out₁, hcall₁, hu₁⟩ := hu.call (show 0 < m_iFrmLen_Aec by decide) hids
    (hfits u piece ⟨pieces, outs, hu⟩ hpiece)
  obtain ⟨rfl, rfl⟩ := Prod.mk.inj (Except.ok.inj (hcall₁.symm.trans hcall))
  exact ⟨_, _, hu₁⟩

end R2memAecMem

/-! ### Two ways to cut a stream -/

/-- Both ways to cut a stream go through the beamformer with nothing outside, to
    the same samples, of which there are the whole frames. -/
def R2memBfMem.Recuts {eng : BfEngine F} (mic_num : Nat) (b : R2memBfMem F eng)
    (pieces pieces' : List (List (Instant F))) : Prop :=
  ∃ b₁ outs b₂ outs', Objects.run (call mic_num) b pieces = .ok (b₁, outs) ∧
    Objects.run (call mic_num) b pieces' = .ok (b₂, outs') ∧ outs.flatten = outs'.flatten ∧
    outs.flatten.length = pieces.flatten.length / R2memBf.m_iFrmSize eng * R2memBf.m_iFrmSize eng

/-- The samples that the frames of 256 give in frames of 160. -/
def R2memAec.outputLen (len : Nat) : Nat :=
  len / m_iFrmLen_Aec * m_iFrmLen_Aec / m_iFrmLen_Out * m_iFrmLen_Out

/-- Both ways go through the echo canceller with nothing outside, to the same
    samples of every microphone. -/
def R2memAecMem.Recuts (mic_num : Nat) (u : R2memAecMem F eng)
    (pieces pieces' : List (List (Instant F))) : Prop :=
  ∃ u₁ outs u₂ outs', Objects.run (call mic_num) u pieces = .ok (u₁, outs) ∧
    Objects.run (call mic_num) u pieces' = .ok (u₂, outs') ∧
    (outs.map (·.2.1)).sum = R2memAec.outputLen pieces.flatten.length ∧
    (outs'.map (·.2.1)).sum = R2memAec.outputLen pieces.flatten.length ∧
    ∀ id ∈ u.unit.m_pMicInfo_Aec, outs.flatMap (·.samples id) = outs'.flatMap (·.samples id) ∧
      (outs.flatMap (·.samples id)).length = R2memAec.outputLen pieces.flatten.length

/-- How a stream is cut makes no difference to what the two units put out, and
    nothing is outside, as long as the output that has to grow can be counted by
    an `int`. -/
theorem streams_recut (mic_num : Nat) {pieces pieces' : List (List (Instant F))}
    (hsame : pieces.flatten = pieces'.flatten) :
    (∀ (eng : BfEngine F) (pos : Int → F × F × F) (delay : Int → F) (mics : MicIdLst)
      (b : R2memBfMem F eng), (∀ id ∈ mics, 0 ≤ id ∧ id < mic_num) →
      R2memBfMem.new pos delay mics = .ok b →
      Objects.Along (R2memBfMem.call mic_num) R2memBfMem.Fits b pieces →
      Objects.Along (R2memBfMem.call mic_num) R2memBfMem.Fits b pieces' →
      b.Recuts mic_num pieces pieces') ∧
    (∀ (eng : AecEngine F) (mics refs : MicIdLst) (cpus : Option MicIdLst) (u : R2memAecMem F eng),
      (∀ id ∈ mics ++ refs, 0 ≤ id ∧ id < mic_num) →
      R2memAecMem.new mic_num mics refs cpus = .ok u →
      Objects.Along (R2memAecMem.call mic_num) (fun u piece => u.Fits piece.length) u pieces →
      Objects.Along (R2memAecMem.call mic_num) (fun u piece => u.Fits piece.length) u pieces' →
      u.Recuts mic_num pieces pieces') := by
  constructor
  · intro eng pos delay mics b hids hnew hfits hfits'
    obtain ⟨b₁, outs, hrun, hout⟩ := R2memBfMem.exists_run hids hnew hfits
    obtain ⟨b₂, outs', hrun', hout'⟩ := R2memBfMem.exists_run hids hnew hfits'
    have hlen := (Frames.length_feed (R2memBf.length_frameStep eng mics)
      (h := R2memBfMem.start eng pos delay mics) (R2memBf.m_iFrmSize_pos eng) pieces.flatten).1
    refine ⟨b₁, outs, b₂, outs', hrun, hrun', ?_, ?_⟩
    · rw [hout, hout', hsame]
    · rw [hout, hlen]
      exact congrArg (fun n => n / _ * _) (Nat.zero_add _)
  · intro eng mics refs cpus u hids hnew hfits hfits'
    obtain ⟨u₁, outs, hrun, hdone⟩ := R2memAecMem.exists_run hids hnew hfits
    obtain ⟨u₂, outs', hrun', hdone'⟩ := R2memAecMem.exists_run hids hnew hfits'
    have hlen : (Frames.whole R2memAec.m_iFrmLen_Out (Frames.feed R2memAec.m_iFrmLen_Aec
        (R2memAec.frameStep eng mics refs) (R2memAecMem.start eng mics refs cpus)
        pieces.flatten).2).length = R2memAec.outputLen pieces.flatten.length := by
      have hpos : 0 < R2memAec.m_iFrmLen_Aec := by decide
      have hfed := (Frames.length_feed (R2memAec.length_frameStep eng mics refs)
        (h := R2memAecMem.start eng mics refs cpus) hpos pieces.flatten).1
      rw [Frames.length_whole, hfed]
      show (0 + _) / _ * _ / _ * _ = _
      rw [Nat.zero_add]
      rfl
    refine ⟨u₁, outs, u₂, outs', hrun, hrun', ?_, ?_, ?_⟩
    · rw [hdone.len, hlen]
    · rw [hdone'.len, ← hsame, hlen]
    · intro id hid
      have hmem : id ∈ mics := by
        rw [R2memAecMem.new_eq_ok hnew] at hid
        exact hid
      refine ⟨?_, ?_⟩
      · rw [hdone.out id hmem, hdone'.out id hmem, hsame]
      · rw [hdone.out id hmem, List.length_map, hlen]

/-- A beamformer and an echo canceller that pass on what they hear. -/
def earBf : BfEngine ℚ where
  State := Unit
  create := fun _ _ => ()
  steer := fun h _ _ => h
  process := fun h frames => (h, fun k => (frames.getD 0 []).getD k 0)

def earAec : AecEngine ℚ where
  State := Unit
  create := fun _ _ _ => ()
  buffer_farend := fun h _ => h
  process := fun h samples => (h, fun k => samples.getD k 0, 0)

/-- 640 instants of two channels. -/
def tone : List (Instant ℚ) := (List.range 640).map fun (k : Nat) (id : Int) => (k : ℚ) + id

/-- They are cut in the middle of frames, or at 256 with an empty piece: the
    beamformer gives all of them, the echo canceller two of its frames. -/
theorem streams_recut_tone : ∃ (b : R2memBfMem ℚ earBf) (u : R2memAecMem ℚ earAec),
    R2memBfMem.new (fun _ => (0, 0, 0)) (fun _ => 0) [0, 1] = .ok b ∧
    R2memAecMem.new 2 [0] [1] none = .ok u ∧
    b.Recuts 2 [tone.take 100, tone.drop 100] [tone.take 256, [], tone.drop 256] ∧
    u.Recuts 2 [tone.take 100, tone.drop 100] [tone.take 256, [], tone.drop 256] ∧
    tone.length / R2memBf.m_iFrmSize earBf * R2memBf.m_iFrmSize earBf = 640 ∧
    R2memAec.outputLen tone.length = 480 := by
  have hlen : tone.length = 640 := by rw [tone, List.length_map, List.length_range]
  have hcut : [tone.take 100, tone.drop 100].flatten =
      [tone.take 256, [], tone.drop 256].flatten := by
    simp
  obtain ⟨hbf, haec⟩ := streams_recut 2 hcut
  have hbfNew : (R2memBfMem.new (fun _ => (0, 0, 0)) (fun _ => 0) [0, 1] :
      Except Memory.Fault (R2memBfMem ℚ earBf)) = .ok _ := R2memBfMem.new_of_fits _ _ (by decide)
  have haecNew : (R2memAecMem.new 2 [0] [1] none : Except Memory.Fault (R2memAecMem ℚ earAec)) =
      .ok _ := rfl
  -- every piece fits
  have hbfFits : ∀ piece : List (Instant ℚ), piece.length ≤ 640 →
      CInt.Fits (4 * ((piece.length + R2memBf.m_iFrmSize earBf) * 2) : Nat) := by
    intro piece hpiece
    have hsize : R2memBf.m_iFrmSize earBf = 160 := rfl
    rw [hsize]
    unfold CInt.Fits
    omega
  have haecFits : ∀ piece : List (Instant ℚ), piece.length ≤ 640 → CInt.Fits
      (4 * (2 * ((piece.length + R2memAec.m_iFrmLen_Aec + R2memAec.m_iFrmLen_Out) * 2)) : Nat) := by
    intro piece hpiece
    have hsize : R2memAec.m_iFrmLen_Aec + R2memAec.m_iFrmLen_Out = 416 := rfl
    unfold CInt.Fits
    omega
  have hshort : ∀ piece ∈ [tone.take 100, tone.drop 100], piece.length ≤ 640 := by
    simp [hlen]
  have hshort' : ∀ piece ∈ [tone.take 256, [], tone.drop 256], piece.length ≤ 640 := by
    simp [hlen]
  refine ⟨_, _, hbfNew, haecNew, hbf earBf _ _ [0, 1] _ (by decide) hbfNew ?_ ?_,
    haec earAec [0] [1] none _ (by decide) haecNew ?_ ?_, ?_, ?_⟩
  · exact R2memBfMem.along_fits (by decide) hbfNew fun piece h => hbfFits piece (hshort piece h)
  · exact R2memBfMem.along_fits (by decide) hbfNew fun piece h => hbfFits piece (hshort' piece h)
  · exact R2memAecMem.along_fits (by decide) (by decide) haecNew
      fun piece h => haecFits piece (hshort piece h)
  · exact R2memAecMem.along_fits (by decide) (by decide) haecNew
      fun piece h => haecFits piece (hshort' piece h)
  · rw [hlen]
    decide
  · rw [hlen]
    decide

/-- For a piece of 2 ^ 29 samples the beamformer asks for 2 ^ 32 bytes. -/
theorem long_piece_overflows : ¬ ∀ (mic_num : Nat) (pieces pieces' : List (List (Instant ℚ))),
    pieces.flatten = pieces'.flatten →
    (∀ (eng : BfEngine ℚ) (pos : Int → ℚ × ℚ × ℚ) (delay : Int → ℚ) (mics : MicIdLst)
      (b : R2memBfMem ℚ eng), (∀ id ∈ mics, 0 ≤ id ∧ id < mic_num) →
      R2memBfMem.new pos delay mics = .ok b → b.Recuts mic_num pieces pieces') ∧
    (∀ (eng : AecEngine ℚ) (mics refs : MicIdLst) (cpus : Option MicIdLst) (u : R2memAecMem ℚ eng),
      (∀ id ∈ mics ++ refs, 0 ≤ id ∧ id < mic_num) →
      R2memAecMem.new mic_num mics refs cpus = .ok u →
      u.Recuts mic_num pieces pieces') := by
  intro h
  obtain ⟨piece, hpiece⟩ : ∃ piece : List (Instant ℚ), piece.length = 536870912 :=
    ⟨List.replicate 536870912 fun _ => 0, List.length_replicate⟩
  have hbytes : ¬ CInt.Fits (4 * ((536870912 + 0) * 2) : Nat) := by decide
  have hmore : 536870912 + 0 > R2_AUDIO_SAMPLE_RATE := by decide
  rw [← hpiece] at hbytes hmore
  obtain ⟨hbf, -⟩ := h 1 [piece] [piece] rfl
  obtain ⟨b₁, outs, -, -, hrun, -⟩ := hbf earBf (fun _ => (0, 0, 0)) (fun _ => 0) [0] _ (by decide)
    (R2memBfMem.new_of_fits _ _ (by decide))
  obtain ⟨s, a, as, hcall, -⟩ := Objects.run_cons_eq_ok.mp hrun
  rw [R2memBfMem.call, R2memBfMem.process_overflow hmore hbytes] at hcall
  cases hcall

end BlackSiren

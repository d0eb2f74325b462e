import BlackSiren.Framework.Access
import BlackSiren.Framework.Objects
import BlackSiren.Framework.Ring
import BlackSiren.Legacy.Basic

/-! # `ZAudBuff`

    A ring of samples for each channel, with the copies of `PutAudio` and
    `GetLastAudio` checked.

    - `getLastAudio_eq`: what `GetLastAudio` reads, in all of its cases
    - `putAudio_short` and `putAudio_long`: the two branches of `PutAudio`
    - `Copies`: the chunks for which the long branch, which starts `m_iMicNum`
      instead of `m_iMaxLen` samples before the end, copies the right samples
    - `last_samples_iff`: when the last samples can be read back
-/

namespace BlackSiren

/-- `ZAudBuff`. -/
structure ZAudBuff (F : Type) where
  m_iMicNum : Nat
  m_iMaxLen : Nat
  m_iCurPos : Nat
  m_pAudio : List (Memory.Block F)

namespace ZAudBuff

variable {F : Type} [CFloat F]

/-- The sample of a cleared array. -/
def silence : F := CFloat.ofInt 0

/-- The constructor. `r2_new_ar2` multiplies the sizes as `int`s, and gives a null
    pointer if one of them is zero. -/
def new (iMicNum iMaxLen : Nat) : Except Memory.Fault (ZAudBuff F) := do
  let _ ← Memory.int (4 * iMicNum * iMaxLen)
  return {
    m_iMicNum := iMicNum
    m_iMaxLen := iMaxLen
    m_iCurPos := 0
    m_pAudio := if iMicNum = 0 ∨ iMaxLen = 0 then []
      else List.replicate iMicNum ⟨iMaxLen, fun _ => silence⟩ }

omit [CFloat F] in
/-- `for i < m_iMicNum`, with `m_pAudio[i]`. -/
def eachMic {β : Type} (b : ZAudBuff F) (f : Nat → Memory.Block F → Except Memory.Fault β) :
    Except Memory.Fault (List β) :=
  (List.range b.m_iMicNum).mapM fun (i : Nat) => do
    let row ← Access.read .outside b.m_pAudio i
    f i row

/-- `PutAudio`, with `iLen` samples in every channel of `pAudBuff`. -/
def putAudio (b : ZAudBuff F) (pAudBuff : Nat → Nat → F) (iLen : Nat) :
    Except Memory.Fault (ZAudBuff F) :=
  if iLen ≥ b.m_iMaxLen then do
    let rows ← b.eachMic fun i row =>
      Memory.memcpy row 0 ⟨iLen, pAudBuff i⟩ ((iLen : Int) - b.m_iMicNum) b.m_iMaxLen
    return { b with m_iCurPos := 0, m_pAudio := rows }
  else do
    let len1 := min iLen (b.m_iMaxLen - b.m_iCurPos)
    let rows ← b.eachMic fun i row =>
      Memory.memcpy row b.m_iCurPos ⟨iLen, pAudBuff i⟩ 0 len1
    let b := { b with m_iCurPos := b.m_iCurPos + len1, m_pAudio := rows }
    let b := if b.m_iCurPos = b.m_iMaxLen then { b with m_iCurPos := 0 } else b
    if iLen > len1 then
      let len2 := iLen - len1
      let rows ← b.eachMic fun i row =>
        Memory.memcpy row b.m_iCurPos ⟨iLen, pAudBuff i⟩ len1 len2
      return { b with m_iCurPos := b.m_iCurPos + len2, m_pAudio := rows }
    else return b

/-- The copies of `GetLastAudio`, into an array of `iStart - iEnd` samples for
    every channel. -/
def copyLast (b : ZAudBuff F) (iStart iEnd : Nat) : Except Memory.Fault (List (Memory.Block F)) :=
  let iLen := iStart - iEnd
  let pAudBuff : Memory.Block F := ⟨iLen, fun _ => silence⟩
  if iStart < b.m_iCurPos then
    b.eachMic fun _ row => Memory.memcpy pAudBuff 0 row ((b.m_iCurPos : Int) - iStart) iLen
  else if iEnd > b.m_iCurPos then
    b.eachMic fun _ row =>
      Memory.memcpy pAudBuff 0 row ((b.m_iMaxLen : Int) + b.m_iCurPos - iStart) iLen
  else
    let iLen1 := iStart - b.m_iCurPos
    let iLen2 := b.m_iCurPos - iEnd
    b.eachMic fun _ row => do
      let pAudBuff ← Memory.memcpy pAudBuff 0 row ((b.m_iMaxLen : Int) - iLen1) iLen1
      Memory.memcpy pAudBuff iLen1 row 0 iLen2

/-- `GetLastAudio`. -/
def getLastAudio (b : ZAudBuff F) (iStart iEnd : Nat) : Except Memory.Fault (List (List F)) :=
  if iStart < b.m_iMaxLen ∧ iEnd < b.m_iMaxLen then do
    let rows ← b.copyLast iStart iEnd
    return rows.map fun row => Memory.window row.data 0 (iStart - iEnd)
  else .error .assertion

/-- `Reset`. -/
def reset (b : ZAudBuff F) : Except Memory.Fault (ZAudBuff F) := do
  let rows ← b.eachMic fun _ row =>
    Memory.memcpy row 0 ⟨b.m_iMaxLen, fun _ => silence⟩ 0 b.m_iMaxLen
  return { b with m_pAudio := rows, m_iCurPos := 0 }

end ZAudBuff

/-! ### Runs -/

/-- The calls that change the buffer. -/
inductive ZAudBuffCall (F : Type) where
  | putAudio (pAudBuff : Nat → Nat → F) (iLen : Nat)
  | reset

/-- Everything put since the last `Reset`, channel by channel. -/
def ZAudBuffCall.heard {F : Type} (heard : Nat → List F) : ZAudBuffCall F → Nat → List F
  | .putAudio pAudBuff iLen => fun i => heard i ++ Memory.window (pAudBuff i) 0 iLen
  | .reset => fun _ => []

namespace ZAudBuff

variable {F : Type} [CFloat F]

/-- One call. -/
def call (b : ZAudBuff F) : ZAudBuffCall F → Except Memory.Fault (ZAudBuff F)
  | .putAudio pAudBuff iLen => b.putAudio pAudBuff iLen
  | .reset => b.reset

/-- A call, beside what has been put. -/
def callHeard (s : ZAudBuff F × (Nat → List F)) (c : ZAudBuffCall F) :
    Except Memory.Fault ((ZAudBuff F × (Nat → List F)) × Unit) := do
  let b ← s.1.call c
  return ((b, c.heard s.2), ())

/-- `GetLastAudio` gives the last samples, with zeros before the beginning. -/
def Recalls (s : ZAudBuff F × (Nat → List F)) : Prop :=
  ∀ iStart iEnd, iEnd ≤ iStart → iStart < s.1.m_iMaxLen →
    s.1.getLastAudio iStart iEnd =
      .ok ((List.range s.1.m_iMicNum).map fun i => Ring.recent silence (s.2 i) iStart iEnd)

/-- A chunk that is shorter than the buffer, or of which the last samples are the
    ones in front of which `m_iMicNum - m_iMaxLen` others come. -/
def Copies (b : ZAudBuff F) : ZAudBuffCall F → Prop
  | .putAudio pAudBuff iLen =>
      iLen < b.m_iMaxLen ∨ b.m_iMicNum = 0 ∨
        0 < b.m_iMaxLen ∧ b.m_iMaxLen ≤ b.m_iMicNum ∧ b.m_iMicNum ≤ iLen ∧
          ∀ i < b.m_iMicNum, ∀ k, 1 ≤ k → k < b.m_iMaxLen →
            pAudBuff i (iLen - b.m_iMicNum + (b.m_iMaxLen - k)) = pAudBuff i (iLen - k)
  | .reset => b.m_iMicNum = 0 ∨ 0 < b.m_iMaxLen

/-! ### Reading -/

/-- A row of the length of the buffer for every channel. -/
structure Shaped (b : ZAudBuff F) : Prop where
  length_eq : b.m_pAudio.length = b.m_iMicNum
  size_eq : ∀ row ∈ b.m_pAudio, row.size = b.m_iMaxLen
  cur_lt : b.m_iMaxLen = 0 ∨ b.m_iCurPos < b.m_iMaxLen

omit [CFloat F] in
theorem eachMic_eq {β : Type} {b : ZAudBuff F} (hb : b.m_pAudio.length = b.m_iMicNum)
    {f : Nat → Memory.Block F → Except Memory.Fault β} {g : Nat → Memory.Block F → β}
    (h : ∀ i row, b.m_pAudio[i]? = some row → f i row = .ok (g i row)) :
    b.eachMic f = .ok (b.m_pAudio.mapIdx g) := by
  unfold eachMic
  rw [← hb]
  exact Access.mapM_read h

omit [CFloat F] in
/-- A loop that returns has found every row. -/
theorem eachMic_returns {β : Type} {b : ZAudBuff F}
    {f : Nat → Memory.Block F → Except Memory.Fault β} {rs : List β} (h : b.eachMic f = .ok rs)
    {i : Nat} (hi : i < b.m_iMicNum) : ∃ row r, b.m_pAudio[i]? = some row ∧ f i row = .ok r := by
  obtain ⟨r, -, hr⟩ := Access.getElem?_of_mapM h (List.getElem?_range hi)
  obtain ⟨row, hread, hrow⟩ := Access.bind_eq_ok.mp hr
  exact ⟨row, r, Access.read_eq_ok hread, hrow⟩

omit [CFloat F] in
/-- A loop that does the same for every row. -/
theorem eachMic_map {β γ : Type} {b : ZAudBuff F} (hb : b.m_pAudio.length = b.m_iMicNum)
    {f : Memory.Block F → Except Memory.Fault β} {g : β → γ} {k : Memory.Block F → γ}
    (h : ∀ row ∈ b.m_pAudio, ∃ r, f row = .ok r ∧ g r = k row) :
    ∃ rs, b.eachMic (fun _ row => f row) = .ok rs ∧ rs.map g = b.m_pAudio.map k := by
  have hturn : ∀ i, (hi : i < b.m_pAudio.length) →
      (Access.read Memory.Fault.outside b.m_pAudio (i : Nat) >>= f) = f b.m_pAudio[i] := by
    intro i hi
    unfold Access.read
    rw [if_pos (by omega), Int.toNat_natCast, List.getElem?_eq_getElem hi]
    rfl
  have hreturns : Access.Returns (b.eachMic fun _ row => f row) := by
    apply Access.returns_mapM_iff.mpr
    intro i hi
    have hlt : i < b.m_pAudio.length := by
      rw [hb]
      exact List.mem_range.mp hi
    obtain ⟨r, hr, -⟩ := h _ (List.getElem_mem hlt)
    exact ⟨r, (hturn i hlt).trans hr⟩
  obtain ⟨rs, hrs⟩ := hreturns
  have hlen : rs.length = b.m_pAudio.length := by
    rw [Access.length_of_mapM hrs, List.length_range, hb]
  refine ⟨rs, hrs, List.ext_getElem (by rw [List.length_map, List.length_map, hlen]) ?_⟩
  intro i hi _
  rw [List.length_map, hlen] at hi
  obtain ⟨r, hget, hr⟩ := Access.getElem?_of_mapM hrs (List.getElem?_range (hb ▸ hi))
  obtain ⟨r', hr', hg⟩ := h _ (List.getElem_mem hi)
  rw [hturn i hi, hr'] at hr
  cases hr
  rw [List.getElem_map, List.getElem_map, ← hg, (List.getElem?_eq_some_iff.mp hget).2]

/-- Places that lie one behind the other are copied at once. -/
theorem copyLast_once {b : ZAudBuff F} {row : Memory.Block F} (iStart iEnd pos : Nat)
    (hsize : row.size = b.m_iMaxLen) (hroom : pos + (iStart - iEnd) ≤ b.m_iMaxLen)
    (hback : ∀ j < iStart - iEnd, Ring.back b.m_iMaxLen b.m_iCurPos (iStart - j) = pos + j) :
    ∃ r, Memory.memcpy ⟨iStart - iEnd, fun _ => (silence : F)⟩ 0 row (pos : Nat)
        (iStart - iEnd : Nat) = .ok r ∧
      Memory.window r.data 0 (iStart - iEnd) = (List.range (iStart - iEnd)).map fun j =>
        row.data (Ring.back b.m_iMaxLen b.m_iCurPos (iStart - j)) := by
  have hmem := Memory.memcpy_eq_ok ⟨iStart - iEnd, fun _ => (silence : F)⟩ row 0 pos
    (iStart - iEnd) (by dsimp only; omega) (by omega)
  refine ⟨_, hmem, ?_⟩
  apply List.map_congr_left
  intro j hj
  have hjlt := List.mem_range.mp hj
  rw [hback j hjlt]
  dsimp only
  rw [if_pos (by omega)]
  congr 1
  omega

/-- `GetLastAudio` looks at the places behind the position, wherever the two ends
    of what it reads lie. -/
theorem getLastAudio_eq {b : ZAudBuff F} (hb : b.Shaped) {iStart iEnd : Nat}
    (hle : iEnd ≤ iStart) (hlt : iStart < b.m_iMaxLen) :
    b.getLastAudio iStart iEnd = .ok (b.m_pAudio.map fun row =>
      (List.range (iStart - iEnd)).map fun j =>
        row.data (Ring.back b.m_iMaxLen b.m_iCurPos (iStart - j))) := by
  have hcur : b.m_iCurPos < b.m_iMaxLen := by
    have h := hb.cur_lt
    omega
  have hcopy : ∃ rows, b.copyLast iStart iEnd = .ok rows ∧
      (rows.map fun row => Memory.window row.data 0 (iStart - iEnd)) =
        b.m_pAudio.map fun row => (List.range (iStart - iEnd)).map fun j =>
          row.data (Ring.back b.m_iMaxLen b.m_iCurPos (iStart - j)) := by
    unfold copyLast
    dsimp only
    split
    · next hbefore =>
      -- all of it lies in front of the position
      apply eachMic_map hb.length_eq
      intro row hrow
      have hmem := copyLast_once iStart iEnd (b.m_iCurPos - iStart) (hb.size_eq row hrow)
        (by omega) (by
          intro j hj
          unfold Ring.back
          rw [if_pos (by omega)]
          omega)
      rw [Nat.cast_sub (by omega)] at hmem
      exact hmem
    · next hbefore =>
      split
      · next hafter =>
        -- all of it lies behind the position
        apply eachMic_map hb.length_eq
        intro row hrow
        have hmem := copyLast_once iStart iEnd (b.m_iMaxLen + b.m_iCurPos - iStart)
          (hb.size_eq row hrow) (by omega) (by
            intro j hj
            unfold Ring.back
            rw [if_neg (by omega)]
            omega)
        rw [Nat.cast_sub (by omega), Nat.cast_add] at hmem
        exact hmem
      · next hafter =>
        -- it lies around the end of the row
        apply eachMic_map hb.length_eq
        intro row hrow
        have hsize := hb.size_eq row hrow
        have hfirst := Memory.memcpy_eq_ok ⟨iStart - iEnd, fun _ => (silence : F)⟩ row 0
          (b.m_iMaxLen - (iStart - b.m_iCurPos)) (iStart - b.m_iCurPos) (by dsimp only; omega)
          (by omega)
        rw [Nat.cast_sub (by omega)] at hfirst
        have hsecond := Memory.memcpy_eq_ok ⟨iStart - iEnd, fun k =>
            if 0 ≤ k ∧ k < 0 + (iStart - b.m_iCurPos) then
              row.data (b.m_iMaxLen - (iStart - b.m_iCurPos) + (k - 0)) else silence⟩
          row (iStart - b.m_iCurPos) 0 (b.m_iCurPos - iEnd)
          (by dsimp only; omega) (by omega)
        refine ⟨_, Access.bind_eq_ok.mpr ⟨_, hfirst, hsecond⟩, ?_⟩
        apply List.map_congr_left
        intro j hj
        have hjlt := List.mem_range.mp hj
        unfold Ring.back
        dsimp only
        by_cases hj₁ : j < iStart - b.m_iCurPos
        · rw [if_neg (by omega), if_pos (by omega), if_neg (by omega)]
          congr 1
          omega
        · rw [if_pos (by omega), if_pos (by omega)]
          congr 1
          omega
  obtain ⟨rows, hrows, hmap⟩ := hcopy
  unfold getLastAudio
  rw [if_pos ⟨hlt, by omega⟩, hrows]
  exact congrArg Except.ok hmap

/-- The ring of each channel keeps what has been put. -/
def Keeps (s : ZAudBuff F × (Nat → List F)) : Prop :=
  ∀ i row, s.1.m_pAudio[i]? = some row →
    Ring.Keeps silence s.1.m_iMaxLen s.1.m_iCurPos row.data (s.2 i)

theorem recalls_iff_keeps {s : ZAudBuff F × (Nat → List F)} (hs : s.1.Shaped) :
    Recalls s ↔ Keeps s := by
  have hread : ∀ iStart iEnd, iEnd ≤ iStart → iStart < s.1.m_iMaxLen →
      (s.1.getLastAudio iStart iEnd =
          .ok ((List.range s.1.m_iMicNum).map fun i => Ring.recent silence (s.2 i) iStart iEnd) ↔
        ∀ i row, s.1.m_pAudio[i]? = some row → (List.range (iStart - iEnd)).map (fun j =>
          row.data (Ring.back s.1.m_iMaxLen s.1.m_iCurPos (iStart - j))) =
            Ring.recent silence (s.2 i) iStart iEnd) := by
    intro iStart iEnd hle hlt
    rw [getLastAudio_eq hs hle hlt, Except.ok.injEq]
    constructor
    · intro h i row hrow
      have hi := h ▸ List.getElem?_map (f := fun row : Memory.Block F =>
        (List.range (iStart - iEnd)).map fun j =>
          row.data (Ring.back s.1.m_iMaxLen s.1.m_iCurPos (iStart - j))) (l := s.1.m_pAudio) (i := i)
      have hlen := (List.getElem?_eq_some_iff.mp hrow).1
      rw [hs.length_eq] at hlen
      rw [hrow, List.getElem?_map, List.getElem?_range hlen] at hi
      exact (Option.some.inj hi).symm
    · intro h
      apply List.ext_getElem
      · rw [List.length_map, List.length_map, List.length_range, hs.length_eq]
      · intro i hi _
        rw [List.length_map] at hi
        rw [List.getElem_map, List.getElem_map, List.getElem_range]
        exact h i _ (List.getElem?_eq_getElem hi)
  constructor
  · intro h i row hrow
    apply Ring.keeps_iff_recent.mpr
    intro iStart iEnd hle hlt
    exact (hread iStart iEnd hle hlt).mp (h iStart iEnd hle hlt) i row hrow
  · intro h iStart iEnd hle hlt
    apply (hread iStart iEnd hle hlt).mpr
    intro i row hrow
    exact Ring.keeps_iff_recent.mp (h i row hrow) iStart iEnd hle hlt

/-! ### Writing -/

omit [CFloat F] in
/-- A loop of copies, of which the rows keep their length. -/
theorem eachMic_memcpy {b : ZAudBuff F} (hb : b.Shaped) {d n : Nat} (hd : d + n ≤ b.m_iMaxLen)
    (src : Nat → Memory.Block F) {s : Nat} (hs : ∀ i, s + n ≤ (src i).size) :
    b.eachMic (fun i row => Memory.memcpy row d (src i) s n) =
      .ok (b.m_pAudio.mapIdx fun i row => ⟨row.size, fun k =>
        if d ≤ k ∧ k < d + n then (src i).data (s + (k - d)) else row.data k⟩) := by
  apply eachMic_eq hb.length_eq
  intro i row hrow
  have hsize := hb.size_eq row (List.mem_of_getElem? hrow)
  exact Memory.memcpy_eq_ok _ _ d s n (by omega) (hs i)

omit [CFloat F] in
theorem Shaped.mapIdx {b : ZAudBuff F} (hb : b.Shaped) (data : Nat → Memory.Block F → Nat → F)
    {cur : Nat} (hcur : b.m_iMaxLen = 0 ∨ cur < b.m_iMaxLen) :
    ({ b with m_iCurPos := cur, m_pAudio := b.m_pAudio.mapIdx fun i row => ⟨row.size, data i row⟩ } :
      ZAudBuff F).Shaped := by
  refine ⟨?_, ?_, hcur⟩
  · exact List.length_mapIdx.trans hb.length_eq
  · intro row hrow
    obtain ⟨i, hi, rfl⟩ := List.mem_mapIdx.mp hrow
    show b.m_pAudio[i].size = b.m_iMaxLen
    exact hb.size_eq _ (List.getElem_mem hi)

omit [CFloat F] in
/-- A chunk that is shorter than the buffer is written from the position on, and
    around the end. -/
theorem putAudio_short {b : ZAudBuff F} (hb : b.Shaped) {iLen : Nat} (hlt : iLen < b.m_iMaxLen)
    (pAudBuff : Nat → Nat → F) :
    b.putAudio pAudBuff iLen = .ok { b with
      m_iCurPos := Ring.ahead b.m_iMaxLen b.m_iCurPos iLen
      m_pAudio := b.m_pAudio.mapIdx fun i row => ⟨row.size, fun k =>
        if k < b.m_iCurPos + iLen - b.m_iMaxLen then
          pAudBuff i (b.m_iMaxLen - b.m_iCurPos + k)
        else if b.m_iCurPos ≤ k ∧ k < b.m_iCurPos + min iLen (b.m_iMaxLen - b.m_iCurPos) then
          pAudBuff i (k - b.m_iCurPos)
        else row.data k⟩ } := by
  have hcur : b.m_iCurPos < b.m_iMaxLen := by
    have h := hb.cur_lt
    omega
  have hfirst := eachMic_memcpy hb (d := b.m_iCurPos) (n := min iLen (b.m_iMaxLen - b.m_iCurPos))
    (s := 0) (by omega) (fun i => ⟨iLen, pAudBuff i⟩) (fun i => by dsimp only; omega)
  unfold putAudio
  rw [if_neg (by omega)]
  dsimp only
  refine Access.bind_eq_ok.mpr ⟨_, hfirst, ?_⟩
  by_cases hwrap : iLen ≤ b.m_iMaxLen - b.m_iCurPos
  · -- one copy is enough
    rw [Nat.min_eq_left hwrap, if_neg (by omega)]
    have hpos : (if b.m_iCurPos + iLen = b.m_iMaxLen then 0 else b.m_iCurPos + iLen) =
        Ring.ahead b.m_iMaxLen b.m_iCurPos iLen := by
      unfold Ring.ahead
      split <;> split <;> omega
    have hnone : ∀ k, ¬ k < b.m_iCurPos + iLen - b.m_iMaxLen := by omega
    simp only [hnone, if_false, ← hpos, Nat.zero_add]
    by_cases hend : b.m_iCurPos + iLen = b.m_iMaxLen
    · rw [if_pos hend, if_pos hend]
      rfl
    · rw [if_neg hend, if_neg hend]
      rfl
  · rw [Nat.min_eq_right (by omega), if_pos (by omega), if_pos (by omega)]
    have hshape := hb.mapIdx (fun i row k =>
      if b.m_iCurPos ≤ k ∧ k < b.m_iCurPos + (b.m_iMaxLen - b.m_iCurPos) then
        pAudBuff i (0 + (k - b.m_iCurPos)) else row.data k)
      (show b.m_iMaxLen = 0 ∨ 0 < b.m_iMaxLen by omega)
    have hsecond := eachMic_memcpy hshape (d := 0)
      (n := iLen - (b.m_iMaxLen - b.m_iCurPos)) (s := b.m_iMaxLen - b.m_iCurPos)
      (by show _ ≤ b.m_iMaxLen; omega) (fun i => ⟨iLen, pAudBuff i⟩) (fun i => by dsimp only; omega)
    refine Access.bind_eq_ok.mpr ⟨_, hsecond, ?_⟩
    have hpos : 0 + (iLen - (b.m_iMaxLen - b.m_iCurPos)) =
        Ring.ahead b.m_iMaxLen b.m_iCurPos iLen := by
      unfold Ring.ahead
      split <;> omega
    have hlen : b.m_iCurPos + iLen - b.m_iMaxLen =
        0 + (iLen - (b.m_iMaxLen - b.m_iCurPos)) := by omega
    rw [List.mapIdx_mapIdx, hpos, hlen, ← hpos]
    simp only [Nat.zero_le, true_and, Nat.zero_add, Nat.sub_zero, Function.comp_def]
    rfl

omit [CFloat F] in
/-- A chunk that is longer is copied from `m_iMicNum` samples before its end, as
    far as that is inside the chunk. -/
theorem putAudio_long {b : ZAudBuff F} (hb : b.Shaped) {iLen : Nat} (hle : b.m_iMaxLen ≤ iLen)
    (hinside : b.m_iMicNum = 0 ∨ b.m_iMaxLen ≤ b.m_iMicNum ∧ b.m_iMicNum ≤ iLen)
    (pAudBuff : Nat → Nat → F) :
    b.putAudio pAudBuff iLen = .ok { b with
      m_iCurPos := 0
      m_pAudio := b.m_pAudio.mapIdx fun i row => ⟨row.size, fun k =>
        if k < b.m_iMaxLen then pAudBuff i (iLen - b.m_iMicNum + k) else row.data k⟩ } := by
  have hcopy : (b.eachMic fun i row =>
      Memory.memcpy row 0 ⟨iLen, pAudBuff i⟩ ((iLen : Int) - b.m_iMicNum) b.m_iMaxLen) =
        .ok (b.m_pAudio.mapIdx fun i row => ⟨row.size, fun k =>
          if k < b.m_iMaxLen then pAudBuff i (iLen - b.m_iMicNum + k) else row.data k⟩) := by
    apply eachMic_eq hb.length_eq
    intro i row hrow
    have hsize := hb.size_eq row (List.mem_of_getElem? hrow)
    have hlt := (List.getElem?_eq_some_iff.mp hrow).1
    rw [hb.length_eq] at hlt
    have hmem := Memory.memcpy_eq_ok row ⟨iLen, pAudBuff i⟩ 0 (iLen - b.m_iMicNum) b.m_iMaxLen
      (by omega) (by dsimp only; omega)
    rw [Nat.cast_sub (by omega)] at hmem
    simp only [Nat.zero_le, true_and, Nat.zero_add, Nat.sub_zero] at hmem
    exact hmem
  unfold putAudio
  rw [if_pos hle, hcopy]
  rfl

omit [CFloat F] in
/-- Otherwise the copy leaves the chunk, or there is no row to copy to. -/
theorem putAudio_long_returns {b b' : ZAudBuff F} {iLen : Nat} (hle : b.m_iMaxLen ≤ iLen)
    {pAudBuff : Nat → Nat → F} (h : b.putAudio pAudBuff iLen = .ok b') (hmic : 0 < b.m_iMicNum) :
    b.m_pAudio ≠ [] ∧ b.m_iMaxLen ≤ b.m_iMicNum ∧ b.m_iMicNum ≤ iLen := by
  unfold putAudio at h
  rw [if_pos hle] at h
  obtain ⟨rows, hrows, -⟩ := Access.bind_eq_ok.mp h
  obtain ⟨row, r, hrow, hcopy⟩ := eachMic_returns hrows hmic
  obtain ⟨⟨-, hsrc⟩, -⟩ := Memory.memcpy_eq_ok_iff.mp hcopy
  obtain ⟨hlo, -, hhi⟩ := hsrc
  refine ⟨?_, ?_, ?_⟩
  · intro hnil
    rw [hnil] at hrow
    cases hrow
  · dsimp only at hhi
    omega
  · omega

omit [CFloat F] in
theorem getElem?_mapIdx_eq_some {b : ZAudBuff F} {g : Nat → Memory.Block F → Memory.Block F}
    {i : Nat} {row' : Memory.Block F} (h : (b.m_pAudio.mapIdx g)[i]? = some row') :
    ∃ row, b.m_pAudio[i]? = some row ∧ row' = g i row := by
  rw [List.getElem?_mapIdx] at h
  obtain ⟨row, hrow, hg⟩ := Option.map_eq_some_iff.mp h
  exact ⟨row, hrow, hg.symm⟩

/-- What a short chunk leaves. -/
theorem Keeps.putAudio_short {s : ZAudBuff F × (Nat → List F)} (hb : s.1.Shaped) (hs : Keeps s)
    {iLen : Nat} (hlt : iLen < s.1.m_iMaxLen) (pAudBuff : Nat → Nat → F) :
    ∃ b, s.1.putAudio pAudBuff iLen = .ok b ∧ b.m_iMicNum = s.1.m_iMicNum ∧
      b.m_iMaxLen = s.1.m_iMaxLen ∧ b.Shaped ∧
        Keeps (b, (ZAudBuffCall.putAudio pAudBuff iLen).heard s.2) := by
  have hcur : s.1.m_iCurPos < s.1.m_iMaxLen := by
    have h := hb.cur_lt
    omega
  refine ⟨_, ZAudBuff.putAudio_short hb hlt pAudBuff, rfl, rfl, hb.mapIdx _ ?_, ?_⟩
  · unfold Ring.ahead
    split <;> omega
  · intro i row' hrow'
    obtain ⟨row, hrow, rfl⟩ := getElem?_mapIdx_eq_some hrow'
    have hlen : (Memory.window (pAudBuff i) 0 iLen).length = iLen := Memory.length_window
    have hput := (hs i row hrow).put (c := Memory.window (pAudBuff i) 0 iLen)
      (fun k =>
        if k < s.1.m_iCurPos + iLen - s.1.m_iMaxLen then
          pAudBuff i (s.1.m_iMaxLen - s.1.m_iCurPos + k)
        else if s.1.m_iCurPos ≤ k ∧
            k < s.1.m_iCurPos + min iLen (s.1.m_iMaxLen - s.1.m_iCurPos) then
          pAudBuff i (k - s.1.m_iCurPos)
        else row.data k)
      hcur (by rw [hlen]; exact hlt)
      (by
        intro j hj
        rw [List.getD_eq_getElem _ _ hj, Memory.getElem_window, Nat.zero_add]
        rw [hlen] at hj
        unfold Ring.ahead
        by_cases hwrap : s.1.m_iCurPos + j < s.1.m_iMaxLen
        · rw [if_pos hwrap, if_neg (by omega), if_pos (by omega), Nat.add_sub_cancel_left]
        · rw [if_neg hwrap, if_pos (by omega)]
          congr 1
          omega)
      (by
        intro p hp
        rw [hlen] at hp
        -- a place that is written is one of the places ahead
        rw [if_neg, if_neg]
        · intro hin
          refine hp (p - s.1.m_iCurPos) (by omega) ?_
          unfold Ring.ahead
          rw [if_pos (by omega)]
          omega
        · intro hin
          refine hp (p + s.1.m_iMaxLen - s.1.m_iCurPos) (by omega) ?_
          unfold Ring.ahead
          rw [if_neg (by omega)]
          omega)
    rw [hlen] at hput
    exact hput

/-- What a long chunk leaves keeps the last samples if they are among those that
    are copied to the end. -/
theorem keeps_putAudio_long_iff {b : ZAudBuff F} (hb : b.Shaped) {iLen : Nat}
    (hle : b.m_iMaxLen ≤ iLen) (pAudBuff : Nat → Nat → F) (heard : Nat → List F) :
    Keeps ({ b with
      m_iCurPos := 0
      m_pAudio := b.m_pAudio.mapIdx fun i row => ⟨row.size, fun k =>
        if k < b.m_iMaxLen then pAudBuff i (iLen - b.m_iMicNum + k) else row.data k⟩ },
          (ZAudBuffCall.putAudio pAudBuff iLen).heard heard) ↔
      ∀ i < b.m_iMicNum, ∀ k, 1 ≤ k → k < b.m_iMaxLen →
        pAudBuff i (iLen - b.m_iMicNum + (b.m_iMaxLen - k)) = pAudBuff i (iLen - k) := by
  have hring : ∀ i (row : Nat → F), Ring.Keeps silence b.m_iMaxLen 0 (fun k =>
      if k < b.m_iMaxLen then pAudBuff i (iLen - b.m_iMicNum + k) else row k)
        (heard i ++ Memory.window (pAudBuff i) 0 iLen) ↔
      ∀ k, 1 ≤ k → k < b.m_iMaxLen →
        pAudBuff i (iLen - b.m_iMicNum + (b.m_iMaxLen - k)) = pAudBuff i (iLen - k) := by
    intro i row
    have hlen : (Memory.window (pAudBuff i) 0 iLen).length = iLen := Memory.length_window
    rw [Ring.keeps_fill_iff (by rw [hlen]; exact hle)]
    refine forall_congr' fun k => forall_congr' fun hk => forall_congr' fun hkm => ?_
    rw [if_pos (by omega), hlen, List.getD_eq_getElem _ _ (by rw [hlen]; omega),
      Memory.getElem_window, Nat.zero_add]
  constructor
  · intro h i hi
    have hlt : i < b.m_pAudio.length := by
      rw [hb.length_eq]
      exact hi
    refine (hring i b.m_pAudio[i].data).mp (h i ⟨b.m_pAudio[i].size, fun k =>
      if k < b.m_iMaxLen then pAudBuff i (iLen - b.m_iMicNum + k) else b.m_pAudio[i].data k⟩ ?_)
    rw [List.getElem?_mapIdx, List.getElem?_eq_getElem hlt]
    rfl
  · intro h i row' hrow'
    obtain ⟨row, hrow, rfl⟩ := getElem?_mapIdx_eq_some hrow'
    have hlt := (List.getElem?_eq_some_iff.mp hrow).1
    rw [hb.length_eq] at hlt
    exact (hring i row.data).mpr (h i hlt)

/-- `Reset` clears the rows. -/
theorem reset_eq {b : ZAudBuff F} (hb : b.Shaped) :
    ∃ b', b.reset = .ok b' ∧ b'.m_iMicNum = b.m_iMicNum ∧ b'.m_iMaxLen = b.m_iMaxLen ∧
      b'.Shaped ∧ Keeps (b', fun _ => []) := by
  have hcopy := eachMic_memcpy hb (d := 0) (n := b.m_iMaxLen) (s := 0) (by omega)
    (fun _ => ⟨b.m_iMaxLen, fun _ => (silence : F)⟩) (fun _ => by dsimp only; omega)
  refine ⟨_, Access.bind_eq_ok.mpr ⟨_, hcopy, rfl⟩, rfl, rfl, hb.mapIdx _ (by omega), ?_⟩
  intro i row' hrow'
  obtain ⟨row, hrow, rfl⟩ := getElem?_mapIdx_eq_some hrow'
  intro k hk hkm
  change k < b.m_iMaxLen at hkm
  have hback : Ring.back b.m_iMaxLen 0 k < b.m_iMaxLen := by
    unfold Ring.back
    rw [if_neg (by omega)]
    omega
  show (if 0 ≤ Ring.back b.m_iMaxLen 0 k ∧ Ring.back b.m_iMaxLen 0 k < 0 + b.m_iMaxLen then
    silence else row.data _) = _
  rw [if_pos (by omega), Ring.past_nil]

/-! ### Runs -/

/-- No array: the length is zero, and the first access is outside. -/
structure Null (b : ZAudBuff F) : Prop where
  iMaxLen : b.m_iMaxLen = 0
  iMicNum : 0 < b.m_iMicNum
  pAudio : b.m_pAudio = []

/-- The state along a run. -/
def Sound (s : ZAudBuff F × (Nat → List F)) : Prop :=
  s.1.Null ∨ s.1.Shaped ∧ Keeps s ∧ (s.1.m_iMicNum = 0 ∨ 0 < s.1.m_iMaxLen)

theorem sound_new {iMicNum iMaxLen : Nat} {b : ZAudBuff F} (h : new iMicNum iMaxLen = .ok b) :
    Sound (b, fun _ => []) := by
  unfold new at h
  obtain ⟨_, -, h⟩ := Access.bind_eq_ok.mp h
  cases h
  by_cases hnone : iMicNum = 0 ∨ iMaxLen = 0
  · rw [if_pos hnone]
    by_cases hmic : iMicNum = 0
    · refine .inr ⟨⟨hmic.symm, by simp, Nat.eq_zero_or_pos iMaxLen⟩, ?_, .inl hmic⟩
      intro i row hrow
      cases hrow
    · exact .inl ⟨hnone.resolve_left hmic, Nat.pos_of_ne_zero hmic, rfl⟩
  · rw [if_neg hnone]
    refine .inr ⟨⟨List.length_replicate, ?_, ?_⟩, ?_, .inr (Nat.pos_of_ne_zero ?_)⟩
    · intro row hrow
      rw [List.eq_of_mem_replicate hrow]
    · exact Nat.eq_zero_or_pos iMaxLen
    · intro i row hrow
      rw [List.eq_of_mem_replicate (List.mem_of_getElem? hrow)]
      exact Ring.keeps_nil _ _
    · intro hmax
      exact hnone (.inr hmax)

theorem Sound.recalls {s : ZAudBuff F × (Nat → List F)} (hs : Sound s) : Recalls s := by
  rcases hs with hnull | ⟨hshape, hkeeps, -⟩
  · intro iStart iEnd _ hlt
    rw [hnull.iMaxLen] at hlt
    omega
  · exact (recalls_iff_keeps hshape).mpr hkeeps

omit [CFloat F] in
/-- Without an array no loop returns. -/
theorem Null.eachMic {β : Type} {b : ZAudBuff F} (hb : b.Null)
    {f : Nat → Memory.Block F → Except Memory.Fault β} {rs : List β} : b.eachMic f ≠ .ok rs := by
  intro h
  obtain ⟨row, _, hrow, -⟩ := eachMic_returns h hb.iMicNum
  rw [hb.pAudio] at hrow
  cases hrow

theorem Null.call {b b' : ZAudBuff F} (hb : b.Null) {c : ZAudBuffCall F} : b.call c ≠ .ok b' := by
  intro h
  cases c with
  | putAudio pAudBuff iLen =>
    have hle : b.m_iMaxLen ≤ iLen := by
      rw [hb.iMaxLen]
      exact Nat.zero_le iLen
    exact (putAudio_long_returns hle h hb.iMicNum).1 hb.pAudio
  | reset =>
    obtain ⟨_, hrows, -⟩ := Access.bind_eq_ok.mp h
    exact hb.eachMic hrows

omit [CFloat F] in
theorem Null.not_copies {b : ZAudBuff F} (hb : b.Null) (c : ZAudBuffCall F) : ¬ b.Copies c := by
  obtain ⟨hlen, hmic, -⟩ := hb
  intro h
  cases c with
  | putAudio pAudBuff iLen => rcases h with h | h | ⟨h, -⟩ <;> omega
  | reset => rcases h with h | h <;> omega

/-- A chunk of the right kind is put, and the last samples are kept. -/
theorem Sound.call {s : ZAudBuff F × (Nat → List F)} (hs : Sound s) {c : ZAudBuffCall F}
    (hc : s.1.Copies c) : ∃ b, s.1.call c = .ok b ∧ Sound (b, c.heard s.2) := by
  rcases hs with hnull | ⟨hshape, hkeeps, hlen⟩
  · exact absurd hc (hnull.not_copies c)
  cases c with
  | putAudio pAudBuff iLen =>
    by_cases hlt : iLen < s.1.m_iMaxLen
    · obtain ⟨b, hput, hmic, hmax, hshape', hkeeps'⟩ := hkeeps.putAudio_short hshape hlt pAudBuff
      exact ⟨b, hput, .inr ⟨hshape', hkeeps', by rw [hmic, hmax]; exact hlen⟩⟩
    · have hcond := hc.resolve_left hlt
      have hle : s.1.m_iMaxLen ≤ iLen := by omega
      refine ⟨_, putAudio_long hshape hle (hcond.imp_right fun h => ⟨h.2.1, h.2.2.1⟩) pAudBuff,
        .inr ⟨hshape.mapIdx _ (by omega), ?_, hlen⟩⟩
      apply (keeps_putAudio_long_iff hshape hle pAudBuff s.2).mpr
      rcases hcond with hmic | ⟨-, -, -, hsame⟩
      · intro i hi
        omega
      · exact hsame
  | reset =>
    obtain ⟨b, hreset, hmic, hmax, hshape', hkeeps'⟩ := reset_eq hshape
    exact ⟨b, hreset, .inr ⟨hshape', hkeeps', by rw [hmic, hmax]; exact hlen⟩⟩

/-- In a sound state a call leaves the last samples to be read back exactly if
    its chunk is of the right kind. -/
theorem Sound.copies_iff {s : ZAudBuff F × (Nat → List F)} (hs : Sound s) (c : ZAudBuffCall F) :
    (∃ b, s.1.call c = .ok b ∧ Recalls (b, c.heard s.2)) ↔ s.1.Copies c := by
  constructor
  · rintro ⟨b, hcall, hrecalls⟩
    rcases hs with hnull | ⟨hshape, -, hlen⟩
    · exact absurd hcall hnull.call
    cases c with
    | putAudio pAudBuff iLen =>
      by_cases hlt : iLen < s.1.m_iMaxLen
      · exact .inl hlt
      by_cases hmic : s.1.m_iMicNum = 0
      · exact .inr (.inl hmic)
      have hle : s.1.m_iMaxLen ≤ iLen := by omega
      obtain ⟨-, hfew, hmany⟩ := putAudio_long_returns hle hcall (Nat.pos_of_ne_zero hmic)
      have hput := putAudio_long hshape hle (.inr ⟨hfew, hmany⟩) pAudBuff
      obtain rfl := Except.ok.inj (hput.symm.trans hcall)
      refine .inr (.inr ⟨hlen.resolve_left hmic, hfew, hmany, ?_⟩)
      apply (keeps_putAudio_long_iff hshape hle pAudBuff s.2).mp
      exact (recalls_iff_keeps (hshape.mapIdx _ (by omega))).mp hrecalls
    | reset => exact hlen
  · intro hc
    obtain ⟨b, hcall, hsound⟩ := hs.call hc
    exact ⟨b, hcall, hsound.recalls⟩

/-- A new buffer, and the buffer after each of a sequence of calls that return,
    gives the last samples exactly if every chunk that is not shorter than the
    buffer is of the right kind. -/
theorem last_samples_iff {iMicNum iMaxLen : Nat} {b : ZAudBuff F}
    (h : new iMicNum iMaxLen = .ok b) (calls : List (ZAudBuffCall F)) :
    (Recalls (b, fun _ => []) ∧ Objects.Along callHeard
        (fun s c => ∃ b', s.1.call c = .ok b' ∧ Recalls (b', c.heard s.2)) (b, fun _ => []) calls) ↔
      Objects.Along callHeard (fun s c => s.1.Copies c) (b, fun _ => []) calls := by
  have halong : Objects.Along callHeard _ _ calls ↔ Objects.Along callHeard _ _ calls :=
    Objects.along_iff Sound
    (fun s c hs => hs.copies_iff c)
    (by
      intro s c s' a hs hc hcall
      obtain ⟨b', hb', hsound⟩ := hs.call hc
      unfold callHeard at hcall
      rw [hb'] at hcall
      cases hcall
      exact hsound)
    (sound_new h)
  rw [halong]
  exact and_iff_right (sound_new h).recalls

/-- A sample, and then more than fit, in one channel of two places. -/
theorem last_samples_iff_one_channel :
    (Recalls ((⟨1, 2, 0, [⟨2, fun _ => silence⟩]⟩ : ZAudBuff ℚ), fun _ => []) ∧
      Objects.Along callHeard
        (fun s c => ∃ b', s.1.call c = .ok b' ∧ Recalls (b', c.heard s.2))
        (⟨1, 2, 0, [⟨2, fun _ => silence⟩]⟩, fun _ => [])
        [.putAudio (fun _ _ => (5 : ℚ)) 1, .putAudio (fun _ k => (k : ℚ)) 3]) ↔
      Objects.Along callHeard (fun s c => s.1.Copies c)
        (⟨1, 2, 0, [⟨2, fun _ => silence⟩]⟩, fun _ => [])
        [.putAudio (fun _ _ => (5 : ℚ)) 1, .putAudio (fun _ k => (k : ℚ)) 3] :=
  last_samples_iff (show new 1 2 = .ok ⟨1, 2, 0, [⟨2, fun _ => silence⟩]⟩ from rfl) _

/-- Two samples for one channel of two places: the copy of two samples starts
    one sample before the end. -/
theorem long_chunk_outside : ¬ ∀ (iMicNum iMaxLen : Nat) (b : ZAudBuff ℚ),
    new iMicNum iMaxLen = .ok b → ∀ calls : List (ZAudBuffCall ℚ),
      Recalls (b, fun _ => []) ∧ Objects.Along callHeard
        (fun s c => ∃ b', s.1.call c = .ok b' ∧ Recalls (b', c.heard s.2)) (b, fun _ => []) calls := by
  intro h
  obtain ⟨-, ⟨b', hcall, -⟩, -⟩ := h 1 2 _ rfl [.putAudio (fun _ k => (k : ℚ)) 2]
  cases hcall

end ZAudBuff

end BlackSiren

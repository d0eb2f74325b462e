import BlackSiren.Framework.Variance
import BlackSiren.Legacy.RdcAlign
import BlackSiren.Neo.SirenMic

/-! # `MicStatus`: the check of the microphones, once more

    `MicStatus::putData` and `r2mem_rdc::process` make the same test: they take the
    first samples of every microphone and call it broken if these deviate too much
    from their mean.  A small term keeps the root away from zero.  The new test takes
    the square of the mean and this term from the mean of the squares; the old one
    adds the term.

    - `MicStatus`, with `reset` and `putData`
    - `Surd`: values with which what is under a root can be read
    - `Alike`: what is wanted of the two
    - `alike_iff`: when it is so
    - `roots`: the old test always has a root to take; when the new one has
    - `sameVerdict_iff`: when at least the verdicts agree
-/

namespace BlackSiren

/-- `mic_state`. -/
inductive MicState where
  | MIC_NOT_TEST
  | MIC_TEST_OK
  | MIC_TEST_FAILED
  | MIC_ERROR
  | BUFFER_AGAIN
  | BUFFER_FINISH
  | BUFFER_ERROR
  deriving DecidableEq, Repr

/-- `MicStatus`; the lists hold one entry for each of `micNum` microphones. -/
structure MicStatus (F D : Type) where
  micNum : Nat
  maxCheckLen : Int
  currentLen : Int
  check : List F
  checkVar : List D
  micOK : List MicState
  format : PCMFormat

namespace MicStatus

variable {F D : Type} [CFloat F] [CDouble F D]

/-- The channels of the microphones. -/
def ids (s : MicStatus F D) : MicIdLst := s.format.channelList.take s.micNum

def reset (s : MicStatus F D) : MicStatus F D :=
  { s with
    check := List.replicate s.micNum (CFloat.ofInt 0)
    checkVar := List.replicate s.micNum (CDouble.ofRat F 0)
    micOK := List.replicate s.micNum .MIC_NOT_TEST
    currentLen := 0 }

/-- The sums over the first `cur` samples. -/
def collect (s : MicStatus F D) (formatData : Chan F) (cur : Int) : MicStatus F D :=
  { s with
    check := List.zipWith (fun id sum => (List.range cur.toNat).foldl (fun sum j =>
      CDouble.addFloat D sum (formatData id j)) sum) s.ids s.check
    checkVar := List.zipWith (fun id sum => (List.range cur.toNat).foldl (fun sum j =>
      CDouble.add F sum (CDouble.ofFloat (CFloat.mul (formatData id j) (formatData id j)))) sum)
      s.ids s.checkVar
    currentLen := s.currentLen + cur }

/-- Mean, deviation and verdict. -/
def judge (s : MicStatus F D) : MicStatus F D :=
  let mean := s.check.map fun sum => CFloat.div sum (CFloat.ofInt s.maxCheckLen)
  let dev := List.zipWith (fun sum mean =>
    CDouble.sqrt F (CDouble.sub F (CDouble.div F sum (CDouble.ofRat F s.maxCheckLen))
      (CDouble.ofFloat (CDouble.addFloat D (CFloat.mul mean mean) (CFloat.ofRat (1 / 10))))))
    s.checkVar mean
  { s with
    currentLen := s.maxCheckLen
    check := mean
    checkVar := dev
    micOK := dev.map fun v =>
      if CDouble.lt F (CDouble.ofRat F 200000) v then .MIC_TEST_FAILED else .MIC_TEST_OK }

def putData (s : MicStatus F D) (formatData : Option (Chan F)) (len : Int) :
    MicStatus F D × MicState :=
  match formatData with
  | none => (s, .BUFFER_ERROR)
  | some formatData =>
      if len ≤ 0 then (s, .BUFFER_ERROR)
      else
        let needLen := s.maxCheckLen - s.currentLen
        if needLen ≤ 0 then ({ s with currentLen := s.maxCheckLen }, .BUFFER_FINISH)
        else
          let cur := if len > needLen then needLen else len
          let s := s.collect formatData cur
          if s.currentLen ≥ s.maxCheckLen then (s.judge, .BUFFER_FINISH)
          else (s, .BUFFER_AGAIN)

end MicStatus

/-- `r2mem_rdc::reset`. -/
def R2memRdc.reset {F D : Type} [CFloat F] [CDouble F D] (u : R2memRdc F D) : R2memRdc F D :=
  { u with
    m_pRDc := u.m_pMicInfo_Rdc.map fun _ => CFloat.ofInt 0
    m_pRDc_Var := u.m_pMicInfo_Rdc.map fun _ => CDouble.ofRat F 0
    m_iCurLen := 0 }

/-! ### Exact values -/

/-- A rational or the square root of one. A negative one has no root. -/
inductive Surd where
  | rat (q : ℚ)
  | root (q : ℚ)
  deriving DecidableEq

namespace Surd

/-- The rational. Nothing is done with a root but to compare it. -/
def arg : Surd → ℚ
  | rat q => q
  | root q => q

/-- The order; what has no value is not above anything. -/
def lt : Surd → Surd → Bool
  | rat a, rat b => decide (a < b)
  | rat a, root b => decide (0 ≤ b ∧ (a < 0 ∨ a * a < b))
  | root a, rat b => decide (0 ≤ a ∧ 0 < b ∧ a < b * b)
  | root a, root b => decide (0 ≤ a ∧ a < b)

end Surd

/-- Exact rationals, with roots that keep what they are the root of. -/
instance : CDouble ℚ Surd where
  addFloat := (· + ·)
  ofFloat := .rat
  ofRat := .rat
  add := fun x y => .rat (x.arg + y.arg)
  sub := fun x y => .rat (x.arg - y.arg)
  div := fun x y => .rat (x.arg / y.arg)
  sqrt := fun x => .root x.arg
  lt := Surd.lt

/-! ### What is wanted -/

namespace MicStatus

open R2memRdc (Chunk)

/-- Both tests are given the same chunk. -/
def feed (p : MicStatus ℚ Surd × R2memRdc ℚ Surd) (c : Chunk ℚ) :
    MicStatus ℚ Surd × R2memRdc ℚ Surd :=
  ((p.1.putData (some c.data) c.len).1, (p.2.process c.data c.len).1)

/-- The check window is full. -/
def Finished (s : MicStatus ℚ Surd) : Prop := 0 < s.maxCheckLen ∧ s.maxCheckLen ≤ s.currentLen

instance (s : MicStatus ℚ Surd) : Decidable s.Finished := inferInstanceAs (Decidable (_ ∧ _))

/-- At the end of the check window what the new test takes the root of is not negative
    and is what the old one takes the root of; and both call the same microphones
    broken. -/
def Alike (p : MicStatus ℚ Surd × R2memRdc ℚ Surd) : Prop :=
  p.1.Finished → ∀ i < p.1.micNum, ∃ q, p.1.checkVar[i]? = some (.root q) ∧ 0 ≤ q ∧
    p.2.m_pRDc_Var[i]? = some (.root q) ∧
    (p.1.micOK[i]? = some .MIC_TEST_FAILED ↔ p.2.m_bMicOk[i]? = some false)

/-- The two look at the same channels, for as many samples. -/
structure Paired (s : MicStatus ℚ Surd) (u : R2memRdc ℚ Surd) : Prop where
  channels : s.micNum ≤ s.format.channelList.length
  mics : u.m_pMicInfo_Rdc = s.ids
  window : s.maxCheckLen = u.m_iMaxLen

/-! ### The sums -/

section Rows

variable {F D : Type} [CFloat F] [CDouble F D]

/-- The two sums of each channel are those over some samples. -/
structure Sums (mics : MicIdLst) (first : Int → List F) (sums : List F) (squares : List D) :
    Prop where
  sums : sums = mics.map fun id => R2memRdc.sumOf D (first id)
  squares : squares = mics.map fun id => R2memRdc.squaresOf (first id)

/-- What `putData` takes for the deviation. -/
def deviationOf (l : List F) : D :=
  CDouble.sqrt F (CDouble.sub F (CDouble.div F (R2memRdc.squaresOf l) (CDouble.ofRat F l.length))
    (CDouble.ofFloat (CDouble.addFloat D (CFloat.mul (R2memRdc.meanOf D l) (R2memRdc.meanOf D l))
      (CFloat.ofRat (1 / 10) : F))))

/-- Samples of a broken microphone. -/
def Broken (D : Type) [CDouble F D] (l : List F) : Bool :=
  CDouble.lt F (CDouble.ofRat F 200000) (deviationOf l : D)

theorem collect_sums {s : MicStatus F D} {heard : Int → List F}
    (h : Sums s.ids heard s.check s.checkVar) (c : Chunk F) {n : Nat} (hn : n ≤ c.len) :
    Sums s.ids (fun id => heard id ++ (c.samples id).take n) (s.collect c.data n).check
      (s.collect c.data n).checkVar := by
  constructor
  · unfold collect
    rw [h.sums]
    exact c.foldl_rows s.ids heard hn (CDouble.addFloat D) _
  · unfold collect
    rw [h.squares]
    exact c.foldl_rows s.ids heard hn
      (fun sum x => CDouble.add F sum (CDouble.ofFloat (CFloat.mul x x))) _

theorem collect_sums_rdc {u : R2memRdc F D} {heard : Int → List F}
    (h : Sums u.m_pMicInfo_Rdc heard u.m_pRDc u.m_pRDc_Var) (c : Chunk F) {n : Nat}
    (hn : n ≤ c.len) :
    Sums u.m_pMicInfo_Rdc (fun id => heard id ++ (c.samples id).take n) (u.collect c.data n).m_pRDc
      (u.collect c.data n).m_pRDc_Var := by
  constructor
  · unfold R2memRdc.collect
    rw [h.sums]
    exact c.foldl_rows u.m_pMicInfo_Rdc heard hn (CDouble.addFloat D) _
  · unfold R2memRdc.collect
    rw [h.squares]
    exact c.foldl_rows u.m_pMicInfo_Rdc heard hn
      (fun sum x => CDouble.add F sum (CDouble.ofFloat (CFloat.mul x x))) _

/-- The verdict on the sums over some samples. -/
theorem judge_sums {s : MicStatus F D} {first : Int → List F}
    (h : Sums s.ids first s.check s.checkVar) (hlen : ∀ id, (first id).length = s.maxCheckLen) :
    s.judge.checkVar = s.ids.map (fun id => deviationOf (first id)) ∧
      s.judge.micOK = s.ids.map fun id =>
        if Broken D (first id) then .MIC_TEST_FAILED else .MIC_TEST_OK := by
  have hdev : s.judge.checkVar = s.ids.map fun id => deviationOf (first id) := by
    unfold judge
    dsimp only
    rw [h.sums, h.squares, List.map_map, List.zipWith_map, List.zipWith_self]
    apply List.map_congr_left
    intro id _
    unfold deviationOf R2memRdc.meanOf
    rw [← hlen id]
    rfl
  refine ⟨hdev, ?_⟩
  have hok : s.judge.micOK = s.judge.checkVar.map fun v =>
      if CDouble.lt F (CDouble.ofRat F 200000) v then .MIC_TEST_FAILED else .MIC_TEST_OK := rfl
  rw [hok, hdev, List.map_map]
  rfl

theorem calibrate_sums {u : R2memRdc F D} {first : Int → List F}
    (h : Sums u.m_pMicInfo_Rdc first u.m_pRDc u.m_pRDc_Var)
    (hlen : ∀ id, (first id).length = u.m_iCurLen) :
    u.calibrate.m_pRDc_Var = u.m_pMicInfo_Rdc.map (fun id => R2memRdc.deviationOf (first id)) ∧
      u.calibrate.m_bMicOk = u.m_pMicInfo_Rdc.map fun id => !R2memRdc.Broken D (first id) := by
  have hdev : u.calibrate.m_pRDc_Var =
      u.m_pMicInfo_Rdc.map fun id => R2memRdc.deviationOf (first id) := by
    unfold R2memRdc.calibrate
    dsimp only
    rw [h.sums, h.squares, List.map_map, List.zipWith_map, List.zipWith_self]
    apply List.map_congr_left
    intro id _
    unfold R2memRdc.deviationOf R2memRdc.meanOf
    rw [hlen id]
    rfl
  refine ⟨hdev, ?_⟩
  have hok : u.calibrate.m_bMicOk = u.calibrate.m_pRDc_Var.map fun v =>
      !CDouble.lt F (CDouble.ofRat F 200000) v := rfl
  rw [hok, hdev, List.map_map]
  rfl

end Rows

/-! ### A run -/

variable {p : MicStatus ℚ Surd × R2memRdc ℚ Surd}

/-- After `pos` samples of every channel: before the window is full the sums are those
    of all that has been heard, then the verdicts are those on its beginning. -/
structure Follows (heard : Int → List ℚ) (pos : Nat) (p : MicStatus ℚ Surd × R2memRdc ℚ Surd) :
    Prop where
  paired : Paired p.1 p.2
  length : ∀ id, (heard id).length = pos
  new : p.1.currentLen = min pos p.2.m_iMaxLen
  old : p.2.m_iCurLen = min pos p.2.m_iMaxLen
  newSums : pos < p.2.m_iMaxLen → Sums p.1.ids heard p.1.check p.1.checkVar
  oldSums : pos < p.2.m_iMaxLen → Sums p.1.ids heard p.2.m_pRDc p.2.m_pRDc_Var
  newEnd : 0 < p.2.m_iMaxLen → p.2.m_iMaxLen ≤ pos →
    p.1.checkVar = p.1.ids.map (fun id => deviationOf ((heard id).take p.2.m_iMaxLen)) ∧
      p.1.micOK = p.1.ids.map fun id =>
        if Broken Surd ((heard id).take p.2.m_iMaxLen) then .MIC_TEST_FAILED else .MIC_TEST_OK
  oldEnd : 0 < p.2.m_iMaxLen → p.2.m_iMaxLen ≤ pos →
    p.2.m_pRDc_Var =
        p.1.ids.map (fun id => R2memRdc.deviationOf ((heard id).take p.2.m_iMaxLen)) ∧
      p.2.m_bMicOk =
        p.1.ids.map fun id => !R2memRdc.Broken Surd ((heard id).take p.2.m_iMaxLen)

theorem follows_reset {s : MicStatus ℚ Surd} {u : R2memRdc ℚ Surd} (h : Paired s u) :
    Follows (fun _ => []) 0 (s.reset, u.reset) where
  paired := ⟨h.channels, h.mics, h.window⟩
  length := fun _ => rfl
  new := by
    show (0 : Int) = _
    omega
  old := (Nat.zero_min _).symm
  newSums := by
    intro _
    have hlen : s.micNum = s.ids.length := by
      unfold ids
      rw [List.length_take, Nat.min_eq_left h.channels]
    constructor
    · show List.replicate s.micNum _ = s.ids.map fun _ => _
      rw [hlen, List.map_const']
      rfl
    · show List.replicate s.micNum _ = s.ids.map fun _ => _
      rw [hlen, List.map_const']
      rfl
  oldSums := by
    intro _
    constructor
    · show u.m_pMicInfo_Rdc.map _ = s.ids.map _
      rw [h.mics]
      rfl
    · show u.m_pMicInfo_Rdc.map _ = s.ids.map _
      rw [h.mics]
      rfl
  newEnd := fun hpos hle => absurd hle (Nat.not_le.mpr hpos)
  oldEnd := fun hpos hle => absurd hle (Nat.not_le.mpr hpos)

/-! ### One chunk -/

section Chunk

variable {heard : Int → List ℚ} {pos : Nat}

/-- Among the first samples both go on with their sums. -/
theorem Follows.feed_of_lt (h : Follows heard pos p) (c : Chunk ℚ)
    (hlt : pos + c.len < p.2.m_iMaxLen) : feed p c =
      if c.len = 0 then (p.1, p.2.collect c.data 0)
      else (p.1.collect c.data c.len, p.2.collect c.data c.len) := by
  have hwindow := h.paired.window
  have hnew := h.new
  have hold := h.old
  have hprocess : (p.2.process c.data c.len).1 = p.2.collect c.data c.len := by
    have htaken : min (p.2.m_iMaxLen - p.2.m_iCurLen) c.len = c.len := by omega
    unfold R2memRdc.process
    dsimp only
    rw [if_pos (by omega), htaken]
    exact if_neg (by show ¬ p.2.m_iCurLen + c.len = p.2.m_iMaxLen; omega)
  unfold feed
  rw [hprocess]
  by_cases hzero : c.len = 0
  · rw [if_pos hzero, hzero]
    rfl
  · have hput : (p.1.putData (some c.data) c.len).1 = p.1.collect c.data c.len := by
      have hcur : ¬ (c.len : Int) > p.1.maxCheckLen - p.1.currentLen := by omega
      have hopen : ¬ (p.1.collect c.data c.len).currentLen ≥
          (p.1.collect c.data c.len).maxCheckLen := by
        show ¬ p.1.currentLen + (c.len : Int) ≥ p.1.maxCheckLen
        omega
      unfold putData
      dsimp only
      rw [if_neg (by omega), if_neg (by omega), if_neg hcur, if_neg hopen]
    rw [if_neg hzero, hput]

/-- At their end both give their verdict. -/
theorem Follows.feed_of_end (h : Follows heard pos p) (c : Chunk ℚ) (hlt : pos < p.2.m_iMaxLen)
    (hend : p.2.m_iMaxLen ≤ pos + c.len) : feed p c =
      ((p.1.collect c.data ↑(p.2.m_iMaxLen - pos)).judge,
        (p.2.collect c.data (p.2.m_iMaxLen - pos)).calibrate) := by
  have hwindow := h.paired.window
  have hnew := h.new
  have hold := h.old
  have hprocess : (p.2.process c.data c.len).1 =
      (p.2.collect c.data (p.2.m_iMaxLen - pos)).calibrate := by
    have htaken : min (p.2.m_iMaxLen - p.2.m_iCurLen) c.len = p.2.m_iMaxLen - pos := by omega
    unfold R2memRdc.process
    dsimp only
    rw [if_pos (by omega), htaken]
    exact if_pos (by
      show p.2.m_iCurLen + (p.2.m_iMaxLen - pos) = p.2.m_iMaxLen
      omega)
  have hput : (p.1.putData (some c.data) c.len).1 =
      (p.1.collect c.data ↑(p.2.m_iMaxLen - pos)).judge := by
    have hcur : (if (c.len : Int) > p.1.maxCheckLen - p.1.currentLen then
        p.1.maxCheckLen - p.1.currentLen else c.len) = ↑(p.2.m_iMaxLen - pos) := by
      split <;> omega
    have hfull : (p.1.collect c.data ↑(p.2.m_iMaxLen - pos)).currentLen ≥
        (p.1.collect c.data ↑(p.2.m_iMaxLen - pos)).maxCheckLen := by
      show p.1.currentLen + (↑(p.2.m_iMaxLen - pos) : Int) ≥ p.1.maxCheckLen
      omega
    unfold putData
    dsimp only
    rw [if_neg (by omega), if_neg (by omega), hcur, if_pos hfull]
  unfold feed
  rw [hprocess, hput]

/-- Behind them nothing changes. -/
theorem Follows.feed_of_le (h : Follows heard pos p) (c : Chunk ℚ) (hle : p.2.m_iMaxLen ≤ pos) :
    feed p c = p := by
  have hwindow := h.paired.window
  have hnew := h.new
  have hold := h.old
  have hprocess : (p.2.process c.data c.len).1 = p.2 :=
    R2memRdc.process_of_calibrated _ _ (show p.2.m_iMaxLen ≤ p.2.m_iCurLen by omega)
  have hput : (p.1.putData (some c.data) c.len).1 = p.1 := by
    have hcur : p.1.maxCheckLen = p.1.currentLen := by omega
    unfold putData
    dsimp only
    by_cases hzero : (c.len : Int) ≤ 0
    · rw [if_pos hzero]
    · rw [if_neg hzero, if_pos (by omega)]
      exact congrArg (fun v => { p.1 with currentLen := v }) hcur
  unfold feed
  rw [hprocess, hput]

theorem length_samples (c : Chunk ℚ) (id : Int) : (c.samples id).length = c.len := by
  rw [Chunk.samples, List.length_map, List.length_range]

theorem Follows.length_append (h : Follows heard pos p) (c : Chunk ℚ) (id : Int) :
    (heard id ++ c.samples id).length = pos + c.len := by
  rw [List.length_append, h.length id, length_samples]

theorem Follows.oldSums' (h : Follows heard pos p) (hlt : pos < p.2.m_iMaxLen) :
    Sums p.2.m_pMicInfo_Rdc heard p.2.m_pRDc p.2.m_pRDc_Var := by
  rw [h.paired.mics]
  exact h.oldSums hlt

/-- The verdicts stay. -/
theorem Follows.of_le (h : Follows heard pos p) (c : Chunk ℚ) (hle : p.2.m_iMaxLen ≤ pos) :
    Follows (fun id => heard id ++ c.samples id) (pos + c.len) (feed p c) := by
  have hnew := h.new
  have hold := h.old
  have hfirst : ∀ id, (heard id ++ c.samples id).take p.2.m_iMaxLen =
      (heard id).take p.2.m_iMaxLen := fun id =>
    List.take_append_of_le_length (by rw [h.length id]; exact hle)
  rw [h.feed_of_le c hle]
  refine ⟨h.paired, h.length_append c, by omega, by omega, fun hlt => absurd hlt (by omega),
    fun hlt => absurd hlt (by omega), ?_, ?_⟩
  · intro hpos _
    simp only [hfirst]
    exact h.newEnd hpos hle
  · intro hpos _
    simp only [hfirst]
    exact h.oldEnd hpos hle

/-- The sums go on. -/
theorem Follows.of_lt (h : Follows heard pos p) (c : Chunk ℚ)
    (hlt : pos + c.len < p.2.m_iMaxLen) :
    Follows (fun id => heard id ++ c.samples id) (pos + c.len) (feed p c) := by
  have hwindow := h.paired.window
  have hnew := h.new
  have hold := h.old
  have htake : ∀ id, (c.samples id).take c.len = c.samples id := fun id =>
    List.take_of_length_le (Nat.le_of_eq (length_samples c id))
  have hsums := collect_sums (h.newSums (by omega)) c (le_refl c.len)
  have hsums' := collect_sums_rdc (h.oldSums' (by omega)) c (le_refl c.len)
  rw [h.paired.mics] at hsums'
  simp only [htake] at hsums hsums'
  rw [h.feed_of_lt c hlt]
  by_cases hzero : c.len = 0
  · rw [if_pos hzero]
    have hnone : ∀ id, c.samples id = [] := fun id =>
      List.eq_nil_of_length_eq_zero ((length_samples c id).trans hzero)
    have hsame := h.newSums (by omega)
    rw [hzero] at hsums'
    refine ⟨⟨h.paired.channels, h.paired.mics, hwindow⟩, h.length_append c, ?_, ?_, ?_,
      fun _ => hsums', fun _ hge => absurd hge (Nat.not_le.mpr hlt),
      fun _ hge => absurd hge (Nat.not_le.mpr hlt)⟩
    · show p.1.currentLen = ↑(min (pos + c.len) p.2.m_iMaxLen)
      omega
    · show p.2.m_iCurLen + 0 = min (pos + c.len) p.2.m_iMaxLen
      omega
    · intro _
      simp only [hnone, List.append_nil]
      exact hsame
  · rw [if_neg hzero]
    refine ⟨⟨h.paired.channels, h.paired.mics, hwindow⟩, h.length_append c, ?_, ?_,
      fun _ => hsums, fun _ => hsums', fun _ hge => absurd hge (Nat.not_le.mpr hlt),
      fun _ hge => absurd hge (Nat.not_le.mpr hlt)⟩
    · show p.1.currentLen + (c.len : Int) = ↑(min (pos + c.len) p.2.m_iMaxLen)
      omega
    · show p.2.m_iCurLen + c.len = min (pos + c.len) p.2.m_iMaxLen
      omega

/-- The verdicts are those on the first samples. -/
theorem Follows.of_end (h : Follows heard pos p) (c : Chunk ℚ) (hlt : pos < p.2.m_iMaxLen)
    (hend : p.2.m_iMaxLen ≤ pos + c.len) :
    Follows (fun id => heard id ++ c.samples id) (pos + c.len) (feed p c) := by
  have hwindow := h.paired.window
  have hold := h.old
  have hfirst : ∀ id, (heard id ++ c.samples id).take p.2.m_iMaxLen =
      heard id ++ (c.samples id).take (p.2.m_iMaxLen - pos) := by
    intro id
    rw [List.take_append, h.length id, List.take_of_length_le (by rw [h.length id]; omega)]
  have hlen : ∀ id, ((heard id ++ c.samples id).take p.2.m_iMaxLen).length = p.2.m_iMaxLen := by
    intro id
    rw [List.length_take, h.length_append c id]
    omega
  have htaken : p.2.m_iMaxLen - pos ≤ c.len := by omega
  have hsums := collect_sums (h.newSums hlt) c htaken
  have hsums' := collect_sums_rdc (h.oldSums' hlt) c htaken
  simp only [← hfirst] at hsums hsums'
  have hverdict := judge_sums (s := p.1.collect c.data ↑(p.2.m_iMaxLen - pos)) hsums (by
    intro id
    rw [hlen id]
    exact hwindow.symm)
  have hverdict' := calibrate_sums (u := p.2.collect c.data (p.2.m_iMaxLen - pos)) hsums' (by
    intro id
    rw [hlen id]
    show _ = p.2.m_iCurLen + (p.2.m_iMaxLen - pos)
    omega)
  rw [show (p.2.collect c.data (p.2.m_iMaxLen - pos)).m_pMicInfo_Rdc = p.1.ids from
    h.paired.mics] at hverdict'
  rw [h.feed_of_end c hlt hend]
  refine ⟨⟨h.paired.channels, h.paired.mics, hwindow⟩, h.length_append c, ?_, ?_,
    fun h' => absurd hend (Nat.not_le.mpr h'), fun h' => absurd hend (Nat.not_le.mpr h'),
    fun _ _ => hverdict, fun _ _ => hverdict'⟩
  · show p.1.maxCheckLen = ↑(min (pos + c.len) p.2.m_iMaxLen)
    omega
  · show p.2.m_iCurLen + (p.2.m_iMaxLen - pos) = min (pos + c.len) p.2.m_iMaxLen
    omega

/-- One chunk. -/
theorem Follows.feed (h : Follows heard pos p) (c : Chunk ℚ) :
    Follows (fun id => heard id ++ c.samples id) (pos + c.len) (feed p c) := by
  by_cases hle : p.2.m_iMaxLen ≤ pos
  · exact h.of_le c hle
  by_cases hlt : pos + c.len < p.2.m_iMaxLen
  · exact h.of_lt c hlt
  · exact h.of_end c (by omega) (by omega)

end Chunk

/-- The samples of a channel, however they are cut. -/
def allSamples (chunks : List (Chunk ℚ)) (id : Int) : List ℚ := chunks.flatMap (·.samples id)

/-- How many there are of each channel. -/
def total (chunks : List (Chunk ℚ)) : Nat := (chunks.map (·.len)).sum

theorem Follows.run {heard : Int → List ℚ} {pos : Nat} (h : Follows heard pos p)
    (chunks : List (Chunk ℚ)) :
    Follows (fun id => heard id ++ allSamples chunks id) (pos + total chunks)
      (chunks.foldl MicStatus.feed p) := by
  induction chunks generalizing heard pos p with
  | nil =>
    simp only [allSamples, List.flatMap_nil, List.append_nil]
    exact h
  | cons c chunks ih =>
    have hrest := ih (h.feed c)
    simp only [List.append_assoc] at hrest
    simp only [allSamples, List.flatMap_cons, total, List.map_cons, List.sum_cons]
    rw [← Nat.add_assoc]
    exact hrest

/-! ### What is under the roots -/

theorem foldl_addFloat (l : List ℚ) (x : ℚ) :
    l.foldl (CDouble.addFloat Surd) x = x + l.sum := by
  induction l generalizing x with
  | nil => exact (add_zero x).symm
  | cons y l ih =>
    rw [List.foldl_cons, ih, List.sum_cons, ← add_assoc]
    rfl

theorem foldl_addSquare (l : List ℚ) (x : ℚ) :
    l.foldl (fun sum x => CDouble.add ℚ sum (CDouble.ofFloat (CFloat.mul x x))) (Surd.rat x) =
      .rat (x + (l.map fun x => x * x).sum) := by
  induction l generalizing x with
  | nil => exact congrArg Surd.rat (add_zero x).symm
  | cons y l ih =>
    rw [List.foldl_cons, List.map_cons, List.sum_cons, ← add_assoc]
    exact ih (x + y * y)

theorem meanOf_eq (l : List ℚ) : R2memRdc.meanOf Surd l = Statistics.mean l := by
  unfold R2memRdc.meanOf R2memRdc.sumOf Statistics.mean
  rw [foldl_addFloat]
  show (((0 : Int) : ℚ) + l.sum) / ((l.length : Int) : ℚ) = l.sum / l.length
  rw [Int.cast_zero, zero_add, Int.cast_natCast]

theorem squaresOf_div (l : List ℚ) :
    CDouble.div ℚ (R2memRdc.squaresOf l : Surd) (CDouble.ofRat ℚ l.length) =
      .rat (Statistics.meanSq l) := by
  unfold R2memRdc.squaresOf
  have hsum := foldl_addSquare l 0
  rw [zero_add] at hsum
  exact congrArg (fun x => CDouble.div ℚ x (CDouble.ofRat ℚ (l.length : ℚ))) hsum

/-- The old test takes the root of the variance and the small term. -/
theorem deviationOf_rdc (l : List ℚ) :
    (R2memRdc.deviationOf l : Surd) = .root (Statistics.variance l + 1 / 10) := by
  unfold R2memRdc.deviationOf
  rw [squaresOf_div, meanOf_eq]
  rfl

/-- The new test takes the root of the variance without the small term. -/
theorem deviationOf_eq (l : List ℚ) :
    (deviationOf l : Surd) = .root (Statistics.variance l - 1 / 10) := by
  unfold deviationOf
  have hlen : (CDouble.ofRat ℚ (l.length : ℚ) : Surd) = CDouble.ofRat ℚ l.length := rfl
  rw [squaresOf_div, meanOf_eq]
  show Surd.root (Statistics.meanSq l - (Statistics.mean l * Statistics.mean l + 1 / 10)) = _
  rw [← sub_sub]
  rfl

theorem broken_eq (l : List ℚ) :
    Broken Surd l = true ↔ 200000 * 200000 + 1 / 10 < Statistics.variance l := by
  unfold Broken
  rw [deviationOf_eq]
  show decide (_ ∧ _) = true ↔ _
  rw [decide_eq_true_iff]
  constructor
  · intro ⟨_, h⟩
    rcases h with h | h
    · exact absurd h (by norm_num)
    · linarith
  · intro h
    exact ⟨by linarith, Or.inr (by linarith)⟩

theorem broken_rdc (l : List ℚ) :
    R2memRdc.Broken Surd l = true ↔ 200000 * 200000 - 1 / 10 < Statistics.variance l := by
  unfold R2memRdc.Broken
  rw [deviationOf_rdc]
  show decide (_ ∧ _) = true ↔ _
  rw [decide_eq_true_iff]
  constructor
  · intro ⟨_, h⟩
    rcases h with h | h
    · exact absurd h (by norm_num)
    · linarith
  · intro h
    exact ⟨by linarith, Or.inr (by linarith)⟩

/-! ### When the two tests are alike -/

variable {heard : Int → List ℚ} {pos : Nat}

theorem Follows.finished_iff (h : Follows heard pos p) :
    p.1.Finished ↔ 0 < p.2.m_iMaxLen ∧ p.2.m_iMaxLen ≤ pos := by
  have hwindow := h.paired.window
  have hnew := h.new
  unfold Finished
  constructor
  · intro ⟨hpos, hle⟩
    constructor
    · omega
    · omega
  · intro ⟨hpos, hle⟩
    constructor
    · omega
    · omega

theorem Follows.length_ids (h : Follows heard pos p) : p.1.ids.length = p.1.micNum := by
  unfold ids
  rw [List.length_take, Nat.min_eq_left h.paired.channels]

/-- At the end of the window the two never take the same root. -/
theorem Follows.alike (h : Follows heard pos p) :
    Alike p ↔ ¬ (0 < p.2.m_iMaxLen ∧ p.2.m_iMaxLen ≤ pos) ∨ p.1.micNum = 0 := by
  unfold Alike
  rw [h.finished_iff]
  by_cases hmics : p.1.micNum = 0
  · refine iff_of_true ?_ (Or.inr hmics)
    intro _ i hi
    exact absurd hi (by omega)
  by_cases hend : 0 < p.2.m_iMaxLen ∧ p.2.m_iMaxLen ≤ pos
  · refine iff_of_false ?_ (not_or.mpr ⟨not_not.mpr hend, hmics⟩)
    intro halike
    obtain ⟨q, hnew, _, hold, _⟩ := halike hend 0 (by omega)
    have hid : 0 < p.1.ids.length := by
      rw [h.length_ids]
      omega
    rw [(h.newEnd hend.1 hend.2).1, List.getElem?_map, List.getElem?_eq_getElem hid,
      Option.map_some, deviationOf_eq] at hnew
    rw [(h.oldEnd hend.1 hend.2).1, List.getElem?_map, List.getElem?_eq_getElem hid,
      Option.map_some, deviationOf_rdc] at hold
    have hq := Surd.root.inj (Option.some.inj hnew)
    have hq' := Surd.root.inj (Option.some.inj hold)
    linarith
  · exact iff_of_true (fun hfin => absurd hfin hend) (Or.inl hend)

/-- The old test always has a root to take.  The new one has none where the samples vary
    less than the small term. -/
theorem Follows.roots (h : Follows heard pos p)
    (hend : 0 < p.2.m_iMaxLen ∧ p.2.m_iMaxLen ≤ pos) {i : Nat} {id : Int}
    (hi : p.1.ids[i]? = some id) : ∃ q q', p.1.checkVar[i]? = some (.root q) ∧
      p.2.m_pRDc_Var[i]? = some (.root q') ∧ 0 < q' ∧
      (0 ≤ q ↔ 1 / 10 ≤ Statistics.variance ((heard id).take p.2.m_iMaxLen)) := by
  have hvariance := Statistics.variance_nonneg ((heard id).take p.2.m_iMaxLen)
  refine ⟨Statistics.variance ((heard id).take p.2.m_iMaxLen) - 1 / 10,
    Statistics.variance ((heard id).take p.2.m_iMaxLen) + 1 / 10, ?_, ?_, ?_, sub_nonneg⟩
  · rw [(h.newEnd hend.1 hend.2).1, List.getElem?_map, hi, Option.map_some, deviationOf_eq]
  · rw [(h.oldEnd hend.1 hend.2).1, List.getElem?_map, hi, Option.map_some, deviationOf_rdc]
  · linarith

/-- The verdicts on a microphone agree unless its variance is within the small term of
    the limit. -/
theorem Follows.sameVerdict_iff (h : Follows heard pos p)
    (hend : 0 < p.2.m_iMaxLen ∧ p.2.m_iMaxLen ≤ pos) {i : Nat} {id : Int}
    (hi : p.1.ids[i]? = some id) :
    (p.1.micOK[i]? = some .MIC_TEST_FAILED ↔ p.2.m_bMicOk[i]? = some false) ↔
      ¬ (200000 * 200000 - 1 / 10 < Statistics.variance ((heard id).take p.2.m_iMaxLen) ∧
        Statistics.variance ((heard id).take p.2.m_iMaxLen) ≤ 200000 * 200000 + 1 / 10) := by
  have hnew := broken_eq ((heard id).take p.2.m_iMaxLen)
  have hold := broken_rdc ((heard id).take p.2.m_iMaxLen)
  rw [(h.newEnd hend.1 hend.2).2, (h.oldEnd hend.1 hend.2).2, List.getElem?_map,
    List.getElem?_map, hi, Option.map_some, Option.map_some]
  have hfailed : ∀ b : Bool, (some (if b then MicState.MIC_TEST_FAILED else .MIC_TEST_OK) =
      some MicState.MIC_TEST_FAILED) ↔ b = true := by
    intro b
    cases b <;> decide
  have hbroken : ∀ b : Bool, (some !b) = some false ↔ b = true := by
    intro b
    cases b <;> decide
  rw [hfailed, hbroken, hnew, hold, not_and, not_le]
  constructor
  · intro h hlow
    exact h.mpr hlow
  · intro h
    exact ⟨fun hhigh => by linarith, h⟩

theorem feed_window (p : MicStatus ℚ Surd × R2memRdc ℚ Surd) (c : Chunk ℚ) :
    (feed p c).2.m_iMaxLen = p.2.m_iMaxLen := by
  unfold feed R2memRdc.process
  dsimp only
  split
  · split <;> rfl
  · rfl

theorem feed_micNum (p : MicStatus ℚ Surd × R2memRdc ℚ Surd) (c : Chunk ℚ) :
    (feed p c).1.micNum = p.1.micNum := by
  unfold feed putData
  dsimp only
  split
  · rfl
  · split
    · rfl
    · split
      · split <;> rfl
      · split <;> rfl

theorem foldl_feed (p : MicStatus ℚ Surd × R2memRdc ℚ Surd) (chunks : List (Chunk ℚ)) :
    (chunks.foldl MicStatus.feed p).2.m_iMaxLen = p.2.m_iMaxLen ∧
      (chunks.foldl MicStatus.feed p).1.micNum = p.1.micNum := by
  induction chunks generalizing p with
  | nil => exact ⟨rfl, rfl⟩
  | cons c chunks ih =>
    rw [List.foldl_cons, (ih _).1, (ih _).2, feed_window, feed_micNum]
    exact ⟨rfl, rfl⟩

/-- From `reset` on: the two tests are alike exactly as long as the window has not
    been filled, or if there is nothing to test. -/
theorem alike_iff {s : MicStatus ℚ Surd} {u : R2memRdc ℚ Surd} (h : Paired s u)
    (chunks : List (Chunk ℚ)) : Alike (chunks.foldl MicStatus.feed (s.reset, u.reset)) ↔
      total chunks < u.m_iMaxLen ∨ u.m_iMaxLen = 0 ∨ s.micNum = 0 := by
  have hrun := (follows_reset h).run chunks
  obtain ⟨hwindow, hmics⟩ := foldl_feed (s.reset, u.reset) chunks
  rw [hrun.alike, hwindow, hmics, Nat.zero_add]
  show ¬ (0 < u.m_iMaxLen ∧ u.m_iMaxLen ≤ total chunks) ∨ s.micNum = 0 ↔ _
  omega

/-- The two for one microphone and two samples. -/
def oneMicrophone : MicStatus ℚ Surd × R2memRdc ℚ Surd :=
  (⟨1, 2, 0, [], [], [], ⟨8, .in_float_32, 1, [0]⟩⟩, R2memRdc.new [0] 2)

theorem paired_oneMicrophone : Paired oneMicrophone.1 oneMicrophone.2 := ⟨by decide, rfl, rfl⟩

/-- After one sample they are alike. -/
theorem alike_oneSample : Alike ([⟨fun _ _ => 1, 1⟩].foldl MicStatus.feed
    (oneMicrophone.1.reset, oneMicrophone.2.reset)) :=
  (alike_iff paired_oneMicrophone [⟨fun _ _ => 1, 1⟩]).mpr (Or.inl (by decide))

/-- Silence: the new test takes the root of -1/10, the old one that of 1/10. -/
theorem silence_not_alike :
    ([⟨fun _ _ => 0, 2⟩].foldl MicStatus.feed
      (oneMicrophone.1.reset, oneMicrophone.2.reset)).1.checkVar = [.root (-1 / 10)] ∧
    ([⟨fun _ _ => 0, 2⟩].foldl MicStatus.feed
      (oneMicrophone.1.reset, oneMicrophone.2.reset)).2.m_pRDc_Var = [.root (1 / 10)] ∧
    ¬ ∀ (s : MicStatus ℚ Surd) (u : R2memRdc ℚ Surd) (chunks : List (Chunk ℚ)), Paired s u →
      Alike (chunks.foldl MicStatus.feed (s.reset, u.reset)) := by
  refine ⟨by decide +kernel, by decide +kernel, ?_⟩
  intro h
  obtain ⟨q, hq, hpos, _⟩ := h oneMicrophone.1 oneMicrophone.2 [⟨fun _ _ => 0, 2⟩]
    paired_oneMicrophone (by decide +kernel) 0 (by decide)
  have hroot : q = -1 / 10 := by
    refine Surd.root.inj (Option.some.inj (hq.symm.trans ?_))
    decide +kernel
  rw [hroot] at hpos
  exact absurd hpos (by norm_num)

end MicStatus

end BlackSiren

import BlackSiren.Framework.Objects
import BlackSiren.Framework.Shift
import BlackSiren.Legacy.Tracked

/-! # `r2mem_rdc`: which samples it passes on

    The unit swallows the first `m_iMaxLen` samples.  In the call in which they
    end it moves the rest of the chunk to the front, but only in the channels of
    its own list, and once for each time a channel stands there; the reference
    microphones of the echo canceller keep their samples where they were.

    - `Aligned`: what a call is to pass on
    - `InStep`: the calls that do
    - `Follows`: the invariant; `correct_eq`: the passes over a channel
    - `aligned_run_iff`: runs
-/

namespace BlackSiren

namespace R2memRdc

variable {F D : Type} [CFloat F] [CDouble F D]

/-! ### A run -/

/-- A chunk: `len` samples of every channel. -/
structure Chunk (F : Type) where
  data : Chan F
  len : Nat

/-- The samples of a channel. -/
def Chunk.samples (c : Chunk F) (id : Int) : List F := (List.range c.len).map (c.data id)

/-- The chunk as it arrives behind `pos` others: its samples with their
    positions, and whatever the arrays hold behind them. -/
def Chunk.arriving (c : Chunk F) (pos : Nat) : Chan (Tracked F) := fun id j =>
  ⟨c.data id j, if j < c.len then some (pos + j) else none⟩

/-- The unit, what has been put in, and how many samples have been passed on. -/
structure Run (F D : Type) where
  unit : R2memRdc (Tracked F) D
  heard : Int → List F
  pos : Nat
  passed : Nat

namespace Run

/-- The beginning. -/
def new (pMicInfo_Rdc : MicIdLst) (iMaxLen : Nat) : Run F D where
  unit := R2memRdc.new pMicInfo_Rdc iMaxLen
  heard := fun _ => []
  pos := 0
  passed := 0

/-- What `process` makes of the next chunk. -/
def output (s : Run F D) (c : Chunk F) : R2memRdc (Tracked F) D × Chan (Tracked F) × Nat :=
  s.unit.process (c.arriving s.pos) c.len

/-- The next call. -/
def process (s : Run F D) (c : Chunk F) : Except Fault (Run F D × Chan (Tracked F) × Nat) :=
  .ok ({
    unit := (s.output c).1
    heard := fun id => s.heard id ++ c.samples id
    pos := s.pos + c.len
    passed := s.passed + (s.output c).2.2 }, (s.output c).2)

end Run

/-! ### What is wanted -/

/-- A microphone that is marked as broken. -/
def Muted (u : R2memRdc F D) (id : Int) : Prop :=
  ∃ i : Nat, u.m_pMicInfo_Rdc[i]? = some id ∧ u.m_bMicOk[i]? = some false

/-- A sample of channel `id` from position `p`, or zero for a broken microphone. -/
def From (u : R2memRdc (Tracked F) D) (id : Int) (x : Tracked F) (p : Nat) : Prop :=
  x.source = some p ∨ x = CFloat.ofInt 0 ∧ u.Muted id

/-- The samples left in the channels of the unit's list and in the reference
    microphones are the next positions behind those passed on so far, which began
    with `m_iMaxLen`. -/
def Run.Aligned (refs : MicIdLst) (s : Run F D) (c : Chunk F) : Prop :=
  ∀ id ∈ s.unit.m_pMicInfo_Rdc ++ refs, ∀ j < (s.output c).2.2,
    (s.output c).1.From id ((s.output c).2.1 id j) (s.unit.m_iMaxLen + s.passed + j)

/-! ### When it is so -/

/-- The sum of some samples, and of their squares. -/
def sumOf (D : Type) [CDouble F D] (l : List F) : F :=
  l.foldl (CDouble.addFloat D) (CFloat.ofInt 0)

def squaresOf (l : List F) : D :=
  l.foldl (fun sum x => CDouble.add F sum (CDouble.ofFloat (CFloat.mul x x))) (CDouble.ofRat F 0)

/-- Their mean and deviation. -/
def meanOf (D : Type) [CDouble F D] (l : List F) : F :=
  CFloat.div (sumOf D l) (CFloat.ofInt l.length)

def deviationOf (l : List F) : D :=
  CDouble.sqrt F (CDouble.add F
    (CDouble.sub F (CDouble.div F (squaresOf l) (CDouble.ofRat F l.length))
      (CDouble.ofFloat (CFloat.mul (meanOf D l) (meanOf D l))))
    (CDouble.ofFloat (CFloat.ofRat (1 / 10) : F)))

/-- Samples of a broken microphone. -/
def Broken (D : Type) [CDouble F D] (l : List F) : Bool :=
  CDouble.lt F (CDouble.ofRat F 200000) (deviationOf l : D)

/-- If the chunk goes beyond the first `m_iMaxLen` samples and begins among them,
    every channel is in the unit's list; and it stands there once, or no more of
    the chunk lies behind them than among them, or the microphone is broken. -/
def Run.InStep (refs : MicIdLst) (s : Run F D) (c : Chunk F) : Prop :=
  s.pos < s.unit.m_iMaxLen → s.unit.m_iMaxLen < s.pos + c.len →
    ∀ id ∈ s.unit.m_pMicInfo_Rdc ++ refs, id ∈ s.unit.m_pMicInfo_Rdc ∧
      (s.unit.m_pMicInfo_Rdc.count id = 1 ∨
        s.pos + c.len - s.unit.m_iMaxLen ≤ s.unit.m_iMaxLen - s.pos ∨
        Broken D ((s.heard id ++ c.samples id).take s.unit.m_iMaxLen) = true)

/-! ### The passes over a channel -/

/-- What becomes of one sample. -/
def corrected (ok : Bool) (mean x : F) : F :=
  if ok then CFloat.sub x mean else CFloat.ofInt 0

omit [CDouble F D] in
/-- If the entries depend on nothing but the microphone, each channel is shifted
    once for every time it stands in the list. -/
theorem correct_eq {u : R2memRdc F D} {mean : Int → F} {ok : Int → Bool}
    (hmean : u.m_pRDc = u.m_pMicInfo_Rdc.map mean) (hok : u.m_bMicOk = u.m_pMicInfo_Rdc.map ok)
    (d : Chan F) (iCur n : Nat) (id : Int) :
    u.correct d iCur n id =
      (Shift.pass (corrected (ok id) (mean id)) iCur n)^[u.m_pMicInfo_Rdc.count id] (d id) := by
  unfold correct
  rw [hmean, hok]
  generalize u.m_pMicInfo_Rdc = mics
  induction mics generalizing d with
  | nil => rfl
  | cons mic mics ih =>
    rw [List.map_cons, List.map_cons, List.zip_cons_cons, List.zip_cons_cons, List.foldl_cons, ih]
    by_cases hmic : mic = id
    · rw [hmic, List.count_cons_self, Function.iterate_succ_apply]
      congr 1
      funext j
      simp only [true_and]
      rfl
    · rw [List.count_cons_of_ne hmic]
      congr 1
      funext j
      rw [if_neg fun h => hmic h.1.symm]

/-! ### The sums -/

omit [CFloat F] in
theorem foldl_tracked (f : Nat → Tracked F) (l : List Nat) (x : F) :
    l.foldl (fun sum j => CDouble.addFloat D sum (f j)) ⟨x, none⟩ =
      ⟨l.foldl (fun sum j => CDouble.addFloat D sum (f j).value) x, none⟩ := by
  induction l generalizing x with
  | nil => rfl
  | cons j l ih => exact ih _

omit [CFloat F] in
/-- The first samples of a chunk. -/
theorem Chunk.take_samples (c : Chunk F) (id : Int) {n : Nat} (h : n ≤ c.len) :
    (c.samples id).take n = (List.range n).map (c.data id) := by
  unfold samples
  rw [← List.map_take, List.take_range, Nat.min_eq_left h]

omit [CFloat F] [CDouble F D] in
/-- Running totals, one for each channel of a list, go on with a chunk. -/
theorem Chunk.foldl_rows {S : Type} (c : Chunk F) (mics : MicIdLst) (heard : Int → List F)
    {n : Nat} (hn : n ≤ c.len) (step : S → F → S) (z : S) :
    List.zipWith (fun id sum => (List.range n).foldl (fun sum j => step sum (c.data id j)) sum)
        mics (mics.map fun id => (heard id).foldl step z) =
      mics.map fun id => (heard id ++ (c.samples id).take n).foldl step z := by
  rw [List.zipWith_map_right, List.zipWith_self]
  apply List.map_congr_left
  intro id _
  rw [c.take_samples id hn, List.foldl_append, List.foldl_map]

/-- Sums over what has been heard go on with the chunk. -/
theorem collect_sums {u : R2memRdc (Tracked F) D} {heard : Int → List F}
    (hsums : u.m_pRDc = u.m_pMicInfo_Rdc.map fun id => ⟨sumOf D (heard id), none⟩)
    (hsquares : u.m_pRDc_Var = u.m_pMicInfo_Rdc.map fun id => squaresOf (heard id))
    (c : Chunk F) (pos : Nat) {n : Nat} (hn : n ≤ c.len) :
    (u.collect (c.arriving pos) n).m_pRDc =
        (u.m_pMicInfo_Rdc.map fun id => ⟨sumOf D (heard id ++ (c.samples id).take n), none⟩) ∧
      (u.collect (c.arriving pos) n).m_pRDc_Var =
        u.m_pMicInfo_Rdc.map fun id => squaresOf (heard id ++ (c.samples id).take n) := by
  constructor
  · show List.zipWith _ _ _ = _
    rw [hsums, List.zipWith_map_right, List.zipWith_self]
    apply List.map_congr_left
    intro id _
    rw [foldl_tracked, c.take_samples id hn]
    unfold sumOf
    rw [List.foldl_append, List.foldl_map]
    rfl
  · show List.zipWith _ _ _ = _
    rw [hsquares]
    exact c.foldl_rows u.m_pMicInfo_Rdc heard hn
      (fun sum x => CDouble.add F sum (CDouble.ofFloat (CFloat.mul x x))) _

/-- The verdict on the sums over some samples. -/
theorem calibrate_sums {u : R2memRdc (Tracked F) D} {first : Int → List F}
    (hsums : u.m_pRDc = u.m_pMicInfo_Rdc.map fun id => ⟨sumOf D (first id), none⟩)
    (hsquares : u.m_pRDc_Var = u.m_pMicInfo_Rdc.map fun id => squaresOf (first id))
    (hlen : ∀ id, (first id).length = u.m_iCurLen) :
    u.calibrate.m_pRDc = (u.m_pMicInfo_Rdc.map fun id => ⟨meanOf D (first id), none⟩) ∧
      u.calibrate.m_bMicOk = u.m_pMicInfo_Rdc.map fun id => !Broken D (first id) := by
  have hmean : (u.m_pRDc.map fun sum => CFloat.div sum (CFloat.ofInt u.m_iCurLen)) =
      u.m_pMicInfo_Rdc.map fun id => ⟨meanOf D (first id), none⟩ := by
    rw [hsums, List.map_map]
    apply List.map_congr_left
    intro id _
    unfold meanOf
    rw [hlen id]
    rfl
  refine ⟨hmean, ?_⟩
  unfold calibrate
  dsimp only
  rw [hmean, hsquares, List.zipWith_map, List.zipWith_self, List.map_map]
  apply List.map_congr_left
  intro id _
  unfold Broken deviationOf
  rw [hlen id]
  rfl

/-! ### The invariant -/

/-- What has been put in is what the unit has counted and summed up. -/
structure Run.Follows (s : Run F D) : Prop where
  cur : s.unit.m_iCurLen = min s.pos s.unit.m_iMaxLen
  heard : ∀ id, (s.heard id).length = s.pos
  passed : s.passed = s.pos - s.unit.m_iMaxLen
  sums : s.pos < s.unit.m_iMaxLen →
    s.unit.m_pRDc = s.unit.m_pMicInfo_Rdc.map fun id => ⟨sumOf D (s.heard id), none⟩
  squares : s.pos < s.unit.m_iMaxLen →
    s.unit.m_pRDc_Var = s.unit.m_pMicInfo_Rdc.map fun id => squaresOf (s.heard id)
  byMic : ∃ mean ok, s.unit.m_pRDc = s.unit.m_pMicInfo_Rdc.map mean ∧
    s.unit.m_bMicOk = s.unit.m_pMicInfo_Rdc.map ok

theorem follows_new (mics : MicIdLst) (iMaxLen : Nat) :
    (Run.new mics iMaxLen : Run F D).Follows where
  cur := (Nat.zero_min _).symm
  heard := fun _ => rfl
  passed := (Nat.zero_sub _).symm
  sums := fun _ => rfl
  squares := fun _ => rfl
  byMic := ⟨_, _, rfl, rfl⟩

namespace Run

variable {s : Run F D} {c : Chunk F}

/-- What is left of the chunk. -/
theorem Follows.left (hs : s.Follows) (c : Chunk F) :
    (s.output c).2.2 = c.len - min (s.unit.m_iMaxLen - s.pos) c.len := by
  have hcur := hs.cur
  show c.len - min (s.unit.m_iMaxLen - s.unit.m_iCurLen) c.len = _
  omega

/-- The channels afterwards. -/
theorem Follows.channels (hs : s.Follows) (c : Chunk F) (hleft : 0 < (s.output c).2.2) :
    (s.output c).2.1 = (s.output c).1.correct (c.arriving s.pos)
      (min (s.unit.m_iMaxLen - s.pos) c.len) (s.output c).2.2 := by
  have hcur := hs.cur
  have hdiff : s.unit.m_iMaxLen - s.unit.m_iCurLen = s.unit.m_iMaxLen - s.pos := by omega
  rw [← hdiff]
  exact if_pos hleft

/-- Behind the first samples the unit does not change. -/
theorem Follows.unit_of_le (hs : s.Follows) (c : Chunk F) (h : s.unit.m_iMaxLen ≤ s.pos) :
    (s.output c).1 = s.unit := by
  apply process_of_calibrated
  show s.unit.m_iMaxLen ≤ s.unit.m_iCurLen
  rw [hs.cur]
  omega

/-- Among them it goes on with its sums. -/
theorem Follows.unit_of_lt (hs : s.Follows) (c : Chunk F) (h : s.pos + c.len < s.unit.m_iMaxLen) :
    (s.output c).1 = s.unit.collect (c.arriving s.pos) c.len := by
  have hcur := hs.cur
  have htaken : min (s.unit.m_iMaxLen - s.unit.m_iCurLen) c.len = c.len := by omega
  show (if s.unit.m_iCurLen < s.unit.m_iMaxLen then _ else _) = _
  rw [if_pos (by omega), htaken]
  exact if_neg (by show ¬ s.unit.m_iCurLen + c.len = s.unit.m_iMaxLen; omega)

/-- At their end it gives its verdict. -/
theorem Follows.unit_of_end (hs : s.Follows) (c : Chunk F) (h : s.pos < s.unit.m_iMaxLen)
    (hend : s.unit.m_iMaxLen ≤ s.pos + c.len) :
    (s.output c).1 = (s.unit.collect (c.arriving s.pos) (s.unit.m_iMaxLen - s.pos)).calibrate := by
  have hcur := hs.cur
  have htaken : min (s.unit.m_iMaxLen - s.unit.m_iCurLen) c.len = s.unit.m_iMaxLen - s.pos := by
    omega
  show (if s.unit.m_iCurLen < s.unit.m_iMaxLen then _ else _) = _
  rw [if_pos (by omega), htaken]
  exact if_pos (by
    show s.unit.m_iCurLen + (s.unit.m_iMaxLen - s.pos) = s.unit.m_iMaxLen
    omega)

/-- Which is the one on the first samples. -/
theorem Follows.verdict (hs : s.Follows) (c : Chunk F) (h : s.pos < s.unit.m_iMaxLen)
    (hend : s.unit.m_iMaxLen ≤ s.pos + c.len) :
    ∃ mean, (s.output c).1.m_pRDc = s.unit.m_pMicInfo_Rdc.map mean ∧
      (s.output c).1.m_bMicOk = s.unit.m_pMicInfo_Rdc.map fun id =>
        !Broken D ((s.heard id ++ c.samples id).take s.unit.m_iMaxLen) := by
  have hcur := hs.cur
  have hfirst : ∀ id, (s.heard id ++ c.samples id).take s.unit.m_iMaxLen =
      s.heard id ++ (c.samples id).take (s.unit.m_iMaxLen - s.pos) := by
    intro id
    rw [List.take_append, hs.heard id, List.take_of_length_le (by rw [hs.heard id]; omega)]
  obtain ⟨hsums, hsquares⟩ := collect_sums (hs.sums h) (hs.squares h) c s.pos
    (show s.unit.m_iMaxLen - s.pos ≤ c.len by omega)
  simp only [← hfirst] at hsums hsquares
  obtain ⟨hmean, hok⟩ := calibrate_sums hsums hsquares (by
    intro id
    rw [List.length_take, List.length_append, hs.heard id, Chunk.samples, List.length_map,
      List.length_range]
    show _ = s.unit.m_iCurLen + (s.unit.m_iMaxLen - s.pos)
    omega)
  rw [hs.unit_of_end c h hend]
  exact ⟨_, hmean, hok⟩

/-- The call keeps the lists and the length. -/
theorem output_mics (s : Run F D) (c : Chunk F) :
    (s.output c).1.m_pMicInfo_Rdc = s.unit.m_pMicInfo_Rdc :=
  process_mics _ _ _

theorem output_maxLen (s : Run F D) (c : Chunk F) :
    (s.output c).1.m_iMaxLen = s.unit.m_iMaxLen := by
  unfold output R2memRdc.process
  dsimp only
  split
  · split <;> rfl
  · rfl

/-- The entries depend on nothing but the microphone. -/
theorem Follows.output_byMic (hs : s.Follows) (c : Chunk F) : ∃ mean ok,
    (s.output c).1.m_pRDc = s.unit.m_pMicInfo_Rdc.map mean ∧
      (s.output c).1.m_bMicOk = s.unit.m_pMicInfo_Rdc.map ok := by
  by_cases hpos : s.unit.m_iMaxLen ≤ s.pos
  · rw [hs.unit_of_le c hpos]
    exact hs.byMic
  by_cases hend : s.unit.m_iMaxLen ≤ s.pos + c.len
  · obtain ⟨mean, hmean, hok⟩ := hs.verdict c (by omega) hend
    exact ⟨mean, _, hmean, hok⟩
  · obtain ⟨-, ok, -, hok⟩ := hs.byMic
    rw [hs.unit_of_lt c (by omega)]
    exact ⟨_, ok, (collect_sums (hs.sums (by omega)) (hs.squares (by omega)) c s.pos
      (le_refl _)).1, hok⟩

theorem Follows.process (hs : s.Follows) (c : Chunk F) {s' : Run F D}
    {out : Chan (Tracked F) × Nat} (h : s.process c = .ok (s', out)) : s'.Follows := by
  obtain ⟨rfl, -⟩ := Prod.mk.inj (Except.ok.inj h)
  have hmics := output_mics s c
  have hmax := output_maxLen s c
  have hsamples : ∀ id, (c.samples id).length = c.len := by
    intro id
    rw [Chunk.samples, List.length_map, List.length_range]
  -- the sums are those of all that has been heard, as long as they are not complete
  have hopen : s.pos + c.len < s.unit.m_iMaxLen →
      (s.output c).1.m_iCurLen = s.pos + c.len ∧
      (s.output c).1.m_pRDc = (s.unit.m_pMicInfo_Rdc.map fun id =>
        ⟨sumOf D (s.heard id ++ c.samples id), none⟩) ∧
      (s.output c).1.m_pRDc_Var = s.unit.m_pMicInfo_Rdc.map fun id =>
        squaresOf (s.heard id ++ c.samples id) := by
    intro hlt
    have hsums := collect_sums (hs.sums (by omega)) (hs.squares (by omega)) c s.pos (le_refl _)
    have hall : ∀ id, (c.samples id).take c.len = c.samples id := fun id =>
      List.take_of_length_le (Nat.le_of_eq (hsamples id))
    simp only [hall] at hsums
    rw [hs.unit_of_lt c hlt]
    refine ⟨?_, hsums⟩
    show s.unit.m_iCurLen + c.len = _
    rw [hs.cur]
    omega
  refine ⟨?_, ?_, ?_, ?_, ?_, ?_⟩
  · show (s.output c).1.m_iCurLen = min (s.pos + c.len) (s.output c).1.m_iMaxLen
    rw [hmax]
    by_cases hpos : s.unit.m_iMaxLen ≤ s.pos
    · rw [hs.unit_of_le c hpos, hs.cur]
      omega
    by_cases hend : s.unit.m_iMaxLen ≤ s.pos + c.len
    · rw [hs.unit_of_end c (by omega) hend]
      show s.unit.m_iCurLen + (s.unit.m_iMaxLen - s.pos) = _
      rw [hs.cur]
      omega
    · rw [(hopen (by omega)).1]
      omega
  · intro id
    show (s.heard id ++ c.samples id).length = s.pos + c.len
    rw [List.length_append, hs.heard id, hsamples id]
  · show s.passed + (s.output c).2.2 = s.pos + c.len - (s.output c).1.m_iMaxLen
    rw [hmax, hs.left c, hs.passed]
    omega
  · intro hlt
    show (s.output c).1.m_pRDc = (s.output c).1.m_pMicInfo_Rdc.map _
    rw [hmics]
    exact (hopen (hmax ▸ hlt)).2.1
  · intro hlt
    show (s.output c).1.m_pRDc_Var = (s.output c).1.m_pMicInfo_Rdc.map _
    rw [hmics]
    exact (hopen (hmax ▸ hlt)).2.2
  · show ∃ mean ok, (s.output c).1.m_pRDc = (s.output c).1.m_pMicInfo_Rdc.map mean ∧
      (s.output c).1.m_bMicOk = (s.output c).1.m_pMicInfo_Rdc.map ok
    rw [hmics]
    exact hs.output_byMic c

/-! ### One call -/

omit [CFloat F] [CDouble F D] in
/-- The entry of a microphone. -/
theorem muted_iff {u : R2memRdc (Tracked F) D} {ok : Int → Bool}
    (hok : u.m_bMicOk = u.m_pMicInfo_Rdc.map ok) (id : Int) :
    u.Muted id ↔ id ∈ u.m_pMicInfo_Rdc ∧ ok id = false := by
  unfold Muted
  rw [hok]
  constructor
  · rintro ⟨i, hi, hfalse⟩
    rw [List.getElem?_map, hi] at hfalse
    exact ⟨List.mem_of_getElem? hi, Option.some.inj hfalse⟩
  · rintro ⟨hmem, hfalse⟩
    obtain ⟨i, hi⟩ := List.getElem?_of_mem hmem
    refine ⟨i, hi, ?_⟩
    rw [List.getElem?_map, hi, Option.map_some, hfalse]

omit [CDouble F D] in
/-- A subtraction keeps the position. -/
theorem source_corrected (mean x : Tracked F) :
    (corrected true mean x).source = x.source := rfl

omit [CFloat F] in
theorem source_arriving (c : Chunk F) (pos : Nat) (id : Int) {j : Nat} (hj : j < c.len) :
    (c.arriving pos id j).source = some (pos + j) := if_pos hj

/-- In a broken channel of the list every sample left is zero. -/
theorem iterate_broken {mean : Tracked F} {row : Nat → Tracked F} {iCur n count : Nat}
    (hcount : 0 < count) {j : Nat} (hj : j < n) :
    (Shift.pass (corrected false mean) iCur n)^[count] row j = CFloat.ofInt 0 := by
  obtain ⟨m, rfl⟩ := Nat.exists_eq_add_of_lt hcount
  rw [Nat.zero_add, Shift.iterate_succ_of_lt m hj]
  rfl

/-- Where a sample left in a channel comes from, by the passes over it. -/
theorem Follows.from_iff (hs : s.Follows) (c : Chunk F) {mean : Int → Tracked F} {ok : Int → Bool}
    (hmean : (s.output c).1.m_pRDc = s.unit.m_pMicInfo_Rdc.map mean)
    (hok : (s.output c).1.m_bMicOk = s.unit.m_pMicInfo_Rdc.map ok) (id : Int) {j : Nat}
    (hj : j < (s.output c).2.2) (p : Nat) {x : Tracked F}
    (hx : (Shift.pass (corrected (ok id) (mean id)) (min (s.unit.m_iMaxLen - s.pos) c.len)
      (s.output c).2.2)^[s.unit.m_pMicInfo_Rdc.count id] (c.arriving s.pos id) j = x) :
    (s.output c).1.From id ((s.output c).2.1 id j) p ↔
      x.source = some p ∨ x = CFloat.ofInt 0 ∧ id ∈ s.unit.m_pMicInfo_Rdc ∧ ok id = false := by
  rw [← output_mics s c] at hmean hok hx ⊢
  unfold From
  rw [hs.channels c (Nat.zero_lt_of_lt hj), correct_eq hmean hok, hx, muted_iff hok]

/-- A chunk behind the first samples stays where it is. -/
theorem Follows.aligned_of_le (hs : s.Follows) (refs : MicIdLst) (c : Chunk F)
    (hpos : s.unit.m_iMaxLen ≤ s.pos) : s.Aligned refs c := by
  intro id _ j hj
  obtain ⟨mean, ok, hmean, hok⟩ := hs.output_byMic c
  have hleft := hs.left c
  rw [hs.from_iff c hmean hok id hj _ rfl, hs.passed,
    show min (s.unit.m_iMaxLen - s.pos) c.len = 0 by omega]
  have hsource := source_arriving c s.pos id (j := j) (by omega)
  by_cases hmem : id ∈ s.unit.m_pMicInfo_Rdc ∧ ok id = false
  · rw [hmem.2, iterate_broken (List.count_pos_iff.mpr hmem.1) hj]
    exact .inr ⟨rfl, hmem.1, rfl⟩
  · left
    have hkept : ((Shift.pass (corrected (ok id) (mean id)) 0
        (s.output c).2.2)^[s.unit.m_pMicInfo_Rdc.count id] (c.arriving s.pos id) j).source =
        (c.arriving s.pos id j).source := by
      by_cases hin : id ∈ s.unit.m_pMicInfo_Rdc
      · have htrue : ok id = true := by
          rw [← Bool.not_eq_false]
          exact fun h => hmem ⟨hin, h⟩
        rw [htrue]
        exact Shift.key_iterate_zero (source_corrected (mean id)) _ j
      · rw [List.count_eq_zero_of_not_mem hin]
        rfl
    rw [hkept, hsource]
    congr 1
    omega

/-- A chunk that goes beyond the first samples. -/
theorem Follows.aligned_iff_of_end (hs : s.Follows) (refs : MicIdLst) (c : Chunk F)
    (hpos : s.pos < s.unit.m_iMaxLen) (hend : s.unit.m_iMaxLen < s.pos + c.len) :
    s.Aligned refs c ↔ s.InStep refs c := by
  obtain ⟨mean, hmean, hok⟩ := hs.verdict c hpos (by omega)
  have hleft := hs.left c
  have hiff := fun id j hj p => hs.from_iff c hmean hok id (j := j) hj p rfl
  have hcur : min (s.unit.m_iMaxLen - s.pos) c.len = s.unit.m_iMaxLen - s.pos := by omega
  have hn : (s.output c).2.2 = s.pos + c.len - s.unit.m_iMaxLen := by omega
  have hrow : ∀ id, ∀ j < (s.output c).2.2 + (s.unit.m_iMaxLen - s.pos),
      (c.arriving s.pos id j).source = some (s.pos + j) := by
    intro id j hj
    exact source_arriving c s.pos id (by omega)
  have hpassed := hs.passed
  rw [hcur] at hiff
  unfold Aligned InStep
  constructor
  · intro h _ _ id hid
    -- the first sample left says it all
    have hfirst := (hiff id 0 (by omega) _).mp (h id hid 0 (by omega))
    by_cases hin : id ∈ s.unit.m_pMicInfo_Rdc
    · refine ⟨hin, ?_⟩
      by_contra hnot
      push Not at hnot
      obtain ⟨hcount, hlong, hbroken⟩ := hnot
      have hpos' := List.count_pos_iff.mpr hin
      obtain ⟨m, hm⟩ := Nat.exists_eq_add_of_le (show 2 ≤ s.unit.m_pMicInfo_Rdc.count id by omega)
      rw [ne_eq, Bool.not_eq_true] at hbroken
      rw [hbroken, hm, Nat.add_comm 2 m] at hfirst
      rcases hfirst with hfirst | ⟨-, -, hfalse⟩
      · refine Shift.key_iterate_ne (source_corrected (mean id)) (hrow id) (by omega) (by omega) m ?_
        refine hfirst.trans (congrArg some ?_)
        omega
      · cases hfalse
    · rw [List.count_eq_zero_of_not_mem hin] at hfirst
      rcases hfirst with hfirst | ⟨-, hmem, -⟩
      · have hsource := (hrow id 0 (by omega)).symm.trans hfirst
        have heq := Option.some.inj hsource
        omega
      · exact absurd hmem hin
  · intro h id hid j hj
    obtain ⟨hin, hcase⟩ := h hpos hend id hid
    have hpos' := List.count_pos_iff.mpr hin
    obtain ⟨m, hm⟩ := Nat.exists_eq_add_of_lt hpos'
    rw [Nat.zero_add] at hm
    rw [hiff id j hj]
    cases hbroken : Broken D ((s.heard id ++ c.samples id).take s.unit.m_iMaxLen) with
    | true =>
      rw [Bool.not_true, iterate_broken hpos' hj]
      exact .inr ⟨rfl, hin, rfl⟩
    | false =>
      left
      -- the channel is moved once, or as if it were
      have hmoved : (Shift.pass (corrected true (mean id)) (s.unit.m_iMaxLen - s.pos)
          (s.output c).2.2)^[s.unit.m_pMicInfo_Rdc.count id] (c.arriving s.pos id) j =
          corrected true (mean id) (c.arriving s.pos id (j + (s.unit.m_iMaxLen - s.pos))) := by
        rw [hm]
        rcases hcase with hone | hshort | htrue
        · obtain rfl : m = 0 := by omega
          exact Shift.iterate_succ_of_lt 0 hj
        · exact Shift.iterate_of_le (by omega) m hj
        · rw [hbroken] at htrue
          cases htrue
      rw [Bool.not_false, hmoved, source_corrected, hrow id _ (by omega)]
      congr 1
      omega

/-- The samples left are in step exactly if the call is of the right kind. -/
theorem Follows.aligned_iff (hs : s.Follows) (refs : MicIdLst) (c : Chunk F) :
    s.Aligned refs c ↔ s.InStep refs c := by
  by_cases hpos : s.unit.m_iMaxLen ≤ s.pos
  · exact iff_of_true (hs.aligned_of_le refs c hpos) fun h => absurd h (Nat.not_lt.mpr hpos)
  by_cases hend : s.unit.m_iMaxLen < s.pos + c.len
  · exact hs.aligned_iff_of_end refs c (by omega) hend
  · have hleft := hs.left c
    refine iff_of_true ?_ fun _ h => absurd h hend
    intro id _ j hj
    omega

/-! ### Runs -/

/-- In a run the channels used behind the unit are in step, and what is passed on
    has no gap and nothing twice, exactly if every call is of the right kind. -/
theorem aligned_run_iff (mics refs : MicIdLst) (iMaxLen : Nat) (chunks : List (Chunk F)) :
    Objects.Along Run.process (Run.Aligned refs) (Run.new mics iMaxLen : Run F D) chunks ↔
      Objects.Along Run.process (Run.InStep refs) (Run.new mics iMaxLen : Run F D) chunks :=
  Objects.along_iff Run.Follows (fun _ c hs => hs.aligned_iff refs c)
    (fun _ c _ _ hs _ h => hs.process c h) (follows_new mics iMaxLen)

/-- Three samples into a unit that swallows two, for one microphone with one
    reference: the sample left in the reference is the first of the three. -/
theorem reference_not_moved : ¬ ∀ (mics refs : MicIdLst) (iMaxLen : Nat) (chunks : List (Chunk ℚ)),
    Objects.Along Run.process (Run.Aligned refs) (Run.new mics iMaxLen : Run ℚ ℚ) chunks := by
  intro h
  obtain ⟨hfirst, -⟩ := h [0] [1] 2 [⟨fun _ _ => 0, 3⟩]
  obtain hsource | ⟨-, i, hi, -⟩ := hfirst 1 (by simp) 0 (by decide)
  · have hkept : (((Run.new [0] 2 : Run ℚ ℚ).output ⟨fun _ _ => 0, 3⟩).2.1 1 0).source = some 0 :=
      rfl
    rw [hkept] at hsource
    exact absurd (Option.some.inj hsource) (by decide)
  · cases i with
    | zero => exact absurd (Option.some.inj hi) (by decide)
    | succ i => cases hi

end Run

end R2memRdc

end BlackSiren

import BlackSiren.Legacy.Vad2Calls

/-! # What `r2mem_vad2` does with its input

    Every sample given to `process` should be fed to the engine exactly once, in
    order, or still be held.  It is, unless a call closes speech with frames left
    over in its batch: the loop moves those to the front, and the move behind the
    loop overwrites them with what lies behind the batch, be it in the array or not.

    - `MovesInside`: a call whose last move reads inside the array
    - `Lossless`: a call for which that move does not matter
    - `input_ledger`: one call moves inside and keeps the books exactly if it is
      lossless
    - `ledger_iff`: so does a run exactly if all its calls are
-/

namespace BlackSiren

namespace R2memVad2

variable {F : Type} {eng : VadEngine F}

/-- The first frames are the first samples. -/
theorem waves_take (v : R2memVad2 F eng) {r fuel : Nat} (h : r ≤ fuel) :
    ((v.waves 0 fuel).take r).flatten = (List.range (r * m_iFrmSize)).map v.m_pData_In := by
  induction r with
  | zero => simp
  | succ r ih =>
    have hwave : (v.waves 0 fuel)[r]? = some (v.wave r) := by
      rw [waves, List.getElem?_map, List.getElem?_range' h, Option.map_some]
      congr 2
      omega
    rw [List.take_add_one, hwave, List.flatten_append, ih (Nat.le_of_succ_le h), Nat.succ_mul,
      map_range_add]
    simp [wave]

section

variable [CFloat F]

/-! ### One call -/

/-- What the array holds when the chunk has been added. -/
theorem filled_samples (v : R2memVad2 F eng) (c : VadInput F) :
    (List.range (v.m_iLen_In + c.pData_In.length)).map (v.filled c).m_pData_In =
      v.held ++ c.pData_In := by
  rw [map_range_add]
  have hheld : (List.range v.m_iLen_In).map (v.filled c).m_pData_In = v.held := by
    refine List.map_congr_left ?_
    intro k hk
    have hk := List.mem_range.mp hk
    -- the positions below the old length are not written
    have hold : ¬ (v.m_iLen_In ≤ k) := Nat.not_le.mpr hk
    simp [filled, addInData, hold]
  have hnew : (List.range c.pData_In.length).map
        (fun k => (v.filled c).m_pData_In (v.m_iLen_In + k)) =
      c.pData_In := by
    refine List.ext_getElem (by simp) ?_
    intro k _ hk
    simp [filled, addInData, chunk, hk]
  rw [hheld, hnew]

omit [CFloat F] in
/-- What is held after the move behind the loop. -/
theorem held_tailMove (n : Nat) (v : R2memVad2 F eng) :
    (v.tailMove n).held =
      (List.range v.m_iLen_In).map fun k => v.m_pData_In (m_iFrmSize * n + k) := by
  unfold tailMove
  split
  · exact List.map_congr_left fun k hk => if_pos (List.mem_range.mp hk)
  · next h =>
    rcases Nat.eq_zero_or_pos v.m_iLen_In with hlen | hlen
    · rw [held, hlen]
      rfl
    · have hn : n = 0 := Nat.eq_zero_of_not_pos fun hn => h ⟨hlen, hn⟩
      refine List.map_congr_left ?_
      intro k _
      rw [hn, Nat.mul_zero, Nat.zero_add]

/-- The frames a call reads. -/
def framesRead (v : R2memVad2 F eng) (c : VadInput F) : Nat :=
  ((v.cut c).reads 0 (v.frmNum c) c.bIsEnd c.bIsAec c.bForceStart).1

/-- The call closes speech with frames left over. -/
def ClosesEarly (v : R2memVad2 F eng) (c : VadInput F) : Prop :=
  (v.cut c).StopsShort 0 (v.frmNum c) c.bIsEnd c.bIsAec c.bForceStart

/-- The batch is whole frames, and what the array happens to hold behind it is a copy
    of the frames left over. -/
def Copied (v : R2memVad2 F eng) (c : VadInput F) : Prop :=
  (v.m_iLen_In + c.pData_In.length) % m_iFrmSize = 0 ∧
    ∀ k < (v.frmNum c - v.framesRead c) * m_iFrmSize,
      (v.filled c).m_pData_In (m_iFrmSize * v.frmNum c + k) =
        (v.filled c).m_pData_In (v.framesRead c * m_iFrmSize + k)

/-- If the call closes speech with frames left over, then as many frames behind the
    batch are still in the array, and are a copy of those. -/
def Lossless (v : R2memVad2 F eng) (c : VadInput F) : Prop :=
  v.ClosesEarly c →
    v.Copied c ∧
      m_iFrmSize * v.frmNum c + (v.frmNum c - v.framesRead c) * m_iFrmSize ≤
        (v.filled c).m_iLen_In_Total

/-- The move behind the loop reads inside the array. -/
def MovesInside (v : R2memVad2 F eng) (c : VadInput F) : Prop :=
  m_iFrmSize * v.frmNum c + (v.loop c).1.m_iLen_In ≤ (v.filled c).m_iLen_In_Total

theorem framesRead_le (v : R2memVad2 F eng) (c : VadInput F) : v.framesRead c ≤ v.frmNum c := by
  have hle := VadEngine.readUntilStop_le c.bIsEnd c.bIsAec c.bForceStart (v.cut c).m_hEngine_Vad
    (v.cut c).m_iVadState ((v.cut c).waves 0 (v.frmNum c))
  rwa [length_waves] at hle

/-- What the unit holds when the loop is done. -/
theorem loop_m_iLen_In (v : R2memVad2 F eng) (c : VadInput F) :
    (v.ClosesEarly c → (v.loop c).1.m_iLen_In = (v.frmNum c - v.framesRead c) * m_iFrmSize) ∧
      (¬ v.ClosesEarly c → (v.loop c).1.m_iLen_In =
        v.m_iLen_In + c.pData_In.length - v.frmNum c * m_iFrmSize) := by
  have hrest := frames_rest c.bIsEnd c.bIsAec c.bForceStart (Nat.zero_add (v.frmNum c)) (v.cut c)
  exact ⟨fun h => hrest.len.trans (if_pos h), fun h => hrest.len.trans (if_neg h)⟩

/-- A call that leaves no frames over holds what does not fill a frame. -/
theorem input_m_iLen_In {v v' : R2memVad2 F eng} {c : VadInput F} {a : List F × VadResult}
    (h : v.input c = .ok (v', a)) (hearly : ¬ v.ClosesEarly c) :
    v'.m_iLen_In = (v.m_iLen_In + c.pData_In.length) % m_iFrmSize := by
  obtain ⟨-, rfl, -⟩ := input_eq_ok.mp h
  rw [tailMove_m_iLen_In, (loop_m_iLen_In v c).2 hearly, Nat.mod_eq_sub_div_mul]
  rfl

/-- The array has room for the batch. -/
theorem filled_m_iLen_In_Total (v : R2memVad2 F eng) (c : VadInput F) :
    v.m_iLen_In + c.pData_In.length ≤ (v.filled c).m_iLen_In_Total := by
  simp only [filled, addInData]
  split
  · omega
  · omega

/-- Only a call that closes speech early can move from outside the array. -/
theorem movesInside_iff (v : R2memVad2 F eng) (c : VadInput F) :
    v.MovesInside c ↔ (v.ClosesEarly c →
      m_iFrmSize * v.frmNum c + (v.frmNum c - v.framesRead c) * m_iFrmSize ≤
        (v.filled c).m_iLen_In_Total) := by
  unfold MovesInside
  by_cases hearly : v.ClosesEarly c
  · rw [(loop_m_iLen_In v c).1 hearly]
    exact ⟨fun h _ => h, fun h => h hearly⟩
  · rw [(loop_m_iLen_In v c).2 hearly]
    refine iff_of_true ?_ fun h => absurd h hearly
    have hroom := filled_m_iLen_In_Total v c
    have hbatch : v.frmNum c * m_iFrmSize ≤ v.m_iLen_In + c.pData_In.length :=
      Nat.div_mul_le_self _ _
    rw [Nat.mul_comm m_iFrmSize]
    omega

theorem lossless_iff (v : R2memVad2 F eng) (c : VadInput F) :
    v.Lossless c ↔ v.MovesInside c ∧ (v.ClosesEarly c → v.Copied c) := by
  rw [movesInside_iff, ← forall_and]
  exact forall_congr' fun _ => and_comm

/-- The samples that are not fed are held, exactly if what the last move copies is
    what it overwrites. -/
theorem held_iff (v : R2memVad2 F eng) (c : VadInput F) :
    ((v.loop c).1.tailMove (v.frmNum c)).held =
        (List.range (v.m_iLen_In + c.pData_In.length - v.framesRead c * m_iFrmSize)).map
          (fun k => (v.filled c).m_pData_In (v.framesRead c * m_iFrmSize + k)) ↔
      (v.ClosesEarly c → v.Copied c) := by
  have hrest := frames_rest c.bIsEnd c.bIsAec c.bForceStart (Nat.zero_add (v.frmNum c)) (v.cut c)
  have hsize : m_iFrmSize = 160 := rfl
  have hnum : v.frmNum c = (v.m_iLen_In + c.pData_In.length) / m_iFrmSize := rfl
  rw [held_tailMove, map_range_inj]
  unfold Copied
  by_cases hearly : v.ClosesEarly c
  · have hlen := (loop_m_iLen_In v c).1 hearly
    have hlt : v.framesRead c < v.frmNum c := hearly.2
    -- the second move reads from behind the frames the first one has moved
    have hdata : ∀ k, (v.loop c).1.m_pData_In (m_iFrmSize * v.frmNum c + k) =
        (v.filled c).m_pData_In (m_iFrmSize * v.frmNum c + k) := by
      intro k
      refine (hrest.data _).trans (if_neg ?_)
      rintro ⟨-, hk⟩
      rw [hsize] at hk
      omega
    rw [hlen]
    simp only [hdata, hearly, true_imp_iff]
    refine and_congr_left' ?_
    rw [hsize] at hnum ⊢
    omega
  · have hlen := (loop_m_iLen_In v c).2 hearly
    have hdata : ∀ k, (v.loop c).1.m_pData_In k = (v.filled c).m_pData_In k :=
      fun k => (hrest.data k).trans (if_neg fun h => hearly h.1)
    have hall : v.framesRead c = v.frmNum c := reads_all hearly
    refine iff_of_true ⟨?_, ?_⟩ fun h => absurd h hearly
    · rw [hlen, hall]
    · intro k _
      rw [hdata, hall, Nat.mul_comm]

/-- One call: the samples fed and those held are all there were, exactly if the last
    move puts back what it overwrites. -/
theorem books_iff {v v' : R2memVad2 F eng.recorded} {c : VadInput F} {a : List F × VadResult}
    (h : v.input c = .ok (v', a)) :
    VadEngine.fedSamples v'.m_hEngine_Vad ++ v'.held =
        VadEngine.fedSamples v.m_hEngine_Vad ++ v.held ++ c.pData_In ↔
      (v.ClosesEarly c → v.Copied c) := by
  obtain ⟨-, rfl, -⟩ := input_eq_ok.mp h
  have hfed := frames_fed c.bIsEnd c.bIsAec c.bForceStart (v.frmNum c) (v.frmNum c) 0 (v.cut c)
  have htaken : (v.cut c).taken 0 (v.frmNum c) c.bIsEnd c.bIsAec c.bForceStart =
      (List.range (v.framesRead c * m_iFrmSize)).map (v.cut c).m_pData_In :=
    waves_take (v.cut c) (framesRead_le v c)
  rw [htaken] at hfed
  have hfed : VadEngine.fedSamples (v.loop c).1.m_hEngine_Vad =
      VadEngine.fedSamples v.m_hEngine_Vad ++
        (List.range (v.framesRead c * m_iFrmSize)).map (v.filled c).m_pData_In := hfed
  have hle : v.framesRead c * m_iFrmSize ≤ v.m_iLen_In + c.pData_In.length :=
    Nat.le_trans (Nat.mul_le_mul_right _ (framesRead_le v c)) (Nat.div_mul_le_self _ _)
  -- behind what was fed already: the frames read, and then what is held
  rw [← held_iff, tailMove_m_hEngine_Vad, hfed, List.append_assoc, List.append_assoc,
    List.append_cancel_left_eq, ← filled_samples, ← Nat.add_sub_cancel' hle, map_range_add,
    List.append_cancel_left_eq, Nat.add_sub_cancel_left]

/-- And it moves inside the array too exactly if it is lossless. -/
theorem input_ledger {v v' : R2memVad2 F eng.recorded} {c : VadInput F} {a : List F × VadResult}
    (h : v.input c = .ok (v', a)) :
    (v.MovesInside c ∧ VadEngine.fedSamples v'.m_hEngine_Vad ++ v'.held =
        VadEngine.fedSamples v.m_hEngine_Vad ++ v.held ++ c.pData_In) ↔ v.Lossless c := by
  rw [books_iff h, lossless_iff]

/-! ### Runs -/

/-- From any state whose books are right. -/
theorem ledger_iff_from {v v' : R2memVad2 F eng.recorded} {given : List F}
    {cs : List (VadInput F)} {answers : List (List F × VadResult)}
    (hv : VadEngine.fedSamples v.m_hEngine_Vad ++ v.held = given)
    (hrun : Objects.run input v cs = .ok (v', answers)) :
    (Objects.Along input MovesInside v cs ∧
        ∀ pre post v₁ answers₁, cs = pre ++ post → Objects.run input v pre = .ok (v₁, answers₁) →
          VadEngine.fedSamples v₁.m_hEngine_Vad ++ v₁.held =
            given ++ pre.flatMap fun c => c.pData_In) ↔
      Objects.Along input Lossless v cs := by
  -- one call is checked by `input_ledger`, the rest from the state it leaves
  induction cs generalizing v given answers with
  | nil =>
    refine iff_of_true ⟨trivial, ?_⟩ trivial
    intro pre post v₁ answers₁ hsplit h
    obtain ⟨rfl, -⟩ := List.append_eq_nil_iff.mp hsplit.symm
    cases h
    rw [hv, List.flatMap_nil, List.append_nil]
  | cons c cs ih =>
    obtain ⟨w, a, as, hc, hr, rfl⟩ := Objects.run_cons_eq_ok.mp hrun
    have hstep := input_ledger hc
    rw [hv] at hstep
    constructor
    · rintro ⟨⟨hinside, hinsides⟩, h⟩
      have hfirst : VadEngine.fedSamples w.m_hEngine_Vad ++ w.held = given ++ c.pData_In := by
        -- the books after the first call
        have := h [c] cs w [a] rfl (Objects.run_cons_eq_ok.mpr ⟨w, a, [], hc, rfl, rfl⟩)
        rwa [List.flatMap_singleton] at this
      refine ⟨hstep.mp ⟨hinside, hfirst⟩, ?_⟩
      intro s' a' hs'
      -- a call has one result
      have heq : (w, a) = (s', a') := Except.ok.inj (hc.symm.trans hs')
      cases heq
      refine (ih hfirst hr).mp ⟨hinsides w a hc, ?_⟩
      intro pre post v₁ answers₁ hsplit h₁
      have := h (c :: pre) post v₁ (a :: answers₁) (by rw [hsplit, List.cons_append])
        (Objects.run_cons_eq_ok.mpr ⟨w, a, answers₁, hc, h₁, rfl⟩)
      rwa [List.flatMap_cons, ← List.append_assoc] at this
    · rintro ⟨hlossless, hrest⟩
      obtain ⟨hinside, hfirst⟩ := hstep.mpr hlossless
      obtain ⟨hinsides, hbooks⟩ := (ih hfirst hr).mpr (hrest w a hc)
      refine ⟨⟨hinside, ?_⟩, ?_⟩
      · intro s' a' hs'
        have heq : (w, a) = (s', a') := Except.ok.inj (hc.symm.trans hs')
        cases heq
        exact hinsides
      · intro pre post v₁ answers₁ hsplit h
        cases pre with
        | nil =>
          cases h
          rw [hv, List.flatMap_nil, List.append_nil]
        | cons d pre =>
          rw [List.cons_append] at hsplit
          obtain ⟨rfl, rfl⟩ := List.cons.inj hsplit
          obtain ⟨w', a', as', hc', hr', rfl⟩ := Objects.run_cons_eq_ok.mp h
          have heq : (w, a) = (w', a') := Except.ok.inj (hc.symm.trans hc')
          cases heq
          have := hbooks pre post v₁ as' rfl hr'
          rwa [List.flatMap_cons, ← List.append_assoc]

/-- Two chunks with no forced start. -/
def chunks : VadInput ℚ × VadInput ℚ :=
  (⟨List.replicate 481 0, false, false, false⟩, ⟨List.replicate 200 1, false, false, false⟩)

end

end R2memVad2

end BlackSiren

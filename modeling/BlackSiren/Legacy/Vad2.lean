import BlackSiren.Legacy.Basic

/-! # `r2mem_vad2`: voice activity detection

    The unit cuts its input into frames of 10 ms and feeds them to the VAD
    engine, reports where speech begins and ends, and hands out the frames of
    the speech.  The engine is outside the repository: `VadEngine` is any state
    machine with the queries of `NNVadIntf.h`.
-/

namespace BlackSiren

/-- The parameters `VD_SetVadParam` is called with. -/
inductive VadParam where
  | VD_PARAM_MAXSPEECHFRAMENUM
  | VD_PARAM_MINSILFRAMENUM
  | VD_PARAM_ENDPITCH_FRAMENUM
  deriving DecidableEq, Repr

/-- The VAD engine. -/
structure VadEngine (F : Type) where
  State : Type
  /-- `VD_NewVad`. -/
  create : State
  /-- `VD_SetVadParam`. -/
  setParam : State → VadParam → Int → State
  /-- `VD_RestartVad`. -/
  restart : State → State
  /-- `VD_SetStart`. -/
  setStart : State → Bool → State
  /-- `VD_InputFloatWave`: samples, `bIsEnd`, `bIsAec`. -/
  input : State → List F → Bool → Bool → State
  /-- `VD_GetVoiceStartFrame`. -/
  startFrame : State → Int
  /-- `VD_GetVoiceFrameNum`. -/
  frameNum : State → Int
  /-- `VD_GetFloatVoice`. -/
  voice : State → Nat → F
  /-- `VD_GetVoiceStopFrame`. -/
  stopFrame : State → Int

/-- The bits `r2vad_audio_begin` and `r2vad_audio_end` of a result. -/
structure VadResult where
  audio_begin : Bool
  audio_end : Bool
  deriving DecidableEq, Repr

/-- `r2mem_vad2`. `m_pData_In` is the input array with all it holds, since
    `process` may copy back what lies behind its first `m_iLen_In` entries
    (past the end of the array the model reads zeros). The output array is
    rewritten by each call and returned by it. -/
structure R2memVad2 (F : Type) (eng : VadEngine F) where
  m_iLen_In : Nat
  m_iLen_In_Total : Nat
  m_pData_In : Nat → F
  m_hEngine_Vad : eng.State
  m_iLastFrame : Nat
  m_iVadState : Bool
  m_iVadEndParam : Int
  m_iVadEndPitchParam : Int

namespace R2memVad2

variable {F : Type} {eng : VadEngine F}

/-- `m_iFrmSize`. -/
def m_iFrmSize : Nat := R2_FRAME_SIZE

/-- `setvadendparam`. -/
def setvadendparam (v : R2memVad2 F eng) (iFrmNum : Int) : R2memVad2 F eng :=
  let h := v.m_hEngine_Vad
  let (sil, pitch) :=
    if iFrmNum ≤ 0 then (v.m_iVadEndParam, v.m_iVadEndPitchParam) else (iFrmNum, 0)
  { v with
    m_hEngine_Vad :=
      eng.setParam (eng.setParam h .VD_PARAM_MINSILFRAMENUM sil)
        .VD_PARAM_ENDPITCH_FRAMENUM pitch }

/-- `forcestart`. -/
def forcestart (v : R2memVad2 F eng) (bIsAec : Bool) : R2memVad2 F eng :=
  { v with m_hEngine_Vad := eng.setStart v.m_hEngine_Vad bIsAec }

/-- `reset`. -/
def reset (v : R2memVad2 F eng) : R2memVad2 F eng :=
  { v with
    m_iLastFrame := 0
    m_iVadState := false
    m_hEngine_Vad := eng.restart v.m_hEngine_Vad }

/-- The constructor; its three range arguments are not used. -/
def new [CFloat F] : R2memVad2 F eng :=
  let h := eng.setParam eng.create .VD_PARAM_MAXSPEECHFRAMENUM 1000
  setvadendparam
    { m_iLen_In := 0
      m_iLen_In_Total := R2_AUDIO_SAMPLE_RATE * 5
      m_pData_In := fun _ => CFloat.ofInt 0
      m_hEngine_Vad := h
      m_iLastFrame := 0
      m_iVadState := false
      m_iVadEndParam := 45
      m_iVadEndPitchParam := 1 } 0

/-- `AddInData`. -/
def addInData [CFloat F] (v : R2memVad2 F eng) (pData_In : Nat → F) (iLen_In : Nat) :
    R2memVad2 F eng :=
  let tooSmall := iLen_In + v.m_iLen_In > v.m_iLen_In_Total
  -- a larger array is zero behind the samples that are kept
  let old := fun i =>
    if tooSmall ∧ v.m_iLen_In ≤ i then CFloat.ofInt 0 else v.m_pData_In i
  { v with
    m_iLen_In_Total :=
      if tooSmall then (iLen_In + v.m_iLen_In) * 2 else v.m_iLen_In_Total
    m_pData_In := fun i =>
      if v.m_iLen_In ≤ i ∧ i < v.m_iLen_In + iLen_In then pData_In (i - v.m_iLen_In) else old i
    m_iLen_In := v.m_iLen_In + iLen_In }

/-- The voice frames the engine has gained since `m_iLastFrame`: the argument
    of `AddOutData`. -/
def takeVoice (v : R2memVad2 F eng) : R2memVad2 F eng × List F :=
  let iCurFrame := eng.frameNum v.m_hEngine_Vad
  if iCurFrame > v.m_iLastFrame then
    let iLen := (iCurFrame.toNat - v.m_iLastFrame) * m_iFrmSize
    ({ v with m_iLastFrame := iCurFrame.toNat },
      (List.range iLen).map fun k =>
        eng.voice v.m_hEngine_Vad (v.m_iLastFrame * m_iFrmSize + k))
  else (v, [])

/-- The engine reads frame `i`. -/
def inputFrame (v : R2memVad2 F eng) (i : Nat) (bIsEnd bIsAec : Bool) : R2memVad2 F eng :=
  let wave := (List.range m_iFrmSize).map fun k => v.m_pData_In (i * m_iFrmSize + k)
  { v with m_hEngine_Vad := eng.input v.m_hEngine_Vad wave bIsEnd bIsAec }

/-- A turn of the loop while no speech is open (`m_iVadState == 0`). -/
def idleFrame (v : R2memVad2 F eng) (i : Nat) (bIsEnd bIsAec bForceStart : Bool) :
    R2memVad2 F eng × List F × Bool :=
  let v := if bForceStart then (v.forcestart bIsAec).setvadendparam 2000 else v
  let v := v.inputFrame i bIsEnd bIsAec
  if eng.startFrame v.m_hEngine_Vad ≥ 0 then
    let (v, out) := takeVoice { v with m_iLastFrame := 0, m_iVadState := true }
    (v, out, true)
  else (v, [], false)

/-- A turn of the loop inside speech. At its end the frames behind frame `i`
    are moved to the front of the input. -/
def speechFrame (v : R2memVad2 F eng) (i iFrmNum : Nat) (bIsEnd bIsAec : Bool) :
    R2memVad2 F eng × List F × Bool :=
  let v := v.inputFrame i bIsEnd bIsAec
  let (v, out) := takeVoice v
  if eng.stopFrame v.m_hEngine_Vad > 0 then
    let v := { v with m_hEngine_Vad := eng.restart v.m_hEngine_Vad, m_iVadState := false }
    let i := i + 1
    if i < iFrmNum then
      let left := (iFrmNum - i) * m_iFrmSize
      ({ v with
          m_iLen_In := left
          m_pData_In := fun k =>
            if k < left then v.m_pData_In (i * m_iFrmSize + k) else v.m_pData_In k },
        out, true)
    else (v, out, true)
  else (v, out, false)

/-- The loop over the frames from `i` on; `fuel` is `iFrmNum - i`. -/
def frames (bIsEnd bIsAec bForceStart : Bool) (iFrmNum : Nat) :
    Nat → Nat → R2memVad2 F eng → R2memVad2 F eng × List F × VadResult
  | 0, _, v => (v, [], ⟨false, false⟩)
  | fuel + 1, i, v =>
      if v.m_iVadState then
        let (v, out, stopped) := speechFrame v i iFrmNum bIsEnd bIsAec
        if stopped then (v, out, ⟨false, true⟩)
        else
          let (v, out', rt) := frames bIsEnd bIsAec bForceStart iFrmNum fuel (i + 1) v
          (v, out ++ out', rt)
      else
        let (v, out, started) := idleFrame v i bIsEnd bIsAec bForceStart
        let (v, out', rt) := frames bIsEnd bIsAec bForceStart iFrmNum fuel (i + 1) v
        (v, out ++ out', { rt with audio_begin := started || rt.audio_begin })

/-- `process`: the unit afterwards, the speech samples and the result bits. The move
    behind the loop is not held to the array here: see `MovesInside` in
    `BlackSiren.Legacy.Vad2Ledger`. -/
def process [CFloat F] (v : R2memVad2 F eng) (pData_In : Nat → F) (iLen_In : Int)
    (bIsEnd bIsAec bForceStart : Bool) :
    Except Fault (R2memVad2 F eng × List F × VadResult) := do
  assertThat (0 ≤ iLen_In) .lenIn
  let v := v.addInData pData_In iLen_In.toNat
  let iFrmNum := v.m_iLen_In / m_iFrmSize
  let v := { v with m_iLen_In := v.m_iLen_In - iFrmNum * m_iFrmSize }
  let (v, out, rt) := frames bIsEnd bIsAec bForceStart iFrmNum iFrmNum 0 v
  assertThat (!bForceStart || v.m_iVadState) .vadNotStarted
  let v :=
    if v.m_iLen_In > 0 ∧ iFrmNum > 0 then
      { v with
        m_pData_In := fun k =>
          if k < v.m_iLen_In then v.m_pData_In (m_iFrmSize * iFrmNum + k)
          else v.m_pData_In k }
    else v
  return (v, out, rt)

/-! ### Begin and end

    What the rest of the program relies on: speech begins only where none is
    open and ends only where some is. -/

/-- The results `process` can give, from the open flag before it to the one
    after it. -/
inductive Transition : Bool → VadResult → Bool → Prop where
  | stay (b : Bool) : Transition b ⟨false, false⟩ b
  | begins : Transition false ⟨true, false⟩ true
  | ends : Transition true ⟨false, true⟩ false
  | both : Transition false ⟨true, true⟩ false

@[simp] theorem inputFrame_m_iVadState (v : R2memVad2 F eng) (i : Nat) (e a : Bool) :
    (v.inputFrame i e a).m_iVadState = v.m_iVadState := rfl

@[simp] theorem takeVoice_m_iVadState (v : R2memVad2 F eng) :
    v.takeVoice.1.m_iVadState = v.m_iVadState := by
  simp only [takeVoice]
  split <;> rfl

/-- An idle turn reports a begin exactly when it opens speech. -/
theorem idleFrame_m_iVadState {v : R2memVad2 F eng} (i : Nat) (e a f : Bool)
    (h : v.m_iVadState = false) :
    (idleFrame v i e a f).1.m_iVadState = (idleFrame v i e a f).2.2 := by
  have hforced : (if f then (v.forcestart a).setvadendparam 2000 else v).m_iVadState = false := by
    split
    · exact h
    · exact h
  simp only [idleFrame]
  generalize (if f then (v.forcestart a).setvadendparam 2000 else v) = w at hforced ⊢
  split
  · simp
  · exact hforced

/-- A turn inside speech reports an end exactly when it closes it. -/
theorem speechFrame_m_iVadState {v : R2memVad2 F eng} (i n : Nat) (e a : Bool)
    (h : v.m_iVadState = true) :
    (speechFrame v i n e a).1.m_iVadState = !(speechFrame v i n e a).2.2 := by
  simp only [speechFrame]
  split
  · split <;> rfl
  · simpa using h

/-- From inside speech the loop only stays or ends. -/
theorem frames_of_open (e a f : Bool) (n fuel i : Nat) (v : R2memVad2 F eng)
    (h : v.m_iVadState = true) :
    Transition true (frames e a f n fuel i v).2.2 (frames e a f n fuel i v).1.m_iVadState := by
  induction fuel generalizing i v with
  | zero =>
    simp only [frames]
    rw [h]
    exact .stay true
  | succ fuel ih =>
    have hturn := speechFrame_m_iVadState i n e a h
    simp only [frames, h, if_true]
    cases hs : (speechFrame v i n e a).2.2 with
    | true =>
      rw [hs] at hturn
      simp only [if_true]
      rw [hturn]
      exact .ends
    | false =>
      rw [hs] at hturn
      simp only [Bool.false_eq_true, if_false]
      exact ih (i + 1) _ hturn

theorem frames_transition (e a f : Bool) (n fuel i : Nat) (v : R2memVad2 F eng) :
    Transition v.m_iVadState (frames e a f n fuel i v).2.2
      (frames e a f n fuel i v).1.m_iVadState := by
  cases hv : v.m_iVadState with
  | true => exact frames_of_open e a f n fuel i v hv
  | false =>
    induction fuel generalizing i v with
    | zero =>
      simp only [frames]
      rw [hv]
      exact .stay false
    | succ fuel ih =>
      have hturn := idleFrame_m_iVadState i e a f hv
      simp only [frames, hv, Bool.false_eq_true, if_false]
      cases hs : (idleFrame v i e a f).2.2 with
      | true =>
        rw [hs] at hturn
        -- speech is open now, so the rest of the loop stays or ends
        have hrest := frames_of_open e a f n fuel (i + 1) _ hturn
        simp only [Bool.true_or]
        generalize frames e a f n fuel (i + 1) (idleFrame v i e a f).1 = r at hrest
        obtain ⟨v', out, rt⟩ := r
        simp only at hrest ⊢
        generalize v'.m_iVadState = b at hrest ⊢
        cases hrest with
        | stay => exact .begins
        | ends => exact .both
      | false =>
        rw [hs] at hturn
        simp only [Bool.false_or]
        exact ih (i + 1) _ hturn

/-- `process` from the open flag before it to the one after it; a forced call
    that returns has speech open. -/
theorem process_eq_ok [CFloat F] {v v' : R2memVad2 F eng} {d : Nat → F} {len : Int} {e a f : Bool}
    {out : List F} {rt : VadResult} (h : v.process d len e a f = .ok (v', out, rt)) :
    Transition v.m_iVadState rt v'.m_iVadState ∧ (f = true → v'.m_iVadState = true) := by
  simp only [process] at h
  obtain ⟨_, _, h⟩ := bind_eq_ok.mp h
  -- the state before the loop, of which only the open flag matters here
  generalize hw : ({ v.addInData d len.toNat with
    m_iLen_In := (v.addInData d len.toNat).m_iLen_In
      - (v.addInData d len.toNat).m_iLen_In / m_iFrmSize * m_iFrmSize } : R2memVad2 F eng) = w at h
  have hidle : w.m_iVadState = v.m_iVadState := by rw [← hw]; rfl
  generalize (v.addInData d len.toNat).m_iLen_In / m_iFrmSize = n at h
  have htrans := frames_transition e a f n n 0 w
  generalize frames e a f n n 0 w = r at h htrans
  obtain ⟨_, hforce, h⟩ := bind_eq_ok.mp h
  have hforce := assertThat_eq_ok.mp hforce
  cases h
  rw [← hidle]
  refine ⟨?_, ?_⟩
  · split <;> exact htrans
  · intro hf
    rw [hf] at hforce
    split <;> simpa using hforce

/-- The faults of `process`; the encoder's are not among them. -/
theorem process_eq_error [CFloat F] {v : R2memVad2 F eng} {d : Nat → F} {len : Int} {e a f : Bool}
    {flt : Fault} (h : v.process d len e a f = .error flt) : flt.isCodAssert = false := by
  simp only [process] at h
  rcases bind_eq_error.mp h with h | ⟨_, _, h⟩
  · rw [← (assertThat_eq_error.mp h).2]; rfl
  · rcases bind_eq_error.mp h with h | ⟨_, _, h⟩
    · rw [← (assertThat_eq_error.mp h).2]; rfl
    · cases h

end R2memVad2

end BlackSiren

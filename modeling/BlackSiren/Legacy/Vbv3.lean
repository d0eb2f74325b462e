import BlackSiren.Legacy.Basic

/-! # `r2mem_vbv3`: wake-word detection

    The unit hands the audio of its microphones to the wake-word engine,
    checks the order of the engine's events and remembers the word of the last
    pre event.  The engine is a parameter.
-/

namespace BlackSiren

/-! ### Words and events -/

/-- `WordType`, as the integers the sources cast to it. -/
def WORD_AWAKE : Int := 1
def WORD_SLEEP : Int := 2
def WORD_HOTWORD : Int := 3

/-- `WordInfo`. The last field is `none` where the path was never written. -/
structure WordInfo (F : Type) where
  iWordType : Int
  pWordContent_UTF8 : List UInt8
  pWordContent_PHONE : List UInt8
  fBlockAvgScore : F
  fBlockMinScore : F
  bLeftSilDet : Bool
  bRightSilDet : Bool
  bRemoteAsrCheckWithAec : Bool
  bRemoteAsrCheckWithNoAec : Bool
  bLocalClassifyCheck : Bool
  fClassifyShield : F
  pLocalClassifyNnetPath : Option (List UInt8)
  deriving DecidableEq

/-- `WordDetInfo`. -/
structure WordDetInfo (F : Type) where
  iWordPos_Start : Int
  iWordPos_End : Int
  fEnergy : F
  fWordSlInfo : F × F

/-- The event bits of `r2_vbv_process`. -/
structure VbvResult where
  R2_VT_WORD_PRE : Bool
  R2_VT_WORD_DET : Bool
  R2_VT_WORD_CANCEL : Bool
  R2_VT_WORD_DET_CMD : Bool
  R2_VT_WORD_DET_NOCMD : Bool
  deriving DecidableEq, Repr

/-! ### The engine -/

/-- The members of `r2mem_vbv3` that its constructor does not assign. -/
structure VbvMembers (F : Type) where
  m_bPre : Bool
  m_pWordInfo : Option (WordInfo F)
  m_pWordDetInfo : Option (WordDetInfo F)

/-- The wake-word engine of `zvbvapi.h`. -/
structure VbvEngine (F : Type) where
  State : Type
  /-- `r2_vbv_create`: microphone positions and delays, the two model paths. -/
  create : List (F × F × F) → List F → List UInt8 → List UInt8 → State
  /-- What the unassigned members hold when this engine has been created. -/
  unassigned : State → VbvMembers F
  /-- `r2_vbv_setwords`. -/
  setwords : State → List (WordInfo F) → State
  /-- `r2_vbv_process`: audio, AEC flag and `bDirtyReset`. -/
  process : State → List (List F) → Bool → Bool → State × VbvResult
  /-- `r2_vbv_getdetwordinfo`; a pointer it does not set stays null. -/
  getdetwordinfo : State → Option (WordInfo F) × Option (WordDetInfo F)
  /-- `r2_vbv_getlastaudio`: one row for each microphone. -/
  getlastaudio : State → Int → Int → List (Nat → F)
  /-- `r2_vbv_getsl`. -/
  getsl : State → Int → Int → State × (F × F)

/-! ### The unit -/

/-- `r2mem_vbv3`. -/
structure R2memVbv3 (F : Type) (eng : VbvEngine F) where
  m_pMicInfo_Bf : MicIdLst
  m_hEngine_Vbv : eng.State
  m_bPre : Bool
  m_pWordInfo : Option (WordInfo F)
  m_pWordDetInfo : Option (WordDetInfo F)

namespace R2memVbv3

variable {F : Type} {eng : VbvEngine F}

/-- The members that the constructor leaves as they are. -/
def members (u : R2memVbv3 F eng) : VbvMembers F where
  m_bPre := u.m_bPre
  m_pWordInfo := u.m_pWordInfo
  m_pWordDetInfo := u.m_pWordDetInfo

/-- The constructor, with `InitVbvEngine`. -/
def new (pMicPos : Int → F × F × F) (pMicDelay : Int → F) (pMicInfo_Bf : MicIdLst)
    (pVtNnetPath pVtPhoneTablePath : List UInt8) : R2memVbv3 F eng :=
  let h := eng.create (pMicInfo_Bf.map pMicPos) (pMicInfo_Bf.map pMicDelay)
    pVtNnetPath pVtPhoneTablePath
  let m := eng.unassigned h
  { m_pMicInfo_Bf := pMicInfo_Bf
    m_hEngine_Vbv := h
    m_bPre := m.m_bPre
    m_pWordInfo := m.m_pWordInfo
    m_pWordDetInfo := m.m_pWordDetInfo }

/-- `SetWords`. -/
def SetWords (u : R2memVbv3 F eng) (words : List (WordInfo F)) : R2memVbv3 F eng :=
  { u with m_hEngine_Vbv := eng.setwords u.m_hEngine_Vbv words }

/-- `GetLastAudio`: writes the channels of its microphones and no others. -/
def GetLastAudio (u : R2memVbv3 F eng) (pAudBuff : Chan F) (iStart iEnd : Int) : Chan F :=
  let rows := u.m_pMicInfo_Bf.zip (eng.getlastaudio u.m_hEngine_Vbv iStart iEnd)
  fun id i =>
    match rows.reverse.lookup id with
    | some row => if (i : Int) < iStart - iEnd then row i else pAudBuff id i
    | none => pAudBuff id i

/-- `GetRealSl`. -/
def GetRealSl (u : R2memVbv3 F eng) (iFrmNum : Int) : R2memVbv3 F eng × (F × F) :=
  let (h, sl) := eng.getsl u.m_hEngine_Vbv (iFrmNum * R2_FRAME_SIZE) 0
  ({ u with m_hEngine_Vbv := h }, sl)

/-- `Process`. The flags `bAwake`, `bSleep` and `bHotWord` are not used by it. -/
def Process (u : R2memVbv3 F eng) (pWavBuff : Chan F) (iWavLen : Nat)
    (bDirtyReset bAec : Bool) : Except Fault (R2memVbv3 F eng × VbvResult) := do
  let u := if u.m_bPre then u else { u with m_pWordInfo := none, m_pWordDetInfo := none }
  let wav := u.m_pMicInfo_Bf.map fun id => (List.range iWavLen).map (pWavBuff id)
  let (h, rt) := eng.process u.m_hEngine_Vbv wav bAec bDirtyReset
  let u := { u with m_hEngine_Vbv := h }
  assertThat (!(rt.R2_VT_WORD_PRE && u.m_bPre)) .vbvPre
  let u :=
    if rt.R2_VT_WORD_PRE then
      let (w, d) := eng.getdetwordinfo u.m_hEngine_Vbv
      { u with m_bPre := true, m_pWordInfo := w, m_pWordDetInfo := d }
    else u
  assertThat (!rt.R2_VT_WORD_DET || u.m_bPre) .vbvNoPre
  assertThat (!rt.R2_VT_WORD_CANCEL || u.m_bPre) .vbvNoPre
  let u := if rt.R2_VT_WORD_CANCEL then { u with m_bPre := false } else u
  assertThat (!rt.R2_VT_WORD_DET_CMD || u.m_bPre) .vbvNoPre
  let u := if rt.R2_VT_WORD_DET_CMD then { u with m_bPre := false } else u
  assertThat (!rt.R2_VT_WORD_DET_NOCMD || u.m_bPre) .vbvNoPre
  let u := if rt.R2_VT_WORD_DET_NOCMD then { u with m_bPre := false } else u
  return (u, rt)

/-- The faults of `Process` are the failing checks of the event order. -/
theorem Process_eq_error {u : R2memVbv3 F eng} {wav : Chan F} {len : Nat} {dirty aec : Bool}
    {f : Fault} (h : u.Process wav len dirty aec = .error f) : f = .vbvPre ∨ f = .vbvNoPre := by
  simp only [Process] at h
  rcases bind_eq_error.mp h with h | ⟨_, _, h⟩
  · exact .inl (assertThat_eq_error.mp h).2.symm
  rcases bind_eq_error.mp h with h | ⟨_, _, h⟩
  · exact .inr (assertThat_eq_error.mp h).2.symm
  rcases bind_eq_error.mp h with h | ⟨_, _, h⟩
  · exact .inr (assertThat_eq_error.mp h).2.symm
  rcases bind_eq_error.mp h with h | ⟨_, _, h⟩
  · exact .inr (assertThat_eq_error.mp h).2.symm
  rcases bind_eq_error.mp h with h | ⟨_, _, h⟩
  · exact .inr (assertThat_eq_error.mp h).2.symm
  · cases h

end R2memVbv3

end BlackSiren

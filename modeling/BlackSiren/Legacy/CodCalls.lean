import Mathlib.Data.List.Induction
import BlackSiren.Framework.Objects
import BlackSiren.Legacy.CodOutput

/-! # The calls of `r2mem_cod` and how far it lags behind

    The encoder is an object whose calls are those of its class.  Between calls
    it has encoded a whole number of frames; a reading goes on until at most one
    frame is left.

    - `R2memCodCall`, `call`: the calls and their answers
    - `R2memCodCall.fed`: the samples given to the encoder since its last `reset`
    - `lag_lt_frame_iff`: a reading leaves less than a frame unless the input
      ends on the border of one
-/

namespace BlackSiren

/-- The calls of `r2mem_cod`. -/
inductive R2memCodCall (F : Type) where
  | process (pData_In : List F)
  | getdatalen
  | getdata (iLen : Nat)
  | getdata2
  | pause
  | resume
  | reset
  | istoolong
  | isneedresume
  deriving DecidableEq

/-- What a call returns: nothing, a length, data or a flag. -/
inductive R2memCodAnswer where
  | done
  | len (n : Nat)
  | data (bytes : List UInt8)
  | flag (b : Bool)
  deriving DecidableEq

/-- The calls that run `processdata`. -/
def R2memCodCall.reads {F : Type} : R2memCodCall F → Bool
  | .getdatalen => true
  | .getdata _ => true
  | .getdata2 => true
  | _ => false

/-- How many samples the encoder holds after a call. -/
def R2memCodCall.fedBy {F : Type} (n : Nat) : R2memCodCall F → Nat
  | .process pData_In => n + pData_In.length
  | .reset => 0
  | _ => n

/-- The samples given to a new encoder since its last `reset`. -/
def R2memCodCall.fed {F : Type} (calls : List (R2memCodCall F)) : Nat :=
  calls.foldl R2memCodCall.fedBy 0

namespace R2memCod

variable {F : Type} [CFloat F] {enc : OpusEncoder F}

/-- One call. -/
def call (c : R2memCod F enc) : R2memCodCall F → Except Fault (R2memCod F enc × R2memCodAnswer)
  | .process pData_In => .ok (c.process pData_In, .done)
  | .getdatalen => do
      let (n, c) ← c.getdatalen
      return (c, .len n)
  | .getdata iLen => do
      let (bytes, c) ← c.getdata iLen
      return (c, .data bytes)
  | .getdata2 => do
      let (bytes, c) ← c.getdata2
      return (c, .data bytes)
  | .pause => .ok (c.pause, .done)
  | .resume => do
      let c ← c.resume
      return (c, .done)
  | .reset => .ok (c.reset, .done)
  | .istoolong => .ok (c, .flag c.istoolong)
  | .isneedresume => .ok (c, .flag c.isneedresume)

/-- The samples that wait to be encoded. -/
def lag (c : R2memCod F enc) : Int := (c.m_iLen_In : Int) - c.m_iLen_Cod

/-- Whole frames are encoded, and only frames with input behind them. -/
structure FrameWise (c : R2memCod F enc) : Prop where
  whole : lenFrmCod ∣ c.m_iLen_Cod
  behind : c.m_iLen_Cod = 0 ∨ c.m_iLen_Cod < c.m_iLen_In

/-! ### Encoding -/

/-- The loop leaves the input alone and stays frame by frame. -/
theorem encodeFrames_frameWise {fuel : Nat} {c c' : R2memCod F enc} (hc : c.FrameWise)
    (h : encodeFrames fuel c = .ok c') : c'.FrameWise ∧ c'.m_iLen_In = c.m_iLen_In := by
  induction fuel generalizing c with
  | zero =>
    cases h
    exact ⟨hc, rfl⟩
  | succ fuel ih =>
    unfold encodeFrames at h
    split at h
    · next hroom =>
      obtain ⟨⟨e, bytes⟩, _, h⟩ := bind_eq_ok.mp h
      have hwhole : lenFrmCod ∣ c.m_iLen_Cod + lenFrmCod :=
        Nat.dvd_add hc.whole (Nat.dvd_refl _)
      -- the frame taken is whole, and there is input behind it
      exact ih (c := { c with
        m_pData_Out := c.m_pData_Out ++ bytes
        m_iLen_Out_Total := grow c.m_iLen_Out c.m_iLen_Out_Total bytes.length
        m_iLen_Cod := c.m_iLen_Cod + lenFrmCod
        m_hEngine_Cod := e }) ⟨hwhole, .inr hroom⟩ h
    · cases h
      exact ⟨hc, rfl⟩

/-- With enough fuel at most one frame is left. -/
theorem encodeFrames_rest {fuel : Nat} {c c' : R2memCod F enc}
    (hfuel : c.m_iLen_In ≤ c.m_iLen_Cod + fuel) (h : encodeFrames fuel c = .ok c') :
    c'.m_iLen_In ≤ c'.m_iLen_Cod + lenFrmCod := by
  induction fuel generalizing c with
  | zero =>
    cases h
    exact Nat.le_trans hfuel (Nat.add_le_add_left (Nat.zero_le _) _)
  | succ fuel ih =>
    unfold encodeFrames at h
    split at h
    · obtain ⟨⟨e, bytes⟩, _, h⟩ := bind_eq_ok.mp h
      -- each turn takes at least one sample
      have hturn : c.m_iLen_In ≤ c.m_iLen_Cod + lenFrmCod + fuel := by
        have hpos : 0 < lenFrmCod := by decide
        omega
      exact ih hturn h
    · next hroom =>
      cases h
      exact Nat.le_of_not_lt hroom

/-- What a reading finds when `processdata` is done. -/
structure Read (c c' : R2memCod F enc) : Prop where
  frameWise : c'.FrameWise
  input : c'.m_iLen_In = c.m_iLen_In
  rest : c'.m_iLen_In ≤ c'.m_iLen_Cod + lenFrmCod

theorem processdata_read {c c' : R2memCod F enc} (hc : c.FrameWise)
    (h : c.processdata = .ok c') : Read c c' := by
  unfold processdata at h
  obtain ⟨_, _, h⟩ := bind_eq_ok.mp h
  obtain ⟨hframe, hinput⟩ := encodeFrames_frameWise hc h
  exact ⟨hframe, hinput, encodeFrames_rest (Nat.le_add_left _ _) h⟩

/-- Any of the three readings runs `processdata`, and may then move the place up
    to which the output is handed out. -/
theorem call_reads {c c' : R2memCod F enc} {get : R2memCodCall F} {a : R2memCodAnswer}
    (hget : get.reads = true) (h : c.call get = .ok (c', a)) :
    ∃ d cur, c.processdata = .ok d ∧ c' = { d with m_iLen_Out_Cur := cur } := by
  cases get with
  | getdatalen =>
    simp only [call, getdatalen] at h
    obtain ⟨_, h₁, h⟩ := bind_eq_ok.mp h
    obtain ⟨d, hd, h₁⟩ := bind_eq_ok.mp h₁
    cases h₁
    cases h
    exact ⟨d, d.m_iLen_Out_Cur, hd, rfl⟩
  | getdata iLen =>
    simp only [call, getdata] at h
    obtain ⟨_, h₁, h⟩ := bind_eq_ok.mp h
    obtain ⟨d, hd, h₁⟩ := bind_eq_ok.mp h₁
    cases h₁
    cases h
    exact ⟨d, _, hd, rfl⟩
  | getdata2 =>
    simp only [call, getdata2] at h
    obtain ⟨_, h₁, h⟩ := bind_eq_ok.mp h
    obtain ⟨d, hd, h₁⟩ := bind_eq_ok.mp h₁
    cases h₁
    cases h
    exact ⟨d, _, hd, rfl⟩
  | _ => cases hget

theorem call_read {c c' : R2memCod F enc} {get : R2memCodCall F} {a : R2memCodAnswer}
    (hc : c.FrameWise) (hget : get.reads = true) (h : c.call get = .ok (c', a)) : Read c c' := by
  obtain ⟨d, cur, hd, rfl⟩ := call_reads hget h
  -- the place handed out up to is no part of what a reading finds
  obtain ⟨⟨hwhole, hbehind⟩, hinput, hrest⟩ := processdata_read hc hd
  exact ⟨⟨hwhole, hbehind⟩, hinput, hrest⟩

/-! ### Runs -/

omit [CFloat F] in
theorem new_frameWise (iCodeType : R2codType) : (new iCodeType : R2memCod F enc).FrameWise :=
  ⟨Nat.dvd_zero _, .inl rfl⟩

/-- One call: still frame by frame, and the input counts what was given. -/
theorem call_frameWise {c c' : R2memCod F enc} {k : R2memCodCall F} {a : R2memCodAnswer}
    (hc : c.FrameWise) (h : c.call k = .ok (c', a)) :
    c'.FrameWise ∧ c'.m_iLen_In = R2memCodCall.fedBy c.m_iLen_In k := by
  cases k with
  | process l =>
    cases h
    have hlen : (c.process l).m_iLen_In = c.m_iLen_In + l.length := by
      simp [R2memCod.process, R2memCod.m_iLen_In]
    refine ⟨⟨hc.whole, ?_⟩, hlen⟩
    rw [hlen]
    -- more input leaves some behind the frames taken
    exact hc.behind.imp_right fun hlt => Nat.lt_add_right _ hlt
  | pause =>
    cases h
    exact ⟨⟨hc.whole, hc.behind⟩, rfl⟩
  | resume =>
    simp only [call, resume] at h
    obtain ⟨c₁, h₁, h⟩ := bind_eq_ok.mp h
    obtain ⟨_, _, h₁⟩ := bind_eq_ok.mp h₁
    cases h₁
    cases h
    exact ⟨⟨hc.whole, hc.behind⟩, rfl⟩
  | reset =>
    cases h
    exact ⟨⟨Nat.dvd_zero _, .inl rfl⟩, rfl⟩
  | istoolong =>
    cases h
    exact ⟨hc, rfl⟩
  | isneedresume =>
    cases h
    exact ⟨hc, rfl⟩
  | getdatalen =>
    have hread := call_read hc rfl h
    exact ⟨hread.frameWise, hread.input⟩
  | getdata iLen =>
    have hread := call_read hc rfl h
    exact ⟨hread.frameWise, hread.input⟩
  | getdata2 =>
    have hread := call_read hc rfl h
    exact ⟨hread.frameWise, hread.input⟩

/-- A run of a new encoder. -/
theorem run_frameWise {iCodeType : R2codType} {calls : List (R2memCodCall F)} {c : R2memCod F enc}
    {answers : List R2memCodAnswer}
    (h : Objects.run call (new iCodeType) calls = .ok (c, answers)) :
    c.FrameWise ∧ c.m_iLen_In = R2memCodCall.fed calls := by
  induction calls using List.reverseRecOn generalizing c answers with
  | nil =>
    cases h
    exact ⟨new_frameWise iCodeType, rfl⟩
  | append_singleton calls k ih =>
    -- from the last call back: the input counts what the calls have given
    obtain ⟨c₁, as, a, hrun, hcall, rfl⟩ := Objects.run_concat_eq_ok.mp h
    obtain ⟨hframe, hinput⟩ := ih hrun
    obtain ⟨hframe', hinput'⟩ := call_frameWise hframe hcall
    refine ⟨hframe', ?_⟩
    rw [hinput', hinput, R2memCodCall.fed, R2memCodCall.fed, List.foldl_append]
    rfl

omit [CFloat F] in
/-- The arithmetic of a reading: the frame that ends the input is the one left
    over. -/
theorem Read.lag_lt_iff {c c' : R2memCod F enc} (h : Read c c') :
    c'.lag < lenFrmCod ↔ c.m_iLen_In = 0 ∨ ¬ lenFrmCod ∣ c.m_iLen_In := by
  obtain ⟨⟨⟨k, hk⟩, hbehind⟩, hinput, hrest⟩ := h
  have hsize : lenFrmCod = 320 := rfl
  simp only [lag]
  rw [hinput] at hrest hbehind ⊢
  rw [hk] at hrest hbehind ⊢
  rw [hsize] at hrest hbehind ⊢
  -- the rest is at most a frame, and is one exactly if the input ends with it
  omega

/-- Without OPUS every frame is encoded. -/
theorem encodeFrames_of_pcm (fuel : Nat) {c : R2memCod F enc}
    (hpcm : c.m_iCodeType = .r2ad_cod_pcm) : ∃ d, encodeFrames fuel c = .ok d := by
  induction fuel generalizing c with
  | zero => exact ⟨c, rfl⟩
  | succ fuel ih =>
    unfold encodeFrames
    split
    · have hframe : c.encodeFrame = .ok (c.m_hEngine_Cod,
          ((c.m_pData_In.drop c.m_iLen_Cod).take lenFrmCod).flatMap floatBytes) := by
        unfold encodeFrame
        rw [hpcm]
      rw [hframe]
      exact ih hpcm
    · exact ⟨c, rfl⟩

/-- So a reading returns unless the encoder is paused. -/
theorem getdatalen_of_pcm {c : R2memCod F enc} (hpcm : c.m_iCodeType = .r2ad_cod_pcm)
    (hp : c.m_bPaused = false) : ∃ c' n, c.call .getdatalen = .ok (c', .len n) := by
  obtain ⟨d, hd⟩ := encodeFrames_of_pcm c.m_iLen_In hpcm
  have hread : c.processdata = .ok d := by
    unfold processdata
    rw [hp, hd]
    rfl
  refine ⟨d, d.m_iLen_Out - d.m_iLen_Out_Cur, ?_⟩
  show (do
    let (n, c) ← c.getdatalen
    return (c, R2memCodAnswer.len n)) = _
  rw [getdatalen, hread]
  rfl

/-- Up to one frame of input is left alone. -/
theorem processdata_of_le {c : R2memCod F enc} (hp : c.m_bPaused = false)
    (h : c.m_iLen_In ≤ c.m_iLen_Cod + lenFrmCod) : c.processdata = .ok c := by
  have hloop : ∀ fuel, encodeFrames fuel c = .ok c := by
    intro fuel
    cases fuel with
    | zero => rfl
    | succ fuel =>
      rw [encodeFrames, if_neg]
      exact Nat.not_lt.mpr h
  unfold processdata
  rw [hp, hloop]
  rfl

/-- A PCM encoder that has been given `n` samples. -/
def silence (n : Nat) : R2memCod ℚ ⟨Unit, (), fun _ _ => ((), .packet [])⟩ :=
  (new .r2ad_cod_pcm).process (List.replicate n 0)

theorem silence_getdatalen {n : Nat} (hn : n ≤ 320) :
    (silence n).call .getdatalen = .ok (silence n, .len 0) := by
  have hread : (silence n).processdata = .ok (silence n) := by
    refine processdata_of_le rfl ?_
    show ([] ++ (List.replicate n (0 : ℚ)).map _).length ≤ 0 + 320
    simpa using hn
  show (do
    let (n, c) ← (silence n).getdatalen
    return (c, R2memCodAnswer.len n)) = _
  rw [getdatalen, hread]
  rfl

end R2memCod

end BlackSiren

import BlackSiren.Legacy.MicInfo

/-! # `r2mem_aec`: echo cancellation

    The unit collects frames of 256 samples, hands the channels of its list and
    the reference channels to the echo canceller, and puts out multiples of 160
    samples.  The echo canceller is a parameter.
-/

namespace BlackSiren

/-- The echo canceller of `r2ssp.h`. -/
structure AecEngine (F : Type) where
  State : Type
  /-- `r2ssp_aec_create` and `r2ssp_aec_init`: the affine processors, where a
      build sets them, and the numbers of channels. -/
  create : Option MicIdLst → Nat → Nat → State
  /-- `r2ssp_aec_buffer_farend`. -/
  buffer_farend : State → List F → State
  /-- `r2ssp_aec_process`: its samples and its result. -/
  process : State → List F → State × (Nat → F) × Int

/-- `r2mem_aec`. -/
structure R2memAec (F : Type) (eng : AecEngine F) where
  m_pMicInfo_Aec : MicIdLst
  m_pMicInfo_AecRef : MicIdLst
  m_hEngine_Aec : eng.State
  m_iLen_In : Nat
  m_pData_In : Chan F
  m_iLen_Out : Nat
  m_iLen_Out_Total : Nat
  m_pData_Out : Chan F
  m_iRt : Int

namespace R2memAec

variable {F : Type} [CFloat F] {eng : AecEngine F}

/-- `m_iFrmLen_Aec`: `R2_AUDIO_AEC_FRAME_MS` is 16. -/
def m_iFrmLen_Aec : Nat := R2_AUDIO_SAMPLE_RATE / 1000 * 16

/-- `m_iFrmLen_Out`. -/
def m_iFrmLen_Out : Nat := R2_AUDIO_SAMPLE_RATE / 1000 * R2_AUDIO_FRAME_MS

/-- The constructor, on lists that are there. -/
def new (pMicInfo_Aec pMicInfo_AecRef : MicIdLst) (cpus : Option MicIdLst) : R2memAec F eng where
  m_pMicInfo_Aec := pMicInfo_Aec
  m_pMicInfo_AecRef := pMicInfo_AecRef
  m_hEngine_Aec := eng.create cpus pMicInfo_Aec.length pMicInfo_AecRef.length
  m_iLen_In := 0
  m_pData_In := fun _ _ => CFloat.ofInt 0
  m_iLen_Out := 0
  m_iLen_Out_Total := R2_AUDIO_SAMPLE_RATE
  m_pData_Out := fun _ _ => CFloat.ofInt 0
  m_iRt := 0

/-- What the last call has not put out moves to the front, in the channels of
    both lists. -/
def keepLeft (u : R2memAec F eng) : R2memAec F eng :=
  let left := u.m_iLen_Out % m_iFrmLen_Out
  { u with
    m_pData_Out := fun id i =>
      if id ∈ u.m_pMicInfo_Aec ++ u.m_pMicInfo_AecRef ∧ i < left then
        u.m_pData_Out id (u.m_iLen_Out - left + i)
      else u.m_pData_Out id i
    m_iLen_Out := left }

/-- A larger output array, if the call may need it. -/
def grow (u : R2memAec F eng) (iLen_In : Nat) : R2memAec F eng :=
  let need := iLen_In + u.m_iLen_In + u.m_iLen_Out
  if need > u.m_iLen_Out_Total then
    { u with
      m_iLen_Out_Total := need * 2
      m_pData_Out := fun id i => if i < u.m_iLen_Out then u.m_pData_Out id i else CFloat.ofInt 0 }
  else u

/-- `aaa`. -/
def scale : F := CFloat.ofInt 64

/-- The waiting frames of some channels, one after the other and scaled. -/
def frames (u : R2memAec F eng) (mics : MicIdLst) : List F :=
  mics.flatMap fun id => (List.range m_iFrmLen_Aec).map fun k =>
    CFloat.div (u.m_pData_In id k) scale

/-- `processfrm`. -/
def processfrm (u : R2memAec F eng) : R2memAec F eng :=
  let h := eng.buffer_farend u.m_hEngine_Aec (u.frames u.m_pMicInfo_AecRef)
  let (h, out, rt) := eng.process h (u.frames u.m_pMicInfo_Aec)
  { u with
    m_hEngine_Aec := h
    m_iRt := if rt = 0 then 1 else u.m_iRt
    m_pData_Out := u.m_pMicInfo_Aec.zipIdx.foldl (fun d r => fun id i =>
      if id = r.1 ∧ u.m_iLen_Out ≤ i ∧ i < u.m_iLen_Out + m_iFrmLen_Aec then
        CFloat.mul (out (r.2 * m_iFrmLen_Aec + (i - u.m_iLen_Out))) scale
      else d id i) u.m_pData_Out
    m_iLen_Out := u.m_iLen_Out + m_iFrmLen_Aec
    m_iLen_In := 0 }

/-- Copy `ll` samples from offset `cur` of the channels of both lists. -/
def collect (u : R2memAec F eng) (pData_In : Chan F) (cur ll : Nat) : R2memAec F eng :=
  { u with
    m_pData_In := fun id i =>
      if id ∈ u.m_pMicInfo_Aec ++ u.m_pMicInfo_AecRef ∧ u.m_iLen_In ≤ i ∧ i < u.m_iLen_In + ll then
        pData_In id (cur + (i - u.m_iLen_In))
      else u.m_pData_In id i
    m_iLen_In := u.m_iLen_In + ll }

/-- The loop of `process` from sample `cur` on. Each turn takes at least one
    sample, so `iLen_In` turns are enough. -/
def chunks (pData_In : Chan F) (iLen_In : Nat) : Nat → Nat → R2memAec F eng → R2memAec F eng
  | 0, _, u => u
  | fuel + 1, cur, u =>
      if cur < iLen_In then
        let ll := min (m_iFrmLen_Aec - u.m_iLen_In) (iLen_In - cur)
        let u := u.collect pData_In cur ll
        let u := if u.m_iLen_In = m_iFrmLen_Aec then u.processfrm else u
        chunks pData_In iLen_In fuel (cur + ll) u
      else u

/-- `process`: the unit (which owns the channels), the samples per channel and
    the result. -/
def process (u : R2memAec F eng) (pData_In : Chan F) (iLen_In : Nat) :
    R2memAec F eng × Nat × Int :=
  let u := ({ u with m_iRt := 0 }.keepLeft).grow iLen_In
  let u := chunks pData_In iLen_In iLen_In 0 u
  (u, u.m_iLen_Out / m_iFrmLen_Out * m_iFrmLen_Out, u.m_iRt)

omit [CFloat F] in
theorem keepLeft_len (u : R2memAec F eng) : u.keepLeft.m_iLen_Out = u.m_iLen_Out % m_iFrmLen_Out :=
  rfl

theorem grow_len (u : R2memAec F eng) (n : Nat) : (u.grow n).m_iLen_Out = u.m_iLen_Out := by
  unfold grow
  dsimp only
  split <;> rfl

theorem process_len (u : R2memAec F eng) (d : Chan F) (n : Nat) :
    (u.process d n).2.1 = (u.process d n).1.m_iLen_Out / m_iFrmLen_Out * m_iFrmLen_Out := rfl

/-- Nothing comes out of a unit that has nothing and is given nothing. -/
theorem process_nothing {u : R2memAec F eng} (h : u.m_iLen_Out = 0) (d : Chan F) :
    (u.process d 0).1.m_iLen_Out = 0 ∧ (u.process d 0).2.1 = 0 := by
  have hout : (u.process d 0).1.m_iLen_Out = 0 := by
    show (grow (keepLeft { u with m_iRt := 0 }) 0).m_iLen_Out = 0
    rw [grow_len, keepLeft_len]
    show u.m_iLen_Out % _ = 0
    rw [h, Nat.zero_mod]
  refine ⟨hout, ?_⟩
  rw [process_len, hout, Nat.zero_div, Nat.zero_mul]

end R2memAec

end BlackSiren

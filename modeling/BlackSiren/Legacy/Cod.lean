import BlackSiren.Framework.Bytes
import BlackSiren.Legacy.Basic

/-! # `r2mem_cod`: the audio encoder

    The unit queues input samples, encodes them in frames of 20 ms on demand
    and hands out the encoded bytes.  The OPUS encoder itself is outside the
    repository: `OpusEncoder` is any per-frame state machine.
-/

namespace BlackSiren

/-- `r2cod_type`. -/
inductive R2codType where
  | r2ad_cod_opu
  | r2ad_cod_pcm
  deriving DecidableEq, Repr

/-- What `opus_encode_float` returns: a packet, or the negative value
    `-(code + 1)`. -/
inductive OpusResult where
  | packet (bytes : List UInt8)
  | error (code : Nat)

/-- The OPUS encoder behind `opus_encoder_create` and `opus_encode_float`. -/
structure OpusEncoder (F : Type) where
  State : Type
  create : State
  encode : State → List F → State × OpusResult

/-- `m_iLen_Frm_Cod`: samples of one encoder frame. -/
def lenFrmCod : Nat := R2_AUDIO_SAMPLE_RATE / 1000 * R2_AUDIO_FRAME_MS * 2

/-- `m_iShield_TooLong`. -/
def shieldTooLong : Nat := R2_AUDIO_SAMPLE_RATE * 6

/-- `m_iShield_Resume`. -/
def shieldResume : Nat := R2_AUDIO_SAMPLE_RATE / 2

/-- `r2mem_cod`. The input and output buffers are the lists of what has been
    put into them; `m_iLen_In` and `m_iLen_Out` are their lengths. -/
structure R2memCod (F : Type) (enc : OpusEncoder F) where
  m_iCodeType : R2codType
  m_pData_In : List F
  m_iLen_In_Total : Nat
  m_iLen_Pause : Nat
  m_iLen_Cod : Nat
  m_bPaused : Bool
  m_pData_Out : List UInt8
  m_iLen_Out_Cur : Nat
  m_iLen_Out_Total : Nat
  m_hEngine_Cod : enc.State

/-- The capacity of a buffer after room for `n` more entries has been made. -/
def grow (used total n : Nat) : Nat :=
  if n + used > total then (n + used) * 2 else total

namespace R2memCod

variable {F : Type} {enc : OpusEncoder F}

/-- The constructor. -/
def new (iCodeType : R2codType) : R2memCod F enc where
  m_iCodeType := iCodeType
  m_pData_In := []
  m_iLen_In_Total := R2_AUDIO_SAMPLE_RATE * 20
  m_iLen_Pause := 0
  m_iLen_Cod := 0
  m_bPaused := false
  m_pData_Out := []
  m_iLen_Out_Cur := 0
  m_iLen_Out_Total := R2_AUDIO_SAMPLE_RATE * 20
  m_hEngine_Cod := enc.create

/-- `m_iLen_In`. -/
def m_iLen_In (c : R2memCod F enc) : Nat := c.m_pData_In.length

/-- `m_iLen_Out`. -/
def m_iLen_Out (c : R2memCod F enc) : Nat := c.m_pData_Out.length

/-- `reset`: drops both buffers and recreates the encoder; `m_iLen_Pause` and
    the capacities stay. -/
def reset (c : R2memCod F enc) : R2memCod F enc :=
  { c with
    m_pData_In := []
    m_iLen_Cod := 0
    m_pData_Out := []
    m_iLen_Out_Cur := 0
    m_bPaused := false
    m_hEngine_Cod :=
      match c.m_iCodeType with
      | .r2ad_cod_opu => enc.create
      | .r2ad_cod_pcm => c.m_hEngine_Cod }

/-- `pause`. -/
def pause (c : R2memCod F enc) : R2memCod F enc :=
  { c with
    m_iLen_Out_Cur := 0
    m_bPaused := true
    m_iLen_Pause := c.m_iLen_In }

/-- `resume`. -/
def resume (c : R2memCod F enc) : Except Fault (R2memCod F enc) := do
  assertThat c.m_bPaused .codNotPaused
  return { c with m_bPaused := false }

@[simp] theorem pause_m_bPaused (c : R2memCod F enc) : c.pause.m_bPaused = true := rfl

theorem resume_eq_ok {c c' : R2memCod F enc} (h : c.resume = .ok c') :
    c.m_bPaused = true ∧ c'.m_bPaused = false := by
  unfold resume at h
  obtain ⟨_, ha, hc⟩ := bind_eq_ok.mp h
  cases hc
  exact ⟨assertThat_eq_ok.mp ha, rfl⟩

theorem resume_of_paused {c : R2memCod F enc} (h : c.m_bPaused = true) :
    c.resume = .ok { c with m_bPaused := false } := by
  simp [resume, h, bind, Except.bind, pure, Except.pure]

/-- `istoolong`. -/
def istoolong (c : R2memCod F enc) : Bool :=
  decide (c.m_iLen_In > shieldTooLong)

/-- `isneedresume`. -/
def isneedresume (c : R2memCod F enc) : Bool :=
  c.m_bPaused && decide (c.m_iLen_In < shieldTooLong) &&
    decide ((c.m_iLen_In : Int) - c.m_iLen_Pause > shieldResume)

theorem isneedresume_paused {c : R2memCod F enc} (h : c.isneedresume = true) :
    c.m_bPaused = true := by
  simp only [isneedresume, Bool.and_eq_true] at h
  exact h.1.1

variable [CFloat F]

/-- `process`: queue samples, scaled to the unit interval. -/
def process (c : R2memCod F enc) (pData_In : List F) : R2memCod F enc :=
  { c with
    m_pData_In := c.m_pData_In ++
      pData_In.map fun x => CFloat.div x (CFloat.ofRat 32768)
    m_iLen_In_Total := grow c.m_iLen_In c.m_iLen_In_Total pData_In.length }

/-- A float as the four bytes it has in memory. -/
def floatBytes (x : F) : List UInt8 := Bytes.toLE 4 (CFloat.bits x).toNat

/-- The bytes one frame contributes. With OPUS they are the length byte and
    the packet; the result `-1` makes the record empty, and any other error
    makes the length handed to `memcpy` negative. -/
def encodeFrame (c : R2memCod F enc) : Except Fault (enc.State × List UInt8) :=
  let frame := (c.m_pData_In.drop c.m_iLen_Cod).take lenFrmCod
  match c.m_iCodeType with
  | .r2ad_cod_opu =>
      match enc.encode c.m_hEngine_Cod frame with
      | (h, .packet bytes) => .ok (h, UInt8.ofNat bytes.length :: bytes)
      | (h, .error 0) => .ok (h, [])
      | (_, .error (_ + 1)) => .error .badMemcpy
  | .r2ad_cod_pcm => .ok (c.m_hEngine_Cod, frame.flatMap floatBytes)

/-- The loop of `processdata`, at most `fuel` frames of it. -/
def encodeFrames : Nat → R2memCod F enc → Except Fault (R2memCod F enc)
  | 0, c => .ok c
  | fuel + 1, c =>
      if c.m_iLen_Cod + lenFrmCod < c.m_iLen_In then do
        let (h, bytes) ← encodeFrame c
        encodeFrames fuel
          { c with
            m_pData_Out := c.m_pData_Out ++ bytes
            m_iLen_Out_Total := grow c.m_iLen_Out c.m_iLen_Out_Total bytes.length
            m_iLen_Cod := c.m_iLen_Cod + lenFrmCod
            m_hEngine_Cod := h }
      else .ok c

/-- `processdata`: encode all but the last, possibly complete, frame. Each
    turn takes `lenFrmCod` samples, so `m_iLen_In` turns are enough. -/
def processdata (c : R2memCod F enc) : Except Fault (R2memCod F enc) := do
  assertThat (!c.m_bPaused) .codPaused
  encodeFrames c.m_iLen_In c

/-- `getdatalen`. -/
def getdatalen (c : R2memCod F enc) : Except Fault (Nat × R2memCod F enc) := do
  let c ← processdata c
  return (c.m_iLen_Out - c.m_iLen_Out_Cur, c)

/-- `getdata`: at most `iLen` bytes. -/
def getdata (c : R2memCod F enc) (iLen : Nat) :
    Except Fault (List UInt8 × R2memCod F enc) := do
  let c ← processdata c
  let ll := min iLen (c.m_iLen_Out - c.m_iLen_Out_Cur)
  return ((c.m_pData_Out.drop c.m_iLen_Out_Cur).take ll,
    { c with m_iLen_Out_Cur := c.m_iLen_Out_Cur + ll })

/-- `getdata2`: everything not handed out yet. -/
def getdata2 (c : R2memCod F enc) : Except Fault (List UInt8 × R2memCod F enc) := do
  let c ← processdata c
  return (c.m_pData_Out.drop c.m_iLen_Out_Cur,
    { c with m_iLen_Out_Cur := c.m_iLen_Out })

/-! ### The pause flag -/

/-- Encoding a frame never fails one of the encoder's assertions. -/
theorem encodeFrame_error {c : R2memCod F enc} {f : Fault}
    (h : encodeFrame c = .error f) : f.isCodAssert = false := by
  simp only [encodeFrame] at h
  split at h
  · split at h
    · cases h
    · cases h
    · cases h; rfl
  · cases h

theorem encodeFrames_error {fuel : Nat} {c : R2memCod F enc} {f : Fault}
    (h : encodeFrames fuel c = .error f) : f.isCodAssert = false := by
  induction fuel generalizing c with
  | zero => cases h
  | succ fuel ih =>
    simp only [encodeFrames] at h
    split at h
    · rcases bind_eq_error.mp h with h | ⟨_, _, h⟩
      · exact encodeFrame_error h
      · exact ih h
    · cases h

theorem encodeFrames_m_bPaused {fuel : Nat} {c c' : R2memCod F enc}
    (h : encodeFrames fuel c = .ok c') : c'.m_bPaused = c.m_bPaused := by
  induction fuel generalizing c with
  | zero => cases h; rfl
  | succ fuel ih =>
    simp only [encodeFrames] at h
    split at h
    · obtain ⟨⟨e, bytes⟩, _, h⟩ := bind_eq_ok.mp h
      exact (ih h).trans rfl
    · cases h; rfl

/-- `processdata` returns only on an encoder that is not paused, and leaves it
    so. -/
theorem processdata_eq_ok {c c' : R2memCod F enc} (h : c.processdata = .ok c') :
    c.m_bPaused = false ∧ c'.m_bPaused = false := by
  unfold processdata at h
  obtain ⟨_, ha, h⟩ := bind_eq_ok.mp h
  have hp : c.m_bPaused = false := by simpa using assertThat_eq_ok.mp ha
  exact ⟨hp, (encodeFrames_m_bPaused h).trans hp⟩

/-- Only on a paused encoder does `processdata` fail an assertion of the
    encoder. -/
theorem processdata_eq_error {c : R2memCod F enc} {f : Fault}
    (h : c.processdata = .error f) (hf : f.isCodAssert = true) : c.m_bPaused = true := by
  unfold processdata at h
  rcases bind_eq_error.mp h with ha | ⟨_, _, h⟩
  · simpa using (assertThat_eq_error.mp ha).1
  · rw [encodeFrames_error h] at hf; cases hf

end R2memCod

end BlackSiren

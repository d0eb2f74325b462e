import BlackSiren.Legacy.Basic

/-! # `r2mem_bf`: the beamformer

    The unit collects frames from the microphones of its list and turns each
    into a frame of one channel.  The beamforming library is a parameter; which
    of the two a build uses decides the frame size and what `reset` does.
-/

namespace BlackSiren

/-- The beamforming engine: that of `r2ssp.h`, or with `CONFIG_BF_MVDR` that of
    `r2mvdrapi.h`. -/
structure BfEngine (F : Type) where
  State : Type
  /-- `CONFIG_BF_MVDR`. -/
  mvdr : Bool := false
  /-- `r2ssp_bf_create`, `r2ssp_bf_init` and `r2ssp_bf_set_mic_delays`:
      positions and delays of the microphones used. -/
  create : List (F × F × F) → List F → State
  /-- `r2ssp_bf_steer`. -/
  steer : State → F → F → State
  /-- `r2ssp_bf_process`: one frame of every microphone to one of output. -/
  process : State → List (List F) → State × (Nat → F)

/-- `r2mem_bf`. A row of `m_pData_In` holds the samples of one microphone that
    wait for their frame to fill; `m_iLen_In_Cur` is the common length of the
    rows. -/
structure R2memBf (F : Type) (eng : BfEngine F) where
  m_pMicInfo_Bf : MicIdLst
  m_pMics_Bf : List (F × F × F)
  m_pMicI2sDelay : List F
  m_fSlInfo : F × F
  m_iLen_In_Cur : Nat
  m_pData_In : List (List F)
  m_hEngine_Bf : eng.State

namespace R2memBf

variable {F : Type} {eng : BfEngine F}

/-- `m_iFrmSize`. -/
def m_iFrmSize (eng : BfEngine F) : Nat :=
  if eng.mvdr then R2_AUDIO_SAMPLE_RATE / 1000 * 8
  else R2_AUDIO_SAMPLE_RATE / 1000 * R2_AUDIO_FRAME_MS

/-- `steer` with `bSteer = 1`. -/
def steer (b : R2memBf F eng) (fAzimuth fElevation : F) : R2memBf F eng :=
  { b with
    m_fSlInfo := (fAzimuth, fElevation)
    m_hEngine_Bf := eng.steer b.m_hEngine_Bf fAzimuth fElevation }

/-- `getinfo_sl`, through the text that `sprintf` gives for the two angles. -/
def getinfo_sl (slText : F → F → List UInt8) (b : R2memBf F eng) : List UInt8 :=
  slText b.m_fSlInfo.1 b.m_fSlInfo.2

/-- Copy `ll` samples from offset `cur` of each microphone. -/
def collect (b : R2memBf F eng) (pData_In : Chan F) (cur ll : Nat) : R2memBf F eng :=
  { b with
    m_pData_In := List.zipWith (fun row iMicId =>
      row ++ (List.range ll).map fun k => pData_In iMicId (cur + k))
      b.m_pData_In b.m_pMicInfo_Bf
    m_iLen_In_Cur := b.m_iLen_In_Cur + ll }

/-- Process the frame if it is full. -/
def flush (b : R2memBf F eng) : R2memBf F eng × List F :=
  if b.m_iLen_In_Cur = m_iFrmSize eng then
    let (h, frame) := eng.process b.m_hEngine_Bf b.m_pData_In
    ({ b with
        m_hEngine_Bf := h
        m_pData_In := b.m_pMicInfo_Bf.map fun _ => []
        m_iLen_In_Cur := 0 },
      (List.range (m_iFrmSize eng)).map frame)
  else (b, [])

/-- The loop of `process` from sample `cur` on. Each turn takes at least one
    sample, so `iLen_In` turns are enough. -/
def chunks (pData_In : Chan F) (iLen_In : Nat) :
    Nat → Nat → R2memBf F eng → R2memBf F eng × List F
  | 0, _, b => (b, [])
  | fuel + 1, cur, b =>
      if cur < iLen_In then
        let ll := min (m_iFrmSize eng - b.m_iLen_In_Cur) (iLen_In - cur)
        let (b, out) := (b.collect pData_In cur ll).flush
        let (b, out') := chunks pData_In iLen_In fuel (cur + ll) b
        (b, out ++ out')
      else (b, [])

/-- `process`. -/
def process (b : R2memBf F eng) (pData_In : Chan F) (iLen_In : Int) :
    Except Fault (R2memBf F eng × List F) := do
  assertThat (0 ≤ iLen_In) .lenIn
  return chunks pData_In iLen_In.toNat iLen_In.toNat 0 b

theorem process_eq_error {b : R2memBf F eng} {d : Chan F} {len : Int} {f : Fault}
    (h : b.process d len = .error f) : f = .lenIn := by
  simp only [process] at h
  rcases bind_eq_error.mp h with h | ⟨_, _, h⟩
  · exact (assertThat_eq_error.mp h).2.symm
  · cases h

/-! ### Framing -/

theorem m_iFrmSize_pos (eng : BfEngine F) : 0 < m_iFrmSize eng := by
  unfold m_iFrmSize
  split <;> decide

/-- A full frame is put out, and nothing else. -/
theorem flush_frames (b : R2memBf F eng) :
    (b.m_iLen_In_Cur = m_iFrmSize eng →
        b.flush.2.length = m_iFrmSize eng ∧ b.flush.1.m_iLen_In_Cur = 0) ∧
      (b.m_iLen_In_Cur ≠ m_iFrmSize eng → b.flush = (b, [])) := by
  unfold flush
  constructor
  · intro hfull
    rw [if_pos hfull]
    exact ⟨by rw [List.length_map, List.length_range], rfl⟩
  · intro hpart
    rw [if_neg hpart]

/-- Samples that complete a frame: one frame, and what the rest gives. -/
theorem framing_full {f waiting rest : Nat} (hw : waiting < f) (h : f - waiting ≤ rest) :
    (waiting + rest) / f = (rest - (f - waiting)) / f + 1 ∧
      (waiting + rest) % f = (rest - (f - waiting)) % f := by
  have hpos : 0 < f := Nat.zero_lt_of_lt hw
  have hsum : waiting + rest = rest - (f - waiting) + f := by omega
  rw [hsum, Nat.add_div_right _ hpos, Nat.add_mod_right]
  exact ⟨rfl, rfl⟩

/-- The loop puts out the whole frames of what waits and what comes. -/
theorem chunks_frames (d : Chan F) (len : Nat) {fuel cur : Nat} {b : R2memBf F eng}
    (hb : b.m_iLen_In_Cur < m_iFrmSize eng) (hfuel : len ≤ cur + fuel) :
    (chunks d len fuel cur b).2.length =
        (b.m_iLen_In_Cur + (len - cur)) / m_iFrmSize eng * m_iFrmSize eng ∧
      (chunks d len fuel cur b).1.m_iLen_In_Cur =
        (b.m_iLen_In_Cur + (len - cur)) % m_iFrmSize eng := by
  induction fuel generalizing cur b with
  | zero =>
    have hzero : len - cur = 0 := by omega
    rw [hzero, Nat.add_zero, Nat.div_eq_of_lt hb, Nat.mod_eq_of_lt hb, Nat.zero_mul]
    exact ⟨rfl, rfl⟩
  | succ fuel ih =>
    unfold chunks
    by_cases hcur : cur < len
    · rw [if_pos hcur]
      dsimp only
      by_cases hroom : m_iFrmSize eng - b.m_iLen_In_Cur ≤ len - cur
      · -- the samples complete a frame
        rw [Nat.min_eq_left hroom]
        have hfull : (b.collect d cur (m_iFrmSize eng - b.m_iLen_In_Cur)).m_iLen_In_Cur =
            m_iFrmSize eng := Nat.add_sub_cancel' (Nat.le_of_lt hb)
        obtain ⟨hout, hnone⟩ := (flush_frames _).1 hfull
        have hturn : len ≤ cur + (m_iFrmSize eng - b.m_iLen_In_Cur) + fuel := by omega
        have hrest := ih (by rw [hnone]; exact m_iFrmSize_pos eng) hturn
        obtain ⟨hdiv, hmod⟩ := framing_full hb hroom
        rw [hnone, Nat.zero_add, Nat.sub_add_eq] at hrest
        refine ⟨?_, ?_⟩
        · rw [List.length_append, hout, hrest.1, hdiv, Nat.succ_mul, Nat.add_comm]
        · rw [hrest.2, hmod]
      · -- they do not, and the loop is done
        have hlt : b.m_iLen_In_Cur + (len - cur) < m_iFrmSize eng := by omega
        rw [Nat.min_eq_right (by omega)]
        have hpart : (b.collect d cur (len - cur)).m_iLen_In_Cur ≠ m_iFrmSize eng :=
          Nat.ne_of_lt hlt
        rw [(flush_frames _).2 hpart]
        have hturn : len ≤ cur + (len - cur) + fuel := by omega
        have hrest := ih (b := b.collect d cur (len - cur)) hlt hturn
        have hzero : len - (cur + (len - cur)) = 0 := by omega
        rw [hzero, Nat.add_zero] at hrest
        exact hrest
    · have hzero : len - cur = 0 := by omega
      rw [if_neg hcur, hzero, Nat.add_zero, Nat.div_eq_of_lt hb, Nat.mod_eq_of_lt hb, Nat.zero_mul]
      exact ⟨rfl, rfl⟩

/-- `process` puts out the whole frames and keeps the rest. -/
theorem process_frames {b b' : R2memBf F eng} {d : Chan F} {len : Int} {out : List F}
    (hb : b.m_iLen_In_Cur < m_iFrmSize eng) (h : b.process d len = .ok (b', out)) :
    out.length = (b.m_iLen_In_Cur + len.toNat) / m_iFrmSize eng * m_iFrmSize eng ∧
      b'.m_iLen_In_Cur = (b.m_iLen_In_Cur + len.toNat) % m_iFrmSize eng := by
  unfold process at h
  obtain ⟨_, _, h⟩ := bind_eq_ok.mp h
  have hloop := chunks_frames d len.toNat hb (Nat.le_add_left len.toNat 0)
  have hresult : chunks d len.toNat len.toNat 0 b = (b', out) := Except.ok.inj h
  rw [Nat.sub_zero, hresult] at hloop
  exact hloop

variable [CFloat F]

/-- The constructor: positions and delays of the listed microphones. -/
def new (pMicPosLst : Int → F × F × F) (pMicDelay : Int → F) (pMicInfo_Bf : MicIdLst) :
    R2memBf F eng :=
  let zero : F := CFloat.ofInt 0
  let mics := pMicInfo_Bf.map pMicPosLst
  let delays := pMicInfo_Bf.map pMicDelay
  steer
    { m_pMicInfo_Bf := pMicInfo_Bf
      m_pMics_Bf := mics
      m_pMicI2sDelay := delays
      m_fSlInfo := (zero, zero)
      m_iLen_In_Cur := 0
      m_pData_In := pMicInfo_Bf.map fun _ => []
      m_hEngine_Bf := eng.create mics delays } zero zero

/-- `reset`: a fresh engine (`r2mvdr` keeps its own), steered to zero, and no
    samples waiting. -/
def reset (b : R2memBf F eng) : R2memBf F eng :=
  let zero : F := CFloat.ofInt 0
  let h := if eng.mvdr then b.m_hEngine_Bf else eng.create b.m_pMics_Bf b.m_pMicI2sDelay
  { steer { b with m_hEngine_Bf := h } zero zero with
    m_pData_In := b.m_pMicInfo_Bf.map fun _ => []
    m_iLen_In_Cur := 0 }

end R2memBf

end BlackSiren

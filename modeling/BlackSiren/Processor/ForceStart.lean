import BlackSiren.Processor.Front
import BlackSiren.Processor.Run

/-! # Forced starts

    After a pre event `process` forces the VAD unit to start, and the unit
    asserts that it has: it needs a whole frame.  What it is given comes out of
    the beamformer, which works in frames of its own size and keeps what does not
    fill one.

    - `vadArgs`: what a call hands to the VAD unit
    - `Package`: a frame of the recording, and the runs made of such frames
    - `Framed`: what the beamformer keeps between calls
    - `forceStart_iff`: when there is a frame to start on
-/

open LTS

namespace BlackSiren

namespace SirenProcessorImpl

variable {F : Type} [CFloat F] {E : Engines F}

/-- `process` up to the call of the VAD unit: the processor, the wake-word flags
    and the samples it is called with. -/
def vadArgs (p : SirenProcessorImpl F E) (c : Call) :
    Except Fault (SirenProcessorImpl F E × WordFlags × Sig F) := do
  let (p, len_mul) ← p.readInput c
  let (p, sig) ← p.beamform len_mul
  let (p, w) ← p.wakeWord c len_mul
  let (p, sig) ← p.onPre w sig
  return (p, w, sig)

/-- The rest of `process`. -/
theorem process_eq (p : SirenProcessorImpl F E) (c : Call) :
    p.process c = (p.vadArgs c >>= fun r => do
      let (p, out, vad2) ← r.1.runVad r.2.1 r.2.2
      let p ← p.onBegin (c.asrflag == 1) r.2.1 vad2
      let p ← (p.onWord r.2.1).onVadStart (c.asrflag == 1) r.2.1 out vad2
      p.onEnd vad2) := by
  simp only [process, vadArgs, bind_assoc, pure_bind]

/-! ### Packages -/

/-- `c` brings `160 * k` samples for each microphone, `k` at least 1. -/
structure Package (p : SirenProcessorImpl F E) (c : Call) (k : Nat) : Prop where
  pos : 0 < k
  lenin : c.lenin = (p.m_pMem_in.m_iInType.size * p.m_pMem_in.m_pMicInfo_In.length *
    (R2_FRAME_SIZE * k) : Nat)

theorem process_in_len {u u' : R2memI F} {d : Nat → UInt8} {len : Int} {n m : Nat}
    (hlen : len = (u.m_iInType.size * u.m_pMicInfo_In.length * m : Nat))
    (h : u.process d len = .ok (u', n)) : n = m := by
  unfold R2memI.process at h
  obtain ⟨_, _, h⟩ := bind_eq_ok.mp h
  obtain ⟨_, hmics, h⟩ := bind_eq_ok.mp h
  obtain ⟨_, _, h⟩ := bind_eq_ok.mp h
  cases h
  have hmics : u.m_pMicInfo_In.length ≠ 0 := by simpa using assertThat_eq_ok.mp hmics
  have hsize : 0 < u.m_iInType.size := by
    cases u.m_iInType <;> decide
  rw [hlen, Int.toNat_natCast]
  exact Nat.mul_div_cancel_left m (Nat.mul_pos hsize (Nat.pos_of_ne_zero hmics))

/-! ### The beamformer between calls -/

/-- Less than a frame waits in the beamformer, and nothing before the first
    package. -/
structure Framed (p : SirenProcessorImpl F E) : Prop where
  lt : p.m_pMmem_bf.m_iLen_In_Cur < R2memBf.m_iFrmSize E.bf
  fresh : p.state.firstFrm = true → p.m_pMmem_bf.m_iLen_In_Cur = 0

/-- The check of the microphones. -/
theorem checkMics_framed {p : SirenProcessorImpl F E} (hp : p.Framed) {n : Nat} (hn : 0 < n) :
    (p.checkMics n).m_pMmem_bf.m_iLen_In_Cur = p.m_pMmem_bf.m_iLen_In_Cur ∧
      (p.checkMics n).state.firstFrm = false ∧ (p.checkMics n).m_pMem_vad2 = p.m_pMem_vad2 := by
  unfold checkMics
  rw [decide_eq_true hn, Bool.and_true]
  cases hfirst : p.state.firstFrm with
  | false => exact ⟨rfl, hfirst, rfl⟩
  | true =>
    have hzero := hp.fresh hfirst
    simp only [if_true, fixErrorMic]
    split
    · exact ⟨rfl, rfl, rfl⟩
    · split
      · -- the beamformer is built anew, and nothing waited in the old one
        exact ⟨hzero.symm, rfl, rfl⟩
      · exact ⟨rfl, rfl, rfl⟩

theorem readInput_framed {p p₁ : SirenProcessorImpl F E} {c : Call} {k n : Nat} (hp : p.Framed)
    (hc : p.Package c k) (h : p.readInput c = .ok (p₁, n)) :
    n = R2_FRAME_SIZE * k ∧ p₁.m_pMmem_bf.m_iLen_In_Cur = p.m_pMmem_bf.m_iLen_In_Cur ∧
      p₁.state.firstFrm = false ∧ p₁.m_pMem_vad2 = p.m_pMem_vad2 := by
  unfold readInput at h
  obtain ⟨⟨m_in, len⟩, hin, h⟩ := bind_eq_ok.mp h
  -- the asr flag is none of the fields here
  have hasr : ∃ q : SirenProcessorImpl F E,
      (if c.asrflag = 1 then
        { p with msgLst := [], state := { p.state with asr := true } }
        else { p with msgLst := [] }) = q ∧ q.m_pMem_in = p.m_pMem_in ∧
          q.m_pMmem_bf = p.m_pMmem_bf ∧ q.m_pMem_vad2 = p.m_pMem_vad2 ∧
            q.state.firstFrm = p.state.firstFrm := by
    refine ⟨_, rfl, ?_⟩
    split
    · exact ⟨rfl, rfl, rfl, rfl⟩
    · exact ⟨rfl, rfl, rfl, rfl⟩
  obtain ⟨q, hq, hqin, hqbf, hqvad, hqfirst⟩ := hasr
  simp only [hq] at hin h
  rw [hqin] at hin
  have hlen : len = R2_FRAME_SIZE * k := process_in_len hc.lenin hin
  have hpos : 0 < len := by
    rw [hlen]
    exact Nat.mul_pos (by decide) hc.pos
  have hframed : ({ q with m_pMem_in := m_in } : SirenProcessorImpl F E).Framed := by
    refine ⟨?_, ?_⟩
    · show q.m_pMmem_bf.m_iLen_In_Cur < _
      rw [hqbf]
      exact hp.lt
    · intro hfirst
      show q.m_pMmem_bf.m_iLen_In_Cur = 0
      rw [hqbf]
      exact hp.fresh (hqfirst.symm.trans hfirst)
  obtain ⟨hbf, hfirst, hvad⟩ := checkMics_framed hframed hpos
  cases h
  refine ⟨hlen, ?_, ?_, ?_⟩
  · rw [← hqbf]
    exact hbf
  · unfold updateAndDumpStatus
    split
    · exact hfirst
    · exact hfirst
  · rw [← hqvad]
    exact hvad

theorem beamform_framed {p p₂ : SirenProcessorImpl F E} {n : Nat} {sig : Sig F}
    (hlt : p.m_pMmem_bf.m_iLen_In_Cur < R2memBf.m_iFrmSize E.bf)
    (h : p.beamform n = .ok (p₂, sig)) :
    sig.len = ((p.m_pMmem_bf.m_iLen_In_Cur + n) / R2memBf.m_iFrmSize E.bf *
        R2memBf.m_iFrmSize E.bf : Nat) ∧
      p₂.m_pMmem_bf.m_iLen_In_Cur < R2memBf.m_iFrmSize E.bf := by
  unfold beamform at h
  obtain ⟨⟨bf, out⟩, hbf, h⟩ := bind_eq_ok.mp h
  obtain ⟨hout, hcur⟩ := R2memBf.process_frames hlt hbf
  cases h
  refine ⟨?_, ?_⟩
  · show ((out.map _).length : Int) = _
    rw [List.length_map, hout, Int.toNat_natCast]
  · show bf.m_iLen_In_Cur < _
    rw [hcur]
    exact Nat.mod_lt _ (R2memBf.m_iFrmSize_pos E.bf)

/-- The block `if (pre)`: what it hands over, and what it leaves in the
    beamformer. -/
structure OnPre (p : SirenProcessorImpl F E) (w : WordFlags) (sig : Sig F)
    (p' : SirenProcessorImpl F E) (sig' : Sig F) : Prop where
  lt : p'.m_pMmem_bf.m_iLen_In_Cur < R2memBf.m_iFrmSize E.bf
  firstFrm : p'.state.firstFrm = p.state.firstFrm
  held : p'.m_pMem_vad2.m_iLen_In = p.m_pMem_vad2.m_iLen_In
  /-- After a sleep word the samples of the call itself. -/
  sleep : w.pre = true → w.sleepNoCmd = true → sig' = sig
  /-- Otherwise the audio of the word without its first 15 frames. -/
  word : w.pre = true → w.sleepNoCmd = false → ∃ det, p'.m_pMem_vbv3.m_pWordDetInfo = some det ∧
    sig'.len = ((det.iWordPos_Start + 20 * frmSize).toNat / R2memBf.m_iFrmSize E.bf *
      R2memBf.m_iFrmSize E.bf : Nat) - 15 * frmSize

omit [CFloat F] in
/-- A block that does nothing. -/
theorem OnPre.refl {p : SirenProcessorImpl F E} {w : WordFlags} {sig : Sig F}
    (hlt : p.m_pMmem_bf.m_iLen_In_Cur < R2memBf.m_iFrmSize E.bf) (hpre : w.pre = false) :
    OnPre p w sig p sig where
  lt := hlt
  firstFrm := rfl
  held := rfl
  sleep := fun h => by rw [hpre] at h; cases h
  word := fun h => by rw [hpre] at h; cases h

theorem resetASR_parts (p : SirenProcessorImpl F E) :
    p.resetASR.m_pMmem_bf.m_iLen_In_Cur = 0 ∧ p.resetASR.state.firstFrm = p.state.firstFrm ∧
      p.resetASR.m_pMem_vad2.m_iLen_In = p.m_pMem_vad2.m_iLen_In := by
  unfold resetASR
  dsimp only
  split
  · exact ⟨rfl, rfl, rfl⟩
  · exact ⟨rfl, rfl, rfl⟩

theorem fetchWord_parts (p : SirenProcessorImpl F E) (det : WordDetInfo F) :
    (p.fetchWord det).m_pMmem_bf.m_iLen_In_Cur = 0 ∧
      (p.fetchWord det).state.firstFrm = p.state.firstFrm ∧
      (p.fetchWord det).m_pMem_vad2.m_iLen_In = p.m_pMem_vad2.m_iLen_In ∧
      (p.fetchWord det).m_pMem_vbv3 = p.resetASR.m_pMem_vbv3 := by
  obtain ⟨hzero, hfirst, hheld⟩ := p.resetASR_parts
  unfold fetchWord
  dsimp only
  split
  · exact ⟨hzero, hfirst, hheld, rfl⟩
  · exact ⟨hzero, hfirst, hheld, rfl⟩

theorem onPre_framed {p p' : SirenProcessorImpl F E} {w : WordFlags} {sig sig' : Sig F}
    (hlt : p.m_pMmem_bf.m_iLen_In_Cur < R2memBf.m_iFrmSize E.bf)
    (h : p.onPre w sig = .ok (p', sig')) : OnPre p w sig p' sig' := by
  have hpos := R2memBf.m_iFrmSize_pos E.bf
  rcases onPre_eq_ok h with ⟨hpre, rfl, rfl⟩ | ⟨_, det, hdet, hword⟩
  · exact .refl hlt hpre
  · obtain ⟨hzero, hfirst, hheld, hvbv⟩ := p.fetchWord_parts det
    rcases hword with ⟨hsleep, rfl, rfl⟩ | ⟨hsleep, bf, out, hbf, rfl, hlen⟩
    · refine ⟨?_, hfirst, hheld, fun _ _ => rfl, ?_⟩
      · rw [hzero]
        exact hpos
      · intro _ hno
        rw [hsleep] at hno
        cases hno
    · -- the beamformer is empty when the audio of the word goes through it
      have hframes := R2memBf.process_frames (by rw [hzero]; exact hpos) hbf
      rw [hzero, Nat.zero_add] at hframes
      obtain ⟨hout, hcur⟩ := hframes
      refine ⟨?_, hfirst, hheld, ?_, ?_⟩
      · show bf.m_iLen_In_Cur < _
        rw [hcur]
        exact Nat.mod_lt _ hpos
      · intro _ hyes
        rw [hsleep] at hyes
        cases hyes
      · intro _ _
        refine ⟨det, ?_, ?_⟩
        · show (p.fetchWord det).m_pMem_vbv3.m_pWordDetInfo = some det
          rw [hvbv]
          exact hdet
        · rw [hlen, hout]

/-! ### A forced call -/

/-- A sleep word without a command, detected in the call that reports it, with
    too few samples for a frame: one package, of whose frames of 128 samples
    only one is full, and less than the rest in the VAD unit. -/
structure TooShort (p : SirenProcessorImpl F E) (w : WordFlags) (k : Nat) : Prop where
  mvdr : E.bf.mvdr = true
  sleepNoCmd : w.sleepNoCmd = true
  one : k = 1
  leftover : p.m_pMmem_bf.m_iLen_In_Cur < 96
  held : p.m_pMem_vad2.m_iLen_In < 32

/-- The VAD unit has a frame to read. -/
def HasFrame (p : SirenProcessorImpl F E) (sig : Sig F) : Prop :=
  0 ≤ sig.len ∧ (R2memVad2.m_iFrmSize : Int) ≤ p.m_pMem_vad2.m_iLen_In + sig.len

/-- What the VAD unit is given after a pre event. -/
theorem vadArgs_len {p p' : SirenProcessorImpl F E} {c : Call} {k : Nat} {w : WordFlags}
    {sig : Sig F} (hp : p.Framed) (hc : p.Package c k) (h : p.vadArgs c = .ok (p', w, sig))
    (hpre : w.pre = true) :
    p'.m_pMem_vad2.m_iLen_In = p.m_pMem_vad2.m_iLen_In ∧
      (w.sleepNoCmd = true →
        sig.len = ((p.m_pMmem_bf.m_iLen_In_Cur + R2_FRAME_SIZE * k) / R2memBf.m_iFrmSize E.bf *
          R2memBf.m_iFrmSize E.bf : Nat)) ∧
      (w.sleepNoCmd = false → ∃ det, p'.m_pMem_vbv3.m_pWordDetInfo = some det ∧
        sig.len = ((det.iWordPos_Start + 20 * frmSize).toNat / R2memBf.m_iFrmSize E.bf *
          R2memBf.m_iFrmSize E.bf : Nat) - 15 * frmSize) := by
  unfold vadArgs at h
  obtain ⟨⟨p₁, n⟩, h₁, h⟩ := bind_eq_ok.mp h
  obtain ⟨⟨p₂, sig₂⟩, h₂, h⟩ := bind_eq_ok.mp h
  obtain ⟨⟨p₃, w₃⟩, h₃, h⟩ := bind_eq_ok.mp h
  obtain ⟨⟨p₄, sig₄⟩, h₄, h⟩ := bind_eq_ok.mp h
  cases h
  obtain ⟨hn, hcur₁, hfirst₁, hvad₁⟩ := readInput_framed hp hc h₁
  have hlt₁ : p₁.m_pMmem_bf.m_iLen_In_Cur < R2memBf.m_iFrmSize E.bf := by
    rw [hcur₁]
    exact hp.lt
  obtain ⟨hsig, hlt₂⟩ := beamform_framed hlt₁ h₂
  -- no stage in front of the block touches the VAD unit
  have hvad₂ := (beamform_kept h₂).vad2
  have hvad₃ := (wakeWord_kept h₃).vad2
  have hbf₃ : p₃.m_pMmem_bf = p₂.m_pMmem_bf := congrArg (·.1) (wakeWord_front h₃)
  have hon := onPre_framed (by rw [hbf₃]; exact hlt₂) h₄
  refine ⟨?_, ?_, ?_⟩
  · rw [hon.held, hvad₃, hvad₂, hvad₁]
  · intro hsleep
    rw [hon.sleep hpre hsleep, hsig, hcur₁, hn]
  · intro hsleep
    exact hon.word hpre hsleep

/-- The audio of a word is long enough, whatever the frame. -/
theorem word_len {f : Nat} (hf : f = 128 ∨ f = 160) {start : Int} (hstart : 0 ≤ start) :
    (800 : Int) ≤ ((start + 20 * frmSize).toNat / f * f : Nat) - 15 * frmSize := by
  have hsize : frmSize = 160 := rfl
  rw [hsize]
  have hlong : 3200 ≤ (start + 20 * (160 : Nat)).toNat := by omega
  generalize (start + 20 * (160 : Nat)).toNat = n at hlong
  rcases hf with rfl | rfl
  · omega
  · omega

omit [CFloat F] in
theorem frmSize_bf (eng : BfEngine F) :
    (eng.mvdr = true ∧ R2memBf.m_iFrmSize eng = 128) ∨
      (eng.mvdr = false ∧ R2memBf.m_iFrmSize eng = 160) := by
  unfold R2memBf.m_iFrmSize
  cases eng.mvdr with
  | true => exact .inl ⟨rfl, rfl⟩
  | false => exact .inr ⟨rfl, rfl⟩

omit [CFloat F] in
/-- After a sleep word the VAD unit gets the whole frames of what waited in the
    beamformer and the packages. -/
theorem hasFrame_iff_of_sleep {p p' : SirenProcessorImpl F E} {c : Call} {k : Nat}
    {w : WordFlags} {sig : Sig F} (hp : p.Framed) (hc : p.Package c k)
    (hheld : p'.m_pMem_vad2.m_iLen_In = p.m_pMem_vad2.m_iLen_In) (hs : w.sleepNoCmd = true)
    (hlen : sig.len = ((p.m_pMmem_bf.m_iLen_In_Cur + R2_FRAME_SIZE * k) /
      R2memBf.m_iFrmSize E.bf * R2memBf.m_iFrmSize E.bf : Nat)) :
    p'.HasFrame sig ↔ ¬ p.TooShort w k := by
  have hvadSize : R2memVad2.m_iFrmSize = 160 := rfl
  have hframe : R2_FRAME_SIZE = 160 := rfl
  have hlt := hp.lt
  have hk := hc.pos
  unfold HasFrame
  rw [hheld, hvadSize]
  rw [hframe] at hlen
  rcases frmSize_bf E.bf with ⟨hmvdr, hsize⟩ | ⟨hmvdr, hsize⟩
  · rw [hsize] at hlen hlt
    constructor
    · intro hhas hshort
      have hone := hshort.one
      have hleft := hshort.leftover
      have hfew := hshort.held
      omega
    · intro hlong
      by_contra hnone
      apply hlong
      -- two packages, or one with 96 samples that wait, make two frames of 128
      refine ⟨hmvdr, hs, ?_, ?_, ?_⟩
      all_goals omega
  · rw [hsize] at hlen hlt
    constructor
    · intro _ hshort
      rw [hshort.mvdr] at hmvdr
      cases hmvdr
    · intro _
      omega

theorem hasFrame_iff {p p' : SirenProcessorImpl F E} {c : Call} {k : Nat} {w : WordFlags}
    {sig : Sig F} (hp : p.Framed) (hc : p.Package c k) (h : p.vadArgs c = .ok (p', w, sig))
    (hpre : w.pre = true)
    (hpos : ∀ det, p'.m_pMem_vbv3.m_pWordDetInfo = some det → 0 ≤ det.iWordPos_Start) :
    p'.HasFrame sig ↔ ¬ p.TooShort w k := by
  obtain ⟨hheld, hsleep, hword⟩ := vadArgs_len hp hc h hpre
  cases hs : w.sleepNoCmd with
  | true => exact hasFrame_iff_of_sleep hp hc hheld hs (hsleep hs)
  | false =>
    -- the audio of the word
    obtain ⟨det, hdet, hlen⟩ := hword hs
    have hf : R2memBf.m_iFrmSize E.bf = 128 ∨ R2memBf.m_iFrmSize E.bf = 160 := by
      rcases frmSize_bf E.bf with ⟨_, hsize⟩ | ⟨_, hsize⟩
      · exact .inl hsize
      · exact .inr hsize
    have hlong := word_len hf (hpos det hdet)
    have hvadSize : R2memVad2.m_iFrmSize = 160 := rfl
    refine iff_of_true ?_ ?_
    · unfold HasFrame
      omega
    · intro hshort
      rw [hshort.sleepNoCmd] at hs
      cases hs

/-- A forced call without a frame to read fails. -/
theorem runVad_of_not_hasFrame {p : SirenProcessorImpl F E} {w : WordFlags} {sig : Sig F}
    (hpre : w.pre = true) (hidle : p.m_pMem_vad2.m_iVadState = false) (hlen : 0 ≤ sig.len)
    (hnone : ¬ p.HasFrame sig) : p.runVad w sig = .error .vadNotStarted := by
  have hzero : (p.m_pMem_vad2.m_iLen_In + sig.len.toNat) / R2memVad2.m_iFrmSize = 0 := by
    apply Nat.div_eq_of_lt
    have hshort : ¬ ((R2memVad2.m_iFrmSize : Int) ≤ p.m_pMem_vad2.m_iLen_In + sig.len) :=
      fun hle => hnone ⟨hlen, hle⟩
    omega
  unfold runVad R2memVad2.process
  rw [assertThat, if_pos (by simpa using hlen), hpre]
  have hnum : (p.m_pMem_vad2.addInData sig.data sig.len.toNat).m_iLen_In =
    p.m_pMem_vad2.m_iLen_In + sig.len.toNat := rfl
  have hstill : (p.m_pMem_vad2.addInData sig.data sig.len.toNat).m_iVadState = false := hidle
  -- no turn of the loop, and the assertion behind it
  simp only [hnum, hzero, R2memVad2.frames, hstill]
  rfl

/-- A call with a pre event and no frame to start on does not return. -/
theorem process_of_not_hasFrame {p p' : SirenProcessorImpl F E} {c : Call} {w : WordFlags}
    {sig : Sig F} (h : p.vadArgs c = .ok (p', w, sig)) (hpre : w.pre = true) (hlen : 0 ≤ sig.len)
    (hnone : ¬ p'.HasFrame sig) : p.process c = .error .vadNotStarted := by
  have hidle : p'.m_pMem_vad2.m_iVadState = false := by
    unfold vadArgs at h
    obtain ⟨_, _, h⟩ := bind_eq_ok.mp h
    obtain ⟨_, _, h⟩ := bind_eq_ok.mp h
    obtain ⟨⟨p₃, w₃⟩, _, h⟩ := bind_eq_ok.mp h
    obtain ⟨⟨p₄, sig₄⟩, h₄, h⟩ := bind_eq_ok.mp h
    cases h
    rw [(onPre_kept h₄).vad2, if_pos hpre]
    -- the reset has closed the speech
    unfold resetASR
    dsimp only
    split
    · rfl
    · rfl
  rw [process_eq, h]
  show (p'.runVad w sig >>= _) = _
  rw [runVad_of_not_hasFrame hpre hidle hlen hnone]
  rfl

end SirenProcessorImpl

/-! ### Runs on packages -/

namespace Run

variable {F : Type} [CFloat F] {E : Engines F} {cfg : SirenConfig F}

/-- The runs whose frames are packages. -/
def packages (E : Engines F) (cfg : SirenConfig F) : System (Run F E) (Event F) :=
  (runs E cfg).restrict fun s e => ∀ c, e = .process c → ∃ k, s.p.Package c k

theorem init_framed {s : Run F E} (h : Init cfg s) : s.p.Framed := by
  obtain ⟨mic_i2s_delay, m_pWordLst, _, _, hp⟩ := SirenProcessorImpl.init_eq_some h.1
  rw [hp]
  exact ⟨R2memBf.m_iFrmSize_pos E.bf, fun _ => rfl⟩

theorem process_framed {p p' : SirenProcessorImpl F E} {c : Call} {k : Nat} (hp : p.Framed)
    (hc : p.Package c k) (h : p.process c = .ok p') : p'.Framed := by
  obtain ⟨st, hfront⟩ := SirenProcessorImpl.process_front h
  obtain ⟨_, hcur, hfirst, _⟩ := SirenProcessorImpl.readInput_framed hp hc st.readInput
  have hlt : st.p₁.m_pMmem_bf.m_iLen_In_Cur < R2memBf.m_iFrmSize E.bf := by
    rw [hcur]
    exact hp.lt
  -- the beamformer keeps less than a frame of what it has been given
  obtain ⟨_, hlt₂⟩ := SirenProcessorImpl.beamform_framed hlt st.beamform
  have hfirst₂ := congrArg ProcessState.firstFrm
    (SirenProcessorImpl.beamform_kept st.beamform).state
  have hfront₃ := SirenProcessorImpl.wakeWord_front st.wakeWord
  have hbf₃ : st.p₃.m_pMmem_bf = st.p₂.m_pMmem_bf := congrArg (·.1) hfront₃
  have hfirst₃ : st.p₃.state.firstFrm = st.p₂.state.firstFrm := congrArg (·.2.2) hfront₃
  have hon := SirenProcessorImpl.onPre_framed (by rw [hbf₃]; exact hlt₂) st.onPre
  -- the later stages leave the front alone
  have hbf : p'.m_pMmem_bf = st.p₄.m_pMmem_bf := congrArg (·.1) hfront
  have hlast : p'.state.firstFrm = st.p₄.state.firstFrm := congrArg (·.2.2) hfront
  refine ⟨?_, ?_⟩
  · rw [hbf]
    exact hon.lt
  · intro hnew
    -- the first package has been seen
    rw [hlast, hon.firstFrm, hfirst₃, hfirst₂, hfirst] at hnew
    cases hnew

theorem next_framed {s s' : Run F E} {e : Event F} (hs : s.p.Framed)
    (he : ∀ c, e = .process c → ∃ k, s.p.Package c k) (h : s.next e = .ok s') :
    s'.p.Framed := by
  cases e with
  | process c =>
    obtain ⟨k, hc⟩ := he c rfl
    unfold next at h
    obtain ⟨p, hp, h⟩ := bind_eq_ok.mp h
    cases h
    have hframed := process_framed hs hc hp
    exact ⟨hframed.lt, hframed.fresh⟩
  | setState a =>
    cases h
    -- a state change clears `awke` at most
    have hsame : (s.p.setState a).m_pMmem_bf = s.p.m_pMmem_bf ∧
        (s.p.setState a).state.firstFrm = s.p.state.firstFrm := by
      unfold SirenProcessorImpl.setState
      split
      · exact ⟨rfl, rfl⟩
      · exact ⟨rfl, rfl⟩
    refine ⟨?_, ?_⟩
    · show (s.p.setState a).m_pMmem_bf.m_iLen_In_Cur < _
      rw [hsame.1]
      exact hs.lt
    · intro hfirst
      show (s.p.setState a).m_pMmem_bf.m_iLen_In_Cur = 0
      rw [hsame.1]
      exact hs.fresh (hsame.2.symm.trans hfirst)
  | setSLSteer ho ver =>
    cases h
    exact ⟨hs.lt, hs.fresh⟩
  | syncVTWord words =>
    unfold next at h
    obtain ⟨p, hp, h⟩ := bind_eq_ok.mp h
    cases h
    obtain ⟨_, _, _, _, rfl⟩ := SirenProcessorImpl.syncVTWord_eq_ok hp
    exact ⟨hs.lt, hs.fresh⟩

theorem packages_framed {s : Run F E} (hs : Reachable (packages E cfg) s) : s.p.Framed := by
  refine invariant (packages E cfg) (fun s => s.p.Framed) (fun _ => init_framed) ?_ hs
  intro s e s' hframed hstep
  exact next_framed hframed hstep.1 (toOption_eq_some.mp hstep.2)

/-- After any run on packages, a call with a pre event has a frame to start on
    exactly if it is not too short. -/
theorem forceStart_iff {s : Run F E} (hs : Reachable (packages E cfg) s) {c : Call} {k : Nat}
    (hc : s.p.Package c k) {p : SirenProcessorImpl F E} {w : WordFlags} {sig : Sig F}
    (h : s.p.vadArgs c = .ok (p, w, sig)) (hpre : w.pre = true)
    (hpos : ∀ det, p.m_pMem_vbv3.m_pWordDetInfo = some det → 0 ≤ det.iWordPos_Start) :
    p.HasFrame sig ↔ ¬ s.p.TooShort w k :=
  SirenProcessorImpl.hasFrame_iff (packages_framed hs) hc h hpre hpos

/-! ### A sleep word in the first package -/

/-- A wake-word engine that reports a sleep word and detects it without a
    command, all in the first call. -/
def sleepWord (mvdr : Bool) : Engines ℚ :=
  let E := scripted [] [] [⟨true, true, false, false, true⟩]
    ⟨WORD_SLEEP, [], [], 0, 0, false, false, false, false, false, 0, none⟩
  { E with bf := { E.bf with mvdr := mvdr } }

/-- One package of samples 1.0. -/
def sleepCall : Call where
  datain := fun i => if i % 4 = 2 then 0x80 else if i % 4 = 3 then 0x3f else 0
  lenin := 640
  aecflag := 0
  awakeflag := 0
  sleepflag := 1
  asrflag := 0
  hotwordflag := 0

/-- The first package has come, and the VAD unit is about to be called with
    `len` samples. -/
theorem sleepCall_first (mvdr : Bool) : ∃ (s : Run ℚ (sleepWord mvdr))
    (p : SirenProcessorImpl ℚ (sleepWord mvdr)) (w : WordFlags) (sig : Sig ℚ),
    Init (smallConfig false false) s ∧ s.p.Package sleepCall 1 ∧
      s.p.vadArgs sleepCall = .ok (p, w, sig) ∧ w.pre = true ∧
      (∀ det, p.m_pMem_vbv3.m_pWordDetInfo = some det → 0 ≤ det.iWordPos_Start) ∧
      p.m_pMem_vad2.m_iLen_In = 0 ∧ sig.len = if mvdr then 128 else 160 := by
  have hrun : ((script (sleepWord mvdr) (smallConfig false false) []).bind fun s =>
      match s.p.vadArgs sleepCall with
      | .ok (p, w, sig) => some
          (s.p.m_pMem_in.m_iInType.size * s.p.m_pMem_in.m_pMicInfo_In.length, w.pre,
            p.m_pMem_vbv3.m_pWordDetInfo.all fun det => decide (0 ≤ det.iWordPos_Start),
            p.m_pMem_vad2.m_iLen_In, sig.len)
      | .error _ => none) = some (4, true, true, 0, if mvdr then 128 else 160) := by
    cases mvdr <;> decide +kernel
  obtain ⟨s, hs, hargs⟩ := Option.bind_eq_some_iff.mp hrun
  split at hargs
  · next p w sig hvad =>
    have hargs := Option.some.inj hargs
    simp only [Prod.mk.injEq] at hargs
    obtain ⟨hsize, hpre, hdet, hheld, hlen⟩ := hargs
    refine ⟨s, p, w, sig, init_of_script hs, ⟨by decide, ?_⟩, hvad, hpre, ?_, hheld, hlen⟩
    · rw [hsize]
      rfl
    · intro det hsome
      rw [hsome] at hdet
      exact of_decide_eq_true hdet
  · cases hargs

/-- With frames of 160 samples there is one. -/
theorem forceStart_iff_sleepWord : ∃ (s : Run ℚ (sleepWord false))
    (p : SirenProcessorImpl ℚ (sleepWord false)) (w : WordFlags) (sig : Sig ℚ),
    s.p.vadArgs sleepCall = .ok (p, w, sig) ∧ w.pre = true ∧
      (p.HasFrame sig ↔ ¬ s.p.TooShort w 1) := by
  obtain ⟨s, p, w, sig, hinit, hc, h, hpre, hpos, _⟩ := sleepCall_first false
  have hreach : Reachable (packages (sleepWord false) (smallConfig false false)) s := .init hinit
  exact ⟨s, p, w, sig, h, hpre, forceStart_iff hreach hc h hpre hpos⟩

/-- With frames of 128 samples only those come out, and the call does not
    return. -/
theorem forceStart_without_frame : ∃ (s : Run ℚ (sleepWord true))
    (p : SirenProcessorImpl ℚ (sleepWord true)) (w : WordFlags) (sig : Sig ℚ),
    Reachable (packages (sleepWord true) (smallConfig false false)) s ∧ s.p.Package sleepCall 1 ∧
      s.p.vadArgs sleepCall = .ok (p, w, sig) ∧ w.pre = true ∧
      (∀ det, p.m_pMem_vbv3.m_pWordDetInfo = some det → 0 ≤ det.iWordPos_Start) ∧
      ¬ p.HasFrame sig ∧ s.p.process sleepCall = .error .vadNotStarted := by
  obtain ⟨s, p, w, sig, hinit, hc, h, hpre, hpos, hheld, hlen⟩ := sleepCall_first true
  have hlen : sig.len = 128 := hlen
  have hnone : ¬ p.HasFrame sig := by
    rintro ⟨_, hle⟩
    rw [hheld, hlen] at hle
    exact absurd hle (by decide)
  have hfail := SirenProcessorImpl.process_of_not_hasFrame h hpre (by rw [hlen]; decide) hnone
  exact ⟨s, p, w, sig, .init hinit, hc, h, hpre, hpos, hnone, hfail⟩

end Run

end BlackSiren

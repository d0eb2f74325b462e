import BlackSiren.Legacy.BfReset
import BlackSiren.Legacy.CodReset
import BlackSiren.Legacy.Vad2Reset

/-! # What `SirenProcessorImpl::resetASR` leaves behind

    It resets the encoder, the beamformer and the VAD unit.  After it nothing
    heard before should matter: a unit that has been reset should answer like a
    new one.
-/

namespace BlackSiren

section

/-- An engine that opens speech with the first frame and never ends it. -/
def eagerVad : VadEngine ℚ where
  State := Unit
  create := ()
  setParam _ _ _ := ()
  restart _ := ()
  setStart _ _ := ()
  input _ _ _ _ := ()
  startFrame _ := 0
  frameNum _ := 0
  voice _ _ := 0
  stopFrame _ := 0

def noEnergy : eagerVad.State → ℚ × ℚ := fun _ => (0, 0)

theorem eagerVad_restartRestores : eagerVad.RestartRestores := fun _ _ _ _ => rfl

theorem eagerVad_startsForced : eagerVad.StartsForced := fun _ _ _ _ _ => Int.le_refl 0

/-- A beamformer that puts out its first microphone. -/
def firstMic : BfEngine ℚ where
  State := Unit
  create _ _ := ()
  steer _ _ _ := ()
  process _ rows := ((), fun k => (rows.getD 0 []).getD k 0)

/-- A PCM encoder calls no codec. -/
def noOpus : OpusEncoder ℚ := ⟨Unit, (), fun _ _ => ((), .packet [])⟩

/-- A PCM encoder has encoded a frame of 500 samples, and holds the others. -/
theorem encoder_used :
    ∃ (c : R2memCod ℚ noOpus) (answers : List R2memCodAnswer),
      Objects.run R2memCod.call (.new .r2ad_cod_pcm)
          [.process (List.replicate 500 1), .getdatalen] = .ok (c, answers) ∧
        c.m_iLen_Cod = 320 ∧ c.m_iLen_In = 500 := by
  let c₀ : R2memCod ℚ noOpus :=
    (R2memCod.new .r2ad_cod_pcm).process (List.replicate 500 1)
  obtain ⟨c, n, hread⟩ := R2memCod.getdatalen_of_pcm (c := c₀) rfl rfl
  have hrun : Objects.run R2memCod.call (.new .r2ad_cod_pcm)
      [.process (List.replicate 500 1), .getdatalen] = .ok (c, [.done, .len n]) :=
    Objects.run_cons_eq_ok.mpr ⟨c₀, _, _, rfl,
      Objects.run_cons_eq_ok.mpr ⟨c, _, [], hread, rfl, rfl⟩, rfl⟩
  obtain ⟨⟨⟨k, hk⟩, hbehind⟩, hinput⟩ := R2memCod.run_frameWise hrun
  have hlen : c.m_iLen_In = 500 := by
    rw [hinput]
    show 0 + (List.replicate 500 (1 : ℚ)).length = 500
    rw [List.length_replicate]
  have hframe₀ : c₀.FrameWise := ⟨Nat.dvd_zero _, .inl rfl⟩
  have hrest := (R2memCod.call_read hframe₀ rfl hread).rest
  have hsize : lenFrmCod = 320 := rfl
  refine ⟨c, _, hrun, ?_, hlen⟩
  -- a multiple of the frame, at most one frame behind 500
  rw [hlen] at hbehind hrest
  rw [hsize] at hk hrest
  omega

/-- A beamformer of two microphones has put out a frame of 200 instants, and
    holds the others. -/
theorem beamformer_used (slText : ℚ → ℚ → List UInt8) (near : ℚ × ℚ → ℚ → ℚ → Bool) :
    ∃ (b : R2memBf ℚ firstMic) (answers : List (R2memBfAnswer ℚ)),
      Objects.run (R2memBf.call slText near) (.new (fun _ => (0, 0, 0)) (fun _ => 0) [0, 1])
          [.process (fun _ k => k) 200] = .ok (b, answers) ∧ b.m_iLen_In_Cur = 40 := by
  let b₀ : R2memBf ℚ firstMic := .new (fun _ => (0, 0, 0)) (fun _ => 0) [0, 1]
  let r := R2memBf.chunks (fun _ k => (k : ℚ)) 200 200 0 b₀
  have hprocess : b₀.process (fun _ k => (k : ℚ)) 200 = .ok (r.1, r.2) := rfl
  have hcall : b₀.call slText near (.process (fun _ k => (k : ℚ)) 200) =
      .ok (r.1, .data r.2) := by
    show (b₀.process (fun _ k => (k : ℚ)) 200 >>= _) = _
    rw [hprocess]
    rfl
  have hheld := (R2memBf.process_frames (b := b₀) (by decide) hprocess).2
  have hnone : b₀.m_iLen_In_Cur = 0 := rfl
  have hsize : R2memBf.m_iFrmSize firstMic = 160 := rfl
  rw [hnone, hsize] at hheld
  exact ⟨r.1, _, Objects.run_cons_eq_ok.mpr ⟨_, _, [], hcall, rfl, rfl⟩, hheld⟩

/-- A chunk of `n` samples for the VAD unit, with no forced start. -/
def ones (n : Nat) : VadInput ℚ := ⟨List.replicate n 1, false, false, false⟩

/-- Speech is ended by the third frame of the first chunk, and is open after the
    second, with which the sample left over is read. -/
theorem vad_used (energy : Nat → ℚ × ℚ) :
    ∃ (v : R2memVad2 ℚ (VadEngine.counting 1 3)) (answers : List (R2memVad2Answer ℚ)),
      Objects.run (R2memVad2.call energy) .new [.process (ones 481), .process (ones 159)] =
        .ok (v, answers) ∧ v.m_iLen_In = 0 ∧ v.m_iVadState = true := by
  have hcall₁ := R2memVad2.call_of_unforced energy
    (.new : R2memVad2 ℚ (VadEngine.counting 1 3)) (c := ones 481) rfl
  refine ⟨_, _, Objects.run_cons_eq_ok.mpr ⟨_, _, _, hcall₁, Objects.run_cons_eq_ok.mpr
    ⟨_, _, [], R2memVad2.call_of_unforced energy _ rfl, rfl, rfl⟩, rfl⟩, ?_, ?_⟩
  · decide +kernel
  · decide +kernel

/-- The calls after the reset leave no frames over either. -/
theorem vad_further (energy : Nat → ℚ × ℚ) :
    Objects.Along (R2memVad2.call energy) R2memVad2.LeavesNothing
      (R2memVad2.new.setvadendparam 0 : R2memVad2 ℚ (VadEngine.counting 1 3))
      [.process (ones 320), .process (ones 161), .process (ones 500), .getenergy] := by
  refine R2memVad2.along_of_unforced rfl ?_ (R2memVad2.along_of_unforced rfl ?_
    (R2memVad2.along_of_unforced rfl ?_ ⟨trivial, fun _ _ _ => trivial⟩))
  all_goals
    unfold R2memVad2.ClosesEarly
    decide +kernel

end

end BlackSiren

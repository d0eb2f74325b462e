import BlackSiren.Framework.Objects
import BlackSiren.Legacy.Bf

/-! # `r2mem_bf` after `reset`

    - `R2memBfCall`, `call`: the calls and their answers
    - `observe_reset`: without `CONFIG_BF_MVDR` a reset beamformer is a new one
-/

namespace BlackSiren

/-- The calls of `r2mem_bf`. -/
inductive R2memBfCall (F : Type) where
  | process (pData_In : Chan F) (iLen_In : Int)
  | steer (fAzimuth fElevation : F) (bSteer : Bool)
  | getinfo_sl
  | check (fAzimuth fElevation : F)
  | reset

/-- What a call returns. -/
inductive R2memBfAnswer (F : Type) where
  | done
  | data (out : List F)
  | text (info : List UInt8)
  | flag (b : Bool)

namespace R2memBf

variable {F : Type} [CFloat F] {eng : BfEngine F}

/-- One call; `slText` is the text of `sprintf` for a direction, `near` the
    comparison of `check`. -/
def call (slText : F → F → List UInt8) (near : F × F → F → F → Bool) (b : R2memBf F eng) :
    R2memBfCall F → Except Fault (R2memBf F eng × R2memBfAnswer F)
  | .process pData_In iLen_In => do
      let (b, out) ← b.process pData_In iLen_In
      return (b, .data out)
  | .steer az el bSteer =>
      .ok (if bSteer then b.steer az el else { b with m_fSlInfo := (az, el) }, .done)
  | .getinfo_sl => .ok (b, .text (b.getinfo_sl slText))
  | .check az el => .ok (b, .flag (near b.m_fSlInfo az el))
  | .reset => .ok (b.reset, .done)

/-- The unit was built with these positions and delays. -/
structure BuiltWith (pos : Int → F × F × F) (delay : Int → F) (mics : MicIdLst)
    (b : R2memBf F eng) : Prop where
  m_pMicInfo_Bf : b.m_pMicInfo_Bf = mics
  m_pMics_Bf : b.m_pMics_Bf = mics.map pos
  m_pMicI2sDelay : b.m_pMicI2sDelay = mics.map delay

variable {pos : Int → F × F × F} {delay : Int → F} {mics : MicIdLst}

omit [CFloat F] in
theorem flush_builtWith {b : R2memBf F eng} (hb : b.BuiltWith pos delay mics) :
    b.flush.1.BuiltWith pos delay mics := by
  unfold flush
  split
  · exact ⟨hb.m_pMicInfo_Bf, hb.m_pMics_Bf, hb.m_pMicI2sDelay⟩
  · exact hb

omit [CFloat F] in
theorem chunks_builtWith (d : Chan F) (len fuel cur : Nat) {b : R2memBf F eng}
    (hb : b.BuiltWith pos delay mics) : (chunks d len fuel cur b).1.BuiltWith pos delay mics := by
  induction fuel generalizing cur b with
  | zero => exact hb
  | succ fuel ih =>
    unfold chunks
    split
    · exact ih _ (flush_builtWith ⟨hb.m_pMicInfo_Bf, hb.m_pMics_Bf, hb.m_pMicI2sDelay⟩)
    · exact hb

theorem call_builtWith {slText : F → F → List UInt8} {near : F × F → F → F → Bool}
    {b b' : R2memBf F eng} {k : R2memBfCall F} {a : R2memBfAnswer F}
    (hb : b.BuiltWith pos delay mics) (h : b.call slText near k = .ok (b', a)) :
    b'.BuiltWith pos delay mics := by
  cases k with
  | process d len =>
    simp only [call, process] at h
    -- the beams change, the microphones do not
    obtain ⟨r, h₁, h⟩ := bind_eq_ok.mp h
    obtain ⟨_, _, h₁⟩ := bind_eq_ok.mp h₁
    cases h₁
    cases h
    exact chunks_builtWith d _ _ _ hb
  | steer az el bSteer =>
    cases h
    split
    · exact ⟨hb.m_pMicInfo_Bf, hb.m_pMics_Bf, hb.m_pMicI2sDelay⟩
    · exact ⟨hb.m_pMicInfo_Bf, hb.m_pMics_Bf, hb.m_pMicI2sDelay⟩
  | getinfo_sl =>
    cases h
    exact hb
  | check az el =>
    cases h
    exact hb
  | reset =>
    cases h
    exact ⟨hb.m_pMicInfo_Bf, hb.m_pMics_Bf, hb.m_pMicI2sDelay⟩

/-- `reset` builds the unit anew. -/
theorem reset_eq_new (hmvdr : eng.mvdr = false) {b : R2memBf F eng}
    (hb : b.BuiltWith pos delay mics) : b.reset = new pos delay mics := by
  obtain ⟨hmics, hpos, hdelay⟩ := hb
  simp only [reset, new, steer, hmvdr, Bool.false_eq_true, if_false, hmics, hpos, hdelay]

/-- After `reset` a beamformer (without `CONFIG_BF_MVDR`) answers like a new
    one. -/
theorem observe_reset (hmvdr : eng.mvdr = false) {slText : F → F → List UInt8}
    {near : F × F → F → F → Bool} {history : List (R2memBfCall F)} {b : R2memBf F eng}
    {answers : List (R2memBfAnswer F)}
    (h : Objects.run (call slText near) (new pos delay mics) history = .ok (b, answers))
    (further : List (R2memBfCall F)) :
    Objects.observe (call slText near) b.reset further =
      Objects.observe (call slText near) (new pos delay mics : R2memBf F eng) further := by
  have hbuilt : b.BuiltWith pos delay mics :=
    Objects.run_invariant (BuiltWith pos delay mics)
      (fun _ _ _ _ hb hcall => call_builtWith hb hcall) ⟨rfl, rfl, rfl⟩ h
  rw [reset_eq_new hmvdr hbuilt]

end R2memBf

end BlackSiren

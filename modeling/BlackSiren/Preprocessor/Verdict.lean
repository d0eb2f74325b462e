import BlackSiren.Legacy.Interleave
import BlackSiren.Preprocessor.Run

/-! # The verdict in the first package

    The calibration swallows what comes in until it has its verdict, so nothing
    leaves the preprocessor before; the first samples that do are replaced by the
    verdict.

    - `mark`: a verdict as a sample
    - `Inv`: what holds between two frames
    - `preprocess_inv`: one frame
    - `feed_first`: the first package of a run
-/

namespace BlackSiren

/-- The verdict on a microphone as a sample. -/
def mark (F : Type) [CFloat F] (m_bMicOk : Bool) : F :=
  if m_bMicOk then CFloat.ofInt 1 else CFloat.ofInt 0

/-- A package made of the samples `d` of the listed microphones, `n` of each. -/
structure Interleaves {F : Type} [CFloat F] (mics : MicIdLst) (data : List UInt8) (d : Chan F)
    (n : Nat) : Prop where
  pos : 0 < n
  data : data = (R2memO.mk mics).process d n

/-- A package that starts with a verdict on the listed microphones. -/
def Carries (F : Type) [CFloat F] (mics : MicIdLst) (m_bMicOk : List Bool) (data : List UInt8) :
    Prop :=
  ∃ (d : Chan F) (n : Nat), Interleaves mics data d n ∧
    ∀ r ∈ mics.zip m_bMicOk, d r.1 0 = mark F r.2

namespace SirenPreprocessorImpl

variable {F D : Type} [CFloat F] [CDouble F D] {E : PreEngines F}

/-! ### The marks -/

/-- The marks of the microphones in a list of verdicts. -/
def writeMarks (l : List (Int × Bool)) (d : Chan F) : Chan F :=
  l.foldl (fun d r => fun id i =>
    if id = r.1 ∧ i = 0 then
      if r.2 then CFloat.ofInt 1 else CFloat.ofInt 0
    else d id i) d

theorem writeMarks_of_not_mem {l : List (Int × Bool)} {id : Int} (h : id ∉ l.map Prod.fst)
    (d : Chan F) : writeMarks l d id 0 = d id 0 := by
  induction l generalizing d with
  | nil => rfl
  | cons r l ih =>
    rw [List.map_cons, List.mem_cons, not_or] at h
    apply (ih h.2 _).trans
    exact if_neg (fun hid => h.1 hid.1)

/-- Every microphone has its own mark if none is listed twice. -/
theorem writeMarks_of_mem {l : List (Int × Bool)} (hnodup : (l.map Prod.fst).Nodup)
    {r : Int × Bool} (h : r ∈ l) (d : Chan F) : writeMarks l d r.1 0 = mark F r.2 := by
  induction l generalizing d with
  | nil => cases h
  | cons a l ih =>
    rw [List.map_cons, List.nodup_cons] at hnodup
    rcases List.mem_cons.mp h with rfl | h
    · -- the later marks are for other microphones
      apply (writeMarks_of_not_mem hnodup.1 _).trans
      exact if_pos ⟨rfl, rfl⟩
    · exact ih hnodup.2 h _

omit [CDouble F D] in
theorem markMics_eq (p : SirenPreprocessorImpl F D E) (d : Chan F) : p.markMics d =
    writeMarks (p.config.alg_config.alg_aec_mics.zip p.m_pMem_rdc.m_bMicOk) d := rfl

/-! ### Between two frames -/

/-- A preprocessor with configuration `cfg` between two frames: its lists are
    those of the configuration, the buffer is empty, and before the verdict
    nothing has reached the echo canceller. -/
structure Inv (cfg : ConfigIf.SirenConfig F D) (p : SirenPreprocessorImpl F D E) : Prop where
  config : p.config = cfg
  doAEC : p.doAEC = true
  out : p.m_pMem_out.m_pMicInfo_Out = cfg.alg_config.alg_aec_mics
  rdc : p.m_pMem_rdc.m_pMicInfo_Rdc = cfg.alg_config.alg_aec_mics
  sized : p.m_pMem_rdc.Sized
  buff : p.m_pMem_buff.Empty
  waiting : ¬ p.m_pMem_rdc.Calibrated → p.m_pMem_aec.m_iLen_Out = 0

theorem inv_built (cfg : ConfigIf.SirenConfig F D) (in_type : R2InType) (cpus : Option MicIdLst) :
    Inv cfg (built cfg in_type cpus : SirenPreprocessorImpl F D E) :=
  ⟨rfl, rfl, rfl, rfl, R2memRdc.sized_new _ _, R2memBuff.empty_new, fun _ => rfl⟩

variable {cfg : ConfigIf.SirenConfig F D} {p : SirenPreprocessorImpl F D E}

/-! ### The stages of a frame -/

/-- Nothing gets through the calibration before its verdict, and nothing changes
    it afterwards. -/
theorem calibrated_inv (h : Inv cfg p) (m_pMem_in : R2memI F) (n : Nat) :
    Inv cfg (p.calibrated m_pMem_in n).1 ∧
      (¬ (p.calibrated m_pMem_in n).1.m_pMem_rdc.Calibrated →
        (p.calibrated m_pMem_in n).2 = 0) ∧
      (p.m_pMem_rdc.Calibrated → (p.calibrated m_pMem_in n).1.m_pMem_rdc = p.m_pMem_rdc) ∧
      (p.calibrated m_pMem_in n).1.firstFrm = p.firstFrm := by
  refine ⟨⟨h.config, h.doAEC, h.out, ?_, ?_, h.buff, ?_⟩, ?_, ?_, rfl⟩
  · exact (R2memRdc.process_mics _ _ _).trans h.rdc
  · exact R2memRdc.process_sized h.sized _ _
  · intro hnot
    apply h.waiting
    intro hcal
    apply hnot
    show (R2memRdc.process _ _ _).1.Calibrated
    -- a unit that has its verdict passes the samples on
    rw [R2memRdc.process_of_calibrated _ _ hcal]
    exact hcal
  · exact R2memRdc.process_waiting _ _
  · exact R2memRdc.process_of_calibrated _ _

omit [CDouble F D] in
/-- The echo canceller puts nothing out before the verdict. -/
theorem cancelEcho_inv (h : Inv cfg p) {n : Nat} (hn : ¬ p.m_pMem_rdc.Calibrated → n = 0) :
    Inv cfg (p.cancelEcho n).1 ∧ (p.cancelEcho n).1.m_pMem_rdc = p.m_pMem_rdc ∧
      (p.cancelEcho n).1.firstFrm = p.firstFrm ∧
      (¬ p.m_pMem_rdc.Calibrated → (p.cancelEcho n).2.1 = 0) := by
  unfold cancelEcho
  rw [if_pos h.doAEC]
  refine ⟨⟨h.config, h.doAEC, h.out, h.rdc, h.sized, h.buff, ?_⟩, rfl, rfl, ?_⟩
  · intro hnot
    -- nothing in and nothing held: nothing out
    have hnothing := R2memAec.process_nothing (h.waiting hnot) p.m_pMem_rs.m_pData_Out
    rw [← hn hnot] at hnothing
    exact hnothing.1.trans (hn hnot)
  · intro hnot
    have hnothing := R2memAec.process_nothing (h.waiting hnot) p.m_pMem_rs.m_pData_Out
    rw [← hn hnot] at hnothing
    exact hnothing.2.trans (hn hnot)

omit [CFloat F] [CDouble F D] in
theorem setDataMul_eq (h : p.doAEC = true) (d : Chan F) : p.setDataMul d =
    { p with m_pMem_aec := { p.m_pMem_aec with m_pData_Out := d } } := by
  unfold setDataMul
  exact if_pos h

omit [CDouble F D] in
theorem markFirst_of_first (h : p.doAEC = true) {n : Nat} (hn : 0 < n)
    (hfirst : p.firstFrm = true) : p.markFirst n = { p with
      firstFrm := false
      m_pMem_aec := { p.m_pMem_aec with m_pData_Out := p.markMics p.dataMul } } := by
  unfold markFirst
  rw [if_pos ⟨hn, hfirst⟩]
  exact setDataMul_eq (p := { p with firstFrm := false }) h _

omit [CDouble F D] in
/-- The first samples put out carry the verdict; the rest of the preprocessor
    stays. -/
theorem markFirst_inv (h : Inv cfg p) (n : Nat) :
    Inv cfg (p.markFirst n) ∧ (p.markFirst n).m_pMem_rdc = p.m_pMem_rdc ∧
      (n = 0 → (p.markFirst n).firstFrm = p.firstFrm) ∧
      (0 < n → p.firstFrm = true → (p.markFirst n).dataMul =
        writeMarks (cfg.alg_config.alg_aec_mics.zip p.m_pMem_rdc.m_bMicOk) p.dataMul) := by
  by_cases hfirst : n > 0 ∧ p.firstFrm = true
  · rw [markFirst_of_first h.doAEC hfirst.1 hfirst.2, markMics_eq, h.config]
    refine ⟨⟨rfl, h.doAEC, h.out, h.rdc, h.sized, h.buff, h.waiting⟩, rfl, ?_, ?_⟩
    · intro hn
      omega
    · intro _ _
      exact if_pos h.doAEC
  · have hsame : p.markFirst n = p := if_neg hfirst
    rw [hsame]
    refine ⟨h, rfl, fun _ => rfl, ?_⟩
    intro hn hfrm
    exact absurd ⟨hn, hfrm⟩ hfirst

omit [CFloat F] [CDouble F D] in
/-- The buffer holds what has just been put into it, and all of it goes into the
    package. -/
theorem fetch_put (h : p.m_pMem_buff.Empty) (data : List UInt8) (aec : Int) :
    (({ p with m_pMem_buff := p.m_pMem_buff.put data }).fetch aec).2 =
        (if data.length = 0 then none else some ⟨aec, data⟩) ∧
      ∃ b : R2memBuff, b.Empty ∧
        (({ p with m_pMem_buff := p.m_pMem_buff.put data }).fetch aec).1 =
          { p with m_pMem_buff := b } := by
  have hlen : ({ p with m_pMem_buff := p.m_pMem_buff.put data } :
      SirenPreprocessorImpl F D E).getResultLen = data.length := R2memBuff.getdatalen_put h data
  obtain ⟨hdata, hempty⟩ := R2memBuff.getdata_put h data
  unfold fetch
  dsimp only
  rw [hlen]
  -- an empty buffer makes no package
  by_cases hnil : data.length = 0
  · rw [if_pos hnil, if_pos hnil]
    refine ⟨rfl, _, ⟨?_, ?_⟩, rfl⟩
    · exact (R2memBuff.put_len h data).1.trans hnil
    · exact (R2memBuff.put_len h data).2
  · rw [if_neg hnil, if_neg hnil]
    refine ⟨?_, _, hempty, rfl⟩
    exact congrArg (fun l => some (PreprocessVoicePackage.mk aec l)) hdata

omit [CDouble F D] in
/-- All samples behind the echo canceller become a package. -/
theorem emit_package (h : Inv cfg p) (hne : cfg.alg_config.alg_aec_mics ≠ []) (n : Nat)
    (aec : Int) :
    ((p.emit n).fetch aec).2 =
        (if n = 0 then none
          else some ⟨aec,
            (R2memO.mk cfg.alg_config.alg_aec_mics).process (p.markFirst n).dataMul n⟩) ∧
      Inv cfg ((p.emit n).fetch aec).1 ∧
      ((p.emit n).fetch aec).1.m_pMem_rdc = p.m_pMem_rdc ∧
      ((p.emit n).fetch aec).1.firstFrm = (p.markFirst n).firstFrm := by
  obtain ⟨hinv, hrdc, _, _⟩ := markFirst_inv h n
  obtain ⟨hpackage, b, hb, hkept⟩ := fetch_put hinv.buff
    ((p.markFirst n).m_pMem_out.process (p.markFirst n).dataMul n) aec
  have hlen : ((p.markFirst n).m_pMem_out.process (p.markFirst n).dataMul n).length =
      4 * cfg.alg_config.alg_aec_mics.length * n := by
    rw [R2memO.length_process, hinv.out]
  -- with microphones, samples are bytes
  have hnonempty : 0 < cfg.alg_config.alg_aec_mics.length := List.length_pos_iff.mpr hne
  change ((p.emit n).fetch aec).2 = _ at hpackage
  change ((p.emit n).fetch aec).1 = _ at hkept
  rw [hpackage, hkept, hlen, ← hinv.out]
  refine ⟨?_, ?_, hrdc, rfl⟩
  · by_cases hn : n = 0
    · rw [if_pos hn, hn, Nat.mul_zero, if_pos rfl]
    · rw [if_neg hn, if_neg (Nat.mul_ne_zero (by rw [hinv.out]; omega) hn)]
  · exact ⟨hinv.config, hinv.doAEC, hinv.out, hinv.rdc, hinv.sized, hb, hinv.waiting⟩

omit [CDouble F D] in
/-- The first package carries the verdict. -/
theorem emit_inv (h : Inv cfg p) (hmics : cfg.alg_config.alg_aec_mics.Nodup)
    (hne : cfg.alg_config.alg_aec_mics ≠ []) (n : Nat) (aec : Int) :
    (((p.emit n).fetch aec).2 = none → ((p.emit n).fetch aec).1.firstFrm = p.firstFrm) ∧
      ∀ package, ((p.emit n).fetch aec).2 = some package → 0 < n ∧ (p.firstFrm = true →
        Carries F cfg.alg_config.alg_aec_mics p.m_pMem_rdc.m_bMicOk package.data) := by
  obtain ⟨_, _, hzero, hmark⟩ := markFirst_inv h n
  obtain ⟨hpackage, _, _, hfrm⟩ := emit_package h hne n aec
  rw [hpackage, hfrm]
  by_cases hn : n = 0
  · rw [if_pos hn]
    refine ⟨fun _ => hzero hn, ?_⟩
    intro package hsome
    cases hsome
  · rw [if_neg hn]
    refine ⟨?_, ?_⟩
    · intro hnone
      cases hnone
    · intro package hsome
      cases hsome
      refine ⟨by omega, ?_⟩
      intro hfirst
      refine ⟨(p.markFirst n).dataMul, n, ⟨by omega, rfl⟩, ?_⟩
      intro r hr
      -- the marks are at instant 0 of what is interleaved
      rw [hmark (by omega) hfirst]
      apply writeMarks_of_mem _ hr
      rw [List.map_fst_zip _]
      · exact hmics
      · rw [h.sized.ok, h.rdc]

/-! ### A frame -/

/-- What a frame does to the verdict. -/
structure Framed (cfg : ConfigIf.SirenConfig F D) (p p' : SirenPreprocessorImpl F D E)
    (package : Option PreprocessVoicePackage) : Prop where
  inv : Inv cfg p'
  /-- A verdict stays. -/
  kept : p.m_pMem_rdc.Calibrated → p'.m_pMem_rdc = p.m_pMem_rdc
  none : package = none → p'.firstFrm = p.firstFrm
  /-- A package leaves after the verdict, and the first one carries it. -/
  some : ∀ v, package = some v → p'.m_pMem_rdc.Calibrated ∧ (p.firstFrm = true →
    Carries F cfg.alg_config.alg_aec_mics p'.m_pMem_rdc.m_bMicOk v.data)

theorem converted_framed (h : Inv cfg p) (hmics : cfg.alg_config.alg_aec_mics.Nodup)
    (hne : cfg.alg_config.alg_aec_mics ≠ []) (m_pMem_in : R2memI F) (n : Nat) :
    Framed cfg p (p.converted m_pMem_in n).1 (p.converted m_pMem_in n).2 := by
  have hconv : p.converted m_pMem_in n =
      (((p.calibrated m_pMem_in n).1.cancelEcho (p.calibrated m_pMem_in n).2).1.emit
        ((p.calibrated m_pMem_in n).1.cancelEcho (p.calibrated m_pMem_in n).2).2.1).fetch
          ((p.calibrated m_pMem_in n).1.cancelEcho (p.calibrated m_pMem_in n).2).2.2 := rfl
  obtain ⟨hcal, hwait, hkept, hfrm⟩ := calibrated_inv h m_pMem_in n
  rw [hconv]
  generalize p.calibrated m_pMem_in n = c at hcal hwait hkept hfrm ⊢
  obtain ⟨hecho, hrdc, hfrm', hnothing⟩ := cancelEcho_inv hcal hwait
  generalize c.1.cancelEcho c.2 = e at hecho hrdc hfrm' hnothing ⊢
  obtain ⟨_, hinv, hrdc', _⟩ := emit_package hecho hne e.2.1 e.2.2
  obtain ⟨hnone, hsome⟩ := emit_inv hecho hmics hne e.2.1 e.2.2
  have hsame := hrdc'.trans hrdc
  refine ⟨hinv, ?_, ?_, ?_⟩
  · intro hdone
    exact hsame.trans (hkept hdone)
  · intro hv
    exact (hnone hv).trans (hfrm'.trans hfrm)
  · intro v hv
    obtain ⟨hn, hcarries⟩ := hsome v hv
    -- the echo canceller has put something out
    have hdone : c.1.m_pMem_rdc.Calibrated := by
      by_contra hnot
      have hzero := hnothing hnot
      omega
    rw [hsame]
    refine ⟨hdone, ?_⟩
    intro hfirst
    rw [← hrdc]
    exact hcarries (hfrm'.trans (hfrm.trans hfirst))

/-! ### A run -/

/-- The verdict stays through a run. -/
theorem feed_kept {frames : List RawFrame} {p' : SirenPreprocessorImpl F D E}
    {packages : List PreprocessVoicePackage} (h : Inv cfg p)
    (hmics : cfg.alg_config.alg_aec_mics.Nodup) (hne : cfg.alg_config.alg_aec_mics ≠ [])
    (hfeed : p.feed frames = .ok (p', packages)) :
    Inv cfg p' ∧ (p.m_pMem_rdc.Calibrated → p'.m_pMem_rdc = p.m_pMem_rdc) := by
  induction frames generalizing p packages with
  | nil =>
    cases hfeed
    exact ⟨h, fun _ => rfl⟩
  | cons f fs ih =>
    obtain ⟨⟨p₁, package⟩, hfirst, hfeed⟩ := bind_eq_ok.mp hfeed
    obtain ⟨⟨p₂, rest⟩, hrest, hfeed⟩ := bind_eq_ok.mp hfeed
    cases hfeed
    obtain ⟨n, _, hconv⟩ := preprocess_eq_ok hfirst
    -- one frame, and the rest of the run from what it leaves
    have hframed := converted_framed h hmics hne p₁.m_pMem_in n
    rw [hconv] at hframed
    obtain ⟨hinv, hkept⟩ := ih hframed.inv hrest
    refine ⟨hinv, ?_⟩
    intro hdone
    have hsame := hframed.kept hdone
    rw [hkept (hsame ▸ hdone), hsame]

/-- The first package of a run carries the verdict the unit has at its end. -/
theorem feed_first {frames : List RawFrame} {p' : SirenPreprocessorImpl F D E}
    {v : PreprocessVoicePackage} {packages : List PreprocessVoicePackage} (h : Inv cfg p)
    (hmics : cfg.alg_config.alg_aec_mics.Nodup) (hne : cfg.alg_config.alg_aec_mics ≠ [])
    (hfirst : p.firstFrm = true) (hfeed : p.feed frames = .ok (p', v :: packages)) :
    Carries F cfg.alg_config.alg_aec_mics p'.m_pMem_rdc.m_bMicOk v.data := by
  induction frames generalizing p packages with
  | nil => cases hfeed
  | cons f fs ih =>
    obtain ⟨⟨p₁, package⟩, hpre, hfeed⟩ := bind_eq_ok.mp hfeed
    obtain ⟨⟨p₂, rest⟩, hrest, hfeed⟩ := bind_eq_ok.mp hfeed
    obtain ⟨n, _, hconv⟩ := preprocess_eq_ok hpre
    have hframed := converted_framed h hmics hne p₁.m_pMem_in n
    rw [hconv] at hframed
    -- frames without a package leave the first-frame flag set
    cases package with
    | none =>
      cases hfeed
      exact ih hframed.inv ((hframed.none rfl).trans hfirst) hrest
    | some w =>
      cases hfeed
      obtain ⟨hdone, hcarries⟩ := hframed.some v rfl
      -- the verdict in the package is still the one at the end of the run
      rw [(feed_kept hframed.inv hmics hne hrest).2 hdone]
      exact hcarries hfirst

end SirenPreprocessorImpl

end BlackSiren

import BlackSiren.Preprocessor.Verdict
import BlackSiren.Processor.Front
import BlackSiren.Processor.InitBounds
import BlackSiren.Processor.Run

/-! # The microphones after the first package

    The processor reads the verdict of the calibration off the first samples it
    gets and drops the broken microphones from the list of the beamformer.

    - `fixErrorMicReturn`: what `fixErrorMic` returns in a call
    - `process_mics`: a call on the list and on the first-frame flag
    - `getErrorInfo_of_carries`: the verdict, read back
    - `mics_of_verdict`: the list after any run on the packages of the
      preprocessor
-/

open LTS

namespace BlackSiren

/-- The comparison of `getErrorInfo` on the two marks. -/
class LawfulMark (F : Type) [CFloat F] : Prop where
  one : CFloat.lt (CFloat.abs (reloaded (CFloat.ofInt 1 : F))) (CFloat.ofRat (1 / 2)) = false
  zero : CFloat.lt (CFloat.abs (reloaded (CFloat.ofInt 0 : F))) (CFloat.ofRat (1 / 2)) = true

instance : LawfulMark Single where
  one := by decide +kernel
  zero := by decide +kernel

instance : LawfulMark ℚ where
  one := by decide +kernel
  zero := by decide +kernel

theorem lt_mark {F : Type} [CFloat F] [LawfulMark F] (m_bMicOk : Bool) :
    CFloat.lt (CFloat.abs (reloaded (mark F m_bMicOk))) (CFloat.ofRat (1 / 2)) = !m_bMicOk := by
  cases m_bMicOk with
  | false => exact LawfulMark.zero
  | true => exact LawfulMark.one

/-- The microphones with the verdict 0. -/
def errorMics (mics : MicIdLst) (m_bMicOk : List Bool) : List Int :=
  ((mics.zip m_bMicOk).filter fun r => !r.2).map Prod.fst

namespace SirenProcessorImpl

variable {F : Type} [CFloat F] {E : Engines F}

/-! ### A call -/

/-- What `fixErrorMic` returns in a call of `process`, if the call gets to it. -/
def fixErrorMicReturn (p : SirenProcessorImpl F E) (c : Call) : Option Bool :=
  match p.m_pMem_in.process c.datain c.lenin with
  | .ok (m_pMem_in, len_mul) =>
      if p.state.firstFrm && decide (len_mul > 0) then
        let p := { p with m_pMem_in := m_pMem_in }
        some (p.fixErrorMic (p.getErrorInfo p.m_pMem_in.m_pData_Out)).2
      else none
  | .error _ => none

omit [CFloat F] in
/-- `fixErrorMic` filters the list, and says whether that has removed any. -/
theorem fixErrorMic_eq (p : SirenProcessorImpl F E) (errorMic : List Int) :
    p.fixErrorMic errorMic =
      ({ p with m_pMicInfo_bf := p.m_pMicInfo_bf.filter fun id => !errorMic.contains id },
        decide (∃ id ∈ p.m_pMicInfo_bf, id ∈ errorMic)) := by
  have hremoved : ((p.m_pMicInfo_bf.filter fun id => !errorMic.contains id).length !=
      p.m_pMicInfo_bf.length) = decide (∃ id ∈ p.m_pMicInfo_bf, id ∈ errorMic) := by
    rw [Bool.eq_iff_iff, bne_iff_ne, decide_eq_true_iff, Ne, List.length_filter_eq_length_iff]
    simp
  unfold fixErrorMic
  by_cases hempty : errorMic.isEmpty = true
  · -- without error microphones the filter keeps all of the list
    obtain rfl := List.isEmpty_iff.mp hempty
    rw [if_pos hempty, ← hremoved, List.filter_eq_self.mpr (by simp), bne_self_eq_false]
  · rw [if_neg hempty, ← hremoved]

omit [CFloat F] in
/-- The list of the beamformer and the first-frame flag. -/
def mics (p : SirenProcessorImpl F E) : MicIdLst × Bool := (p.m_pMicInfo_bf, p.state.firstFrm)

theorem checkMics_mics (p : SirenProcessorImpl F E) (n : Nat) : (p.checkMics n).mics =
    if p.state.firstFrm && decide (n > 0) then
      (p.m_pMicInfo_bf.filter fun id =>
        !(p.getErrorInfo p.m_pMem_in.m_pData_Out).contains id, false)
    else p.mics := by
  unfold checkMics
  by_cases hfirst : (p.state.firstFrm && decide (n > 0)) = true
  · rw [if_pos hfirst, if_pos hfirst]
    dsimp only
    rw [fixErrorMic_eq]
    dsimp only
    split <;> rfl
  · rw [if_neg hfirst, if_neg hfirst]

omit [CFloat F] in
theorem updateAndDumpStatus_firstFrm (s : ProcessState) (lenin aec awake sleep asr : Int) :
    (updateAndDumpStatus s lenin aec awake sleep asr).firstFrm = s.firstFrm := by
  unfold updateAndDumpStatus
  split <;> rfl

theorem readInput_mics {p p' : SirenProcessorImpl F E} {c : Call} {n : Nat}
    (h : p.readInput c = .ok (p', n)) :
    ∃ m_pMem_in, p.m_pMem_in.process c.datain c.lenin = .ok (m_pMem_in, n) ∧ p'.mics =
      if p.state.firstFrm && decide (n > 0) then
        (p.m_pMicInfo_bf.filter fun id =>
          !(getErrorInfo { p with m_pMem_in := m_pMem_in } m_pMem_in.m_pData_Out).contains id,
          false)
      else p.mics := by
  unfold readInput at h
  obtain ⟨⟨m_pMem_in, len⟩, hin, h⟩ := bind_eq_ok.mp h
  cases h
  refine ⟨m_pMem_in, ?_, ?_⟩
  · rw [← hin]
    split <;> rfl
  · show (_, (updateAndDumpStatus _ _ _ _ _ _).firstFrm) = _
    rw [updateAndDumpStatus_firstFrm]
    change (checkMics _ _).mics = _
    rw [checkMics_mics]
    -- the asr flag is set in front of the check
    by_cases hasr : c.asrflag = 1
    · rw [if_pos hasr]
      rfl
    · rw [if_neg hasr]
      rfl

theorem beamform_mics {p p' : SirenProcessorImpl F E} {n : Nat} {sig : Sig F}
    (h : p.beamform n = .ok (p', sig)) : p'.mics = p.mics := by
  unfold beamform at h
  obtain ⟨_, _, h⟩ := bind_eq_ok.mp h
  cases h
  rfl

theorem resetASR_mics (p : SirenProcessorImpl F E) : p.resetASR.mics = p.mics := by
  unfold resetASR
  dsimp only
  split <;> rfl

theorem fetchWord_mics (p : SirenProcessorImpl F E) (det : WordDetInfo F) :
    (p.fetchWord det).mics = p.mics := by
  apply Eq.trans _ (resetASR_mics p)
  unfold fetchWord
  dsimp only
  split <;> rfl

theorem onPre_mics {p p' : SirenProcessorImpl F E} {w : WordFlags} {sig sig' : Sig F}
    (h : p.onPre w sig = .ok (p', sig')) : p'.mics = p.mics := by
  rcases onPre_eq_ok h with ⟨_, rfl, _⟩ | ⟨_, det, _, ⟨_, rfl, _⟩ | ⟨_, _, _, _, rfl, _⟩⟩
  · rfl
  · exact p.fetchWord_mics det
  · exact p.fetchWord_mics det

/-- A call on the list and the flag. -/
theorem process_mics {p p' : SirenProcessorImpl F E} {c : Call} (h : p.process c = .ok p') :
    ∃ m_pMem_in n, p.m_pMem_in.process c.datain c.lenin = .ok (m_pMem_in, n) ∧ p'.mics =
      if p.state.firstFrm && decide (n > 0) then
        (p.m_pMicInfo_bf.filter fun id =>
          !(getErrorInfo { p with m_pMem_in := m_pMem_in } m_pMem_in.m_pData_Out).contains id,
          false)
      else p.mics := by
  obtain ⟨st, hfront⟩ := process_front h
  obtain ⟨m_pMem_in, hin, hmics⟩ := readInput_mics st.readInput
  refine ⟨m_pMem_in, st.len_mul, hin, ?_⟩
  have hlast : p'.mics = st.p₄.mics := congrArg Prod.snd hfront
  have hword : st.p₃.mics = st.p₂.mics := congrArg Prod.snd (wakeWord_front st.wakeWord)
  rw [hlast, onPre_mics st.onPre, hword, beamform_mics st.beamform, hmics]

/-! ### The verdict, read back -/

omit [CFloat F] in
theorem mem_errorMics {mics : MicIdLst} {m_bMicOk : List Bool} {id : Int} :
    id ∈ errorMics mics m_bMicOk ↔ (id, false) ∈ mics.zip m_bMicOk := by
  unfold errorMics
  rw [List.mem_map]
  constructor
  · rintro ⟨⟨id', ok⟩, hr, rfl⟩
    obtain ⟨hmem, hok⟩ := List.mem_filter.mp hr
    cases ok with
    | false => exact hmem
    | true => cases hok
  · intro h
    exact ⟨(id, false), List.mem_filter.mpr ⟨h, rfl⟩, rfl⟩

/-- On marked samples `getErrorInfo` gives the microphones with the verdict 0. -/
theorem mem_getErrorInfo [LawfulMark F] {p : SirenProcessorImpl F E} {m_bMicOk : List Bool}
    (hlen : m_bMicOk.length = p.m_pMem_in.m_pMicInfo_In.length) {d : Chan F}
    (hmark : ∀ r ∈ p.m_pMem_in.m_pMicInfo_In.zip m_bMicOk, d r.1 0 = reloaded (mark F r.2))
    {id : Int} :
    id ∈ p.getErrorInfo d ↔ id ∈ errorMics p.m_pMem_in.m_pMicInfo_In m_bMicOk := by
  unfold getErrorInfo
  rw [List.mem_filter, mem_errorMics]
  constructor
  · rintro ⟨hmem, hlt⟩
    -- entry `k` of the list and entry `k` of the verdict
    obtain ⟨k, hk, rfl⟩ := List.mem_iff_getElem.mp hmem
    have hr : (p.m_pMem_in.m_pMicInfo_In[k], m_bMicOk[k]) ∈
        p.m_pMem_in.m_pMicInfo_In.zip m_bMicOk := by
      rw [List.mem_iff_getElem]
      refine ⟨k, ?_, List.getElem_zip⟩
      rw [List.length_zip]
      omega
    rw [hmark _ hr, lt_mark, Bool.not_eq_true'] at hlt
    dsimp only at hlt
    rw [hlt] at hr
    exact hr
  · intro hr
    refine ⟨(List.of_mem_zip hr).1, ?_⟩
    rw [hmark _ hr, lt_mark]
    rfl

/-- A processor with configuration `cfg` that has not seen any samples. -/
structure Fresh (cfg : SirenConfig F) (p : SirenProcessorImpl F E) : Prop where
  mics : p.mics = (cfg.alg_sl_mics, true)
  in_type : p.m_pMem_in.m_iInType = .r2_in_float_32
  in_mics : p.m_pMem_in.m_pMicInfo_In = cfg.alg_aec_mics

theorem fresh_init {cfg : SirenConfig F} {p : SirenProcessorImpl F E}
    (h : init cfg = .ok (some p)) : Fresh cfg p := by
  obtain ⟨_, _, _, _, rfl⟩ := init_eq_some h
  exact ⟨rfl, rfl, rfl⟩

/-- The call on a package. -/
structure IsCall (v : PreprocessVoicePackage) (c : Call) : Prop where
  datain : c.datain = fun k => v.data.getD k 0
  lenin : c.lenin = v.data.length
  aecflag : c.aecflag = v.aec

/-- The first call, on a package that carries a verdict. -/
theorem process_first [LawfulMark F] {cfg : SirenConfig F}
    {p p' : SirenProcessorImpl F E} (hfresh : Fresh cfg p) (hne : cfg.alg_aec_mics ≠ [])
    {m_bMicOk : List Bool} (hlen : m_bMicOk.length = cfg.alg_aec_mics.length)
    {v : PreprocessVoicePackage} (hv : Carries F cfg.alg_aec_mics m_bMicOk v.data) {c : Call}
    (hc : IsCall v c) (h : p.process c = .ok p') :
    p'.mics =
        (cfg.alg_sl_mics.filter fun id => id ∉ errorMics cfg.alg_aec_mics m_bMicOk, false) ∧
      p.fixErrorMicReturn c =
        some (decide (∃ id ∈ cfg.alg_sl_mics, id ∈ errorMics cfg.alg_aec_mics m_bMicOk)) := by
  obtain ⟨d, n, ⟨hn, hdata⟩, hmark⟩ := hv
  rw [← hfresh.in_mics] at hdata hmark hlen hne ⊢
  obtain ⟨u, hu, hsame⟩ := R2memI.process_interleaved hfresh.in_type hne d n
  -- the call reads the samples of the package
  have hread : p.m_pMem_in.process c.datain c.lenin = .ok (u, n) := by
    rw [hc.datain, hc.lenin, hdata]
    exact hu
  have hlist : u.m_pMicInfo_In = p.m_pMem_in.m_pMicInfo_In := (R2memI.process_format hread).2
  -- the samples read back carry the marks
  have hinfo : ∀ id, id ∈ getErrorInfo { p with m_pMem_in := u } u.m_pData_Out ↔
      id ∈ errorMics p.m_pMem_in.m_pMicInfo_In m_bMicOk := by
    intro id
    rw [← hlist] at hlen hmark hsame ⊢
    apply mem_getErrorInfo (p := { p with m_pMem_in := u }) hlen
    intro r hr
    rw [hsame r.1 (List.of_mem_zip hr).1 0 hn, hmark r hr]
  have hlist' : p.m_pMicInfo_bf = cfg.alg_sl_mics := congrArg Prod.fst hfresh.mics
  have hfirst : (p.state.firstFrm && decide (n > 0)) = true := by
    rw [show p.state.firstFrm = true from congrArg Prod.snd hfresh.mics, decide_eq_true hn]
    rfl
  obtain ⟨m_pMem_in, n', hin, hmics⟩ := process_mics h
  obtain ⟨rfl, rfl⟩ : m_pMem_in = u ∧ n' = n :=
    Prod.mk.injEq _ _ _ _ ▸ Except.ok.inj (hin.symm.trans hread)
  constructor
  · rw [hmics, if_pos hfirst, ← hlist']
    congr 1
    apply List.filter_congr
    intro id _
    rw [List.contains_eq_mem, decide_not, decide_eq_decide.mpr (hinfo id)]
  · unfold fixErrorMicReturn
    rw [hread]
    dsimp only
    rw [if_pos hfirst, fixErrorMic_eq]
    apply congrArg some
    apply decide_eq_decide.mpr
    dsimp only
    rw [hlist']
    exact exists_congr fun id => and_congr_right fun _ => hinfo id

/-- A call after the first samples. -/
theorem process_later {p p' : SirenProcessorImpl F E} {c : Call} (hfirst : p.state.firstFrm = false)
    (h : p.process c = .ok p') : p'.mics = p.mics ∧ p.fixErrorMicReturn c = none := by
  obtain ⟨m_pMem_in, n, hin, hmics⟩ := process_mics h
  refine ⟨?_, ?_⟩
  · rw [hmics, hfirst]
    rfl
  · unfold fixErrorMicReturn
    rw [hin, hfirst]
    rfl

end SirenProcessorImpl

/-! ### Runs -/

/-- The calls of `process` in a run. -/
def Event.calls {F : Type} (es : List (Event F)) : List Call :=
  es.filterMap fun e =>
    match e with
    | .process c => some c
    | _ => none

theorem Event.quiet_or_process {F : Type} (e : Event F) :
    Event.calls [e] = [] ∨ ∃ c, e = .process c := by
  cases e with
  | process c => exact .inr ⟨c, rfl⟩
  | setState a => exact .inl rfl
  | setSLSteer ho ver => exact .inl rfl
  | syncVTWord words => exact .inl rfl

namespace Run

variable {F : Type} [CFloat F] {E : Engines F}

open SirenProcessorImpl

/-- What `fixErrorMic` returns in a run, call after call. -/
def fixErrorMicReturns (s : Run F E) : List (Event F) → List Bool
  | [] => []
  | e :: es =>
      let returned :=
        match e with
        | .process c => (s.p.fixErrorMicReturn c).toList
        | _ => []
      match s.next e with
      | .ok s' => returned ++ fixErrorMicReturns s' es
      | .error _ => returned

/-- The run of a processor on some events. -/
abbrev Runs (s : Run F E) (es : List (Event F)) (s' : Run F E) : Prop :=
  exec (fun s e => (s.next e).toOption) s es = some s'

theorem runs_singleton {s s' : Run F E} {e : Event F} (h : s.next e = .ok s') : Runs s [e] s' :=
  exec_cons_eq_some.mpr ⟨s', toOption_eq_some.mpr h, exec_nil _ _⟩

/-- An event that is no call leaves list, flag and input alone. -/
theorem next_quiet {s s' : Run F E} {e : Event F} (hquiet : Event.calls [e] = [])
    (h : s.next e = .ok s') : s'.p.mics = s.p.mics ∧ s'.p.m_pMem_in = s.p.m_pMem_in := by
  cases e with
  | process c => cases hquiet
  | setState a =>
    cases h
    show (s.p.setState a).mics = _ ∧ (s.p.setState a).m_pMem_in = _
    unfold setState
    split <;> exact ⟨rfl, rfl⟩
  | setSLSteer ho ver =>
    cases h
    exact ⟨rfl, rfl⟩
  | syncVTWord words =>
    obtain ⟨p, hp, h⟩ := bind_eq_ok.mp h
    cases h
    obtain ⟨_, _, _, _, rfl⟩ := syncVTWord_eq_ok hp
    exact ⟨rfl, rfl⟩

/-- A call in a run is a call of `process`; fetching its messages leaves the list
    and the flag alone. -/
theorem next_process {s s' : Run F E} {c : Call} (h : s.next (.process c) = .ok s') :
    ∃ p, s.p.process c = .ok p ∧ s'.p.mics = p.mics := by
  obtain ⟨p, hp, h⟩ := bind_eq_ok.mp h
  cases h
  exact ⟨p, hp, rfl⟩

theorem fixErrorMicReturns_cons {s s' : Run F E} {e : Event F} (h : s.next e = .ok s')
    (es : List (Event F)) : s.fixErrorMicReturns (e :: es) =
      (Event.calls [e]).flatMap (fun c => (s.p.fixErrorMicReturn c).toList) ++
        s'.fixErrorMicReturns es := by
  conv_lhs => unfold fixErrorMicReturns
  rw [h]
  cases e with
  | process c =>
    -- one call, one entry
    show _ = ((_ : List Bool) ++ []) ++ _
    rw [List.append_nil]
  | setState a => rfl
  | setSLSteer ho ver => rfl
  | syncVTWord words => rfl

/-- Once the first samples have been seen, nothing changes the list. -/
theorem run_later {es : List (Event F)} {s s' : Run F E} (hfirst : s.p.state.firstFrm = false)
    (h : Runs s es s') : s'.p.mics = s.p.mics ∧ s.fixErrorMicReturns es = [] := by
  -- the flag stays cleared from call to call
  induction es generalizing s with
  | nil =>
    cases h
    exact ⟨rfl, rfl⟩
  | cons e es ih =>
    obtain ⟨s₁, h₁, h⟩ := exec_cons_eq_some.mp h
    have h₁ := toOption_eq_some.mp h₁
    have hkept : s₁.p.mics = s.p.mics ∧
        (Event.calls [e]).flatMap (fun c => (s.p.fixErrorMicReturn c).toList) = [] := by
      rcases e.quiet_or_process with hcall | ⟨c, rfl⟩
      · refine ⟨(next_quiet hcall h₁).1, ?_⟩
        rw [hcall]
        rfl
      · obtain ⟨p, hp, hmics⟩ := next_process h₁
        obtain ⟨hlater, hnone⟩ := process_later hfirst hp
        refine ⟨hmics.trans hlater, ?_⟩
        show (s.p.fixErrorMicReturn c).toList ++ [] = []
        rw [hnone]
        rfl
    obtain ⟨hmics, hreturns⟩ := ih ((congrArg Prod.snd hkept.1).trans hfirst) h
    rw [fixErrorMicReturns_cons h₁, hkept.2, hreturns]
    exact ⟨hmics.trans hkept.1, rfl⟩

/-- The first call of a run settles the list. -/
theorem run_first [LawfulMark F] {cfg : SirenConfig F} {s s' : Run F E}
    (hfresh : Fresh cfg s.p) (hne : cfg.alg_aec_mics ≠ []) {m_bMicOk : List Bool}
    (hlen : m_bMicOk.length = cfg.alg_aec_mics.length) {v : PreprocessVoicePackage}
    (hv : Carries F cfg.alg_aec_mics m_bMicOk v.data) {es : List (Event F)} {c : Call}
    {cs : List Call} (hcalls : Event.calls es = c :: cs) (hc : IsCall v c) (h : Runs s es s') :
    s'.p.m_pMicInfo_bf =
        (cfg.alg_sl_mics.filter fun id => id ∉ errorMics cfg.alg_aec_mics m_bMicOk) ∧
      s.fixErrorMicReturns es =
        [decide (∃ id ∈ cfg.alg_sl_mics, id ∈ errorMics cfg.alg_aec_mics m_bMicOk)] := by
  -- the events in front of the first call leave everything as it was
  induction es generalizing s with
  | nil => cases hcalls
  | cons e es ih =>
    obtain ⟨s₁, h₁, hes⟩ := exec_cons_eq_some.mp h
    have h₁ := toOption_eq_some.mp h₁
    rcases e.quiet_or_process with hcall | ⟨c', rfl⟩
    · -- nothing has been read yet
      obtain ⟨hmics, hin⟩ := next_quiet hcall h₁
      have hrest : Event.calls es = c :: cs := by
        rw [← hcalls]
        show _ = Event.calls ([e] ++ es)
        unfold Event.calls at hcall ⊢
        rw [List.filterMap_append, hcall, List.nil_append]
      have hfresh₁ : Fresh cfg s₁.p :=
        ⟨hmics.trans hfresh.mics, hin ▸ hfresh.in_type, hin ▸ hfresh.in_mics⟩
      rw [fixErrorMicReturns_cons h₁, hcall]
      exact ih hfresh₁ hrest hes
    · obtain rfl : c' = c := (List.cons.inj hcalls).1
      obtain ⟨p, hp, hmics⟩ := next_process h₁
      -- this call settles the list, and the later ones find the flag cleared
      obtain ⟨hfirst, hreturn⟩ := process_first hfresh hne hlen hv hc hp
      rw [← hmics] at hfirst
      obtain ⟨hlater, hnone⟩ := run_later (congrArg Prod.snd hfirst) hes
      refine ⟨(congrArg Prod.fst hlater).trans (congrArg Prod.fst hfirst), ?_⟩
      rw [fixErrorMicReturns_cons h₁, hnone]
      show ((s.p.fixErrorMicReturn c').toList ++ []) ++ [] = _
      rw [hreturn]
      rfl

end Run

/-! ### Both sides -/

/-- The processor has been called on the packages given, in their order, as far
    as it has got. -/
def Handles (packages : List PreprocessVoicePackage) (cs : List Call) : Prop :=
  ∃ handled, handled <+: packages ∧ List.Forall₂ SirenProcessorImpl.IsCall handled cs

open SirenPreprocessorImpl in
/-- A processor that has handled the first package of a preprocessor with the
    same configuration: its beamformer has the microphones of `alg_sl_mics` but
    those that are in `alg_aec_mics` with the verdict 0, in their order, and
    `fixErrorMic` was called once and returned whether there were any. -/
theorem mics_of_verdict {F D : Type} [CFloat F] [LawfulMark F] [CDouble F D]
    {E : PreEngines F} {E' : Engines F} (toFloat : D → F) {cfg : ConfigIf.SirenConfig F D}
    (hnodup : cfg.alg_config.alg_aec_mics.Nodup) {p₀ p : SirenPreprocessorImpl F D E}
    (hinit : SirenPreprocessorImpl.init cfg = .ok (some p₀)) {frames : List RawFrame}
    {packages : List PreprocessVoicePackage} (hfeed : p₀.feed frames = .ok (p, packages))
    {q₀ : SirenProcessorImpl F E'}
    (hinit' : SirenProcessorImpl.init (SirenProcessorImpl.processorConfig toFloat cfg) =
      .ok (some q₀))
    {es : List (Event F)} {s : Run F E'} (hrun : Run.Runs ⟨q₀, [], 0⟩ es s)
    (hcalls : Handles packages (Event.calls es)) (hsome : Event.calls es ≠ []) :
    s.p.m_pMicInfo_bf = (cfg.alg_config.alg_sl_mics.filter fun id =>
        id ∉ errorMics cfg.alg_config.alg_aec_mics p.m_pMem_rdc.m_bMicOk) ∧
      Run.fixErrorMicReturns ⟨q₀, [], 0⟩ es =
        [decide (∃ id ∈ cfg.alg_config.alg_sl_mics,
          id ∈ errorMics cfg.alg_config.alg_aec_mics p.m_pMem_rdc.m_bMicOk)] := by
  obtain ⟨_, hlists, in_type, cpus, _, rfl⟩ := init_eq_some hinit
  obtain ⟨handled, hprefix, hall⟩ := hcalls
  cases hcs : Event.calls es with
  | nil => exact absurd hcs hsome
  | cons c cs =>
    rw [hcs] at hall
    cases hall with
    | @cons v _ rest _ hc _ =>
      -- the first call is on the first package
      obtain ⟨more, rfl⟩ := hprefix
      have hinv := inv_built cfg in_type cpus (E := E)
      have hv := feed_first hinv hnodup hlists.aec_mics rfl hfeed
      obtain ⟨hend, _⟩ := feed_kept hinv hnodup hlists.aec_mics hfeed
      have hlen := hend.sized.ok.trans (congrArg List.length hend.rdc)
      exact Run.run_first (s := ⟨q₀, [], 0⟩) (SirenProcessorImpl.fresh_init hinit')
        hlists.aec_mics hlen hv hcs hc hrun

/-! ### A run with a broken microphone

    Three microphones, and a frame a little longer than the calibration: the
    first hears a constant, the second a loud square wave, the third nothing.
    384 samples are left for the echo canceller, which puts out 160. -/

section SquareWave

open SirenPreprocessorImpl

/-- The file of the board with three microphones. -/
def threeMics : ConfigIf.SirenConfig ℚ ℚ :=
  ConfigIf.Sample.config { alg_aec_mics := [0, 1, 2], alg_sl_mics := [0, 1, 2] }

/-- Column `col` is not zero at instant `i`. -/
def Loud (col i : Nat) : Prop := col = 0 ∨ col = 1 ∧ i % 2 = 0

instance (col i : Nat) : Decidable (Loud col i) := inferInstanceAs (Decidable (_ ∨ _))

/-- Samples of four bytes in eight columns. -/
def square : RawFrame :=
  ⟨fun k => if k % 4 = 3 ∧ Loud (k / 4 % 8) (k / 32) then 0x40 else 0, 49152 * 32⟩

/-- The preprocessor with this file. -/
def preprocessor : SirenPreprocessorImpl ℚ ℚ silentEngines := built threeMics .r2_in_int_32 none

/-- The frame as samples. -/
def squareInput : R2memI ℚ :=
  match preprocessor.m_pMem_in.process square.rawBuffer square.frameSize with
  | .ok r => r.1
  | .error _ => preprocessor.m_pMem_in

/-- The preprocessor behind the echo canceller. -/
def squareEcho : SirenPreprocessorImpl ℚ ℚ silentEngines × Nat × Int :=
  (preprocessor.calibrated squareInput 49152).1.cancelEcho 384

/-- The package of the frame. -/
def squarePackage : PreprocessVoicePackage :=
  ⟨squareEcho.2.2, (R2memO.mk [0, 1, 2]).process
    (writeMarks [(0, true), (1, false), (2, true)] squareEcho.1.dataMul) 160⟩

/-- What the processor is called with. -/
def squareCall : Call where
  datain := fun k => squarePackage.data.getD k 0
  lenin := 1920
  aecflag := squareEcho.2.2
  awakeflag := 1
  sleepflag := 0
  asrflag := 0
  hotwordflag := 0

/-- Engines that report nothing. -/
def quietEngines : Engines ℚ :=
  scripted [] [] [] ⟨WORD_AWAKE, [], [], 0, 0, false, false, false, false, false, 0, none⟩

/-- The bytes of a sample. -/
theorem readLE_square {col : Nat} (hcol : col < 8) (i : Nat) :
    Bytes.readLE square.rawBuffer (4 * (i * 8 + col)) 4 =
      if Loud col i then 2 ^ 30 else 0 := by
  have hbyte : ∀ k < 4, square.rawBuffer (4 * (i * 8 + col) + k) =
      if k = 3 ∧ Loud col i then 0x40 else 0 := by
    intro k hk
    have hpos : (4 * (i * 8 + col) + k) % 4 = k ∧ (4 * (i * 8 + col) + k) / 4 % 8 = col ∧
        (4 * (i * 8 + col) + k) / 32 = i := by omega
    unfold square
    dsimp only
    rw [hpos.1, hpos.2.1, hpos.2.2]
  unfold Bytes.readLE
  rw [List.map_congr_left fun k hk => hbyte k (List.mem_range.mp hk)]
  by_cases hloud : Loud col i
  · simp only [hloud, and_true, if_true]
    rfl
  · simp only [hloud, and_false, if_false]
    rfl

theorem process_square : preprocessor.m_pMem_in.process square.rawBuffer square.frameSize =
    .ok (squareInput, 49152) := rfl

/-- The samples, behind the conversion. -/
theorem squareInput_eq {col : Nat} (hcol : col < 8) {i : Nat} (hi : i < 49152) :
    squareInput.m_pData_Out col i = if Loud col i then 2 ^ 20 else 0 := by
  have hcols : preprocessor.m_pMem_in.m_pMicInfo_In = (List.range 8).map Int.ofNat := rfl
  have hmem : (col : Int) ∈ preprocessor.m_pMem_in.m_pMicInfo_In := by
    rw [hcols]
    exact List.mem_map_of_mem (List.mem_range.mpr hcol)
  obtain ⟨_, hsamples⟩ := R2memI.process_samples process_square
  obtain ⟨col', hcol', _, hsample⟩ := hsamples col hmem
  -- every microphone is its own column
  have hsame : col' = col := by
    rw [hcols, List.getElem?_map, Option.map_eq_some_iff] at hcol'
    obtain ⟨_, hget, hid⟩ := hcol'
    obtain ⟨_, hget⟩ := List.getElem?_eq_some_iff.mp hget
    rw [List.getElem_range] at hget
    exact hget.trans (Int.ofNat_inj.mp hid)
  rw [hsample i hi, hsame]
  change R2memI.sample .r2_in_int_32 (Bytes.readLE square.rawBuffer (4 * (i * 8 + col)) 4) = _
  rw [readLE_square hcol]
  by_cases hloud : Loud col i
  · rw [if_pos hloud, if_pos hloud]
    decide +kernel
  · rw [if_neg hloud, if_neg hloud]
    decide +kernel

/-- The sum over samples that alternate between two values. -/
theorem foldl_alternating (a b : ℚ) (n : Nat) :
    (List.range (2 * n)).foldl (fun sum j => sum + if j % 2 = 0 then a else b) 0 =
      n * (a + b) := by
  induction n with
  | zero => simp
  | succ n ih =>
    have heven : 2 * n % 2 = 0 := by omega
    have hodd : ¬ (2 * n + 1) % 2 = 0 := by omega
    rw [Nat.mul_succ, List.range_succ, List.range_succ, List.foldl_append, List.foldl_append, ih]
    simp only [List.foldl_cons, List.foldl_nil, if_pos heven, if_neg hodd]
    push_cast
    ring

/-- The verdict on such samples. -/
theorem verdict_alternating {x : Nat → ℚ} (a b : ℚ) {n : Nat}
    (hx : ∀ j < 2 * n, x j = if j % 2 = 0 then a else b) :
    R2memRdc.verdict ℚ x (2 * n) = !decide ((200000 : ℚ) < (Nat.sqrt
      ⌊n * (a * a + b * b) / (2 * n : Nat) -
        n * (a + b) / (2 * n : Nat) * (n * (a + b) / (2 * n : Nat)) + 1 / 10⌋.toNat : Nat)) := by
  have hsum : (List.range (2 * n)).foldl (fun sum j => sum + x j) 0 = n * (a + b) := by
    rw [← foldl_alternating]
    apply List.foldl_ext
    intro sum j hj
    rw [hx j (List.mem_range.mp hj)]
  have hsumSq : (List.range (2 * n)).foldl (fun sum j => sum + x j * x j) 0 =
      n * (a * a + b * b) := by
    rw [← foldl_alternating]
    apply List.foldl_ext
    intro sum j hj
    rw [hx j (List.mem_range.mp hj)]
    split <;> rfl
  rw [← hsum, ← hsumSq]
  rfl

/-- The second microphone is broken: only its samples deviate from their mean. -/
theorem verdict_square : squareEcho.1.m_pMem_rdc.m_bMicOk = [true, false, true] := by
  let rows : Chan ℚ :=
    (preprocessor.m_pMem_rs.process squareInput.m_pData_Out 49152).1.m_pData_Out
  have hrdc : squareEcho.1.m_pMem_rdc = (preprocessor.m_pMem_rdc.process rows 16384).1 := rfl
  have hrows : ∀ col : Nat, col < 8 → ∀ j < 2 * 8000,
      rows col j = if Loud col j then 2 ^ 20 else 0 := by
    intro col hcol j hj
    have hmem : (col : Int) ∈ preprocessor.m_pMem_rs.m_pMicInfo_Rs := by
      change (col : Int) ∈ ([0, 1, 2, 3, 4, 5, 6, 7] : List Int)
      simp only [List.mem_cons]
      omega
    rw [← squareInput_eq hcol (show j < 49152 by omega)]
    exact R2memRs2.writeRows_map _ _ hmem (show j < 16384 by omega)
  -- all three signals alternate between two values
  have hconstant : R2memRdc.verdict ℚ (rows 0) (2 * 8000) = true :=
    (verdict_alternating (2 ^ 20) (2 ^ 20) fun j hj =>
      (hrows 0 (by decide) j hj).trans (by simp [Loud])).trans (by decide +kernel)
  have hsquare : R2memRdc.verdict ℚ (rows 1) (2 * 8000) = false :=
    (verdict_alternating (2 ^ 20) 0 fun j hj =>
      (hrows 1 (by decide) j hj).trans (by simp [Loud])).trans (by decide +kernel)
  have hnothing : R2memRdc.verdict ℚ (rows 2) (2 * 8000) = true :=
    (verdict_alternating 0 0 fun j hj =>
      (hrows 2 (by decide) j hj).trans (by simp [Loud])).trans (by decide +kernel)
  have hverdict := R2memRdc.process_new (D := ℚ) rows 16384 [0, 1, 2]
    (show 0 < 2 * 8000 by decide) (by decide)
  rw [List.map_cons, List.map_cons, List.map_cons, List.map_nil, hconstant, hsquare,
    hnothing] at hverdict
  rw [hrdc]
  exact hverdict

theorem feed_square : ∃ p : SirenPreprocessorImpl ℚ ℚ silentEngines,
    preprocessor.feed [square] = .ok (p, [squarePackage]) ∧
      p.m_pMem_rdc.m_bMicOk = [true, false, true] := by
  have hinv : Inv threeMics preprocessor := inv_built threeMics .r2_in_int_32 none
  obtain ⟨hcal, hwait, _, hfrm⟩ := calibrated_inv hinv squareInput 49152
  obtain ⟨hecho, _, hfrm', _⟩ := cancelEcho_inv hcal hwait
  change Inv threeMics squareEcho.1 at hecho
  change squareEcho.1.firstFrm = _ at hfrm'
  obtain ⟨_, _, _, hmark⟩ := markFirst_inv hecho 160
  -- only the length of what is put out is evaluated
  have hlen : squareEcho.2.1 = 160 := by decide +kernel
  obtain ⟨hpackage, _, hrdc, _⟩ := emit_package hecho (by decide) squareEcho.2.1 squareEcho.2.2
  have hconv : preprocessor.converted squareInput 49152 =
      (squareEcho.1.emit squareEcho.2.1).fetch squareEcho.2.2 := rfl
  rw [← hconv] at hrdc
  rw [← hconv, hlen, if_neg (by decide), hmark (by decide) (hfrm'.trans hfrm),
    verdict_square] at hpackage
  change _ = some squarePackage at hpackage
  have hpre := preprocess_eq preprocessor square.rawBuffer square.frameSize
  rw [process_square] at hpre
  change _ = Except.ok (preprocessor.converted squareInput 49152) at hpre
  rw [← Prod.mk.eta (p := preprocessor.converted squareInput 49152), hpackage] at hpre
  exact ⟨_, feed_singleton hpre, (congrArg R2memRdc.m_bMicOk hrdc).trans verdict_square⟩

theorem returns_squareCall :
    (match SirenProcessorImpl.init (E := quietEngines)
        (SirenProcessorImpl.processorConfig id threeMics) with
      | .ok (some q) => (q.process squareCall).toOption.isSome
      | _ => false) = true := by
  decide +kernel

/-- The run on the square wave: its package is handled, and the broken microphone
    has left the list. -/
theorem mics_of_square : ∃ (p : SirenPreprocessorImpl ℚ ℚ silentEngines)
    (q₀ : SirenProcessorImpl ℚ quietEngines) (s : Run ℚ quietEngines),
    preprocessor.feed [square] = .ok (p, [squarePackage]) ∧
      p.m_pMem_rdc.m_bMicOk = [true, false, true] ∧
      Run.Runs ⟨q₀, [], 0⟩ [.process squareCall] s ∧
      SirenProcessorImpl.IsCall squarePackage squareCall ∧
      s.p.m_pMicInfo_bf = [0, 2] ∧
      Run.fixErrorMicReturns ⟨q₀, [], 0⟩ [.process squareCall] = [true] := by
  obtain ⟨p, hfeed, hverdict⟩ := feed_square
  have hreturns := returns_squareCall
  cases hinit : SirenProcessorImpl.init (E := quietEngines)
      (SirenProcessorImpl.processorConfig id threeMics) with
  | error e =>
    rw [hinit] at hreturns
    cases hreturns
  | ok r =>
    rw [hinit] at hreturns
    cases r with
    | none => cases hreturns
    | some q₀ =>
      obtain ⟨q, hq⟩ := Option.isSome_iff_exists.mp hreturns
      have hcall : SirenProcessorImpl.IsCall squarePackage squareCall := by
        refine ⟨rfl, ?_, rfl⟩
        unfold squarePackage
        dsimp only
        rw [R2memO.length_process]
        rfl
      have hnext : Run.next ⟨q₀, [], 0⟩ (.process squareCall) = .ok _ :=
        bind_eq_ok.mpr ⟨q, Run.toOption_eq_some.mp hq, rfl⟩
      have hrun := Run.runs_singleton hnext
      obtain ⟨hmics, hfix⟩ := mics_of_verdict id (by decide) rfl hfeed hinit hrun
        ⟨_, List.prefix_refl _, .cons hcall .nil⟩ (by simp [Event.calls])
      rw [hverdict] at hmics hfix
      exact ⟨p, q₀, _, hfeed, hverdict, hrun, hcall, hmics.trans (by decide),
        hfix.trans (by decide)⟩

end SquareWave

end BlackSiren

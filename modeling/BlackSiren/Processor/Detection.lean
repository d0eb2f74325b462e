import BlackSiren.Legacy.Detection
import BlackSiren.Processor.ForceStart
import BlackSiren.Processor.MicCheck
import BlackSiren.Service.VoiceEvent

/-! # The word of a detection in the processor

    `process` looks at the word in three places, and `getVTInfo` in another; all of them
    read the two pointers of the wake-word unit, which a microphone error replaces by a
    new one.

    - `Reads`: where a call looks at a pointer
    - `SafeCall`, `SafeRun`: no check fails, and every pointer is the latest
    - `signs`: a run as its wake-word units see it
    - `safeRun_iff`: when a run is safe
-/

open LTS

namespace BlackSiren

/-- After a pre event `r2_vbv_getdetwordinfo` succeeds. -/
def VbvEngine.Announces {F : Type} (eng : VbvEngine F) : Prop :=
  ∀ h wav aec dirty, (eng.process h wav aec dirty).2.R2_VT_WORD_PRE = true →
    (eng.getdetwordinfo (eng.process h wav aec dirty).1).1.isSome ∧
      (eng.getdetwordinfo (eng.process h wav aec dirty).1).2.isSome

namespace SirenProcessorImpl

variable {F : Type} [CFloat F] {E : Engines F}

/-! ### A call -/

/-- The unit that is constructed for the microphones there are. -/
def newVbv (p : SirenProcessorImpl F E) : R2memVbv3 F E.vbv :=
  R2memVbv3.new p.mic_pos p.mic_i2s_delay p.m_pMicInfo_bf p.config.alg_vt_dnnmod
    p.config.alg_vt_phomod

/-- The processor at the call of the wake-word unit, and `len_mul`. -/
def wordArgs (p : SirenProcessorImpl F E) (c : Call) :
    Except Fault (SirenProcessorImpl F E × Nat) := do
  let (p, len_mul) ← p.readInput c
  let (p, _) ← p.beamform len_mul
  return (p, len_mul)

/-- This call. -/
def callVbv (p : SirenProcessorImpl F E) (c : Call) (len_mul : Nat) :
    Except Fault (R2memVbv3 F E.vbv × VbvResult) :=
  p.m_pMem_vbv3.Process p.m_pMem_in.m_pData_Out len_mul p.state.dataOutput (c.aecflag == 1)

/-- `process` compares the type of the word. -/
def asksType (c : Call) (rt : VbvResult) : Bool :=
  (c.awakeflag == 1 && (rt.R2_VT_WORD_PRE && !rt.R2_VT_WORD_CANCEL)) ||
    ((c.awakeflag == 1 || c.sleepflag == 1 || c.hotwordflag == 1) &&
      (rt.R2_VT_WORD_DET_NOCMD || rt.R2_VT_WORD_DET_CMD))

/-- The processors in a call that look at a pointer of their wake-word unit. -/
inductive Reads (p : SirenProcessorImpl F E) (c : Call) : SirenProcessorImpl F E → Prop where
  /-- `m_pWordInfo->iWordType` -/
  | iWordType {q : SirenProcessorImpl F E} {n : Nat} {u : R2memVbv3 F E.vbv} {rt : VbvResult}
      (hq : p.wordArgs c = .ok (q, n)) (hu : q.callVbv c n = .ok (u, rt))
      (hasks : asksType c rt = true) : Reads p c { q with m_pMem_vbv3 := u }
  /-- `m_pWordDetInfo->fWordSlInfo` and the two positions -/
  | fWordSlInfo {q q' : SirenProcessorImpl F E} {n : Nat} {w : WordFlags}
      (hq : p.wordArgs c = .ok (q, n)) (hword : q.wakeWord c n = .ok (q', w))
      (hpre : w.pre = true) : Reads p c q'.resetASR
  /-- `m_pWordInfo->pWordContent_UTF8` -/
  | pWordContent {q q' : SirenProcessorImpl F E} {w : WordFlags} {sig : Sig F} {out : List F}
      {vad2 : VadResult} (hq : p.vadArgs c = .ok (q, w, sig))
      (hvad : q.runVad w sig = .ok (q', out, vad2)) (hbegin : vad2.audio_begin = true)
      (hpre : w.awakePre = true) : Reads p c q'

/-- What the wake-word units see of a call. -/
def signs (p : SirenProcessorImpl F E) (c : Call) : List (Sign F) :=
  match p.readInput c with
  | .error _ => []
  | .ok (q, len_mul) =>
      (if p.fixErrorMicReturn c = some true then [.built q.newVbv.members] else []) ++
        match q.beamform len_mul with
        | .error _ => []
        | .ok (q, _) =>
            let (h, rt) := q.m_pMem_vbv3.answer q.m_pMem_in.m_pData_Out len_mul
              q.state.dataOutput (c.aecflag == 1)
            [.heard rt (E.vbv.getdetwordinfo h)]

end SirenProcessorImpl

/-- The latest pre event of the object there is. -/
def Sign.latest {F : Type} : Option (DetInfo F) → List (Sign F) → Option (DetInfo F) :=
  List.foldl fun latest a =>
    match a with
    | .built _ => none
    | .heard rt info => rt.obtained info latest
    | .getVTInfo => latest

namespace SirenProcessorImpl

variable {F : Type} [CFloat F] {E : Engines F}

/-- No check of the wake-word unit fails in a call, and the pointers it looks at are those
    of the latest pre event. -/
structure SafeCall (latest : Option (DetInfo F)) (p : SirenProcessorImpl F E) (c : Call) :
    Prop where
  checks : ∀ q n, p.wordArgs c = .ok (q, n) → ∃ u rt, q.callVbv c n = .ok (u, rt)
  reads : ∀ q, p.Reads c q →
    q.m_pMem_vbv3.members.FromLatest (Sign.latest latest (p.signs c))

/-- `getVTInfo` looks at the pointers if the first is not null. -/
def SafeVTInfo (latest : Option (DetInfo F)) (p : SirenProcessorImpl F E) : Prop :=
  p.m_pMem_vbv3.m_pWordInfo.isSome → p.m_pMem_vbv3.members.FromLatest latest

/-! ### What a call does to the unit -/

/-- The check of the microphones leaves a new unit or the one there was. -/
theorem checkMics_unit (p : SirenProcessorImpl F E) (n : Nat) :
    (p.checkMics n).m_pMem_vbv3.members =
      if (p.state.firstFrm && decide (n > 0)) = true ∧
          ∃ id ∈ p.m_pMicInfo_bf, id ∈ p.getErrorInfo p.m_pMem_in.m_pData_Out then
        (p.checkMics n).newVbv.members
      else p.m_pMem_vbv3.members := by
  unfold checkMics
  by_cases hfirst : (p.state.firstFrm && decide (n > 0)) = true
  · rw [if_pos hfirst]
    dsimp only
    rw [fixErrorMic_eq]
    dsimp only
    split
    · next hfixed =>
      rw [if_pos ⟨hfirst, of_decide_eq_true hfixed⟩]
      rfl
    · next hfixed => rw [if_neg fun h => hfixed (decide_eq_true h.2)]
  · rw [if_neg hfirst, if_neg fun h => hfirst h.1]

theorem readInput_unit {p q : SirenProcessorImpl F E} {c : Call} {n : Nat}
    (h : p.readInput c = .ok (q, n)) :
    q.m_pMem_vbv3.members =
      if p.fixErrorMicReturn c = some true then q.newVbv.members else p.m_pMem_vbv3.members := by
  unfold readInput at h
  obtain ⟨⟨m_pMem_in, len⟩, hin, h⟩ := bind_eq_ok.mp h
  cases h
  have hin' : p.m_pMem_in.process c.datain c.lenin = .ok (m_pMem_in, n) := by
    rw [← hin]
    split <;> rfl
  have hreturn : p.fixErrorMicReturn c = some true ↔
      (p.state.firstFrm && decide (n > 0)) = true ∧
        ∃ id ∈ p.m_pMicInfo_bf,
          id ∈ getErrorInfo { p with m_pMem_in := m_pMem_in } m_pMem_in.m_pData_Out := by
    unfold fixErrorMicReturn
    rw [hin']
    dsimp only
    rw [fixErrorMic_eq]
    split
    · next hfirst => rw [and_iff_right hfirst, Option.some_inj, decide_eq_true_iff]
    · next hfirst => exact iff_of_false (fun h => nomatch h) fun h => hfirst h.1
  show (checkMics _ _).m_pMem_vbv3.members = _
  rw [checkMics_unit]
  simp only [hreturn]
  -- the asr flag is set in front of the check
  by_cases hasr : c.asrflag = 1
  · rw [if_pos hasr]
    rfl
  · rw [if_neg hasr]
    rfl

theorem beamform_unit {p p' : SirenProcessorImpl F E} {n : Nat} {sig : Sig F}
    (h : p.beamform n = .ok (p', sig)) : p'.m_pMem_vbv3 = p.m_pMem_vbv3 := by
  unfold beamform at h
  obtain ⟨_, _, h⟩ := bind_eq_ok.mp h
  cases h
  rfl

theorem resetASR_unit (p : SirenProcessorImpl F E) : p.resetASR.m_pMem_vbv3 = p.m_pMem_vbv3 := by
  unfold resetASR
  dsimp only
  split <;> rfl

theorem onPre_unit {p p' : SirenProcessorImpl F E} {w : WordFlags} {sig sig' : Sig F}
    (h : p.onPre w sig = .ok (p', sig')) : p'.m_pMem_vbv3 = p.m_pMem_vbv3 := by
  have hfetch : ∀ det, (p.fetchWord det).m_pMem_vbv3 = p.m_pMem_vbv3 := by
    intro det
    rw [(p.fetchWord_parts det).2.2.2, resetASR_unit]
  rcases onPre_eq_ok h with ⟨_, rfl, _⟩ | ⟨_, det, _, ⟨_, rfl, _⟩ | ⟨_, _, _, _, rfl, _⟩⟩
  · rfl
  · exact hfetch det
  · exact hfetch det

omit [CFloat F] in
theorem wordTypeIs_eq_true {p : SirenProcessorImpl F E} {b : Bool} {t : Int}
    (h : p.wordTypeIs b t = .ok true) : b = true := by
  unfold wordTypeIs at h
  cases b with
  | true => rfl
  | false => cases h

omit [CFloat F] in
/-- The stage of the wake word calls the unit; its flags about pre events need one. -/
theorem wakeWord_unit {p p' : SirenProcessorImpl F E} {c : Call} {n : Nat} {w : WordFlags}
    (h : p.wakeWord c n = .ok (p', w)) : ∃ u rt, p.callVbv c n = .ok (u, rt) ∧
      p' = { p with m_pMem_vbv3 := u } ∧
        (w.pre = true ∨ w.awakePre = true → rt.R2_VT_WORD_PRE = true) := by
  unfold wakeWord at h
  obtain ⟨⟨u, rt⟩, hu, h⟩ := bind_eq_ok.mp h
  obtain ⟨_, _, h⟩ := bind_eq_ok.mp h
  obtain ⟨awakePre, hawake, h⟩ := bind_eq_ok.mp h
  iterate 6 obtain ⟨_, _, h⟩ := bind_eq_ok.mp h
  cases h
  refine ⟨u, rt, hu, rfl, ?_⟩
  intro hpre
  have hboth : (rt.R2_VT_WORD_PRE && !rt.R2_VT_WORD_CANCEL) = true := by
    rcases hpre with hpre | hpre
    · exact hpre
    · have hpre : awakePre = true := hpre
      rw [hpre] at hawake
      exact (Bool.and_eq_true_iff.mp (wordTypeIs_eq_true hawake)).2
  exact (Bool.and_eq_true_iff.mp hboth).1

/-- Wherever a call looks at a pointer, the unit is as its call has left it. -/
theorem Reads.unit {p r : SirenProcessorImpl F E} {c : Call} (h : p.Reads c r) :
    ∃ q n u rt, p.wordArgs c = .ok (q, n) ∧ q.callVbv c n = .ok (u, rt) ∧
      r.m_pMem_vbv3 = u ∧ rt.speaks = true := by
  have hspeaks : ∀ rt : VbvResult, rt.R2_VT_WORD_PRE = true → rt.speaks = true := by
    intro rt hpre
    unfold VbvResult.speaks
    rw [hpre]
    rfl
  cases h with
  | @iWordType q n u rt hq hu hasks =>
    refine ⟨q, n, u, rt, hq, hu, rfl, ?_⟩
    unfold asksType at hasks
    unfold VbvResult.speaks
    rcases Bool.or_eq_true_iff.mp hasks with hpre | hword
    · rw [(Bool.and_eq_true_iff.mp (Bool.and_eq_true_iff.mp hpre).2).1]
      rfl
    · rcases Bool.or_eq_true_iff.mp (Bool.and_eq_true_iff.mp hword).2 with hno | hcmd
      · rw [hno, Bool.or_true]
      · rw [hcmd, Bool.or_true, Bool.true_or]
  | @fWordSlInfo q q' n w hq hword hpre =>
    obtain ⟨u, rt, hu, rfl, hflag⟩ := wakeWord_unit hword
    exact ⟨q, n, u, rt, hq, hu, resetASR_unit _, hspeaks rt (hflag (.inl hpre))⟩
  | @pWordContent q q' w sig out vad2 hq hvad hbegin hpre =>
    unfold vadArgs at hq
    obtain ⟨⟨p₁, n⟩, h₁, hq⟩ := bind_eq_ok.mp hq
    obtain ⟨⟨p₂, sig₂⟩, h₂, hq⟩ := bind_eq_ok.mp hq
    obtain ⟨⟨p₃, w₃⟩, h₃, hq⟩ := bind_eq_ok.mp hq
    obtain ⟨⟨p₄, sig₄⟩, h₄, hq⟩ := bind_eq_ok.mp hq
    cases hq
    obtain ⟨u, rt, hu, rfl, hflag⟩ := wakeWord_unit h₃
    have hargs : p.wordArgs c = .ok (p₂, n) :=
      bind_eq_ok.mpr ⟨(p₁, n), h₁, bind_eq_ok.mpr ⟨(p₂, sig₂), h₂, rfl⟩⟩
    have hunit : r.m_pMem_vbv3 = q.m_pMem_vbv3 := by
      unfold runVad at hvad
      obtain ⟨_, _, hvad⟩ := bind_eq_ok.mp hvad
      cases hvad
      rfl
    exact ⟨p₂, n, u, rt, hargs, hu, hunit.trans (onPre_unit h₄), hspeaks rt (hflag (.inr hpre))⟩

/-- A call that gets to its unit: the signs are the result, behind the new object if the
    unit has been replaced. -/
theorem signs_eq {p q : SirenProcessorImpl F E} {c : Call} {n : Nat} {h : E.vbv.State}
    {rt : VbvResult} (hq : p.wordArgs c = .ok (q, n))
    (hanswer : q.m_pMem_vbv3.answer q.m_pMem_in.m_pData_Out n q.state.dataOutput
      (c.aecflag == 1) = (h, rt)) :
    ∃ front, p.signs c = front ++ [.heard rt (E.vbv.getdetwordinfo h)] ∧
      ((front = [] ∧ q.m_pMem_vbv3.members = p.m_pMem_vbv3.members) ∨
        front = [.built q.m_pMem_vbv3.members]) := by
  unfold wordArgs at hq
  obtain ⟨⟨p₁, n'⟩, h₁, hq⟩ := bind_eq_ok.mp hq
  obtain ⟨⟨p₂, sig⟩, h₂, hq⟩ := bind_eq_ok.mp hq
  cases hq
  have hunit := readInput_unit h₁
  unfold signs
  rw [h₁]
  dsimp only
  rw [h₂]
  dsimp only
  rw [hanswer, beamform_unit h₂, hunit]
  refine ⟨_, rfl, ?_⟩
  by_cases hfixed : p.fixErrorMicReturn c = some true
  · rw [if_pos hfixed, if_pos hfixed]
    exact .inr rfl
  · rw [if_neg hfixed, if_neg hfixed]
    exact .inl ⟨rfl, rfl⟩

/-- What a call that gets to its unit adds to a safe run. -/
theorem safe_signs {p q : SirenProcessorImpl F E} {c : Call} {n : Nat} {h : E.vbv.State}
    {rt : VbvResult} (hq : p.wordArgs c = .ok (q, n))
    (hanswer : q.m_pMem_vbv3.answer q.m_pMem_in.m_pData_Out n q.state.dataOutput
      (c.aecflag == 1) = (h, rt))
    (asked : VbvResult → Prop) (latest : Option (DetInfo F)) (l : List (Sign F)) :
    Sign.Safe asked p.m_pMem_vbv3.members latest (p.signs c ++ l) ↔
      ∃ m, q.m_pMem_vbv3.members.hear rt (E.vbv.getdetwordinfo h) = some m ∧
        (asked rt → m.FromLatest (Sign.latest latest (p.signs c))) ∧
        Sign.Safe asked m (Sign.latest latest (p.signs c)) l := by
  obtain ⟨front, hsigns, hfront⟩ := signs_eq hq hanswer
  rw [hsigns]
  rcases hfront with ⟨rfl, hmembers⟩ | rfl
  · rw [hmembers]
    rfl
  · rfl

/-- What is heard in a call is announced. -/
theorem announced_call (hengine : E.vbv.Announces) {p : SirenProcessorImpl F E} {c : Call} :
    Sign.Announced (p.signs c) := by
  intro rt info hmem hpre
  unfold signs at hmem
  cases h₁ : p.readInput c with
  | error =>
    rw [h₁] at hmem
    cases hmem
  | ok r =>
    rw [h₁] at hmem
    rcases List.mem_append.mp hmem with hmem | hmem
    · split at hmem
      · cases List.mem_singleton.mp hmem
      · cases hmem
    · cases h₂ : r.1.beamform r.2 with
      | error =>
        rw [h₂] at hmem
        cases hmem
      | ok r' =>
        rw [h₂] at hmem
        cases List.mem_singleton.mp hmem
        exact hengine _ _ _ _ hpre

/-- Of a call that does not get to its unit nothing is heard. -/
theorem signs_of_wordArgs {p : SirenProcessorImpl F E} {c : Call} {f : Fault}
    (hargs : p.wordArgs c = .error f) : p.signs c = [] ∨ ∃ m, p.signs c = [.built m] := by
  unfold signs
  cases h₁ : p.readInput c with
  | error => exact .inl rfl
  | ok r =>
    obtain ⟨p₁, n⟩ := r
    cases h₂ : p₁.beamform n with
    | error =>
      dsimp only
      rw [h₂, List.append_nil]
      split
      · exact .inr ⟨_, rfl⟩
      · exact .inl rfl
    | ok r =>
      obtain ⟨p₂, sig⟩ := r
      have hok : p.wordArgs c = .ok (p₂, n) :=
        bind_eq_ok.mpr ⟨_, h₁, bind_eq_ok.mpr ⟨_, h₂, rfl⟩⟩
      rw [hargs] at hok
      cases hok

/-- The members after a call are those its unit has left. -/
theorem process_unit {p p' : SirenProcessorImpl F E} {c : Call} (h : p.process c = .ok p') :
    ∃ q n u rt, p.wordArgs c = .ok (q, n) ∧ q.callVbv c n = .ok (u, rt) ∧
      p'.m_pMem_vbv3.members = u.members := by
  obtain ⟨st, hahead⟩ := process_ahead h
  obtain ⟨u, rt, hu, hp₃, _⟩ := wakeWord_unit st.wakeWord
  have hargs : p.wordArgs c = .ok (st.p₂, st.len_mul) :=
    bind_eq_ok.mpr ⟨_, st.readInput, bind_eq_ok.mpr ⟨_, st.beamform, rfl⟩⟩
  refine ⟨st.p₂, st.len_mul, u, rt, hargs, hu, ?_⟩
  have hmembers : p'.m_pMem_vbv3.members = st.p₄.m_pMem_vbv3.members := congrArg Prod.snd hahead
  rw [hmembers, onPre_unit st.onPre, hp₃]

omit [CFloat F] in
/-- The call of the unit returns if and only if what is heard is in order. -/
theorem callVbv_iff {q : SirenProcessorImpl F E} {c : Call} {n : Nat} {h : E.vbv.State}
    {rt : VbvResult}
    (hanswer : q.m_pMem_vbv3.answer q.m_pMem_in.m_pData_Out n q.state.dataOutput
      (c.aecflag == 1) = (h, rt)) {m : VbvMembers F} {rt' : VbvResult} :
    (∃ u, q.callVbv c n = .ok (u, rt') ∧ u.members = m) ↔
      rt' = rt ∧ q.m_pMem_vbv3.members.hear rt (E.vbv.getdetwordinfo h) = some m := by
  unfold callVbv
  rw [R2memVbv3.Process_eq _ _ _ _ _ hanswer]
  cases q.m_pMem_vbv3.members.hear rt (E.vbv.getdetwordinfo h) with
  | none => exact iff_of_false (fun ⟨_, h, _⟩ => nomatch h) fun h => nomatch h.2
  | some m' =>
    constructor
    · intro hm
      obtain ⟨u, hu, rfl⟩ := hm
      cases hu
      exact ⟨rfl, rfl⟩
    · intro hm
      obtain ⟨rfl, hm⟩ := hm
      cases hm
      exact ⟨_, rfl, rfl⟩

end SirenProcessorImpl

/-! ### Runs -/

/-- A use of the processor: an event, or a look at the word. -/
inductive Use (F : Type) where
  | event (e : Event F)
  | getVTInfo

namespace Run

variable {F : Type} [CFloat F] {E : Engines F}

open SirenProcessorImpl

/-- What the wake-word units see of an event. -/
def eventSigns (s : Run F E) : Event F → List (Sign F)
  | .process c => s.p.signs c
  | .setState _ => []
  | .setSLSteer _ _ => []
  | .syncVTWord _ => []

/-- What they see of a run, which ends when a call does not return. -/
def signs (s : Run F E) : List (Use F) → List (Sign F)
  | [] => []
  | .getVTInfo :: us => .getVTInfo :: signs s us
  | .event e :: us =>
      s.eventSigns e ++
        match s.next e with
        | .ok s' => signs s' us
        | .error _ => []

/-- Every call is safe, and so is every look at the word. -/
def SafeRun (latest : Option (DetInfo F)) (s : Run F E) : List (Use F) → Prop
  | [] => True
  | .getVTInfo :: us => s.p.SafeVTInfo latest ∧ SafeRun latest s us
  | .event e :: us =>
      (∀ c, e = .process c → s.p.SafeCall latest c) ∧
        ∀ s', s.next e = .ok s' → SafeRun (Sign.latest latest (s.eventSigns e)) s' us

theorem eventSigns_quiet (s : Run F E) {e : Event F} (hquiet : Event.calls [e] = []) :
    s.eventSigns e = [] := by
  cases e with
  | process c => cases hquiet
  | setState a => rfl
  | setSLSteer ho ver => rfl
  | syncVTWord words => rfl

/-- An event that is no call leaves the members alone. -/
theorem next_quiet_unit {s s' : Run F E} {e : Event F} (hquiet : Event.calls [e] = [])
    (h : s.next e = .ok s') : s'.p.m_pMem_vbv3.members = s.p.m_pMem_vbv3.members := by
  cases e with
  | process c => cases hquiet
  | setState a =>
    cases h
    show (s.p.setState a).m_pMem_vbv3.members = _
    unfold setState
    split <;> rfl
  | setSLSteer ho ver =>
    cases h
    rfl
  | syncVTWord words =>
    obtain ⟨p, hp, h⟩ := bind_eq_ok.mp h
    cases h
    obtain ⟨_, _, _, _, rfl⟩ := syncVTWord_eq_ok hp
    rfl

/-- A call leaves them as its unit has left them. -/
theorem next_process_unit {s s' : Run F E} {c : Call} (h : s.next (.process c) = .ok s') :
    ∃ q n u rt, s.p.wordArgs c = .ok (q, n) ∧ q.callVbv c n = .ok (u, rt) ∧
      s'.p.m_pMem_vbv3.members = u.members := by
  obtain ⟨p, hp, h⟩ := bind_eq_ok.mp h
  cases h
  obtain ⟨q, n, u, rt, hq, hu, hmembers⟩ := process_unit hp
  exact ⟨q, n, u, rt, hq, hu, hmembers⟩

/-- The engine announces what it reports. -/
theorem announced_signs (hengine : E.vbv.Announces) (s : Run F E) (us : List (Use F)) :
    Sign.Announced (s.signs us) := by
  induction us generalizing s with
  | nil => exact fun _ _ hmem => nomatch hmem
  | cons a us ih =>
    intro rt info hmem hpre
    cases a with
    | getVTInfo =>
      rcases List.mem_cons.mp hmem with heq | hmem
      · cases heq
      · exact ih s rt info hmem hpre
    | event e =>
      rcases List.mem_append.mp hmem with hmem | hmem
      · rcases e.quiet_or_process with hquiet | ⟨c, rfl⟩
        · rw [s.eventSigns_quiet hquiet] at hmem
          cases hmem
        · exact announced_call hengine rt info hmem hpre
      · cases hnext : s.next e with
        | error =>
          rw [hnext] at hmem
          cases hmem
        | ok s' =>
          rw [hnext] at hmem
          exact ih s' rt info hmem hpre

/-- A run is safe if what its units see is. -/
theorem safeRun_of_signs {us : List (Use F)} {latest : Option (DetInfo F)} {s : Run F E}
    (h : Sign.Safe (fun rt => rt.speaks = true) s.p.m_pMem_vbv3.members latest (s.signs us)) :
    s.SafeRun latest us := by
  induction us generalizing s latest with
  | nil => trivial
  | cons a us ih =>
    cases a with
    | getVTInfo => exact ⟨h.1, ih h.2⟩
    | event e =>
      -- the signs behind an event that returns are those of the rest of the run
      have hrest : ∀ {m latest' s'}, s.next e = .ok s' → s'.p.m_pMem_vbv3.members = m →
          Sign.Safe (fun rt => rt.speaks = true) m latest' (match s.next e with
            | .ok s' => signs s' us
            | .error _ => []) → SafeRun latest' s' us := by
        intro m latest' s' hnext hm hsafe
        rw [hnext, ← hm] at hsafe
        exact ih hsafe
      rcases e.quiet_or_process with hquiet | ⟨c, rfl⟩
      · unfold signs at h
        rw [s.eventSigns_quiet hquiet, List.nil_append] at h
        unfold SafeRun
        rw [s.eventSigns_quiet hquiet]
        constructor
        · intro c hc
          rw [hc] at hquiet
          cases hquiet
        · intro s' hnext
          exact hrest hnext (next_quiet_unit hquiet hnext) h
      · cases hargs : s.p.wordArgs c with
        | error f =>
          constructor
          · intro c' hc
            cases hc
            refine ⟨fun q n hq => ?_, fun r hr => ?_⟩
            · rw [hargs] at hq
              cases hq
            · obtain ⟨_, _, _, _, hq, _⟩ := hr.unit
              rw [hargs] at hq
              cases hq
          · intro s' hnext
            obtain ⟨_, _, _, _, hq, _⟩ := next_process_unit hnext
            rw [hargs] at hq
            cases hq
        | ok r =>
          obtain ⟨q, n⟩ := r
          obtain ⟨m, hhear, hask, hsafe⟩ := (safe_signs hargs rfl _ latest _).mp h
          obtain ⟨u, hu, rfl⟩ := (callVbv_iff rfl).mpr ⟨rfl, hhear⟩
          constructor
          · intro c' hc
            cases hc
            refine ⟨fun q' n' hq => ?_, fun r hr => ?_⟩
            · rw [hargs] at hq
              cases hq
              exact ⟨u, _, hu⟩
            · obtain ⟨_, _, u', _, hq, hu', hr, hspeaks⟩ := hr.unit
              rw [hargs] at hq
              cases hq
              rw [hu] at hu'
              cases hu'
              rw [hr]
              exact hask hspeaks
          · intro s' hnext
            obtain ⟨_, _, u', _, hq, hu', hmembers⟩ := next_process_unit hnext
            rw [hargs] at hq
            cases hq
            rw [hu] at hu'
            cases hu'
            exact hrest hnext hmembers hsafe

/-- Of a safe run the units see no failing check and no word that is not the latest. -/
theorem signs_of_safeRun {us : List (Use F)} {latest : Option (DetInfo F)} {s : Run F E}
    (h : s.SafeRun latest us) :
    Sign.Safe (fun _ => False) s.p.m_pMem_vbv3.members latest (s.signs us) := by
  induction us generalizing s latest with
  | nil => trivial
  | cons a us ih =>
    cases a with
    | getVTInfo => exact ⟨h.1, ih h.2⟩
    | event e =>
      obtain ⟨hcall, hafter⟩ := h
      have hrest : ∀ m, (∀ s', s.next e = .ok s' → s'.p.m_pMem_vbv3.members = m) →
          Sign.Safe (fun _ => False) m (Sign.latest latest (s.eventSigns e)) (match s.next e with
            | .ok s' => signs s' us
            | .error _ => []) := by
        intro m hm
        cases hnext : s.next e with
        | error => trivial
        | ok s' =>
          rw [← hm s' hnext]
          exact ih (hafter s' hnext)
      unfold signs
      rcases e.quiet_or_process with hquiet | ⟨c, rfl⟩
      · have hquiet' := hrest _ fun s' hnext => next_quiet_unit hquiet hnext
        rw [s.eventSigns_quiet hquiet] at hquiet' ⊢
        exact hquiet'
      · cases hargs : s.p.wordArgs c with
        | error f =>
          have hnext : ∀ s', s.next (.process c) ≠ .ok s' := by
            intro s' hnext
            obtain ⟨_, _, _, _, hq, _⟩ := next_process_unit hnext
            rw [hargs] at hq
            cases hq
          cases hs : s.next (.process c) with
          | ok s' => exact absurd hs (hnext s')
          | error =>
            show Sign.Safe _ _ _ (s.p.signs c ++ [])
            rcases signs_of_wordArgs hargs with hnone | ⟨m, hone⟩
            · rw [hnone]
              trivial
            · rw [hone]
              trivial
        | ok r =>
          obtain ⟨q, n⟩ := r
          obtain ⟨u, rt, hu⟩ := (hcall c rfl).checks q n hargs
          obtain ⟨rfl, hhear⟩ := (callVbv_iff rfl).mp ⟨u, hu, rfl⟩
          refine (safe_signs hargs rfl _ latest _).mpr ⟨_, hhear, fun h => h.elim, ?_⟩
          apply hrest
          intro s' hnext
          obtain ⟨_, _, u', _, hq, hu', hmembers⟩ := next_process_unit hnext
          rw [hargs] at hq
          cases hq
          rw [hu] at hu'
          cases hu'
          exact hmembers

/-- `init` has built the unit. -/
theorem init_unit {cfg : SirenConfig F} {s : Run F E} (h : Init cfg s) :
    s.p.m_pMem_vbv3.members = s.p.newVbv.members := by
  obtain ⟨mic_i2s_delay, m_pWordLst, _, _, hp⟩ := init_eq_some h.1
  rw [hp]
  rfl

/-- A run whose results are in order is safe if and only if nothing that a constructor of
    `r2mem_vbv3` has left in the members does harm. -/
theorem safeRun_iff (hengine : E.vbv.Announces) {cfg : SirenConfig F} {s : Run F E}
    (hinit : Init cfg s) {us : List (Use F)} (hord : Sign.Ordered false (s.signs us)) :
    s.SafeRun none us ↔ Sign.AllHarmless (.built s.p.newVbv.members :: s.signs us) := by
  have hinfo := s.announced_signs hengine us
  constructor
  · intro hsafe
    rw [← init_unit hinit]
    exact (Sign.safe_iff (fun _ h => h.elim) hinfo hord).mp (signs_of_safeRun hsafe)
  · intro hharm
    rw [← init_unit hinit] at hharm
    exact safeRun_of_signs ((Sign.safe_iff (fun _ h => h) hinfo hord).mpr hharm)

/-! ### Two engines -/

/-- An engine that reports the awake word in the first call and its end in the second;
    `m_bPre` holds `left` when a unit has been constructed. -/
def awakeWord (left : Bool) : Engines ℚ :=
  let E := scripted [] [] [⟨true, true, false, false, false⟩, ⟨false, false, false, false, true⟩]
    ⟨WORD_AWAKE, [], [], 0, 0, false, false, false, false, false, 0, none⟩
  { E with vbv := { E.vbv with unassigned := fun _ => ⟨left, none, none⟩ } }

theorem announces_awakeWord (left : Bool) : (awakeWord left).vbv.Announces :=
  fun _ _ _ _ _ => ⟨rfl, rfl⟩

/-- One frame of samples 1.0 with `awakeflag`. -/
def awakeCall : Call where
  datain := fun i => if i % 4 = 2 then 0x80 else if i % 4 = 3 then 0x3f else 0
  lenin := 640
  aecflag := 0
  awakeflag := 1
  sleepflag := 0
  asrflag := 0
  hotwordflag := 0

/-- Two calls, each with a look at the word. -/
def twoLooks : List (Use ℚ) :=
  [.event (.process awakeCall), .getVTInfo, .event (.process awakeCall), .getVTInfo]

theorem safeRun_iff_twoLooks : ∃ s : Run ℚ (awakeWord false), Init (smallConfig true true) s ∧
    Sign.Ordered false (s.signs twoLooks) ∧
    (s.SafeRun none twoLooks ↔
      Sign.AllHarmless (.built s.p.newVbv.members :: s.signs twoLooks)) := by
  have hrun : ((script (awakeWord false) (smallConfig true true) []).map fun s =>
      decide (Sign.Ordered false (s.signs twoLooks))) = some true := by
    decide +kernel
  obtain ⟨s, hs, hord⟩ := Option.map_eq_some_iff.mp hrun
  have hord := of_decide_eq_true hord
  have hinit := init_of_script hs
  exact ⟨s, hinit, hord, safeRun_iff (announces_awakeWord false) hinit hord⟩

/-- With `m_bPre` left set, the check fails on the first pre event. -/
theorem setPre_not_safe : ∃ s : Run ℚ (awakeWord true), Init (smallConfig true true) s ∧
    (awakeWord true).vbv.Announces ∧ Sign.Ordered false (s.signs twoLooks) ∧
    ¬ s.SafeRun none twoLooks := by
  have hrun : ((script (awakeWord true) (smallConfig true true) []).bind fun s =>
      match s.p.wordArgs awakeCall with
      | .ok (q, n) => some (decide (Sign.Ordered false (s.signs twoLooks)),
          match q.callVbv awakeCall n with
          | .ok _ => none
          | .error f => some f)
      | .error _ => none) = some (true, some .vbvPre) := by
    decide +kernel
  obtain ⟨s, hs, hargs⟩ := Option.bind_eq_some_iff.mp hrun
  split at hargs
  · next q n hq =>
    have hargs := Option.some.inj hargs
    simp only [Prod.mk.injEq] at hargs
    obtain ⟨hord, hfails⟩ := hargs
    refine ⟨s, init_of_script hs, announces_awakeWord true, of_decide_eq_true hord, ?_⟩
    intro hsafe
    obtain ⟨u, rt, hu⟩ := (hsafe.1 awakeCall rfl).checks q n hq
    rw [hu] at hfails
    cases hfails
  · cases hargs

end Run

end BlackSiren

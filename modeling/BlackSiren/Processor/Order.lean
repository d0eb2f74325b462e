import BlackSiren.Processor.Detection

/-! # The messages of a call, in order

    A call gives its messages in five groups:

        resetASR     the CANCEL of a segment that a pre event cuts off
        onBegin      AWAKE_PRE and DEBUG_AUDIO
        onWord       SLEEP, AWAKE_NOCMD, HOTWORD, AWAKE_CMD
        onVadStart   START, CANCEL and DATA
        onEnd        END

    - `wakeIds`, `wordIds`: the second and the third group
    - `onVadStart_ids`, `onEnd_ids`: the last two, with what they need
    - `process_order`: all of them
-/

namespace BlackSiren

namespace WordFlags

/-- What `onBegin` says of a word. -/
def wakeIds (w : WordFlags) : List R2adMsg :=
  if w.awakePre then [.r2ad_awake_pre, .r2ad_debug_audio] else []

/-- What the blocks `if (noCmd)` and `if (cmd)` say of it. -/
def wordIds (w : WordFlags) : List R2adMsg :=
  (if w.sleepNoCmd then [.r2ad_sleep] else []) ++
    (if w.awakeNoCmd then [.r2ad_awake_nocmd] else []) ++
    (if w.hotwordNoCmd then [.r2ad_hotword] else []) ++
    (if w.awakeCmd then [.r2ad_awake_cmd] else [])

end WordFlags

namespace SirenProcessorImpl

variable {F : Type} {E : Engines F}

/-- The kinds of the messages so far. -/
def ids (p : SirenProcessorImpl F E) : List R2adMsg := p.msgLst.map (·.iMsgId)

theorem ids_addMsg (p : SirenProcessorImpl F E) (m : R2adMsg) (d : List UInt8) :
    (p.addMsg m d).ids = p.ids ++ [m] := by
  simp [ids, addMsg]

theorem ids_addMsgSl (p : SirenProcessorImpl F E) (m : R2adMsg) :
    (p.addMsgSl m).ids = p.ids ++ [m] :=
  ids_addMsg p m _

/-! ### Words -/

/-- With a word of this kind the unit hears `awake_pre` only when speech begins. -/
theorem onBegin_ids {p p' : SirenProcessorImpl F E} {asr : Bool} {w : WordFlags}
    {vad2 : VadResult} (h : p.onBegin asr w vad2 = .ok p')
    (hbegin : w.awakePre = true → vad2.audio_begin = true) : p'.ids = p.ids ++ w.wakeIds := by
  simp only [onBegin] at h
  unfold WordFlags.wakeIds
  by_cases hpre : w.awakePre = true
  · rw [if_pos (hbegin hpre), if_pos hpre] at h
    rw [if_pos hpre]
    split at h
    · cases h
    · cases h
      refine (ids_addMsg _ _ _).trans ?_
      rw [ids_addMsgSl, List.append_assoc]
      rfl
  · rw [if_neg hpre] at h
    rw [if_neg hpre, List.append_nil]
    split at h
    · cases h
      rfl
    · cases h
      rfl

theorem ids_if_addMsgSl (p : SirenProcessorImpl F E) (b : Bool) (m : R2adMsg) :
    (if b then p.addMsgSl m else p).ids = p.ids ++ if b then [m] else [] := by
  cases b with
  | true => exact ids_addMsgSl p m
  | false => exact (List.append_nil _).symm

theorem ids_vadEnd (p : SirenProcessorImpl F E) :
    (if p.config.alg_vad_enable then p.setVadEnd (-1) else p.setVadEnd 2000).ids = p.ids := by
  split <;> rfl

theorem onWord_ids (p : SirenProcessorImpl F E) (w : WordFlags) :
    (p.onWord w).ids = p.ids ++ w.wordIds := by
  have hnoCmd : (if w.noCmd then
      let p := if w.sleepNoCmd then p.addMsgSl .r2ad_sleep else p
      let p := if w.awakeNoCmd then p.addMsgSl .r2ad_awake_nocmd else p
      let p := if w.hotwordNoCmd then p.addMsgSl .r2ad_hotword else p
      if p.config.alg_vad_enable then p.setVadEnd (-1) else p.setVadEnd 2000
      else p).ids = p.ids ++ ((if w.sleepNoCmd then [.r2ad_sleep] else []) ++
        (if w.awakeNoCmd then [.r2ad_awake_nocmd] else []) ++
        (if w.hotwordNoCmd then [.r2ad_hotword] else [])) := by
    by_cases hno : w.noCmd
    · rw [if_pos hno]
      dsimp only
      rw [ids_vadEnd, ids_if_addMsgSl, ids_if_addMsgSl, ids_if_addMsgSl]
      simp only [List.append_assoc]
    · -- none of the three flags is set
      rw [if_neg hno]
      simp only [WordFlags.noCmd, Bool.or_eq_true, not_or, Bool.not_eq_true] at hno
      simp [hno]
  unfold onWord
  generalize hq : (if w.noCmd then
      let p := if w.sleepNoCmd then p.addMsgSl .r2ad_sleep else p
      let p := if w.awakeNoCmd then p.addMsgSl .r2ad_awake_nocmd else p
      let p := if w.hotwordNoCmd then p.addMsgSl .r2ad_hotword else p
      if p.config.alg_vad_enable then p.setVadEnd (-1) else p.setVadEnd 2000
      else p) = q at hnoCmd
  dsimp only at hq ⊢
  rw [hq]
  unfold WordFlags.wordIds
  rw [← List.append_assoc, ← hnoCmd]
  by_cases hcmd : w.cmd
  · rw [if_pos hcmd, ids_vadEnd, ids_if_addMsgSl]
  · rw [if_neg hcmd]
    simp only [WordFlags.cmd, Bool.or_eq_true, not_or, Bool.not_eq_true] at hcmd
    simp [hcmd]

/-! ### Speech -/

/-- A stage that adds messages of these kinds and leaves `awke` alone. -/
structure Adds (kinds : List R2adMsg) (p p' : SirenProcessorImpl F E) : Prop where
  ids : ∃ l, p'.ids = p.ids ++ l ∧ ∀ m ∈ l, m ∈ kinds
  awke : p'.state.awke = p.state.awke

theorem Adds.none (kinds : List R2adMsg) {p p' : SirenProcessorImpl F E} (hids : p'.ids = p.ids)
    (hawke : p'.state.awke = p.state.awke) : Adds kinds p p' :=
  ⟨⟨[], by rw [hids, List.append_nil], fun _ h => nomatch h⟩, hawke⟩

theorem Adds.one {kinds : List R2adMsg} {p p' : SirenProcessorImpl F E} {m : R2adMsg}
    (hm : m ∈ kinds) (hids : p'.ids = p.ids ++ [m]) (hawke : p'.state.awke = p.state.awke) :
    Adds kinds p p' :=
  ⟨⟨[m], hids, fun _ h => List.mem_singleton.mp h ▸ hm⟩, hawke⟩

theorem Adds.trans {kinds : List R2adMsg} {p p' p'' : SirenProcessorImpl F E}
    (h : Adds kinds p p') (h' : Adds kinds p' p'') : Adds kinds p p'' := by
  obtain ⟨⟨l, hl, hkinds⟩, hawke⟩ := h
  obtain ⟨⟨l', hl', hkinds'⟩, hawke'⟩ := h'
  refine ⟨⟨l ++ l', by rw [hl', hl, List.append_assoc], ?_⟩, hawke'.trans hawke⟩
  intro m hm
  rcases List.mem_append.mp hm with hm | hm
  · exact hkinds m hm
  · exact hkinds' m hm

/-- The messages about a segment before its data. -/
def openIds : List R2adMsg := [.r2ad_vad_start, .r2ad_vad_cancel]

theorem decideStart_adds (p : SirenProcessorImpl F E) (w : WordFlags) :
    Adds openIds p (p.decideStart w) := by
  unfold decideStart
  split
  · exact .none _ rfl rfl
  · split
    · dsimp only
      split
      · exact .one (by decide) (ids_addMsgSl _ _) rfl
      · exact .none _ rfl rfl
    · split
      · refine .one (m := .r2ad_vad_start) (by decide) ?_ ?_
        · refine (ids_addMsgSl _ _).trans ?_
          by_cases hvad : p.config.alg_vad_enable = true
          · simp only [hvad, if_true]
            rfl
          · simp only [hvad]
            rfl
        · by_cases hvad : p.config.alg_vad_enable = true
          · simp only [hvad, if_true]
            rfl
          · simp only [hvad]
            rfl
      · exact .none _ rfl rfl

theorem cancelOutput_adds (p : SirenProcessorImpl F E) : Adds openIds p p.cancelOutput := by
  unfold cancelOutput
  dsimp only
  split
  · exact .one (by decide) (ids_addMsg _ _ _) rfl
  · exact .one (by decide) (ids_addMsg _ _ _) rfl

/-- A segment goes on only with an asr flag or after a wake word. -/
theorem decideCancel_adds (p : SirenProcessorImpl F E) (asr : Bool) :
    Adds openIds p (p.decideCancel asr) ∧
      ((p.decideCancel asr).state.canceled = false → p.state.awke = true ∨ asr = true) := by
  have hcanceled : ∀ q : SirenProcessorImpl F E, q.state.canceled = true →
      q.cancelOutput.state.canceled = true := by
    intro q hq
    unfold cancelOutput
    dsimp only
    split
    · exact hq
    · exact hq
  unfold decideCancel
  split
  · next hc =>
    refine ⟨.none _ rfl rfl, fun h => ?_⟩
    rw [hc] at h
    cases h
  · dsimp only
    split
    · have hadds := cancelOutput_adds { p with state := { p.state with canceled := true } }
      refine ⟨⟨hadds.ids, hadds.awke⟩, fun h => ?_⟩
      rw [hcanceled _ rfl] at h
      cases h
    · next hgo =>
      refine ⟨.none _ rfl rfl, fun _ => ?_⟩
      simp only [Bool.or_eq_true, Bool.and_eq_true, Bool.not_eq_true', not_or, not_and] at hgo
      by_cases hawke : p.state.awke = true
      · exact .inl hawke
      · exact .inr (by simpa using hgo.2 (by simpa using hawke))

/-- It is resumed only after a wake word. -/
theorem decideResume_adds {p p' : SirenProcessorImpl F E} (h : p.decideResume = .ok p') :
    Adds openIds p p' ∧
      (p'.state.canceled = false → p.state.canceled = false ∨ p.state.awke = true) := by
  unfold decideResume at h
  split at h
  · next hr =>
    simp only [Bool.and_eq_true] at hr
    obtain ⟨_, _, h⟩ := bind_eq_ok.mp h
    cases h
    exact ⟨.one (by decide) (ids_addMsgSl _ _) rfl, fun _ => .inr hr.1.2⟩
  · cases h
    exact ⟨.none _ rfl rfl, .inl⟩

variable [CFloat F]

theorem dataIfAbove_adds {p p' : SirenProcessorImpl F E} {k : Nat} (h : p.dataIfAbove k = .ok p') :
    Adds [.r2ad_vad_data] p p' := by
  unfold dataIfAbove at h
  obtain ⟨⟨n, cod⟩, _, h⟩ := bind_eq_ok.mp h
  dsimp only at h
  split at h
  · unfold addMsgCod at h
    obtain ⟨_, _, h⟩ := bind_eq_ok.mp h
    cases h
    exact .one (by decide) (ids_addMsg _ _ _) rfl
  · cases h
    exact .none _ rfl rfl

/-- Data are sent of a segment that has not been canceled. -/
theorem sendData_adds {p p' : SirenProcessorImpl F E} {vad2 : VadResult}
    (h : p.sendData vad2 = .ok p') :
    Adds [.r2ad_vad_data] p p' ∧ (p.state.canceled = true → p'.ids = p.ids) := by
  unfold sendData at h
  split at h
  · cases h
    exact ⟨.none _ rfl rfl, fun _ => rfl⟩
  · next hc =>
    refine ⟨?_, fun h => absurd h hc⟩
    obtain ⟨p₁, hfirst, h⟩ := bind_eq_ok.mp h
    split at h
    · exact (dataIfAbove_adds hfirst).trans (dataIfAbove_adds h)
    · cases h
      exact dataIfAbove_adds hfirst

/-- The messages about a segment but for its END. -/
def speechIds : List R2adMsg := [.r2ad_vad_start, .r2ad_vad_cancel, .r2ad_vad_data]

/-- Data go out with an asr flag or after a wake word. -/
theorem onVadStart_ids {p p' : SirenProcessorImpl F E} {asr : Bool} {w : WordFlags}
    {out : List F} {vad2 : VadResult} (h : p.onVadStart asr w out vad2 = .ok p') :
    p'.state.awke = p.state.awke ∧ ∃ l, p'.ids = p.ids ++ l ∧ (∀ m ∈ l, m ∈ speechIds) ∧
      (.r2ad_vad_data ∈ l → p.state.awke = true ∨ asr = true) := by
  unfold onVadStart at h
  split at h
  · dsimp only at h
    have hstart := decideStart_adds { p with m_pMem_cod := p.m_pMem_cod.process out } w
    generalize decideStart { p with m_pMem_cod := p.m_pMem_cod.process out } w = q at h hstart
    have hstart : Adds openIds p q := ⟨hstart.ids, hstart.awke⟩
    have hnoData : ∀ r : SirenProcessorImpl F E, Adds openIds p r →
        ∃ l, r.ids = p.ids ++ l ∧ (∀ m ∈ l, m ∈ openIds) ∧ .r2ad_vad_data ∉ l := by
      intro r hr
      obtain ⟨l, hl, hkinds⟩ := hr.ids
      refine ⟨l, hl, hkinds, fun hdata => ?_⟩
      exact absurd (hkinds _ hdata) (by decide)
    split at h
    · obtain ⟨r, hresume, h⟩ := bind_eq_ok.mp h
      obtain ⟨hcancel, hgo⟩ := decideCancel_adds q asr
      obtain ⟨hresumed, hback⟩ := decideResume_adds hresume
      obtain ⟨hsent, hsilent⟩ := sendData_adds h
      have hfront := hstart.trans (hcancel.trans hresumed)
      obtain ⟨l, hl, hkinds, hnone⟩ := hnoData r hfront
      obtain ⟨d, hd, hdata⟩ := hsent.ids
      refine ⟨hsent.awke.trans hfront.awke, l ++ d, by rw [hd, hl, List.append_assoc], ?_, ?_⟩
      · intro m hm
        rcases List.mem_append.mp hm with hm | hm
        · have hsub : ∀ m ∈ openIds, m ∈ speechIds := by decide
          exact hsub m (hkinds m hm)
        · have hsub : ∀ m ∈ [R2adMsg.r2ad_vad_data], m ∈ speechIds := by decide
          exact hsub m (hdata m hm)
      · intro hmem
        have hmem : .r2ad_vad_data ∈ d := (List.mem_append.mp hmem).resolve_left hnone
        have hopen : r.state.canceled = false := by
          by_contra hc
          have hids := hsilent (by simpa using hc)
          rw [hd] at hids
          rw [List.append_cancel_left (hids.trans (List.append_nil _).symm)] at hmem
          cases hmem
        rw [← hstart.awke]
        rcases hback hopen with hq | hq
        · exact hgo hq
        · rw [hcancel.awke] at hq
          exact .inl hq
    · cases h
      obtain ⟨l, hl, hkinds, hnone⟩ := hnoData p' hstart
      have hsub : ∀ m ∈ openIds, m ∈ speechIds := by decide
      exact ⟨hstart.awke, l, hl, fun m hm => hsub m (hkinds m hm), fun hm => absurd hm hnone⟩
  · cases h
    exact ⟨rfl, [], (List.append_nil _).symm, fun _ h => (nomatch h), fun h => nomatch h⟩

omit [CFloat F] in
theorem restartCod_ids {p p' : SirenProcessorImpl F E} (h : p.restartCod = .ok p') :
    p'.ids = p.ids := by
  unfold restartCod at h
  split at h
  · obtain ⟨_, _, h⟩ := bind_eq_ok.mp h
    cases h
    rfl
  · cases h
    rfl

omit [CFloat F] in
/-- The end of speech ends the session of a wake word. -/
theorem onEnd_ids {p p' : SirenProcessorImpl F E} {vad2 : VadResult} (h : p.onEnd vad2 = .ok p') :
    (p'.ids = p.ids ∧ p'.state.awke = p.state.awke) ∨
      ((p'.ids = p.ids ∨ p'.ids = p.ids ++ [.r2ad_vad_end]) ∧ p'.state.awke = false) := by
  unfold onEnd at h
  split at h
  · right
    dsimp only at h
    obtain ⟨q, hq, h⟩ := bind_eq_ok.mp h
    cases h
    have hids := restartCod_ids hq
    refine ⟨?_, ?_⟩
    · show q.ids = _ ∨ q.ids = _
      rw [hids]
      split
      · exact .inr (ids_addMsg _ _ _)
      · exact .inl rfl
    · show (endState q.config.alg_vt_enable q.state).awke = false
      unfold endState
      split <;> rfl
  · cases h
    exact .inl ⟨rfl, rfl⟩

/-! ### The word -/

omit [CFloat F] in
/-- The word the unit has is of this type. -/
def hasType (p : SirenProcessorImpl F E) (t : Int) : Bool :=
  match p.m_pMem_vbv3.m_pWordInfo with
  | some word => word.iWordType == t
  | none => false

omit [CFloat F] in
theorem wordTypeIs_eq_ok {p : SirenProcessorImpl F E} {b r : Bool} {t : Int}
    (h : p.wordTypeIs b t = .ok r) : r = (b && p.hasType t) := by
  unfold wordTypeIs at h
  unfold hasType
  cases b with
  | false =>
    cases h
    rfl
  | true =>
    rw [if_pos rfl] at h
    split at h
    · cases h
    · next word hword =>
      cases h
      rw [hword]
      rfl

/-- What `process` derives from a result and the type of the word. -/
def flagsOf (c : Call) (rt : VbvResult) (type : Int → Bool) : WordFlags :=
  let pre := rt.R2_VT_WORD_PRE && !rt.R2_VT_WORD_CANCEL
  { pre := pre
    awakePre := (c.awakeflag == 1 && pre) && type WORD_AWAKE
    awakeNoCmd := (c.awakeflag == 1 && rt.R2_VT_WORD_DET_NOCMD) && type WORD_AWAKE
    awakeCmd := (c.awakeflag == 1 && rt.R2_VT_WORD_DET_CMD) && type WORD_AWAKE
    sleepNoCmd := (c.sleepflag == 1 && rt.R2_VT_WORD_DET_NOCMD) && type WORD_SLEEP
    sleepCmd := (c.sleepflag == 1 && rt.R2_VT_WORD_DET_CMD) && type WORD_SLEEP
    hotwordNoCmd := (c.hotwordflag == 1 && rt.R2_VT_WORD_DET_NOCMD) && type WORD_HOTWORD
    hotwordCmd := (c.hotwordflag == 1 && rt.R2_VT_WORD_DET_CMD) && type WORD_HOTWORD }

omit [CFloat F] in
theorem wakeWord_flags {p p' : SirenProcessorImpl F E} {c : Call} {n : Nat} {w : WordFlags}
    (h : p.wakeWord c n = .ok (p', w)) : ∃ u rt, p.callVbv c n = .ok (u, rt) ∧
      p' = { p with m_pMem_vbv3 := u } ∧
        (rt.R2_VT_WORD_CANCEL = true → rt.R2_VT_WORD_PRE = true) ∧ w = flagsOf c rt p'.hasType := by
  unfold wakeWord at h
  obtain ⟨⟨u, rt⟩, hu, h⟩ := bind_eq_ok.mp h
  obtain ⟨_, hassert, h⟩ := bind_eq_ok.mp h
  obtain ⟨awakePre, h₁, h⟩ := bind_eq_ok.mp h
  obtain ⟨awakeNoCmd, h₂, h⟩ := bind_eq_ok.mp h
  obtain ⟨awakeCmd, h₃, h⟩ := bind_eq_ok.mp h
  obtain ⟨sleepNoCmd, h₄, h⟩ := bind_eq_ok.mp h
  obtain ⟨sleepCmd, h₅, h⟩ := bind_eq_ok.mp h
  obtain ⟨hotwordNoCmd, h₆, h⟩ := bind_eq_ok.mp h
  obtain ⟨hotwordCmd, h₇, h⟩ := bind_eq_ok.mp h
  cases h
  refine ⟨u, rt, hu, rfl, ?_, ?_⟩
  · have hassert := assertThat_eq_ok.mp hassert
    simpa [or_iff_not_imp_left] using hassert
  · rw [wordTypeIs_eq_ok h₁, wordTypeIs_eq_ok h₂, wordTypeIs_eq_ok h₃, wordTypeIs_eq_ok h₄,
      wordTypeIs_eq_ok h₅, wordTypeIs_eq_ok h₆, wordTypeIs_eq_ok h₇]
    rfl

/-! ### A call -/

omit [CFloat F] in
/-- A pre event that is announced starts the speech. -/
theorem pre_of_awakePre {p p' : SirenProcessorImpl F E} {c : Call} {n : Nat} {w : WordFlags}
    (h : p.wakeWord c n = .ok (p', w)) (hpre : w.awakePre = true) : w.pre = true := by
  obtain ⟨u, rt, _, _, _, hw⟩ := wakeWord_flags h
  rw [hw] at hpre ⊢
  simp only [flagsOf, Bool.and_eq_true] at hpre ⊢
  exact hpre.1.2

omit [CFloat F] in
/-- A sleep word is heard only with a sleep flag. -/
theorem sleepflag_of_sleepNoCmd {p p' : SirenProcessorImpl F E} {c : Call} {n : Nat}
    {w : WordFlags} (h : p.wakeWord c n = .ok (p', w)) (hsleep : w.sleepNoCmd = true) :
    c.sleepflag = 1 := by
  obtain ⟨u, rt, _, _, _, hw⟩ := wakeWord_flags h
  rw [hw] at hsleep
  simp only [flagsOf, Bool.and_eq_true, beq_iff_eq] at hsleep
  exact hsleep.1.1

omit [CFloat F] in
/-- A word is not both. -/
theorem awakeCmd_of_sleepNoCmd {p p' : SirenProcessorImpl F E} {c : Call} {n : Nat}
    {w : WordFlags} (h : p.wakeWord c n = .ok (p', w)) (hsleep : w.sleepNoCmd = true) :
    w.awakeCmd = false := by
  obtain ⟨u, rt, _, _, _, hw⟩ := wakeWord_flags h
  rw [hw] at hsleep ⊢
  simp only [flagsOf, Bool.and_eq_true, Bool.and_eq_false_iff] at hsleep ⊢
  right
  have hsleep := hsleep.2
  unfold hasType at hsleep ⊢
  split
  · next word hword =>
    rw [hword] at hsleep
    have htype : word.iWordType = WORD_SLEEP := eq_of_beq hsleep
    rw [htype]
    decide
  · rfl

/-- In front of the word there is at most the CANCEL of `resetASR`. -/
theorem front_ids {p : SirenProcessorImpl F E} {c : Call} (st : Stages p c) :
    st.p₅.ids = [] ∨ st.p₅.ids = [.r2ad_vad_cancel] := by
  have hempty : st.p₃.ids = [] := by
    unfold ids
    rw [(wakeWord_kept st.wakeWord).msgs, (beamform_kept st.beamform).msgs,
      (readInput_output st.readInput).2]
    rfl
  have hlast : st.p₅.ids = (if st.w.pre then st.p₃.resetASR else st.p₃).ids := by
    unfold ids
    rw [(runVad_output st.runVad).2, (onPre_kept st.onPre).msgs]
  rw [hlast]
  split
  · unfold resetASR
    dsimp only
    split
    · right
      show (st.p₃.addMsg .r2ad_vad_cancel []).ids = _
      rw [ids_addMsg, hempty]
      rfl
    · exact .inl hempty
  · exact .inl hempty

/-- In front of the segment are the messages about the word. -/
theorem last_ids {p : SirenProcessorImpl F E} {c : Call} (st : Stages p c) :
    st.last.ids = st.p₅.ids ++ (st.w.wakeIds ++ st.w.wordIds) := by
  obtain ⟨_, _, hvalid⟩ := begin_ctl st false false false false
  have hbegin : st.w.awakePre = true → st.vad2.audio_begin = true := by
    intro hpre
    have hforced := hvalid.forced (pre_of_awakePre st.wakeWord hpre)
    have hforced : st.vad2 = ⟨true, false⟩ := hforced
    rw [hforced]
  unfold Stages.last
  rw [onWord_ids, onBegin_ids st.onBegin hbegin, List.append_assoc]

/-- The messages of a call: `front` is the CANCEL of a segment cut off, `back` is about
    the segment there is, and `stop` is its END. -/
structure InOrder (p p' : SirenProcessorImpl F E) (c : Call) (w : WordFlags)
    (front back stop : List R2adMsg) : Prop where
  ids : p'.ids = front ++ (w.wakeIds ++ (w.wordIds ++ (back ++ stop)))
  cut : front = [] ∨ front = [.r2ad_vad_cancel]
  speech : ∀ m ∈ back, m ∈ speechIds
  ends : stop = [] ∨ stop = [.r2ad_vad_end]
  /-- Data go out with an asr flag, or in the session of a wake word. -/
  data : .r2ad_vad_data ∈ back →
    w.awakePre = true ∨ p.state.awke = true ∨ (c.asrflag == 1) = true
  /-- The session of a wake word goes on until the end of speech. -/
  awke : p'.state.awke = true → stop = [] ∧ (w.awakePre = true ∨ p.state.awke = true)

theorem process_order {p p' : SirenProcessorImpl F E} {c : Call} (h : p.process c = .ok p') :
    ∃ (st : Stages p c) (front back stop : List R2adMsg), InOrder p p' c st.w front back stop := by
  obtain ⟨st, p₇, hstart, hend⟩ := process_eq_ok h
  obtain ⟨hctl, _, _⟩ := begin_ctl st false false false false
  have hlast := last_ids st
  -- before `if (state.vadStart)` the session is that of the word, or the one there was
  have hawke : st.last.state.awke = true → st.w.awakePre = true ∨ p.state.awke = true := by
    intro hlastAwke
    have hlastAwke : st.last.ctl.awke = true := hlastAwke
    rw [hctl] at hlastAwke
    simp only [Ctl.begin, Ctl.onBegin] at hlastAwke
    split at hlastAwke
    · exact .inl hlastAwke
    · right
      simp only [Ctl.runVad, Ctl.onPre] at hlastAwke
      split at hlastAwke
      · cases hlastAwke
      · exact hlastAwke
  obtain ⟨hawke₇, back, hback, hkinds, hdata⟩ := onVadStart_ids hstart
  rw [hlast] at hback
  refine ⟨st, st.p₅.ids, back, ?_⟩
  have hdata' : .r2ad_vad_data ∈ back →
      st.w.awakePre = true ∨ p.state.awke = true ∨ (c.asrflag == 1) = true := by
    intro hmem
    rcases hdata hmem with hopen | hasr
    · exact (hawke hopen).imp id .inl
    · exact .inr (.inr hasr)
  rcases onEnd_ids hend with ⟨hids, hsame⟩ | ⟨hids | hids, hclosed⟩
  · refine ⟨[], ?_, front_ids st, hkinds, .inl rfl, hdata', fun hopen => ⟨rfl, hawke ?_⟩⟩
    · rw [hids, hback, List.append_nil, List.append_assoc, List.append_assoc]
    · rwa [hsame, hawke₇] at hopen
  · refine ⟨[], ?_, front_ids st, hkinds, .inl rfl, hdata', fun hopen => ?_⟩
    · rw [hids, hback, List.append_nil, List.append_assoc, List.append_assoc]
    · rw [hclosed] at hopen
      cases hopen
  · refine ⟨[.r2ad_vad_end], ?_, front_ids st, hkinds, .inr rfl, hdata', fun hopen => ?_⟩
    · rw [hids, hback]
      simp only [List.append_assoc]
    · rw [hclosed] at hopen
      cases hopen

theorem mem_wordMsgs_of_ids {w : WordFlags} {front back stop : List R2adMsg} {m : R2adMsg}
    (hm : m ∈ wordMsgs) (hcut : front = [] ∨ front = [.r2ad_vad_cancel])
    (hspeech : ∀ m ∈ back, m ∈ speechIds) (hends : stop = [] ∨ stop = [.r2ad_vad_end]) :
    m ∈ front ++ (w.wakeIds ++ (w.wordIds ++ (back ++ stop))) ↔ m ∈ w.wordIds := by
  have hother : ∀ l : List R2adMsg, (∀ k ∈ l, k ∉ wordMsgs) → m ∉ l :=
    fun l hl hmem => hl m hmem hm
  have hfront : m ∉ front := hother _ (by rcases hcut with rfl | rfl <;> decide)
  have hwake : m ∉ w.wakeIds := by
    refine hother _ ?_
    unfold WordFlags.wakeIds
    split <;> decide
  have hback : m ∉ back := by
    refine hother _ fun k hk => ?_
    have hnone : ∀ k ∈ speechIds, k ∉ wordMsgs := by decide
    exact hnone k (hspeech k hk)
  have hstop : m ∉ stop := hother _ (by rcases hends with rfl | rfl <;> decide)
  simp only [List.mem_append, hfront, hwake, hback, hstop, false_or, or_false]

omit [CFloat F] in
theorem InOrder.mem_word {p p' : SirenProcessorImpl F E} {c : Call} {w : WordFlags}
    {front back stop : List R2adMsg} (h : InOrder p p' c w front back stop) {m : R2adMsg}
    (hm : m ∈ wordMsgs) : m ∈ p'.ids ↔ m ∈ w.wordIds := by
  rw [h.ids]
  exact mem_wordMsgs_of_ids hm h.cut h.speech h.ends

end SirenProcessorImpl

namespace WordFlags

theorem mem_wordIds_sleep (w : WordFlags) : .r2ad_sleep ∈ w.wordIds ↔ w.sleepNoCmd = true := by
  unfold wordIds
  cases w.sleepNoCmd <;> cases w.awakeNoCmd <;> cases w.hotwordNoCmd <;> cases w.awakeCmd <;> decide

theorem mem_wordIds_awakeCmd (w : WordFlags) :
    .r2ad_awake_cmd ∈ w.wordIds ↔ w.awakeCmd = true := by
  unfold wordIds
  cases w.sleepNoCmd <;> cases w.awakeNoCmd <;> cases w.hotwordNoCmd <;> cases w.awakeCmd <;> decide

end WordFlags

end BlackSiren

import BlackSiren.Service.Listening

/-! # How wake words are reported

    A wake word is announced by WAKE_PRE with VOICE_PRINT right behind it.  Later
    comes WAKE_CMD or WAKE_NOCMD, once, or nothing if the word is given up.  Events of
    segments and SLEEP come in between; the other events never come.  `Herald` is this
    as an observer of the log.

    The processor knows of an announced word as long as `m_bPre` of the unit is set
    and its word is a wake word.  Which is so at the start only if the constructor of
    the unit has left `m_bPre` set.  The log does not say that a word has been given up,
    the unit does: the next one is announced only if `m_bPre` is clear, or in a frame
    that builds a new unit.

    - `process_heard`: what a call does to the unit, and the flags of its word
    - `Heralds`: the observer beside the thread
    - `announced_anew`: when a wake word is announced
    - `wake_words_announced`: every log keeps to it
-/

open LTS Sessions

namespace BlackSiren

/-! ### The unit in a call -/

namespace VbvMembers

variable {F : Type}

/-- The word there is has this type. -/
def hasType (m : VbvMembers F) (t : Int) : Bool :=
  match m.m_pWordInfo with
  | some word => word.iWordType == t
  | none => false

/-- A wake word has been heard and not been decided on. -/
def Pending (m : VbvMembers F) : Prop := m.m_bPre = true ∧ m.hasType WORD_AWAKE = true

/-- A result without a pre event is about the word there was. -/
theorem hear_hasType {m m' : VbvMembers F} {rt : VbvResult} {info : DetInfo F}
    (h : m.hear rt info = some m') (hpre : rt.R2_VT_WORD_PRE = false) (hbPre : m.m_bPre = true)
    (t : Int) : m'.hasType t = m.hasType t := by
  unfold hear at h
  obtain ⟨isOpen, _, rfl⟩ := Option.map_eq_some_iff.mp h
  unfold hasType
  simp only [hpre, hbPre, Bool.false_eq_true, if_false, if_true]

end VbvMembers

namespace VbvResult

/-- A word is decided on if it is open or opened, and is open no more. -/
theorem decided {rt : VbvResult} {isOpen isOpen' : Bool}
    (h : exec Sessions.next isOpen rt.marks = some isOpen')
    (hdet : rt.R2_VT_WORD_DET_CMD = true ∨ rt.R2_VT_WORD_DET_NOCMD = true) :
    (rt.R2_VT_WORD_PRE = true ∨ isOpen = true) ∧ rt.R2_VT_WORD_CANCEL = false ∧
      isOpen' = false ∧ (rt.R2_VT_WORD_DET_CMD && rt.R2_VT_WORD_DET_NOCMD) = false := by
  obtain ⟨pre, det, cancel, cmd, nocmd⟩ := rt
  refine ⟨?_, ?_, ?_, ?_⟩
  all_goals
    revert pre det cancel cmd nocmd isOpen isOpen'
    decide

/-- A word that is open behind a result has been opened in it or was open, and not
    been given up. -/
theorem stays_open {rt : VbvResult} {isOpen : Bool}
    (h : exec Sessions.next isOpen rt.marks = some true) :
    (rt.R2_VT_WORD_PRE = true ∨ isOpen = true) ∧ rt.R2_VT_WORD_CANCEL = false ∧
      rt.R2_VT_WORD_DET_CMD = false ∧ rt.R2_VT_WORD_DET_NOCMD = false := by
  obtain ⟨pre, det, cancel, cmd, nocmd⟩ := rt
  refine ⟨?_, ?_, ?_, ?_⟩
  all_goals
    revert pre det cancel cmd nocmd isOpen
    decide

/-- A word is opened only if none is open. -/
theorem opens {rt : VbvResult} {isOpen isOpen' : Bool}
    (h : exec Sessions.next isOpen rt.marks = some isOpen') (hpre : rt.R2_VT_WORD_PRE = true) :
    isOpen = false := by
  obtain ⟨pre, det, cancel, cmd, nocmd⟩ := rt
  revert pre det cancel cmd nocmd isOpen isOpen'
  decide

end VbvResult

namespace SirenProcessorImpl

variable {F : Type} {E : Engines F}

theorem hasType_eq (p : SirenProcessorImpl F E) (t : Int) :
    p.hasType t = p.m_pMem_vbv3.members.hasType t := rfl

theorem callVbv_hear {q : SirenProcessorImpl F E} {c : Call} {n : Nat}
    {u : R2memVbv3 F E.vbv} {rt : VbvResult} (h : q.callVbv c n = .ok (u, rt)) :
    ∃ info, q.m_pMem_vbv3.members.hear rt info = some u.members := by
  unfold callVbv at h
  obtain ⟨hnd, rt', hanswer⟩ : ∃ hnd rt', q.m_pMem_vbv3.answer q.m_pMem_in.m_pData_Out n
      q.state.dataOutput (c.aecflag == 1) = (hnd, rt') := ⟨_, _, rfl⟩
  rw [R2memVbv3.Process_eq _ _ _ _ _ hanswer] at h
  split at h
  · next m hm =>
    cases h
    exact ⟨_, hm⟩
  · cases h

variable [CFloat F]

/-- A call hears a result with the unit there was, or with a new one if it drops a
    microphone, and its flags are those of the result and of the word behind it. -/
theorem process_heard {p p' : SirenProcessorImpl F E} {c : Call} (h : p.process c = .ok p')
    (st : Stages p c) : ∃ (m : VbvMembers F) (rt : VbvResult) (info : DetInfo F),
      (m = p.m_pMem_vbv3.members ∨ p.fixErrorMicReturn c = some true ∧
        ∃ q : SirenProcessorImpl F E, m = q.newVbv.members) ∧
        m.hear rt info = some p'.m_pMem_vbv3.members ∧
        st.w = flagsOf c rt p'.m_pMem_vbv3.members.hasType := by
  obtain ⟨q, n, u, rt, hargs, hu, hmembers⟩ := process_unit h
  have hargs' : p.wordArgs c = .ok (st.p₂, st.len_mul) :=
    bind_eq_ok.mpr ⟨_, st.readInput, bind_eq_ok.mpr ⟨_, st.beamform, rfl⟩⟩
  rw [hargs] at hargs'
  obtain ⟨rfl, rfl⟩ := Prod.mk.inj (Except.ok.inj hargs')
  obtain ⟨u', rt', hu', hp₃, -, hw⟩ := wakeWord_flags st.wakeWord
  rw [hu] at hu'
  obtain ⟨rfl, rfl⟩ := Prod.mk.inj (Except.ok.inj hu')
  obtain ⟨info, hhear⟩ := callVbv_hear hu
  refine ⟨_, rt, info, ?_, hmembers ▸ hhear, ?_⟩
  · rw [beamform_unit st.beamform, readInput_unit st.readInput]
    split
    · next hreturn => exact .inr ⟨hreturn, _, rfl⟩
    · exact .inl rfl
  · rw [hw, hp₃]
    have htype : ∀ t, SirenProcessorImpl.hasType { st.p₂ with m_pMem_vbv3 := u } t =
        p'.m_pMem_vbv3.members.hasType t := fun t => by rw [hmembers, hasType_eq]
    exact congrArg _ (funext htype)

end SirenProcessorImpl

/-! ### The observer -/

def SIREN_EVENT_VAD_START : BitVec 32 := 100

def SIREN_EVENT_VAD_CANCEL : BitVec 32 := 103

def SIREN_EVENT_WAKE_NOCMD : BitVec 32 := 108

def SIREN_EVENT_VOICE_PRINT : BitVec 32 := 114

/-- What has been said of the latest wake word. -/
inductive Herald where
  /-- It has been decided on, or there was none. -/
  | quiet
  /-- Its WAKE_PRE has come, and nothing else. -/
  | announcing
  | announced
  deriving DecidableEq

namespace Herald

def onEvent : Herald → BitVec 32 → Option Herald
  | .announcing, event => if event = SIREN_EVENT_VOICE_PRINT then some .announced else none
  | h, event =>
      if event = SIREN_EVENT_WAKE_PRE then some .announcing
      else if event = SIREN_EVENT_WAKE_CMD ∨ event = SIREN_EVENT_WAKE_NOCMD then
        if h = .announced then some .quiet else none
      else if event ∈ [SIREN_EVENT_VAD_START, SIREN_EVENT_VAD_DATA, SIREN_EVENT_VAD_END,
          SIREN_EVENT_VAD_CANCEL, SIREN_EVENT_SLEEP] then some h
      else none

def next (h : Herald) : Entry → Option Herald
  | .event e => h.onEvent e.event
  | _ => if h = .announcing then none else some h

theorem exec_next_events (h : Herald) (result : List ProcessedVoiceResult) :
    exec next h (result.map fun r => .event r.event) =
      exec onEvent h (result.map (·.event.event)) := by
  induction result generalizing h with
  | nil => rfl
  | cons r result ih => exact congrArg (Option.bind _) (funext ih)

/-- Events about segments do not matter. -/
theorem exec_speech {h : Herald} (hh : h ≠ .announcing) {ids : List R2adMsg}
    (hids : ∀ m ∈ ids, m.isVad = true) : exec onEvent h (ids.map R2adMsg.value) = some h := by
  refine exec_eq_self fun event hevent => ?_
  obtain ⟨m, hm, rfl⟩ := List.mem_map.mp hevent
  have hm := hids m hm
  cases h with
  | announcing => exact absurd rfl hh
  | quiet => cases m <;> first | rfl | cases hm
  | announced => cases m <;> first | rfl | cases hm

/-- Behind the messages of `onBegin`. -/
def wake (h : Herald) (w : WordFlags) : Herald := if w.awakePre then .announced else h

/-- Behind those of `onWord`. -/
def word (h : Herald) (w : WordFlags) : Herald :=
  if w.awakeNoCmd || w.awakeCmd then .quiet else h

theorem exec_wakeIds {h : Herald} (hh : h ≠ .announcing) (w : WordFlags) :
    exec onEvent h (w.wakeIds.map R2adMsg.value) = some (h.wake w) := by
  unfold WordFlags.wakeIds wake
  cases h with
  | announcing => exact absurd rfl hh
  | quiet => cases w.awakePre <;> rfl
  | announced => cases w.awakePre <;> rfl

theorem exec_wordIds {h : Herald} {w : WordFlags} (hh : h ≠ .announcing)
    (hdecided : w.awakeNoCmd = true ∨ w.awakeCmd = true → h = .announced)
    (honce : (w.awakeCmd && w.awakeNoCmd) = false) (hhotword : w.hotwordNoCmd = false) :
    exec onEvent h (w.wordIds.map R2adMsg.value) = some (h.word w) := by
  unfold WordFlags.wordIds word
  rw [hhotword]
  generalize w.awakeNoCmd = noCmd at hdecided honce ⊢
  generalize w.awakeCmd = cmd at hdecided honce ⊢
  generalize w.sleepNoCmd = sleep
  clear hhotword
  cases h with
  | announcing => exact absurd rfl hh
  | quiet =>
    clear hh
    revert noCmd cmd sleep
    decide
  | announced =>
    clear hh
    revert noCmd cmd sleep
    decide

end Herald

/-! ### The thread -/

section

variable {F : Type} {E : Engines F}

/-- A wake word that the processor has not decided on has been announced. -/
structure Heralds (s : ProcessThread F E) (h : Herald) : Prop where
  between : h ≠ .announcing
  pending : s.audioProcessor.pImpl.m_pMem_vbv3.members.Pending → h = .announced

variable [CFloat F]

omit [CFloat F] in
theorem setState_unit (p : SirenProcessorImpl F E) (state : R2vSysState) :
    (p.setState state).m_pMem_vbv3 = p.m_pMem_vbv3 := by
  unfold SirenProcessorImpl.setState
  split <;> rfl

/-- The unit behind a frame is that of the call. -/
theorem ProcessThread.Frame.unit {s s' : ProcessThread F E} {c : Call}
    {p : SirenProcessorImpl F E} {result : List ProcessedVoiceResult} (h : Frame s s' c p result) :
    s'.audioProcessor.pImpl.m_pMem_vbv3 = p.m_pMem_vbv3 := by
  rw [h.after]
  split
  · exact setState_unit _ _
  · rfl

omit [CFloat F] in
theorem WordFlags.awake_pre_notMem (w : WordFlags) : .r2ad_awake_pre ∉ w.wordIds := by
  unfold wordIds
  split <;> split <;> split <;> split <;> decide

/-- WAKE_PRE is said of a word that begins. -/
theorem ProcessThread.Frame.awakePre {s s' : ProcessThread F E} {c : Call}
    {p : SirenProcessorImpl F E} {result : List ProcessedVoiceResult} (h : Frame s s' c p result)
    {w : WordFlags} {front back stop : List R2adMsg}
    (horder : SirenProcessorImpl.InOrder s.audioProcessor.pImpl p c w front back stop)
    {e : VoiceEvent} (he : .event e ∈ Entry.frame :: result.map fun r => .event r.event)
    (hevent : e.event = SIREN_EVENT_WAKE_PRE) : w.awakePre = true := by
  have hids : SIREN_EVENT_WAKE_PRE ∈ p.ids.map R2adMsg.value := by
    obtain ⟨r, hr, hre⟩ := List.mem_map.mp ((List.mem_cons.mp he).resolve_left Entry.noConfusion)
    rw [← h.events, ← hevent, ← Entry.event.inj hre]
    exact List.mem_map_of_mem hr
  obtain ⟨id, hid, hvalue⟩ := List.mem_map.mp hids
  obtain rfl : id = .r2ad_awake_pre := by
    revert hvalue
    cases id <;> decide
  rw [horder.ids] at hid
  simp only [List.mem_append] at hid
  rcases hid with hid | hid | hid | hid | hid
  · rcases horder.cut with rfl | rfl <;> exact absurd hid (by decide)
  · unfold WordFlags.wakeIds at hid
    split at hid
    · assumption
    · cases hid
  · exact absurd hid w.awake_pre_notMem
  · exact absurd (horder.speech _ hid) (by decide)
  · rcases horder.ends with rfl | rfl <;> exact absurd hid (by decide)

/-- A wake word is announced if the unit has none undecided, or if it is a new one. -/
theorem ProcessThread.Frame.announced_anew {s s' : ProcessThread F E} {aec : Int} {size : Nat}
    {data : Nat → UInt8} {p : SirenProcessorImpl F E} {result : List ProcessedVoiceResult}
    (h : Frame s s' (s.audioProcessor.call aec size data) p result) {e : VoiceEvent}
    (he : .event e ∈ Entry.frame :: result.map fun r => .event r.event)
    (hevent : e.event = SIREN_EVENT_WAKE_PRE) :
    s.audioProcessor.pImpl.m_pMem_vbv3.members.m_bPre = false ∨
      s.audioProcessor.pImpl.fixErrorMicReturn (s.audioProcessor.call aec size data) =
        some true := by
  obtain ⟨st, front, back, stop, horder⟩ := SirenProcessorImpl.process_order h.call
  obtain ⟨m, rt, info, hm, hhear, hw⟩ := SirenProcessorImpl.process_heard h.call st
  have hpre : rt.R2_VT_WORD_PRE = true := by
    have hflag : st.w.awakePre = ((rt.R2_VT_WORD_PRE && !rt.R2_VT_WORD_CANCEL) &&
        p.m_pMem_vbv3.members.hasType WORD_AWAKE) := by
      rw [hw]
      rfl
    rw [h.awakePre horder he hevent] at hflag
    exact (Bool.and_eq_true_iff.mp (Bool.and_eq_true_iff.mp hflag.symm).1).1
  obtain ⟨isOpen, hmarks, -⟩ := Option.map_eq_some_iff.mp hhear
  have hclear : m.m_bPre = false := VbvResult.opens hmarks hpre
  rcases hm with rfl | ⟨hreturn, -⟩
  · exact .inl hclear
  · exact .inr hreturn

theorem ProcessThread.Frame.heralds (hunit : ∀ q : SirenProcessorImpl F E,
    q.newVbv.members.m_bPre = false) {s s' : ProcessThread F E} {o : Herald} {aec : Int}
    {size : Nat} {data : Nat → UInt8} {p : SirenProcessorImpl F E}
    {result : List ProcessedVoiceResult}
    (h : Frame s s' (s.audioProcessor.call aec size data) p result) (ho : Heralds s o) :
    ∃ es o', s'.log = s.log ++ es ∧ exec Herald.next o es = some o' ∧ Heralds s' o' := by
  obtain ⟨st, front, back, stop, horder⟩ := SirenProcessorImpl.process_order h.call
  obtain ⟨m, rt, info, hm, hhear, hw⟩ := SirenProcessorImpl.process_heard h.call st
  generalize st.w = w at horder hw
  generalize hu : p.m_pMem_vbv3.members = u at hhear hw
  have hpre : w.awakePre =
      ((rt.R2_VT_WORD_PRE && !rt.R2_VT_WORD_CANCEL) && u.hasType WORD_AWAKE) := by
    rw [hw]
    rfl
  have hnoCmd : w.awakeNoCmd = (rt.R2_VT_WORD_DET_NOCMD && u.hasType WORD_AWAKE) := by
    rw [hw]
    rfl
  have hcmd : w.awakeCmd = (rt.R2_VT_WORD_DET_CMD && u.hasType WORD_AWAKE) := by
    rw [hw]
    rfl
  have hhotword : w.hotwordNoCmd = false := by
    rw [hw]
    rfl
  obtain ⟨isOpen, hmarks, hu'⟩ := Option.map_eq_some_iff.mp hhear
  have hisOpen : u.m_bPre = isOpen := by
    rw [← hu']
  -- a wake word that was there has been announced
  have hthere : rt.R2_VT_WORD_PRE = false → m.m_bPre = true → u.hasType WORD_AWAKE = true →
      o = .announced := by
    intro hnopre hbPre htype
    rcases hm with rfl | ⟨-, q, rfl⟩
    · exact ho.pending ⟨hbPre, (VbvMembers.hear_hasType hhear hnopre hbPre _).symm.trans htype⟩
    · rw [hunit q] at hbPre
      cases hbPre
  -- so is one that comes now
  have hnow : rt.R2_VT_WORD_PRE = true ∨ m.m_bPre = true → rt.R2_VT_WORD_CANCEL = false →
      u.hasType WORD_AWAKE = true → o.wake w = .announced := by
    intro hopen hcancel htype
    unfold Herald.wake
    cases hp : rt.R2_VT_WORD_PRE with
    | true =>
      rw [hpre, hp, hcancel, htype]
      rfl
    | false =>
      rw [hpre, hp]
      refine hthere hp (hopen.resolve_left ?_) htype
      rw [hp]
      exact Bool.false_ne_true
  have hdecided : w.awakeNoCmd = true ∨ w.awakeCmd = true → o.wake w = .announced := by
    rw [hnoCmd, hcmd, Bool.and_eq_true, Bool.and_eq_true]
    intro hdet
    have htype : u.hasType WORD_AWAKE = true := hdet.elim And.right And.right
    obtain ⟨hopen, hcancel, -, -⟩ := VbvResult.decided hmarks (hdet.symm.imp And.left And.left)
    exact hnow hopen hcancel htype
  have honce : (w.awakeCmd && w.awakeNoCmd) = false := by
    by_contra hboth
    rw [Bool.not_eq_false, hcmd, hnoCmd] at hboth
    simp only [Bool.and_eq_true] at hboth
    have hdet := (VbvResult.decided hmarks (.inl hboth.1.1)).2.2.2
    rw [hboth.1.1, hboth.2.1] at hdet
    cases hdet
  have hwake : o.wake w ≠ .announcing := by
    unfold Herald.wake
    split
    · decide
    · exact ho.between
  have hword : (o.wake w).word w ≠ .announcing := by
    unfold Herald.word
    split
    · decide
    · exact hwake
  have hspeech : ∀ k ∈ SirenProcessorImpl.speechIds, k.isVad = true := by decide
  refine ⟨_, (o.wake w).word w, h.log, ?_, hword, ?_⟩
  · refine exec_cons_eq_some.mpr ⟨o, if_neg ho.between, ?_⟩
    rw [Herald.exec_next_events, h.events, horder.ids]
    simp only [List.map_append, exec_append]
    rw [Herald.exec_speech ho.between (by rcases horder.cut with rfl | rfl <;> decide),
      Option.bind_some, Herald.exec_wakeIds ho.between, Option.bind_some,
      Herald.exec_wordIds hwake hdecided honce hhotword, Option.bind_some,
      Herald.exec_speech hword fun k hk => hspeech k (horder.speech k hk), Option.bind_some]
    exact Herald.exec_speech hword (by rcases horder.ends with rfl | rfl <;> decide)
  · rw [h.unit, hu]
    rintro ⟨hbPre, htype⟩
    rw [hisOpen] at hbPre
    rw [hbPre] at hmarks
    obtain ⟨hopen, hcancel, hnotCmd, hnotNoCmd⟩ := VbvResult.stays_open hmarks
    unfold Herald.word
    rw [hnoCmd, hcmd, hnotCmd, hnotNoCmd]
    exact hnow hopen hcancel htype

namespace ProcessThread

theorem next_heralds (hunit : ∀ q : SirenProcessorImpl F E, q.newVbv.members.m_bPre = false)
    {s s' : ProcessThread F E} {o : Herald} {pkg : VoicePackage F × ResultEnv}
    (ho : Heralds s o) (h : s.next pkg = some s') :
    ∃ es o', s'.log = s.log ++ es ∧ exec Herald.next o es = some o' ∧ Heralds s' o' := by
  -- the unit is left alone by everything but a frame
  have hstays : ∀ e : Entry, Herald.next o e = some o → s'.log = s.log ++ [e] →
      s'.audioProcessor.pImpl.m_pMem_vbv3.members = s.audioProcessor.pImpl.m_pMem_vbv3.members →
        ∃ es o', s'.log = s.log ++ es ∧ exec Herald.next o es = some o' ∧ Heralds s' o' := by
    intro e he hlog hmembers
    exact ⟨[e], o, hlog, exec_cons_eq_some.mpr ⟨o, he, rfl⟩, ho.between, hmembers ▸ ho.pending⟩
  have hsilent : s'.log = s.log →
      s'.audioProcessor.pImpl.m_pMem_vbv3.members = s.audioProcessor.pImpl.m_pMem_vbv3.members →
        ∃ es o', s'.log = s.log ++ es ∧ exec Herald.next o es = some o' ∧ Heralds s' o' := by
    intro hlog hmembers
    exact ⟨[], o, by rw [hlog, List.append_nil], rfl, ho.between, hmembers ▸ ho.pending⟩
  cases step_cases h with
  | empty hprocessor hlog =>
    exact hstays .frame (if_neg ho.between) hlog (by rw [hprocessor])
  | frame aec size data p result hsize hframe => exact hframe.heralds hunit ho
  | setState state hprocessor hlog =>
    refine hstays (.setState state) (if_neg ho.between) hlog ?_
    rw [hprocessor]
    exact congrArg _ (setState_unit _ _)
  | setSteer ho ver hprocessor hlog => exact hsilent hlog (by rw [hprocessor]; rfl)
  | syncVTWord vt_words p hsync hprocessor hlog =>
    refine hsilent hlog ?_
    rw [hprocessor]
    obtain ⟨_, _, _, _, rfl⟩ := SirenProcessorImpl.syncVTWord_eq_ok hsync
    rfl
  | same hprocessor hlog => exact hsilent hlog (by rw [hprocessor])

/-- The frame of this package drops a microphone, and with it comes a new unit. -/
def Rebuilds (s : ProcessThread F E) : VoicePackage F → Prop
  | .dataProcess aec size data =>
      s.audioProcessor.pImpl.fixErrorMicReturn (s.audioProcessor.call aec size data) = some true
  | _ => False

theorem next_announced {s s' : ProcessThread F E} {pkg : VoicePackage F} {env : ResultEnv}
    (h : s.next (pkg, env) = some s') {es : List Entry} (hlog : s'.log = s.log ++ es)
    {e : VoiceEvent} (he : .event e ∈ es) (hevent : e.event = SIREN_EVENT_WAKE_PRE) :
    s.audioProcessor.pImpl.m_pMem_vbv3.members.m_bPre = false ∨ s.Rebuilds pkg := by
  have h := next_eq_some h
  -- other packages have no events
  have hother : ∀ es' : List Entry, s'.log = s.log ++ es' → .event e ∈ es' := by
    intro es' hes'
    rwa [← List.append_cancel_left (hlog.symm.trans hes')]
  cases pkg with
  | dataProcess aec size data =>
    rcases handle_dataProcess h with ⟨-, hempty⟩ | ⟨-, p, result, hframe⟩
    · exact absurd (hother _ hempty) (by simp)
    · exact hframe.announced_anew (hother _ hframe.log) hevent
  | setState state =>
    cases h
    exact absurd (hother _ rfl) (by simp)
  | setSteer ho ver =>
    cases h
    exact absurd (hother [] (List.append_nil _).symm) (by simp)
  | syncVTWordList msg =>
    simp only [handle] at h
    split at h
    · cases h
    · split at h
      · obtain ⟨p, _, h⟩ := bind_eq_ok.mp h
        cases h
        exact absurd (hother [] (List.append_nil _).symm) (by simp)
      · cases h
        exact absurd (hother [] (List.append_nil _).symm) (by simp)
  | destroy =>
    cases h
    exact absurd (hother [] (List.append_nil _).symm) (by simp)

/-- Whatever packages the thread takes and whatever the engine reports: as long as the
    constructor of the unit leaves `m_bPre` clear, wake words are announced before they
    are decided on, and decided on once.  The unit has an undecided wake word only if it
    is the last one announced; and a step announces the next only if the unit has none,
    or a new unit takes its place. -/
theorem wake_words_announced (hunit : ∀ h : E.vbv.State, (E.vbv.unassigned h).m_bPre = false)
    {cfg : SirenConfig F} {s : ProcessThread F E} (h : Reachable (system E cfg) s) :
    (∃ o, exec Herald.next .quiet s.log = some o ∧
      (s.audioProcessor.pImpl.m_pMem_vbv3.members.Pending → o = .announced)) ∧
    ∀ (pkg : VoicePackage F) (env : ResultEnv) (s' : ProcessThread F E) (es : List Entry)
      (e : VoiceEvent), s.next (pkg, env) = some s' → s'.log = s.log ++ es → .event e ∈ es →
        e.event = SIREN_EVENT_WAKE_PRE →
          s.audioProcessor.pImpl.m_pMem_vbv3.members.m_bPre = false ∨ s.Rebuilds pkg := by
  have hnew : ∀ q : SirenProcessorImpl F E, q.newVbv.members.m_bPre = false := fun q => hunit _
  have hobserves : Observes (system E cfg) (·.log) Herald.next .quiet Heralds := by
    refine ⟨?_, fun _ _ _ _ _ ho hstep => next_heralds hnew ho hstep⟩
    rintro s ⟨hinit, -, hlog, -⟩
    refine ⟨hlog, by decide, ?_⟩
    rintro ⟨hbPre, -⟩
    rw [Run.init_unit (s := ⟨s.audioProcessor.pImpl, [], 0⟩) ⟨hinit, rfl, rfl⟩, hnew] at hbPre
    cases hbPre
  obtain ⟨o, ho, hheralds⟩ := hobserves.accepts h
  exact ⟨⟨o, ho, hheralds.pending⟩, fun _ _ _ _ _ hstep hlog he hevent =>
    next_announced hstep hlog he hevent⟩

/-- A word with a command keeps to it. -/
theorem wake_words_announced_cmd : ∃ s : ProcessThread ℚ wakeWordCmd,
    script wakeWordCmd (smallConfig true true) [onePackage, onePackage] = some s ∧
      (events s.log).map (·.event) = [SIREN_EVENT_WAKE_PRE, SIREN_EVENT_VOICE_PRINT,
        SIREN_EVENT_WAKE_CMD, SIREN_EVENT_VAD_START, SIREN_EVENT_VAD_DATA] ∧
      (∃ o, exec Herald.next .quiet s.log = some o ∧
        (s.audioProcessor.pImpl.m_pMem_vbv3.members.Pending → o = .announced)) := by
  have hrun : (script wakeWordCmd (smallConfig true true) [onePackage, onePackage]).map
      (fun s => (events s.log).map (·.event)) = some [SIREN_EVENT_WAKE_PRE, SIREN_EVENT_VOICE_PRINT,
        SIREN_EVENT_WAKE_CMD, SIREN_EVENT_VAD_START, SIREN_EVENT_VAD_DATA] := by
    decide +kernel
  obtain ⟨s, hs, hlog⟩ := Option.map_eq_some_iff.mp hrun
  exact ⟨s, hs, hlog, (wake_words_announced (fun _ => rfl) (script_reachable hs)).1⟩

end ProcessThread

end

end BlackSiren

import BlackSiren.Channel.Delivery
import BlackSiren.Processor.Produced
import BlackSiren.Service.VoiceResult

/-! # From the messages of a frame to voice events

    `SirenAudioVBVProcessor::process` turns each message of a frame into a
    result.  It clears the length of messages about the source location, copies
    the data of voice messages, and replaces those of a debug message by the wake
    word.  A message of another kind keeps its length but loses its data:
    `r2ad_vad_start`, `r2ad_sleep` and `r2ad_hotword` come with a text, and their
    events have a length and no `buff`.

    - `process`, `voiceEvents`: the results and the events of a frame
    - `Agrees`: length, flag and buffer of an event fit together
    - `voice_events_agree`: they do exactly if no such message is in the frame

    Left out: the system state that the processor keeps, and the recording of
    results to files.
-/

open LTS

namespace BlackSiren

/-! ### Messages -/

/-- `r2ad_msg` as numbers; `siren_event_t` has the same ones. -/
def R2adMsg.value : R2adMsg → BitVec 32
  | .r2ad_vad_start => 100
  | .r2ad_vad_data => 101
  | .r2ad_vad_end => 102
  | .r2ad_vad_cancel => 103
  | .r2ad_awake_vad_start => 104
  | .r2ad_awake_vad_data => 105
  | .r2ad_awake_vad_end => 106
  | .r2ad_awake_pre => 107
  | .r2ad_awake_nocmd => 108
  | .r2ad_awake_cmd => 109
  | .r2ad_awake_cancel => 110
  | .r2ad_sleep => 111
  | .r2ad_hotword => 112
  | .r2ad_sr => 113
  | .r2ad_debug_audio => 114
  | .r2ad_dirty => 115

/-- `hasSlInfo` -/
def hasSlInfo : R2adMsg → Bool
  | .r2ad_awake_pre | .r2ad_awake_nocmd | .r2ad_awake_cmd | .r2ad_awake_cancel => true
  | _ => false

/-- `hasVoice` -/
def hasVoice : R2adMsg → Bool
  | .r2ad_vad_data | .r2ad_awake_vad_data | .r2ad_debug_audio => true
  | _ => false

/-- `hasVTInfo` -/
def hasVTInfo : R2adMsg → Bool
  | .r2ad_debug_audio => true
  | _ => false

/-- `vt_word`, `start`, `end` and `vt_energy`, which stay from one message to
    the next. -/
structure VTInfo (F : Type) where
  vt_word : List UInt8
  start : Int
  stop : Int
  vt_energy : F

/-- What the results are made of besides the messages: the addresses that `new`
    gives, the numbers `atof` reads, and the energies of the last frame. -/
structure ResultEnv where
  temp : Nat → BitVec 64
  atof : List UInt8 → BitVec 64
  lastFrameEnergy : BitVec 64
  lastFrameThreshold : BitVec 64

namespace SirenProcessorImpl

variable {F : Type} [CFloat F] {E : Engines F}

omit [CFloat F] in
/-- `getVTInfo`; `none` is the result -1. -/
def getVTInfo (p : SirenProcessorImpl F E) : Except Fault (Option (VTInfo F)) :=
  match p.m_pMem_vbv3.m_pWordInfo with
  | none => .ok none
  | some word =>
      match p.m_pMem_vbv3.m_pWordDetInfo with
      | none => .error .nullWord
      | some det =>
          let start : Int := 20 * frmSize
          .ok (some {
            vt_word := cstr word.pWordContent_UTF8
            start := start
            stop := start + det.iWordPos_Start - det.iWordPos_End
            vt_energy := det.fEnergy })

end SirenProcessorImpl

/-! ### `SirenAudioVBVProcessor::process` -/

namespace SirenAudioVBVProcessor

open ProcessedVoiceResult (allocateProcessedVoiceResult)

variable {F : Type} [CFloat F] {E : Engines F}

omit [CFloat F] in
/-- The block of `hasSlInfo`: `len`, `hasSL` and `sl`. -/
def slPart (env : ResultEnv) (m : R2adMsgBlock) : Nat × Bool × BitVec 64 :=
  let len := m.pMsgData.length
  if len ≠ 0 ∧ hasSlInfo m.iMsgId then (0, true, env.atof m.pMsgData) else (len, false, 0)

/-- The block of `hasVTInfo`: `len`, `hasVT` and the word. -/
def vtPart (pImpl : SirenProcessorImpl F E) (vt : VTInfo F) (m : R2adMsgBlock) (len : Nat) :
    Except Fault (Nat × Bool × VTInfo F) :=
  if hasVTInfo m.iMsgId then do
    match ← pImpl.getVTInfo with
    | some info => return (0, true, info)
    | none => return (len, false, vt)
  else .ok (len, false, vt)

/-- The result that `len` and the flags give. -/
def makeResult (env : ResultEnv) (vt : VTInfo F) (i : Nat) (m : R2adMsgBlock) (len : Nat)
    (hasSL hasVT : Bool) (sl : BitVec 64) : Except Fault ProcessedVoiceResult :=
  let allocate := fun (len : Nat) (hasV : Bool) (energy threshold : BitVec 64) =>
    allocateProcessedVoiceResult (env.temp i) len 0 m.iMsgId.value (BitVec.ofInt 32 vt.start)
      (BitVec.ofInt 32 vt.stop) hasSL hasV hasVT sl energy threshold (CFloat.bits vt.vt_energy)
  if len ≠ 0 ∧ hasVoice m.iMsgId then do
    let r ← allocate len true env.lastFrameEnergy env.lastFrameThreshold
    r.memcpy (m.pMsgData.take len)
  else if hasVT then do
    -- the word with its NUL
    let len := vt.vt_word.length + 1
    let r ← allocate len false env.lastFrameEnergy env.lastFrameThreshold
    r.memcpy ((vt.vt_word ++ [0]).take len)
  else allocate len false 0 0

/-- The result of the `i`-th message. -/
def processMsg (pImpl : SirenProcessorImpl F E) (env : ResultEnv) (vt : VTInfo F) (i : Nat)
    (m : R2adMsgBlock) : Except Fault (VTInfo F × ProcessedVoiceResult) := do
  let (len, hasSL, sl) := slPart env m
  let (len, hasVT, vt) ← vtPart pImpl vt m len
  let r ← makeResult env vt i m len hasSL hasVT sl
  return (vt, r)

/-- The loop over the messages, from the `i`-th on. -/
def processMsgs (pImpl : SirenProcessorImpl F E) (env : ResultEnv) :
    VTInfo F → Nat → List R2adMsgBlock → Except Fault (List ProcessedVoiceResult)
  | _, _, [] => .ok []
  | vt, i, m :: ms => do
      let (vt, r) ← processMsg pImpl env vt i m
      let rs ← processMsgs pImpl env vt (i + 1) ms
      return r :: rs

/-- `process` after `getMsgs`. -/
def process (pImpl : SirenProcessorImpl F E) (env : ResultEnv) (msgs : List R2adMsgBlock) :
    Except Fault (List ProcessedVoiceResult) :=
  processMsgs pImpl env ⟨[], 0, 0, CFloat.ofInt 0⟩ 0 msgs

/-- The arguments of `voice_event_callback` for the messages of a frame: the
    base writes one message for each result, and the proxy reads them in order
    (`results_arrive`). -/
def voiceEvents (pImpl : SirenProcessorImpl F E) (env : ResultEnv) (msgs : List R2adMsgBlock) :
    Except Fault (List VoiceEvent) := do
  let voiceResult ← process pImpl env msgs
  let events ← (voiceResult.map ProcessedVoiceResult.message).mapM responseThread
  return events.reduceOption

/-! ### The result of a message -/

/-- The four ways a message becomes a result. -/
inductive ResultOf (pImpl : SirenProcessorImpl F E) (m : R2adMsgBlock)
    (r : ProcessedVoiceResult) : Prop where
  | sl (hkind : hasSlInfo m.iMsgId = true) (hflag : r.hasSL = 1) (hbytes : r.bytes = [])
  | voice (hkind : hasVoice m.iMsgId = true) (hnot : r.hasSL = 0) (hflag : r.hasVoice = 1)
      (hbytes : r.bytes = m.pMsgData)
  | vt (info : VTInfo F) (hinfo : pImpl.getVTInfo = .ok (some info))
      (hkind : hasVoice m.iMsgId = true) (hnot : r.hasSL = 0) (hnot' : r.hasVoice = 0)
      (hflag : r.hasVT = 1) (hbytes : r.bytes = info.vt_word ++ [0])
  /-- The length stays and the data does not. -/
  | rest (hkind : m.pMsgData ≠ [] → hasSlInfo m.iMsgId = false ∧ hasVoice m.iMsgId = false)
      (hnot : r.hasSL = 0) (hnot' : r.hasVoice = 0) (hnot'' : r.hasVT = 0)
      (hlength : r.bytes.length = m.pMsgData.length)

/-- The outcomes of `makeResult`. -/
theorem makeResult_eq_ok {env : ResultEnv} {vt : VTInfo F} {i : Nat} {m : R2adMsgBlock} {len : Nat}
    {hasSL hasVT : Bool} {sl : BitVec 64} {r : ProcessedVoiceResult}
    (hlen : len ≤ m.pMsgData.length) (h : makeResult env vt i m len hasSL hasVT sl = .ok r) :
    r.prop = m.iMsgId.value ∧ r.hasSL = flag hasSL ∧
      (len ≠ 0 ∧ hasVoice m.iMsgId = true ∧ r.hasVoice = 1 ∧ r.bytes = m.pMsgData.take len ∨
        ¬ (len ≠ 0 ∧ hasVoice m.iMsgId = true) ∧ hasVT = true ∧ r.hasVoice = 0 ∧ r.hasVT = 1 ∧
          r.bytes = vt.vt_word ++ [0] ∨
        ¬ (len ≠ 0 ∧ hasVoice m.iMsgId = true) ∧ hasVT = false ∧ r.hasVoice = 0 ∧ r.hasVT = 0 ∧
          r.bytes.length = len) := by
  simp only [makeResult] at h
  by_cases hv : len ≠ 0 ∧ hasVoice m.iMsgId = true
  · -- voice data: `memcpy` fills what was allocated
    rw [if_pos hv] at h
    obtain ⟨r₀, halloc, h⟩ := bind_eq_ok.mp h
    obtain ⟨hprop, hsl, hvoice, -, hlength⟩ := ProcessedVoiceResult.allocate_eq_ok halloc
    obtain ⟨hmembers, hbytes⟩ := ProcessedVoiceResult.memcpy_eq_ok h (by
      rw [hlength, List.length_take_of_le hlen])
    rw [hmembers]
    exact ⟨hprop, hsl, .inl ⟨hv.1, hv.2, hvoice, hbytes⟩⟩
  · rw [if_neg hv] at h
    cases hvt : hasVT with
    | true =>
      -- the word with its terminator
      rw [hvt, if_pos rfl] at h
      obtain ⟨r₀, halloc, h⟩ := bind_eq_ok.mp h
      obtain ⟨hprop, hsl, hvoice, hword, hlength⟩ := ProcessedVoiceResult.allocate_eq_ok halloc
      have htake : (vt.vt_word ++ [0]).take (vt.vt_word.length + 1) = vt.vt_word ++ [0] :=
        List.take_of_length_le (by simp)
      rw [htake] at h
      obtain ⟨hmembers, hbytes⟩ := ProcessedVoiceResult.memcpy_eq_ok h (by
        rw [hlength, List.length_append, List.length_singleton])
      rw [hmembers]
      exact ⟨hprop, hsl, .inr (.inl ⟨hv, rfl, hvoice, hword, hbytes⟩)⟩
    | false =>
      rw [hvt] at h
      obtain ⟨hprop, hsl, hvoice, hword, hlength⟩ := ProcessedVoiceResult.allocate_eq_ok h
      exact ⟨hprop, hsl, .inr (.inr ⟨hv, rfl, hvoice, hword, hlength⟩)⟩

/-- No message is about the source location and has a voice or a word too. -/
theorem hasVTInfo_hasVoice {id : R2adMsg} (h : hasVTInfo id = true) : hasVoice id = true := by
  cases id <;> first | rfl | cases h

theorem hasSlInfo_hasVTInfo {id : R2adMsg} (h : hasSlInfo id = true) : hasVTInfo id = false := by
  cases id <;> first | rfl | cases h

omit [CFloat F] in
/-- The word is given, and with it `len` cleared, only for a debug message. -/
theorem vtPart_eq_ok {pImpl : SirenProcessorImpl F E} {vt vt' : VTInfo F} {m : R2adMsgBlock}
    {len len' : Nat} {hasVT : Bool} (h : vtPart pImpl vt m len = .ok (len', hasVT, vt')) :
    hasVTInfo m.iMsgId = true ∧ pImpl.getVTInfo = .ok (some vt') ∧ len' = 0 ∧ hasVT = true ∨
      len' = len ∧ hasVT = false := by
  unfold vtPart at h
  split at h
  · next hkind =>
    obtain ⟨info, hinfo, h⟩ := bind_eq_ok.mp h
    cases info with
    | some info =>
      cases h
      exact .inl ⟨hkind, hinfo, rfl, rfl⟩
    | none =>
      cases h
      exact .inr ⟨rfl, rfl⟩
  · cases h
    exact .inr ⟨rfl, rfl⟩

theorem processMsg_resultOf {pImpl : SirenProcessorImpl F E} {env : ResultEnv} {vt vt' : VTInfo F}
    {i : Nat} {m : R2adMsgBlock} {r : ProcessedVoiceResult}
    (h : processMsg pImpl env vt i m = .ok (vt', r)) :
    r.prop = m.iMsgId.value ∧ ResultOf pImpl m r := by
  unfold processMsg slPart at h
  by_cases hsl : m.pMsgData.length ≠ 0 ∧ hasSlInfo m.iMsgId = true
  · rw [if_pos hsl] at h
    obtain ⟨⟨len, hasVT, vt₁⟩, hvt, h⟩ := bind_eq_ok.mp h
    obtain ⟨r', hmake, h⟩ := bind_eq_ok.mp h
    cases h
    have hnot := hasSlInfo_hasVTInfo hsl.2
    rcases vtPart_eq_ok hvt with ⟨hkind, -⟩ | ⟨rfl, rfl⟩
    · rw [hnot] at hkind
      cases hkind
    · -- the length has been cleared, and nothing sets it again
      obtain ⟨hprop, hflag, hcases⟩ := makeResult_eq_ok (Nat.zero_le _) hmake
      rcases hcases with ⟨hlen, -⟩ | ⟨-, hword, -⟩ | ⟨-, -, -, -, hlength⟩
      · exact absurd rfl hlen
      · cases hword
      · exact ⟨hprop, .sl hsl.2 hflag (List.length_eq_zero_iff.mp hlength)⟩
  · rw [if_neg hsl] at h
    obtain ⟨⟨len, hasVT, vt₁⟩, hvt, h⟩ := bind_eq_ok.mp h
    obtain ⟨r', hmake, h⟩ := bind_eq_ok.mp h
    cases h
    rcases vtPart_eq_ok hvt with ⟨hkind, hinfo, rfl, rfl⟩ | ⟨rfl, rfl⟩
    · obtain ⟨hprop, hflag, hcases⟩ := makeResult_eq_ok (Nat.zero_le _) hmake
      refine ⟨hprop, ?_⟩
      rcases hcases with ⟨hlen, -⟩ | ⟨-, -, hvoice, hword, hbytes⟩ | ⟨-, hword, -⟩
      · exact absurd rfl hlen
      · exact .vt _ hinfo (hasVTInfo_hasVoice hkind) hflag hvoice hword hbytes
      · cases hword
    · obtain ⟨hprop, hflag, hcases⟩ := makeResult_eq_ok (Nat.le_refl _) hmake
      refine ⟨hprop, ?_⟩
      rcases hcases with ⟨-, hkind, hvoice, hbytes⟩ | ⟨-, hword, -⟩ |
        ⟨hnone, -, hvoice, hword, hlength⟩
      · rw [List.take_length] at hbytes
        exact .voice hkind hflag hvoice hbytes
      · cases hword
      · refine .rest ?_ hflag hvoice hword hlength
        intro hdata
        have hlen : m.pMsgData.length ≠ 0 := by
          rwa [Ne, List.length_eq_zero_iff]
        exact ⟨eq_false_of_ne_true fun hkind => hsl ⟨hlen, hkind⟩,
          eq_false_of_ne_true fun hkind => hnone ⟨hlen, hkind⟩⟩

/-! ### The events of a frame -/

/-- An event with a length has that many bytes: the data of its message, or the
    wake word with its NUL. -/
def Agrees (pImpl : SirenProcessorImpl F E) (m : R2adMsgBlock) (e : VoiceEvent) : Prop :=
  e.length ≠ 0 → ∃ bytes, e.buff = .here bytes ∧ bytes.length = e.length.toNat ∧
    (e.flag = VOICE_MASK ∧ bytes = m.pMsgData ∨
      ∃ info, pImpl.getVTInfo = .ok (some info) ∧ e.flag = VT_MASK ∧ bytes = info.vt_word ++ [0])

omit [CFloat F] in
/-- A message whose data, if it has any, go somewhere. -/
def Covered (m : R2adMsgBlock) : Prop :=
  m.pMsgData ≠ [] → hasSlInfo m.iMsgId = true ∨ hasVoice m.iMsgId = true

omit [CFloat F] in
theorem agrees_iff {pImpl : SirenProcessorImpl F E} {m : R2adMsgBlock} {r : ProcessedVoiceResult}
    (h : ResultOf pImpl m r) : Agrees pImpl m r.event ↔ Covered m := by
  unfold Agrees
  rw [r.event_length]
  cases h with
  | sl hkind _ hbytes =>
    refine iff_of_true ?_ fun _ => .inl hkind
    intro hsize
    exact absurd (r.size_eq_zero_iff.mpr hbytes) hsize
  | voice hkind hnot hflag hbytes =>
    refine iff_of_true ?_ fun _ => .inr hkind
    intro hsize
    obtain ⟨hevent, hbuff⟩ := r.event_voice hnot hflag hsize
    exact ⟨r.bytes, hbuff, r.sized.symm, .inl ⟨hevent, hbytes⟩⟩
  | vt info hinfo hkind hnot hnot' hflag hbytes =>
    refine iff_of_true ?_ fun _ => .inr hkind
    intro hsize
    obtain ⟨hevent, hbuff⟩ := r.event_vt hnot hnot' hflag hsize
    exact ⟨r.bytes, hbuff, r.sized.symm, .inr ⟨info, hinfo, hevent, hbytes⟩⟩
  | rest hkind hnot hnot' hnot'' hlength =>
    have hempty : r.size = 0 ↔ m.pMsgData = [] := by
      rw [r.size_eq_zero_iff, ← List.length_eq_zero_iff, hlength, List.length_eq_zero_iff]
    by_cases hdata : m.pMsgData = []
    · refine iff_of_true ?_ fun h => absurd hdata h
      intro hsize
      exact absurd (hempty.mpr hdata) hsize
    · refine iff_of_false ?_ ?_
      · -- no flag is set, so the event gets no buffer
        intro hall
        obtain ⟨bytes, hbuff, -⟩ := hall fun hsize => hdata (hempty.mp hsize)
        rw [r.event_rest hnot hnot' hnot''] at hbuff
        cases hbuff
      · intro hcovered
        obtain ⟨hsl, hvoice⟩ := hkind hdata
        rcases hcovered hdata with hkind | hkind
        · rw [hsl] at hkind
          cases hkind
        · rw [hvoice] at hkind
          cases hkind

/-- One result for each message. -/
theorem processMsgs_forall₂ {pImpl : SirenProcessorImpl F E} {env : ResultEnv} {vt : VTInfo F}
    {i : Nat} {msgs : List R2adMsgBlock} {rs : List ProcessedVoiceResult}
    (h : processMsgs pImpl env vt i msgs = .ok rs) :
    List.Forall₂ (fun m r => r.prop = m.iMsgId.value ∧ ResultOf pImpl m r) msgs rs := by
  induction msgs generalizing vt i rs with
  | nil =>
    cases h
    exact .nil
  | cons m msgs ih =>
    unfold processMsgs at h
    obtain ⟨⟨vt', r⟩, hmsg, h⟩ := bind_eq_ok.mp h
    obtain ⟨rs', hrest, h⟩ := bind_eq_ok.mp h
    cases h
    exact .cons (processMsg_resultOf hmsg) (ih hrest)

/-- The response channel gives the messages of the results to the proxy as they
    were written, if it reads their headers whole. -/
theorem results_arrive {Pid : Type} {rs : List ProcessedVoiceResult}
    {script : List ReadEvent} (h : HeadersWhole (rs.map ProcessedVoiceResult.message) script)
    {w : Writers Pid} (hw : Reachable (Writers.system Pid) w) (hfree : w.holder = none)
    (hsent : w.sent.map Sent.m = rs.map ProcessedVoiceResult.message)
    (junk : Nat → Nat → UInt8) :
    pollAll rs.length junk script w.wire = rs.map fun r => .ok r.message := by
  have hall := (delivers_iff _ script).mpr h w.sent junk hsent
  rwa [← Writers.stream_eq hw hfree, List.length_map, List.map_map] at hall

/-- One event for each result. -/
theorem mapM_responseThread (rs : List ProcessedVoiceResult) :
    (rs.map ProcessedVoiceResult.message).mapM responseThread =
      .ok (rs.map fun r => some r.event) := by
  induction rs with
  | nil => rfl
  | cons r rs ih =>
    rw [List.map_cons, List.mapM_cons, responseThread_message, ih]
    rfl

theorem voiceEvents_eq_ok {pImpl : SirenProcessorImpl F E} {env : ResultEnv}
    {msgs : List R2adMsgBlock} {events : List VoiceEvent}
    (h : voiceEvents pImpl env msgs = .ok events) :
    ∃ rs, process pImpl env msgs = .ok rs ∧ events = rs.map ProcessedVoiceResult.event := by
  unfold voiceEvents at h
  obtain ⟨rs, hrs, h⟩ := bind_eq_ok.mp h
  rw [mapM_responseThread] at h
  cases h
  refine ⟨rs, hrs, ?_⟩
  show (rs.map fun r => some r.event).filterMap id = _
  rw [List.filterMap_map]
  exact congrFun List.filterMap_eq_map rs

theorem voiceEvents_forall₂ {pImpl : SirenProcessorImpl F E} {env : ResultEnv}
    {msgs : List R2adMsgBlock} {events : List VoiceEvent}
    (h : voiceEvents pImpl env msgs = .ok events) :
    List.Forall₂ (fun m e => e.event = m.iMsgId.value ∧ (Agrees pImpl m e ↔ Covered m))
      msgs events := by
  obtain ⟨rs, hrs, rfl⟩ := voiceEvents_eq_ok h
  rw [List.forall₂_map_right_iff]
  refine (processMsgs_forall₂ hrs).imp ?_
  rintro m r ⟨hprop, hresult⟩
  exact ⟨r.event_event.trans hprop, agrees_iff hresult⟩

/-! ### Calls that return -/

/-- A length that fits, with the members, in an `int`. -/
def Fits (len : Nat) : Prop := sizeofProcessedVoiceResult + len < 2 ^ 31

theorem makeResult_ok (env : ResultEnv) {vt : VTInfo F} (i : Nat) (m : R2adMsgBlock) {len : Nat}
    (hasSL hasVT : Bool) (sl : BitVec 64) (hlen : Fits len)
    (hword : hasVT = true → Fits (vt.vt_word.length + 1)) :
    ∃ r, makeResult env vt i m len hasSL hasVT sl = .ok r := by
  simp only [makeResult]
  split
  · obtain ⟨r, hr, hlength⟩ := ProcessedVoiceResult.allocate_ok (env.temp i) 0 m.iMsgId.value
      (BitVec.ofInt 32 vt.start) (BitVec.ofInt 32 vt.stop) hasSL true hasVT sl env.lastFrameEnergy
      env.lastFrameThreshold (CFloat.bits vt.vt_energy) hlen
    rw [hr]
    -- the copy is no longer than the allocation
    refine ProcessedVoiceResult.memcpy_ok ?_
    rw [hlength]
    exact List.length_take_le _ _
  · split
    · next hvt =>
      obtain ⟨r, hr, hlength⟩ := ProcessedVoiceResult.allocate_ok (env.temp i) 0 m.iMsgId.value
        (BitVec.ofInt 32 vt.start) (BitVec.ofInt 32 vt.stop) hasSL false hasVT sl
        env.lastFrameEnergy env.lastFrameThreshold (CFloat.bits vt.vt_energy) (hword hvt)
      rw [hr]
      refine ProcessedVoiceResult.memcpy_ok ?_
      rw [hlength]
      exact List.length_take_le _ _
    · obtain ⟨r, hr, -⟩ := ProcessedVoiceResult.allocate_ok (env.temp i) 0 m.iMsgId.value
        (BitVec.ofInt 32 vt.start) (BitVec.ofInt 32 vt.stop) hasSL false hasVT sl 0 0
        (CFloat.bits vt.vt_energy) hlen
      exact ⟨r, hr⟩

theorem processMsg_ok {pImpl : SirenProcessorImpl F E} (env : ResultEnv) (vt : VTInfo F) (i : Nat)
    {m : R2adMsgBlock} {info : Option (VTInfo F)} (hinfo : pImpl.getVTInfo = .ok info)
    (hword : ∀ word ∈ info, Fits (word.vt_word.length + 1)) (hm : Fits m.pMsgData.length) :
    ∃ r, processMsg pImpl env vt i m = .ok r := by
  have hzero : Fits 0 := by
    unfold Fits
    decide
  -- the word part clears the length or leaves it
  have hvt : ∀ len, Fits len → ∃ len' hasVT vt', vtPart pImpl vt m len = .ok (len', hasVT, vt') ∧
      Fits len' ∧ (hasVT = true → Fits (vt'.vt_word.length + 1)) := by
    intro len hlen
    unfold vtPart
    split
    · rw [hinfo]
      cases info with
      | none => exact ⟨len, false, vt, rfl, hlen, fun h => by cases h⟩
      | some word => exact ⟨0, true, word, rfl, hzero, fun _ => hword word rfl⟩
    · exact ⟨len, false, vt, rfl, hlen, fun h => by cases h⟩
  have hsl : Fits (slPart env m).1 := by
    simp only [slPart]
    split
    · exact hzero
    · exact hm
  obtain ⟨len', hasVT, vt', hpart, hlen', hword'⟩ := hvt _ hsl
  obtain ⟨r, hr⟩ := makeResult_ok env i m (slPart env m).2.1 hasVT (slPart env m).2.2 hlen' hword'
  refine ⟨(vt', r), ?_⟩
  unfold processMsg
  simp only [hpart, hr, bind, Except.bind]
  rfl

/-- The events come out if the lengths fit in an `int` and a wake word has its
    detection beside it. -/
theorem voiceEvents_ok {pImpl : SirenProcessorImpl F E} (env : ResultEnv)
    {msgs : List R2adMsgBlock} {info : Option (VTInfo F)} (hinfo : pImpl.getVTInfo = .ok info)
    (hword : ∀ word ∈ info, Fits (word.vt_word.length + 1))
    (hmsgs : ∀ m ∈ msgs, Fits m.pMsgData.length) :
    ∃ events, voiceEvents pImpl env msgs = .ok events := by
  have hall : ∀ vt i, ∃ rs, processMsgs pImpl env vt i msgs = .ok rs := by
    induction msgs with
    | nil => exact fun _ _ => ⟨[], rfl⟩
    | cons m msgs ih =>
      intro vt i
      rw [List.forall_mem_cons] at hmsgs
      obtain ⟨⟨vt', r⟩, hr⟩ := processMsg_ok env vt i hinfo hword hmsgs.1
      obtain ⟨rs, hrs⟩ := ih hmsgs.2 vt' (i + 1)
      refine ⟨r :: rs, ?_⟩
      simp only [processMsgs, hr, hrs, bind, Except.bind]
      rfl
  obtain ⟨rs, hrs⟩ := hall ⟨[], 0, 0, CFloat.ofInt 0⟩ 0
  refine ⟨(rs.map fun r => some r.event).reduceOption, ?_⟩
  simp only [voiceEvents, process, hrs, mapM_responseThread, bind, Except.bind]
  rfl

/-! ### The messages of the processor -/

/-- The messages that come with a text which is not taken out of them. -/
def textLeft : List R2adMsg := [.r2ad_vad_start, .r2ad_sleep, .r2ad_hotword]

theorem covered_iff {m : R2adMsgBlock} (h : Produced m) : Covered m ↔ m.iMsgId ∉ textLeft := by
  cases h with
  | text hid hdata =>
    simp only [textMsgs, List.mem_cons, List.not_mem_nil, or_false] at hid
    unfold Covered
    rw [imp_iff_right hdata]
    show (_ ∨ _) ↔ _
    clear hdata
    rcases hid with rfl | rfl | rfl | rfl | rfl | rfl | rfl
    all_goals
      dsimp only
      decide
  | audio =>
    refine iff_of_true (fun _ => .inr rfl) ?_
    show R2adMsg.r2ad_vad_data ∉ textLeft
    decide
  | stop => exact iff_of_true (fun h => absurd rfl h) (by decide)
  | cancel => exact iff_of_true (fun h => absurd rfl h) (by decide)

/-- One event for each message, in order and with its id, and each with the
    bytes its length says. -/
structure Delivered (pImpl : SirenProcessorImpl F E) (msgs : List R2adMsgBlock)
    (events : List VoiceEvent) : Prop where
  ids : events.map (·.event) = msgs.map (·.iMsgId.value)
  agree : List.Forall₂ (Agrees pImpl) msgs events

theorem events_ids {pImpl : SirenProcessorImpl F E} {env : ResultEnv} {msgs : List R2adMsgBlock}
    {events : List VoiceEvent} (h : voiceEvents pImpl env msgs = .ok events) :
    events.map (·.event) = msgs.map (·.iMsgId.value) := by
  have hall := voiceEvents_forall₂ h
  clear h
  induction hall with
  | nil => rfl
  | cons hm _ ih => rw [List.map_cons, List.map_cons, hm.1, ih]

/-- On any messages: the events agree exactly if all messages are covered. -/
theorem delivered_iff_covered {pImpl : SirenProcessorImpl F E} {env : ResultEnv}
    {msgs : List R2adMsgBlock} {events : List VoiceEvent}
    (h : voiceEvents pImpl env msgs = .ok events) :
    Delivered pImpl msgs events ↔ ∀ m ∈ msgs, Covered m := by
  have hagree : List.Forall₂ (Agrees pImpl) msgs events ↔ ∀ m ∈ msgs, Covered m := by
    have hall := voiceEvents_forall₂ h
    clear h
    induction hall with
    | nil => simp
    | cons hm _ ih =>
      rw [List.forall₂_cons, List.forall_mem_cons]
      exact and_congr hm.2 ih
  rw [← hagree]
  exact ⟨Delivered.agree, fun hall => ⟨events_ids h, hall⟩⟩

/-- For the messages of any frame: the events are one for each message, in order
    and with its id; and they agree with the messages exactly if START, SLEEP and
    HOTWORD are not among them. -/
theorem voice_events_agree {p p' pImpl : SirenProcessorImpl F E} {c : Call}
    {msgs : List R2adMsgBlock} {errors : Nat} {env : ResultEnv} {events : List VoiceEvent}
    (hp : p.process c = .ok p') (hmsgs : p'.getMsgs = (pImpl, msgs, errors))
    (h : voiceEvents pImpl env msgs = .ok events) :
    events.map (·.event) = msgs.map (·.iMsgId.value) ∧
      (Delivered pImpl msgs events ↔ ∀ m ∈ msgs, m.iMsgId ∉ textLeft) := by
  refine ⟨events_ids h, ?_⟩
  rw [delivered_iff_covered h]
  have hmsgs' : msgs = p'.msgLst := by
    have hpair := congrArg (·.2.1) hmsgs
    exact hpair.symm
  rw [hmsgs']
  constructor
  · intro hall m hm
    exact (covered_iff (SirenProcessorImpl.process_produced hp m hm)).mp (hall m hm)
  · intro hall m hm
    exact (covered_iff (SirenProcessorImpl.process_produced hp m hm)).mpr (hall m hm)

end SirenAudioVBVProcessor

/-! ### A frame that begins a segment -/

section Scripted

open SirenAudioVBVProcessor

/-- Speech in the first frame, and `getinfo_sl` of a beamformer that has not
    been steered: `181.000000 0.000000`. -/
def unsteered : Engines ℚ :=
  { scripted [1] [] [] ⟨WORD_AWAKE, [], [], 0, 0, false, false, false, false, false, 0, none⟩ with
    slText := fun _ _ => [49, 56, 49, 46, 48, 48, 48, 48, 48, 48, 32, 48, 46, 48, 48, 48, 48, 48,
      48] }

/-- A frame of samples 1.0 with an asr flag. -/
def speechCall : Call where
  datain := fun i => if i % 4 = 2 then 0x80 else if i % 4 = 3 then 0x3f else 0
  lenin := 640
  aecflag := 0
  awakeflag := 1
  sleepflag := 1
  asrflag := 1
  hotwordflag := 0

def quietEnv : ResultEnv where
  temp := fun _ => 0x10000
  atof := fun _ => 0
  lastFrameEnergy := 0
  lastFrameThreshold := 0

/-- The frame gives a START and data; the event of the START is as long as its
    text and has no buffer. -/
theorem speech_frame : ∃ (s : Run ℚ unsteered) (p' pImpl : SirenProcessorImpl ℚ unsteered)
    (msgs : List R2adMsgBlock) (errors : Nat) (events : List VoiceEvent),
    Reachable (Run.runs unsteered (smallConfig true true)) s ∧ s.p.process speechCall = .ok p' ∧
      p'.getMsgs = (pImpl, msgs, errors) ∧ voiceEvents pImpl quietEnv msgs = .ok events ∧
      msgs.map (·.iMsgId) = [.r2ad_vad_start, .r2ad_vad_data] ∧
      events.map (fun e => (e.length, decide (e.buff = .null))) = [(20, true), (1280, false)] := by
  have hrun : ((Run.script unsteered (smallConfig true true) []).map fun s =>
      match s.p.process speechCall with
      | .error _ => none
      | .ok p' =>
          match voiceEvents p'.getMsgs.1 quietEnv p'.getMsgs.2.1 with
          | .error _ => none
          | .ok events => some (p'.getMsgs.2.1.map (·.iMsgId),
              events.map fun e => (e.length, decide (e.buff = .null)))) =
      some (some ([.r2ad_vad_start, .r2ad_vad_data], [(20, true), (1280, false)])) := by
    decide +kernel
  obtain ⟨s, hs, hframe⟩ := Option.map_eq_some_iff.mp hrun
  split at hframe
  · cases hframe
  · next p' hp =>
    split at hframe
    · cases hframe
    · next events hevents =>
      obtain ⟨hids, hshown⟩ := Prod.mk.inj (Option.some.inj hframe)
      exact ⟨s, p', p'.getMsgs.1, p'.getMsgs.2.1, p'.getMsgs.2.2, events, Run.script_reachable hs,
        hp, rfl, hevents, hids, hshown⟩

theorem voice_events_agree_speech : ∃ (pImpl : SirenProcessorImpl ℚ unsteered)
    (msgs : List R2adMsgBlock) (events : List VoiceEvent),
    msgs.map (·.iMsgId) = [.r2ad_vad_start, .r2ad_vad_data] ∧
      events.map (·.event) = msgs.map (·.iMsgId.value) ∧
      (Delivered pImpl msgs events ↔ ∀ m ∈ msgs, m.iMsgId ∉ textLeft) := by
  obtain ⟨s, p', pImpl, msgs, errors, events, -, hp, hmsgs, hevents, hids, -⟩ := speech_frame
  exact ⟨pImpl, msgs, events, hids, voice_events_agree hp hmsgs hevents⟩

/-- Not all frames of all runs are delivered like this. -/
theorem start_not_delivered :
    ¬ ∀ (F : Type) (_ : CFloat F) (E : Engines F) (cfg : SirenConfig F) (s : Run F E)
      (p' pImpl : SirenProcessorImpl F E) (c : Call) (msgs : List R2adMsgBlock) (errors : Nat)
      (env : ResultEnv) (events : List VoiceEvent), Reachable (Run.runs E cfg) s →
      s.p.process c = .ok p' → p'.getMsgs = (pImpl, msgs, errors) →
      voiceEvents pImpl env msgs = .ok events → Delivered pImpl msgs events := by
  intro hall
  obtain ⟨s, p', pImpl, msgs, errors, events, hs, hp, hmsgs, hevents, hids, hshown⟩ := speech_frame
  have hagree := (hall ℚ _ _ _ s p' pImpl _ msgs errors _ events hs hp hmsgs hevents).agree
  obtain ⟨e, rest, rfl, he, -⟩ := List.map_eq_cons_iff.mp hshown
  obtain ⟨m, ms, rfl, hm, -⟩ := List.map_eq_cons_iff.mp hids
  obtain ⟨hlength, hnull⟩ := Prod.mk.inj he
  have hlong : e.length ≠ 0 := by
    rw [hlength]
    decide
  obtain ⟨bytes, hbuff, -⟩ := (List.forall₂_cons.mp hagree).1 hlong
  rw [of_decide_eq_true hnull] at hbuff
  cases hbuff

end Scripted

end BlackSiren

import BlackSiren.Legacy.CodOutput
import BlackSiren.Processor.Run

/-! # What the messages of a frame carry

    A message carries a text with its NUL, encoded audio, or nothing, according
    to its kind.

    - `Produced`: the messages there are
    - `process_produced`: a frame gives no others
-/

open LTS

namespace BlackSiren

/-- The messages that come with a text. -/
def textMsgs : List R2adMsg :=
  [.r2ad_vad_start, .r2ad_awake_pre, .r2ad_awake_nocmd, .r2ad_awake_cmd, .r2ad_sleep,
    .r2ad_hotword, .r2ad_debug_audio]

/-- The messages of a frame. -/
inductive Produced : R2adMsgBlock → Prop where
  | text {id : R2adMsg} {data : List UInt8} (hid : id ∈ textMsgs) (hdata : data ≠ []) :
      Produced ⟨id, data⟩
  | audio {data : List UInt8} (hdata : data ≠ []) : Produced ⟨.r2ad_vad_data, data⟩
  | stop : Produced ⟨.r2ad_vad_end, []⟩
  | cancel : Produced ⟨.r2ad_vad_cancel, []⟩

namespace SirenProcessorImpl

variable {F : Type} {E : Engines F}

/-- All messages so far are such. -/
def AllProduced (p : SirenProcessorImpl F E) : Prop := ∀ m ∈ p.msgLst, Produced m

theorem AllProduced.of_eq {p p' : SirenProcessorImpl F E} (h : p.AllProduced)
    (hmsgs : p'.msgLst = p.msgLst) : p'.AllProduced := by
  unfold AllProduced
  rw [hmsgs]
  exact h

theorem AllProduced.addMsg {p : SirenProcessorImpl F E} {id : R2adMsg} {data : List UInt8}
    (h : p.AllProduced) (hm : Produced ⟨id, data⟩) : (p.addMsg id data).AllProduced := by
  intro m hm'
  rcases List.mem_append.mp hm' with hm' | hm'
  · exact h m hm'
  · rw [List.mem_singleton.mp hm']
    exact hm

theorem AllProduced.addMsgStr {p : SirenProcessorImpl F E} {id : R2adMsg} (h : p.AllProduced)
    (hid : id ∈ textMsgs) (sl : List UInt8) : (p.addMsgStr id sl).AllProduced :=
  h.addMsg (.text hid (by simp))

theorem AllProduced.addMsgSl {p : SirenProcessorImpl F E} {id : R2adMsg} (h : p.AllProduced)
    (hid : id ∈ textMsgs) : (p.addMsgSl id).AllProduced :=
  h.addMsgStr hid _

/-! ### The stages -/

variable [CFloat F]

theorem resetASR_produced {p : SirenProcessorImpl F E} (hp : p.AllProduced) :
    p.resetASR.AllProduced := by
  simp only [resetASR]
  split
  · exact hp.addMsg .cancel
  · exact hp

omit [CFloat F] in
theorem onBegin_produced {p p' : SirenProcessorImpl F E} {asr : Bool} {w : WordFlags}
    {vad2 : VadResult} (hp : p.AllProduced) (h : p.onBegin asr w vad2 = .ok p') :
    p'.AllProduced := by
  simp only [onBegin] at h
  split at h
  · split at h
    · split at h
      · cases h
      · cases h
        refine AllProduced.addMsgStr (AllProduced.addMsgSl ?_ (by decide)) (by decide) []
        exact hp
    · cases h
      exact hp
  · cases h
    exact hp

omit [CFloat F] in
theorem onWord_produced {p : SirenProcessorImpl F E} (hp : p.AllProduced) (w : WordFlags) :
    (p.onWord w).AllProduced := by
  have htext : ∀ m ∈ wordMsgs, m ∈ textMsgs := by decide
  apply onWord_rule (P := AllProduced) _ _ hp
  · intro q m hm hq
    exact hq.addMsgSl (htext m hm)
  · intro q n hq
    exact hq

omit [CFloat F] in
theorem decideStart_produced {p : SirenProcessorImpl F E} (hp : p.AllProduced) (w : WordFlags) :
    (p.decideStart w).AllProduced := by
  simp only [decideStart]
  split
  · exact hp
  · split
    · split
      · exact AllProduced.addMsgSl hp (by decide)
      · exact hp
    · split
      · refine AllProduced.addMsgSl ?_ (by decide)
        by_cases hvad : p.config.alg_vad_enable = true
        · simp only [hvad, if_true]
          exact hp
        · simp only [hvad]
          exact hp
      · exact hp

omit [CFloat F] in
theorem decideCancel_produced {p : SirenProcessorImpl F E} (hp : p.AllProduced) (asr : Bool) :
    (p.decideCancel asr).AllProduced := by
  simp only [decideCancel, cancelOutput]
  split
  · exact hp
  · split
    · split
      · exact AllProduced.addMsg hp .cancel
      · exact AllProduced.addMsg hp .cancel
    · exact hp

omit [CFloat F] in
theorem decideResume_produced {p p' : SirenProcessorImpl F E} (hp : p.AllProduced)
    (h : p.decideResume = .ok p') : p'.AllProduced := by
  simp only [decideResume] at h
  split at h
  · obtain ⟨cod, _, h⟩ := bind_eq_ok.mp h
    cases h
    exact AllProduced.addMsgSl hp (by decide)
  · cases h
    exact hp

theorem dataIfAbove_produced {p p' : SirenProcessorImpl F E} {k : Nat} (hp : p.AllProduced)
    (h : p.dataIfAbove k = .ok p') : p'.AllProduced := by
  simp only [dataIfAbove] at h
  obtain ⟨⟨n, cod⟩, hlen, h⟩ := bind_eq_ok.mp h
  split at h
  · next hn =>
    simp only [addMsgCod] at h
    obtain ⟨⟨data, cod'⟩, hdata, h⟩ := bind_eq_ok.mp h
    cases h
    have hsome := R2memCod.getdata2_ne_nil hlen (Nat.zero_lt_of_lt hn) hdata
    exact AllProduced.addMsg hp (.audio hsome)
  · cases h
    exact hp

theorem sendData_produced {p p' : SirenProcessorImpl F E} {vad2 : VadResult} (hp : p.AllProduced)
    (h : p.sendData vad2 = .ok p') : p'.AllProduced := by
  simp only [sendData] at h
  split at h
  · cases h
    exact hp
  · obtain ⟨p₁, hfirst, h⟩ := bind_eq_ok.mp h
    have hp₁ := dataIfAbove_produced hp hfirst
    split at h
    · exact dataIfAbove_produced hp₁ h
    · cases h
      exact hp₁

theorem onVadStart_produced {p p' : SirenProcessorImpl F E} {asr : Bool} {w : WordFlags}
    {out : List F} {vad2 : VadResult} (hp : p.AllProduced)
    (h : p.onVadStart asr w out vad2 = .ok p') : p'.AllProduced := by
  simp only [onVadStart] at h
  split at h
  · have hstart : (decideStart { p with m_pMem_cod := p.m_pMem_cod.process out } w).AllProduced :=
      decideStart_produced (p := { p with m_pMem_cod := p.m_pMem_cod.process out }) hp w
    generalize decideStart { p with m_pMem_cod := p.m_pMem_cod.process out } w = q at h hstart
    split at h
    · obtain ⟨p₁, hresume, h⟩ := bind_eq_ok.mp h
      exact sendData_produced (decideResume_produced (decideCancel_produced hstart asr) hresume) h
    · cases h
      exact hstart
  · cases h
    exact hp

omit [CFloat F] in
theorem restartCod_produced {p p' : SirenProcessorImpl F E} (hp : p.AllProduced)
    (h : p.restartCod = .ok p') : p'.AllProduced := by
  simp only [restartCod] at h
  split at h
  · obtain ⟨cod, _, h⟩ := bind_eq_ok.mp h
    cases h
    exact hp
  · cases h
    exact hp

omit [CFloat F] in
theorem onEnd_produced {p p' : SirenProcessorImpl F E} {vad2 : VadResult} (hp : p.AllProduced)
    (h : p.onEnd vad2 = .ok p') : p'.AllProduced := by
  simp only [onEnd] at h
  split at h
  · obtain ⟨q, hq, h⟩ := bind_eq_ok.mp h
    cases h
    refine AllProduced.of_eq (restartCod_produced ?_ hq) rfl
    split
    · exact hp.addMsg .stop
    · exact hp
  · cases h
    exact hp

/-- A frame gives no other messages. -/
theorem process_produced {p p' : SirenProcessorImpl F E} {c : Call} (h : p.process c = .ok p') :
    p'.AllProduced := by
  obtain ⟨st, p₇, hstart, hend⟩ := process_eq_ok h
  have hinput : st.p₃.AllProduced := by
    unfold AllProduced
    rw [(wakeWord_kept st.wakeWord).msgs, (beamform_kept st.beamform).msgs,
      (readInput_output st.readInput).2]
    simp
  have hpre : st.p₅.AllProduced := by
    refine AllProduced.of_eq ?_ ((runVad_output st.runVad).2.trans (onPre_kept st.onPre).msgs)
    split
    · exact resetASR_produced hinput
    · exact hinput
  have hlast := onWord_produced (onBegin_produced hpre st.onBegin) st.w
  exact onEnd_produced (onVadStart_produced hlast hstart) hend

end SirenProcessorImpl

end BlackSiren

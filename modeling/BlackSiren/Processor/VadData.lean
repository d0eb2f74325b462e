import BlackSiren.Legacy.CodOutput
import BlackSiren.Processor.EncoderPause
import BlackSiren.Processor.Messages
import Mathlib.Data.List.Induction

/-! # The data of a speech segment

    Audio goes into the encoder from the begin of speech on; whether and when it
    comes out again is decided by the wake words and flags of later frames.  A
    pause takes the reading position back to the beginning, so a segment that is
    opened late, or opened a second time, still starts with its first byte.

    - `payload`: the data of the segment that is open, or was last
    - `Carried`: the reading position and the flags belong together
    - `Trace`: a run with the audio the encoder has been given
    - `vad_data_prefix`: the data of a segment are a prefix of the encoder output
-/

open LTS

namespace BlackSiren

/-! ### The data in the stream -/

/-- One more message. -/
def payloadNext (data : List UInt8) (m : R2adMsgBlock) : List UInt8 :=
  match m.iMsgId with
  | .r2ad_vad_start => []
  | .r2ad_vad_data => data ++ m.pMsgData
  | _ => data

/-- The data since the last START. -/
def payload (msgs : List R2adMsgBlock) : List UInt8 := msgs.foldl payloadNext []

/-- The data of the messages. -/
def vadData (msgs : List R2adMsgBlock) : List UInt8 :=
  (msgs.filter fun m => m.iMsgId = .r2ad_vad_data).flatMap (·.pMsgData)

theorem payload_concat (msgs : List R2adMsgBlock) (m : R2adMsgBlock) :
    payload (msgs ++ [m]) = payloadNext (payload msgs) m := by
  simp [payload]

/-- Messages that are neither START nor DATA. -/
theorem payload_append {l : List R2adMsgBlock} (msgs : List R2adMsgBlock)
    (h : ∀ m ∈ l, m.iMsgId ≠ .r2ad_vad_start ∧ m.iMsgId ≠ .r2ad_vad_data) :
    payload (msgs ++ l) = payload msgs := by
  induction l using List.reverseRecOn with
  | nil => rw [List.append_nil]
  | append_singleton l m ih =>
    rw [← List.append_assoc, payload_concat, ih fun m' hm' => h m' (List.mem_append_left _ hm')]
    obtain ⟨hstart, hdata⟩ := h m (by simp)
    unfold payloadNext
    split
    · contradiction
    · contradiction
    · rfl

/-- The data of a segment, from its START on. -/
theorem payload_segment (before : List R2adMsgBlock) {start : R2adMsgBlock}
    (hstart : start.iMsgId = .r2ad_vad_start) {mid : List R2adMsgBlock}
    (hmid : ∀ m ∈ mid, m.iMsgId ≠ .r2ad_vad_start) :
    payload (before ++ start :: mid) = vadData mid := by
  induction mid using List.reverseRecOn with
  | nil =>
    rw [payload_concat, payloadNext, hstart]
    rfl
  | append_singleton mid m ih =>
    have hm := hmid m (by simp)
    have hrest := ih fun m' hm' => hmid m' (List.mem_append_left _ hm')
    rw [show before ++ start :: (mid ++ [m]) = before ++ start :: mid ++ [m] by simp,
      payload_concat, hrest]
    unfold payloadNext
    split
    · contradiction
    · next hdata => simp [vadData, hdata]
    · next hdata => simp [vadData, show m.iMsgId ≠ .r2ad_vad_data from hdata]

namespace SirenProcessorImpl

variable {F : Type} [CFloat F] {E : Engines F}

/-! ### The encoder up to the output stage -/

omit [CFloat F] in
theorem onBegin_cod {p p' : SirenProcessorImpl F E} {asr : Bool} {w : WordFlags}
    {vad2 : VadResult} (h : p.onBegin asr w vad2 = .ok p') :
    p'.m_pMem_cod = if vad2.audio_begin then p.m_pMem_cod.reset else p.m_pMem_cod := by
  simp only [onBegin] at h
  split at h
  · next hb =>
    rw [if_pos hb]
    split at h
    · split at h
      · cases h
      · cases h; rfl
    · cases h; rfl
  · next hb =>
    rw [if_neg hb]
    cases h
    rfl

omit [CFloat F] in
theorem onWord_cod (p : SirenProcessorImpl F E) (w : WordFlags) :
    (p.onWord w).m_pMem_cod = p.m_pMem_cod :=
  onWord_rule (P := fun q => q.m_pMem_cod = p.m_pMem_cod) (fun _ _ _ hq => hq) (fun _ _ hq => hq)
    rfl w

theorem last_cod {p : SirenProcessorImpl F E} {c : Call} (st : Stages p c) :
    st.last.m_pMem_cod =
      if st.vad2.audio_begin then (if st.w.pre then p.m_pMem_cod.reset else p.m_pMem_cod).reset
      else if st.w.pre then p.m_pMem_cod.reset else p.m_pMem_cod := by
  have hpre : st.p₄.m_pMem_cod = if st.w.pre then p.m_pMem_cod.reset else p.m_pMem_cod := by
    rw [(onPre_kept st.onPre).cod]
    have hinput : st.p₃.m_pMem_cod = p.m_pMem_cod := by
      rw [(wakeWord_kept st.wakeWord).cod, (beamform_kept st.beamform).cod,
        (readInput_output st.readInput).1]
    split
    · rw [resetASR_cod, hinput]
    · exact hinput
  unfold Stages.last
  rw [onWord_cod, onBegin_cod st.onBegin, (runVad_output st.runVad).1, hpre]

/-! ### The reading position -/

/-- The encoder has been given `heard`, and what it has handed out is the data
    of the open segment. While no segment is open it has handed out nothing. -/
structure Carried (iCodeType : R2codType) (heard : List F) (stream : List R2adMsgBlock)
    (p : SirenProcessorImpl F E) : Prop where
  iCodeType : p.m_pMem_cod.m_iCodeType = iCodeType
  synced : p.m_pMem_cod.Synced heard
  within : p.m_pMem_cod.m_iLen_Out_Cur ≤ p.m_pMem_cod.m_pData_Out.length
  fresh : p.state.vadStart = true → p.state.dataOutput = false → p.m_pMem_cod.m_iLen_Out_Cur = 0
  held : p.state.dataOutput = true → p.state.canceled = true → p.m_pMem_cod.m_iLen_Out_Cur = 0
  sent : p.state.dataOutput = true → p.state.canceled = false →
    payload stream = p.m_pMem_cod.m_pData_Out.take p.m_pMem_cod.m_iLen_Out_Cur

variable {iCodeType : R2codType} {heard : List F} {stream : List R2adMsgBlock}

/-- With the encoder and the flags of the segment unchanged, and messages that
    are not data. -/
theorem Carried.of_eq {stream' : List R2adMsgBlock} {p p' : SirenProcessorImpl F E}
    (h : p.Carried iCodeType heard stream) (hcod : p'.m_pMem_cod = p.m_pMem_cod)
    (hv : p'.state.vadStart = p.state.vadStart) (hd : p'.state.dataOutput = p.state.dataOutput)
    (hc : p'.state.canceled = p.state.canceled) (hstream : payload stream' = payload stream) :
    p'.Carried iCodeType heard stream' := by
  obtain ⟨htype, hsynced, hwithin, hfresh, hheld, hsent⟩ := h
  refine ⟨?_, ?_, ?_, ?_, ?_, ?_⟩
  all_goals rw [hcod]
  · exact htype
  · exact hsynced
  · exact hwithin
  · rw [hv, hd]
    exact hfresh
  · rw [hd, hc]
    exact hheld
  · rw [hd, hc, hstream]
    exact hsent

/-- A processor whose encoder has handed out nothing since its reading position
    was last taken back. -/
theorem carried_of_zero {p : SirenProcessorImpl F E}
    (htype : p.m_pMem_cod.m_iCodeType = iCodeType) (hsynced : p.m_pMem_cod.Synced heard)
    (hzero : p.m_pMem_cod.m_iLen_Out_Cur = 0)
    (hsent : p.state.dataOutput = true → p.state.canceled = false → payload stream = []) :
    p.Carried iCodeType heard stream := by
  refine ⟨htype, hsynced, ?_, fun _ _ => hzero, fun _ _ => hzero, ?_⟩
  · rw [hzero]
    exact Nat.zero_le _
  · intro hd hc
    rw [hzero, List.take_zero]
    exact hsent hd hc

omit [CFloat F] in
theorem payload_addMsg_start (prev : List R2adMsgBlock) (p : SirenProcessorImpl F E)
    (data : List UInt8) : payload (prev ++ (p.addMsg .r2ad_vad_start data).msgLst) = [] := by
  show payload (prev ++ (p.msgLst ++ [⟨.r2ad_vad_start, data⟩])) = []
  rw [← List.append_assoc, payload_concat]
  rfl

theorem decideStart_carried {prev : List R2adMsgBlock} {p : SirenProcessorImpl F E}
    (h : p.Carried iCodeType heard (prev ++ p.msgLst)) (hv : p.state.vadStart = true)
    (w : WordFlags) :
    (p.decideStart w).Carried iCodeType heard (prev ++ (p.decideStart w).msgLst) := by
  simp only [decideStart]
  split
  · exact h
  · next hd =>
    -- nothing has been read since the begin of speech
    have hzero := h.fresh hv (eq_false_of_ne_true hd)
    split
    · split
      · exact carried_of_zero h.iCodeType h.synced hzero fun _ _ => payload_addMsg_start _ _ _
      · refine carried_of_zero h.iCodeType ?_ rfl ?_
        · exact ⟨h.synced.input, h.synced.progress, h.synced.pcm⟩
        · intro _ hc
          cases hc
    · split
      · refine carried_of_zero ?_ ?_ ?_ fun _ _ => payload_addMsg_start _ _ _
        all_goals
          by_cases hvad : p.config.alg_vad_enable = true
          · simp only [hvad, if_true]
            first | exact h.iCodeType | exact h.synced | exact hzero
          · simp only [hvad]
            first | exact h.iCodeType | exact h.synced | exact hzero
      · exact h

theorem decideCancel_carried {prev : List R2adMsgBlock} {p : SirenProcessorImpl F E}
    (h : p.Carried iCodeType heard (prev ++ p.msgLst)) (asr : Bool) :
    (p.decideCancel asr).Carried iCodeType heard (prev ++ (p.decideCancel asr).msgLst) := by
  simp only [decideCancel]
  split
  · exact h
  · split
    · simp only [cancelOutput]
      split
      · refine carried_of_zero h.iCodeType ?_ rfl ?_
        · exact ⟨h.synced.input, h.synced.progress, h.synced.pcm⟩
        · intro _ hc
          cases hc
      · refine carried_of_zero h.iCodeType ?_ rfl ?_
        · exact ⟨h.synced.input, h.synced.progress, h.synced.pcm⟩
        · intro hd
          cases hd
    · exact h

theorem decideResume_carried {prev : List R2adMsgBlock} {p p' : SirenProcessorImpl F E}
    (h : p.Carried iCodeType heard (prev ++ p.msgLst)) (hresume : p.decideResume = .ok p') :
    p'.Carried iCodeType heard (prev ++ p'.msgLst) := by
  simp only [decideResume] at hresume
  split at hresume
  · next hcond =>
    simp only [Bool.and_eq_true] at hcond
    obtain ⟨cod, hcod, hresume⟩ := bind_eq_ok.mp hresume
    rw [R2memCod.resume_of_paused (R2memCod.isneedresume_paused hcond.2)] at hcod
    cases hcod
    cases hresume
    refine ⟨h.iCodeType, ?_, h.within, h.fresh, fun hd _ => h.held hd hcond.1.1.2, ?_⟩
    · exact ⟨h.synced.input, h.synced.progress, h.synced.pcm⟩
    · intro hd _
      -- the pause has taken the reading position back
      have hzero := h.held hd hcond.1.1.2
      refine (payload_addMsg_start _ _ _).trans ?_
      show [] = p.m_pMem_cod.m_pData_Out.take p.m_pMem_cod.m_iLen_Out_Cur
      rw [hzero, List.take_zero]
  · cases hresume
    exact h

omit [CFloat F] in
/-- Whatever is not canceled after the two decisions goes out. -/
theorem decided_output {p p' : SirenProcessorImpl F E} (hd : p.state.dataOutput = true)
    {asr : Bool} (hresume : (p.decideCancel asr).decideResume = .ok p')
    (hc : p'.state.canceled = false) : p'.state.dataOutput = true := by
  have hvad : (p.decideCancel asr).config = p.config := by
    simp only [decideCancel, cancelOutput]
    split
    · rfl
    · split
      · split <;> rfl
      · rfl
  -- without the VAD a cancel closes the output too
  have hcancel : (p.decideCancel asr).state.canceled = false ∨ p.config.alg_vad_enable = true →
      (p.decideCancel asr).state.dataOutput = true := by
    intro h
    simp only [decideCancel, cancelOutput] at h ⊢
    split at h
    · next hcan => rwa [if_pos hcan]
    · next hcan =>
      rw [if_neg hcan]
      split at h
      · next htoo =>
        rw [if_pos htoo]
        split at h
        · next hen => rw [if_pos hen]; exact hd
        · next hen =>
          rcases h with h | h
          · cases h
          · exact absurd h hen
      · next htoo => rwa [if_neg htoo]
  simp only [decideResume] at hresume
  split at hresume
  · next hcond =>
    simp only [Bool.and_eq_true] at hcond
    obtain ⟨cod, -, hresume⟩ := bind_eq_ok.mp hresume
    cases hresume
    exact hcancel (.inr (hvad ▸ hcond.1.1.1))
  · cases hresume
    exact hcancel (.inl hc)

/-! ### The data of a call -/

/-- With each DATA among the messages `new`, which follow `prev`, the data since
    START are the beginning of the encoder output. -/
def Told (enc : OpusEncoder F) (iCodeType : R2codType) (heard : List F)
    (prev new : List R2adMsgBlock) : Prop :=
  ∀ l d r, new = l ++ d :: r → d.iMsgId = .r2ad_vad_data →
    payload (prev ++ (l ++ [d])) <+: R2memCod.codOutput enc iCodeType heard

theorem told_of_no_data (enc : OpusEncoder F) {prev new : List R2adMsgBlock}
    (h : ∀ m ∈ new, m.iMsgId ≠ .r2ad_vad_data) : Told enc iCodeType heard prev new := by
  intro l d r hnew hdata
  exact absurd hdata (h d (by simp [hnew]))

theorem Told.concat {enc : OpusEncoder F} {prev new : List R2adMsgBlock} {m : R2adMsgBlock}
    (h : Told enc iCodeType heard prev new)
    (hm : m.iMsgId = .r2ad_vad_data →
      payload (prev ++ (new ++ [m])) <+: R2memCod.codOutput enc iCodeType heard) :
    Told enc iCodeType heard prev (new ++ [m]) := by
  intro l d r hnew hdata
  induction r using List.reverseRecOn with
  | nil =>
    obtain ⟨rfl, hlast⟩ := List.append_inj' hnew rfl
    cases hlast
    exact hm hdata
  | append_singleton r m' _ =>
    rw [show l ++ d :: (r ++ [m']) = l ++ d :: r ++ [m'] by simp] at hnew
    obtain ⟨hnew, -⟩ := List.append_inj' hnew rfl
    exact h l d r hnew hdata

theorem addMsgCod_carried {prev : List R2adMsgBlock} {p p' : SirenProcessorImpl F E}
    (h : p.Carried iCodeType heard (prev ++ p.msgLst))
    (ht : Told E.opus iCodeType heard prev p.msgLst) (hd : p.state.dataOutput = true)
    (hc : p.state.canceled = false) (hadd : p.addMsgCod .r2ad_vad_data = .ok p') :
    p'.Carried iCodeType heard (prev ++ p'.msgLst) ∧
      Told E.opus iCodeType heard prev p'.msgLst ∧ p'.state = p.state := by
  simp only [addMsgCod] at hadd
  obtain ⟨⟨data, cod⟩, hdata, hadd⟩ := bind_eq_ok.mp hadd
  cases hadd
  obtain ⟨hsynced, htype, hout, hdata, hcur⟩ := R2memCod.getdata2_synced h.synced hdata
  have hpayload : payload (prev ++ (p.msgLst ++ [⟨.r2ad_vad_data, data⟩])) = cod.m_pData_Out := by
    calc payload (prev ++ (p.msgLst ++ [⟨.r2ad_vad_data, data⟩]))
        = payload (prev ++ p.msgLst) ++ data := by rw [← List.append_assoc, payload_concat]; rfl
      _ = p.m_pMem_cod.m_pData_Out.take p.m_pMem_cod.m_iLen_Out_Cur ++ data := by
          rw [h.sent hd hc]
      _ = cod.m_pData_Out.take p.m_pMem_cod.m_iLen_Out_Cur ++ data := by
          obtain ⟨more, hmore⟩ := hout
          rw [← hmore, List.take_append_of_le_length h.within]
      _ = cod.m_pData_Out := by rw [hdata, List.take_append_drop]
  have htype' := htype.trans h.iCodeType
  refine ⟨⟨htype', hsynced, ?_, ?_, ?_, ?_⟩, ht.concat fun _ => ?_, rfl⟩
  · exact Nat.le_of_eq hcur
  · intro _ hd'
    rw [show p.state.dataOutput = false from hd'] at hd
    cases hd
  · intro _ hc'
    rw [show p.state.canceled = true from hc'] at hc
    cases hc
  · intro _ _
    refine hpayload.trans ?_
    show cod.m_pData_Out = cod.m_pData_Out.take cod.m_iLen_Out_Cur
    rw [hcur, List.take_length]
  · rw [hpayload, ← htype']
    exact hsynced.isPrefix

theorem dataIfAbove_carried {prev : List R2adMsgBlock} {p p' : SirenProcessorImpl F E} {k : Nat}
    (h : p.Carried iCodeType heard (prev ++ p.msgLst))
    (ht : Told E.opus iCodeType heard prev p.msgLst) (hd : p.state.dataOutput = true)
    (hc : p.state.canceled = false) (hadd : p.dataIfAbove k = .ok p') :
    p'.Carried iCodeType heard (prev ++ p'.msgLst) ∧
      Told E.opus iCodeType heard prev p'.msgLst ∧ p'.state = p.state := by
  simp only [dataIfAbove] at hadd
  obtain ⟨⟨n, cod⟩, hlen, hadd⟩ := bind_eq_ok.mp hadd
  obtain ⟨hsynced, hencodes⟩ := R2memCod.getdatalen_synced h.synced hlen
  -- encoding more leaves what has been read where it is
  have hq : ({ p with m_pMem_cod := cod } : SirenProcessorImpl F E).Carried iCodeType heard
      (prev ++ p.msgLst) := by
    obtain ⟨more, hmore⟩ := hencodes.out
    have hwithin := h.within
    refine ⟨hencodes.iCodeType.trans h.iCodeType, hsynced, ?_, ?_, ?_, ?_⟩
    · show cod.m_iLen_Out_Cur ≤ cod.m_pData_Out.length
      rw [hencodes.cur, ← hmore, List.length_append]
      omega
    · intro hv hd'
      exact hencodes.cur.trans (h.fresh hv hd')
    · intro hd' hc'
      exact hencodes.cur.trans (h.held hd' hc')
    · intro hd' hc'
      show _ = cod.m_pData_Out.take cod.m_iLen_Out_Cur
      rw [hencodes.cur, ← hmore, List.take_append_of_le_length hwithin]
      exact h.sent hd' hc'
  split at hadd
  · exact addMsgCod_carried (p := { p with m_pMem_cod := cod }) hq ht hd hc hadd
  · cases hadd
    exact ⟨hq, ht, rfl⟩

theorem sendData_carried {prev : List R2adMsgBlock} {p p' : SirenProcessorImpl F E}
    {vad2 : VadResult} (h : p.Carried iCodeType heard (prev ++ p.msgLst))
    (ht : Told E.opus iCodeType heard prev p.msgLst)
    (hd : p.state.canceled = false → p.state.dataOutput = true)
    (hsend : p.sendData vad2 = .ok p') :
    p'.Carried iCodeType heard (prev ++ p'.msgLst) ∧
      Told E.opus iCodeType heard prev p'.msgLst := by
  simp only [sendData] at hsend
  split at hsend
  · cases hsend
    exact ⟨h, ht⟩
  · next hc =>
    have hc := eq_false_of_ne_true hc
    obtain ⟨p₁, hfirst, hsend⟩ := bind_eq_ok.mp hsend
    obtain ⟨h₁, ht₁, hstate⟩ := dataIfAbove_carried h ht (hd hc) hc hfirst
    split at hsend
    · rw [← hstate] at hd hc
      obtain ⟨h₂, ht₂, -⟩ := dataIfAbove_carried h₁ ht₁ (hd hc) hc hsend
      exact ⟨h₂, ht₂⟩
    · cases hsend
      exact ⟨h₁, ht₁⟩

/-! ### A call -/

omit [CFloat F] in
theorem mem_ctl_out {p : SirenProcessorImpl F E} {m : R2adMsgBlock} (hm : m ∈ p.msgLst)
    {id : R2adMsg} (hid : m.iMsgId = id) (hvad : id.isVad = true) : id ∈ p.ctl.out := by
  show _ ∈ (p.msgLst.map (·.iMsgId)).filter (·.isVad)
  rw [List.mem_filter]
  exact ⟨hid ▸ List.mem_map_of_mem hm, hvad⟩

theorem told_of_ctl {prev : List R2adMsgBlock} {p : SirenProcessorImpl F E}
    (h : .r2ad_vad_data ∉ p.ctl.out) : Told E.opus iCodeType heard prev p.msgLst :=
  told_of_no_data _ fun _ hm hdata => h (mem_ctl_out hm hdata rfl)

/-- The two decisions give no data. -/
theorem decide_no_data {fx : Fixed} {c : Ctl} {cmd noCmd tooLong asr needResume : Bool}
    (h : .r2ad_vad_data ∉ c.out) :
    .r2ad_vad_data ∉ (((c.decideStart cmd noCmd).decideCancel fx tooLong asr).decideResume fx
      needResume).out := by
  have hstart : .r2ad_vad_data ∉ (c.decideStart cmd noCmd).out := by
    unfold Ctl.decideStart
    split
    · exact h
    · split
      · simpa [Ctl.emit] using h
      · split
        · exact h
        · split
          · simpa [Ctl.emit] using h
          · exact h
  have hcancel : .r2ad_vad_data ∉ ((c.decideStart cmd noCmd).decideCancel fx tooLong asr).out := by
    unfold Ctl.decideCancel
    split
    · exact hstart
    · split
      · simpa [Ctl.emit] using hstart
      · exact hstart
  unfold Ctl.decideResume
  split
  · simpa [Ctl.emit] using hcancel
  · exact hcancel

/-- The output stage behind the encoder; `hno`: no data have been given in this
    call. -/
theorem output_carried {prev : List R2adMsgBlock} {p p' : SirenProcessorImpl F E}
    {asr : Bool} {w : WordFlags} {vad2 : VadResult}
    (h : p.Carried iCodeType heard (prev ++ p.msgLst)) (hno : .r2ad_vad_data ∉ p.ctl.out)
    (hv : p.state.vadStart = true) (hd : (p.decideStart w).state.dataOutput = true)
    (hout : ((p.decideStart w).decideCancel asr).decideResume.bind
      (fun p => p.sendData vad2) = .ok p') :
    p'.Carried iCodeType heard (prev ++ p'.msgLst) ∧
      Told E.opus iCodeType heard prev p'.msgLst := by
  have hstart := decideStart_carried h hv w
  have hctl := (decideStart_ctl p w).1
  generalize p.decideStart w = q at hstart hctl hd hout
  obtain ⟨p₁, hresume, hsend⟩ := bind_eq_ok.mp hout
  have h₁ := decideResume_carried (decideCancel_carried hstart asr) hresume
  have hno₁ : .r2ad_vad_data ∉ p₁.ctl.out := by
    rw [(decideResume_ctl hresume).1, (decideCancel_ctl q asr).1, (decideCancel_ctl q asr).2,
      hctl]
    exact decide_no_data hno
  exact sendData_carried h₁ (told_of_ctl hno₁) (decided_output hd hresume) hsend

theorem onVadStart_carried {prev : List R2adMsgBlock} {p p' : SirenProcessorImpl F E}
    {asr : Bool} {w : WordFlags} {out : List F} {vad2 : VadResult}
    (h : p.Carried iCodeType heard (prev ++ p.msgLst)) (hno : .r2ad_vad_data ∉ p.ctl.out)
    (hstart : p.onVadStart asr w out vad2 = .ok p') :
    p'.Carried iCodeType (if p.state.vadStart then heard ++ out else heard) (prev ++ p'.msgLst) ∧
      Told E.opus iCodeType (if p.state.vadStart then heard ++ out else heard) prev p'.msgLst := by
  simp only [onVadStart] at hstart
  by_cases hv : p.state.vadStart = true
  · rw [if_pos hv] at hstart
    rw [if_pos hv]
    -- the encoder hears the frame before anything is decided
    have hq : ({ p with m_pMem_cod := p.m_pMem_cod.process out } :
        SirenProcessorImpl F E).Carried iCodeType (heard ++ out) (prev ++ p.msgLst) :=
      ⟨h.iCodeType, h.synced.process out, h.within, h.fresh, h.held, h.sent⟩
    have hnoq : .r2ad_vad_data ∉ ({ p with m_pMem_cod := p.m_pMem_cod.process out } :
        SirenProcessorImpl F E).ctl.out := hno
    split at hstart
    · next hd => exact output_carried hq hnoq hv hd hstart
    · next hd =>
      cases hstart
      refine ⟨decideStart_carried (p := { p with m_pMem_cod := p.m_pMem_cod.process out }) hq hv w,
        told_of_ctl ?_⟩
      have hctl := (decideStart_ctl { p with m_pMem_cod := p.m_pMem_cod.process out } w).1
      rw [hctl, Ctl.decideStart_eq_self]
      · exact hnoq
      · rw [← hctl]
        exact hd
  · rw [if_neg hv] at hstart
    rw [if_neg hv]
    cases hstart
    exact ⟨h, told_of_ctl hno⟩

omit [CFloat F] in
theorem restartCod_eq {p q : SirenProcessorImpl F E} (h : p.restartCod = .ok q) :
    q = p ∨ q = { p with m_pMem_cod := { p.m_pMem_cod.pause with m_bPaused := false } } := by
  simp only [restartCod] at h
  split at h
  · obtain ⟨cod, hcod, h⟩ := bind_eq_ok.mp h
    rw [R2memCod.resume_of_paused (R2memCod.pause_m_bPaused _)] at hcod
    cases hcod
    cases h
    exact .inr rfl
  · cases h
    exact .inl rfl

/-- A processor without a segment. -/
theorem carried_of_closed {p : SirenProcessorImpl F E}
    (htype : p.m_pMem_cod.m_iCodeType = iCodeType) (hsynced : p.m_pMem_cod.Synced heard)
    (hwithin : p.m_pMem_cod.m_iLen_Out_Cur ≤ p.m_pMem_cod.m_pData_Out.length)
    (hv : p.state.vadStart = false) (hd : p.state.dataOutput = false) :
    p.Carried iCodeType heard stream := by
  refine ⟨htype, hsynced, hwithin, ?_, ?_, ?_⟩
  · intro hv'
    rw [hv] at hv'
    cases hv'
  · intro hd'
    rw [hd] at hd'
    cases hd'
  · intro hd'
    rw [hd] at hd'
    cases hd'

/-- The end of speech closes the segment. -/
theorem onEnd_carried {prev : List R2adMsgBlock} {p p' : SirenProcessorImpl F E}
    {vad2 : VadResult} (hvt : p.config.alg_vt_enable = true)
    (h : p.Carried iCodeType heard (prev ++ p.msgLst))
    (ht : Told E.opus iCodeType heard prev p.msgLst) (hend : p.onEnd vad2 = .ok p') :
    p'.Carried iCodeType heard (prev ++ p'.msgLst) ∧
      Told E.opus iCodeType heard prev p'.msgLst := by
  simp only [onEnd] at hend
  split at hend
  · obtain ⟨q, hq, hend⟩ := bind_eq_ok.mp hend
    cases hend
    -- the END, if there is one
    obtain ⟨p₁, hp₁⟩ : ∃ p₁, (if p.state.dataOutput && !p.state.canceled then
      p.addMsg .r2ad_vad_end [] else p) = p₁ := ⟨_, rfl⟩
    have hmsg : Told E.opus iCodeType heard prev p₁.msgLst ∧ p₁.m_pMem_cod = p.m_pMem_cod ∧
        p₁.config = p.config := by
      rw [← hp₁]
      split
      · exact ⟨ht.concat fun hdata => (by cases hdata), rfl, rfl⟩
      · exact ⟨ht, rfl, rfl⟩
    obtain ⟨ht₁, hcod, hconfig⟩ := hmsg
    rw [hp₁] at hq
    have hflags : (endState true q.state).vadStart = false ∧
        (endState true q.state).dataOutput = false := ⟨rfl, rfl⟩
    rcases restartCod_eq hq with rfl | rfl
    · rw [hconfig, hvt]
      refine ⟨carried_of_closed ?_ ?_ ?_ hflags.1 hflags.2, ht₁⟩
      all_goals rw [hcod]
      · exact h.iCodeType
      · exact h.synced
      · exact h.within
    · rw [show p₁.config.alg_vt_enable = true by rw [hconfig, hvt]]
      refine ⟨carried_of_closed ?_ ?_ (Nat.zero_le _) hflags.1 hflags.2, ht₁⟩
      all_goals rw [hcod]
      · exact h.iCodeType
      · exact ⟨h.synced.input, h.synced.progress, h.synced.pcm⟩
  · cases hend
    exact ⟨h, ht⟩

/-- The begin of a call gives at most a CANCEL. -/
theorem begin_out (fx : Fixed) (ch : Choice) (c : Ctl) :
    .r2ad_vad_start ∉ (c.begin fx ch).out ∧ .r2ad_vad_data ∉ (c.begin fx ch).out := by
  have hpre : ∀ c : Ctl, c.out = [] → .r2ad_vad_start ∉ (c.onPre fx ch.pre).out ∧
      .r2ad_vad_data ∉ (c.onPre fx ch.pre).out := by
    intro c hc
    unfold Ctl.onPre
    split
    · split
      · simp [Ctl.emit, hc]
      · simp [hc]
    · simp [hc]
  have hbegin : ∀ c : Ctl, (c.onBegin ch.asr ch.awakePre ch.vad).out = c.out := by
    intro c
    unfold Ctl.onBegin
    split
    · rfl
    · rfl
  unfold Ctl.begin
  rw [hbegin]
  exact hpre _ rfl

/-- The flags and the encoder when a call has come to `if (state.vadStart)`. -/
theorem begin_carried {prev : List R2adMsgBlock} {p : SirenProcessorImpl F E} {c : Call}
    (h : p.Carried iCodeType heard prev) (st : Stages p c) :
    st.last.Carried iCodeType (if st.vad2.audio_begin then [] else heard)
        (prev ++ st.last.msgLst) ∧
      (st.w.pre = true → st.vad2.audio_begin = true) ∧ .r2ad_vad_data ∉ st.last.ctl.out := by
  obtain ⟨hctl, -, hvalid⟩ := begin_ctl st false false false false
  have hcod := last_cod st
  have hpayload : payload (prev ++ st.last.msgLst) = payload prev := by
    refine payload_append prev fun m hm => ?_
    obtain ⟨hstart, hdata⟩ := begin_out p.fixed (st.choice false false false false) p.ctl
    rw [← hctl] at hstart hdata
    exact ⟨fun hid => hstart (mem_ctl_out hm hid rfl), fun hid => hdata (mem_ctl_out hm hid rfl)⟩
  have hno : .r2ad_vad_data ∉ st.last.ctl.out := by
    rw [hctl]
    exact (begin_out _ _ _).2
  -- nothing but the flags and the encoder is needed of the state
  generalize st.last = q at hctl hcod hpayload hno ⊢
  cases hb : st.vad2.audio_begin with
  | true =>
    rw [hb, if_pos rfl] at hcod
    have hd : q.ctl.dataOutput = false := by
      rw [hctl]
      simp only [Ctl.begin, Ctl.onBegin, Stages.choice, hb, if_true]
    have hsynced : (if st.w.pre then p.m_pMem_cod.reset else p.m_pMem_cod).reset.Synced [] := by
      split
      · exact h.synced.reset.reset
      · exact h.synced.reset
    have htype : (if st.w.pre then p.m_pMem_cod.reset else p.m_pMem_cod).reset.m_iCodeType =
        iCodeType := by
      rw [← h.iCodeType]
      split
      · rfl
      · rfl
    rw [← hcod] at hsynced htype
    refine ⟨carried_of_zero htype hsynced ?_ ?_, fun _ => rfl, hno⟩
    · rw [hcod]
      rfl
    · intro hd'
      rw [show q.state.dataOutput = false from hd] at hd'
      cases hd'
  | false =>
    -- no begin, so no pre event: encoder and flags are as before
    have hpre : st.w.pre = false := Ctl.pre_of_no_begin hvalid hb
    have hsame : Ctl.SameFlags p.ctl q.ctl := hctl ▸ Ctl.begin_same hvalid hb
    rw [hb, hpre] at hcod
    refine ⟨h.of_eq hcod hsame.vadStart hsame.dataOutput hsame.canceled hpayload, ?_, hno⟩
    intro hpre'
    rw [hpre] at hpre'
    cases hpre'

/-! ### The audio given to the encoder -/

/-- The calls of `process` on the encoder that decide what it has been given. -/
inductive CodCall (F : Type) where
  | reset
  | process (pData_In : List F)

/-- The audio given to `r2mem_cod::process` since the last `reset`. -/
def hear (heard : List F) : CodCall F → List F
  | .reset => []
  | .process pData_In => heard ++ pData_In

/-- The calls on the encoder for `resetASR`, for the begin of speech, and for
    the audio after it. -/
def stageCalls (pre audio_begin vadStart : Bool) (out : List F) : List (CodCall F) :=
  (if pre then [.reset] else []) ++ (if audio_begin then [.reset] else []) ++
    (if vadStart then [.process out] else [])

/-- The calls on the encoder during `process`, in order. -/
def codCalls (p : SirenProcessorImpl F E) (c : Call) : Except Fault (List (CodCall F)) := do
  let asr := c.asrflag == 1
  let (p, len_mul) ← p.readInput c
  let (p, sig) ← p.beamform len_mul
  let (p, w) ← p.wakeWord c len_mul
  let (p, sig) ← p.onPre w sig
  let (p, out, vad2) ← p.runVad w sig
  let p ← p.onBegin asr w vad2
  return stageCalls w.pre vad2.audio_begin (p.onWord w).state.vadStart out

omit [CFloat F] in
theorem hear_stageCalls {pre audio_begin vadStart : Bool}
    (hpre : pre = true → audio_begin = true) (out : List F) :
    (stageCalls pre audio_begin vadStart out).foldl hear heard =
      if vadStart then (if audio_begin then [] else heard) ++ out
      else if audio_begin then [] else heard := by
  cases hp : pre with
  | false =>
    cases audio_begin
    · cases vadStart
      · rfl
      · rfl
    · cases vadStart
      · rfl
      · rfl
  | true =>
    rw [hpre hp]
    cases vadStart
    · rfl
    · rfl

/-- A call, with the encoder calls it makes. -/
theorem process_carried {prev : List R2adMsgBlock} {p p' : SirenProcessorImpl F E} {c : Call}
    (hvt : p.config.alg_vt_enable = true) (h : p.Carried iCodeType heard prev)
    (hp : p.process c = .ok p') :
    ∃ calls, p.codCalls c = .ok calls ∧
      p'.Carried iCodeType (calls.foldl hear heard) (prev ++ p'.msgLst) ∧
      Told E.opus iCodeType (calls.foldl hear heard) prev p'.msgLst := by
  obtain ⟨st, p₇, hvadStart, hend⟩ := process_eq_ok hp
  have hcalls : p.codCalls c =
      .ok (stageCalls st.w.pre st.vad2.audio_begin st.last.state.vadStart st.out) := by
    simp only [codCalls, bind, Except.bind, st.readInput, st.beamform, st.wakeWord, st.onPre,
      st.runVad, st.onBegin]
    rfl
  obtain ⟨hbegin, hpre, hno⟩ := begin_carried h st
  obtain ⟨hstart, htold⟩ := onVadStart_carried hbegin hno hvadStart
  have hvt₇ : p₇.config.alg_vt_enable = true := by
    obtain ⟨-, hfixed₆, -⟩ := begin_ctl st false false false false
    obtain ⟨-, hfixed₇⟩ :=
      onVadStart_ctl hvadStart (st.choice false false false false) rfl rfl rfl rfl
    exact (congrArg Fixed.vt_enable (hfixed₇.trans hfixed₆)).trans hvt
  refine ⟨_, hcalls, ?_⟩
  rw [hear_stageCalls hpre]
  exact onEnd_carried hvt₇ hstart htold hend

end SirenProcessorImpl

/-! ### Runs -/

/-- A run with the audio the encoder has been given since its last `reset`, and
    each message with that audio when the call that gave the message returned. -/
structure Trace (F : Type) (E : Engines F) where
  run : Run F E
  heard : List F
  log : List (R2adMsgBlock × List F)

namespace Trace

variable {F : Type} [CFloat F] {E : Engines F}

/-- One event. -/
def next (t : Trace F E) : Event F → Except Fault (Trace F E)
  | .process c => do
      let run ← t.run.next (.process c)
      let calls ← t.run.p.codCalls c
      let heard := calls.foldl SirenProcessorImpl.hear t.heard
      return { run := run, heard := heard, log := t.log ++ run.p.msgLst.map fun m => (m, heard) }
  | e => do
      let run ← t.run.next e
      return { t with run := run }

/-- The runs of a processor with configuration `cfg`, traced. -/
def traces (E : Engines F) (cfg : SirenConfig F) : System (Trace F E) (Event F) :=
  .ofFn (fun t => Run.Init cfg t.run ∧ t.heard = [] ∧ t.log = []) fun t e => (t.next e).toOption

/-- The traced run that a list of events gives, if every call returns. -/
def script (E : Engines F) (cfg : SirenConfig F) (es : List (Event F)) :
    Option (Trace F E) :=
  match SirenProcessorImpl.init cfg with
  | .ok (some p) => exec (fun t e => (t.next e).toOption) ⟨⟨p, [], 0⟩, [], []⟩ es
  | _ => none

theorem script_reachable {cfg : SirenConfig F} {es : List (Event F)} {t : Trace F E}
    (h : script E cfg es = some t) : Reachable (traces E cfg) t := by
  simp only [script] at h
  split at h
  · next p hp => exact reachable_of_exec ⟨⟨hp, rfl, rfl⟩, rfl, rfl⟩ h
  · cases h

/-- `iCodeType` as `init` sets it. -/
def codType (cfg : SirenConfig F) : R2codType :=
  if cfg.alg_opus_compress then .r2ad_cod_opu else .r2ad_cod_pcm

/-- Between two events: the log is the stream, and with each DATA the data since
    START are the beginning of the encoder output. -/
structure Faithful (iCodeType : R2codType) (t : Trace F E) : Prop where
  vt : t.run.p.config.alg_vt_enable = true
  stream : t.log.map Prod.fst = t.run.msgs
  carried : t.run.p.Carried iCodeType t.heard t.run.msgs
  told : ∀ l d r, t.log = l ++ d :: r → d.1.iMsgId = .r2ad_vad_data →
    payload ((l ++ [d]).map Prod.fst) <+: R2memCod.codOutput E.opus iCodeType d.2

theorem init_faithful {cfg : SirenConfig F} (hvt : cfg.alg_vt_enable = true) {t : Trace F E}
    (h : (traces E cfg).init t) : t.Faithful (codType cfg) := by
  obtain ⟨⟨hinit, hmsgs, -⟩, hheard, hlog⟩ := h
  obtain ⟨mic_i2s_delay, m_pWordLst, _, _, hp⟩ := SirenProcessorImpl.init_eq_some hinit
  refine ⟨?_, ?_, ?_, ?_⟩
  · rw [hp]
    exact hvt
  · rw [hlog, hmsgs]
    rfl
  · rw [hp, hheard]
    exact SirenProcessorImpl.carried_of_closed rfl (R2memCod.new_synced _) (Nat.zero_le _) rfl rfl
  · intro l d r hsplit
    rw [hlog] at hsplit
    cases l
    · cases hsplit
    · cases hsplit

omit [CFloat F] in
/-- A letter of two streams, one after the other, is in one of them. -/
theorem append_eq_split {α : Type} {u v l r : List α} {d : α} (h : u ++ v = l ++ d :: r) :
    (∃ r', u = l ++ d :: r') ∨ ∃ l', l = u ++ l' ∧ v = l' ++ d :: r := by
  rcases List.append_eq_append_iff.mp h with ⟨l', hl, hv⟩ | ⟨u', hu, hd⟩
  · exact .inr ⟨l', hl, hv⟩
  · cases u' with
    | nil =>
      rw [List.append_nil] at hu
      exact .inr ⟨[], by rw [hu, List.append_nil], hd.symm⟩
    | cons d' u' =>
      cases hd
      exact .inl ⟨u', hu⟩

/-- An event that leaves the encoder and the flags of the segment alone. -/
theorem Faithful.of_eq {iCodeType : R2codType} {t : Trace F E} {run : Run F E}
    (h : t.Faithful iCodeType) (hconfig : run.p.config = t.run.p.config)
    (hmsgs : run.msgs = t.run.msgs) (hcod : run.p.m_pMem_cod = t.run.p.m_pMem_cod)
    (hv : run.p.state.vadStart = t.run.p.state.vadStart)
    (hd : run.p.state.dataOutput = t.run.p.state.dataOutput)
    (hc : run.p.state.canceled = t.run.p.state.canceled) :
    ({ t with run := run } : Trace F E).Faithful iCodeType := by
  refine ⟨?_, ?_, ?_, h.told⟩
  · exact (congrArg SirenConfig.alg_vt_enable hconfig).trans h.vt
  · exact h.stream.trans hmsgs.symm
  · exact h.carried.of_eq hcod hv hd hc (congrArg payload hmsgs)

theorem next_faithful {iCodeType : R2codType} {t t' : Trace F E} {e : Event F}
    (h : t.Faithful iCodeType) (hnext : t.next e = .ok t') : t'.Faithful iCodeType := by
  cases e with
  | process c =>
    simp only [next] at hnext
    obtain ⟨run, hrun, hnext⟩ := bind_eq_ok.mp hnext
    obtain ⟨calls, hcalls, hnext⟩ := bind_eq_ok.mp hnext
    cases hnext
    simp only [Run.next] at hrun
    obtain ⟨p, hp, hrun⟩ := bind_eq_ok.mp hrun
    cases hrun
    -- the calls that the trace records are those of the proof
    obtain ⟨calls', hcalls', hcarried, htold⟩ :=
      SirenProcessorImpl.process_carried h.vt h.carried hp
    rw [hcalls] at hcalls'
    cases hcalls'
    have hvt : p.config.alg_vt_enable = true :=
      (congrArg Fixed.vt_enable (SirenProcessorImpl.process_ctl hp).2).trans h.vt
    refine ⟨hvt, ?_, ?_, ?_⟩
    · show (t.log ++ p.msgLst.map _).map Prod.fst = t.run.msgs ++ p.msgLst
      rw [List.map_append, h.stream, List.map_map]
      exact congrArg _ (List.map_id p.msgLst)
    · exact hcarried.of_eq rfl rfl rfl rfl rfl
    · intro l d r hsplit hdata
      rcases append_eq_split hsplit with ⟨r', hold⟩ | ⟨l', rfl, hnew⟩
      · exact h.told l d r' hold hdata
      · -- a DATA of this call
        obtain ⟨l₁, r₁, hmsgs, rfl, hr₁⟩ := List.map_eq_append_iff.mp hnew
        obtain ⟨m, r₂, rfl, rfl, -⟩ := List.map_eq_cons_iff.mp hr₁
        have hprefix := htold l₁ m r₂ hmsgs hdata
        rw [← h.stream] at hprefix
        simpa [Function.comp_def] using hprefix
  | setState awake_state =>
    cases hnext
    refine h.of_eq ?_ rfl ?_ ?_ ?_ ?_
    all_goals
      simp only [SirenProcessorImpl.setState]
      split
      · rfl
      · rfl
  | setSLSteer ho ver =>
    cases hnext
    exact h.of_eq rfl rfl rfl rfl rfl rfl
  | syncVTWord words =>
    simp only [next, Run.next] at hnext
    obtain ⟨run, hrun, hnext⟩ := bind_eq_ok.mp hnext
    cases hnext
    obtain ⟨p, hp, hrun⟩ := bind_eq_ok.mp hrun
    cases hrun
    obtain ⟨_, _, _, _, rfl⟩ := SirenProcessorImpl.syncVTWord_eq_ok hp
    exact h.of_eq rfl rfl rfl rfl rfl rfl

theorem reachable_faithful {cfg : SirenConfig F} (hvt : cfg.alg_vt_enable = true)
    {t : Trace F E} (h : Reachable (traces E cfg) t) : t.Faithful (codType cfg) := by
  refine invariant (traces E cfg) (Faithful (codType cfg)) ?_ ?_ h
  · intro t ht
    exact init_faithful hvt ht
  · intro t e t' ht hstep
    exact next_faithful ht (Run.toOption_eq_some.mp hstep)

/-- A traced run is a run. -/
theorem next_run {t t' : Trace F E} {e : Event F} (h : t.next e = .ok t') :
    t.run.next e = .ok t'.run := by
  have hother : ∀ e : Event F, (t.run.next e).bind (fun run => .ok { t with run := run }) = .ok t' →
      t.run.next e = .ok t'.run := by
    intro e h
    obtain ⟨run, hrun, h⟩ := bind_eq_ok.mp h
    cases h
    exact hrun
  cases e with
  | process c =>
    simp only [next] at h
    obtain ⟨run, hrun, h⟩ := bind_eq_ok.mp h
    obtain ⟨calls, -, h⟩ := bind_eq_ok.mp h
    cases h
    exact hrun
  | setState awake_state => exact hother _ h
  | setSLSteer ho ver => exact hother _ h
  | syncVTWord words => exact hother _ h

theorem reachable_run {cfg : SirenConfig F} {t : Trace F E} (h : Reachable (traces E cfg) t) :
    Reachable (Run.runs E cfg) t.run := by
  refine Reachable.map Trace.run (fun t (ht : (traces E cfg).init t) => ht.1) ?_ h
  intro t e t' _ hstep
  refine .inr ⟨e, ?_⟩
  exact Run.toOption_eq_some.mpr (next_run (Run.toOption_eq_some.mp hstep))

/-- Every run has a trace. -/
theorem exists_trace {cfg : SirenConfig F} (hvt : cfg.alg_vt_enable = true) {s : Run F E}
    (h : Reachable (Run.runs E cfg) s) : ∃ t, Reachable (traces E cfg) t ∧ t.run = s := by
  induction h with
  | @init s hs => exact ⟨⟨s, [], []⟩, .init ⟨hs, rfl, rfl⟩, rfl⟩
  | @step s s' e hr hs ih =>
    obtain ⟨t, ht, rfl⟩ := ih
    have hs := Run.toOption_eq_some.mp hs
    have hnext : ∃ t' : Trace F E, t.next e = .ok t' := by
      cases e with
      | process c =>
        have hs' := hs
        simp only [Run.next] at hs'
        obtain ⟨p, hp, -⟩ := bind_eq_ok.mp hs'
        have hfaithful := reachable_faithful hvt ht
        -- a call that succeeds has told all it gave to the encoder
        obtain ⟨calls, hcalls, -⟩ :=
          SirenProcessorImpl.process_carried hfaithful.vt hfaithful.carried hp
        simp only [next, hs, hcalls]
        exact ⟨_, rfl⟩
      | setState awake_state => simp only [next, hs]; exact ⟨_, rfl⟩
      | setSLSteer ho ver => simp only [next, hs]; exact ⟨_, rfl⟩
      | syncVTWord words => simp only [next, hs]; exact ⟨_, rfl⟩
    obtain ⟨t', ht'⟩ := hnext
    refine ⟨t', .step e ht (Run.toOption_eq_some.mpr ht'), ?_⟩
    have hrun := next_run ht'
    rw [hs] at hrun
    exact (Except.ok.inj hrun).symm

/-- In every run with `alg_vt_enable`, the data of a segment up to any of its
    DATA are a prefix of the encoder output for the audio given to the encoder
    since its last `reset`. -/
theorem vad_data_prefix {cfg : SirenConfig F} (hvt : cfg.alg_vt_enable = true)
    {t : Trace F E} (h : Reachable (traces E cfg) t) :
    t.log.map Prod.fst = t.run.msgs ∧
      ∀ before start mid data after, t.log = before ++ start :: (mid ++ data :: after) →
        start.1.iMsgId = .r2ad_vad_start →
        (∀ m ∈ mid, m.1.iMsgId ≠ .r2ad_vad_end ∧ m.1.iMsgId ≠ .r2ad_vad_cancel) →
        data.1.iMsgId = .r2ad_vad_data →
        vadData ((mid ++ [data]).map Prod.fst) <+:
          R2memCod.codOutput E.opus (codType cfg) data.2 := by
  have hfaithful := reachable_faithful hvt h
  refine ⟨hfaithful.stream, ?_⟩
  intro before start mid data after hlog hstart hmid hdata
  have hmid' : ∀ m ∈ (mid ++ [data]).map Prod.fst,
      m.iMsgId ≠ .r2ad_vad_end ∧ m.iMsgId ≠ .r2ad_vad_cancel := by
    intro m hm
    obtain ⟨m', hm', rfl⟩ := List.mem_map.mp hm
    rcases List.mem_append.mp hm' with hm' | hm'
    · exact hmid m' hm'
    · rw [List.mem_singleton.mp hm', hdata]
      decide
  -- there is no second START among them
  have hstream := (Run.reachable_wellFormed hvt (reachable_run h)).stream
  rw [← hfaithful.stream, show t.log = before ++ start :: ((mid ++ [data]) ++ after) by
    simp [hlog], List.map_append, List.map_cons, List.map_append] at hstream
  have hone := no_start_in_segment hstart hstream hmid'
  have htold := hfaithful.told (before ++ start :: mid) data after (by simp [hlog]) hdata
  rw [List.append_assoc, List.cons_append, List.map_append, List.map_cons] at htold
  rwa [payload_segment _ hstart hone] at htold

/-- Speech begins without an asr flag and goes out from the second frame on: its
    data are those of all the audio. -/
theorem vad_data_prefix_late :
    ∃ t, script (scripted [1] [] [] ⟨WORD_AWAKE, [], [], 0, 0, false, false, false, false, false, 0,
        none⟩) (smallConfig true true) [frame 0 0 0, frame 0 0 1] = some t ∧
      (∃ start data, t.log = [] ++ start :: ([] ++ data :: []) ∧
        start.1.iMsgId = .r2ad_vad_start ∧ data.1.iMsgId = .r2ad_vad_data) ∧
      t.log.map Prod.fst = t.run.msgs ∧
      ∀ before start mid data after, t.log = before ++ start :: (mid ++ data :: after) →
        start.1.iMsgId = .r2ad_vad_start →
        (∀ m ∈ mid, m.1.iMsgId ≠ .r2ad_vad_end ∧ m.1.iMsgId ≠ .r2ad_vad_cancel) →
        data.1.iMsgId = .r2ad_vad_data →
        vadData ((mid ++ [data]).map Prod.fst) <+:
          R2memCod.codOutput (scripted [1] [] [] ⟨WORD_AWAKE, [], [], 0, 0, false, false, false,
            false, false, 0, none⟩).opus .r2ad_cod_pcm data.2 := by
  have hrun : ((script (scripted [1] [] [] ⟨WORD_AWAKE, [], [], 0, 0, false, false, false, false,
      false, 0, none⟩) (smallConfig true true) [frame 0 0 0, frame 0 0 1]).map fun t =>
        t.log.map fun m => m.1.iMsgId) = some [.r2ad_vad_start, .r2ad_vad_data] := by
    decide +kernel
  obtain ⟨t, ht, hids⟩ := Option.map_eq_some_iff.mp hrun
  refine ⟨t, ht, ?_, vad_data_prefix rfl (script_reachable ht)⟩
  obtain ⟨start, rest, hlog, hstart, hrest⟩ := List.map_eq_cons_iff.mp hids
  obtain ⟨data, rest', rfl, hdata, hrest'⟩ := List.map_eq_cons_iff.mp hrest
  rw [List.map_eq_nil_iff.mp hrest'] at hlog
  exact ⟨start, data, hlog, hstart, hdata⟩

end Trace

end BlackSiren

import BlackSiren.Processor.Order
import BlackSiren.Processor.VadData

/-! # The length of a segment

    With `alg_vad_enable` a segment is canceled when the encoder has been given more
    than six seconds of audio since speech began, and is not resumed until it has
    been reset.  So no segment carries more than that.

    - `onVadStart_limit`, `process_limit`: a call that sends data
    - `limited`: the trace of a run
    - `segments_limited`
-/

open LTS

namespace BlackSiren

/-! ### The encoder -/

namespace R2memCod

variable {F : Type} [CFloat F] {enc : OpusEncoder F}

theorem encodeFrames_input {fuel : Nat} {c c' : R2memCod F enc}
    (h : encodeFrames fuel c = .ok c') : c'.m_pData_In = c.m_pData_In := by
  induction fuel generalizing c with
  | zero =>
    cases h
    rfl
  | succ fuel ih =>
    simp only [encodeFrames] at h
    split at h
    · obtain ⟨⟨e, bytes⟩, _, h⟩ := bind_eq_ok.mp h
      exact (ih h).trans rfl
    · cases h
      rfl

theorem processdata_input {c c' : R2memCod F enc} (h : c.processdata = .ok c') :
    c'.m_pData_In = c.m_pData_In := by
  obtain ⟨_, _, h⟩ := bind_eq_ok.mp h
  exact encodeFrames_input h

theorem getdatalen_input {c c' : R2memCod F enc} {n : Nat} (h : c.getdatalen = .ok (n, c')) :
    c'.m_pData_In = c.m_pData_In := by
  obtain ⟨_, hc, h⟩ := bind_eq_ok.mp h
  cases h
  exact processdata_input hc

theorem getdata2_input {c c' : R2memCod F enc} {data : List UInt8}
    (h : c.getdata2 = .ok (data, c')) : c'.m_pData_In = c.m_pData_In := by
  obtain ⟨c₁, hc, h⟩ := bind_eq_ok.mp h
  have hinput := processdata_input hc
  cases h
  exact hinput

/-- A sample is four bytes. -/
theorem length_codOutput_le (enc : OpusEncoder F) (samples : List F) :
    (codOutput enc .r2ad_cod_pcm samples).length ≤ 4 * samples.length := by
  have hframe : ∀ (h : enc.State) (xs : List F) (h' : enc.State) (ys : List UInt8),
      xs.length ≤ lenFrmCod → encodeRecord .r2ad_cod_pcm h xs = some (h', ys) →
        ys.length ≤ 4 * lenFrmCod := by
    intro h xs h' ys hlen hys
    cases hys
    have hbytes : (xs.flatMap floatBytes).length = 4 * xs.length := by
      rw [List.length_flatMap]
      simp [floatBytes, Nat.mul_comm]
    omega
  have hlen := Blocks.length_output_le hframe ((scaled samples).length / lenFrmCod) enc.create
    (scaled samples)
  have hdiv := Nat.div_mul_le_self (scaled samples).length lenFrmCod
  have hscaled : (scaled samples).length = samples.length := List.length_map _
  unfold codOutput
  rw [hscaled] at hlen hdiv ⊢
  calc _ ≤ samples.length / lenFrmCod * (4 * lenFrmCod) := hlen
    _ = 4 * (samples.length / lenFrmCod * lenFrmCod) := Nat.mul_left_comm _ _ _
    _ ≤ 4 * samples.length := Nat.mul_le_mul_left 4 hdiv

end R2memCod

/-! ### A call -/

namespace SirenProcessorImpl

variable {F : Type} [CFloat F] {E : Engines F}

/-- The encoder has not been given too much. -/
def Short (p : SirenProcessorImpl F E) : Prop := p.m_pMem_cod.m_iLen_In ≤ shieldTooLong

theorem dataIfAbove_input {p p' : SirenProcessorImpl F E} {k : Nat}
    (h : p.dataIfAbove k = .ok p') : p'.m_pMem_cod.m_pData_In = p.m_pMem_cod.m_pData_In := by
  obtain ⟨⟨n, cod⟩, hlen, h⟩ := bind_eq_ok.mp h
  have hcod := R2memCod.getdatalen_input hlen
  dsimp only at h
  split at h
  · obtain ⟨⟨data, cod'⟩, hdata, h⟩ := bind_eq_ok.mp h
    cases h
    exact (R2memCod.getdata2_input hdata).trans hcod
  · cases h
    exact hcod

theorem sendData_input {p p' : SirenProcessorImpl F E} {vad2 : VadResult}
    (h : p.sendData vad2 = .ok p') : p'.m_pMem_cod.m_pData_In = p.m_pMem_cod.m_pData_In := by
  unfold sendData at h
  split at h
  · cases h
    rfl
  · obtain ⟨p₁, hfirst, h⟩ := bind_eq_ok.mp h
    split at h
    · exact (dataIfAbove_input h).trans (dataIfAbove_input hfirst)
    · cases h
      exact dataIfAbove_input hfirst

omit [CFloat F] in
/-- What is not canceled is not too long. -/
theorem decideCancel_short {p : SirenProcessorImpl F E} (asr : Bool)
    (hvad : p.config.alg_vad_enable = true) :
    (p.decideCancel asr).config.alg_vad_enable = true ∧
      ((p.decideCancel asr).state.canceled = false → (p.decideCancel asr).Short) := by
  have hcancelOutput : ∀ q : SirenProcessorImpl F E, q.config.alg_vad_enable = true →
      q.state.canceled = true →
        q.cancelOutput.config.alg_vad_enable = true ∧ q.cancelOutput.state.canceled = true := by
    intro q hq hcanceled
    unfold cancelOutput
    dsimp only
    split
    · exact ⟨hq, hcanceled⟩
    · exact ⟨hq, hcanceled⟩
  unfold decideCancel
  split
  · next hc =>
    refine ⟨hvad, fun h => ?_⟩
    rw [hc] at h
    cases h
  · dsimp only
    split
    · obtain ⟨hconfig, hcanceled⟩ := hcancelOutput
        { p with state := { p.state with canceled := true } } hvad rfl
      refine ⟨hconfig, fun h => ?_⟩
      rw [hcanceled] at h
      cases h
    · next hgo =>
      refine ⟨hvad, fun _ => ?_⟩
      simp only [hvad, Bool.true_and, Bool.or_eq_true, not_or, R2memCod.istoolong,
        decide_eq_true_eq, Nat.not_lt] at hgo
      exact hgo.1

omit [CFloat F] in
theorem decideResume_short {p p' : SirenProcessorImpl F E}
    (hshort : p.state.canceled = false → p.Short) (h : p.decideResume = .ok p') :
    p'.state.canceled = false → p'.Short := by
  unfold decideResume at h
  split at h
  · next hr =>
    obtain ⟨cod, hcod, h⟩ := bind_eq_ok.mp h
    cases h
    intro _
    simp only [Bool.and_eq_true, R2memCod.isneedresume, decide_eq_true_eq] at hr
    have hlen : cod.m_iLen_In = p.m_pMem_cod.m_iLen_In := by
      obtain ⟨_, _, hcod⟩ := bind_eq_ok.mp hcod
      cases hcod
      rfl
    show cod.m_iLen_In ≤ shieldTooLong
    rw [hlen]
    exact Nat.le_of_lt hr.2.1.2
  · cases h
    exact hshort

theorem onVadStart_limit {p p' : SirenProcessorImpl F E} {asr : Bool} {w : WordFlags}
    {out : List F} {vad2 : VadResult} (hvad : p.config.alg_vad_enable = true)
    (h : p.onVadStart asr w out vad2 = .ok p') (hbefore : .r2ad_vad_data ∉ p.ids)
    (hdata : .r2ad_vad_data ∈ p'.ids) : p'.Short := by
  unfold onVadStart at h
  split at h
  · dsimp only at h
    have hstart := decideStart_adds { p with m_pMem_cod := p.m_pMem_cod.process out } w
    have hvad' : (decideStart { p with m_pMem_cod := p.m_pMem_cod.process out }
        w).config.alg_vad_enable = true := by
      unfold decideStart
      split
      · exact hvad
      · split
        · dsimp only
          split <;> exact hvad
        · split
          · dsimp only
            split <;> exact hvad
          · exact hvad
    generalize decideStart { p with m_pMem_cod := p.m_pMem_cod.process out } w = q
      at h hstart hvad'
    have hstart : Adds openIds p q := ⟨hstart.ids, hstart.awke⟩
    have hnone : ∀ r : SirenProcessorImpl F E, Adds openIds p r → .r2ad_vad_data ∉ r.ids := by
      intro r hr hmem
      obtain ⟨l, hl, hkinds⟩ := hr.ids
      rw [hl] at hmem
      rcases List.mem_append.mp hmem with hmem | hmem
      · exact hbefore hmem
      · exact absurd (hkinds _ hmem) (by decide)
    split at h
    · obtain ⟨r, hresume, h⟩ := bind_eq_ok.mp h
      have hshort := decideResume_short (decideCancel_short asr hvad').2 hresume
      have hfront := hstart.trans ((decideCancel_adds q asr).1.trans (decideResume_adds hresume).1)
      have hopen : r.state.canceled = false := by
        by_contra hc
        rw [(sendData_adds h).2 (by simpa using hc)] at hdata
        exact hnone r hfront hdata
      unfold Short R2memCod.m_iLen_In
      rw [sendData_input h]
      exact hshort hopen
    · cases h
      exact absurd hdata (hnone p' hstart)
  · cases h
    exact absurd hdata hbefore

omit [CFloat F] in
theorem onEnd_input {p p' : SirenProcessorImpl F E} {vad2 : VadResult}
    (h : p.onEnd vad2 = .ok p') : p'.m_pMem_cod.m_pData_In = p.m_pMem_cod.m_pData_In := by
  unfold onEnd at h
  split at h
  · dsimp only at h
    obtain ⟨q, hq, h⟩ := bind_eq_ok.mp h
    cases h
    have hcod : ∀ q' : SirenProcessorImpl F E, q'.restartCod = .ok q →
        q.m_pMem_cod.m_pData_In = q'.m_pMem_cod.m_pData_In := by
      intro q' hq'
      rcases restartCod_eq hq' with rfl | rfl
      · rfl
      · rfl
    refine (hcod _ hq).trans ?_
    split <;> rfl
  · cases h
    rfl

/-- A call that sends data has given the encoder no more than the limit. -/
theorem process_limit {p p' : SirenProcessorImpl F E} {c : Call}
    (hvad : p.config.alg_vad_enable = true) (h : p.process c = .ok p')
    (hdata : .r2ad_vad_data ∈ p'.ids) : p'.Short := by
  obtain ⟨st, p₇, hstart, hend⟩ := process_eq_ok h
  have hvad' : st.last.config.alg_vad_enable = true :=
    (congrArg Fixed.vad_enable (begin_ctl st false false false false).2.1).trans hvad
  have hbefore : .r2ad_vad_data ∉ st.last.ids := by
    rw [last_ids]
    have hword : .r2ad_vad_data ∉ st.w.wakeIds ++ st.w.wordIds := by
      unfold WordFlags.wakeIds WordFlags.wordIds
      generalize st.w.awakePre = a
      generalize st.w.sleepNoCmd = b
      generalize st.w.awakeNoCmd = c
      generalize st.w.hotwordNoCmd = d
      generalize st.w.awakeCmd = e
      revert a b c d e
      decide
    rcases front_ids st with hfront | hfront
    · rw [hfront, List.nil_append]
      exact hword
    · rw [hfront, List.singleton_append, List.mem_cons, not_or]
      exact ⟨by decide, hword⟩
  have hdata₇ : .r2ad_vad_data ∈ p₇.ids := by
    rcases onEnd_ids hend with ⟨hids, -⟩ | ⟨hids | hids, -⟩
    · rwa [hids] at hdata
    · rwa [hids] at hdata
    · rw [hids] at hdata
      exact (List.mem_append.mp hdata).resolve_right (by decide)
  unfold Short R2memCod.m_iLen_In
  rw [onEnd_input hend]
  exact onVadStart_limit hvad' hstart hbefore hdata₇

end SirenProcessorImpl

/-! ### Runs -/

namespace Trace

variable {F : Type} [CFloat F] {E : Engines F}

/-- Each DATA of the trace came when the encoder had not been given too much. -/
structure Limited (t : Trace F E) : Prop where
  vad : t.run.p.config.alg_vad_enable = true
  data : ∀ d ∈ t.log, d.1.iMsgId = .r2ad_vad_data → d.2.length ≤ shieldTooLong

theorem next_limited {iCodeType : R2codType} {t t' : Trace F E} {e : Event F}
    (hfaithful : t.Faithful iCodeType) (h : t.Limited) (hnext : t.next e = .ok t') :
    t'.Limited := by
  cases e with
  | process c =>
    simp only [next] at hnext
    obtain ⟨run, hrun, hnext⟩ := bind_eq_ok.mp hnext
    obtain ⟨calls, hcalls, hnext⟩ := bind_eq_ok.mp hnext
    cases hnext
    simp only [Run.next] at hrun
    obtain ⟨p, hp, hrun⟩ := bind_eq_ok.mp hrun
    cases hrun
    have hvad : p.config.alg_vad_enable = true :=
      (congrArg Fixed.vad_enable (SirenProcessorImpl.process_ctl hp).2).trans h.vad
    refine ⟨hvad, fun d hd hdata => ?_⟩
    rcases List.mem_append.mp hd with hd | hd
    · exact h.data d hd hdata
    · obtain ⟨m, hm, rfl⟩ := List.mem_map.mp hd
      have hmem : .r2ad_vad_data ∈ p.ids := List.mem_map.mpr ⟨m, hm, hdata⟩
      have hshort := SirenProcessorImpl.process_limit h.vad hp hmem
      -- what the encoder has been given is what has been heard
      obtain ⟨calls', hcalls', hcarried, -⟩ :=
        SirenProcessorImpl.process_carried hfaithful.vt hfaithful.carried hp
      rw [hcalls] at hcalls'
      cases hcalls'
      have hinput : p.m_pMem_cod.m_iLen_In =
          (calls.foldl SirenProcessorImpl.hear t.heard).length := by
        unfold R2memCod.m_iLen_In
        rw [hcarried.synced.input]
        exact List.length_map _
      rwa [SirenProcessorImpl.Short, hinput] at hshort
  | setState awake_state =>
    cases hnext
    refine ⟨?_, h.data⟩
    show (t.run.p.setState awake_state).config.alg_vad_enable = true
    unfold SirenProcessorImpl.setState
    split
    · exact h.vad
    · exact h.vad
  | setSLSteer ho ver =>
    cases hnext
    exact ⟨h.vad, h.data⟩
  | syncVTWord words =>
    simp only [next, Run.next] at hnext
    obtain ⟨run, hrun, hnext⟩ := bind_eq_ok.mp hnext
    cases hnext
    obtain ⟨p, hp, hrun⟩ := bind_eq_ok.mp hrun
    cases hrun
    obtain ⟨_, _, _, _, rfl⟩ := SirenProcessorImpl.syncVTWord_eq_ok hp
    exact ⟨h.vad, h.data⟩

theorem limited {cfg : SirenConfig F} (hvt : cfg.alg_vt_enable = true)
    (hvad : cfg.alg_vad_enable = true) {t : Trace F E} (h : Reachable (traces E cfg) t) :
    t.Limited := by
  refine invariant_of_reachable (traces E cfg) Limited ?_ ?_ h
  · rintro t ⟨⟨hinit, -⟩, -, hlog⟩
    obtain ⟨_, _, _, _, hp⟩ := SirenProcessorImpl.init_eq_some hinit
    refine ⟨?_, ?_⟩
    · rw [hp]
      exact hvad
    · rw [hlog]
      exact fun _ hd => nomatch hd
  · intro t e t' hr ht hstep
    exact next_limited (reachable_faithful hvt hr) ht (Run.toOption_eq_some.mp hstep)

/-- With `alg_vt_enable` and `alg_vad_enable`, whatever the engines report: with each DATA
    the encoder has been given at most six seconds of audio since its last `reset`, and
    the data since START are the beginning of its output for that, which is at most
    384000 bytes if they are samples. -/
theorem segments_limited {cfg : SirenConfig F} (hvt : cfg.alg_vt_enable = true)
    (hvad : cfg.alg_vad_enable = true) {t : Trace F E} (h : Reachable (traces E cfg) t)
    {before after : List (R2adMsgBlock × List F)} {data : R2adMsgBlock × List F}
    (hlog : t.log = before ++ data :: after) (hdata : data.1.iMsgId = .r2ad_vad_data) :
    data.2.length ≤ 6 * R2_AUDIO_SAMPLE_RATE ∧
      payload ((before ++ [data]).map Prod.fst) <+:
        R2memCod.codOutput E.opus (codType cfg) data.2 ∧
      (cfg.alg_opus_compress = false →
        (payload ((before ++ [data]).map Prod.fst)).length ≤ 384000) := by
  have hshort : data.2.length ≤ 96000 :=
    (limited hvt hvad h).data data (by rw [hlog]; simp) hdata
  have hprefix := (reachable_faithful hvt h).told before data after hlog hdata
  refine ⟨hshort, hprefix, fun hpcm => ?_⟩
  have htype : codType cfg = .r2ad_cod_pcm := by
    unfold codType
    rw [hpcm]
    rfl
  rw [htype] at hprefix
  have hbound := R2memCod.length_codOutput_le E.opus data.2
  exact hprefix.length_le.trans (hbound.trans (by omega))

/-- Speech in the first frame. -/
def speechAtOnce : Engines ℚ :=
  scripted [1] [] [] ⟨WORD_AWAKE, [], [], 0, 0, false, false, false, false, false, 0, none⟩

/-- The DATA of a first frame. -/
theorem segments_limited_frame : ∃ (t : Trace ℚ speechAtOnce) (start data : R2adMsgBlock × List ℚ),
    script speechAtOnce (smallConfig true true) [frame 0 0 1] = some t ∧
      t.log = [start] ++ data :: [] ∧ data.1.iMsgId = .r2ad_vad_data ∧ data.2.length = 480 ∧
      data.2.length ≤ 6 * R2_AUDIO_SAMPLE_RATE ∧
      (payload (([start] ++ [data]).map Prod.fst)).length ≤ 384000 := by
  have hrun : ((script speechAtOnce (smallConfig true true) [frame 0 0 1]).map fun t =>
      t.log.map fun d => (d.1.iMsgId, d.2.length)) =
        some [(.r2ad_vad_start, 480), (.r2ad_vad_data, 480)] := by
    decide +kernel
  obtain ⟨t, ht, hlog⟩ := Option.map_eq_some_iff.mp hrun
  obtain ⟨start, rest, hlog, -, hrest⟩ := List.map_eq_cons_iff.mp hlog
  obtain ⟨data, rest', rfl, hdata, hrest'⟩ := List.map_eq_cons_iff.mp hrest
  rw [List.map_eq_nil_iff.mp hrest'] at hlog
  obtain ⟨hid, hlength⟩ := Prod.mk.inj hdata
  have hlog : t.log = [start] ++ data :: [] := hlog
  obtain ⟨hshort, -, hbytes⟩ := segments_limited rfl rfl (script_reachable ht) hlog hid
  exact ⟨t, start, data, ht, hlog, hid, hlength, hshort, hbytes rfl⟩

end Trace

end BlackSiren

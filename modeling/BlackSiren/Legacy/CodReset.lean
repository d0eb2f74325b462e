import BlackSiren.Legacy.CodCalls

/-! # `r2mem_cod` after `reset`

    `reset` leaves the capacities of the buffers and `m_iLen_Pause` as they are.
    Neither shows: `isneedresume` reads `m_iLen_Pause` only while the encoder is
    paused, and `pause` sets it.

    - `Alike`: encoders that cannot be told apart
    - `observe_reset`: a reset encoder and a new one
-/

namespace BlackSiren

namespace R2memCod

variable {F : Type} [CFloat F] {enc : OpusEncoder F}

/-- Two encoders that answer alike. Their capacities may differ, and so may
    `m_iLen_Pause` while neither is paused. -/
structure Alike (c c' : R2memCod F enc) : Prop where
  iCodeType : c.m_iCodeType = c'.m_iCodeType
  input : c.m_pData_In = c'.m_pData_In
  encoded : c.m_iLen_Cod = c'.m_iLen_Cod
  paused : c.m_bPaused = c'.m_bPaused
  output : c.m_pData_Out = c'.m_pData_Out
  handedOut : c.m_iLen_Out_Cur = c'.m_iLen_Out_Cur
  engine : c.m_hEngine_Cod = c'.m_hEngine_Cod
  pauseLen : c.m_bPaused = true → c.m_iLen_Pause = c'.m_iLen_Pause

omit [CFloat F] in
theorem Alike.m_iLen_In {c c' : R2memCod F enc} (h : Alike c c') : c.m_iLen_In = c'.m_iLen_In :=
  congrArg List.length h.input

theorem Alike.encodeFrame {c c' : R2memCod F enc} (h : Alike c c') :
    c.encodeFrame = c'.encodeFrame := by
  unfold R2memCod.encodeFrame
  rw [h.iCodeType, h.input, h.encoded, h.engine]

/-- The loop fails on both or gives encoders alike. -/
theorem Alike.encodeFrames {fuel : Nat} {c c' : R2memCod F enc} (h : Alike c c') :
    (∃ f, encodeFrames fuel c = .error f ∧ encodeFrames fuel c' = .error f) ∨
      ∃ d d', encodeFrames fuel c = .ok d ∧ encodeFrames fuel c' = .ok d' ∧ Alike d d' := by
  induction fuel generalizing c c' with
  | zero => exact .inr ⟨c, c', rfl, rfl, h⟩
  | succ fuel ih =>
    unfold R2memCod.encodeFrames
    -- the test and the frame are the same on both sides
    rw [← h.encoded, ← h.m_iLen_In, ← h.encodeFrame]
    by_cases hroom : c.m_iLen_Cod + lenFrmCod < c.m_iLen_In
    · rw [if_pos hroom, if_pos hroom]
      cases c.encodeFrame with
      | error f => exact .inl ⟨f, rfl, rfl⟩
      | ok r =>
        refine ih ⟨h.iCodeType, h.input, rfl, h.paused, ?_, h.handedOut, rfl, h.pauseLen⟩
        show c.m_pData_Out ++ r.2 = c'.m_pData_Out ++ r.2
        rw [h.output]
    · rw [if_neg hroom, if_neg hroom]
      exact .inr ⟨c, c', rfl, rfl, h⟩

theorem Alike.processdata {c c' : R2memCod F enc} (h : Alike c c') :
    (∃ f, c.processdata = .error f ∧ c'.processdata = .error f) ∨
      ∃ d d', c.processdata = .ok d ∧ c'.processdata = .ok d' ∧ Alike d d' := by
  unfold R2memCod.processdata
  rw [← h.paused, ← h.m_iLen_In]
  cases c.m_bPaused with
  | true => exact .inl ⟨.codPaused, rfl, rfl⟩
  | false => exact h.encodeFrames

/-- Readings agree if what they make of the encoded samples does. -/
theorem Alike.reading {c c' : R2memCod F enc} (h : Alike c c')
    {get : R2memCod F enc → R2memCod F enc × R2memCodAnswer}
    (hget : ∀ {d d'}, Alike d d' → Alike (get d).1 (get d').1 ∧ (get d).2 = (get d').2) :
    Objects.Agree Alike (get <$> c.processdata) (get <$> c'.processdata) := by
  rcases h.processdata with ⟨f, hc, hc'⟩ | ⟨d, d', hc, hc', hd⟩
  · rw [hc, hc']
    exact .fault f
  · rw [hc, hc']
    -- the samples have been encoded on both sides
    obtain ⟨hstate, hanswer⟩ := hget hd
    show Objects.Agree Alike (.ok ((get d).1, (get d).2)) (.ok ((get d').1, (get d').2))
    rw [hanswer]
    exact .answer _ hstate

/-- Every call agrees. -/
theorem Alike.call {c c' : R2memCod F enc} (h : Alike c c') (k : R2memCodCall F) :
    Objects.Agree Alike (c.call k) (c'.call k) := by
  cases k with
  | process l =>
    refine .answer R2memCodAnswer.done
      ⟨h.iCodeType, ?_, h.encoded, h.paused, h.output, h.handedOut, h.engine,
      h.pauseLen⟩
    show c.m_pData_In ++ _ = c'.m_pData_In ++ _
    rw [h.input]
  | getdatalen =>
    simp only [R2memCod.call, getdatalen, bind_pure_comp, Functor.map_map]
    apply h.reading
    intro d d' hd
    refine ⟨hd, ?_⟩
    rw [R2memCod.m_iLen_Out, R2memCod.m_iLen_Out, hd.output, hd.handedOut]
  | getdata iLen =>
    simp only [R2memCod.call, getdata, bind_pure_comp, Functor.map_map]
    apply h.reading
    intro d d' hd
    simp only [R2memCod.m_iLen_Out, hd.output, hd.handedOut]
    refine ⟨?_, trivial⟩
    exact ⟨hd.iCodeType, hd.input, hd.encoded, hd.paused, rfl, rfl, hd.engine, hd.pauseLen⟩
  | getdata2 =>
    simp only [R2memCod.call, getdata2, bind_pure_comp, Functor.map_map]
    apply h.reading
    intro d d' hd
    simp only [R2memCod.m_iLen_Out, hd.output, hd.handedOut]
    refine ⟨?_, trivial⟩
    exact ⟨hd.iCodeType, hd.input, hd.encoded, hd.paused, rfl, rfl, hd.engine, hd.pauseLen⟩
  | pause =>
    exact .answer R2memCodAnswer.done
      ⟨h.iCodeType, h.input, h.encoded, rfl, h.output, rfl, h.engine,
      -- `pause` makes the pause lengths equal
      fun _ => h.m_iLen_In⟩
  | resume =>
    simp only [R2memCod.call, resume]
    rw [← h.paused]
    cases hp : c.m_bPaused with
    | true =>
      exact .answer R2memCodAnswer.done
        ⟨h.iCodeType, h.input, h.encoded, rfl, h.output, h.handedOut, h.engine,
        fun hp => Bool.noConfusion hp⟩
    | false => exact .fault Fault.codNotPaused
  | reset =>
    refine .answer R2memCodAnswer.done
      ⟨h.iCodeType, rfl, rfl, rfl, rfl, rfl, ?_, fun hp => Bool.noConfusion hp⟩
    simp only [R2memCod.reset]
    rw [h.iCodeType, h.engine]
  | istoolong =>
    have hflag : c.istoolong = c'.istoolong := by
      rw [istoolong, istoolong, h.m_iLen_In]
    show Objects.Agree Alike (.ok (c, R2memCodAnswer.flag c.istoolong))
      (.ok (c', R2memCodAnswer.flag c'.istoolong))
    rw [hflag]
    exact .answer _ h
  | isneedresume =>
    -- the pause length counts only while the encoder is paused
    have hflag : c.isneedresume = c'.isneedresume := by
      rw [isneedresume, isneedresume, h.m_iLen_In, ← h.paused]
      cases hp : c.m_bPaused with
      | true => rw [h.pauseLen hp]
      | false => rfl
    show Objects.Agree Alike (.ok (c, R2memCodAnswer.flag c.isneedresume))
      (.ok (c', R2memCodAnswer.flag c'.isneedresume))
    rw [hflag]
    exact .answer _ h

/-- The type of the encoder, and that without OPUS nothing changes the engine. -/
structure OfType (t : R2codType) (c : R2memCod F enc) : Prop where
  iCodeType : c.m_iCodeType = t
  pcm : t = .r2ad_cod_pcm → c.m_hEngine_Cod = enc.create

theorem encodeFrames_ofType {t : R2codType} {fuel : Nat} {c c' : R2memCod F enc}
    (hc : c.OfType t) (h : encodeFrames fuel c = .ok c') : c'.OfType t := by
  induction fuel generalizing c with
  | zero =>
    cases h
    exact hc
  | succ fuel ih =>
    unfold encodeFrames at h
    split at h
    · obtain ⟨⟨e, bytes⟩, hframe, h⟩ := bind_eq_ok.mp h
      refine ih (c := { c with
        m_pData_Out := c.m_pData_Out ++ bytes
        m_iLen_Out_Total := grow c.m_iLen_Out c.m_iLen_Out_Total bytes.length
        m_iLen_Cod := c.m_iLen_Cod + lenFrmCod
        m_hEngine_Cod := e }) ⟨hc.iCodeType, ?_⟩ h
      intro hpcm
      exact (encodeFrame_pcm hframe (hc.iCodeType.trans hpcm)).trans (hc.pcm hpcm)
    · cases h
      exact hc

theorem processdata_ofType {t : R2codType} {c c' : R2memCod F enc} (hc : c.OfType t)
    (h : c.processdata = .ok c') : c'.OfType t := by
  unfold processdata at h
  obtain ⟨_, _, h⟩ := bind_eq_ok.mp h
  exact encodeFrames_ofType hc h

theorem read_ofType {t : R2codType} {c c' : R2memCod F enc} {get : R2memCodCall F}
    {a : R2memCodAnswer} (hc : c.OfType t) (hget : get.reads = true)
    (h : c.call get = .ok (c', a)) : c'.OfType t := by
  obtain ⟨d, cur, hd, rfl⟩ := call_reads hget h
  obtain ⟨htype, hpcm⟩ := processdata_ofType hc hd
  exact ⟨htype, hpcm⟩

theorem call_ofType {t : R2codType} {c c' : R2memCod F enc} {k : R2memCodCall F}
    {a : R2memCodAnswer} (hc : c.OfType t) (h : c.call k = .ok (c', a)) : c'.OfType t := by
  cases k with
  | process l =>
    cases h
    exact ⟨hc.iCodeType, hc.pcm⟩
  | getdatalen => exact read_ofType hc rfl h
  | getdata iLen => exact read_ofType hc rfl h
  | getdata2 => exact read_ofType hc rfl h
  | pause =>
    cases h
    exact ⟨hc.iCodeType, hc.pcm⟩
  | resume =>
    simp only [call, resume] at h
    obtain ⟨d, h₁, h⟩ := bind_eq_ok.mp h
    obtain ⟨_, _, h₁⟩ := bind_eq_ok.mp h₁
    cases h₁
    cases h
    exact ⟨hc.iCodeType, hc.pcm⟩
  | reset =>
    cases h
    refine ⟨hc.iCodeType, ?_⟩
    intro hpcm
    have htype := hc.iCodeType.trans hpcm
    simp only [reset, htype]
    exact hc.pcm hpcm
  | istoolong =>
    cases h
    exact hc
  | isneedresume =>
    cases h
    exact hc

/-- After `reset` an encoder answers like a new one. -/
theorem observe_reset {iCodeType : R2codType} {history : List (R2memCodCall F)} {c : R2memCod F enc}
    {answers : List R2memCodAnswer}
    (h : Objects.run call (new iCodeType) history = .ok (c, answers))
    (further : List (R2memCodCall F)) :
    Objects.observe call c.reset further =
      Objects.observe call (new iCodeType : R2memCod F enc) further := by
  have htype : c.OfType iCodeType :=
    Objects.run_invariant (OfType iCodeType) (fun _ _ _ _ hc hcall => call_ofType hc hcall)
      ⟨rfl, fun _ => rfl⟩ h
  -- a reset encoder differs from a new one in what does not show
  have hreset : Alike c.reset (new iCodeType) := by
    refine ⟨htype.iCodeType, rfl, rfl, rfl, rfl, rfl, ?_, fun hp => Bool.noConfusion hp⟩
    unfold reset
    cases ht : c.m_iCodeType with
    | r2ad_cod_opu => rfl
    | r2ad_cod_pcm => exact htype.pcm (htype.iCodeType.symm.trans ht)
  exact Objects.observe_eq Alike (fun _ _ => True) (fun _ _ k hd _ => hd.call k) hreset
    (Objects.along_of_forall fun _ _ _ => trivial)

end R2memCod

end BlackSiren

import BlackSiren.Framework.Blocks
import BlackSiren.Legacy.Cod

/-! # What `r2mem_cod` has encoded

    - `codOutput`: the encoder output for samples given to `process`
    - `Synced`: the three positions of the unit (in its input, in its output and
      of the encoder) belong together
    - `getdatalen_synced`, `getdata2_synced`: what is read is what comes next
-/

namespace BlackSiren

namespace R2memCod

variable {F : Type} {enc : OpusEncoder F} [CFloat F]

/-- What one frame contributes: the record stored and the encoder afterwards. -/
def encodeRecord (iCodeType : R2codType) (h : enc.State) (frame : List F) :
    Option (enc.State × List UInt8) :=
  match iCodeType with
  | .r2ad_cod_opu =>
      match enc.encode h frame with
      | (h, .packet bytes) => some (h, UInt8.ofNat bytes.length :: bytes)
      | (h, .error 0) => some (h, [])
      | (_, .error (_ + 1)) => none
  | .r2ad_cod_pcm => some (h, frame.flatMap floatBytes)

/-- The scaling `process` does. -/
def scaled (samples : List F) : List F :=
  samples.map fun x => CFloat.div x (CFloat.ofRat 32768)

/-- The encoder output for samples given to `process`: a new encoder reads all
    whole frames of them. -/
def codOutput (enc : OpusEncoder F) (iCodeType : R2codType) (samples : List F) : List UInt8 :=
  Blocks.output (@encodeRecord F enc _ iCodeType) lenFrmCod
    ((scaled samples).length / lenFrmCod) enc.create (scaled samples)

/-- The unit has been given `samples` since its last `reset`; its output is that
    of the frames its encoder has read. -/
structure Synced (samples : List F) (c : R2memCod F enc) : Prop where
  input : c.m_pData_In = scaled samples
  progress : ∃ k, c.m_iLen_Cod = k * lenFrmCod ∧
    Blocks.Progress (encodeRecord c.m_iCodeType) lenFrmCod enc.create c.m_pData_In k
      c.m_hEngine_Cod c.m_pData_Out
  /-- Without an encoder there is nothing to recreate. -/
  pcm : c.m_iCodeType = .r2ad_cod_pcm → c.m_hEngine_Cod = enc.create

theorem new_synced (iCodeType : R2codType) :
    (new iCodeType : R2memCod F enc).Synced [] :=
  ⟨rfl, ⟨0, by simp [new], .start _⟩, fun _ => rfl⟩

theorem Synced.reset {samples : List F} {c : R2memCod F enc} (h : c.Synced samples) :
    c.reset.Synced [] := by
  have hengine : c.reset.m_hEngine_Cod = enc.create := by
    unfold R2memCod.reset
    cases htype : c.m_iCodeType with
    | r2ad_cod_opu => rfl
    | r2ad_cod_pcm => exact h.pcm htype
  refine ⟨rfl, ⟨0, by simp [R2memCod.reset], ?_⟩, fun _ => hengine⟩
  rw [hengine]
  exact .start _

theorem Synced.process {samples : List F} {c : R2memCod F enc} (h : c.Synced samples)
    (pData_In : List F) : (c.process pData_In).Synced (samples ++ pData_In) := by
  obtain ⟨k, hk, hprogress⟩ := h.progress
  refine ⟨?_, ⟨k, hk, hprogress.feed _⟩, h.pcm⟩
  show c.m_pData_In ++ scaled pData_In = scaled (samples ++ pData_In)
  rw [h.input, scaled, scaled, scaled, List.map_append]

/-- What has been encoded is the beginning of the encoder output. -/
theorem Synced.isPrefix {samples : List F} {c : R2memCod F enc} (h : c.Synced samples) :
    c.m_pData_Out <+: codOutput enc c.m_iCodeType samples := by
  obtain ⟨k, -, hprogress⟩ := h.progress
  have hprefix := hprogress.isPrefix (by decide)
  rw [h.input] at hprefix
  exact hprefix

/-! ### Encoding -/

theorem encodeRecord_of_encodeFrame {c : R2memCod F enc} {r : enc.State × List UInt8}
    (h : encodeFrame c = .ok r) :
    encodeRecord c.m_iCodeType c.m_hEngine_Cod
      ((c.m_pData_In.drop c.m_iLen_Cod).take lenFrmCod) = some r := by
  cases htype : c.m_iCodeType with
  | r2ad_cod_opu =>
    simp only [encodeFrame, htype] at h
    simp only [encodeRecord]
    generalize enc.encode c.m_hEngine_Cod _ = outcome at h ⊢
    obtain ⟨e, result⟩ := outcome
    cases result with
    | packet bytes =>
      cases h
      rfl
    | error code =>
      cases code with
      | zero =>
        cases h
        rfl
      | succ code => cases h
  | r2ad_cod_pcm =>
    simp only [encodeFrame, htype, Except.ok.injEq] at h
    rw [encodeRecord, h]

theorem encodeFrame_pcm {c : R2memCod F enc} {r : enc.State × List UInt8}
    (h : encodeFrame c = .ok r) (hpcm : c.m_iCodeType = .r2ad_cod_pcm) :
    r.1 = c.m_hEngine_Cod := by
  simp only [encodeFrame, hpcm, Except.ok.injEq] at h
  rw [← h]

/-- What encoding keeps, and that it only adds output. -/
structure Encodes (c c' : R2memCod F enc) : Prop where
  iCodeType : c'.m_iCodeType = c.m_iCodeType
  cur : c'.m_iLen_Out_Cur = c.m_iLen_Out_Cur
  out : c.m_pData_Out <+: c'.m_pData_Out

omit [CFloat F] in
theorem Encodes.refl (c : R2memCod F enc) : Encodes c c := ⟨rfl, rfl, List.prefix_rfl⟩

theorem encodeFrames_encodes {fuel : Nat} {c c' : R2memCod F enc}
    (h : encodeFrames fuel c = .ok c') : Encodes c c' := by
  induction fuel generalizing c with
  | zero =>
    cases h
    exact .refl _
  | succ fuel ih =>
    unfold encodeFrames at h
    split at h
    · obtain ⟨⟨e, bytes⟩, _, h⟩ := bind_eq_ok.mp h
      obtain ⟨htype, hcur, hout⟩ := ih h
      exact ⟨htype, hcur, (List.prefix_append _ _).trans hout⟩
    · cases h
      exact .refl _

theorem encodeFrames_synced {samples : List F} {fuel : Nat} {c c' : R2memCod F enc}
    (hs : c.Synced samples) (h : encodeFrames fuel c = .ok c') : c'.Synced samples := by
  induction fuel generalizing c with
  | zero =>
    cases h
    exact hs
  | succ fuel ih =>
    unfold encodeFrames at h
    split at h
    · next hroom =>
      obtain ⟨⟨e, bytes⟩, hframe, h⟩ := bind_eq_ok.mp h
      obtain ⟨k, hk, hprogress⟩ := hs.progress
      have hrecord := encodeRecord_of_encodeFrame hframe
      rw [hk] at hrecord hroom
      have hroom' : (k + 1) * lenFrmCod ≤ c.m_pData_In.length := by
        rw [Nat.succ_mul]
        exact Nat.le_of_lt hroom
      -- the unit after this frame
      refine ih (c := { c with
          m_pData_Out := c.m_pData_Out ++ bytes
          m_iLen_Out_Total := grow c.m_iLen_Out c.m_iLen_Out_Total bytes.length
          m_iLen_Cod := c.m_iLen_Cod + lenFrmCod
          m_hEngine_Cod := e }) ⟨hs.input, ⟨k + 1, ?_, hprogress.take hroom' hrecord⟩, ?_⟩ h
      · rw [hk, Nat.succ_mul]
      · intro hpcm
        exact (encodeFrame_pcm hframe hpcm).trans (hs.pcm hpcm)
    · cases h
      exact hs

theorem processdata_encodes {c c' : R2memCod F enc} (h : c.processdata = .ok c') :
    Encodes c c' := by
  unfold processdata at h
  obtain ⟨_, _, h⟩ := bind_eq_ok.mp h
  exact encodeFrames_encodes h

theorem processdata_synced {samples : List F} {c c' : R2memCod F enc} (hs : c.Synced samples)
    (h : c.processdata = .ok c') : c'.Synced samples := by
  unfold processdata at h
  obtain ⟨_, _, h⟩ := bind_eq_ok.mp h
  exact encodeFrames_synced hs h

/-! ### Reading -/

theorem getdatalen_synced {samples : List F} {n : Nat} {c c' : R2memCod F enc}
    (hs : c.Synced samples) (h : c.getdatalen = .ok (n, c')) :
    c'.Synced samples ∧ Encodes c c' := by
  unfold getdatalen at h
  obtain ⟨c₁, hc₁, h⟩ := bind_eq_ok.mp h
  cases h
  exact ⟨processdata_synced hs hc₁, processdata_encodes hc₁⟩

/-- `getdata2` goes on where the last reading stopped, and takes all there is. -/
theorem getdata2_synced {samples : List F} {data : List UInt8} {c c' : R2memCod F enc}
    (hs : c.Synced samples) (h : c.getdata2 = .ok (data, c')) :
    c'.Synced samples ∧ c'.m_iCodeType = c.m_iCodeType ∧
      c.m_pData_Out <+: c'.m_pData_Out ∧ data = c'.m_pData_Out.drop c.m_iLen_Out_Cur ∧
      c'.m_iLen_Out_Cur = c'.m_pData_Out.length := by
  unfold getdata2 at h
  obtain ⟨c₁, hc₁, h⟩ := bind_eq_ok.mp h
  cases h
  obtain ⟨hinput, hprogress, hpcm⟩ := processdata_synced hs hc₁
  have hencodes := processdata_encodes hc₁
  refine ⟨⟨hinput, hprogress, hpcm⟩, hencodes.iCodeType, hencodes.out, ?_, rfl⟩
  rw [hencodes.cur]

/-- Where `getdatalen` has found data, `getdata2` gives some. -/
theorem getdata2_ne_nil {n : Nat} {data : List UInt8} {c c₁ c₂ : R2memCod F enc}
    (hlen : c.getdatalen = .ok (n, c₁)) (hn : 0 < n) (h : c₁.getdata2 = .ok (data, c₂)) :
    data ≠ [] := by
  unfold getdatalen at hlen
  obtain ⟨c', -, hlen⟩ := bind_eq_ok.mp hlen
  cases hlen
  unfold getdata2 at h
  obtain ⟨c'', hc, h⟩ := bind_eq_ok.mp h
  cases h
  obtain ⟨-, hcur, more, hmore⟩ := processdata_encodes hc
  have hlength := congrArg List.length hmore
  rw [List.length_append] at hlength
  intro hnil
  have hle := List.drop_eq_nil_iff.mp hnil
  have hn : 0 < c₁.m_pData_Out.length - c₁.m_iLen_Out_Cur := hn
  omega

end R2memCod

end BlackSiren

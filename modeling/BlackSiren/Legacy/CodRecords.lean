import BlackSiren.Framework.Records
import BlackSiren.Legacy.CodCalls

/-! # The records of `r2mem_cod`

    With OPUS the output is a stream of records, a length byte in front of each
    packet.

    - `OpusEncoder.recorded`: an encoder that keeps what it has returned
    - `waiting`, `replies`: the frames a reading encodes, and what the encoder
      returns for them
    - `Recorded`: the output is the records of the packets
    - `packets_decoded_iff`: when the stream can be taken apart again
-/

namespace BlackSiren

/-- The same encoder, keeping its results since `opus_encoder_create`. -/
def OpusEncoder.recorded {F : Type} (enc : OpusEncoder F) : OpusEncoder F where
  State := enc.State × List OpusResult
  create := (enc.create, [])
  encode := fun h frame =>
    let (h', r) := enc.encode h.1 frame
    ((h', h.2 ++ [r]), r)

namespace OpusResult

/-- The packet, if there is one. -/
def packet? : OpusResult → Option (List UInt8)
  | .packet bytes => some bytes
  | .error _ => none

/-- A packet whose length fits a byte, or the error -1. -/
def Short : OpusResult → Prop
  | .packet bytes => bytes.length < 256
  | .error code => code = 0

/-- The results after which `processdata` goes on. -/
def Stored : OpusResult → Prop
  | .packet _ => True
  | .error code => code = 0

/-- What `opus_encode_float` may return for a buffer of 319 bytes. -/
def Possible : OpusResult → Prop
  | .packet bytes => 1 ≤ bytes.length ∧ bytes.length ≤ 319
  | .error _ => True

/-- What is written for a result after which `processdata` goes on. -/
def record : OpusResult → List UInt8
  | .packet bytes => Records.record bytes
  | .error _ => []

theorem Short.stored {r : OpusResult} (h : r.Short) : r.Stored := by
  cases r with
  | packet bytes => trivial
  | error code => exact h

/-- The records of some results are those of their packets. -/
theorem flatMap_record (rs : List OpusResult) :
    rs.flatMap record = (rs.filterMap packet?).flatMap Records.record := by
  induction rs with
  | nil => rfl
  | cons r rs ih =>
    cases r with
    | packet bytes =>
      have hpacket : (OpusResult.packet bytes).packet? = some bytes := rfl
      rw [List.flatMap_cons, ih, List.filterMap_cons_some hpacket, List.flatMap_cons, record]
    | error code =>
      have herror : (OpusResult.error code).packet? = none := rfl
      rw [List.flatMap_cons, ih, List.filterMap_cons_none herror, record, List.nil_append]

/-- Among results that are stored, the short ones are the short packets. -/
theorem short_iff {rs : List OpusResult} (h : ∀ r ∈ rs, r.Stored) :
    (∀ r ∈ rs, r.Short) ↔ ∀ bytes ∈ rs.filterMap packet?, bytes.length < 256 := by
  constructor
  · intro hshort bytes hbytes
    obtain ⟨r, hr, hpacket⟩ := List.mem_filterMap.mp hbytes
    cases r with
    | packet bytes' =>
      cases hpacket
      exact hshort _ hr
    | error code => cases hpacket
  · intro hpackets r hr
    cases r with
    | packet bytes => exact hpackets bytes (List.mem_filterMap.mpr ⟨_, hr, rfl⟩)
    | error code => exact h _ hr

end OpusResult

namespace R2memCod

variable {F : Type} {enc : OpusEncoder F}

/-- What the encoder has returned since the last `reset`. -/
def results (c : R2memCod F enc.recorded) : List OpusResult := c.m_hEngine_Cod.2

/-- The frames that a reading encodes: all but the last, possibly complete, one. -/
def waiting (c : R2memCod F enc) : List (List F) :=
  (List.range ((c.m_iLen_In - c.m_iLen_Cod - 1) / lenFrmCod)).map fun i =>
    (c.m_pData_In.drop (c.m_iLen_Cod + i * lenFrmCod)).take lenFrmCod

/-- What an encoder returns for some frames, one after the other. -/
def replies (enc : OpusEncoder F) : enc.State → List (List F) → List OpusResult
  | _, [] => []
  | h, frame :: frames => (enc.encode h frame).2 :: replies enc (enc.encode h frame).1 frames

/-- What the encoder returns during a call: only a reading runs it, and only
    when it is not paused. -/
def repliesTo (c : R2memCod F enc.recorded) (k : R2memCodCall F) : List OpusResult :=
  if k.reads = true ∧ c.m_bPaused = false then replies enc c.m_hEngine_Cod.1 c.waiting else []

/-! ### One frame after the other -/

/-- The unit behind one frame. -/
def encoded (c : R2memCod F enc.recorded) (frame : List F) : R2memCod F enc.recorded :=
  { c with
    m_pData_Out := c.m_pData_Out ++ (enc.encode c.m_hEngine_Cod.1 frame).2.record
    m_iLen_Out_Total := grow c.m_iLen_Out c.m_iLen_Out_Total
      (enc.encode c.m_hEngine_Cod.1 frame).2.record.length
    m_iLen_Cod := c.m_iLen_Cod + lenFrmCod
    m_hEngine_Cod := ((enc.encode c.m_hEngine_Cod.1 frame).1,
      c.m_hEngine_Cod.2 ++ [(enc.encode c.m_hEngine_Cod.1 frame).2]) }

theorem waiting_of_room {c : R2memCod F enc.recorded}
    (h : c.m_iLen_Cod + lenFrmCod < c.m_iLen_In) :
    c.waiting = (c.m_pData_In.drop c.m_iLen_Cod).take lenFrmCod ::
      (c.encoded ((c.m_pData_In.drop c.m_iLen_Cod).take lenFrmCod)).waiting := by
  have hsize : lenFrmCod = 320 := rfl
  have hcount : (c.m_iLen_In - c.m_iLen_Cod - 1) / lenFrmCod =
      (c.m_iLen_In - (c.m_iLen_Cod + lenFrmCod) - 1) / lenFrmCod + 1 := by
    rw [hsize] at h ⊢
    omega
  unfold waiting
  rw [hcount, List.range_succ_eq_map, List.map_cons, Nat.zero_mul, Nat.add_zero, List.map_map]
  congr 1
  apply List.map_congr_left
  intro i _
  show ((c.m_pData_In.drop (c.m_iLen_Cod + (i + 1) * lenFrmCod)).take _) =
    (c.m_pData_In.drop (c.m_iLen_Cod + lenFrmCod + i * lenFrmCod)).take _
  rw [Nat.succ_mul, Nat.add_assoc, Nat.add_comm lenFrmCod]

theorem waiting_of_no_room {c : R2memCod F enc}
    (h : ¬ c.m_iLen_Cod + lenFrmCod < c.m_iLen_In) : c.waiting = [] := by
  have hsize : lenFrmCod = 320 := rfl
  have hcount : (c.m_iLen_In - c.m_iLen_Cod - 1) / lenFrmCod = 0 := by
    rw [hsize] at h ⊢
    omega
  unfold waiting
  rw [hcount]
  rfl

variable [CFloat F]

/-- A frame is stored, or it ends the call. -/
theorem encodeFrames_of_room {c : R2memCod F enc.recorded} (fuel : Nat)
    (htype : c.m_iCodeType = .r2ad_cod_opu) (h : c.m_iLen_Cod + lenFrmCod < c.m_iLen_In)
    {frame : List F} (hframe : frame = (c.m_pData_In.drop c.m_iLen_Cod).take lenFrmCod) :
    ((enc.encode c.m_hEngine_Cod.1 frame).2.Stored →
        encodeFrames (fuel + 1) c = encodeFrames fuel (c.encoded frame)) ∧
      (¬ (enc.encode c.m_hEngine_Cod.1 frame).2.Stored →
        encodeFrames (fuel + 1) c = .error .badMemcpy) := by
  have hencode : enc.recorded.encode c.m_hEngine_Cod frame =
      (((enc.encode c.m_hEngine_Cod.1 frame).1,
        c.m_hEngine_Cod.2 ++ [(enc.encode c.m_hEngine_Cod.1 frame).2]),
        (enc.encode c.m_hEngine_Cod.1 frame).2) := rfl
  rw [encodeFrames, if_pos h]
  unfold encodeFrame encoded
  simp only [htype, ← hframe, hencode]
  generalize enc.encode c.m_hEngine_Cod.1 frame = r
  obtain ⟨h', r⟩ := r
  cases r with
  | packet bytes =>
    refine ⟨fun _ => rfl, fun hnot => ?_⟩
    exact absurd trivial hnot
  | error code =>
    cases code with
    | zero =>
      refine ⟨fun _ => rfl, fun hnot => ?_⟩
      exact absurd rfl hnot
    | succ code =>
      refine ⟨fun hstored => ?_, fun _ => rfl⟩
      cases hstored

/-- What encoding some frames has added. -/
structure Adds (c c' : R2memCod F enc.recorded) (rs : List OpusResult) : Prop where
  iCodeType : c'.m_iCodeType = c.m_iCodeType
  cur : c'.m_iLen_Out_Cur = c.m_iLen_Out_Cur
  results : c'.results = c.results ++ rs
  out : c'.m_pData_Out = c.m_pData_Out ++ rs.flatMap OpusResult.record

omit [CFloat F] in
theorem Adds.refl (c : R2memCod F enc.recorded) : Adds c c [] :=
  ⟨rfl, rfl, (List.append_nil _).symm, (List.append_nil _).symm⟩

omit [CFloat F] in
theorem Adds.head {c c' : R2memCod F enc.recorded} {rs : List OpusResult} {frame : List F}
    (h : Adds (c.encoded frame) c' rs) :
    Adds c c' ((enc.encode c.m_hEngine_Cod.1 frame).2 :: rs) := by
  refine ⟨h.iCodeType, h.cur, ?_, ?_⟩
  · rw [h.results]
    exact List.append_assoc _ _ _
  · rw [h.out, List.flatMap_cons, ← List.append_assoc]
    rfl

/-- The loop stores what the encoder returns, or ends at the first result that
    cannot be stored. -/
theorem encodeFrames_replies (fuel : Nat) {c : R2memCod F enc.recorded}
    (htype : c.m_iCodeType = .r2ad_cod_opu) (hfuel : c.m_iLen_In ≤ c.m_iLen_Cod + fuel) :
    ((∀ r ∈ replies enc c.m_hEngine_Cod.1 c.waiting, r.Stored) →
        ∃ c', encodeFrames fuel c = .ok c' ∧ Adds c c' (replies enc c.m_hEngine_Cod.1 c.waiting)) ∧
      ((¬ ∀ r ∈ replies enc c.m_hEngine_Cod.1 c.waiting, r.Stored) →
        encodeFrames fuel c = .error .badMemcpy) := by
  induction fuel generalizing c with
  | zero =>
    have hroom : ¬ c.m_iLen_Cod + lenFrmCod < c.m_iLen_In := by omega
    rw [waiting_of_no_room hroom]
    refine ⟨fun _ => ⟨c, rfl, .refl c⟩, fun hnot => ?_⟩
    exact absurd (by simp [replies]) hnot
  | succ fuel ih =>
    by_cases hroom : c.m_iLen_Cod + lenFrmCod < c.m_iLen_In
    · obtain ⟨hgoes, hstops⟩ := encodeFrames_of_room fuel htype hroom rfl
      rw [waiting_of_room hroom]
      generalize (c.m_pData_In.drop c.m_iLen_Cod).take lenFrmCod = frame at hgoes hstops ⊢
      -- the frames behind this one, with the encoder as it is then
      have hpos : 0 < lenFrmCod := by decide
      obtain ⟨hall, hsome⟩ := ih (c := c.encoded frame) htype
        (by show c.m_iLen_In ≤ c.m_iLen_Cod + lenFrmCod + fuel; omega)
      rw [replies, List.forall_mem_cons]
      constructor
      · rintro ⟨hstored, hrest⟩
        obtain ⟨c', hc', hadds⟩ := hall hrest
        exact ⟨c', (hgoes hstored).trans hc', hadds.head⟩
      · intro hnot
        by_cases hstored : (enc.encode c.m_hEngine_Cod.1 frame).2.Stored
        · rw [hgoes hstored]
          exact hsome fun hrest => hnot ⟨hstored, hrest⟩
        · exact hstops hstored
    · rw [waiting_of_no_room hroom]
      refine ⟨fun _ => ⟨c, ?_, .refl c⟩, fun hnot => ?_⟩
      · rw [encodeFrames, if_neg hroom]
      · exact absurd (by simp [replies]) hnot

/-! ### Calls -/

/-- The stream so far: the records of the packets, and no more handed out than
    there is. -/
structure Recorded (c : R2memCod F enc.recorded) : Prop where
  iCodeType : c.m_iCodeType = .r2ad_cod_opu
  stored : ∀ r ∈ c.results, r.Stored
  out : c.m_pData_Out = c.results.flatMap OpusResult.record
  cur : c.m_iLen_Out_Cur ≤ c.m_iLen_Out

omit [CFloat F] in
theorem recorded_new : (new .r2ad_cod_opu : R2memCod F enc.recorded).Recorded :=
  ⟨rfl, by simp [results, new, OpusEncoder.recorded], rfl, Nat.le_refl 0⟩

omit [CFloat F] in
theorem Recorded.adds {c c' : R2memCod F enc.recorded} {rs : List OpusResult} (hc : c.Recorded)
    (h : Adds c c' rs) (hrs : ∀ r ∈ rs, r.Stored) : c'.Recorded := by
  refine ⟨h.iCodeType.trans hc.iCodeType, ?_, ?_, ?_⟩
  · rw [h.results]
    exact List.forall_mem_append.mpr ⟨hc.stored, hrs⟩
  · rw [h.out, h.results, hc.out, List.flatMap_append]
  · have hle := hc.cur
    show _ ≤ c'.m_pData_Out.length
    rw [h.cur, h.out, List.length_append]
    exact Nat.le_add_right_of_le hle

omit [CFloat F] in
/-- The stream is taken apart into the packets if their lengths fit. -/
theorem Recorded.read_iff {c : R2memCod F enc.recorded} (hc : c.Recorded) :
    Records.read c.m_pData_Out = some (c.results.filterMap OpusResult.packet?) ↔
      ∀ r ∈ c.results, r.Short := by
  rw [hc.out, OpusResult.flatMap_record, Records.read_flatMap_iff,
    OpusResult.short_iff hc.stored]

/-- A reading hands out what comes next of the stream. -/
structure HandsOut (d c' : R2memCod F enc.recorded) (a : R2memCodAnswer) : Prop where
  rest : c' = { d with m_iLen_Out_Cur := c'.m_iLen_Out_Cur }
  cur : c'.m_iLen_Out_Cur ≤ d.m_iLen_Out
  data : ∀ bytes, a = .data bytes →
    bytes = (d.m_pData_Out.drop d.m_iLen_Out_Cur).take bytes.length ∧
      c'.m_iLen_Out_Cur = d.m_iLen_Out_Cur + bytes.length

/-- A reading is `processdata` and a look at the stream. -/
theorem call_of_processdata (c : R2memCod F enc.recorded) {get : R2memCodCall F}
    (hget : get.reads = true) :
    (∀ f, c.processdata = .error f → c.call get = .error f) ∧
      ∀ d, c.processdata = .ok d → d.m_iLen_Out_Cur ≤ d.m_iLen_Out →
        ∃ c' a, c.call get = .ok (c', a) ∧ HandsOut d c' a := by
  cases get with
  | getdatalen =>
    refine ⟨fun f hf => ?_, fun d hd hcur => ?_⟩
    · simp only [call, getdatalen, hf, bind, Except.bind]
    · refine ⟨d, .len (d.m_iLen_Out - d.m_iLen_Out_Cur), ?_, rfl, hcur, ?_⟩
      · simp only [call, getdatalen, hd, bind, Except.bind, pure, Except.pure]
      · intro bytes hbytes
        cases hbytes
  | getdata iLen =>
    refine ⟨fun f hf => ?_, fun d hd hcur => ?_⟩
    · simp only [call, getdata, hf, bind, Except.bind]
    · refine ⟨{ d with
          m_iLen_Out_Cur := d.m_iLen_Out_Cur + min iLen (d.m_iLen_Out - d.m_iLen_Out_Cur) },
        .data ((d.m_pData_Out.drop d.m_iLen_Out_Cur).take
          (min iLen (d.m_iLen_Out - d.m_iLen_Out_Cur))), ?_, rfl, ?_, ?_⟩
      · simp only [call, getdata, hd, bind, Except.bind, pure, Except.pure]
      · show d.m_iLen_Out_Cur + min iLen (d.m_iLen_Out - d.m_iLen_Out_Cur) ≤ d.m_iLen_Out
        omega
      · intro bytes hbytes
        cases hbytes
        have hlen : ((d.m_pData_Out.drop d.m_iLen_Out_Cur).take
            (min iLen (d.m_iLen_Out - d.m_iLen_Out_Cur))).length =
              min iLen (d.m_iLen_Out - d.m_iLen_Out_Cur) := by
          rw [List.length_take, List.length_drop]
          show min _ (d.m_iLen_Out - d.m_iLen_Out_Cur) = _
          omega
        rw [hlen]
        exact ⟨rfl, rfl⟩
  | getdata2 =>
    refine ⟨fun f hf => ?_, fun d hd hcur => ?_⟩
    · simp only [call, getdata2, hf, bind, Except.bind]
    · refine ⟨{ d with m_iLen_Out_Cur := d.m_iLen_Out },
        .data (d.m_pData_Out.drop d.m_iLen_Out_Cur), ?_, rfl, ?_, ?_⟩
      · simp only [call, getdata2, hd, bind, Except.bind, pure, Except.pure]
      · exact Nat.le_refl _
      · intro bytes hbytes
        cases hbytes
        refine ⟨(List.take_length).symm, ?_⟩
        rw [List.length_drop]
        show d.m_iLen_Out = d.m_iLen_Out_Cur + (d.m_iLen_Out - d.m_iLen_Out_Cur)
        omega
  | _ => cases hget

/-- A call that returns, by its outcome. -/
theorem unread_of_ok {c c₁ : R2memCod F enc.recorded} {k : R2memCodCall F} {a₁ : R2memCodAnswer}
    (h : c.call k = .ok (c₁, a₁)) (hc₁ : c₁.Recorded) (hsub : ∀ r ∈ c₁.results, r ∈ c.results)
    (hdata : ∀ bytes, a₁ ≠ .data bytes) :
    c.call k ≠ .error .badMemcpy ∧ ∀ c' a, c.call k = .ok (c', a) → c'.Recorded ∧
      (∀ r ∈ c'.results, r ∈ c.results) ∧ ∀ bytes, a ≠ .data bytes := by
  rw [h]
  refine ⟨by simp, ?_⟩
  intro c' a h'
  cases h'
  exact ⟨hc₁, hsub, hdata⟩

theorem unread_of_error {c : R2memCod F enc.recorded} {k : R2memCodCall F} {e : Fault}
    (h : c.call k = .error e) (he : e ≠ .badMemcpy) :
    c.call k ≠ .error .badMemcpy ∧ ∀ c' a, c.call k = .ok (c', a) → c'.Recorded ∧
      (∀ r ∈ c'.results, r ∈ c.results) ∧ ∀ bytes, a ≠ .data bytes := by
  rw [h]
  refine ⟨fun hbad => he (Except.error.inj hbad), ?_⟩
  intro c' a h'
  cases h'

omit [CFloat F] in
/-- The encoder is a new one, and the stream starts again. -/
theorem results_reset {c : R2memCod F enc.recorded} (hc : c.Recorded) : c.reset.results = [] := by
  unfold results R2memCod.reset
  simp only [hc.iCodeType]
  rfl

/-- A call while the encoder is paused, or one that does not read. -/
theorem call_without_replies {c : R2memCod F enc.recorded} {k : R2memCodCall F}
    (hc : c.Recorded) (hk : ¬ (k.reads = true ∧ c.m_bPaused = false)) :
    c.call k ≠ .error .badMemcpy ∧ ∀ c' a, c.call k = .ok (c', a) → c'.Recorded ∧
      (∀ r ∈ c'.results, r ∈ c.results) ∧ ∀ bytes, a ≠ .data bytes := by
  by_cases hreads : k.reads = true
  · -- the assertion of `processdata` fails
    have hpaused : c.m_bPaused = true := by
      by_contra hp
      exact hk ⟨hreads, Bool.eq_false_iff.mpr hp⟩
    have hfault : c.call k = .error .codPaused := by
      apply (call_of_processdata c hreads).1
      unfold processdata
      rw [hpaused]
      rfl
    exact unread_of_error hfault (by simp)
  · cases k with
    | process pData_In =>
      exact unread_of_ok rfl ⟨hc.iCodeType, hc.stored, hc.out, hc.cur⟩ (fun r hr => hr) (by simp)
    | pause =>
      exact unread_of_ok rfl ⟨hc.iCodeType, hc.stored, hc.out, Nat.zero_le _⟩ (fun r hr => hr)
        (by simp)
    | reset =>
      have hresults := results_reset hc
      refine unread_of_ok rfl ⟨hc.iCodeType, ?_, ?_, Nat.le_refl 0⟩ ?_ (by simp)
      · rw [hresults]
        simp
      · rw [hresults]
        rfl
      · rw [hresults]
        simp
    | resume =>
      cases hp : c.m_bPaused with
      | true =>
        have hcall : c.call .resume = .ok ({ c with m_bPaused := false }, .done) := by
          simp only [call, resume_of_paused hp, bind, Except.bind, pure, Except.pure]
        exact unread_of_ok hcall ⟨hc.iCodeType, hc.stored, hc.out, hc.cur⟩ (fun r hr => hr)
          (by simp)
      | false =>
        have hcall : c.call .resume = .error .codNotPaused := by
          simp only [call, resume, hp]
          rfl
        exact unread_of_error hcall (by simp)
    | istoolong => exact unread_of_ok rfl hc (fun r hr => hr) (by simp)
    | isneedresume => exact unread_of_ok rfl hc (fun r hr => hr) (by simp)
    | _ => exact absurd rfl hreads

/-- A reading while the encoder is not paused. -/
theorem call_replies {c : R2memCod F enc.recorded} {k : R2memCodCall F} (hc : c.Recorded)
    (hk : k.reads = true) (hp : c.m_bPaused = false) :
    ((∀ r ∈ c.repliesTo k, r.Stored) → ∃ d c' a, c.call k = .ok (c', a) ∧
        Adds c d (c.repliesTo k) ∧ HandsOut d c' a) ∧
      ((¬ ∀ r ∈ c.repliesTo k, r.Stored) → c.call k = .error .badMemcpy) := by
  obtain ⟨hall, hsome⟩ := encodeFrames_replies c.m_iLen_In hc.iCodeType
    (Nat.le_add_left _ _)
  have hdata : c.processdata = encodeFrames c.m_iLen_In c := by
    unfold processdata
    rw [hp]
    rfl
  obtain ⟨hfault, hreturns⟩ := call_of_processdata c hk
  unfold repliesTo
  rw [if_pos ⟨hk, hp⟩]
  constructor
  · intro hstored
    obtain ⟨d, hd, hadds⟩ := hall hstored
    obtain ⟨c', a, hcall, hout⟩ := hreturns d (hdata.trans hd) (hc.adds hadds hstored).cur
    exact ⟨d, c', a, hcall, hadds, hout⟩
  · intro hnot
    exact hfault _ (hdata.trans (hsome hnot))

/-! ### The stream of packets -/

/-- A call as it should be, with an encoder that returns anything: it does not
    go wrong over a result, the stream is taken apart into exactly the packets
    returned since the last `reset`, so that an error adds no bytes to it, and
    what is handed out is what comes next in the stream. -/
structure Streams (c : R2memCod F enc.recorded) (k : R2memCodCall F) : Prop where
  returns : c.call k ≠ .error .badMemcpy
  packets : ∀ c' a, c.call k = .ok (c', a) →
    Records.read c'.m_pData_Out = some (c'.results.filterMap OpusResult.packet?)
  handed : ∀ c' bytes, c.call k = .ok (c', .data bytes) →
    bytes = (c'.m_pData_Out.drop c.m_iLen_Out_Cur).take bytes.length ∧
      c'.m_iLen_Out_Cur = c.m_iLen_Out_Cur + bytes.length

/-- The state in which only short results have been returned. -/
structure Sound (c : R2memCod F enc.recorded) : Prop extends Recorded c where
  short : ∀ r ∈ c.results, r.Short

/-- Short results keep it. -/
theorem Sound.call {c c' : R2memCod F enc.recorded} {k : R2memCodCall F} {a : R2memCodAnswer}
    (hc : c.Sound) (hshort : ∀ r ∈ c.repliesTo k, r.Short) (h : c.call k = .ok (c', a)) :
    c'.Sound := by
  by_cases hk : k.reads = true ∧ c.m_bPaused = false
  · have hstored : ∀ r ∈ c.repliesTo k, r.Stored := fun r hr => (hshort r hr).stored
    obtain ⟨d, c'', a', hcall, hadds, hout⟩ := (call_replies hc.toRecorded hk.1 hk.2).1 hstored
    obtain ⟨rfl, rfl⟩ := Prod.mk.inj (Except.ok.inj (hcall.symm.trans h))
    have hd := hc.toRecorded.adds hadds hstored
    rw [hout.rest]
    refine ⟨⟨hd.iCodeType, hd.stored, hd.out, hout.cur⟩, ?_⟩
    show ∀ r ∈ d.results, r.Short
    rw [hadds.results]
    exact List.forall_mem_append.mpr ⟨hc.short, hshort⟩
  · obtain ⟨-, hrest⟩ := call_without_replies hc.toRecorded hk
    obtain ⟨hrecorded, hsub, -⟩ := hrest c' a h
    exact ⟨hrecorded, fun r hr => hc.short r (hsub r hr)⟩

/-- Where the stream is sound, a call is as it should be exactly if it meets
    short results only. -/
theorem Sound.streams_iff {c : R2memCod F enc.recorded} (hc : c.Sound) (k : R2memCodCall F) :
    c.Streams k ↔ ∀ r ∈ c.repliesTo k, r.Short := by
  by_cases hk : k.reads = true ∧ c.m_bPaused = false
  · obtain ⟨hgoes, hstops⟩ := call_replies hc.toRecorded hk.1 hk.2
    constructor
    · intro hs
      -- a result that cannot be stored is `memcpy`'s fault
      have hstored : ∀ r ∈ c.repliesTo k, r.Stored := by
        by_contra hnot
        exact hs.returns (hstops hnot)
      obtain ⟨d, c', a, hcall, hadds, hout⟩ := hgoes hstored
      have hread := hs.packets c' a hcall
      rw [hout.rest] at hread
      -- and one that is too long is not read back
      have hshort := (hc.toRecorded.adds hadds hstored).read_iff.mp hread
      rw [hadds.results] at hshort
      exact (List.forall_mem_append.mp hshort).2
    · intro hshort
      have hstored : ∀ r ∈ c.repliesTo k, r.Stored := fun r hr => (hshort r hr).stored
      obtain ⟨d, c', a, hcall, hadds, hout⟩ := hgoes hstored
      refine ⟨?_, ?_, ?_⟩
      · rw [hcall]
        simp
      · intro c'' a' h
        have hsound := hc.call hshort h
        exact hsound.toRecorded.read_iff.mpr hsound.short
      · intro c'' bytes h
        rw [hcall] at h
        cases h
        obtain ⟨hdata, hcur⟩ := hout.data bytes rfl
        rw [hadds.cur] at hdata hcur
        refine ⟨?_, hcur⟩
        rw [hout.rest]
        exact hdata
  · obtain ⟨hreturns, hrest⟩ := call_without_replies hc.toRecorded hk
    have hnone : c.repliesTo k = [] := if_neg hk
    rw [hnone]
    refine ⟨fun _ => by simp, fun _ => ⟨hreturns, ?_, ?_⟩⟩
    · intro c' a h
      obtain ⟨hrecorded, hsub, -⟩ := hrest c' a h
      exact hrecorded.read_iff.mpr fun r hr => hc.short r (hsub r hr)
    · intro c' bytes h
      exact absurd rfl ((hrest c' _ h).2.2 bytes)

/-- An encoder whose packets have 256 bytes. -/
def longPackets : OpusEncoder ℚ :=
  ⟨Unit, (), fun _ _ => ((), .packet (List.replicate 256 0))⟩

end R2memCod

end BlackSiren

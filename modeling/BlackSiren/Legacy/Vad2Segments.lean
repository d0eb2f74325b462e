import Mathlib.Data.List.Induction
import BlackSiren.Legacy.Vad2Calls

/-! # The speech segments `r2mem_vad2` hands out

    The engine's voice buffer grows while speech is open.  `process` copies what
    it has gained since the frame before, so that the output of the calls of a
    segment is the whole buffer.

    - `VoiceGrows`: the buffer only grows between a start and the restart
    - `Segments`: a sequence of results, cut into segments
    - `run_segments`: the segments of a run are the engine's voice buffers
-/

namespace BlackSiren

namespace VadEngine

variable {F : Type} (eng : VadEngine F)

/-- The states between a start and the restart that follows it. -/
inductive Speaking : eng.State → Prop where
  | start (h : eng.State) (wave : List F) (e a : Bool) :
      eng.Reached h → eng.startFrame (eng.input h wave e a) ≥ 0 → Speaking (eng.input h wave e a)
  | goes_on (h : eng.State) (wave : List F) (e a : Bool) :
      Speaking h → Speaking (eng.input h wave e a)

/-- The frames `[0, VD_GetVoiceFrameNum)` of the voice buffer. -/
def voiceFrames (h : eng.State) : List F :=
  (List.range ((eng.frameNum h).toNat * R2memVad2.m_iFrmSize)).map (eng.voice h)

/-- Between a start and the restart that follows it, the voice buffer only
    grows. -/
structure VoiceGrows : Prop where
  frameNum : ∀ h, eng.Speaking h → ∀ wave e a,
    (eng.frameNum h).toNat ≤ (eng.frameNum (eng.input h wave e a)).toNat
  voice : ∀ h, eng.Speaking h → ∀ wave e a,
    ∀ k < (eng.frameNum h).toNat * R2memVad2.m_iFrmSize,
      eng.voice (eng.input h wave e a) k = eng.voice h k

variable {eng}

theorem Speaking.reached {h : eng.State} (hs : eng.Speaking h) : eng.Reached h := by
  induction hs with
  | start h wave e a hr _ => exact .input h wave e a hr
  | goes_on h wave e a _ ih => exact .input h wave e a ih

/-- The frames an input adds to the voice buffer. -/
theorem VoiceGrows.voiceFrames_input (hg : eng.VoiceGrows) {h : eng.State} (hs : eng.Speaking h)
    (wave : List F) (e a : Bool) :
    eng.voiceFrames (eng.input h wave e a) =
      eng.voiceFrames h ++
        (List.range (((eng.frameNum (eng.input h wave e a)).toNat - (eng.frameNum h).toNat) *
          R2memVad2.m_iFrmSize)).map fun k =>
            eng.voice (eng.input h wave e a)
              ((eng.frameNum h).toNat * R2memVad2.m_iFrmSize + k) := by
  have hle := hg.frameNum h hs wave e a
  have hsplit : (eng.frameNum (eng.input h wave e a)).toNat * R2memVad2.m_iFrmSize =
      (eng.frameNum h).toNat * R2memVad2.m_iFrmSize +
        ((eng.frameNum (eng.input h wave e a)).toNat - (eng.frameNum h).toNat) *
          R2memVad2.m_iFrmSize := by
    rw [← Nat.add_mul, Nat.add_sub_cancel' hle]
  -- the old frames come first, and the engine has not changed them
  rw [voiceFrames, hsplit, map_range_add, voiceFrames]
  congr 1
  exact List.map_congr_left fun k hk => hg.voice h hs wave e a k (List.mem_range.mp hk)

end VadEngine

/-! ### Results, cut into segments -/

/-- A sequence of outputs and result bits, with the output of each segment that
    has ended and that of the segment that is open. Outside a segment nothing is
    put out. -/
inductive Segments {F : Type} :
    List (List F × VadResult) → List (List F) → Option (List F) → Prop where
  | start : Segments [] [] none
  | outside {rs done} : Segments rs done none →
      Segments (rs ++ [([], ⟨false, false⟩)]) done none
  | begins {rs done} (out : List F) : Segments rs done none →
      Segments (rs ++ [(out, ⟨true, false⟩)]) done (some out)
  | inside {rs done cur} (out : List F) : Segments rs done (some cur) →
      Segments (rs ++ [(out, ⟨false, false⟩)]) done (some (cur ++ out))
  | ends {rs done cur} (out : List F) : Segments rs done (some cur) →
      Segments (rs ++ [(out, ⟨false, true⟩)]) (done ++ [cur ++ out]) none
  | both {rs done} (out : List F) : Segments rs done none →
      Segments (rs ++ [(out, ⟨true, true⟩)]) (done ++ [out]) none

/-- Bits that alternate, from the open flag before them to the one after. -/
inductive Alternating : Bool → List VadResult → Bool → Prop where
  | nil (b : Bool) : Alternating b [] b
  | quiet {b b' l} : Alternating b l b' → Alternating b (⟨false, false⟩ :: l) b'
  | begins {b l} : Alternating true l b → Alternating false (⟨true, false⟩ :: l) b
  | ends {b l} : Alternating false l b → Alternating true (⟨false, true⟩ :: l) b

theorem Alternating.append {b b' b'' : Bool} {l l' : List VadResult} (h : Alternating b l b')
    (h' : Alternating b' l' b'') : Alternating b (l ++ l') b'' := by
  induction h with
  | nil => exact h'
  | quiet _ ih => exact .quiet (ih h')
  | begins _ ih => exact .begins (ih h')
  | ends _ ih => exact .ends (ih h')

/-- The bits of a call: those of its turns, joined by `|`. -/
def orBits (l : List VadResult) : VadResult :=
  ⟨l.any (·.audio_begin), l.any (·.audio_end)⟩

namespace R2memVad2

variable {F : Type} {eng : VadEngine F}

/-! ### The bits, turn by turn -/

/-- The bits each turn of the loop sets. -/
def turnBits (bIsEnd bIsAec bForceStart : Bool) (iFrmNum : Nat) :
    Nat → Nat → R2memVad2 F eng → List VadResult
  | 0, _, _ => []
  | fuel + 1, i, v =>
      if v.m_iVadState then
        let (v, _, stopped) := speechFrame v i iFrmNum bIsEnd bIsAec
        if stopped then [⟨false, true⟩]
        else ⟨false, false⟩ :: turnBits bIsEnd bIsAec bForceStart iFrmNum fuel (i + 1) v
      else
        let (v, _, started) := idleFrame v i bIsEnd bIsAec bForceStart
        ⟨started, false⟩ :: turnBits bIsEnd bIsAec bForceStart iFrmNum fuel (i + 1) v

/-- The loop returns the bits of its turns. -/
theorem frames_bits (e a f : Bool) (n fuel i : Nat) (v : R2memVad2 F eng) :
    (frames e a f n fuel i v).2.2 = orBits (turnBits e a f n fuel i v) := by
  induction fuel generalizing i v with
  | zero => rfl
  | succ fuel ih =>
    simp only [frames, turnBits]
    cases v.m_iVadState with
    | false =>
      simp only [Bool.false_eq_true, if_false]
      rw [ih]
      rfl
    | true =>
      simp only [if_true]
      cases (speechFrame v i n e a).2.2 with
      | true => rfl
      | false =>
        simp only [Bool.false_eq_true, if_false]
        rw [ih]
        rfl

/-- The bits alternate. -/
theorem turnBits_alternating (e a f : Bool) (n fuel i : Nat) (v : R2memVad2 F eng) :
    Alternating v.m_iVadState (turnBits e a f n fuel i v)
      (frames e a f n fuel i v).1.m_iVadState := by
  -- the state after a turn decides which bit the next one may set
  induction fuel generalizing i v with
  | zero => exact .nil _
  | succ fuel ih =>
    cases hv : v.m_iVadState with
    | false =>
      have hturn := idleFrame_m_iVadState i e a f hv
      have hrest := ih (i + 1) (idleFrame v i e a f).1
      simp only [turnBits, frames, hv, Bool.false_eq_true, if_false]
      rw [hturn] at hrest
      cases hs : (idleFrame v i e a f).2.2 with
      | true =>
        rw [hs] at hrest
        exact .begins hrest
      | false =>
        rw [hs] at hrest
        exact .quiet hrest
    | true =>
      have hturn := speechFrame_m_iVadState i n e a hv
      have hrest := ih (i + 1) (speechFrame v i n e a).1
      simp only [turnBits, frames, hv, if_true]
      cases hs : (speechFrame v i n e a).2.2 with
      | true =>
        rw [hs] at hturn
        simp only [if_true]
        rw [hturn]
        -- the turn that ends speech is the last one
        exact .ends (.nil _)
      | false =>
        rw [hs] at hturn
        rw [hturn] at hrest
        simp only [Bool.false_eq_true, if_false]
        exact .quiet hrest

/-! ### What the turns put out -/

/-- The unit inside speech: it has handed out the whole voice buffer. -/
structure Inside (v : R2memVad2 F eng.recorded) : Prop where
  speech : v.m_iVadState = true
  speaking : eng.Speaking v.m_hEngine_Vad.1
  lastFrame : v.m_iLastFrame = (eng.frameNum v.m_hEngine_Vad.1).toNat

/-- The unit while no speech is open. -/
structure Outside (v : R2memVad2 F eng.recorded) : Prop where
  speech : v.m_iVadState = false
  reached : eng.Reached v.m_hEngine_Vad.1

/-- The frames taken from the buffer, and the position afterwards. -/
theorem takeVoice_eq (v : R2memVad2 F eng)
    (h : v.m_iLastFrame ≤ (eng.frameNum v.m_hEngine_Vad).toNat) :
    v.takeVoice.2 =
        (List.range (((eng.frameNum v.m_hEngine_Vad).toNat - v.m_iLastFrame) * m_iFrmSize)).map
          (fun k => eng.voice v.m_hEngine_Vad (v.m_iLastFrame * m_iFrmSize + k)) ∧
      v.takeVoice.1.m_iLastFrame = (eng.frameNum v.m_hEngine_Vad).toNat := by
  unfold takeVoice
  simp only
  split
  · exact ⟨rfl, rfl⟩
  · next hle =>
    have heq : (eng.frameNum v.m_hEngine_Vad).toNat = v.m_iLastFrame := by omega
    rw [heq, Nat.sub_self, Nat.zero_mul]
    exact ⟨rfl, rfl⟩

theorem restarts_input (h : eng.recorded.State) (wave : List F) (e a : Bool) :
    VadEngine.restarts (eng.recorded.input h wave e a) = VadEngine.restarts h := by
  show (h.2 ++ [VadEngine.Event.fed wave]).filterMap _ = _
  rw [List.filterMap_append]
  exact List.append_nil _

theorem restarts_restart (h : eng.recorded.State) :
    VadEngine.restarts (eng.recorded.restart h) = VadEngine.restarts h ++ [h.1] := by
  show (h.2 ++ [VadEngine.Event.restarted h.1]).filterMap _ = _
  rw [List.filterMap_append]
  rfl

theorem Outside.idleEngine_reached {v : R2memVad2 F eng.recorded} (hv : v.Outside) (i : Nat)
    (e a f : Bool) : eng.Reached (v.idleEngine i e a f).1 := by
  rw [← idleEngine_forget]
  exact R2memVad2.idleEngine_reached hv.reached i e a f

theorem idleEngine_restarts (v : R2memVad2 F eng.recorded) (i : Nat) (e a f : Bool) :
    VadEngine.restarts (v.idleEngine i e a f) = VadEngine.restarts v.m_hEngine_Vad := by
  rw [idleEngine, restarts_input]
  cases f with
  | true => rfl
  | false => rfl

/-- A turn that opens speech hands out the buffer as it is. -/
theorem takeVoice_opened {v : R2memVad2 F eng.recorded} (hv : v.Outside) {i : Nat} {e a f : Bool}
    (hstart : eng.recorded.startFrame (v.idleEngine i e a f) ≥ 0)
    {w : R2memVad2 F eng.recorded}
    (hw : w = { v.heard i e a f with m_iLastFrame := 0, m_iVadState := true }) :
    w.takeVoice.1.Inside ∧ w.takeVoice.2 = eng.voiceFrames w.takeVoice.1.m_hEngine_Vad.1 ∧
      VadEngine.restarts w.takeVoice.1.m_hEngine_Vad = VadEngine.restarts v.m_hEngine_Vad := by
  have hengine : w.m_hEngine_Vad = v.idleEngine i e a f := by
    rw [hw]
    rfl
  have hzero : w.m_iLastFrame = 0 := by rw [hw]
  have hspeaking : eng.Speaking (v.idleEngine i e a f).1 := by
    cases f with
    | true => exact .start _ _ _ _ (hv.reached.force a) hstart
    | false => exact .start _ _ _ _ hv.reached hstart
  -- the position starts at zero: what is handed out is the whole buffer
  obtain ⟨hout, hlast⟩ := takeVoice_eq w (by rw [hzero]; exact Nat.zero_le _)
  refine ⟨⟨?_, ?_, ?_⟩, ?_, ?_⟩
  · rw [takeVoice_m_iVadState, hw]
  · rw [takeVoice_m_hEngine_Vad, hengine]
    exact hspeaking
  · rw [hlast, takeVoice_m_hEngine_Vad]
    rfl
  · rw [hout, hzero, takeVoice_m_hEngine_Vad]
    simp only [Nat.sub_zero, Nat.zero_mul, Nat.zero_add]
    rfl
  · rw [takeVoice_m_hEngine_Vad, hengine, idleEngine_restarts]

/-- A turn inside speech hands out what the buffer has gained. -/
theorem takeVoice_listened (hg : eng.VoiceGrows) {v : R2memVad2 F eng.recorded} (hv : v.Inside)
    (i : Nat) (e a : Bool) :
    (v.listened i e a).takeVoice.1.Inside ∧
      eng.voiceFrames (v.speechEngine i e a).1 =
        eng.voiceFrames v.m_hEngine_Vad.1 ++ (v.listened i e a).takeVoice.2 := by
  have hgrow := hg.frameNum _ hv.speaking (v.wave i) e a
  have hvoice := hg.voiceFrames_input hv.speaking (v.wave i) e a
  have hlast : (v.listened i e a).m_iLastFrame = (eng.frameNum v.m_hEngine_Vad.1).toNat :=
    hv.lastFrame
  obtain ⟨hout, hlast'⟩ := takeVoice_eq (v.listened i e a) (by rw [hlast]; exact hgrow)
  refine ⟨⟨?_, ?_, ?_⟩, ?_⟩
  · exact (takeVoice_m_iVadState _).trans hv.speech
  · rw [takeVoice_m_hEngine_Vad]
    exact .goes_on _ _ _ _ hv.speaking
  · rw [hlast', takeVoice_m_hEngine_Vad]
    rfl
  · rw [hout, hlast]
    exact hvoice

/-! ### What the loop puts out -/

/-- The loop from inside speech: it goes on, or ends. -/
inductive FromInside (v : R2memVad2 F eng.recorded) :
    R2memVad2 F eng.recorded × List F × VadResult → Prop where
  | stays (v' : R2memVad2 F eng.recorded) (out : List F) (hin : v'.Inside)
      (hvoice : eng.voiceFrames v'.m_hEngine_Vad.1 = eng.voiceFrames v.m_hEngine_Vad.1 ++ out)
      (hr : VadEngine.restarts v'.m_hEngine_Vad = VadEngine.restarts v.m_hEngine_Vad) :
      FromInside v (v', out, ⟨false, false⟩)
  | ends (v' : R2memVad2 F eng.recorded) (out : List F) (h : eng.State) (hout : v'.Outside)
      (hvoice : eng.voiceFrames h = eng.voiceFrames v.m_hEngine_Vad.1 ++ out)
      (hr : VadEngine.restarts v'.m_hEngine_Vad = VadEngine.restarts v.m_hEngine_Vad ++ [h]) :
      FromInside v (v', out, ⟨false, true⟩)

/-- The loop from outside speech: nothing, a begin, or a whole segment. -/
inductive FromOutside (v : R2memVad2 F eng.recorded) :
    R2memVad2 F eng.recorded × List F × VadResult → Prop where
  | idle (v' : R2memVad2 F eng.recorded) (hout : v'.Outside)
      (hr : VadEngine.restarts v'.m_hEngine_Vad = VadEngine.restarts v.m_hEngine_Vad) :
      FromOutside v (v', [], ⟨false, false⟩)
  | begins (v' : R2memVad2 F eng.recorded) (hin : v'.Inside)
      (hr : VadEngine.restarts v'.m_hEngine_Vad = VadEngine.restarts v.m_hEngine_Vad) :
      FromOutside v (v', eng.voiceFrames v'.m_hEngine_Vad.1, ⟨true, false⟩)
  | both (v' : R2memVad2 F eng.recorded) (h : eng.State) (hout : v'.Outside)
      (hr : VadEngine.restarts v'.m_hEngine_Vad = VadEngine.restarts v.m_hEngine_Vad ++ [h]) :
      FromOutside v (v', eng.voiceFrames h, ⟨true, true⟩)

theorem frames_fromInside (hg : eng.VoiceGrows) (e a f : Bool) (n fuel i : Nat)
    {v : R2memVad2 F eng.recorded} (hv : v.Inside) :
    FromInside v (frames e a f n fuel i v) := by
  induction fuel generalizing i v with
  | zero => exact .stays v [] hv (List.append_nil _).symm rfl
  | succ fuel ih =>
    obtain ⟨hin, hvoice⟩ := takeVoice_listened hg hv i e a
    have hrestarts : VadEngine.restarts (v.speechEngine i e a) =
        VadEngine.restarts v.m_hEngine_Vad := restarts_input _ _ _ _
    -- what this turn hands out comes before what the later ones do
    by_cases hstop : eng.recorded.stopFrame (v.speechEngine i e a) > 0
    · rw [frames_stops f fuel hv.speech hstop]
      have hreached : eng.Reached (v.speechEngine i e a).1 := .input _ _ _ _ hv.speaking.reached
      -- the engine is restarted in the state that holds the segment
      refine .ends _ _ (v.speechEngine i e a).1 ⟨rfl, .restart _ hreached⟩ hvoice ?_
      exact (restarts_restart _).trans (by rw [hrestarts])
    · rw [frames_goes_on f fuel hv.speech hstop]
      have hrest := ih (i + 1) hin
      have hengine : (v.listened i e a).takeVoice.1.m_hEngine_Vad = v.speechEngine i e a :=
        takeVoice_m_hEngine_Vad _
      generalize frames e a f n fuel (i + 1) (v.listened i e a).takeVoice.1 = r at hrest ⊢
      cases hrest with
      | stays v' out hin' hvoice' hr =>
        refine .stays v' _ hin' ?_ ?_
        · rw [hvoice', hengine, hvoice, List.append_assoc]
        · rw [hr, hengine, hrestarts]
      | ends v' out h hout' hvoice' hr =>
        refine .ends v' _ h hout' ?_ ?_
        · rw [hvoice', hengine, hvoice, List.append_assoc]
        · rw [hr, hengine, hrestarts]

theorem frames_fromOutside (hg : eng.VoiceGrows) (e a f : Bool) (n fuel i : Nat)
    {v : R2memVad2 F eng.recorded} (hv : v.Outside) :
    FromOutside v (frames e a f n fuel i v) := by
  induction fuel generalizing i v with
  | zero => exact .idle v hv rfl
  | succ fuel ih =>
    rw [frames_idle e a f n fuel i hv.speech, idleFrame_eq]
    -- once speech is open the rest of the loop is a loop from inside
    by_cases hstart : eng.recorded.startFrame (v.idleEngine i e a f) ≥ 0
    · obtain ⟨hin, hout, hr⟩ := takeVoice_opened hv hstart rfl
      have hrest := frames_fromInside hg e a f n fuel (i + 1) hin
      rw [if_pos hstart]
      simp only [Bool.true_or]
      -- the begin bit stays set whatever the later turns answer
      generalize (takeVoice { v.heard i e a f with m_iLastFrame := 0, m_iVadState := true }) = w
        at hin hout hr hrest ⊢
      generalize frames e a f n fuel (i + 1) w.1 = r at hrest ⊢
      rw [hout]
      cases hrest with
      | stays v' out hin' hvoice hr' =>
        rw [← hvoice]
        exact .begins v' hin' (hr'.trans hr)
      | ends v' out h hout' hvoice hr' =>
        rw [← hvoice]
        exact .both v' h hout' (by rw [hr', hr])
    · rw [if_neg hstart]
      simp only [Bool.false_or, List.nil_append]
      have hreached := hv.idleEngine_reached i e a f
      have hrest := ih (i + 1) (v := v.heard i e a f) ⟨hv.speech, hreached⟩
      have hr : VadEngine.restarts (v.heard i e a f).m_hEngine_Vad =
          VadEngine.restarts v.m_hEngine_Vad := idleEngine_restarts v i e a f
      generalize frames e a f n fuel (i + 1) (v.heard i e a f) = r at hrest ⊢
      cases hrest with
      | idle v' hout hr' => exact .idle v' hout (hr'.trans hr)
      | begins v' hin hr' => exact .begins v' hin (hr'.trans hr)
      | both v' h hout hr' => exact .both v' h hout (by rw [hr', hr])

/-! ### Runs -/

section Runs

variable [CFloat F]

/-- The bits of a call, turn by turn. -/
def callBits (v : R2memVad2 F eng) (c : VadInput F) : List VadResult :=
  turnBits c.bIsEnd c.bIsAec c.bForceStart (v.frmNum c) (v.frmNum c) 0 (v.cut c)

/-- The bits of a run, call by call. -/
def runBits (v : R2memVad2 F eng) : List (VadInput F) → List (List VadResult)
  | [] => []
  | c :: cs =>
      v.callBits c ::
        match v.input c with
        | .ok (v', _) => runBits v' cs
        | .error _ => []

/-- The answers so far are cut into the voice buffers of the restarts and, inside
    speech, the buffer there is. -/
def Cut (v : R2memVad2 F eng.recorded) (answers : List (List F × VadResult)) : Prop :=
  (v.Outside ∧
      Segments answers ((VadEngine.restarts v.m_hEngine_Vad).map eng.voiceFrames) none) ∨
    (v.Inside ∧ Segments answers ((VadEngine.restarts v.m_hEngine_Vad).map eng.voiceFrames)
      (some (eng.voiceFrames v.m_hEngine_Vad.1)))

omit [CFloat F] in
theorem Inside.tailMove {v : R2memVad2 F eng.recorded} (hv : v.Inside) (n : Nat) :
    (v.tailMove n).Inside := by
  unfold R2memVad2.tailMove
  split
  · exact ⟨hv.speech, hv.speaking, hv.lastFrame⟩
  · exact hv

omit [CFloat F] in
theorem Outside.tailMove {v : R2memVad2 F eng.recorded} (hv : v.Outside) (n : Nat) :
    (v.tailMove n).Outside := by
  unfold R2memVad2.tailMove
  split
  · exact ⟨hv.speech, hv.reached⟩
  · exact hv

/-- One call: one more answer. -/
theorem input_cut (hg : eng.VoiceGrows) {v v' : R2memVad2 F eng.recorded} {c : VadInput F}
    {a : List F × VadResult} {answers : List (List F × VadResult)} (hv : v.Cut answers)
    (h : v.input c = .ok (v', a)) : v'.Cut (answers ++ [a]) := by
  obtain ⟨-, rfl, rfl⟩ := input_eq_ok.mp h
  rcases hv with ⟨hout, hs⟩ | ⟨hin, hs⟩
  · have hcut : (v.cut c).Outside := ⟨hout.speech, hout.reached⟩
    have hloop : FromOutside (v.cut c) (v.loop c) :=
      frames_fromOutside hg c.bIsEnd c.bIsAec c.bForceStart _ _ _ hcut
    -- a call is its loop; the move behind it touches neither the engine nor the position
    generalize v.loop c = r at hloop ⊢
    cases hloop with
    | idle w hw hr =>
      refine .inl ⟨hw.tailMove _, ?_⟩
      rw [tailMove_m_hEngine_Vad, hr]
      exact .outside hs
    | begins w hw hr =>
      refine .inr ⟨hw.tailMove _, ?_⟩
      rw [tailMove_m_hEngine_Vad, hr]
      exact .begins _ hs
    | both w e hw hr =>
      refine .inl ⟨hw.tailMove _, ?_⟩
      rw [tailMove_m_hEngine_Vad, hr, List.map_append]
      exact .both _ hs
  · have hcut : (v.cut c).Inside := ⟨hin.speech, hin.speaking, hin.lastFrame⟩
    have hloop : FromInside (v.cut c) (v.loop c) :=
      frames_fromInside hg c.bIsEnd c.bIsAec c.bForceStart _ _ _ hcut
    generalize v.loop c = r at hloop ⊢
    cases hloop with
    | stays w out hw hvoice hr =>
      refine .inr ⟨hw.tailMove _, ?_⟩
      rw [tailMove_m_hEngine_Vad, hr, hvoice]
      exact .inside _ hs
    | ends w out e hw hvoice hr =>
      refine .inl ⟨hw.tailMove _, ?_⟩
      rw [tailMove_m_hEngine_Vad, hr, List.map_append, List.map_singleton, hvoice]
      exact .ends _ hs

/-- The bits of a call alternate, and the call returns them joined. -/
theorem input_bits {v v' : R2memVad2 F eng} {c : VadInput F} {a : List F × VadResult}
    (h : v.input c = .ok (v', a)) :
    a.2 = orBits (v.callBits c) ∧ Alternating v.m_iVadState (v.callBits c) v'.m_iVadState := by
  obtain ⟨-, rfl, rfl⟩ := input_eq_ok.mp h
  refine ⟨frames_bits c.bIsEnd c.bIsAec c.bForceStart _ _ _ _, ?_⟩
  rw [tailMove_m_iVadState]
  exact turnBits_alternating c.bIsEnd c.bIsAec c.bForceStart _ _ _ (v.cut c)

theorem run_bits {v v' : R2memVad2 F eng} {cs : List (VadInput F)}
    {answers : List (List F × VadResult)} (h : Objects.run input v cs = .ok (v', answers)) :
    answers.map Prod.snd = (runBits v cs).map orBits ∧
      Alternating v.m_iVadState (runBits v cs).flatten v'.m_iVadState := by
  induction cs generalizing v answers with
  | nil =>
    cases h
    exact ⟨rfl, .nil _⟩
  | cons c cs ih =>
    obtain ⟨w, a, as, hc, hr, rfl⟩ := Objects.run_cons_eq_ok.mp h
    obtain ⟨hor, halt⟩ := input_bits hc
    obtain ⟨hors, halts⟩ := ih hr
    have hbits : runBits v (c :: cs) = v.callBits c :: runBits w cs := by rw [runBits, hc]
    rw [hbits, List.map_cons, List.map_cons, List.flatten_cons, hor, hors]
    exact ⟨rfl, halt.append halts⟩

theorem run_cut (hg : eng.VoiceGrows) {v : R2memVad2 F eng.recorded} {cs : List (VadInput F)}
    {answers : List (List F × VadResult)} (h : Objects.run input new cs = .ok (v, answers)) :
    v.Cut answers := by
  induction cs using List.reverseRecOn generalizing v answers with
  | nil =>
    cases h
    exact .inl ⟨⟨rfl, .constructed⟩, .start⟩
  | append_singleton cs c ih =>
    obtain ⟨w, as, a, hrun, hc, rfl⟩ := Objects.run_concat_eq_ok.mp h
    exact input_cut hg (ih hrun) hc

/-- The buffer of an engine that counts its frames grows with every frame. -/
theorem counting_voiceGrows (start stop : Nat) : (VadEngine.counting start stop).VoiceGrows := by
  refine ⟨?_, ?_⟩
  · intro (h : Nat) _ wave e a
    show (h : Int).toNat ≤ ((h + 1 : Nat) : Int).toNat
    omega
  · intro _ _ _ _ _ _ _
    rfl

end Runs

end R2memVad2

end BlackSiren

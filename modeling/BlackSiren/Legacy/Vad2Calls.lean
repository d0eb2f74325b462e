import Mathlib.Data.List.Basic
import BlackSiren.Framework.Objects
import BlackSiren.Legacy.Vad2

/-! # The calls of `r2mem_vad2`

    - `VadInput`, `input`: one call of `process` on a list of samples
    - `recorded`: an engine that keeps a record of what it is fed and of the
      states it is restarted in
    - `readUntilStop`: how far the engine reads a batch of frames
    - `input_eq_ok`: a call that returns, through the batch it reads
    - `observe_recorded`: the record is not seen by the callers
-/

namespace BlackSiren

/-- The arguments of `r2mem_vad2::process`. -/
structure VadInput (F : Type) where
  pData_In : List F
  bIsEnd : Bool
  bIsAec : Bool
  bForceStart : Bool

/-! ### Slices of an array -/

theorem map_range_inj {α : Type} {m n : Nat} {f g : Nat → α} :
    (List.range m).map f = (List.range n).map g ↔ m = n ∧ ∀ k < m, f k = g k := by
  constructor
  · intro h
    have hlen : m = n := by
      have hlen := congrArg List.length h
      rwa [List.length_map, List.length_map, List.length_range, List.length_range] at hlen
    subst hlen
    refine ⟨rfl, ?_⟩
    intro k hk
    exact List.map_inj_left.mp h k (List.mem_range.mpr hk)
  · rintro ⟨rfl, h⟩
    exact List.map_congr_left fun k hk => h k (List.mem_range.mp hk)

/-- A slice in two. -/
theorem map_range_add {α : Type} (m n : Nat) (f : Nat → α) :
    (List.range (m + n)).map f = (List.range m).map f ++ (List.range n).map fun k => f (m + k) := by
  rw [List.range_add, List.map_append, List.map_map]
  rfl

/-! ### The engine alone -/

namespace VadEngine

variable {F : Type} (eng : VadEngine F)

/-- What an engine is told that a caller cannot see. -/
inductive Event (F S : Type) where
  /-- `VD_InputFloatWave`. -/
  | fed (wave : List F)
  /-- `VD_RestartVad`, in the given state. -/
  | restarted (h : S)

/-- The engine with a record of its inputs and restarts. -/
def recorded : VadEngine F where
  State := eng.State × List (Event F eng.State)
  create := (eng.create, [])
  setParam h p n := (eng.setParam h.1 p n, h.2)
  restart h := (eng.restart h.1, h.2 ++ [.restarted h.1])
  setStart h b := (eng.setStart h.1 b, h.2)
  input h wave e a := (eng.input h.1 wave e a, h.2 ++ [.fed wave])
  startFrame h := eng.startFrame h.1
  frameNum h := eng.frameNum h.1
  voice h := eng.voice h.1
  stopFrame h := eng.stopFrame h.1

variable {eng}

/-- All samples fed so far. -/
def fedSamples (h : eng.recorded.State) : List F :=
  h.2.flatMap fun ev =>
    match ev with
    | .fed wave => wave
    | .restarted _ => []

/-- The states in which the engine has been restarted. -/
def restarts (h : eng.recorded.State) : List eng.State :=
  h.2.filterMap fun ev =>
    match ev with
    | .fed _ => none
    | .restarted h => some h

variable (eng)

/-- `setvadendparam`, on the engine alone. -/
def setEnd (h : eng.State) (sil pitch : Int) : eng.State :=
  eng.setParam (eng.setParam h .VD_PARAM_MINSILFRAMENUM sil) .VD_PARAM_ENDPITCH_FRAMENUM pitch

/-- The engine of a new unit. -/
def constructed : eng.State :=
  eng.setEnd (eng.setParam eng.create .VD_PARAM_MAXSPEECHFRAMENUM 1000) 45 1

/-- The states the calls of `r2mem_vad2` can bring the engine into. -/
inductive Reached : eng.State → Prop where
  | constructed : Reached eng.constructed
  | setEnd (h : eng.State) (sil pitch : Int) : Reached h → Reached (eng.setEnd h sil pitch)
  | setStart (h : eng.State) (a : Bool) : Reached h → Reached (eng.setStart h a)
  | input (h : eng.State) (wave : List F) (e a : Bool) :
      Reached h → Reached (eng.input h wave e a)
  | restart (h : eng.State) : Reached h → Reached (eng.restart h)

/-- `forcestart` and `setvadendparam(2000)`, which precede every frame of a
    forced call while no speech is open. -/
def force (h : eng.State) (bIsAec : Bool) : eng.State :=
  eng.setEnd (eng.setStart h bIsAec) 2000 0

/-- How many of the frames the engine reads, and whether it is stopped by an end
    of speech; `speech` says whether speech is open. -/
def readUntilStop (bIsEnd bIsAec bForceStart : Bool) :
    eng.State → Bool → List (List F) → Nat × Bool
  | _, _, [] => (0, false)
  | h, true, wave :: waves =>
      let h := eng.input h wave bIsEnd bIsAec
      if eng.stopFrame h > 0 then (1, true)
      else
        let (k, stopped) := readUntilStop bIsEnd bIsAec bForceStart h true waves
        (k + 1, stopped)
  | h, false, wave :: waves =>
      let h := eng.input (if bForceStart then eng.force h bIsAec else h) wave bIsEnd bIsAec
      let (k, stopped) := readUntilStop bIsEnd bIsAec bForceStart h
        (decide (eng.startFrame h ≥ 0)) waves
      (k + 1, stopped)

variable {eng}

theorem Reached.force {h : eng.State} (hr : eng.Reached h) (a : Bool) :
    eng.Reached (eng.force h a) :=
  .setEnd _ _ _ (.setStart _ _ hr)

theorem readUntilStop_le (e a f : Bool) (h : eng.State) (speech : Bool) (waves : List (List F)) :
    (eng.readUntilStop e a f h speech waves).1 ≤ waves.length := by
  induction waves generalizing h speech with
  | nil => exact Nat.le_refl 0
  | cons wave waves ih =>
    cases speech with
    | true =>
      simp only [readUntilStop]
      split
      · exact Nat.succ_le_succ (Nat.zero_le _)
      · exact Nat.succ_le_succ (ih _ _)
    | false => exact Nat.succ_le_succ (ih _ _)

/-- Only an end of speech keeps the engine from reading everything. -/
theorem readUntilStop_all {e a f : Bool} {h : eng.State} {speech : Bool} {waves : List (List F)}
    (hs : (eng.readUntilStop e a f h speech waves).2 = false) :
    (eng.readUntilStop e a f h speech waves).1 = waves.length := by
  induction waves generalizing h speech with
  | nil => rfl
  | cons wave waves ih =>
    cases speech with
    | true =>
      simp only [readUntilStop] at hs ⊢
      split at hs
      · cases hs
      · next hstop =>
        rw [if_neg hstop]
        exact congrArg Nat.succ (ih hs)
    | false => exact congrArg Nat.succ (ih hs)

/-- An engine that counts its frames: speech begins with frame number `start`
    and ends with frame number `stop`, and its voice is silent. -/
def counting (start stop : Nat) : VadEngine ℚ where
  State := Nat
  create := 0
  setParam n _ _ := n
  restart _ := 0
  setStart n _ := n
  input n _ _ _ := n + 1
  startFrame n := if n = start then 0 else -1
  frameNum n := n
  voice _ _ := 0
  stopFrame n := if n = stop then 1 else 0

end VadEngine

namespace R2memVad2

variable {F : Type} {eng : VadEngine F}

/-! ### One turn -/

/-- Frame `i` of the input array. -/
def wave (v : R2memVad2 F eng) (i : Nat) : List F :=
  (List.range m_iFrmSize).map fun k => v.m_pData_In (i * m_iFrmSize + k)

/-- The input fields, which the engine's calls leave alone. -/
structure SameInput (v v' : R2memVad2 F eng) : Prop where
  len : v'.m_iLen_In = v.m_iLen_In
  data : v'.m_pData_In = v.m_pData_In

theorem SameInput.wave {v v' : R2memVad2 F eng} (h : SameInput v v') (i : Nat) :
    v'.wave i = v.wave i := by
  rw [R2memVad2.wave, R2memVad2.wave, h.data]

theorem takeVoice_sameInput (v : R2memVad2 F eng) : SameInput v v.takeVoice.1 := by
  simp only [takeVoice]
  split
  · exact ⟨rfl, rfl⟩
  · exact ⟨rfl, rfl⟩

@[simp] theorem takeVoice_m_hEngine_Vad (v : R2memVad2 F eng) :
    v.takeVoice.1.m_hEngine_Vad = v.m_hEngine_Vad := by
  simp only [takeVoice]
  split <;> rfl

/-- The engine after an idle turn on frame `i`. -/
def idleEngine (v : R2memVad2 F eng) (i : Nat) (bIsEnd bIsAec bForceStart : Bool) : eng.State :=
  eng.input (if bForceStart then eng.force v.m_hEngine_Vad bIsAec else v.m_hEngine_Vad)
    (v.wave i) bIsEnd bIsAec

theorem idleEngine_reached {v : R2memVad2 F eng} (hv : eng.Reached v.m_hEngine_Vad) (i : Nat)
    (e a f : Bool) : eng.Reached (v.idleEngine i e a f) := by
  cases f with
  | true => exact .input _ _ _ _ (hv.force a)
  | false => exact .input _ _ _ _ hv

/-- The engine when it has read frame `i` inside speech. -/
def speechEngine (v : R2memVad2 F eng) (i : Nat) (bIsEnd bIsAec : Bool) : eng.State :=
  eng.input v.m_hEngine_Vad (v.wave i) bIsEnd bIsAec

/-- The unit when the engine has read frame `i` while no speech is open. -/
def heard (v : R2memVad2 F eng) (i : Nat) (e a f : Bool) : R2memVad2 F eng :=
  { v with m_hEngine_Vad := v.idleEngine i e a f }

/-- The unit when the engine has read frame `i` inside speech. -/
def listened (v : R2memVad2 F eng) (i : Nat) (e a : Bool) : R2memVad2 F eng :=
  { v with m_hEngine_Vad := v.speechEngine i e a }

/-- An idle turn, through the engine alone. -/
theorem idleFrame_eq (v : R2memVad2 F eng) (i : Nat) (e a f : Bool) :
    idleFrame v i e a f =
      if eng.startFrame (v.idleEngine i e a f) ≥ 0 then
        let w := takeVoice { v.heard i e a f with m_iLastFrame := 0, m_iVadState := true }
        (w.1, w.2, true)
      else (v.heard i e a f, [], false) := by
  cases f with
  | true => rfl
  | false => rfl

/-- A turn inside speech that goes on. -/
theorem speechFrame_goes_on {v : R2memVad2 F eng} {i n : Nat} {e a : Bool}
    (h : ¬ eng.stopFrame (v.speechEngine i e a) > 0) :
    speechFrame v i n e a =
      ((v.listened i e a).takeVoice.1, (v.listened i e a).takeVoice.2, false) := by
  have hread : (v.inputFrame i e a).takeVoice.1.m_hEngine_Vad = v.speechEngine i e a :=
    takeVoice_m_hEngine_Vad _
  rw [← hread] at h
  exact if_neg h

/-- The unit after a turn that ends speech: the frames behind frame `i` are
    moved to the front. -/
def stopped (v : R2memVad2 F eng) (i n : Nat) (e a : Bool) : R2memVad2 F eng :=
  { (v.listened i e a).takeVoice.1 with
    m_hEngine_Vad := eng.restart (v.speechEngine i e a)
    m_iVadState := false
    m_iLen_In := if i + 1 < n then (n - (i + 1)) * m_iFrmSize else v.m_iLen_In
    m_pData_In := fun k =>
      if i + 1 < n ∧ k < (n - (i + 1)) * m_iFrmSize then v.m_pData_In ((i + 1) * m_iFrmSize + k)
      else v.m_pData_In k }

/-- A turn inside speech that ends it. -/
theorem speechFrame_stops {v : R2memVad2 F eng} {i n : Nat} {e a : Bool}
    (h : eng.stopFrame (v.speechEngine i e a) > 0) :
    speechFrame v i n e a = (v.stopped i n e a, (v.listened i e a).takeVoice.2, true) := by
  have hread : (v.inputFrame i e a).takeVoice.1.m_hEngine_Vad = v.speechEngine i e a :=
    takeVoice_m_hEngine_Vad _
  obtain ⟨hlen, hdata⟩ := takeVoice_sameInput (v.inputFrame i e a)
  have hlen : (v.inputFrame i e a).takeVoice.1.m_iLen_In = v.m_iLen_In := hlen
  have hdata : (v.inputFrame i e a).takeVoice.1.m_pData_In = v.m_pData_In := hdata
  unfold speechFrame
  simp only
  rw [if_pos (hread.symm ▸ h), hread, hdata]
  split
  · next hleft =>
    simp only [stopped, if_pos hleft]
    congr 3
    funext k
    by_cases hk : k < (n - (i + 1)) * m_iFrmSize
    · rw [if_pos hk, if_pos ⟨hleft, hk⟩]
    · rw [if_neg hk, if_neg fun h => hk h.2]
  · next hleft =>
    have hkept : ∀ k, (if i + 1 < n ∧ k < (n - (i + 1)) * m_iFrmSize then
        v.m_pData_In ((i + 1) * m_iFrmSize + k) else v.m_pData_In k) = v.m_pData_In k :=
      fun k => if_neg fun h => hleft h.1
    simp only [stopped, if_neg hleft, hkept]
    rw [← hdata, ← hlen]
    rfl

/-- What the later turns find after an idle one. -/
theorem idleFrame_state {v : R2memVad2 F eng} (i : Nat) (e a f : Bool)
    (hv : v.m_iVadState = false) :
    (idleFrame v i e a f).1.m_hEngine_Vad = v.idleEngine i e a f ∧
      (idleFrame v i e a f).1.m_iVadState = decide (eng.startFrame (v.idleEngine i e a f) ≥ 0) ∧
      SameInput v (idleFrame v i e a f).1 := by
  rw [idleFrame_eq]
  split
  · next hstart =>
    have htake := takeVoice_sameInput
      { v.heard i e a f with m_iLastFrame := 0, m_iVadState := true }
    refine ⟨takeVoice_m_hEngine_Vad _, ?_, ⟨htake.len, htake.data⟩⟩
    rw [decide_eq_true hstart]
    exact takeVoice_m_iVadState _
  · next hstart =>
    rw [decide_eq_false hstart]
    exact ⟨rfl, hv, ⟨rfl, rfl⟩⟩

theorem listened_sameInput (v : R2memVad2 F eng) (i : Nat) (e a : Bool) :
    SameInput v (v.listened i e a).takeVoice.1 := by
  obtain ⟨hlen, hdata⟩ := takeVoice_sameInput (v.listened i e a)
  exact ⟨hlen, hdata⟩

/-! ### The loop -/

/-- The loop in an idle turn. -/
theorem frames_idle {v : R2memVad2 F eng} (e a f : Bool) (n fuel i : Nat)
    (hv : v.m_iVadState = false) :
    frames e a f n (fuel + 1) i v =
      let turn := idleFrame v i e a f
      let rest := frames e a f n fuel (i + 1) turn.1
      (rest.1, turn.2.1 ++ rest.2.1,
        { rest.2.2 with audio_begin := turn.2.2 || rest.2.2.audio_begin }) := by
  simp only [frames, hv, Bool.false_eq_true, if_false]

/-- The loop in a turn inside speech that goes on. -/
theorem frames_goes_on {v : R2memVad2 F eng} {e a : Bool} (f : Bool) {n i : Nat} (fuel : Nat)
    (hv : v.m_iVadState = true) (h : ¬ eng.stopFrame (v.speechEngine i e a) > 0) :
    frames e a f n (fuel + 1) i v =
      let rest := frames e a f n fuel (i + 1) (v.listened i e a).takeVoice.1
      (rest.1, (v.listened i e a).takeVoice.2 ++ rest.2.1, rest.2.2) := by
  simp only [frames, hv, if_true, speechFrame_goes_on h, Bool.false_eq_true, if_false]

/-- The loop in a turn that ends speech. -/
theorem frames_stops {v : R2memVad2 F eng} {e a : Bool} (f : Bool) {n i : Nat} (fuel : Nat)
    (hv : v.m_iVadState = true) (h : eng.stopFrame (v.speechEngine i e a) > 0) :
    frames e a f n (fuel + 1) i v =
      (v.stopped i n e a, (v.listened i e a).takeVoice.2, ⟨false, true⟩) := by
  simp only [frames, hv, if_true, speechFrame_stops h]

/-- The frames from `i` on. -/
def waves (v : R2memVad2 F eng) (i fuel : Nat) : List (List F) :=
  (List.range' i fuel).map v.wave

theorem SameInput.waves {v v' : R2memVad2 F eng} (h : SameInput v v') (i fuel : Nat) :
    v'.waves i fuel = v.waves i fuel :=
  List.map_congr_left fun j _ => h.wave j

@[simp] theorem length_waves (v : R2memVad2 F eng) (i fuel : Nat) :
    (v.waves i fuel).length = fuel := by
  rw [waves, List.length_map, List.length_range']

/-- How far the loop reads, and whether it is stopped. -/
def reads (v : R2memVad2 F eng) (i fuel : Nat) (bIsEnd bIsAec bForceStart : Bool) : Nat × Bool :=
  eng.readUntilStop bIsEnd bIsAec bForceStart v.m_hEngine_Vad v.m_iVadState (v.waves i fuel)

theorem reads_idle {v : R2memVad2 F eng} (i fuel : Nat) (e a f : Bool)
    (hv : v.m_iVadState = false) :
    v.reads i (fuel + 1) e a f =
      let rest := (idleFrame v i e a f).1.reads (i + 1) fuel e a f
      (rest.1 + 1, rest.2) := by
  obtain ⟨hengine, hspeech, hinput⟩ := idleFrame_state i e a f hv
  simp only [reads]
  rw [hengine, hspeech, hinput.waves, hv]
  rfl

theorem reads_goes_on {v : R2memVad2 F eng} {i : Nat} (fuel : Nat) {e a : Bool} (f : Bool)
    (hv : v.m_iVadState = true) (h : ¬ eng.stopFrame (v.speechEngine i e a) > 0) :
    v.reads i (fuel + 1) e a f =
      let rest := (v.listened i e a).takeVoice.1.reads (i + 1) fuel e a f
      (rest.1 + 1, rest.2) := by
  have hspeech : (v.listened i e a).takeVoice.1.m_iVadState = true :=
    (takeVoice_m_iVadState _).trans hv
  have hengine : (v.listened i e a).takeVoice.1.m_hEngine_Vad = v.speechEngine i e a :=
    takeVoice_m_hEngine_Vad _
  simp only [reads]
  rw [hengine, hspeech, (listened_sameInput v i e a).waves, hv]
  exact if_neg h

theorem reads_stops {v : R2memVad2 F eng} {i : Nat} (fuel : Nat) {e a : Bool} (f : Bool)
    (hv : v.m_iVadState = true) (h : eng.stopFrame (v.speechEngine i e a) > 0) :
    v.reads i (fuel + 1) e a f = (1, true) := by
  simp only [reads]
  rw [hv]
  exact if_pos h

/-- The loop stops with frames left over. -/
def StopsShort (v : R2memVad2 F eng) (i fuel : Nat) (e a f : Bool) : Prop :=
  (v.reads i fuel e a f).2 = true ∧ (v.reads i fuel e a f).1 < fuel

instance (v : R2memVad2 F eng) (i fuel : Nat) (e a f : Bool) :
    Decidable (v.StopsShort i fuel e a f) :=
  inferInstanceAs (Decidable (_ ∧ _))

/-- A loop that does not stop short has read every frame. -/
theorem reads_all {v : R2memVad2 F eng} {i fuel : Nat} {e a f : Bool}
    (h : ¬ v.StopsShort i fuel e a f) : (v.reads i fuel e a f).1 = fuel := by
  have hle := VadEngine.readUntilStop_le e a f v.m_hEngine_Vad v.m_iVadState (v.waves i fuel)
  rw [length_waves] at hle
  cases hs : (v.reads i fuel e a f).2 with
  | true =>
    have hlt : ¬ (v.reads i fuel e a f).1 < fuel := fun hlt => h ⟨hs, hlt⟩
    exact Nat.le_antisymm hle (Nat.not_lt.mp hlt)
  | false =>
    have hall := VadEngine.readUntilStop_all hs
    rwa [length_waves] at hall

/-- The input fields when the loop is done: as they were, or the frames left
    over in front. -/
structure Rest (v : R2memVad2 F eng) (i fuel : Nat) (e a f : Bool) (v' : R2memVad2 F eng) :
    Prop where
  len : v'.m_iLen_In =
    if v.StopsShort i fuel e a f then (fuel - (v.reads i fuel e a f).1) * m_iFrmSize
    else v.m_iLen_In
  data : ∀ k, v'.m_pData_In k =
    if v.StopsShort i fuel e a f ∧ k < (fuel - (v.reads i fuel e a f).1) * m_iFrmSize then
      v.m_pData_In ((i + (v.reads i fuel e a f).1) * m_iFrmSize + k)
    else v.m_pData_In k

/-- A turn that goes on hands what is left to the rest of the loop. -/
theorem Rest.later {v w v' : R2memVad2 F eng} {i fuel : Nat} {e a f : Bool} (hin : SameInput v w)
    (hreads : v.reads i (fuel + 1) e a f =
      ((w.reads (i + 1) fuel e a f).1 + 1, (w.reads (i + 1) fuel e a f).2))
    (h : Rest w (i + 1) fuel e a f v') : Rest v i (fuel + 1) e a f v' := by
  have hshort : v.StopsShort i (fuel + 1) e a f ↔ w.StopsShort (i + 1) fuel e a f := by
    simp only [StopsShort, hreads]
    exact and_congr_right fun _ => Nat.succ_lt_succ_iff
  have hleft : fuel + 1 - (v.reads i (fuel + 1) e a f).1 =
      fuel - (w.reads (i + 1) fuel e a f).1 := by
    rw [hreads]
    exact Nat.add_sub_add_right _ _ _
  have hfrom : i + (v.reads i (fuel + 1) e a f).1 = i + 1 + (w.reads (i + 1) fuel e a f).1 := by
    rw [hreads]
    show i + ((w.reads (i + 1) fuel e a f).1 + 1) = _
    omega
  refine ⟨?_, ?_⟩
  · rw [h.len, hin.len, hleft]
    exact if_congr hshort.symm rfl rfl
  · intro k
    rw [h.data, hin.data, hleft, hfrom]
    exact if_congr (and_congr_left' hshort.symm) rfl rfl

theorem frames_rest (e a f : Bool) {n i fuel : Nat} (hn : i + fuel = n) (v : R2memVad2 F eng) :
    Rest v i fuel e a f (frames e a f n fuel i v).1 := by
  induction fuel generalizing i v with
  | zero =>
    have hshort : ¬ v.StopsShort i 0 e a f := fun h => Nat.not_lt_zero _ h.2
    refine ⟨(if_neg hshort).symm, fun k => (if_neg fun h => hshort h.1).symm⟩
  | succ fuel ih =>
    have hn' : i + 1 + fuel = n := by omega
    cases hv : v.m_iVadState with
    | false =>
      rw [frames_idle e a f n fuel i hv]
      exact (ih hn' _).later (idleFrame_state i e a f hv).2.2 (reads_idle i fuel e a f hv)
    | true =>
      by_cases hstop : eng.stopFrame (v.speechEngine i e a) > 0
      · rw [frames_stops f fuel hv hstop]
        have hreads := reads_stops fuel f hv hstop
        -- the frames left over are those behind frame `i`
        have hleft : fuel + 1 - (v.reads i (fuel + 1) e a f).1 = n - (i + 1) := by
          rw [hreads]
          show fuel + 1 - 1 = _
          omega
        have hshort : v.StopsShort i (fuel + 1) e a f ↔ i + 1 < n := by
          simp only [StopsShort, hreads, true_and]
          omega
        refine ⟨?_, ?_⟩
        · rw [hleft]
          exact if_congr hshort.symm rfl rfl
        · intro k
          rw [hleft, hreads]
          exact if_congr (and_congr_left' hshort.symm) rfl rfl
      · rw [frames_goes_on f fuel hv hstop]
        exact (ih hn' _).later (listened_sameInput v i e a) (reads_goes_on fuel f hv hstop)

/-! ### Recorded runs of the loop -/

theorem fedSamples_force (h : eng.recorded.State) (a : Bool) :
    VadEngine.fedSamples (eng.recorded.force h a) = VadEngine.fedSamples h := rfl

theorem fedSamples_input (h : eng.recorded.State) (wave : List F) (e a : Bool) :
    VadEngine.fedSamples (eng.recorded.input h wave e a) = VadEngine.fedSamples h ++ wave := by
  show (h.2 ++ [VadEngine.Event.fed wave]).flatMap _ = _
  rw [List.flatMap_append]
  simp [VadEngine.fedSamples]

theorem fedSamples_restart (h : eng.recorded.State) :
    VadEngine.fedSamples (eng.recorded.restart h) = VadEngine.fedSamples h := by
  show (h.2 ++ [VadEngine.Event.restarted h.1]).flatMap _ = _
  rw [List.flatMap_append]
  simp [VadEngine.fedSamples]

/-- The samples of the frames the loop reads. -/
def taken (v : R2memVad2 F eng) (i fuel : Nat) (e a f : Bool) : List F :=
  ((v.waves i fuel).take (v.reads i fuel e a f).1).flatten

/-- The loop feeds the frames it reads, in order. -/
theorem frames_fed (e a f : Bool) (n fuel i : Nat) (v : R2memVad2 F eng.recorded) :
    VadEngine.fedSamples (frames e a f n fuel i v).1.m_hEngine_Vad =
      VadEngine.fedSamples v.m_hEngine_Vad ++ v.taken i fuel e a f := by
  induction fuel generalizing i v with
  | zero =>
    show _ = _ ++ ((v.waves i 0).take _).flatten
    rw [waves, List.range'_zero, List.map_nil, List.take_nil, List.flatten_nil, List.append_nil]
    rfl
  | succ fuel ih =>
    cases hv : v.m_iVadState with
    | false =>
      obtain ⟨hengine, _, hinput⟩ := idleFrame_state i e a f hv
      have hfed : VadEngine.fedSamples (v.idleEngine i e a f) =
          VadEngine.fedSamples v.m_hEngine_Vad ++ v.wave i := by
        rw [idleEngine, fedSamples_input]
        cases f with
        | true => rw [if_pos rfl, fedSamples_force]
        | false => rfl
      rw [frames_idle e a f n fuel i hv]
      rw [ih, hengine, hfed, List.append_assoc, taken, taken, reads_idle i fuel e a f hv,
        hinput.waves]
      rfl
    | true =>
      have hfed : VadEngine.fedSamples (v.speechEngine i e a) =
          VadEngine.fedSamples v.m_hEngine_Vad ++ v.wave i := fedSamples_input _ _ _ _
      by_cases hstop : eng.recorded.stopFrame (v.speechEngine i e a) > 0
      · rw [frames_stops f fuel hv hstop, taken, reads_stops fuel f hv hstop]
        show VadEngine.fedSamples (eng.recorded.restart (v.speechEngine i e a)) =
          _ ++ [v.wave i].flatten
        rw [fedSamples_restart, hfed, List.flatten_singleton]
      · have hengine : (v.listened i e a).takeVoice.1.m_hEngine_Vad = v.speechEngine i e a :=
          takeVoice_m_hEngine_Vad _
        rw [frames_goes_on f fuel hv hstop]
        rw [ih, hengine, hfed, List.append_assoc, taken, taken, reads_goes_on fuel f hv hstop,
          (listened_sameInput v i e a).waves]
        rfl

/-! ### The record changes nothing -/

/-- The unit with the engine that keeps no record. -/
def forget (v : R2memVad2 F eng.recorded) : R2memVad2 F eng where
  m_iLen_In := v.m_iLen_In
  m_iLen_In_Total := v.m_iLen_In_Total
  m_pData_In := v.m_pData_In
  m_hEngine_Vad := v.m_hEngine_Vad.1
  m_iLastFrame := v.m_iLastFrame
  m_iVadState := v.m_iVadState
  m_iVadEndParam := v.m_iVadEndParam
  m_iVadEndPitchParam := v.m_iVadEndPitchParam

theorem takeVoice_forget (v : R2memVad2 F eng.recorded) :
    v.forget.takeVoice = (v.takeVoice.1.forget, v.takeVoice.2) := by
  unfold takeVoice
  simp only
  by_cases h : eng.recorded.frameNum v.m_hEngine_Vad > v.m_iLastFrame
  · rw [if_pos h]
    exact if_pos h
  · rw [if_neg h]
    exact if_neg h

theorem idleEngine_forget (v : R2memVad2 F eng.recorded) (i : Nat) (e a f : Bool) :
    v.forget.idleEngine i e a f = (v.idleEngine i e a f).1 := by
  cases f with
  | true => rfl
  | false => rfl

theorem idleFrame_forget (v : R2memVad2 F eng.recorded) (i : Nat) (e a f : Bool) :
    idleFrame v.forget i e a f = ((idleFrame v i e a f).1.forget, (idleFrame v i e a f).2) := by
  have hheard : v.forget.heard i e a f = (v.heard i e a f).forget := by
    rw [heard, idleEngine_forget]
    rfl
  rw [idleFrame_eq, idleFrame_eq, idleEngine_forget, hheard]
  by_cases h : eng.recorded.startFrame (v.idleEngine i e a f) ≥ 0
  · have htake := takeVoice_forget
      ({ v.heard i e a f with m_iLastFrame := 0, m_iVadState := true } : R2memVad2 F eng.recorded)
    rw [if_pos h]
    refine (if_pos h).trans ?_
    exact congrArg (fun w : R2memVad2 F eng × List F => (w.1, w.2, true)) htake
  · rw [if_neg h]
    exact if_neg h

theorem stopped_forget (v : R2memVad2 F eng.recorded) (i n : Nat) (e a : Bool) :
    v.forget.stopped i n e a = (v.stopped i n e a).forget := by
  have htake : (v.forget.listened i e a).takeVoice.1 = (v.listened i e a).takeVoice.1.forget :=
    congrArg Prod.fst (takeVoice_forget (v.listened i e a))
  rw [stopped, htake]
  rfl

theorem frames_forget (e a f : Bool) (n fuel i : Nat) (v : R2memVad2 F eng.recorded) :
    frames e a f n fuel i v.forget =
      ((frames e a f n fuel i v).1.forget, (frames e a f n fuel i v).2) := by
  induction fuel generalizing i v with
  | zero => rfl
  | succ fuel ih =>
    cases hv : v.m_iVadState with
    | false =>
      have hv' : v.forget.m_iVadState = false := hv
      rw [frames_idle e a f n fuel i hv, frames_idle e a f n fuel i hv']
      simp only [idleFrame_forget, ih]
    | true =>
      have hv' : v.forget.m_iVadState = true := hv
      have htake : (v.forget.listened i e a).takeVoice =
          ((v.listened i e a).takeVoice.1.forget, (v.listened i e a).takeVoice.2) :=
        takeVoice_forget (v.listened i e a)
      by_cases hstop : eng.recorded.stopFrame (v.speechEngine i e a) > 0
      · have hstop' : eng.stopFrame (v.forget.speechEngine i e a) > 0 := hstop
        rw [frames_stops f fuel hv hstop, frames_stops f fuel hv' hstop', stopped_forget, htake]
      · have hstop' : ¬ eng.stopFrame (v.forget.speechEngine i e a) > 0 := hstop
        rw [frames_goes_on f fuel hv hstop, frames_goes_on f fuel hv' hstop']
        simp only [htake, ih]

/-! ### A call -/

section Calls

variable [CFloat F]

/-- A list as the array behind a pointer. -/
def chunk (l : List F) : Nat → F := fun i => l.getD i (CFloat.ofInt 0)

/-- `process` on a list of samples. -/
def input (v : R2memVad2 F eng) (c : VadInput F) :
    Except Fault (R2memVad2 F eng × (List F × VadResult)) := do
  let (v, out, rt) ←
    v.process (chunk c.pData_In) c.pData_In.length c.bIsEnd c.bIsAec c.bForceStart
  return (v, (out, rt))

/-- `m_pData_In[0, m_iLen_In)`. -/
def held (v : R2memVad2 F eng) : List F := (List.range v.m_iLen_In).map v.m_pData_In

/-- The unit with the chunk behind what it holds. -/
def filled (v : R2memVad2 F eng) (c : VadInput F) : R2memVad2 F eng :=
  v.addInData (chunk c.pData_In) c.pData_In.length

/-- `iFrmNum`: the whole frames there are then. -/
def frmNum (v : R2memVad2 F eng) (c : VadInput F) : Nat :=
  (v.m_iLen_In + c.pData_In.length) / m_iFrmSize

/-- The unit when the loop begins. -/
def cut (v : R2memVad2 F eng) (c : VadInput F) : R2memVad2 F eng :=
  { v.filled c with m_iLen_In := v.m_iLen_In + c.pData_In.length - v.frmNum c * m_iFrmSize }

/-- The loop of a call. -/
def loop (v : R2memVad2 F eng) (c : VadInput F) : R2memVad2 F eng × List F × VadResult :=
  frames c.bIsEnd c.bIsAec c.bForceStart (v.frmNum c) (v.frmNum c) 0 (v.cut c)

/-- The move behind the loop: what lies behind the `n` frames goes to the
    front.  Behind the array, where the source reads out of bounds, there are zeros
    here; `MovesInside` is the condition that no call reads there. -/
def tailMove (n : Nat) (v : R2memVad2 F eng) : R2memVad2 F eng :=
  if v.m_iLen_In > 0 ∧ n > 0 then
    { v with
      m_pData_In := fun k =>
        if k < v.m_iLen_In then v.m_pData_In (m_iFrmSize * n + k) else v.m_pData_In k }
  else v

omit [CFloat F] in
/-- It does not touch the engine. -/
@[simp] theorem tailMove_m_hEngine_Vad (n : Nat) (v : R2memVad2 F eng) :
    (v.tailMove n).m_hEngine_Vad = v.m_hEngine_Vad := by
  unfold tailMove
  split <;> rfl

omit [CFloat F] in
@[simp] theorem tailMove_m_iVadState (n : Nat) (v : R2memVad2 F eng) :
    (v.tailMove n).m_iVadState = v.m_iVadState := by
  unfold tailMove
  split <;> rfl

omit [CFloat F] in
@[simp] theorem tailMove_m_iLen_In (n : Nat) (v : R2memVad2 F eng) :
    (v.tailMove n).m_iLen_In = v.m_iLen_In := by
  unfold tailMove
  split <;> rfl

/-- A call fails for want of speech in a forced call; it returns the rest, the
    speech samples and the bits of the loop. -/
theorem input_eq (v : R2memVad2 F eng) (c : VadInput F) :
    v.input c =
      if c.bForceStart && !(v.loop c).1.m_iVadState then .error .vadNotStarted
      else .ok ((v.loop c).1.tailMove (v.frmNum c), (v.loop c).2) := by
  have hprocess : v.input c =
      (assertThat (decide ((0 : Int) ≤ c.pData_In.length)) .lenIn >>= fun _ =>
        assertThat (!c.bForceStart || (v.loop c).1.m_iVadState) .vadNotStarted >>= fun _ =>
        .ok ((v.loop c).1.tailMove (v.frmNum c), (v.loop c).2.1, (v.loop c).2.2)) >>= fun r =>
      .ok (r.1, r.2.1, r.2.2) := rfl
  have hlen : (0 : Int) ≤ c.pData_In.length := Int.natCast_nonneg _
  rw [hprocess, decide_eq_true hlen]
  cases c.bForceStart <;> cases (v.loop c).1.m_iVadState <;> rfl

/-- A call without a forced start returns. -/
theorem input_of_unforced (v : R2memVad2 F eng) {c : VadInput F} (h : c.bForceStart = false) :
    v.input c = .ok ((v.loop c).1.tailMove (v.frmNum c), (v.loop c).2) := by
  rw [input_eq, h]
  rfl

theorem input_eq_ok {v v' : R2memVad2 F eng} {c : VadInput F} {a : List F × VadResult} :
    v.input c = .ok (v', a) ↔
      (c.bForceStart && !(v.loop c).1.m_iVadState) = false ∧
        v' = (v.loop c).1.tailMove (v.frmNum c) ∧ a = (v.loop c).2 := by
  rw [input_eq]
  cases c.bForceStart && !(v.loop c).1.m_iVadState with
  | true => simp
  | false => simp [eq_comm]

/-- With the record or without it, a call gives the same. -/
theorem input_forget (v : R2memVad2 F eng.recorded) (c : VadInput F) :
    v.forget.input c =
      match v.input c with
      | .error f => .error f
      | .ok (v', a) => .ok (v'.forget, a) := by
  have hloop : v.forget.loop c = ((v.loop c).1.forget, (v.loop c).2) :=
    frames_forget c.bIsEnd c.bIsAec c.bForceStart (v.frmNum c) (v.frmNum c) 0 (v.cut c)
  have hmove : ∀ (n : Nat) (w : R2memVad2 F eng.recorded),
      w.forget.tailMove n = (w.tailMove n).forget := by
    intro n w
    unfold tailMove
    by_cases h : w.m_iLen_In > 0 ∧ n > 0
    · rw [if_pos h]
      exact if_pos h
    · rw [if_neg h]
      exact if_neg h
  rw [input_eq, input_eq, hloop, hmove]
  have hspeech : (v.loop c).1.forget.m_iVadState = (v.loop c).1.m_iVadState := rfl
  simp only [hspeech]
  cases c.bForceStart && !(v.loop c).1.m_iVadState with
  | true => rfl
  | false => rfl

/-- No caller can tell whether the record is kept. -/
theorem observe_recorded (calls : List (VadInput F)) :
    Objects.observe input (new : R2memVad2 F eng.recorded) calls =
      Objects.observe input (new : R2memVad2 F eng) calls := by
  have hstep : ∀ (v : R2memVad2 F eng.recorded) (w : R2memVad2 F eng) (c : VadInput F),
      v.forget = w → True → Objects.Agree (fun v w => v.forget = w) (v.input c) (w.input c) := by
    rintro v _ c rfl -
    rw [input_forget]
    cases v.input c with
    | error f => exact .fault f
    | ok r => exact .answer r.2 rfl
  exact Objects.observe_eq (fun v w => v.forget = w) (fun _ _ => True) hstep rfl
    (Objects.along_of_forall fun _ _ _ => trivial)

end Calls

end R2memVad2

end BlackSiren

import BlackSiren.Config.Sample
import BlackSiren.Framework.Access
import BlackSiren.Framework.Blocks
import BlackSiren.Processor.Process

/-! # The arrays `SirenProcessorImpl::init` fills

    Positions and delays of the microphones are copied from lists of the
    configuration whose lengths nothing compares, into arrays that the units then
    index by the ids of another list.

    - `initMics`: these copies with every access checked
    - `initMics_inside_iff`: when all of them are inside
    - `init_eq`: the copies are what the units of `init` hold
-/

namespace BlackSiren

open Access

/-- `micinfo.mic_pos` and `mic_i2s_delay`, and what the wake-word unit and the
    beamformer take from them: three coordinates and a delay for each of their
    microphones. -/
structure MicTables (F : Type) where
  mic_pos : List F
  mic_i2s_delay : List F
  vbv : List (F × F × F × F)
  bf : List (F × F × F × F)

namespace SirenProcessorImpl

variable {F D : Type} [CFloat F]

/-- `config.alg_config.alg_mic_pos[i].pos[j]`. -/
def readPos (toFloat : D → F) (cfg : ConfigIf.SirenConfig F D) (i j : Nat) : Except Fault F := do
  let mic ← Access.read Fault.outOfBounds cfg.alg_config.alg_mic_pos i
  let x ← Access.read Fault.outOfBounds mic j
  return toFloat x

/-- The loop over `mic_pos`: entry `i * 3 + j` is coordinate `j` of microphone
    `i`. -/
def fillPos (toFloat : D → F) (cfg : ConfigIf.SirenConfig F D) : Except Fault (List F) := do
  let rows ← (List.range cfg.mic_num.toNat).mapM fun i =>
    (List.range 3).mapM fun j => readPos toFloat cfg i j
  return rows.flatten

/-- A turn of the loop over `alg_need_i2s_delay_mics`: an index that is too large
    is skipped, the delay is taken at the position in the list. -/
def fillDelay (toFloat : D → F) (cfg : ConfigIf.SirenConfig F D) (mic_i2s_delay : List F)
    (r : Int × Nat) : Except Fault (List F) :=
  if r.1 ≥ cfg.mic_num then .ok mic_i2s_delay
  else do
    let delay ← Access.read Fault.outOfBounds cfg.alg_config.alg_i2s_delay_mics r.2
    Access.write Fault.outOfBounds mic_i2s_delay r.1 (toFloat delay)

/-- The loop over `alg_need_i2s_delay_mics`. -/
def fillDelays (toFloat : D → F) (cfg : ConfigIf.SirenConfig F D) : Except Fault (List F) :=
  cfg.alg_config.alg_need_i2s_delay_mics.zipIdx.foldlM (fillDelay toFloat cfg)
    (List.replicate cfg.mic_num.toNat (CFloat.ofInt 0))

/-- One microphone in the constructor of `r2mem_bf` and in `InitVbvEngine`. -/
def readMic (mic_pos mic_i2s_delay : List F) (iMicId : Int) : Except Fault (F × F × F × F) := do
  let x ← Access.read Fault.outOfBounds mic_pos (iMicId * 3)
  let y ← Access.read Fault.outOfBounds mic_pos (iMicId * 3 + 1)
  let z ← Access.read Fault.outOfBounds mic_pos (iMicId * 3 + 2)
  let delay ← Access.read Fault.outOfBounds mic_i2s_delay iMicId
  return (x, y, z, delay)

/-- The accesses of `init` to the lists of microphones; `none` is the result -1.
    `new float[mic_num * 3]` throws on a negative number before any of them, and
    the words that are loaded in between touch none of these arrays. -/
def initMics (toFloat : D → F) (cfg : ConfigIf.SirenConfig F D) :
    Except Fault (Option (MicTables F)) :=
  if cfg.mic_num < 0 then .error .badAlloc
  else do
    let mic_pos ← fillPos toFloat cfg
    let mic_i2s_delay ← fillDelays toFloat cfg
    if cfg.alg_config.alg_aec_mics.isEmpty then return none
    else if cfg.alg_config.alg_sl_mics.isEmpty then return none
    else do
      let vbv ← cfg.alg_config.alg_sl_mics.mapM (readMic mic_pos mic_i2s_delay)
      let bf ← cfg.alg_config.alg_sl_mics.mapM (readMic mic_pos mic_i2s_delay)
      return some ⟨mic_pos, mic_i2s_delay, vbv, bf⟩

/-! ### Inside the arrays -/

/-- The lists fit together. -/
structure Fits (cfg : ConfigIf.SirenConfig F D) : Prop where
  mics : cfg.mic_num ≤ cfg.alg_config.alg_mic_pos.length
  pos : ∀ mic ∈ cfg.alg_config.alg_mic_pos.take cfg.mic_num.toNat, 3 ≤ mic.length
  delays : ∀ r ∈ cfg.alg_config.alg_need_i2s_delay_mics.zipIdx, r.1 < cfg.mic_num →
    0 ≤ r.1 ∧ r.2 < cfg.alg_config.alg_i2s_delay_mics.length
  sl : cfg.alg_config.alg_aec_mics ≠ [] →
    ∀ id ∈ cfg.alg_config.alg_sl_mics, 0 ≤ id ∧ id < cfg.mic_num

variable {toFloat : D → F} {cfg : ConfigIf.SirenConfig F D}

omit [CFloat F] in
theorem returns_readPos_iff {i j : Nat} : Returns (readPos toFloat cfg i j) ↔
    ∃ mic, cfg.alg_config.alg_mic_pos[i]? = some mic ∧ j < mic.length := by
  unfold readPos
  rw [returns_bind_iff]
  constructor
  · rintro ⟨mic, hmic, h⟩
    obtain ⟨x, hx, _⟩ := returns_bind_iff.mp h
    have hj := ((returns_read_iff Fault.outOfBounds).mp ⟨x, hx⟩).2
    exact ⟨mic, read_eq_ok hmic, by omega⟩
  · rintro ⟨mic, hmic, hj⟩
    obtain ⟨hi, hget⟩ := List.getElem?_eq_some_iff.mp hmic
    obtain ⟨mic', hmic'⟩ := (returns_read_iff Fault.outOfBounds).mpr
      ⟨Int.natCast_nonneg i, Int.ofNat_lt.mpr hi⟩
    have hsame : mic' = mic := Option.some.inj ((read_eq_ok hmic').symm.trans hmic)
    obtain ⟨x, hx⟩ := (returns_read_iff Fault.outOfBounds).mpr
      ⟨Int.natCast_nonneg j, Int.ofNat_lt.mpr hj⟩
    refine ⟨mic', hmic', returns_bind_iff.mpr ⟨x, ?_, returns_ok _⟩⟩
    rw [hsame]
    exact hx

omit [CFloat F] in
theorem returns_fillPos_iff : Returns (fillPos toFloat cfg) ↔
    cfg.mic_num.toNat ≤ cfg.alg_config.alg_mic_pos.length ∧
      ∀ mic ∈ cfg.alg_config.alg_mic_pos.take cfg.mic_num.toNat, 3 ≤ mic.length := by
  have hloop : Returns (fillPos toFloat cfg) ↔ ∀ i < cfg.mic_num.toNat, ∀ j < 3,
      ∃ mic, cfg.alg_config.alg_mic_pos[i]? = some mic ∧ j < mic.length := by
    unfold fillPos
    rw [returns_bind_pure_iff, returns_mapM_iff]
    simp only [returns_mapM_iff, returns_readPos_iff, List.mem_range]
  rw [hloop]
  generalize cfg.alg_config.alg_mic_pos = l
  generalize cfg.mic_num.toNat = n
  constructor
  · intro h
    refine ⟨?_, ?_⟩
    · by_contra hlt
      -- the loop would read one entry behind the last
      obtain ⟨mic, hmic, _⟩ := h l.length (by omega) 0 (by decide)
      rw [List.getElem?_eq_none (Nat.le_refl _)] at hmic
      cases hmic
    · intro mic hmem
      -- the last of the three coordinates is the one that can be missing
      obtain ⟨i, hi, hget⟩ := List.mem_take_iff_getElem.mp hmem
      obtain ⟨mic', hmic', hj⟩ := h i (by omega) 2 (by decide)
      rw [List.getElem?_eq_getElem (by omega)] at hmic'
      rw [← hget, Option.some.inj hmic']
      exact hj
  · rintro ⟨hlen, hpos⟩ i hi j hj
    have hlt : i < l.length := by omega
    refine ⟨l[i], List.getElem?_eq_getElem hlt, ?_⟩
    have hmem : l[i] ∈ l.take n := List.mem_take_iff_getElem.mpr ⟨i, by omega, rfl⟩
    have hthree := hpos _ hmem
    omega

omit [CFloat F] in
theorem fillPos_length {mic_pos : List F} (h : fillPos toFloat cfg = .ok mic_pos) :
    mic_pos.length = 3 * cfg.mic_num.toNat := by
  unfold fillPos at h
  obtain ⟨rows, hrows, h⟩ := Access.bind_eq_ok.mp h
  cases h
  have hthree : ∀ row ∈ rows, row.length = 3 :=
    forall_of_mapM (fun _ _ hrow => length_of_mapM hrow) hrows
  rw [List.length_flatten, List.map_congr_left hthree, List.map_const', List.sum_replicate,
    length_of_mapM hrows, List.length_range, nsmul_eq_mul, Nat.cast_id, Nat.mul_comm]

omit [CFloat F] in
theorem fillDelay_length {l l' : List F} {r : Int × Nat} (h : fillDelay toFloat cfg l r = .ok l') :
    l'.length = l.length := by
  unfold fillDelay at h
  split at h
  · cases h
    rfl
  · obtain ⟨_, _, h⟩ := Access.bind_eq_ok.mp h
    rw [write_eq_ok h, List.length_set]

omit [CFloat F] in
theorem returns_fillDelay_iff {l : List F} {r : Int × Nat} (hl : l.length = cfg.mic_num.toNat) :
    Returns (fillDelay toFloat cfg l r) ↔
      (r.1 < cfg.mic_num → 0 ≤ r.1 ∧ r.2 < cfg.alg_config.alg_i2s_delay_mics.length) := by
  unfold fillDelay
  by_cases hlarge : r.1 ≥ cfg.mic_num
  · rw [if_pos hlarge]
    exact ⟨fun _ hlt => absurd hlt (by omega), fun _ => returns_ok l⟩
  · -- a negative index passes the test and fails in the write
    rw [if_neg hlarge, returns_bind_and (P := 0 ≤ r.1) ?_, returns_read_iff]
    · constructor
      · rintro ⟨⟨_, hread⟩, hwrite⟩ _
        exact ⟨hwrite, by omega⟩
      · intro h
        obtain ⟨hpos, hread⟩ := h (by omega)
        exact ⟨⟨by omega, by omega⟩, hpos⟩
    · intro delay _
      rw [returns_write_iff, hl]
      omega

theorem returns_fillDelays_iff : Returns (fillDelays toFloat cfg) ↔
    ∀ r ∈ cfg.alg_config.alg_need_i2s_delay_mics.zipIdx, r.1 < cfg.mic_num →
      0 ≤ r.1 ∧ r.2 < cfg.alg_config.alg_i2s_delay_mics.length := by
  unfold fillDelays
  -- the length of the array is the invariant
  refine returns_foldlM_iff (P := fun l => l.length = cfg.mic_num.toNat) ?_ ?_ ?_
  · intro l r hl
    exact returns_fillDelay_iff hl
  · intro l r l' hl h
    exact (fillDelay_length h).trans hl
  · exact List.length_replicate

theorem fillDelays_length {mic_i2s_delay : List F}
    (h : fillDelays toFloat cfg = .ok mic_i2s_delay) :
    mic_i2s_delay.length = cfg.mic_num.toNat := by
  refine invariant_of_foldlM (P := fun l => l.length = cfg.mic_num.toNat) ?_
    List.length_replicate h
  intro l r l' hl hturn
  exact (fillDelay_length hturn).trans hl

omit [CFloat F] in
theorem returns_readMic_iff {mic_pos mic_i2s_delay : List F} {n : Nat} {id : Int}
    (hpos : mic_pos.length = 3 * n) (hdelay : mic_i2s_delay.length = n) :
    Returns (readMic mic_pos mic_i2s_delay id) ↔ 0 ≤ id ∧ id < n := by
  unfold readMic
  constructor
  · intro h
    obtain ⟨x, _, h⟩ := returns_bind_iff.mp h
    obtain ⟨y, _, h⟩ := returns_bind_iff.mp h
    obtain ⟨z, _, h⟩ := returns_bind_iff.mp h
    obtain ⟨delay, hread, _⟩ := returns_bind_iff.mp h
    -- the array of the delays is the shortest
    have hin := (returns_read_iff Fault.outOfBounds).mp ⟨delay, hread⟩
    rw [hdelay] at hin
    exact hin
  · rintro ⟨hlow, hhigh⟩
    have hcoord : ∀ k : Int, 0 ≤ k → k < 3 →
        Returns (Access.read Fault.outOfBounds mic_pos (id * 3 + k)) := by
      intro k hk hk3
      rw [returns_read_iff, hpos]
      omega
    obtain ⟨x, hx⟩ := hcoord 0 (by decide) (by decide)
    obtain ⟨y, hy⟩ := hcoord 1 (by decide) (by decide)
    obtain ⟨z, hz⟩ := hcoord 2 (by decide) (by decide)
    rw [Int.add_zero] at hx
    obtain ⟨delay, hd⟩ := (returns_read_iff Fault.outOfBounds).mpr
      ⟨hlow, show id < mic_i2s_delay.length by omega⟩
    rw [hx]
    show Returns (Access.read Fault.outOfBounds mic_pos (id * 3 + 1) >>= _)
    rw [hy]
    show Returns (Access.read Fault.outOfBounds mic_pos (id * 3 + 2) >>= _)
    rw [hz]
    show Returns (Access.read Fault.outOfBounds mic_i2s_delay id >>= _)
    rw [hd]
    exact returns_ok _

/-- The loop over `alg_sl_mics`, in either unit. -/
theorem returns_readMics_iff {mic_pos mic_i2s_delay : List F} (hnum : 0 ≤ cfg.mic_num)
    (hpos : fillPos toFloat cfg = .ok mic_pos)
    (hdelay : fillDelays toFloat cfg = .ok mic_i2s_delay) :
    Returns (cfg.alg_config.alg_sl_mics.mapM (readMic mic_pos mic_i2s_delay)) ↔
      ∀ id ∈ cfg.alg_config.alg_sl_mics, 0 ≤ id ∧ id < cfg.mic_num := by
  rw [returns_mapM_iff]
  simp only [returns_readMic_iff (fillPos_length hpos) (fillDelays_length hdelay),
    Int.toNat_of_nonneg hnum]

theorem returns_initMics_iff (hnum : 0 ≤ cfg.mic_num) :
    Returns (initMics toFloat cfg) ↔ Fits cfg := by
  unfold initMics
  rw [if_neg (Int.not_lt.mpr hnum)]
  constructor
  · intro h
    obtain ⟨mic_pos, hpos, h⟩ := returns_bind_iff.mp h
    obtain ⟨mic_i2s_delay, hdelay, h⟩ := returns_bind_iff.mp h
    obtain ⟨hmics, hxyz⟩ := returns_fillPos_iff.mp ⟨mic_pos, hpos⟩
    refine ⟨by omega, hxyz, returns_fillDelays_iff.mp ⟨mic_i2s_delay, hdelay⟩, ?_⟩
    intro haec
    rw [if_neg (by simpa using haec)] at h
    -- an empty list is read by no loop
    by_cases hsl : cfg.alg_config.alg_sl_mics.isEmpty = true
    · rw [List.isEmpty_iff.mp hsl]
      simp
    · rw [if_neg hsl] at h
      obtain ⟨vbv, hvbv, _⟩ := returns_bind_iff.mp h
      exact (returns_readMics_iff hnum hpos hdelay).mp ⟨vbv, hvbv⟩
  · intro h
    have hmics := h.mics
    have hfill : Returns (fillPos toFloat cfg) := returns_fillPos_iff.mpr ⟨by omega, h.pos⟩
    have hfill' : Returns (fillDelays toFloat cfg) := returns_fillDelays_iff.mpr h.delays
    obtain ⟨mic_pos, hpos⟩ := hfill
    obtain ⟨mic_i2s_delay, hdelay⟩ := hfill'
    rw [hpos]
    show Returns (fillDelays toFloat cfg >>= _)
    rw [hdelay]
    show Returns (if cfg.alg_config.alg_aec_mics.isEmpty = true then _ else _)
    by_cases haec : cfg.alg_config.alg_aec_mics.isEmpty = true
    · rw [if_pos haec]
      exact returns_ok _
    · rw [if_neg haec]
      by_cases hsl : cfg.alg_config.alg_sl_mics.isEmpty = true
      · rw [if_pos hsl]
        exact returns_ok _
      · rw [if_neg hsl]
        -- both units read the same list in the same arrays
        obtain ⟨mics, hread⟩ := (returns_readMics_iff hnum hpos hdelay).mpr
          (h.sl (by simpa using haec))
        rw [hread]
        exact returns_ok _

omit [CFloat F] in
theorem only_readPos (i j : Nat) : Only .outOfBounds (readPos toFloat cfg i j) :=
  only_bind (only_read _ _ _) fun _ => only_bind (only_read _ _ _) fun _ => only_ok _ _

omit [CFloat F] in
theorem only_readMic (mic_pos mic_i2s_delay : List F) (id : Int) :
    Only .outOfBounds (readMic mic_pos mic_i2s_delay id) :=
  only_bind (only_read _ _ _) fun _ => only_bind (only_read _ _ _) fun _ =>
    only_bind (only_read _ _ _) fun _ => only_bind (only_read _ _ _) fun _ => only_ok _ _

omit [CFloat F] in
theorem only_fillDelay (l : List F) (r : Int × Nat) :
    Only .outOfBounds (fillDelay toFloat cfg l r) := by
  unfold fillDelay
  split
  · exact only_ok _ _
  · exact only_bind (only_read _ _ _) fun _ => only_write _ _ _ _

/-- With a number of microphones the arrays can have, the only fault is an access
    outside. -/
theorem only_initMics (hnum : 0 ≤ cfg.mic_num) : Only .outOfBounds (initMics toFloat cfg) := by
  unfold initMics
  rw [if_neg (Int.not_lt.mpr hnum)]
  -- the positions, the delays, and the two loops over the microphones
  apply only_bind
  · exact only_bind (only_mapM (fun i => only_mapM (only_readPos i) _) _) fun _ => only_ok _ _
  intro mic_pos
  apply only_bind
  · exact only_foldlM only_fillDelay _ _
  intro mic_i2s_delay
  split
  · exact only_ok _ _
  · split
    · exact only_ok _ _
    · have hmics := only_mapM (only_readMic mic_pos mic_i2s_delay) cfg.alg_config.alg_sl_mics
      exact only_bind hmics fun _ => only_bind hmics fun _ => only_ok _ _

/-- No access of `init` is outside exactly if the lists fit together, or the
    number of microphones is negative, when none is made; with a number that is
    not, `init` returns exactly if they fit. -/
theorem initMics_inside_iff (toFloat : D → F) (cfg : ConfigIf.SirenConfig F D) :
    (initMics toFloat cfg ≠ .error .outOfBounds ↔ cfg.mic_num < 0 ∨ Fits cfg) ∧
      (Returns (initMics toFloat cfg) ↔ 0 ≤ cfg.mic_num ∧ Fits cfg) := by
  by_cases hneg : cfg.mic_num < 0
  · -- the size of the array is what fails
    have hthrow : initMics toFloat cfg = .error .badAlloc := if_pos hneg
    rw [hthrow]
    refine ⟨⟨fun _ => .inl hneg, fun _ h => ?_⟩, ⟨fun h => ?_, fun h => ?_⟩⟩
    · cases h
    · exact absurd h (not_returns_error _)
    · exact absurd h.1 (Int.not_le.mpr hneg)
  · have hnum : 0 ≤ cfg.mic_num := by omega
    have hreturns : Returns (initMics toFloat cfg) ↔ Fits cfg := returns_initMics_iff hnum
    constructor
    · rw [Ne, ← not_returns_iff (only_initMics hnum), not_not, hreturns]
      exact ⟨.inr, fun h => h.resolve_left hneg⟩
    · rw [hreturns]
      exact ⟨fun h => ⟨hnum, h⟩, fun h => h.2⟩

/-- Coordinates written as ints: the loader takes the file and drops them, and
    `init` reads an empty vector. -/
theorem initMics_dropped_pos : ∃ s : ConfigIf.Sample,
    ConfigIf.loadConfigFromJSON s.env ConfigIf.Sample.mem ConfigIf.Sample.text
        (.new ConfigIf.Sample.mem) = (.CONFIG_OK, s.config) ∧
      initMics s.env.toFloat s.config = .error .outOfBounds := by
  refine ⟨{ alg_mic_pos := List.replicate 8 [.int 0, .int 0, .int 0] },
    ConfigIf.Sample.accepted _, ?_⟩
  rfl

/-! ### The tables and the units -/

/-- The part of the loaded configuration that the processor reads, with a zero
    where a coordinate is missing. -/
def processorConfig (toFloat : D → F) (cfg : ConfigIf.SirenConfig F D) : SirenConfig F where
  mic_num := cfg.mic_num.toNat
  alg_mic_pos := cfg.alg_config.alg_mic_pos.map fun mic =>
    let x := fun j : Nat => (mic[j]?.map toFloat).getD (CFloat.ofInt 0)
    (x 0, x 1, x 2)
  alg_need_i2s_delay_mics := cfg.alg_config.alg_need_i2s_delay_mics
  alg_i2s_delay_mics := cfg.alg_config.alg_i2s_delay_mics.map toFloat
  alg_aec_mics := cfg.alg_config.alg_aec_mics
  alg_sl_mics := cfg.alg_config.alg_sl_mics
  alg_vt_phomod := cfg.alg_config.alg_vt_phomod
  alg_vt_dnnmod := cfg.alg_config.alg_vt_dnnmod
  def_vt_configs := cfg.alg_config.def_vt_configs
  alg_bf_scaling := cfg.alg_config.alg_bf_scaling
  alg_vt_enable := cfg.alg_config.alg_vt_enable
  alg_vad_enable := cfg.alg_config.alg_vad_enable
  alg_opus_compress := cfg.alg_config.alg_opus_compress

omit [CFloat F] in
theorem fillPos_get {mic_pos : List F} (h : fillPos toFloat cfg = .ok mic_pos) {i j : Nat}
    (hi : i < cfg.mic_num.toNat) (hj : j < 3) :
    ∃ mic x, cfg.alg_config.alg_mic_pos[i]? = some mic ∧ mic[j]? = some x ∧
      mic_pos[i * 3 + j]? = some (toFloat x) := by
  unfold fillPos at h
  obtain ⟨rows, hrows, h⟩ := Access.bind_eq_ok.mp h
  cases h
  -- turn `i` of the outer loop, and turn `j` of the inner one
  obtain ⟨row, hrow, hturn⟩ := getElem?_of_mapM hrows (List.getElem?_range hi)
  obtain ⟨v, hv, hread⟩ := getElem?_of_mapM hturn (List.getElem?_range hj)
  have hthree : ∀ row ∈ rows, row.length = 3 :=
    forall_of_mapM (fun _ _ hrow => length_of_mapM hrow) hrows
  unfold readPos at hread
  obtain ⟨mic, hmic, hread⟩ := Access.bind_eq_ok.mp hread
  obtain ⟨x, hx, hread⟩ := Access.bind_eq_ok.mp hread
  cases hread
  refine ⟨mic, x, read_eq_ok hmic, read_eq_ok hx, ?_⟩
  rw [Nat.mul_comm, Blocks.getElem?_flatten hthree hrow hj, hv]

/-- The loop over the delays, on an array and on a function. -/
theorem micDelays_of_fillDelays (hnum : 0 ≤ cfg.mic_num) {need : List (Int × Nat)} {l l' : List F}
    {d : Int → F} (hl : l.length = cfg.mic_num.toNat)
    (hd : ∀ id, 0 ≤ id → id < cfg.mic_num → l[id.toNat]? = some (d id))
    (h : need.foldlM (fillDelay toFloat cfg) l = .ok l') :
    ∃ d', micDelays (processorConfig toFloat cfg) need d = .ok d' ∧
      ∀ id, 0 ≤ id → id < cfg.mic_num → l'[id.toNat]? = some (d' id) := by
  induction need generalizing l d with
  | nil =>
    cases h
    exact ⟨d, rfl, hd⟩
  | cons r need ih =>
    obtain ⟨idx, i⟩ := r
    rw [List.foldlM_cons] at h
    obtain ⟨l₁, hturn, h⟩ := Access.bind_eq_ok.mp h
    have hl₁ := (fillDelay_length hturn).trans hl
    have hcast : ((processorConfig toFloat cfg).mic_num : Int) = cfg.mic_num :=
      Int.toNat_of_nonneg hnum
    unfold micDelays
    rw [hcast]
    unfold fillDelay at hturn
    -- both loops pass over an index that is too large
    by_cases hlarge : idx ≥ cfg.mic_num
    · rw [if_pos hlarge] at hturn ⊢
      cases hturn
      exact ih hl hd h
    · rw [if_neg hlarge] at hturn ⊢
      obtain ⟨delay, hread, hwrite⟩ := Access.bind_eq_ok.mp hturn
      have hidx := (returns_write_iff.mp ⟨l₁, hwrite⟩).1
      have hdelay : (processorConfig toFloat cfg).alg_i2s_delay_mics[i]? =
          some (toFloat delay) := by
        show (cfg.alg_config.alg_i2s_delay_mics.map toFloat)[i]? = _
        rw [List.getElem?_map]
        exact congrArg (Option.map toFloat) (read_eq_ok hread)
      rw [assertThat, if_pos (by simpa using hidx), hdelay]
      refine ih hl₁ ?_ h
      intro id hlow hhigh
      rw [write_eq_ok hwrite]
      -- the entry written, and the others
      by_cases hsame : id = idx
      · rw [hsame, Function.update_self, List.getElem?_set_self (by omega)]
      · rw [Function.update_of_ne hsame, List.getElem?_set_ne (by omega)]
        exact hd id hlow hhigh

/-- What a unit takes from the tables for one microphone. -/
theorem readMic_eq {mic_pos mic_i2s_delay : List F} {d : Int → F}
    (hpos : fillPos toFloat cfg = .ok mic_pos)
    (hdelay : mic_i2s_delay.length = cfg.mic_num.toNat)
    (hd : ∀ id, 0 ≤ id → id < cfg.mic_num → mic_i2s_delay[id.toNat]? = some (d id)) {id : Int}
    {r : F × F × F × F} (h : readMic mic_pos mic_i2s_delay id = .ok r) :
    (r.1, r.2.1, r.2.2.1) = (processorConfig toFloat cfg).alg_mic_pos.getD id.toNat
        (CFloat.ofInt 0, CFloat.ofInt 0, CFloat.ofInt 0) ∧ r.2.2.2 = d id := by
  obtain ⟨hlow, hhigh⟩ := (returns_readMic_iff (fillPos_length hpos) hdelay).mp ⟨r, h⟩
  unfold readMic at h
  obtain ⟨x, hx, h⟩ := Access.bind_eq_ok.mp h
  obtain ⟨y, hy, h⟩ := Access.bind_eq_ok.mp h
  obtain ⟨z, hz, h⟩ := Access.bind_eq_ok.mp h
  obtain ⟨v, hv, h⟩ := Access.bind_eq_ok.mp h
  cases h
  have hi : id.toNat < cfg.mic_num.toNat := by omega
  -- the three coordinates of the microphone
  have hcoord : ∀ j : Nat, j < 3 → ∃ mic a, cfg.alg_config.alg_mic_pos[id.toNat]? = some mic ∧
      mic[j]? = some a ∧ mic_pos[(id * 3 + j).toNat]? = some (toFloat a) := by
    intro j hj
    obtain ⟨mic, a, hmic, ha, hget⟩ := fillPos_get hpos hi hj
    refine ⟨mic, a, hmic, ha, ?_⟩
    have hindex : (id * 3 + j).toNat = id.toNat * 3 + j := by omega
    rw [hindex]
    exact hget
  obtain ⟨mic, a, hmic, ha, hget₀⟩ := hcoord 0 (by decide)
  obtain ⟨mic₁, b, hmic₁, hb, hget₁⟩ := hcoord 1 (by decide)
  obtain ⟨mic₂, c, hmic₂, hc, hget₂⟩ := hcoord 2 (by decide)
  obtain rfl : mic = mic₁ := Option.some.inj (hmic.symm.trans hmic₁)
  obtain rfl : mic = mic₂ := Option.some.inj (hmic.symm.trans hmic₂)
  have hx' := read_eq_ok hx
  rw [← Int.add_zero (id * 3)] at hx'
  obtain rfl : x = toFloat a := Option.some.inj (hx'.symm.trans hget₀)
  obtain rfl : y = toFloat b := Option.some.inj ((read_eq_ok hy).symm.trans hget₁)
  obtain rfl : z = toFloat c := Option.some.inj ((read_eq_ok hz).symm.trans hget₂)
  constructor
  · show _ = (cfg.alg_config.alg_mic_pos.map _).getD _ _
    rw [List.getD_eq_getElem?_getD, List.getElem?_map, hmic]
    show _ = ((mic[0]?.map toFloat).getD _, (mic[1]?.map toFloat).getD _,
      (mic[2]?.map toFloat).getD _)
    rw [ha, hb, hc]
    rfl
  · exact Option.some.inj ((read_eq_ok hv).symm.trans (hd id hlow (by omega)))

/-- The units of `init` hold what the checked copies give. -/
theorem init_eq {E : Engines F} {t : MicTables F} {p : SirenProcessorImpl F E}
    (h : initMics toFloat cfg = .ok (some t))
    (hp : init (processorConfig toFloat cfg) = .ok (some p)) :
    p.m_pMmem_bf.m_pMics_Bf = t.bf.map (fun r => (r.1, r.2.1, r.2.2.1)) ∧
      p.m_pMmem_bf.m_pMicI2sDelay = t.bf.map (fun r => r.2.2.2) ∧ t.vbv = t.bf := by
  have hnum : 0 ≤ cfg.mic_num := ((initMics_inside_iff toFloat cfg).2.mp ⟨_, h⟩).1
  unfold initMics at h
  rw [if_neg (Int.not_lt.mpr hnum)] at h
  obtain ⟨mic_pos, hpos, h⟩ := Access.bind_eq_ok.mp h
  obtain ⟨mic_i2s_delay, hdelay, h⟩ := Access.bind_eq_ok.mp h
  split at h
  · cases h
  split at h
  · cases h
  obtain ⟨vbv, hvbv, h⟩ := Access.bind_eq_ok.mp h
  obtain ⟨bf, hbf, h⟩ := Access.bind_eq_ok.mp h
  cases h
  have hzeros : ∀ id : Int, 0 ≤ id → id < cfg.mic_num →
      (List.replicate cfg.mic_num.toNat (CFloat.ofInt 0 : F))[id.toNat]? =
        some ((fun _ => CFloat.ofInt 0) id) := by
    intro id hlow hhigh
    exact List.getElem?_replicate_of_lt (by omega)
  obtain ⟨d, hd, hsame⟩ := micDelays_of_fillDelays hnum List.length_replicate hzeros hdelay
  obtain ⟨d', _, hd', _, rfl⟩ := init_eq_some hp
  -- the arrays and the tables of `init` are filled from the same delays
  obtain rfl : d = d' := Except.ok.inj (hd.symm.trans hd')
  refine ⟨?_, ?_, Except.ok.inj (hvbv.symm.trans hbf)⟩
  · refine (map_eq_of_mapM ?_ hbf).symm
    intro id r hread
    exact (readMic_eq hpos (fillDelays_length hdelay) hsame hread).1
  · refine (map_eq_of_mapM ?_ hbf).symm
    intro id r hread
    exact (readMic_eq hpos (fillDelays_length hdelay) hsame hread).2

end SirenProcessorImpl

end BlackSiren

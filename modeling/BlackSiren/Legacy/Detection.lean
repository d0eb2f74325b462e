import BlackSiren.Framework.Sessions
import BlackSiren.Legacy.Vbv3

/-! # Detections

    A detection opens with a pre event and is closed by one of three others.
    `r2mem_vbv3` checks this with `m_bPre`, which its constructor does not assign, and
    keeps the word of the pre event until the call after the one that closes.

    - `marks`: a result as marks of a session
    - `Process_eq`: the check is that of the session
    - `Sign`: what the units of a processor meet, one after another
    - `safe_iff`: when no check fails and no pointer is read that is not the latest
-/

open LTS Sessions

namespace BlackSiren

/-! ### Results -/

/-- The events of a result, in the order of the checks. -/
def VbvResult.marks (rt : VbvResult) : List Mark :=
  (if rt.R2_VT_WORD_PRE then [.opens] else []) ++
    (if rt.R2_VT_WORD_DET then [.stays] else []) ++
    (if rt.R2_VT_WORD_CANCEL then [.closes] else []) ++
    (if rt.R2_VT_WORD_DET_CMD then [.closes] else []) ++
    (if rt.R2_VT_WORD_DET_NOCMD then [.closes] else [])

/-- The result has an event after which the word may be looked at. -/
def VbvResult.speaks (rt : VbvResult) : Bool :=
  rt.R2_VT_WORD_PRE || rt.R2_VT_WORD_DET_CMD || rt.R2_VT_WORD_DET_NOCMD

theorem VbvResult.marks_of_closed {rt : VbvResult} (h : Orderly false rt.marks)
    (hpre : rt.R2_VT_WORD_PRE = false) : rt.marks = [] := by
  obtain ⟨pre, det, cancel, cmd, nocmd⟩ := rt
  revert pre det cancel cmd nocmd
  decide

theorem VbvResult.silent_of_marks {rt : VbvResult} (h : rt.marks = []) :
    rt.R2_VT_WORD_PRE = false ∧ rt.speaks = false := by
  obtain ⟨pre, det, cancel, cmd, nocmd⟩ := rt
  revert pre det cancel cmd nocmd
  decide

/-- A word is looked at, and a detection is left open, only if it is open or opened. -/
theorem VbvResult.opened {rt : VbvResult} {isOpen isOpen' : Bool}
    (h : exec next isOpen rt.marks = some isOpen') (hword : rt.speaks = true ∨ isOpen' = true) :
    rt.R2_VT_WORD_PRE = true ∨ isOpen = true := by
  obtain ⟨pre, det, cancel, cmd, nocmd⟩ := rt
  revert pre det cancel cmd nocmd isOpen isOpen'
  decide

/-! ### The members -/

/-- What `r2_vbv_getdetwordinfo` gives. -/
abbrev DetInfo (F : Type) : Type := Option (WordInfo F) × Option (WordDetInfo F)

variable {F : Type}

namespace VbvMembers

/-- A call of `Process` with this result. -/
def hear (m : VbvMembers F) (rt : VbvResult) (info : DetInfo F) : Option (VbvMembers F) :=
  (exec next m.m_bPre rt.marks).map fun isOpen => {
    m_bPre := isOpen
    m_pWordInfo :=
      if rt.R2_VT_WORD_PRE then info.1 else if m.m_bPre then m.m_pWordInfo else none
    m_pWordDetInfo :=
      if rt.R2_VT_WORD_PRE then info.2 else if m.m_bPre then m.m_pWordDetInfo else none }

/-- The pointers are not null, and those of the latest pre event. -/
structure FromLatest (m : VbvMembers F) (latest : Option (DetInfo F)) : Prop where
  word : m.m_pWordInfo.isSome
  det : m.m_pWordDetInfo.isSome
  latest : latest = some (m.m_pWordInfo, m.m_pWordDetInfo)

theorem not_fromLatest_none (m : VbvMembers F) : ¬ m.FromLatest none := by
  intro h
  cases h.latest

end VbvMembers

/-- The latest pre event behind a result. -/
def VbvResult.obtained (rt : VbvResult) (info : DetInfo F) (latest : Option (DetInfo F)) :
    Option (DetInfo F) :=
  if rt.R2_VT_WORD_PRE then some info else latest

theorem VbvResult.obtained_of_not_pre {rt : VbvResult} (hpre : rt.R2_VT_WORD_PRE = false)
    (info : DetInfo F) (latest : Option (DetInfo F)) : rt.obtained info latest = latest := by
  unfold VbvResult.obtained
  rw [hpre]
  rfl

namespace R2memVbv3

variable {eng : VbvEngine F}

/-- What the engine does in a call of `Process`. -/
def answer (u : R2memVbv3 F eng) (pWavBuff : Chan F) (iWavLen : Nat) (bDirtyReset bAec : Bool) :
    eng.State × VbvResult :=
  eng.process u.m_hEngine_Vbv
    (u.m_pMicInfo_Bf.map fun id => (List.range iWavLen).map (pWavBuff id)) bAec bDirtyReset

/-- `Process` fails exactly where a mark is out of place. -/
theorem Process_eq (u : R2memVbv3 F eng) (pWavBuff : Chan F) (iWavLen : Nat)
    (bDirtyReset bAec : Bool) {h : eng.State} {rt : VbvResult}
    (hanswer : u.answer pWavBuff iWavLen bDirtyReset bAec = (h, rt)) :
    u.Process pWavBuff iWavLen bDirtyReset bAec =
      match u.members.hear rt (eng.getdetwordinfo h) with
      | some m => .ok ({ u with
          m_hEngine_Vbv := h
          m_bPre := m.m_bPre
          m_pWordInfo := m.m_pWordInfo
          m_pWordDetInfo := m.m_pWordDetInfo }, rt)
      | none => .error (if rt.R2_VT_WORD_PRE && u.m_bPre then .vbvPre else .vbvNoPre) := by
  obtain ⟨mics, handle, bPre, word, det⟩ := u
  unfold answer at hanswer
  unfold Process
  cases bPre with
  | false =>
    simp only [Bool.false_eq_true, if_false, hanswer]
    obtain ⟨pre, det, cancel, cmd, nocmd⟩ := rt
    cases pre <;> cases det <;> cases cancel <;> cases cmd <;> cases nocmd <;> rfl
  | true =>
    simp only [if_true, hanswer]
    obtain ⟨pre, det, cancel, cmd, nocmd⟩ := rt
    cases pre <;> cases det <;> cases cancel <;> cases cmd <;> cases nocmd <;> rfl

end R2memVbv3

/-! ### Objects and their results -/

/-- What happens to the objects of a processor. -/
inductive Sign (F : Type) where
  /-- A new object, with what its constructor has left in the members. -/
  | built (m : VbvMembers F)
  /-- A result, and what `r2_vbv_getdetwordinfo` gives behind it. -/
  | heard (rt : VbvResult) (info : DetInfo F)
  | getVTInfo

namespace Sign

/-- The results of each object are in order: every detection opens with a pre event and
    is closed once, before the next one opens; a cancel event comes with its pre event. -/
def Ordered : (isOpen : Bool) → List (Sign F) → Prop
  | _, [] => True
  | _, .built _ :: l => Ordered false l
  | isOpen, .heard rt _ :: l =>
      (rt.R2_VT_WORD_CANCEL = true → rt.R2_VT_WORD_PRE = true) ∧
        ∃ isOpen', exec next isOpen rt.marks = some isOpen' ∧ Ordered isOpen' l
  | isOpen, .getVTInfo :: l => Ordered isOpen l

instance decOrdered : (isOpen : Bool) → (l : List (Sign F)) → Decidable (Ordered isOpen l)
  | _, [] => isTrue trivial
  | _, .built _ :: l => decOrdered false l
  | _, .heard rt _ :: l =>
      have : ∀ isOpen', Decidable (Ordered isOpen' l) := fun isOpen' => decOrdered isOpen' l
      inferInstanceAs (Decidable ((rt.R2_VT_WORD_CANCEL = true → rt.R2_VT_WORD_PRE = true) ∧
        ∃ isOpen', _ ∧ Ordered isOpen' l))
  | isOpen, .getVTInfo :: l => decOrdered isOpen l

/-- After a pre event both pointers are there to be fetched. -/
def Announced (l : List (Sign F)) : Prop :=
  ∀ rt info, .heard rt info ∈ l → rt.R2_VT_WORD_PRE = true → info.1.isSome ∧ info.2.isSome

/-- No check of `Process` fails, and what is looked at comes from the latest pre event of
    the object: the word after the results in `asked`, and any that `getVTInfo` finds. -/
def Safe (asked : VbvResult → Prop) :
    VbvMembers F → (latest : Option (DetInfo F)) → List (Sign F) → Prop
  | _, _, [] => True
  | _, _, .built m :: l => Safe asked m none l
  | m, latest, .heard rt info :: l =>
      ∃ m', m.hear rt info = some m' ∧ (asked rt → m'.FromLatest (rt.obtained info latest)) ∧
        Safe asked m' (rt.obtained info latest) l
  | m, latest, .getVTInfo :: l =>
      (m.m_pWordInfo.isSome → m.FromLatest latest) ∧ Safe asked m latest l

/-- What the constructor has left in the members does no harm: if `m_bPre` is set, there
    is no pre event, and `getVTInfo` is not called on a word that no call has cleared. -/
def Harmless (m : VbvMembers F) : List (Sign F) → Prop
  | [] => True
  | .built _ :: _ => True
  | .heard rt _ :: l =>
      if m.m_bPre then rt.R2_VT_WORD_PRE = false ∧ Harmless m l else True
  | .getVTInfo :: l => m.m_pWordInfo = none ∧ Harmless m l

/-- It does none for any object. -/
def AllHarmless : List (Sign F) → Prop
  | [] => True
  | .built m :: l => Harmless m l ∧ AllHarmless l
  | .heard _ _ :: l => AllHarmless l
  | .getVTInfo :: l => AllHarmless l

/-- An object whose members agree with the detection hears an orderly result: they agree
    with it afterwards, and the word that is there is the latest. -/
theorem hear_agrees {m : VbvMembers F} {latest : Option (DetInfo F)} {rt : VbvResult}
    {info : DetInfo F} {isOpen' : Bool} (hopen : m.m_bPre = true → m.FromLatest latest)
    (hinfo : rt.R2_VT_WORD_PRE = true → info.1.isSome ∧ info.2.isSome)
    (hexec : exec next m.m_bPre rt.marks = some isOpen') :
    ∃ m', m.hear rt info = some m' ∧ m'.m_bPre = isOpen' ∧
      (rt.R2_VT_WORD_PRE = true ∨ m.m_bPre = true → m'.FromLatest (rt.obtained info latest)) ∧
      (m'.m_pWordInfo.isSome → m'.FromLatest (rt.obtained info latest)) := by
  refine ⟨_, by rw [VbvMembers.hear, hexec]; rfl, rfl, ?_⟩
  unfold VbvResult.obtained
  cases hpre : rt.R2_VT_WORD_PRE with
  | true =>
    have hlatest := VbvMembers.FromLatest.mk (m := ⟨isOpen', info.1, info.2⟩) (hinfo hpre).1
      (hinfo hpre).2 rfl
    exact ⟨fun _ => hlatest, fun _ => hlatest⟩
  | false =>
    cases hbefore : m.m_bPre with
    | true =>
      have hlatest := hopen hbefore
      have hkept : VbvMembers.FromLatest ⟨isOpen', m.m_pWordInfo, m.m_pWordDetInfo⟩ latest :=
        ⟨hlatest.word, hlatest.det, hlatest.latest⟩
      exact ⟨fun _ => hkept, fun _ => hkept⟩
    | false =>
      -- nothing is open, and the call has cleared the pointers
      refine ⟨?_, ?_⟩
      · intro hnone
        rcases hnone with hnone | hnone
        · cases hnone
        · cases hnone
      · intro hsome
        cases hsome

/-- An object with `m_bPre` set stays as it is when it hears an empty result. -/
theorem hear_empty {m : VbvMembers F} {rt : VbvResult} (hbPre : m.m_bPre = true)
    (hmarks : rt.marks = []) (info : DetInfo F) : m.hear rt info = some m := by
  have hpre := (VbvResult.silent_of_marks hmarks).1
  unfold VbvMembers.hear
  rw [hmarks, hbPre, hpre]
  obtain ⟨bPre, word, det⟩ := m
  cases hbPre
  rfl

variable {asked : VbvResult → Prop}

/-- A result for an object whose members agree with the detection. -/
theorem safe_heard (hasked : ∀ rt, asked rt → rt.speaks = true) {m : VbvMembers F}
    {latest : Option (DetInfo F)} {rt : VbvResult} {info : DetInfo F} {isOpen' : Bool}
    (hopen : m.m_bPre = true → m.FromLatest latest)
    (hinfo : rt.R2_VT_WORD_PRE = true → info.1.isSome ∧ info.2.isSome)
    (hexec : exec next m.m_bPre rt.marks = some isOpen') (l : List (Sign F)) :
    ∃ m', m'.m_bPre = isOpen' ∧
      (isOpen' = true → m'.FromLatest (rt.obtained info latest)) ∧
      (m'.m_pWordInfo.isSome → m'.FromLatest (rt.obtained info latest)) ∧
      (Safe asked m latest (.heard rt info :: l) ↔ Safe asked m' (rt.obtained info latest) l) := by
  obtain ⟨m', hhear, hbPre, hafter, hword⟩ := hear_agrees hopen hinfo hexec
  refine ⟨m', hbPre, fun hb => hafter (VbvResult.opened hexec (.inr hb)), hword, ?_⟩
  constructor
  · intro hsafe
    obtain ⟨m'', hhear', _, hsafe⟩ := hsafe
    rw [hhear] at hhear'
    cases hhear'
    exact hsafe
  · intro hsafe
    exact ⟨m', hhear, fun hask => hafter (VbvResult.opened hexec (.inl (hasked rt hask))), hsafe⟩

/-- A result for an object with `m_bPre` left set although no detection is open: the check
    passes only if there is no event at all. -/
theorem safe_heard_set (hasked : ∀ rt, asked rt → rt.speaks = true) {m : VbvMembers F}
    {rt : VbvResult} (info : DetInfo F) (hbPre : m.m_bPre = true)
    (hclosed : Orderly false rt.marks) (l : List (Sign F)) :
    Safe asked m none (.heard rt info :: l) ↔
      rt.R2_VT_WORD_PRE = false ∧ Safe asked m none l := by
  constructor
  · intro hsafe
    obtain ⟨m', hhear, _, hsafe⟩ := hsafe
    obtain ⟨_, hexec, _⟩ := Option.map_eq_some_iff.mp hhear
    rw [hbPre] at hexec
    have hmarks := eq_nil_of_orderly hclosed (orderly_iff.mpr ⟨_, hexec⟩)
    have hpre := (VbvResult.silent_of_marks hmarks).1
    rw [hear_empty hbPre hmarks] at hhear
    cases hhear
    rw [VbvResult.obtained_of_not_pre hpre] at hsafe
    exact ⟨hpre, hsafe⟩
  · intro hboth
    obtain ⟨hpre, hsafe⟩ := hboth
    have hmarks := VbvResult.marks_of_closed hclosed hpre
    refine ⟨m, hear_empty hbPre hmarks info, ?_, ?_⟩
    · intro hask
      have hsilent := (VbvResult.silent_of_marks hmarks).2
      rw [hasked rt hask] at hsilent
      cases hsilent
    · rwa [VbvResult.obtained_of_not_pre hpre]

/-- Both for an object that agrees with its detection, and for one that is still as its
    constructor has left it. -/
theorem safe_iff_of (hasked : ∀ rt, asked rt → rt.speaks = true) {l : List (Sign F)}
    (hinfo : Announced l) :
    (∀ m latest, Ordered m.m_bPre l → (m.m_bPre = true → m.FromLatest latest) →
        (m.m_pWordInfo.isSome → m.FromLatest latest) →
        (Safe asked m latest l ↔ AllHarmless l)) ∧
      ∀ m, Ordered false l → (Safe asked m none l ↔ Harmless m l ∧ AllHarmless l) := by
  induction l with
  | nil => exact ⟨fun _ _ _ _ _ => Iff.rfl, fun _ _ => (and_self_iff).symm⟩
  | cons a l ih =>
    obtain ⟨hagree, hnew⟩ := ih fun rt info hmem => hinfo rt info (List.mem_cons_of_mem _ hmem)
    cases a with
    | built m' =>
      refine ⟨fun _ _ hord _ _ => hnew m' hord, ?_⟩
      intro m hord
      exact (hnew m' hord).trans (and_iff_right trivial).symm
    | getVTInfo =>
      constructor
      · intro m latest hord hopen hword
        exact (and_iff_right hword).trans (hagree m latest hord hopen hword)
      · intro m hord
        have hnull : (m.m_pWordInfo.isSome → m.FromLatest none) ↔ m.m_pWordInfo = none := by
          rw [← Option.not_isSome_iff_eq_none]
          exact imp_congr_right fun _ => iff_false_intro m.not_fromLatest_none
        exact (and_congr hnull (hnew m hord)).trans and_assoc.symm
    | heard rt info =>
      have hpair := hinfo rt info List.mem_cons_self
      have hstep : ∀ m latest, Ordered m.m_bPre (.heard rt info :: l) →
          (m.m_bPre = true → m.FromLatest latest) →
          (Safe asked m latest (.heard rt info :: l) ↔ AllHarmless l) := by
        intro m latest hord hopen
        obtain ⟨_, isOpen', hexec, hord⟩ := hord
        obtain ⟨m', rfl, hopen', hword', hsafe⟩ := safe_heard hasked hopen hpair hexec l
        exact hsafe.trans (hagree m' _ hord hopen' hword')
      refine ⟨fun m latest hord hopen _ => hstep m latest hord hopen, ?_⟩
      intro m hord
      cases hbPre : m.m_bPre with
      | false =>
        -- the first call clears what the constructor has left
        have hclear : Harmless m (.heard rt info :: l) := by
          unfold Harmless
          rw [hbPre]
          trivial
        have hopen : m.m_bPre = true → m.FromLatest none := by
          intro hb
          rw [hbPre] at hb
          cases hb
        exact (hstep m none (hbPre ▸ hord) hopen).trans (and_iff_right hclear).symm
      | true =>
        obtain ⟨_, isOpen', hexec, hord⟩ := hord
        have hclosed : Orderly false rt.marks := orderly_iff.mpr ⟨isOpen', hexec⟩
        have hharm : Harmless m (.heard rt info :: l) ↔
            rt.R2_VT_WORD_PRE = false ∧ Harmless m l := by
          conv_lhs => unfold Harmless
          rw [hbPre, if_pos rfl]
        rw [safe_heard_set hasked info hbPre hclosed l, hharm, and_assoc]
        apply and_congr_right
        intro hpre
        rw [VbvResult.marks_of_closed hclosed hpre] at hexec
        cases hexec
        exact hnew m hord

/-- From a new object on. -/
theorem safe_iff (hasked : ∀ rt, asked rt → rt.speaks = true) {m : VbvMembers F}
    {l : List (Sign F)} (hinfo : Announced l) (hord : Ordered false l) :
    Safe asked m none l ↔ AllHarmless (.built m :: l) :=
  (safe_iff_of hasked hinfo).2 m hord

end Sign

end BlackSiren

import BlackSiren.Legacy.Basic

/-! # Microphone lists behind pointers

    The preprocessor hands its units pointers to microphone lists, some of which
    it leaves null.
-/

namespace BlackSiren

/-- An `r2_mic_info*`. -/
abbrev MicInfo : Type := Option MicIdLst

/-- A null `r2_mic_info*` is dereferenced. -/
inductive NullMicInfo where
  | nullMicInfo
  deriving DecidableEq, Repr

/-- Read through the pointer. -/
def MicInfo.get (p : MicInfo) : Except NullMicInfo MicIdLst :=
  match p with
  | some mics => .ok mics
  | none => .error .nullMicInfo

/-- A constructor that has returned has found its list. -/
theorem MicInfo.get_bind_eq_ok {α : Type} {p : MicInfo} {f : MicIdLst → Except NullMicInfo α}
    {a : α} : (p.get >>= f) = .ok a ↔ ∃ mics, p = some mics ∧ f mics = .ok a := by
  cases p with
  | none =>
    constructor
    · intro h
      cases h
    · rintro ⟨mics, h, _⟩
      cases h
  | some l =>
    constructor
    · intro h
      exact ⟨l, rfl, h⟩
    · rintro ⟨mics, h, hf⟩
      cases h
      exact hf

end BlackSiren

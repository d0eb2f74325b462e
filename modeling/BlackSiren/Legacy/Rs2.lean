import BlackSiren.Legacy.MicInfo

/-! # `r2mem_rs2`: resampling

    The unit resamples the channels of its list from 48 kHz to 16 kHz, after a
    detour over 96 kHz that delays every other channel by half a sample.  The
    resampler is a parameter.
-/

namespace BlackSiren

/-- The resampler: `r2_rs_create` with the number of channels and the three
    numbers of a rate change, and `r2_rs_process_float` with its rows and the
    number of samples in each. -/
structure RsEngine (F : Type) where
  State : Type
  create : Nat → Nat → Nat → Nat → State
  process : State → List (Nat → F) → Nat → State × List (Nat → F) × Nat

/-- `r2mem_rs2`; `m_hRs_48_96` is there if `m_bDelay` is. -/
structure R2memRs2 (F : Type) (eng : RsEngine F) where
  m_pMicInfo_Rs : MicIdLst
  m_hRs_48_16 : eng.State
  m_hRs_48_96 : Option eng.State
  m_iLen_Out_Total : Nat
  m_pData_Out : Chan F

namespace R2memRs2

variable {F : Type} [CFloat F] {eng : RsEngine F}

/-- The constructor, on a list that is there. -/
def new (pMicInfo_Rs : MicIdLst) (bDelay : Bool) : R2memRs2 F eng where
  m_pMicInfo_Rs := pMicInfo_Rs
  m_hRs_48_16 := eng.create pMicInfo_Rs.length 3 1 160
  m_hRs_48_96 := if bDelay then some (eng.create pMicInfo_Rs.length 1 2 960) else none
  m_iLen_Out_Total := 16000
  m_pData_Out := fun _ _ => CFloat.ofInt 0

/-- The half-sample delay: back at 48 kHz, a channel with an even id takes the
    odd samples. -/
def delay (u : R2memRs2 F eng) (rows : List (Nat → F)) (iLen : Nat) :
    R2memRs2 F eng × List (Nat → F) × Nat :=
  match u.m_hRs_48_96 with
  | none => (u, rows, iLen)
  | some h =>
      let (h, rows, len) := eng.process h rows iLen
      let picked := List.zipWith (fun (id : Int) row => fun j =>
        if id % 2 = 0 then row (j * 2 + 1) else row (j * 2)) u.m_pMicInfo_Rs rows
      ({ u with m_hRs_48_96 := some h }, picked, len / 2)

/-- The rows of the listed channels, one after the other. -/
def writeRows (mics : MicIdLst) (rows : List (Nat → F)) (n : Nat) (d : Chan F) : Chan F :=
  (mics.zip rows).foldl (fun d r => fun id i =>
    if id = r.1 ∧ i < n then r.2 i else d id i) d

/-- `process`: the samples per channel. -/
def process (u : R2memRs2 F eng) (pData_In : Chan F) (iLen_In : Nat) : R2memRs2 F eng × Nat :=
  let (u, rows, len) := u.delay (u.m_pMicInfo_Rs.map pData_In) iLen_In
  let (h, rows, len) := eng.process u.m_hRs_48_16 rows len
  let tooSmall := len > u.m_iLen_Out_Total
  let old : Chan F := if tooSmall then fun _ _ => CFloat.ofInt 0 else u.m_pData_Out
  ({ u with
      m_hRs_48_16 := h
      m_iLen_Out_Total := if tooSmall then len * 2 else u.m_iLen_Out_Total
      m_pData_Out := writeRows u.m_pMicInfo_Rs rows len old },
    len)

omit [CFloat F] in
/-- A listed channel is its row. -/
theorem writeRows_map {mics : MicIdLst} (x : Chan F) {n : Nat} (d : Chan F) {id : Int} {i : Nat}
    (hid : id ∈ mics) (hi : i < n) : writeRows mics (mics.map x) n d id i = x id i := by
  -- nothing of what was there before is left
  have hwrite : ∀ (l : MicIdLst) (d : Chan F), (id ∈ l ∨ d id i = x id i) →
      writeRows l (l.map x) n d id i = x id i := by
    intro l
    induction l with
    | nil =>
      intro d h
      exact h.resolve_left List.not_mem_nil
    | cons a l ih =>
      intro d h
      apply ih
      rw [List.mem_cons] at h
      by_cases ha : id = a
      · subst ha
        exact .inr (if_pos ⟨rfl, hi⟩)
      · rcases h with (h | h) | h
        · exact absurd h ha
        · exact .inl h
        · exact .inr ((if_neg fun hand => ha hand.1).trans h)
  exact hwrite mics d (.inl hid)

end R2memRs2

end BlackSiren

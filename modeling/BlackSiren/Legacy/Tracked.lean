import BlackSiren.Legacy.Rdc

/-! # Samples that know where they come from

    A sample with the position of the stream it was copied from.  The operations
    work on the values; a subtraction keeps the position of what it subtracts
    from, any other result comes from nowhere.  No unit looks at a position, so
    a unit over such samples does what it does over the values.

    - `Tracked`, its operations
    - `process_values`: `r2mem_rdc` over such samples
-/

namespace BlackSiren

/-- A sample, and the position it comes from. -/
structure Tracked (F : Type) where
  value : F
  source : Option Nat
  deriving DecidableEq

variable {F D : Type}

instance [CFloat F] : CFloat (Tracked F) where
  ofRat := fun q => ⟨CFloat.ofRat q, none⟩
  ofInt := fun i => ⟨CFloat.ofInt i, none⟩
  sub := fun x y => ⟨CFloat.sub x.value y.value, x.source⟩
  mul := fun x y => ⟨CFloat.mul x.value y.value, none⟩
  div := fun x y => ⟨CFloat.div x.value y.value, none⟩
  abs := fun x => ⟨CFloat.abs x.value, none⟩
  lt := fun x y => CFloat.lt x.value y.value
  eq := fun x y => CFloat.eq x.value y.value
  bits := fun x => CFloat.bits x.value
  ofBits := fun b => ⟨CFloat.ofBits b, none⟩

instance [CDouble F D] : CDouble (Tracked F) D where
  addFloat := fun x y => ⟨CDouble.addFloat D x.value y.value, none⟩
  ofFloat := fun x => CDouble.ofFloat x.value
  ofRat := CDouble.ofRat F
  add := CDouble.add F
  sub := CDouble.sub F
  div := CDouble.div F
  sqrt := CDouble.sqrt F
  lt := CDouble.lt F

/-- The values of some channels. -/
def Chan.values (d : Chan (Tracked F)) : Chan F := fun id j => (d id j).value

namespace R2memRdc

variable [CFloat F] [CDouble F D]

/-- The unit over the values. -/
def values (u : R2memRdc (Tracked F) D) : R2memRdc F D :=
  { u with m_pRDc := u.m_pRDc.map Tracked.value }

omit [CFloat F] in
theorem value_foldl (f : Nat → Tracked F) (l : List Nat) (sum : Tracked F) :
    (l.foldl (fun sum j => CDouble.addFloat D sum (f j)) sum).value =
      l.foldl (fun sum j => CDouble.addFloat D sum (f j).value) sum.value := by
  induction l generalizing sum with
  | nil => rfl
  | cons j l ih => exact ih _

theorem collect_values (u : R2memRdc (Tracked F) D) (d : Chan (Tracked F)) (iCur : Nat) :
    (u.collect d iCur).values = u.values.collect d.values iCur := by
  have hsums : (List.zipWith (fun id sum => (List.range iCur).foldl (fun sum j =>
      CDouble.addFloat D sum (d id j)) sum) u.m_pMicInfo_Rdc u.m_pRDc).map Tracked.value =
      List.zipWith (fun id sum => (List.range iCur).foldl (fun sum j =>
        CDouble.addFloat D sum (d.values id j)) sum) u.m_pMicInfo_Rdc
          (u.m_pRDc.map Tracked.value) := by
    rw [List.map_zipWith, List.zipWith_map_right]
    congr 1
    funext id sum
    exact value_foldl (d id) _ sum
  unfold collect values
  rw [hsums]
  rfl

theorem calibrate_values (u : R2memRdc (Tracked F) D) :
    u.calibrate.values = u.values.calibrate := by
  unfold calibrate values
  simp only [List.map_map, List.zipWith_map_right]
  rfl

omit [CDouble F D] in
theorem correct_values (u : R2memRdc (Tracked F) D) (d : Chan (Tracked F)) (iCur n : Nat) :
    (u.correct d iCur n).values = u.values.correct d.values iCur n := by
  unfold correct values
  dsimp only
  rw [List.zip_map_left, List.zip_map_right, List.foldl_map]
  generalize u.m_pMicInfo_Rdc.zip (u.m_pRDc.zip u.m_bMicOk) = entries
  induction entries generalizing d with
  | nil => rfl
  | cons r entries ih =>
    rw [List.foldl_cons, List.foldl_cons, ih]
    congr 1
    funext id j
    show Tracked.value (if id = r.1 ∧ j < n then if r.2.2 then _ else _ else _) =
      if id = r.1 ∧ j < n then if r.2.2 then _ else _ else _
    split_ifs <;> rfl

/-- Over samples that know where they come from the unit does what it does over
    their values. -/
theorem process_values (u : R2memRdc (Tracked F) D) (d : Chan (Tracked F)) (n : Nat) :
    (u.process d n).1.values = (u.values.process d.values n).1 ∧
      (u.process d n).2.1.values = (u.values.process d.values n).2.1 ∧
      (u.process d n).2.2 = (u.values.process d.values n).2.2 := by
  have hunit : (u.process d n).1.values = (u.values.process d.values n).1 := by
    unfold process
    dsimp only
    rw [← collect_values]
    show _ = if u.m_iCurLen < u.m_iMaxLen then _ else _
    by_cases hwaiting : u.m_iCurLen < u.m_iMaxLen
    · rw [if_pos hwaiting, if_pos hwaiting, ← calibrate_values]
      exact apply_ite values _ _ _
    · rw [if_neg hwaiting, if_neg hwaiting]
  refine ⟨hunit, ?_, rfl⟩
  have hcorrect := correct_values (u.process d n).1 d (min (u.m_iMaxLen - u.m_iCurLen) n)
    (n - min (u.m_iMaxLen - u.m_iCurLen) n)
  rw [hunit] at hcorrect
  show Chan.values (if n - min (u.m_iMaxLen - u.m_iCurLen) n > 0 then _ else _) =
    if n - min (u.m_iMaxLen - u.m_iCurLen) n > 0 then _ else _
  by_cases hleft : n - min (u.m_iMaxLen - u.m_iCurLen) n > 0
  · rw [if_pos hleft, if_pos hleft]
    exact hcorrect
  · rw [if_neg hleft, if_neg hleft]

end R2memRdc

end BlackSiren

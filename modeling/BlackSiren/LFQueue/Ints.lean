import BlackSiren.LFQueue.Phases

/-! # `LFQueue` with counters of 32 bits

    `LFCounter::val` and `queued_item_` are `int`s, and an atomic addition on an
    `int` wraps around.  The steps of `BlackSiren.LFQueue.Steps` have unbounded
    integers instead.

    - `State.nextInt`, `State.intSystem`: the steps with the `int`s in range
    - `State.Fitting`: a step that runs no `int` over
    - `State.fits`: as long as every step is fitting nothing wraps around, and the
      states are those of the unbounded steps
    - `State.CountersFit`: a step that runs no counter of an item over
    - `State.countersFit_recount`: then the states are those of the unbounded steps
      but for the count of the items, which no access reads
-/

namespace BlackSiren

/-- What an `int` holds after an atomic addition. -/
def wrapInt (v : Int) : Int := v.bmod 4294967296

/-- The range of an `int`. -/
def InInt (v : Int) : Prop := -2147483648 ≤ v ∧ v < 2147483648

theorem wrapInt_eq {v : Int} (h : InInt v) : wrapInt v = v :=
  Int.bmod_eq_of_le (by have := h.1; omega) (by have := h.2; omega)

theorem inInt_wrapInt (v : Int) : InInt (wrapInt v) := by
  unfold InInt wrapInt
  have hlo := Int.le_bmod (x := v) (m := 4294967296) (by decide)
  have hhi := Int.bmod_lt (x := v) (m := 4294967296) (by decide)
  omega

theorem InInt.add_one {v : Int} (h : InInt v) (hne : v ≠ 2147483647) : InInt (v + 1) := by
  unfold InInt at h ⊢
  omega

theorem InInt.sub_one {v : Int} (h : InInt v) (hne : v ≠ -2147483648) : InInt (v - 1) := by
  unfold InInt at h ⊢
  omega

namespace LFQueue

variable {Pid α : Type}

/-! ### The steps -/

/-- The item with its counter in range. -/
def wrapItem (it : LFItem α) : LFItem α :=
  { it with counter_ := { it.counter_ with val := wrapInt it.counter_.val } }

/-- The queue with its `int`s in range. -/
def wrapped (q : LFQueue α) : LFQueue α :=
  { q with
    item_ := fun i => wrapItem (q.item_ i)
    queued_item_ := wrapInt q.queued_item_ }

/-- No `int` is out of range. -/
structure InRange (q : LFQueue α) : Prop where
  val : ∀ i, InInt (q.val i)
  queued : InInt q.queued_item_

theorem InRange.wrapped {q : LFQueue α} (h : q.InRange) : q.wrapped = q := by
  have hitems : (fun i => wrapItem (q.item_ i)) = q.item_ := by
    funext i
    have hval : wrapInt (q.item_ i).counter_.val = (q.item_ i).counter_.val := wrapInt_eq (h.val i)
    unfold wrapItem
    dsimp only
    rw [hval]
  unfold LFQueue.wrapped
  rw [hitems, wrapInt_eq h.queued]

theorem inRange_wrapped (q : LFQueue α) : q.wrapped.InRange :=
  ⟨fun _ => inInt_wrapInt _, inInt_wrapInt _⟩

theorem inRange_new : (new : LFQueue α).InRange :=
  have hzero : InInt 0 := ⟨by decide, by decide⟩
  ⟨fun _ => hzero, hzero⟩

/-- A counter that goes up or down by one. -/
theorem inInt_addVal {q : LFQueue α} (h : ∀ i, InInt (q.val i)) {i : Nat} {d : Int}
    (hd : InInt (q.val i + d)) (j : Nat) : InInt ((q.addVal i d).val j) := by
  rw [val_addVal]
  by_cases hj : j = i
  · rw [hj, Function.update_self]
    exact hd
  · rw [Function.update_of_ne hj]
    exact h j

/-- The fetch-and-add of `inc`, if it is next, does not find its counter at the end
    of an `int`. -/
def Pc.Fits (P : LFParams) (q : LFQueue α) : Pc α → Prop
  | .incAdd _ n => q.val (P.slot n) ≠ 2147483647
  | _ => True

/-- Then the access keeps the counters in range: the swaps go towards 0 or past it. -/
theorem inInt_access {P : LFParams} {q q' : LFQueue α} {c c' : Pc α} {ev : Option (Event α)}
    (hok : c.Ok) (hfits : c.Fits P q) (hacc : Access P q c q' c' ev) (h : ∀ i, InInt (q.val i))
    (i : Nat) : InInt (q'.val i) := by
  cases hacc with
  | raise x n heq =>
    have hle : _ ≤ (0 : Int) := hok
    exact inInt_addVal h ((h (P.slot n)).add_one (by omega)) i
  | add x n => exact inInt_addVal h ((h (P.slot n)).add_one hfits) i
  | lower n waited heq =>
    have hpos : (0 : Int) < _ := hok
    exact inInt_addVal h ((h (P.slot n)).sub_one (by omega)) i
  | timeout n => cases hok
  | fill x n _ => rw [val_setData]; exact h i
  | empty n _ => rw [val_setData]; exact h i
  | enter n v => rw [val_addWaiters]; exact h i
  | leave n v => rw [val_addWaiters]; exact h i
  | _ =>
    -- the other accesses leave the counters alone
    exact h i

namespace State

variable [DecidableEq Pid] [DecidableEq α]

/-- A step; it adds to one `int` at most. -/
def nextInt (P : LFParams) (s : State Pid α) (l : Label Pid α) : Option (State Pid α) :=
  (s.next P l).map fun s => { s with queue := s.queue.wrapped }

/-- Any number of threads, any order of steps. -/
def intSystem (Pid α : Type) [DecidableEq Pid] [DecidableEq α] (P : LFParams) :
    LTS.System (State Pid α) (Label Pid α) :=
  .ofFn (· = new) (nextInt P)

/-- The `int`s are always in range. -/
theorem inRange {P : LFParams} {s : State Pid α} (h : LTS.Reachable (intSystem Pid α P) s) :
    s.queue.InRange := by
  cases h with
  | init hs =>
    rw [show s = new from hs]
    exact inRange_new
  | step l _ hstep =>
    obtain ⟨s₁, _, rfl⟩ := Option.map_eq_some_iff.mp hstep
    exact inRange_wrapped _

/-- The addition of the step, if it makes one, finds its `int` not at its end. -/
def Fitting (P : LFParams) (s : State Pid α) : Label Pid α → Prop
  | .step p _ =>
      match s.pc p with
      | .incAdd _ n => s.queue.val (P.slot n) ≠ 2147483647
      | .pushed _ err => err = 0 → s.queue.queued_item_ ≠ 2147483647
      | .popped _ err => err = 0 → s.queue.queued_item_ ≠ -2147483648
      | _ => True
  | _ => True

omit [DecidableEq Pid] [DecidableEq α] in
instance decidableFitting (P : LFParams) (s : State Pid α) (l : Label Pid α) :
    Decidable (s.Fitting P l) := by
  unfold Fitting
  cases l with
  | step p errno =>
    dsimp only
    cases s.pc p with
    | incAdd x n => exact inferInstanceAs (Decidable (_ ≠ _))
    | pushed x err => exact inferInstanceAs (Decidable (_ → _))
    | popped data err => exact inferInstanceAs (Decidable (_ → _))
    | _ => exact isTrue trivial
  | _ => exact isTrue trivial

/-! ### Fitting steps -/

omit [DecidableEq Pid] [DecidableEq α] in
/-- The counter of the step. -/
theorem Fitting.fits {P : LFParams} {s : State Pid α} {p : Pid} {errno : Nat}
    (h : s.Fitting P (.step p errno)) : (s.pc p).Fits P s.queue := by
  unfold Fitting at h
  dsimp only at h
  generalize s.pc p = c at h ⊢
  cases c with
  | incAdd x n => exact h
  | _ => trivial

omit [DecidableEq Pid] in
/-- An access that is fitting keeps the `int`s in range. -/
theorem inRange_atomic {P : LFParams} {s : State Pid α} {p : Pid} {errno : Nat}
    {r : LFQueue α × Pc α × Option (Event α)} (h : s.queue.InRange) (hok : (s.pc p).Ok)
    (hfit : s.Fitting P (.step p errno)) (hatom : atomic P s.queue errno (s.pc p) = some r) :
    r.1.InRange := by
  have hacc := access_of_atomic hatom
  refine ⟨inInt_access hok hfit.fits hacc h.val, ?_⟩
  unfold Fitting at hfit
  dsimp only at hfit
  generalize s.pc p = c at hfit hacc
  generalize r.1 = q' at hacc ⊢
  generalize r.2.1 = c' at hacc
  generalize r.2.2 = ev at hacc
  cases hacc with
  | count x => exact h.queued.add_one (hfit rfl)
  | uncount data => exact h.queued.sub_one (hfit rfl)
  | _ =>
    -- the other accesses do not count items
    exact h.queued

/-- While every step is fitting, the states are those of unbounded integers. -/
theorem fits {P : LFParams} {s : State Pid α}
    (h : LTS.Reachable ((intSystem Pid α P).restrict (Fitting P)) s) :
    LTS.Reachable (system Pid α P) s ∧ s.queue.InRange := by
  induction h with
  | init hs =>
    refine ⟨.init hs, ?_⟩
    rw [show _ = new from hs]
    exact inRange_new
  | @step s s' l _ hstep ih =>
    obtain ⟨hreach, hrange⟩ := ih
    obtain ⟨hfit, hnext⟩ := hstep
    obtain ⟨s₁, hs₁, rfl⟩ := Option.map_eq_some_iff.mp hnext
    have hrange₁ : s₁.queue.InRange := by
      cases l with
      | push p x =>
        simp only [next] at hs₁
        split at hs₁
        · cases hs₁
          exact hrange
        · cases hs₁
      | pop p =>
        simp only [next] at hs₁
        split at hs₁
        · cases hs₁
          exact hrange
        · cases hs₁
      | step p errno =>
        obtain ⟨r, hatom, rfl⟩ := Option.map_eq_some_iff.mp hs₁
        exact inRange_atomic hrange (pc_ok hreach p) hfit hatom
    rw [hrange₁.wrapped]
    exact ⟨.step l hreach hs₁, hrange₁⟩

end State

/-! ### Counters that fit -/

/-- The queue with another count of its items. -/
def recount (q : LFQueue α) (m : Int) : LFQueue α := { q with queued_item_ := m }

/-- An access that branches, with another count in both branches. -/
theorem recount_ite {β : Type} {p : Prop} [Decidable p] {a b r : LFQueue α × β}
    (h : (if p then some a else some b) = some r) (m : Int) :
    (if p then some (a.1.recount m, a.2) else some (b.1.recount m, b.2)) =
      some (r.1.recount m, r.2) := by
  by_cases hp : p
  · rw [if_pos hp] at h ⊢
    cases h
    rfl
  · rw [if_neg hp] at h ⊢
    cases h
    rfl

/-- No access reads the count. -/
theorem atomic_recount [DecidableEq α] {P : LFParams} {q : LFQueue α} {errno : Nat} {c : Pc α}
    {r : LFQueue α × Pc α × Option (Event α)} (h : atomic P q errno c = some r) (m : Int) :
    ∃ m', atomic P (q.recount m) errno c = some (r.1.recount m', r.2) := by
  cases c with
  | idle last => cases h
  | incCas x n v =>
    exact ⟨m, recount_ite h m⟩
  | store x n =>
    have hdata : (q.recount m).data (P.slot n) = q.data (P.slot n) := rfl
    simp only [atomic, hdata] at h ⊢
    cases hcell : q.data (P.slot n) with
    | none =>
      rw [hcell] at h
      cases h
      exact ⟨m, rfl⟩
    | some y =>
      rw [hcell] at h
      cases h
      exact ⟨m, rfl⟩
  | pushed x err =>
    by_cases hzero : err = 0
    · simp only [atomic, hzero, if_true] at h ⊢
      cases h
      exact ⟨m + 1, rfl⟩
    · refine ⟨m, ?_⟩
      simp only [atomic, hzero, if_false] at h ⊢
      split_ifs at h ⊢
      all_goals
        cases h
        rfl
  | decRead n waited =>
    exact ⟨m, recount_ite h m⟩
  | decCas n waited v =>
    exact ⟨m, recount_ite h m⟩
  | take n =>
    have hdata : (q.recount m).data (P.slot n) = q.data (P.slot n) := rfl
    simp only [atomic, hdata] at h ⊢
    cases hcell : q.data (P.slot n) with
    | none =>
      rw [hcell] at h
      cases h
      exact ⟨m, rfl⟩
    | some y =>
      rw [hcell] at h
      cases h
      exact ⟨m, rfl⟩
  | takeCas n d =>
    exact ⟨m, recount_ite h m⟩
  | popped data err =>
    by_cases herr : err = 0
    · simp only [atomic, herr, if_true] at h ⊢
      cases h
      exact ⟨m - 1, rfl⟩
    · simp only [atomic, herr, if_false] at h ⊢
      cases h
      exact ⟨m, rfl⟩
  | _ =>
    cases h
    exact ⟨m, rfl⟩

/-- With the counters in range only the count is put back in range. -/
theorem wrapped_of_inInt {q : LFQueue α} (h : ∀ i, InInt (q.val i)) :
    q.wrapped = q.recount (wrapInt q.queued_item_) := by
  have hzero : InInt 0 := ⟨by decide, by decide⟩
  have hrange : (q.recount 0).InRange := ⟨h, hzero⟩
  exact congrArg (fun r : LFQueue α => r.recount (wrapInt q.queued_item_)) hrange.wrapped

namespace State

/-- The state with another count of the items. -/
def recount (s : State Pid α) (m : Int) : State Pid α := { s with queue := s.queue.recount m }

/-- The step does not run the counter of an item over. -/
def CountersFit (P : LFParams) (s : State Pid α) : Label Pid α → Prop
  | .step p _ => (s.pc p).Fits P s.queue
  | _ => True

instance decidableCountersFit (P : LFParams) (s : State Pid α) (l : Label Pid α) :
    Decidable (s.CountersFit P l) := by
  unfold CountersFit
  cases l with
  | step p errno =>
    dsimp only
    cases s.pc p with
    | incAdd x n => exact inferInstanceAs (Decidable (_ ≠ _))
    | _ => exact isTrue trivial
  | _ => exact isTrue trivial

variable [DecidableEq Pid] [DecidableEq α]

/-- The same step. -/
theorem next_recount {P : LFParams} {s s' : State Pid α} {l : Label Pid α}
    (h : s.next P l = some s') (m : Int) : ∃ m', (s.recount m).next P l = some (s'.recount m') := by
  cases l with
  | push p x =>
    refine ⟨m, ?_⟩
    have hpc : (s.recount m).pc p = s.pc p := rfl
    simp only [next, hpc] at h ⊢
    split at h
    · cases h
      rfl
    · cases h
  | pop p =>
    refine ⟨m, ?_⟩
    have hpc : (s.recount m).pc p = s.pc p := rfl
    simp only [next, hpc] at h ⊢
    split at h
    · cases h
      rfl
    · cases h
  | step p errno =>
    obtain ⟨r, hatom, rfl⟩ := Option.map_eq_some_iff.mp h
    obtain ⟨m', hatom'⟩ := atomic_recount hatom m
    refine ⟨m', ?_⟩
    show (atomic P (s.queue.recount m) errno (s.pc p)).map _ = _
    rw [hatom']
    rfl

/-- One step keeps the counters in range. -/
theorem inInt_next {P : LFParams} {s s' : State Pid α} {l : Label Pid α}
    (hok : ∀ p, (s.pc p).Ok) (hfits : s.CountersFit P l) (hnext : s.next P l = some s')
    (h : ∀ i, InInt (s.queue.val i)) (i : Nat) : InInt (s'.queue.val i) := by
  cases l with
  | push p x =>
    simp only [next] at hnext
    split at hnext
    · cases hnext
      exact h i
    · cases hnext
  | pop p =>
    simp only [next] at hnext
    split at hnext
    · cases hnext
      exact h i
    · cases hnext
  | step p errno =>
    obtain ⟨r, hatom, rfl⟩ := Option.map_eq_some_iff.mp hnext
    exact inInt_access (hok p) hfits (access_of_atomic hatom) h i

/-- While no step runs a counter over, the states are those of unbounded integers
    but for the count. -/
theorem countersFit_recount {P : LFParams} {s : State Pid α}
    (h : LTS.Reachable ((intSystem Pid α P).restrict (CountersFit P)) s) :
    ∃ m, LTS.Reachable (system Pid α P) (s.recount m) := by
  induction h with
  | init hs => exact ⟨0, .init (by rw [show _ = new from hs]; rfl)⟩
  | @step s s' l hr hstep ih =>
    obtain ⟨m, hreach⟩ := ih
    obtain ⟨hfits, hnext⟩ := hstep
    obtain ⟨s₁, hs₁, rfl⟩ := Option.map_eq_some_iff.mp hnext
    obtain ⟨m', hs₁'⟩ := next_recount hs₁ m
    have hok : ∀ p, (s.pc p).Ok := fun p => pc_ok hreach p
    have hval := inInt_next hok hfits hs₁ (inRange hr.of_restrict).val
    refine ⟨m', ?_⟩
    rw [wrapped_of_inInt hval]
    exact .step l hreach hs₁'

end State

end LFQueue

end BlackSiren

import BlackSiren.LFQueue.Conservation
import BlackSiren.LFQueue.Ints

/-! # `LFQueue::pop` with a timeout

    A pop whose wait has timed out is to give up: it lowers the counter once more
    and returns -1, and the counter below 0 tells the next push for this item to
    go on to the next number.  But `futex_wait` returns `errno`, and `dec` compares
    it with `-ETIMEDOUT`.

    - `Reports`, `GivesUp`: the futex result, and what is wanted after it
    - `returns_iff`: when a pop that has been told returns -1 all the same
    - `meets_iff`: runs in which every pop that is told gives up
-/

namespace BlackSiren

namespace LFQueue

namespace State

variable {Pid α : Type} [DecidableEq Pid] [DecidableEq α]

/-! ### What is wanted -/

omit [DecidableEq Pid] [DecidableEq α] in
/-- The label is a futex result that reports a timeout to the pop with number `n`. -/
def Reports (s : State Pid α) (p : Pid) (n : Nat) : Label Pid α → Prop
  | .step r errno => r = p ∧ (errno : Int) = ETIMEDOUT ∧ ∃ v, s.pc p = .futexWait n v
  | _ => False

/-- The pop returns -1 and no item by accesses of its own; another wait of it ends
    at once, and without a timeout. -/
def Returns (P : LFParams) (s : State Pid α) (p : Pid) (s' : State Pid α) : Prop :=
  (∃ k, LTS.exec (next P) s (List.replicate k (.step p 0)) = some s') ∧
    s'.pc p = .idle (some (.pop (-1) none))

/-- It returns, and leaves its item cancelled. -/
def GivesUp (P : LFParams) (s : State Pid α) (p : Pid) (n : Nat) : Prop :=
  ∃ s', Returns P s p s' ∧ s'.queue.val (P.slot n) < 0

/-- In the run every pop that is told of a timeout gives up. -/
def Meets (P : LFParams) (ls : List (Label Pid α)) : Prop :=
  ∀ ls₁ l ls₂ s s' p n, ls = ls₁ ++ l :: ls₂ → LTS.exec (next P) new ls₁ = some s →
    s.Reports p n l → s.next P l = some s' → GivesUp P s' p n

/-- In the run no pop is told of a timeout. -/
def Untimed (P : LFParams) (ls : List (Label Pid α)) : Prop :=
  ∀ ls₁ l ls₂ s p n, ls = ls₁ ++ l :: ls₂ → LTS.exec (next P) new ls₁ = some s →
    ¬ s.Reports p n l

/-! ### One pop -/

omit [DecidableEq Pid] in
/-- The result is taken for that of any other wait. -/
theorem atomic_futexWait (P : LFParams) (q : LFQueue α) (errno n : Nat) (v : Int) :
    atomic P q errno (.futexWait n v) = some (q, .decRead n true, none) := by
  have hne : ¬ -ETIMEDOUT = (errno : Int) := by
    unfold ETIMEDOUT
    omega
  simp only [atomic, hne, if_false]

/-- A thread's next access. -/
theorem next_access {P : LFParams} {s : State Pid α} {p : Pid} (errno : Nat) {c : Pc α}
    (hpc : s.pc p = c) {r : LFQueue α × Pc α × Option (Event α)}
    (hatom : atomic P s.queue errno c = some r) :
    ∃ s', s.next P (.step p errno) = some s' ∧ s'.queue = r.1 ∧ s'.pc p = r.2.1 := by
  refine ⟨⟨r.1, Function.update s.pc p r.2.1, s.trace ++ (r.2.2.map (p, ·)).toList⟩, ?_, rfl,
    Function.update_self p r.2.1 s.pc⟩
  simp only [next, hpc, hatom, Option.map_some]

/-- After the report the pop looks at its counter, as after every wait. -/
theorem next_of_reports (P : LFParams) {s : State Pid α} {p : Pid} {n : Nat} {l : Label Pid α}
    (h : s.Reports p n l) :
    ∃ s', s.next P l = some s' ∧ s'.queue = s.queue ∧ s'.pc p = .decRead n true := by
  cases l with
  | step r errno =>
    obtain ⟨rfl, -, v, hpc⟩ := h
    exact next_access errno hpc (atomic_futexWait P s.queue errno n v)
  | push r x => cases h
  | pop r => cases h

/-- Where a pop is that has seen its counter at 0 or below, or at 1. -/
def Held (P : LFParams) (s : State Pid α) (p : Pid) (n : Nat) : Prop :=
  (s.queue.val (P.slot n) ≤ 0 ∧ ((∃ v, s.pc p = .futexWait n v) ∨ s.pc p = .decRead n true)) ∨
    (s.queue.val (P.slot n) = 1 ∧ (s.pc p = .decRead n true ∨ s.pc p = .decCas n true 1)) ∨
    s.pc p = .waitLeave n 1 ∨ s.pc p = .take n ∨ (∃ d, s.pc p = .takeCas n d) ∨
    (∃ d, s.pc p = .popped (some d) 0) ∨ ∃ d, s.pc p = .idle (some (.pop 0 (some d)))

/-- It stays there, or takes the item. -/
theorem Held.next {P : LFParams} {s s' : State Pid α} {p : Pid} {n : Nat} (h : s.Held P p n)
    (hnext : s.next P (.step p 0) = some s') : s'.Held P p n := by
  have hself : ∀ c : Pc α, Function.update s.pc p c p = c := fun c => Function.update_self p c s.pc
  obtain ⟨hval, ⟨v, hpc⟩ | hpc⟩ | ⟨hval, hpc | hpc⟩ | hpc | hpc | ⟨d, hpc⟩ | ⟨d, hpc⟩ | ⟨d, hpc⟩ :=
    h
  all_goals simp only [State.next, hpc] at hnext
  · simp only [atomic_futexWait, Option.map_some, Option.some.injEq] at hnext
    rw [← hnext]
    exact .inl ⟨hval, .inr (hself _)⟩
  · simp only [atomic, gt_iff_lt, not_lt.mpr hval, if_false, if_true, Option.map_some,
      Option.some.injEq] at hnext
    rw [← hnext]
    exact .inl ⟨hval, .inl ⟨_, hself _⟩⟩
  · simp only [atomic, hval, gt_iff_lt, Int.one_pos, if_true, Option.map_some,
      Option.some.injEq] at hnext
    rw [← hnext]
    exact .inr (.inl ⟨hval, .inr (hself _)⟩)
  · simp only [atomic, hval, if_true, Option.map_some, Option.some.injEq] at hnext
    rw [← hnext]
    exact .inr (.inr (.inl (hself _)))
  · simp only [atomic, Option.map_some, Option.some.injEq] at hnext
    rw [← hnext]
    exact .inr (.inr (.inr (.inl (hself _))))
  · simp only [atomic] at hnext
    cases hdata : s.queue.data (P.slot n) with
    | none =>
      rw [hdata] at hnext
      cases hnext
      exact .inr (.inr (.inr (.inl (hself _))))
    | some d =>
      rw [hdata] at hnext
      cases hnext
      exact .inr (.inr (.inr (.inr (.inl ⟨d, hself _⟩))))
  · simp only [atomic] at hnext
    by_cases hdata : s.queue.data (P.slot n) = some d
    · rw [if_pos hdata] at hnext
      cases hnext
      exact .inr (.inr (.inr (.inr (.inr (.inl ⟨d, hself _⟩)))))
    · rw [if_neg hdata] at hnext
      cases hnext
      exact .inr (.inr (.inr (.inl (hself _))))
  · simp only [atomic, Option.map_some, Option.some.injEq] at hnext
    rw [← hnext]
    exact .inr (.inr (.inr (.inr (.inr (.inr ⟨d, hself _⟩)))))
  · cases hnext

theorem Held.exec {P : LFParams} {s s' : State Pid α} {p : Pid} {n k : Nat} (h : s.Held P p n)
    (hexec : LTS.exec (State.next P) s (List.replicate k (.step p 0)) = some s') :
    s'.Held P p n := by
  induction k generalizing s with
  | zero =>
    cases hexec
    exact h
  | succ k ih =>
    obtain ⟨s₁, hnext, hrest⟩ := LTS.exec_cons_eq_some.mp hexec
    exact ih (h.next hnext) hrest

/-- A pop that has been told of a timeout returns -1 only if its counter is already
    above 1, that is if its number belongs to a push that was refused. -/
theorem returns_iff {P : LFParams} {s : State Pid α} {p : Pid} {n : Nat}
    (hpc : s.pc p = .decRead n true) :
    (∃ s', Returns P s p s') ↔ 2 ≤ s.queue.val (P.slot n) := by
  constructor
  · rintro ⟨s', ⟨k, hexec⟩, hidle⟩
    by_contra hlt
    have hheld : s.Held P p n := by
      rcases lt_or_ge 0 (s.queue.val (P.slot n)) with hpos | hle
      · exact .inr (.inl ⟨by omega, .inl hpc⟩)
      · exact .inl ⟨hle, .inr hpc⟩
    have hend := hheld.exec hexec
    unfold Held at hend
    rw [hidle] at hend
    simp at hend
  · intro hge
    have hdone : (decDone n (s.queue.val (P.slot n)) : Pc α) = .popped none (-1) :=
      if_pos (by omega)
    -- the read, the swap, one waiter less, the return
    obtain ⟨s₁, h₁, hq₁, hpc₁⟩ := next_access 0 hpc
      (if_pos (show s.queue.val (P.slot n) > 0 by omega))
    obtain ⟨s₂, h₂, -, hpc₂⟩ := next_access (P := P) 0 hpc₁ (by
      rw [hq₁]
      exact if_pos rfl)
    obtain ⟨s₃, h₃, -, hpc₃⟩ := next_access (P := P) 0 hpc₂ rfl
    obtain ⟨s₄, h₄, -, hpc₄⟩ := next_access (P := P) 0 (hpc₃.trans hdone) rfl
    refine ⟨s₄, ⟨4, ?_⟩, hpc₄⟩
    simp only [List.replicate, LTS.exec, h₁, h₂, h₃, h₄, Option.bind_some]

/-! ### Runs -/

section

variable [Fintype Pid] {P : LFParams}

/-- No item is ever cancelled, if the counters are unbounded. -/
theorem val_nonneg {s : State Pid α} (h : LTS.Reachable (system Pid α P) s) (i : Nat) :
    0 ≤ s.queue.val i :=
  (Slots.balanced (reachable_slots h)).nonneg i

/-- So no pop gives up. -/
theorem not_givesUp {s : State Pid α} (h : LTS.Reachable (system Pid α P) s) (p : Pid) (n : Nat) :
    ¬ GivesUp P s p n := by
  rintro ⟨s', ⟨⟨k, hexec⟩, -⟩, hneg⟩
  exact absurd hneg (not_lt.mpr (val_nonneg (h.exec hexec) _))

/-- Nor if they are `int`s and none runs over. -/
theorem val_nonneg_of_countersFit {s : State Pid α}
    (h : LTS.Reachable ((intSystem Pid α P).restrict (CountersFit P)) s) (i : Nat) :
    0 ≤ s.queue.val i := by
  obtain ⟨m, hreach⟩ := countersFit_recount h
  have hnonneg : 0 ≤ (s.recount m).queue.val i := val_nonneg hreach i
  exact hnonneg

/-- In a run the pops give up as they are told exactly if none is told to; and in a
    run that runs no counter over no item is ever cancelled, so no push has one to go
    on from. -/
theorem meets_iff (P : LFParams) (ls : List (Label Pid α)) :
    (Meets P ls ↔ Untimed P ls) ∧
      ∀ s, LTS.exec (LTS.guarded (CountersFit P) (nextInt P)) new ls = some s →
        ∀ i, 0 ≤ s.queue.val i := by
  refine ⟨⟨?_, ?_⟩, fun s hexec i => val_nonneg_of_countersFit (P := P)
    (LTS.reachable_restrict_of_guarded rfl hexec) i⟩
  · intro h ls₁ l ls₂ s p n hls hexec hreports
    obtain ⟨s', hnext, -⟩ := next_of_reports P hreports
    have hreach : LTS.Reachable (system Pid α P) s := LTS.reachable_of_exec rfl hexec
    exact not_givesUp (.step l hreach hnext) p n (h ls₁ l ls₂ s s' p n hls hexec hreports hnext)
  · intro h ls₁ l ls₂ s s' p n hls hexec hreports
    exact absurd hreports (h ls₁ l ls₂ s p n hls hexec)

end

/-- A pop from an empty queue is told of a timeout, and goes on waiting. -/
theorem timeout_not_meets :
    ¬ ∀ (P : LFParams) (ls : List (Label Unit Nat)), Meets P ls := by
  intro hall
  obtain ⟨s, hs⟩ := Option.isSome_iff_exists.mp
    (show (LTS.exec (next ⟨0, 64, by decide⟩) (new : State Unit Nat)
      (.pop () :: List.replicate 3 (.step () 0))).isSome by decide +kernel)
  have hpc : (LTS.exec (next ⟨0, 64, by decide⟩) (new : State Unit Nat)
      (.pop () :: List.replicate 3 (.step () 0))).map (fun s => s.pc ()) =
        some (.futexWait 0 0) := by decide +kernel
  rw [hs] at hpc
  have hreports : s.Reports () 0 (.step () 110) := ⟨rfl, rfl, 0, Option.some.inj hpc⟩
  obtain ⟨s', hnext, -⟩ := next_of_reports ⟨0, 64, by decide⟩ hreports
  have hreach : LTS.Reachable (system Unit Nat ⟨0, 64, by decide⟩) s :=
    LTS.reachable_of_exec rfl hs
  exact not_givesUp (.step _ hreach hnext) () 0 (hall ⟨0, 64, by decide⟩
    (.pop () :: List.replicate 3 (.step () 0) ++ [.step () 110]) _ _ [] s s' () 0 rfl hs hreports
    hnext)

end State

end LFQueue

end BlackSiren

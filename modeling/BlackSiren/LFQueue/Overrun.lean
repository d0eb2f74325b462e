import BlackSiren.LFQueue.Reset

/-! # `LFQueue`: what a counter that runs over does to the balance

    `items_conserved` has unbounded integers.  `LFCounter::val` is an `int`, and every
    push into a full queue raises one, so 2^31 of them run it over.

    - `items_conserved_countersFit`: the balance in every run that runs no counter
      over
    - `overrun_not_conserved`: a run of one thread after which it is lost
-/

namespace BlackSiren

namespace LFQueue

namespace State

variable {Pid α : Type} [DecidableEq Pid] [DecidableEq α]

/-- In every run whose steps run no counter over the balance holds in every state. -/
theorem items_conserved_countersFit [Fintype Pid] {P : LFParams} {s : State Pid α}
    (h : LTS.Reachable ((intSystem Pid α P).restrict (CountersFit P)) s) : s.Conserved P := by
  -- the count of the items, which may run over, is no part of it
  obtain ⟨m, hreach⟩ := countersFit_recount h
  have hbalance : (s.recount m).Conserved P := items_conserved hreach
  exact hbalance

theorem items_conserved_overtaken :
    ∃ s, LTS.exec (LTS.guarded (CountersFit ⟨1, 64, by decide⟩) (nextInt ⟨1, 64, by decide⟩)) new
        overtaken = some s ∧ s.Conserved ⟨1, 64, by decide⟩ := by
  obtain ⟨s, hs⟩ := Option.isSome_iff_exists.mp
    (show (LTS.exec (LTS.guarded (CountersFit ⟨1, 64, by decide⟩) (nextInt ⟨1, 64, by decide⟩)) new
      overtaken).isSome by decide +kernel)
  exact ⟨s, hs, items_conserved_countersFit (LTS.reachable_restrict_of_guarded rfl hs)⟩

/-- After one more push into a queue of one than an `int` counts, its counter is
    below 0. -/
theorem overrun_not_conserved : ¬ ∀ (P : LFParams) (s : State Unit Nat),
    LTS.Reachable (intSystem Unit Nat P) s → s.Conserved P := by
  intro hall
  obtain ⟨s, h, hpc, hval, -⟩ := alone_pushes 2147483646 (by decide)
  obtain ⟨s', h', hpc', hval', -⟩ := h.refused hpc (by omega)
  rw [hval] at hval'
  have hnegative : s'.queue.val 0 = -2147483648 := hval'
  have hquiet : s'.Quiet := fun _ => ⟨_, hpc'⟩
  obtain ⟨hcount, -⟩ := (hall single s' h'.of_restrict).2 hquiet 0 single.capacity_pos
  omega

end State

end LFQueue

end BlackSiren

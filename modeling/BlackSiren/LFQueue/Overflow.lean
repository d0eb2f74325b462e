import BlackSiren.LFQueue.Conservation

/-! # `LFQueue::push` that returns 0

    `LFItem::push` reports an overflow, and `LFQueue::push` returns 0 all the
    same.  So an item for which it returned 0 is kept exactly in the runs in
    which no push has overflowed.
-/

namespace BlackSiren

namespace LFQueue

variable {Pid α : Type}

/-! ### From the counter to the return -/

namespace Phase

/-- The item of a push that has filled its cell and not yet returned. -/
def kept : Phase α → Multiset α
  | .stored x => {x}
  | _ => 0

/-- The item of a push that has overflowed and not yet returned. -/
def lost : Phase α → Multiset α
  | .refused x => {x}
  | _ => 0

@[simp] theorem kept_lowered (n : Nat) (old : Int) : (lowered n old : Phase α).kept = 0 := by
  unfold lowered
  split <;> rfl

@[simp] theorem lost_lowered (n : Nat) (old : Int) : (lowered n old : Phase α).lost = 0 := by
  unfold lowered
  split <;> rfl

end Phase

/-- An item that has passed a counter is on its way to a return. -/
theorem Act.returns {P : LFParams} {m m' : Memory α} {f f' : Phase α} {ev : Option (Event α)}
    (h : Act P m f m' f' ev) (p : Pid) :
    ↑(Trace.returned (ev.map (p, ·)).toList) + (f'.held + f'.kept + f'.lost) =
      (f.held + f.kept + f.lost) + ↑(Trace.accepted (ev.map (p, ·)).toList) +
        ↑(Trace.overflowed (ev.map (p, ·)).toList) := by
  cases h with
  | accept x n hzero =>
    show (0 : Multiset α) + ({x} + 0 + 0) = 0 + 0 + 0 + {x} + 0
    simp
  | overflow x n hpos =>
    show (0 : Multiset α) + (0 + 0 + {x}) = 0 + 0 + 0 + 0 + {x}
    simp
  | fill x n hnone =>
    show (0 : Multiset α) + (0 + {x} + 0) = {x} + 0 + 0 + 0 + 0
    simp
  | finish x =>
    show ({x} : Multiset α) + (0 + 0 + 0) = 0 + {x} + 0 + 0 + 0
    simp
  | giveUp x =>
    show ({x} : Multiset α) + (0 + 0 + 0) = 0 + 0 + {x} + 0 + 0
    simp
  | lower n hpos =>
    rw [Phase.held_lowered, Phase.kept_lowered, Phase.lost_lowered]
    rfl
  | _ => rfl

/-- A push is refused only by an overflow. -/
theorem Act.refuses {P : LFParams} {m m' : Memory α} {f f' : Phase α} {ev : Option (Event α)}
    (h : Act P m f m' f' ev) (p : Pid) :
    f'.lost ≤ f.lost + ↑(Trace.overflowed (ev.map (p, ·)).toList) := by
  cases h with
  | overflow x n hpos => exact Multiset.le_add_left _ _
  | lower n hpos =>
    rw [Phase.lost_lowered]
    exact Multiset.zero_le _
  | _ => exact Multiset.zero_le _

namespace Slots

variable [Fintype Pid] [DecidableEq Pid] {P : LFParams}

/-- What has passed a counter has returned or is about to. -/
theorem returns {s : Slots Pid α} (h : LTS.Reachable (system Pid α P) s) :
    (Trace.returned s.trace : Multiset α) +
        (s.tally Phase.held + s.tally Phase.kept + s.tally Phase.lost) =
      ↑(Trace.accepted s.trace) + ↑(Trace.overflowed s.trace) := by
  refine invariant_of_acts (fun s : Slots Pid α => (Trace.returned s.trace : Multiset α) +
      (s.tally Phase.held + s.tally Phase.kept + s.tally Phase.lost) =
      ↑(Trace.accepted s.trace) + ↑(Trace.overflowed s.trace)) ?_ ?_ h
  · simp [new, tally, Phase.held, Phase.kept, Phase.lost, Trace.returned, Trace.accepted,
      Trace.overflowed]
  · intro s p m f ev _ hs hact
    have hret := hact.returns p
    have hheld := s.tally_after Phase.held p m f ev
    have hkept := s.tally_after Phase.kept p m f ev
    have hlost := s.tally_after Phase.lost p m f ev
    show ((Trace.returned (s.trace ++ _) : List α) : Multiset α) + _ =
      ↑(Trace.accepted (s.trace ++ _)) + ↑(Trace.overflowed (s.trace ++ _))
    rw [Trace.returned_append, Trace.accepted_append, Trace.overflowed_append,
      ← Multiset.coe_add, ← Multiset.coe_add, ← Multiset.coe_add]
    -- only sums matter from here on
    generalize (s.after p m f ev).tally Phase.held = h' at hheld ⊢
    generalize (s.after p m f ev).tally Phase.kept = k' at hkept ⊢
    generalize (s.after p m f ev).tally Phase.lost = l' at hlost ⊢
    generalize (Trace.returned (ev.map (p, ·)).toList : Multiset α) = r at hret ⊢
    generalize (Trace.accepted (ev.map (p, ·)).toList : Multiset α) = a at hret ⊢
    generalize (Trace.overflowed (ev.map (p, ·)).toList : Multiset α) = o at hret ⊢
    refine add_right_cancel
      (b := (s.phase p).held + (s.phase p).kept + (s.phase p).lost) ?_
    calc ↑(Trace.returned s.trace) + r + (h' + k' + l')
            + ((s.phase p).held + (s.phase p).kept + (s.phase p).lost)
        = ↑(Trace.returned s.trace) + r + ((h' + (s.phase p).held) + (k' + (s.phase p).kept)
            + (l' + (s.phase p).lost)) := by abel
      _ = ↑(Trace.returned s.trace)
            + (s.tally Phase.held + s.tally Phase.kept + s.tally Phase.lost)
            + (r + (f.held + f.kept + f.lost)) := by
          rw [hheld, hkept, hlost]
          abel
      _ = ↑(Trace.accepted s.trace) + a + (↑(Trace.overflowed s.trace) + o)
            + ((s.phase p).held + (s.phase p).kept + (s.phase p).lost) := by
          rw [hs, hret]
          abel

/-- No push is refused in a run without overflow. -/
theorem lost_le {s : Slots Pid α} (h : LTS.Reachable (system Pid α P) s) :
    s.tally Phase.lost ≤ ↑(Trace.overflowed s.trace) := by
  refine invariant_of_acts
    (fun s : Slots Pid α => s.tally Phase.lost ≤ (Trace.overflowed s.trace : Multiset α)) ?_ ?_ h
  · simp [new, tally, Phase.lost]
  · intro s p m f ev _ hs hact
    have hlost := s.tally_after Phase.lost p m f ev
    show _ ≤ ((Trace.overflowed (s.trace ++ _) : List α) : Multiset α)
    rw [Trace.overflowed_append, ← Multiset.coe_add]
    apply le_of_add_le_add_right (a := (s.phase p).lost)
    calc (s.after p m f ev).tally Phase.lost + (s.phase p).lost
        = s.tally Phase.lost + f.lost := hlost
      _ ≤ ↑(Trace.overflowed s.trace)
            + ((s.phase p).lost + ↑(Trace.overflowed (ev.map (p, ·)).toList)) :=
          add_le_add hs (hact.refuses p)
      _ = _ := by abel

end Slots

/-! ### Kept items -/

namespace Pc

/-- The item of a push that has filled its cell and not yet returned. -/
def kept : Pc α → Multiset α
  | .pushed x err => if err = 0 then {x} else 0
  | _ => 0

theorem kept_phase (c : Pc α) : c.phase.kept = c.kept := by
  cases c with
  | pushed x err =>
    show (if err = 0 then Phase.stored x else _).kept = if err = 0 then {x} else 0
    by_cases hzero : err = 0
    · rw [if_pos hzero, if_pos hzero]
      rfl
    · rw [if_neg hzero, if_neg hzero]
      split <;> rfl
  | waitLeave n v => exact Phase.kept_lowered n v
  | _ => rfl

end Pc

namespace State

variable [Fintype Pid]

/-- Each item for which `push` returned 0, or is about to after filling its
    cell, has been popped once or is in a cell. -/
def Kept (P : LFParams) (s : State Pid α) : Prop :=
  (Trace.returned s.trace : Multiset α) + ∑ p, (s.pc p).kept =
    ↑(Trace.taken s.trace) + s.cells P

instance decidableKept [DecidableEq α] (P : LFParams) (s : State Pid α) : Decidable (s.Kept P) :=
  inferInstanceAs (Decidable (_ = _))

theorem tally_kept (s : State Pid α) : s.slots.tally Phase.kept = ∑ p, (s.pc p).kept :=
  Finset.sum_congr rfl fun p _ => (s.pc p).kept_phase

variable [DecidableEq Pid] [DecidableEq α] {P : LFParams}

/-- The items returned and not kept are the ones that overflowed. -/
theorem returned_eq {s : State Pid α} (h : LTS.Reachable (system Pid α P) s) :
    (Trace.returned s.trace : Multiset α) + ∑ p, (s.pc p).kept + s.slots.tally Phase.lost =
      ↑(Trace.taken s.trace) + s.cells P + ↑(Trace.overflowed s.trace) := by
  have hitems := (Slots.balanced (reachable_slots h)).items
  have hreturns := Slots.returns (reachable_slots h)
  rw [hitems] at hreturns
  rw [← tally_kept]
  apply add_right_cancel (b := s.slots.tally Phase.held)
  calc ↑(Trace.returned s.slots.trace) + s.slots.tally Phase.kept + s.slots.tally Phase.lost
          + s.slots.tally Phase.held
      = ↑(Trace.returned s.slots.trace) + (s.slots.tally Phase.held + s.slots.tally Phase.kept
          + s.slots.tally Phase.lost) := by abel
    _ = ↑(Trace.taken s.slots.trace) + s.slots.mem.cells P + s.slots.tally Phase.held
          + ↑(Trace.overflowed s.slots.trace) := hreturns
    _ = _ := by
      show _ = ↑(Trace.taken s.slots.trace) + s.slots.mem.cells P
        + ↑(Trace.overflowed s.slots.trace) + s.slots.tally Phase.held
      abel

/-- While no push of the run has overflowed, the items returned are kept; and
    they are not once one has, as soon as no call is in progress. -/
theorem kept_iff_no_overflow {s : State Pid α} (h : LTS.Reachable (system Pid α P) s) :
    (Trace.overflowed s.trace = [] → s.Kept P) ∧
      (s.Quiet → s.Kept P → Trace.overflowed s.trace = []) := by
  have hret := returned_eq h
  refine ⟨?_, ?_⟩
  · intro hnone
    have hlost : s.slots.tally Phase.lost = 0 := by
      have hle := Slots.lost_le (reachable_slots h)
      rw [show Trace.overflowed s.slots.trace = [] from hnone] at hle
      exact Multiset.le_zero.mp hle
    rw [hnone, hlost, add_zero, Multiset.coe_nil, add_zero] at hret
    exact hret
  · intro hquiet hkept
    rw [hquiet.tally fun _ => rfl, add_zero] at hret
    unfold Kept at hkept
    rw [hkept] at hret
    exact (Multiset.coe_eq_zero _).mp (left_eq_add.mp hret)

/-- The claim of an overtaken push finds its counter at 0, so nothing overflows. -/
theorem kept_iff_no_overflow_overtaken :
    ∃ s, LTS.exec (next ⟨1, 64, by decide⟩) new overtaken = some s ∧
      (Trace.overflowed s.trace = [] → s.Kept ⟨1, 64, by decide⟩) := by
  obtain ⟨s, hs⟩ := Option.isSome_iff_exists.mp
    (show (LTS.exec (next ⟨1, 64, by decide⟩) new overtaken).isSome by decide +kernel)
  exact ⟨s, hs, (kept_iff_no_overflow (LTS.reachable_of_exec rfl hs)).1⟩

/-- A queue of 32 is filled by a thread that then pushes once more. -/
def pushed33 : List (Label Bool Nat) :=
  (List.range 32).flatMap (fun x => .push true x :: List.replicate 5 (.step true 0)) ++
    (.push true 32 :: List.replicate 4 (.step true 0))

/-- The last push returned 0 as well, and its item is nowhere. -/
theorem overflow_not_kept :
    ¬ ∀ s : State Bool Nat,
      LTS.Reachable (system Bool Nat ⟨5, 64, by decide⟩) s → s.Kept ⟨5, 64, by decide⟩ := by
  intro hall
  have hbad : ((LTS.exec (next ⟨5, 64, by decide⟩) new pushed33).any
      fun s => !decide (s.Kept ⟨5, 64, by decide⟩)) = true := by decide +kernel
  obtain ⟨s, hs, hkept⟩ := (Option.any_eq_true _ _).mp hbad
  have hnot : ¬ s.Kept ⟨5, 64, by decide⟩ := by simpa using hkept
  exact hnot (hall s (LTS.reachable_of_exec rfl hs))

end State

end LFQueue

end BlackSiren

import BlackSiren.Framework.Progress
import BlackSiren.LFQueue.Futex
import Mathlib.Data.Prod.Lex

/-! # `LFQueue`: every call in progress can be brought to rest

    A push spins until its cell is null and a pop until it is not, and both retry
    their swaps.  Whatever the state, some thread that is not asleep can make its
    next accesses alone and come closer to its return, so the calls in progress can
    all be brought to return or to fall asleep, with no new call.

    - `Point.work`: how far a call is from its return
    - `Solo`: a thread that runs alone
    - `Advances`: what it comes to
    - `reaches_rest`: the run
-/

namespace BlackSiren

namespace LFQueue

variable {Pid α : Type}

/-! ### Work -/

/-- How far a call is from its return. -/
def Pc.work : Pc α → Nat
  | .idle _ => 0
  | .pushDraw _ => 6
  | .incRead _ _ => 5
  | .incCas _ _ _ => 5
  | .incAdd _ _ => 5
  | .store _ _ => 4
  | .pushed _ err => if err = 0 ∨ err = -2 then 1 else 7
  | .popDraw => 7
  | .decRead _ _ => 6
  | .decCas _ _ _ => 6
  | .waitEnter _ _ => 6
  | .futexWait _ _ => 6
  | .decAdd _ => 6
  | .waitLeave _ _ => 5
  | .take _ => 2
  | .takeCas _ _ => 2
  | .popped _ _ => 1

namespace Point

def work : Point α → Nat
  | wakeIfNeeded _ c => c.work + 2
  | wake _ c => c.work + 1
  | pt => pt.pc.work

/-- Neither out of the calls nor asleep. -/
def busy : Point α → Bool
  | run (.idle _) => false
  | asleep _ _ => false
  | _ => true

@[simp] theorem work_wokenBy (P : LFParams) (i : Nat) (pt : Point α) :
    (pt.wokenBy P i).work = pt.work := by
  cases pt with
  | asleep n v =>
    show (if P.slot n = i then woken n v else asleep n v : Point α).work = _
    split <;> rfl
  | _ => rfl

end Point

namespace Futex

variable [DecidableEq Pid] [DecidableEq α] {P : LFParams}

/-! ### A thread alone -/

/-- Only the calls in progress go on. -/
def Finishing (_ : State Pid α) : Label Pid α → Prop
  | .step _ _ => True
  | _ => False

/-- `p` alone makes accesses from `s` until the queue is `q` and `p` is at `pt`. -/
def Solo (P : LFParams) (s : State Pid α) (p : Pid) (q : LFQueue α) (pt : Point α) : Prop :=
  ∃ tr, LTS.Reaches ((State.system Pid α P).restrict Finishing) s
    ⟨q, Function.update s.pt p pt, tr⟩

namespace Solo

variable {s : State Pid α} {p : Pid} {q q' : LFQueue α} {c c' : Pc α} {ev : Option (Event α)}
  {n : Nat} {v : Int}

theorem refl {pt : Point α} (h : s.pt p = pt) : Solo P s p s.queue pt := by
  refine ⟨s.trace, ?_⟩
  rw [← h, Function.update_eq_self]
  exact .refl _ s

/-- One more step. -/
theorem step {pt pt' : Point α} (h : Solo P s p q pt)
    (hnext : ∀ tr, ∃ tr', State.next P ⟨q, Function.update s.pt p pt, tr⟩ (.step p 0) =
      some ⟨q', Function.update (Function.update s.pt p pt) p pt', tr'⟩) :
    Solo P s p q' pt' := by
  obtain ⟨tr, hrun⟩ := h
  obtain ⟨tr', hstep⟩ := hnext tr
  rw [Function.update_idem] at hstep
  exact ⟨tr', hrun.tail (.step p 0) ⟨trivial, hstep⟩⟩

theorem access (h : Solo P s p q (.run c)) (hwait : ∀ n v, c ≠ .futexWait n v)
    (hatom : atomic P q 0 c = some (q', c', ev)) : Solo P s p q' (.after c c') := by
  refine h.step fun tr => ⟨tr ++ (ev.map (p, ·)).toList, ?_⟩
  simp only [State.next, Function.update_self, State.access, hatom, Option.map_some]

theorem sleep (h : Solo P s p q (.run (.futexWait n v))) (hval : q.val (P.slot n) = v) :
    Solo P s p q (.asleep n v) := by
  refine h.step fun tr => ⟨tr, ?_⟩
  simp only [State.next, Function.update_self]
  rw [if_pos hval]
  rfl

theorem stale (h : Solo P s p q (.run (.futexWait n v))) (hval : q.val (P.slot n) ≠ v) :
    Solo P s p q (.woken n v) := by
  refine h.step fun tr => ⟨tr, ?_⟩
  simp only [State.next, Function.update_self]
  rw [if_neg hval]
  rfl

theorem return_ (h : Solo P s p q (.woken n v)) : Solo P s p q (.run (.decRead n true)) := by
  refine h.step fun tr => ⟨tr, ?_⟩
  simp only [State.next, Function.update_self]
  rw [access_woken]
  rfl

end Solo

/-- `p` alone comes closer to its return, or falls asleep. -/
def Advances (P : LFParams) (s : State Pid α) (p : Pid) : Prop :=
  ∃ q pt, Solo P s p q pt ∧
    (pt.work < (s.pt p).work ∨ pt.work = (s.pt p).work ∧ (s.pt p).busy ∧ ¬ pt.busy)

namespace Solo

variable {s : State Pid α} {p : Pid} {q : LFQueue α} {x : α} {n : Nat} {v : Int}

/-- `inc` has raised the counter: the cell is next, or the return. -/
theorem raised (hnonneg : 0 ≤ v) {c : Pc α} (hc : c = .incAdd x n ∨ c = .incCas x n v)
    (h : Solo P s p q (.after c (incDone x n v).1)) :
    ∃ q' pt, Solo P s p q' pt ∧ pt.work < 5 := by
  refine ⟨q, _, h, ?_⟩
  unfold incDone
  rw [if_neg (by omega)]
  by_cases hpos : v > 0
  · rw [if_pos hpos]
    rcases hc with rfl | rfl <;> exact (by decide : 1 + 2 < 5)
  · rw [if_neg hpos]
    rcases hc with rfl | rfl <;> exact (by decide : 4 < 5)

/-- `inc`, from the read. -/
theorem inc (hnonneg : 0 ≤ q.val (P.slot n)) (h : Solo P s p q (.run (.incRead x n))) :
    ∃ q' pt, Solo P s p q' pt ∧ pt.work < 5 := by
  by_cases hle : q.val (P.slot n) ≤ 0
  · have hread : atomic P q 0 (.incRead x n) =
        some (q, .incCas x n (q.val (P.slot n)), none) := by
      simp only [atomic, hle, if_true]
    have hcas : atomic P q 0 (.incCas x n (q.val (P.slot n))) =
        some (q.addVal (P.slot n) 1, incDone x n (q.val (P.slot n))) := by
      simp only [atomic, if_true]
    exact raised hnonneg (.inr rfl) ((h.access (by simp) hread).access (by simp) hcas)
  · have hread : atomic P q 0 (.incRead x n) = some (q, .incAdd x n, none) := by
      simp only [atomic, hle, if_false]
    exact raised hnonneg (.inl rfl) ((h.access (by simp) hread).access (by simp) rfl)

/-- `dec_if_gt0` has lowered the counter. -/
theorem lowered {c : Pc α} (hc : c = .decCas n false v ∨ c = .waitLeave n v)
    (h : Solo P s p q (.after c (decDone n v))) : ∃ q' pt, Solo P s p q' pt ∧ pt.work < 5 := by
  refine ⟨q, _, h, ?_⟩
  unfold decDone
  by_cases hone : v ≠ 1
  · rw [if_pos hone]
    rcases hc with rfl | rfl <;> exact (by decide : 1 + 2 < 5)
  · rw [if_neg hone]
    rcases hc with rfl | rfl <;> exact (by decide : 2 + 2 < 5)

/-- `dec_if_gt0` swaps the counter it sees, before or after a wait. -/
theorem swapped (waited : Bool) (hval : q.val (P.slot n) = v)
    (h : Solo P s p q (.run (.decCas n waited v))) :
    ∃ q' pt, Solo P s p q' pt ∧ pt.work < 6 := by
  have hcas : atomic P q 0 (.decCas n waited v) = some (q.addVal (P.slot n) (-1),
      if waited then .waitLeave n v else decDone n v, none) := by
    simp only [atomic, hval, if_true]
  have hnext := h.access (by simp) hcas
  cases waited with
  | true => exact ⟨_, _, hnext, (by decide : 5 < 6)⟩
  | false =>
    obtain ⟨q', pt, hpt, hwork⟩ := lowered (.inl rfl) hnext
    exact ⟨q', pt, hpt, by omega⟩

/-- `FUTEX_WAIT` with the value the counter has. -/
theorem waits (hval : q.val (P.slot n) = v) (h : Solo P s p q (.run (.futexWait n v))) :
    ∃ q' pt, Solo P s p q' pt ∧ (pt.work < 6 ∨ pt.work = 6 ∧ ¬ pt.busy) :=
  ⟨q, _, h.sleep hval, .inr ⟨rfl, Bool.false_ne_true⟩⟩

/-- `dec_if_gt0`, from the read: the counter goes down, or the thread falls asleep. -/
theorem dec (waited : Bool) (h : Solo P s p q (.run (.decRead n waited))) :
    ∃ q' pt, Solo P s p q' pt ∧ (pt.work < 6 ∨ pt.work = 6 ∧ ¬ pt.busy) := by
  by_cases hpos : q.val (P.slot n) > 0
  · have hread : atomic P q 0 (.decRead n waited) =
        some (q, .decCas n waited (q.val (P.slot n)), none) := by
      simp only [atomic, hpos, if_true]
    have hnext := h.access (by simp) hread
    have hcas : Solo P s p q (.run (.decCas n waited (q.val (P.slot n)))) := by
      cases waited <;> exact hnext
    obtain ⟨q', pt, hpt, hwork⟩ := swapped waited rfl hcas
    exact ⟨q', pt, hpt, .inl hwork⟩
  · have hread : atomic P q 0 (.decRead n waited) = some (q, if waited then
        .futexWait n (q.val (P.slot n)) else .waitEnter n (q.val (P.slot n)), none) := by
      simp only [atomic, hpos, if_false]
    have hnext := h.access (by simp) hread
    cases waited with
    | true => exact waits rfl hnext
    | false =>
      have henter : Solo P s p (q.addWaiters (P.slot n) 1)
          (.run (.futexWait n (q.val (P.slot n)))) := Solo.access hnext (by simp) rfl
      exact waits (by rw [val_addWaiters]) henter

/-- `FUTEX_WAIT`, whatever the counter is now. -/
theorem wait (h : Solo P s p q (.run (.futexWait n v))) :
    ∃ q' pt, Solo P s p q' pt ∧ (pt.work < 6 ∨ pt.work = 6 ∧ ¬ pt.busy) := by
  by_cases hval : q.val (P.slot n) = v
  · exact waits hval h
  · exact dec true (h.stale hval).return_

/-- `LFItem::pop` takes what the cell has. -/
theorem grab {d : α} (hdata : q.data (P.slot n) = some d) (h : Solo P s p q (.run (.take n))) :
    ∃ q' pt, Solo P s p q' pt ∧ pt.work < 2 := by
  have hlook : atomic P q 0 (.take n) = some (q, .takeCas n d, none) := by
    simp only [atomic, hdata]
  have hcas : atomic P q 0 (.takeCas n d) = some (q.setData (P.slot n) none,
      .popped (some d) 0, some (.taken (P.slot n) d)) := by
    simp only [atomic, hdata, if_true]
  exact ⟨_, _, (h.access (by simp) hlook).access (by simp) hcas, (by decide : 1 < 2)⟩

end Solo

/-! ### Every thread -/

omit [DecidableEq α] in
/-- Less work is an advance. -/
theorem advances_of_lt {s : State Pid α} {p : Pid} {k : Nat} (hk : (s.pt p).work = k)
    [DecidableEq α] (h : ∃ q pt, Solo P s p q pt ∧ pt.work < k) : Advances P s p := by
  obtain ⟨q, pt, hpt, hwork⟩ := h
  exact ⟨q, pt, hpt, .inl (hk ▸ hwork)⟩

omit [DecidableEq α] in
/-- So is falling asleep. -/
theorem advances_of_wait {s : State Pid α} {p : Pid} [DecidableEq α] (hk : (s.pt p).work = 6)
    (hbusy : (s.pt p).busy)
    (h : ∃ q pt, Solo P s p q pt ∧ (pt.work < 6 ∨ pt.work = 6 ∧ ¬ pt.busy)) :
    Advances P s p := by
  obtain ⟨q, pt, hpt, hwork | ⟨hwork, hasleep⟩⟩ := h
  · exact ⟨q, pt, hpt, .inl (hk ▸ hwork)⟩
  · exact ⟨q, pt, hpt, .inr ⟨hwork.trans hk.symm, hbusy, hasleep⟩⟩

/-- `p` is in a loop that only another thread can end. -/
def Spins (P : LFParams) (s : State Pid α) (p : Pid) : Prop :=
  (∃ x n, s.pt p = .run (.store x n) ∧ s.queue.data (P.slot n) ≠ none) ∨
    ∃ n, (s.pt p = .run (.take n) ∨ ∃ d, s.pt p = .run (.takeCas n d)) ∧
      s.queue.data (P.slot n) = none

/-- It has `wake_if_needed` before it. -/
def Wakes (s : State Pid α) (p : Pid) : Prop :=
  ∃ n c, s.pt p = .wakeIfNeeded n c ∨ s.pt p = .wake n c

/-- A call advances alone, is to wake others, or spins. -/
theorem advances_or_spins {s : State Pid α} (hnonneg : ∀ i, 0 ≤ s.queue.val i) {p : Pid}
    (hbusy : (s.pt p).busy) : Advances P s p ∨ Wakes s p ∨ Spins P s p := by
  obtain ⟨pt, hpt⟩ : ∃ pt, s.pt p = pt := ⟨_, rfl⟩
  have hself : Solo P s p s.queue pt := .refl hpt
  have hwork : (s.pt p).work = pt.work := congrArg _ hpt
  have hbusy' := hbusy
  rw [hpt] at hbusy'
  cases pt with
  | asleep n v => cases hbusy'
  | woken n v => exact .inl (advances_of_wait hwork hbusy (Solo.dec true hself.return_))
  | wakeIfNeeded n c => exact .inr (.inl ⟨n, c, .inl hpt⟩)
  | wake n c => exact .inr (.inl ⟨n, c, .inr hpt⟩)
  | run c =>
    cases c with
    | idle last => cases hbusy'
    | pushDraw x =>
      have hnext := hself.access (by simp) rfl
      exact .inl (advances_of_lt hwork ⟨_, _, hnext, (by decide : 5 < 6)⟩)
    | incRead x n => exact .inl (advances_of_lt hwork (Solo.inc (hnonneg _) hself))
    | incCas x n v =>
      left
      by_cases hval : s.queue.val (P.slot n) = v
      · have hcas : atomic P s.queue 0 (.incCas x n v) =
            some (s.queue.addVal (P.slot n) 1, incDone x n v) := by
          simp only [atomic, hval, if_true]
        exact advances_of_lt hwork
          (Solo.raised (hval ▸ hnonneg _) (.inr rfl) (hself.access (by simp) hcas))
      · have hcas : atomic P s.queue 0 (.incCas x n v) = some (s.queue, .incRead x n, none) := by
          simp only [atomic, hval, if_false]
        exact advances_of_lt hwork (Solo.inc (hnonneg _) (hself.access (by simp) hcas))
    | incAdd x n =>
      exact .inl (advances_of_lt hwork
        (Solo.raised (hnonneg _) (.inl rfl) (hself.access (by simp) rfl)))
    | store x n =>
      by_cases hdata : s.queue.data (P.slot n) = none
      · have hfill : atomic P s.queue 0 (.store x n) = some (s.queue.setData (P.slot n) (some x),
            .pushed x 0, some (.filled (P.slot n) x)) := by
          simp only [atomic, hdata]
        exact .inl (advances_of_lt hwork
          ⟨_, _, hself.access (by simp) hfill, (by decide : 1 + 2 < 4)⟩)
      · exact .inr (.inr (.inl ⟨x, n, hpt, hdata⟩))
    | pushed x err =>
      left
      by_cases hzero : err = 0
      · subst hzero
        exact advances_of_lt hwork ⟨_, _, hself.access (by simp) rfl, (by decide : 0 < 1)⟩
      · by_cases htwo : err = -2
        · subst htwo
          exact advances_of_lt hwork ⟨_, _, hself.access (by simp) rfl, (by decide : 0 < 1)⟩
        · have hagain : atomic P s.queue 0 (.pushed x err) = some (s.queue, .pushDraw x, none) := by
            simp [atomic, hzero, htwo]
          have hseven : (s.pt p).work = 7 := by
            rw [hwork]
            simp [Point.work, Point.pc, Pc.work, hzero, htwo]
          exact advances_of_lt hseven
            ⟨_, _, hself.access (by simp) hagain, (by decide : 6 < 7)⟩
    | popDraw =>
      exact .inl (advances_of_lt hwork ⟨_, _, hself.access (by simp) rfl, (by decide : 6 < 7)⟩)
    | decRead n waited => exact .inl (advances_of_wait hwork hbusy (Solo.dec waited hself))
    | decCas n waited v =>
      left
      by_cases hval : s.queue.val (P.slot n) = v
      · exact advances_of_lt hwork (Solo.swapped waited hval hself)
      · have hcas : atomic P s.queue 0 (.decCas n waited v) =
            some (s.queue, .decRead n waited, none) := by
          simp only [atomic, hval, if_false]
        have hnext := hself.access (by simp) hcas
        exact advances_of_wait hwork hbusy (Solo.dec waited (by cases waited <;> exact hnext))
    | waitEnter n v =>
      have hnext := hself.access (by simp) rfl
      exact .inl (advances_of_wait hwork hbusy (Solo.wait hnext))
    | futexWait n v => exact .inl (advances_of_wait hwork hbusy (Solo.wait hself))
    | decAdd n =>
      exact .inl (advances_of_lt hwork ⟨_, _, hself.access (by simp) rfl, (by decide : 5 < 6)⟩)
    | waitLeave n v =>
      exact .inl (advances_of_lt hwork (Solo.lowered (.inr rfl) (hself.access (by simp) rfl)))
    | take n =>
      cases hdata : s.queue.data (P.slot n) with
      | none => exact .inr (.inr (.inr ⟨n, .inl hpt, hdata⟩))
      | some d => exact .inl (advances_of_lt hwork (Solo.grab hdata hself))
    | takeCas n d =>
      cases hdata : s.queue.data (P.slot n) with
      | none => exact .inr (.inr (.inr ⟨n, .inr ⟨d, hpt⟩, hdata⟩))
      | some d' =>
        left
        by_cases hd : d' = d
        · have hcas : atomic P s.queue 0 (.takeCas n d) = some (s.queue.setData (P.slot n) none,
              .popped (some d) 0, some (.taken (P.slot n) d)) := by
            simp only [atomic, hdata, hd, if_true]
          exact advances_of_lt hwork
            ⟨_, _, hself.access (by simp) hcas, (by decide : 1 < 2)⟩
        · have hcas : atomic P s.queue 0 (.takeCas n d) = some (s.queue, .take n, none) := by
            simp [atomic, hdata, hd]
          exact advances_of_lt hwork (Solo.grab hdata (hself.access (by simp) hcas))
    | popped data err =>
      exact .inl (advances_of_lt hwork ⟨_, _, hself.access (by simp) rfl, (by decide : 0 < 1)⟩)

/-! ### Spinning -/

omit [DecidableEq Pid] [DecidableEq α] in
/-- A thread whose access is not a wait is busy unless it is out of the calls. -/
theorem busy_of_phase {pt : Point α} (hidle : ∀ last, pt.pc.phase ≠ .idle last)
    (hawaits : ∀ n, pt.pc.phase ≠ .awaiting n) : pt.busy := by
  cases pt with
  | run c =>
    cases c with
    | idle last => exact absurd rfl (hidle last)
    | _ => rfl
  | asleep n v => exact absurd rfl (hawaits n)
  | _ => rfl

section Spinning

variable [Fintype Pid]

omit [DecidableEq Pid] [DecidableEq α] in
/-- A call of a kind of which there is one. -/
theorem exists_of_tally_pos {s : State Pid α} {w : Phase α → Nat}
    (h : 0 < s.plain.slots.tally w) : ∃ r, 0 < w (s.pt r).pc.phase := by
  obtain ⟨r, _, hr⟩ := Finset.exists_ne_zero_of_sum_ne_zero (Nat.pos_iff_ne_zero.mp h)
  exact ⟨r, Nat.pos_of_ne_zero hr⟩

omit [DecidableEq Pid] [DecidableEq α] in
theorem tally_pos {s : State Pid α} {w : Phase α → Nat} {p : Pid}
    (h : 0 < w (s.pt p).pc.phase) : 0 < s.plain.slots.tally w :=
  lt_of_lt_of_le h (Finset.single_le_sum (f := fun r => w (s.pt r).pc.phase)
    (fun _ _ => Nat.zero_le _) (Finset.mem_univ p))

omit [DecidableEq Pid] [DecidableEq α] [Fintype Pid] in
theorem phase_of_grabs {i : Nat} {f : Phase α} (h : 0 < f.grabs P i) :
    ∃ n, f = .taking n ∧ P.slot n = i := by
  cases f with
  | taking n =>
    refine ⟨n, rfl, ?_⟩
    by_contra hi
    simp [Phase.grabs, hi] at h
  | _ => cases h

omit [DecidableEq Pid] [DecidableEq α] [Fintype Pid] in
theorem phase_of_stores {i : Nat} {f : Phase α} (h : 0 < f.stores P i) :
    ∃ x n, f = .storing x n ∧ P.slot n = i := by
  cases f with
  | storing x n =>
    refine ⟨x, n, rfl, ?_⟩
    by_contra hi
    simp [Phase.stores, hi] at h
  | _ => cases h

/-- A push spins for a pop that has something to take, and a pop for a push whose cell
    is free: that call does not spin. -/
theorem exists_of_spins {s : State Pid α} (h : LTS.Reachable (State.system Pid α P) s) {p : Pid}
    (hp : Spins P s p) : ∃ r, Advances P s r ∨ Wakes s r := by
  have hbalanced := Slots.balanced (LFQueue.State.reachable_slots (reachable_plain h))
  have hnonneg : ∀ i, 0 ≤ s.queue.val i := LFQueue.State.val_nonneg (reachable_plain h)
  rcases hp with ⟨x, n, hpt, hdata⟩ | ⟨n, hpt, hdata⟩
  · have hpair : (if 1 ≤ s.queue.val (P.slot n) then 1 else 0) +
        s.plain.slots.tally (Phase.grabs P (P.slot n)) =
        (if (s.queue.data (P.slot n)).isSome then 1 else 0) +
          s.plain.slots.tally (Phase.stores P (P.slot n)) := hbalanced.paired (P.slot n)
    have hstores : 0 < s.plain.slots.tally (Phase.stores P (P.slot n)) :=
      tally_pos (p := p) (by rw [hpt]; simp [Point.pc, Pc.phase, Phase.stores])
    rw [if_pos (Option.isSome_iff_ne_none.mpr hdata)] at hpair
    have hgrabs : 0 < s.plain.slots.tally (Phase.grabs P (P.slot n)) := by
      split at hpair <;> omega
    obtain ⟨r, hr⟩ := exists_of_tally_pos hgrabs
    obtain ⟨m, hphase, hm⟩ := phase_of_grabs hr
    have hbusy : (s.pt r).busy := busy_of_phase (by rw [hphase]; simp) (by rw [hphase]; simp)
    refine ⟨r, ?_⟩
    rcases advances_or_spins hnonneg hbusy with hadv | hwakes | hspins
    · exact .inl hadv
    · exact .inr hwakes
    · rcases hspins with ⟨y, k, hk, _⟩ | ⟨k, hk, hnone⟩
      · rw [hk] at hphase
        cases hphase
      · have hkm : k = m := by
          rcases hk with hk | ⟨d, hk⟩
          · rw [hk] at hphase
            cases hphase
            rfl
          · rw [hk] at hphase
            cases hphase
            rfl
        rw [hkm, hm] at hnone
        exact absurd hnone hdata
  · have hpair : (if 1 ≤ s.queue.val (P.slot n) then 1 else 0) +
        s.plain.slots.tally (Phase.grabs P (P.slot n)) =
        (if (s.queue.data (P.slot n)).isSome then 1 else 0) +
          s.plain.slots.tally (Phase.stores P (P.slot n)) := hbalanced.paired (P.slot n)
    have hgrabs : 0 < s.plain.slots.tally (Phase.grabs P (P.slot n)) := by
      refine tally_pos (p := p) ?_
      rcases hpt with hpt | ⟨d, hpt⟩
      · rw [hpt]
        simp [Point.pc, Pc.phase, Phase.grabs]
      · rw [hpt]
        simp [Point.pc, Pc.phase, Phase.grabs]
    rw [hdata] at hpair
    have hstores : 0 < s.plain.slots.tally (Phase.stores P (P.slot n)) := by
      simp only [Option.isSome_none, Bool.false_eq_true, if_false] at hpair
      split at hpair <;> omega
    obtain ⟨r, hr⟩ := exists_of_tally_pos hstores
    obtain ⟨x, m, hphase, hm⟩ := phase_of_stores hr
    have hbusy : (s.pt r).busy := busy_of_phase (by rw [hphase]; simp) (by rw [hphase]; simp)
    refine ⟨r, ?_⟩
    rcases advances_or_spins hnonneg hbusy with hadv | hwakes | hspins
    · exact .inl hadv
    · exact .inr hwakes
    · rcases hspins with ⟨y, k, hk, hsome⟩ | ⟨k, hk | ⟨d, hk⟩, _⟩
      · rw [hk] at hphase
        cases hphase
        rw [hm] at hsome
        exact absurd hdata hsome
      · rw [hk] at hphase
        cases hphase
      · rw [hk] at hphase
        cases hphase

end Spinning

/-! ### The measure -/

section Measure

variable [Fintype Pid]

/-- The work of all calls, then the threads that are busy. -/
def State.measure (s : State Pid α) : Nat ×ₗ Nat :=
  toLex (∑ p, (s.pt p).work, (Finset.univ.filter fun p => (s.pt p).busy).card)

omit [DecidableEq Pid] [DecidableEq α] in
theorem measure_lt_of_work {s s' : State Pid α}
    (h : ∑ p, (s'.pt p).work < ∑ p, (s.pt p).work) : s'.measure < s.measure :=
  Prod.Lex.toLex_lt_toLex.mpr (.inl h)

/-- A thread that advances alone lowers the measure. -/
theorem Advances.lowers {s : State Pid α} {p : Pid} (h : Advances P s p) :
    ∃ s', LTS.Reaches ((State.system Pid α P).restrict Finishing) s s' ∧
      s'.measure < s.measure := by
  obtain ⟨q, pt, ⟨tr, hrun⟩, hless⟩ := h
  refine ⟨_, hrun, ?_⟩
  have hsum : (∑ r, (Function.update s.pt p pt r).work) + (s.pt p).work =
      (∑ r, (s.pt r).work) + pt.work :=
    Totals.sum_update (Finset.mem_univ p) Point.work s.pt pt
  rcases hless with hlt | ⟨heq, hbusy, hasleep⟩
  · apply measure_lt_of_work
    show ∑ r, (Function.update s.pt p pt r).work < _
    omega
  · refine Prod.Lex.toLex_lt_toLex.mpr (.inr ⟨?_, ?_⟩)
    · show ∑ r, (Function.update s.pt p pt r).work = ∑ r, (s.pt r).work
      omega
    · apply Finset.card_lt_card
      rw [Finset.ssubset_iff_of_subset]
      · refine ⟨p, by simpa using hbusy, ?_⟩
        simpa [Function.update_self] using hasleep
      · intro r hr
        have hr' := (Finset.mem_filter.mp hr).2
        change (Function.update s.pt p pt r).busy = true at hr'
        refine Finset.mem_filter.mpr ⟨Finset.mem_univ r, ?_⟩
        by_cases hrp : r = p
        · exact hrp ▸ hbusy
        · rwa [Function.update_of_ne hrp] at hr'

/-- Waking others costs the waker a step. -/
theorem Wakes.lowers {s : State Pid α} {p : Pid} (h : Wakes s p) :
    ∃ s', LTS.Reaches ((State.system Pid α P).restrict Finishing) s s' ∧
      s'.measure < s.measure := by
  obtain ⟨n, c, hpt | hpt⟩ := h
  · have hnext : s.next P (.step p 0) = some (s.at_ p
        (if s.queue.waiters (P.slot n) > 0 then .wake n c else .run c)) := by
      simp only [State.next, hpt]
    refine ⟨_, .single (.step p 0) ⟨trivial, hnext⟩, ?_⟩
    apply measure_lt_of_work
    have hsum := Totals.sum_update (Finset.mem_univ p) Point.work s.pt
      (if s.queue.waiters (P.slot n) > 0 then .wake n c else .run c)
    have hless : (if s.queue.waiters (P.slot n) > 0 then .wake n c else .run c : Point α).work <
        (s.pt p).work := by
      rw [hpt]
      split
      · exact Nat.lt_succ_self _
      · exact Nat.lt_add_of_pos_right (by decide)
    show ∑ r, (Function.update s.pt p _ r).work < _
    omega
  · have hnext : s.next P (.step p 0) = some { s with
        pt := Function.update (fun r => (s.pt r).wokenBy P (P.slot n)) p (.run c) } := by
      simp only [State.next, hpt]
    refine ⟨_, .single (.step p 0) ⟨trivial, hnext⟩, ?_⟩
    apply measure_lt_of_work
    have hsum := Totals.sum_update (Finset.mem_univ p) Point.work
      (fun r => (s.pt r).wokenBy P (P.slot n)) (.run c)
    have hsame : ∑ r, ((s.pt r).wokenBy P (P.slot n)).work = ∑ r, (s.pt r).work :=
      Finset.sum_congr rfl fun r _ => Point.work_wokenBy P _ _
    have hless : (Point.run c).work < ((s.pt p).wokenBy P (P.slot n)).work := by
      rw [hpt]
      exact Nat.lt_succ_self _
    show ∑ r, (Function.update (fun r => (s.pt r).wokenBy P (P.slot n)) p (.run c) r).work < _
    omega

/-- Somebody can go on unless all calls have come to rest. -/
theorem lowers_of_not_resting {s : State Pid α} (h : LTS.Reachable (State.system Pid α P) s)
    (hrest : ¬ s.Resting) :
    ∃ s', LTS.Reaches ((State.system Pid α P).restrict Finishing) s s' ∧
      s'.measure < s.measure := by
  have hnonneg : ∀ i, 0 ≤ s.queue.val i := LFQueue.State.val_nonneg (reachable_plain h)
  obtain ⟨p, hp⟩ : ∃ p, (s.pt p).busy := by
    by_contra hnone
    apply hrest
    intro p
    have hp : ¬ (s.pt p).busy := fun hb => hnone ⟨p, hb⟩
    revert hp
    cases s.pt p with
    | run c =>
      intro hp
      cases c with
      | idle last => exact .inl ⟨last, rfl⟩
      | _ => exact absurd rfl hp
    | asleep n v => exact fun _ => .inr ⟨n, v, rfl⟩
    | _ => exact fun hp => absurd rfl hp
  rcases advances_or_spins hnonneg hp with hadv | hwakes | hspins
  · exact hadv.lowers
  · exact hwakes.lowers
  · obtain ⟨r, hadv | hwakes⟩ := exists_of_spins h hspins
    · exact hadv.lowers
    · exact hwakes.lowers

end Measure

/-- From every state the calls in progress can go on, with no new call and no
    interrupted wait, until each has returned or is asleep; and then nobody is
    asleep, or the queue is empty. -/
theorem reaches_rest [Fintype Pid] {s : State Pid α} (h : LTS.Reachable (State.system Pid α P) s) :
    ∃ s', LTS.Reaches ((State.system Pid α P).restrict Finishing) s s' ∧ s'.Resting ∧
      ((∀ i, s'.sleepers P i = 0) ∨ ∀ i, s'.queue.val i = 0 ∧ s'.queue.data i = none) := by
  have hlowers : ∀ s, LTS.Reachable (State.system Pid α P) s → ¬ s.Resting →
      ∃ s', LTS.Reaches ((State.system Pid α P).restrict Finishing) s s' ∧
        LTS.Reachable (State.system Pid α P) s' ∧ s'.measure < s.measure := by
    intro s hs hnot
    obtain ⟨s', hrun, hlt⟩ := lowers_of_not_resting hs hnot
    exact ⟨s', hrun, hrun.of_restrict.reachable hs, hlt⟩
  obtain ⟨s', hrun, hrest⟩ := LTS.reaches_goal State.measure hlowers h
  refine ⟨s', hrun, hrest, ?_⟩
  by_cases hasleep : ∃ i, 0 < s'.sleepers P i
  · obtain ⟨i, hi⟩ := hasleep
    exact .inr (State.Resting.empty (hrun.of_restrict.reachable h) hrest hi).2
  · left
    intro i
    by_contra hne
    exact hasleep ⟨i, Nat.pos_of_ne_zero hne⟩

end Futex

end LFQueue

end BlackSiren

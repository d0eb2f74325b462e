import BlackSiren.Framework.Totals
import BlackSiren.LFQueue.Phases
import Mathlib.Data.Nat.Count
import Mathlib.Data.Nat.SuccPred
import Mathlib.Algebra.Order.Interval.Finset.SuccPred
import Mathlib.Order.Interval.Finset.Nat
import Mathlib.Tactic.Abel

/-! # `LFQueue`: no item is lost or duplicated between the counters and the cells

    An item is claimed by its counter and filled by its cell in two steps, so
    the two can disagree while calls are in progress.  What holds in every state
    is a balance, for each item of the array, between its counter, its cell and
    the calls on their way to it:

    - `counted`: the counter and the calls that are to change it account for the
      numbers drawn
    - `nonneg`: no counter goes below 0
    - `paired`: a counter is above 0 and its cell empty only while some push has
      the item, and the reverse only while some pop has it
    - `items`: the items accepted are those taken, those in cells and those of
      the pushes that fill a cell

    Each is a sum over the threads, and `Act` keeps it thread by thread.
-/

namespace BlackSiren

namespace LFQueue

variable {Pid α : Type}

/-! ### What a call has in hand -/

/-- The numbers below `n` that map to item `i`. -/
def drawn (P : LFParams) (i n : Nat) : Nat := Nat.count (fun t => P.slot t = i) n

theorem drawn_succ (P : LFParams) (i n : Nat) :
    drawn P i (n + 1) = drawn P i n + if P.slot n = i then 1 else 0 :=
  Nat.count_succ _ n

namespace Phase

/-- Pushes that are to raise the counter of item `i`. -/
def claims (P : LFParams) (i : Nat) : Phase α → Nat
  | .claiming _ n => if P.slot n = i then 1 else 0
  | _ => 0

/-- Pops that are to lower it. -/
def awaits (P : LFParams) (i : Nat) : Phase α → Nat
  | .awaiting n => if P.slot n = i then 1 else 0
  | _ => 0

/-- Pushes that are to fill its cell. -/
def stores (P : LFParams) (i : Nat) : Phase α → Nat
  | .storing _ n => if P.slot n = i then 1 else 0
  | _ => 0

/-- Pops that are to empty it. -/
def grabs (P : LFParams) (i : Nat) : Phase α → Nat
  | .taking n => if P.slot n = i then 1 else 0
  | _ => 0

/-- The item of a push that is to fill a cell. -/
def held : Phase α → Multiset α
  | .storing x _ => {x}
  | _ => 0

@[simp] theorem claims_lowered (P : LFParams) (i n : Nat) (old : Int) :
    (lowered n old : Phase α).claims P i = 0 := by
  unfold lowered
  split <;> rfl

@[simp] theorem awaits_lowered (P : LFParams) (i n : Nat) (old : Int) :
    (lowered n old : Phase α).awaits P i = 0 := by
  unfold lowered
  split <;> rfl

@[simp] theorem stores_lowered (P : LFParams) (i n : Nat) (old : Int) :
    (lowered n old : Phase α).stores P i = 0 := by
  unfold lowered
  split <;> rfl

@[simp] theorem held_lowered (n : Nat) (old : Int) : (lowered n old : Phase α).held = 0 := by
  unfold lowered
  split <;> rfl

theorem grabs_lowered (P : LFParams) (i n : Nat) (old : Int) :
    (lowered n old : Phase α).grabs P i = if old = 1 ∧ P.slot n = i then 1 else 0 := by
  unfold lowered
  by_cases h : old = 1
  · simp [h, grabs]
  · simp [h, grabs]

end Phase

/-- The item of a cell. -/
def inCell (o : Option α) : Multiset α := (o.toList : Multiset α)

@[simp] theorem inCell_none : inCell (none : Option α) = 0 := rfl

@[simp] theorem inCell_some (x : α) : inCell (some x) = {x} := rfl

/-- All items in cells. -/
def Memory.cells (P : LFParams) (m : Memory α) : Multiset α :=
  ∑ i ∈ Finset.range P.capacity, inCell (m.data i)

/-! ### One action -/

/-- The counter, the calls that are to change it and the numbers drawn change
    together. -/
theorem Act.counted {P : LFParams} {m m' : Memory α} {f f' : Phase α} {ev : Option (Event α)}
    (h : Act P m f m' f' ev) (i : Nat) :
    m'.val i + f'.claims P i + drawn P i m'.pop_ + f.awaits P i + drawn P i m.push_ =
      m.val i + f.claims P i + drawn P i m.pop_ + f'.awaits P i + drawn P i m'.push_ := by
  cases h with
  | draw x =>
    simp only [Phase.claims, Phase.awaits, drawn_succ]
    push_cast
    omega
  | drawPop =>
    simp only [Phase.claims, Phase.awaits, drawn_succ]
    push_cast
    omega
  | accept x n hzero =>
    -- only the counter of the slot that is touched changes
    by_cases hi : P.slot n = i
    · subst hi
      simp [Phase.claims, Phase.awaits, hzero]
    · simp [Phase.claims, Phase.awaits, hi, Function.update_of_ne (Ne.symm hi)]
  | overflow x n hpos =>
    by_cases hi : P.slot n = i
    · subst hi
      simp [Phase.claims, Phase.awaits]
    · simp [Phase.claims, Phase.awaits, hi, Function.update_of_ne (Ne.symm hi)]
  | retry x n hneg =>
    by_cases hi : P.slot n = i
    · subst hi
      simp [Phase.claims, Phase.awaits]
    · simp [Phase.claims, Phase.awaits, hi, Function.update_of_ne (Ne.symm hi)]
  | lower n hpos =>
    rw [Phase.claims_lowered, Phase.awaits_lowered]
    by_cases hi : P.slot n = i
    · subst hi
      simp only [Phase.claims, Phase.awaits, Function.update_self, if_true]
      push_cast
      omega
    · simp [Phase.claims, Phase.awaits, hi, Function.update_of_ne (Ne.symm hi)]
  | _ => simp [Phase.claims, Phase.awaits]

theorem Act.nonneg {P : LFParams} {m m' : Memory α} {f f' : Phase α} {ev : Option (Event α)}
    (h : Act P m f m' f' ev) (hm : ∀ i, 0 ≤ m.val i) (i : Nat) : 0 ≤ m'.val i := by
  -- a counter is only lowered from above 0
  have hupdate : ∀ (j : Nat) (v : Int), 0 ≤ v → 0 ≤ Function.update m.val j v i := by
    intro j v hv
    by_cases hi : i = j
    · rw [hi, Function.update_self]
      exact hv
    · rw [Function.update_of_ne hi]
      exact hm i
  cases h with
  | accept x n hzero => exact hupdate _ _ (by omega)
  | overflow x n hpos => exact hupdate _ _ (by omega)
  | retry x n hneg =>
    have := hm (P.slot n)
    omega
  | lower n hpos => exact hupdate _ _ (by omega)
  | _ => exact hm i

/-- The sign of the counter, the state of the cell and the calls that have the
    item change together. -/
theorem Act.paired {P : LFParams} {m m' : Memory α} {f f' : Phase α} {ev : Option (Event α)}
    (h : Act P m f m' f' ev) (hm : ∀ i, 0 ≤ m.val i) (i : Nat) :
    (if 1 ≤ m'.val i then 1 else 0) + f'.grabs P i +
        (if (m.data i).isSome then 1 else 0) + f.stores P i =
      (if 1 ≤ m.val i then 1 else 0) + f.grabs P i +
        (if (m'.data i).isSome then 1 else 0) + f'.stores P i := by
  cases h with
  | accept x n hzero =>
    by_cases hi : P.slot n = i
    · subst hi
      simp [Phase.grabs, Phase.stores, hzero]
      omega
    · simp [Phase.grabs, Phase.stores, hi, Function.update_of_ne (Ne.symm hi)]
  | overflow x n hpos =>
    by_cases hi : P.slot n = i
    · subst hi
      have hge : 1 ≤ m.val (P.slot n) := hpos
      have hge' : 1 ≤ m.val (P.slot n) + 1 := by omega
      simp [Phase.grabs, Phase.stores, hge, hge']
    · simp [Phase.grabs, Phase.stores, Function.update_of_ne (Ne.symm hi)]
  | retry x n hneg =>
    have := hm (P.slot n)
    omega
  | lower n hpos =>
    rw [Phase.grabs_lowered, Phase.stores_lowered]
    by_cases hi : P.slot n = i
    · subst hi
      have hge : 1 ≤ m.val (P.slot n) := hpos
      by_cases hone : m.val (P.slot n) = 1
      · simp [Phase.grabs, Phase.stores, hone]
      · have hge' : 1 ≤ m.val (P.slot n) - 1 := by omega
        simp [Phase.grabs, Phase.stores, hone, hge, hge']
    · simp [Phase.grabs, Phase.stores, hi, Function.update_of_ne (Ne.symm hi)]
  | fill x n hnone =>
    by_cases hi : P.slot n = i
    · subst hi
      simp [Phase.grabs, Phase.stores, hnone]
    · simp [Phase.grabs, Phase.stores, hi, Function.update_of_ne (Ne.symm hi)]
  | take n x hsome =>
    by_cases hi : P.slot n = i
    · subst hi
      simp [Phase.grabs, Phase.stores, hsome]
    · simp [Phase.grabs, Phase.stores, hi, Function.update_of_ne (Ne.symm hi)]
  | _ => simp [Phase.grabs, Phase.stores]

theorem Memory.cells_update (P : LFParams) (m : Memory α) (n : Nat) (o : Option α) :
    Memory.cells P { m with data := Function.update m.data (P.slot n) o } +
        inCell (m.data (P.slot n)) =
      m.cells P + inCell o :=
  Totals.sum_update (Finset.mem_range.mpr (P.slot_lt n)) inCell m.data o

/-- An item accepted is in the hands of a push, an item of a push goes to a
    cell, an item of a cell is taken. -/
theorem Act.items {P : LFParams} {m m' : Memory α} {f f' : Phase α} {ev : Option (Event α)}
    (h : Act P m f m' f' ev) (p : Pid) :
    m'.cells P + f'.held + ↑(Trace.taken (ev.map (p, ·)).toList) =
      m.cells P + f.held + ↑(Trace.accepted (ev.map (p, ·)).toList) := by
  cases h with
  | accept x n hzero =>
    show m.cells P + {x} + 0 = m.cells P + 0 + {x}
    rw [add_zero, add_zero]
  | fill x n hnone =>
    have hcells := m.cells_update P n (some x)
    rw [hnone, inCell_none, add_zero, inCell_some] at hcells
    show _ + 0 + 0 = m.cells P + {x} + 0
    rw [add_zero, add_zero, add_zero]
    exact hcells
  | take n x hsome =>
    have hcells := m.cells_update P n none
    rw [hsome, inCell_none, add_zero, inCell_some] at hcells
    show _ + 0 + {x} = m.cells P + 0 + 0
    rw [add_zero, add_zero, add_zero]
    exact hcells
  | lower n hpos =>
    rw [Phase.held_lowered]
    rfl
  | _ => rfl

/-! ### All threads -/

namespace Slots

variable [Fintype Pid]

/-- The total of a quantity over the calls. -/
def tally {M : Type} [AddCommMonoid M] (w : Phase α → M) (s : Slots Pid α) : M :=
  ∑ p, w (s.phase p)

theorem tally_after [DecidableEq Pid] {M : Type} [AddCommMonoid M] (w : Phase α → M)
    (s : Slots Pid α) (p : Pid) (m : Memory α) (f : Phase α) (ev : Option (Event α)) :
    (s.after p m f ev).tally w + w (s.phase p) = s.tally w + w f :=
  Totals.sum_update (Finset.mem_univ p) w s.phase f

/-- Counters, cells, numbers and calls in balance. -/
structure Balanced (P : LFParams) (s : Slots Pid α) : Prop where
  counted : ∀ i, s.mem.val i + s.tally (Phase.claims P i) + drawn P i s.mem.pop_ =
    s.tally (Phase.awaits P i) + drawn P i s.mem.push_
  nonneg : ∀ i, 0 ≤ s.mem.val i
  paired : ∀ i, (if 1 ≤ s.mem.val i then 1 else 0) + s.tally (Phase.grabs P i) =
    (if (s.mem.data i).isSome then 1 else 0) + s.tally (Phase.stores P i)
  items : (Trace.accepted s.trace : Multiset α) =
    ↑(Trace.taken s.trace) + s.mem.cells P + s.tally Phase.held

theorem new_balanced (P : LFParams) : Balanced P (new : Slots Pid α) where
  counted := by
    intro i
    simp [new, tally, Phase.claims, Phase.awaits]
  nonneg := fun _ => le_refl _
  paired := by
    intro i
    simp [new, tally, Phase.grabs, Phase.stores]
  items := by
    simp [new, tally, Phase.held, Memory.cells, Trace.accepted, Trace.taken, Trace.takes]

theorem Balanced.after [DecidableEq Pid] {P : LFParams} {s : Slots Pid α} {p : Pid}
    {m : Memory α} {f : Phase α} {ev : Option (Event α)} (hs : Balanced P s)
    (h : Act P s.mem (s.phase p) m f ev) : Balanced P (s.after p m f ev) where
  counted := by
    intro i
    have hact := h.counted i
    have hclaims := s.tally_after (Phase.claims P i) p m f ev
    have hawaits := s.tally_after (Phase.awaits P i) p m f ev
    have hbefore := hs.counted i
    show m.val i + _ + (drawn P i m.pop_ : Int) = _ + (drawn P i m.push_ : Int)
    omega
  nonneg := h.nonneg hs.nonneg
  paired := by
    intro i
    have hact := h.paired hs.nonneg i
    have hgrabs := s.tally_after (Phase.grabs P i) p m f ev
    have hstores := s.tally_after (Phase.stores P i) p m f ev
    have hbefore := hs.paired i
    show (if 1 ≤ m.val i then 1 else 0) + _ = (if (m.data i).isSome then 1 else 0) + _
    omega
  items := by
    have hact := h.items p
    have hheld := s.tally_after Phase.held p m f ev
    have hbefore := hs.items
    show ((Trace.accepted (s.trace ++ _) : List α) : Multiset α) =
      ↑(Trace.taken (s.trace ++ _)) + m.cells P + _
    rw [Trace.accepted_append, Trace.taken_append, ← Multiset.coe_add, ← Multiset.coe_add, hbefore]
    -- cancel the moving thread's item
    apply add_right_cancel (b := (s.phase p).held)
    calc (↑(Trace.taken s.trace) + s.mem.cells P + s.tally Phase.held
            + ↑(Trace.accepted (ev.map (p, ·)).toList)) + (s.phase p).held
        = ↑(Trace.taken s.trace) + s.tally Phase.held
            + (s.mem.cells P + (s.phase p).held + ↑(Trace.accepted (ev.map (p, ·)).toList)) := by
          abel
      _ = ↑(Trace.taken s.trace) + (s.tally Phase.held + f.held) + m.cells P
            + ↑(Trace.taken (ev.map (p, ·)).toList) := by
          rw [← hact]
          abel
      _ = (↑(Trace.taken s.trace) + ↑(Trace.taken (ev.map (p, ·)).toList) + m.cells P
            + (s.after p m f ev).tally Phase.held) + (s.phase p).held := by
          rw [← hheld]
          abel

theorem balanced [DecidableEq Pid] {P : LFParams} {s : Slots Pid α}
    (h : LTS.Reachable (system Pid α P) s) : Balanced P s :=
  invariant_of_acts (Balanced P) (new_balanced P) (fun _ _ _ _ _ _ hs hact => hs.after hact) h

end Slots

/-! ### The queue -/

/-- The numbers drawn between two states that map to item `i`. -/
theorem drawn_between (P : LFParams) (i : Nat) {a b : Nat} (h : a ≤ b) :
    drawn P i b = drawn P i a + ((Finset.Ico a b).filter (P.slot · = i)).card := by
  induction b, h using Nat.le_induction with
  | base => simp
  | succ b hab ih =>
    rw [drawn_succ, ih, ← Finset.insert_Ico_right_eq_Ico_add_one hab, Finset.filter_insert]
    by_cases hi : P.slot b = i
    · rw [if_pos hi, if_pos hi, Finset.card_insert_of_notMem (by simp)]
      omega
    · rw [if_neg hi, if_neg hi]
      omega

namespace Pc

/-- The item of a push that spins until its cell is null. -/
def held : Pc α → Multiset α
  | .store x _ => {x}
  | _ => 0

theorem held_phase (c : Pc α) : c.phase.held = c.held := by
  cases c with
  | pushed x err =>
    show (if err = 0 then Phase.stored x else _).held = 0
    split
    · rfl
    · split <;> rfl
  | waitLeave n v => exact Phase.held_lowered n v
  | _ => rfl

end Pc

namespace State

/-- The items in cells. -/
def cells (P : LFParams) (s : State Pid α) : Multiset α :=
  ∑ i ∈ Finset.range P.capacity, inCell (s.queue.data i)

/-- The items of the pushes that have passed their counter but not yet filled
    their cell. -/
def spinning [Fintype Pid] (s : State Pid α) : Multiset α := ∑ p, (s.pc p).held

theorem tally_held [Fintype Pid] (s : State Pid α) : s.slots.tally Phase.held = s.spinning :=
  Finset.sum_congr rfl fun p _ => (s.pc p).held_phase

/-- Without a call in progress there is nothing to count. -/
theorem Quiet.tally [Fintype Pid] {M : Type} [AddCommMonoid M] {s : State Pid α} (h : s.Quiet)
    {w : Phase α → M} (hw : ∀ last, w (.idle last) = 0) : s.slots.tally w = 0 := by
  refine Finset.sum_eq_zero fun p _ => ?_
  obtain ⟨last, hpc⟩ := h p
  show w (s.pc p).phase = 0
  rw [hpc]
  exact hw last

/-- With no call in progress, the pops have not drawn more numbers than the
    pushes: a counter would be below 0. -/
theorem Quiet.pop_le_push [Fintype Pid] {P : LFParams} {s : State Pid α} (h : s.Quiet)
    (hs : s.slots.Balanced P) : s.queue.pop_ ≤ s.queue.push_ := by
  by_contra hlt
  have hcount := hs.counted (P.slot s.queue.push_)
  have hnonneg := hs.nonneg (P.slot s.queue.push_)
  rw [h.tally fun _ => rfl, h.tally fun _ => rfl] at hcount
  have hsucc := drawn_succ P (P.slot s.queue.push_) s.queue.push_
  have hmono := drawn_between P (P.slot s.queue.push_) (a := s.queue.push_ + 1)
    (b := s.queue.pop_) (by omega)
  rw [if_pos rfl] at hsucc
  have hcount' : s.slots.mem.val (P.slot s.queue.push_) + (0 : Nat) +
      (drawn P (P.slot s.queue.push_) s.queue.pop_ : Int) =
      (0 : Nat) + (drawn P (P.slot s.queue.push_) s.queue.push_ : Int) := hcount
  omega

/-- The items accepted are those popped, those in cells and those of the pushes
    that spin; and with no call in progress each counter is the number of numbers
    outstanding for its item, whose cell is filled exactly if there are any. -/
def Conserved [Fintype Pid] (P : LFParams) (s : State Pid α) : Prop :=
  (Trace.accepted s.trace : Multiset α) =
      ↑(Trace.taken s.trace) + s.cells P + s.spinning ∧
    (s.Quiet → ∀ i < P.capacity,
      s.queue.val i =
          ((Finset.Ico s.queue.pop_ s.queue.push_).filter (P.slot · = i)).card ∧
        (s.queue.data i ≠ none ↔
          1 ≤ ((Finset.Ico s.queue.pop_ s.queue.push_).filter (P.slot · = i)).card))

/-- In every state of unbounded integers. -/
theorem items_conserved [Fintype Pid] [DecidableEq Pid] [DecidableEq α] {P : LFParams}
    {s : State Pid α} (h : LTS.Reachable (system Pid α P) s) : s.Conserved P := by
  have hs := Slots.balanced (reachable_slots h)
  refine ⟨?_, ?_⟩
  · rw [← tally_held]
    exact hs.items
  · intro hquiet i _
    have hcount := hs.counted i
    have hpair := hs.paired i
    -- no call is in progress: nothing is claimed, awaited, grabbed or stored
    rw [hquiet.tally fun _ => rfl, hquiet.tally fun _ => rfl] at hcount hpair
    have hbetween := drawn_between P i (hquiet.pop_le_push hs)
    have hval : s.queue.val i =
        ((Finset.Ico s.queue.pop_ s.queue.push_).filter (P.slot · = i)).card := by
      have hcount' : s.queue.val i + (0 : Nat) + (drawn P i s.queue.pop_ : Int) =
          (0 : Nat) + (drawn P i s.queue.push_ : Int) := hcount
      omega
    refine ⟨hval, ?_⟩
    have hpair' : (if 1 ≤ s.queue.val i then 1 else 0) =
        (if (s.queue.data i).isSome then 1 else 0) := hpair
    rw [← Option.isSome_iff_ne_none]
    by_cases hsome : (s.queue.data i).isSome
    · rw [if_pos hsome] at hpair'
      have hge : 1 ≤ s.queue.val i := by
        by_contra hlt
        rw [if_neg hlt] at hpair'
        omega
      apply iff_of_true hsome
      omega
    · rw [if_neg hsome] at hpair'
      have hlt : ¬ 1 ≤ s.queue.val i := by
        intro hge
        rw [if_pos hge] at hpair'
        omega
      apply iff_of_false hsome
      omega

/-- The threads of the schedules below: two producers and a consumer. -/
inductive Caller where
  | first | second | consumer
  deriving DecidableEq

instance : Fintype Caller where
  elems := {.first, .second, .consumer}
  complete p := by cases p <;> decide

/-- A push draws a number and stalls; another thread pushes a whole lap, and a
    pop takes the item from the place of the first, which is then claimed. -/
def overtaken : List (Label Caller Nat) :=
  [.push .first 10, .step .first 0] ++ (.push .second 20 :: List.replicate 5 (.step .second 0)) ++
    (.push .second 21 :: List.replicate 5 (.step .second 0)) ++
    (.pop .consumer :: List.replicate 6 (.step .consumer 0)) ++
    [.step .first 0, .step .first 0]

end State

end LFQueue

end BlackSiren

import BlackSiren.LFQueue.Conservation
import BlackSiren.LFQueue.Ints

/-! # `LFQueue::reset`

    A push into a full queue draws a number and raises a counter, but stores
    nothing.  So `reset`, which pops while an item is stored, has to consume such
    numbers too.  With no call in progress the counter of an item says how many
    of them are outstanding, as long as it has not run over.

    - `reset` and `Resets`: the loop, and what is wanted of it
    - `Stocked`: `queued_item_` is the number of cells that are filled, but for the
      calls on their way
    - `Ledger`: the invariant of the loop
    - `Ahead`: queues whose callers cannot tell them apart
    - `resets_of_fitting`: runs after which `reset` does what is wanted
-/

namespace BlackSiren

namespace LFQueue

variable {Pid α : Type}

/-! ### What is wanted -/

/-- `reset`, called while no other call is in progress; the fuel bounds the turns
    of its loop. -/
def reset (P : LFParams) : Nat → LFQueue α → Option (LFQueue α)
  | 0, _ => none
  | fuel + 1, q =>
      if q.queued_item_ > 0 then
        match q.pop P with
        | none => none
        | some (_, _, q) => reset P fuel q.wrapped
      else some q

/-- No number is outstanding, no counter raised, no cell filled. -/
structure Emptied (P : LFParams) (q : LFQueue α) : Prop where
  numbers : q.push_ = q.pop_
  queued : q.queued_item_ = 0
  counters : ∀ i < P.capacity, q.val i = 0
  cells : ∀ i < P.capacity, q.data i = none

namespace State

/-- Nobody in a call. -/
def fresh (q : LFQueue α) : State Pid α where
  queue := q
  pc := fun _ => .idle none
  trace := []

/-- What the callers see: who is in a call, and what the others' last calls have
    returned. -/
def answers (s : State Pid α) (p : Pid) : Option (Option (Ret α)) :=
  match s.pc p with
  | .idle last => some last
  | _ => none

end State

/-- `reset` returns without a wait, with an empty queue, and no threads can tell it
    from a new one. -/
def Resets (Pid : Type) [DecidableEq Pid] [DecidableEq α] (P : LFParams) (q : LFQueue α) : Prop :=
  ∃ turns q', reset P turns q = some q' ∧ Emptied P q' ∧
    ∀ ls : List (Label Pid α), (LTS.exec (State.nextInt P) (.fresh q') ls).map State.answers =
      (LTS.exec (State.nextInt P) .new ls).map State.answers

/-! ### Items stored -/

namespace Pc

/-- A push that has filled its cell and not yet counted it. -/
def arriving : Pc α → Int
  | .pushed _ err => if err = 0 then 1 else 0
  | _ => 0

/-- A pop that has emptied its cell and not yet counted it. -/
def departing : Pc α → Int
  | .popped _ err => if err = 0 then 1 else 0
  | _ => 0

end Pc

/-- The number of cells that are filled. -/
def filled (P : LFParams) (q : LFQueue α) : Int :=
  ∑ i ∈ Finset.range P.capacity, if (q.data i).isSome then 1 else 0

theorem filled_eq {P : LFParams} {q q' : LFQueue α} (h : q'.data = q.data) :
    q'.filled P = q.filled P := by
  unfold filled
  rw [h]

theorem filled_setData (P : LFParams) (q : LFQueue α) (n : Nat) (o : Option α) :
    (q.setData (P.slot n) o).filled P + (if (q.data (P.slot n)).isSome then 1 else 0) =
      q.filled P + if o.isSome then 1 else 0 := by
  have hsum := Totals.sum_update (Finset.mem_range.mpr (P.slot_lt n))
    (fun o : Option α => if o.isSome then (1 : Int) else 0) q.data o
  rw [← data_setData] at hsum
  exact hsum

theorem filled_addVal (P : LFParams) (q : LFQueue α) (i : Nat) (d : Int) :
    (q.addVal i d).filled P = q.filled P :=
  filled_eq (data_addVal q i d)

theorem filled_addWaiters (P : LFParams) (q : LFQueue α) (i : Nat) (d : Int) :
    (q.addWaiters i d).filled P = q.filled P :=
  filled_eq (data_addWaiters q i d)

/-- A push that has left its counter is not at the count of items. -/
theorem incDone_stocked (x : α) (n : Nat) (v : Int) :
    (incDone x n v).1.arriving = 0 ∧ (incDone x n v).1.departing = 0 := by
  unfold incDone
  split
  · exact ⟨rfl, rfl⟩
  · split
    · exact ⟨rfl, rfl⟩
    · exact ⟨rfl, rfl⟩

/-- Neither is a pop. -/
theorem decDone_stocked (n : Nat) (v : Int) :
    (decDone n v : Pc α).arriving = 0 ∧ (decDone n v : Pc α).departing = 0 := by
  unfold decDone
  split
  · exact ⟨rfl, rfl⟩
  · exact ⟨rfl, rfl⟩

/-- What an access adds to the count, to the cells and to the calls on their way. -/
theorem atomic_stocked [DecidableEq α] {P : LFParams} {q : LFQueue α} {errno : Nat} {c : Pc α}
    {r : LFQueue α × Pc α × Option (Event α)} (h : atomic P q errno c = some r) :
    r.1.queued_item_ + r.2.1.arriving + q.filled P + c.departing =
      q.queued_item_ + c.arriving + r.1.filled P + r.2.1.departing := by
  have hacc := access_of_atomic h
  generalize r.1 = q' at hacc ⊢
  generalize r.2.1 = c' at hacc ⊢
  generalize r.2.2 = ev at hacc
  cases hacc with
  | raise x n _ =>
    rw [(incDone_stocked x n _).1, (incDone_stocked x n _).2, filled_addVal]
    rfl
  | add x n =>
    rw [(incDone_stocked x n _).1, (incDone_stocked x n _).2, filled_addVal]
    rfl
  | fill x n hnone =>
    have hfilled := filled_setData P q n (some x)
    rw [hnone] at hfilled
    simp only [Pc.arriving, Pc.departing, Option.isSome_none, Option.isSome_some, if_true,
      Bool.false_eq_true, if_false] at hfilled ⊢
    show q.queued_item_ + 1 + _ + 0 = q.queued_item_ + 0 + _ + 0
    omega
  | count x =>
    show q.queued_item_ + 1 + 0 + q.filled P + 0 = q.queued_item_ + 1 + q.filled P + 0
    omega
  | again x hzero _ => simp [Pc.arriving, Pc.departing, hzero]
  | readNone n waited =>
    cases waited with
    | true => rfl
    | false => rfl
  | lower n waited _ =>
    rw [filled_addVal]
    cases waited with
    | true => rfl
    | false =>
      show _ + (decDone n _ : Pc α).arriving + _ + _ = _ + (decDone n _ : Pc α).departing
      rw [(decDone_stocked n _).1, (decDone_stocked n _).2]
      rfl
  | enter n v =>
    rw [filled_addWaiters]
    rfl
  | timeout n =>
    rw [filled_addVal]
    rfl
  | leave n v =>
    rw [filled_addWaiters, (decDone_stocked n v).1, (decDone_stocked n v).2]
    rfl
  | empty n hsome =>
    have hfilled := filled_setData P q n none
    rw [hsome] at hfilled
    simp only [Pc.arriving, Pc.departing, Option.isSome_none, Option.isSome_some, if_true,
      Bool.false_eq_true, if_false] at hfilled ⊢
    show q.queued_item_ + 0 + _ + 0 = q.queued_item_ + 0 + _ + 1
    omega
  | uncount data =>
    show q.queued_item_ - 1 + 0 + q.filled P + 1 = q.queued_item_ + 0 + q.filled P + 0
    omega
  | fail data hne => simp [Pc.arriving, Pc.departing, hne]
  | _ => rfl

namespace State

variable [Fintype Pid] [DecidableEq Pid] [DecidableEq α]

/-- The items counted, and those about to be, are the items in cells and those just
    taken. -/
def Stocked (P : LFParams) (s : State Pid α) : Prop :=
  s.queue.queued_item_ + ∑ p, (s.pc p).arriving =
    s.queue.filled P + ∑ p, (s.pc p).departing

theorem stocked {P : LFParams} {s : State Pid α} (h : LTS.Reachable (system Pid α P) s) :
    s.Stocked P := by
  refine LTS.invariant (system Pid α P) (Stocked P) ?_ ?_ h
  · intro s hs
    rw [show s = new from hs]
    simp [Stocked, new, LFQueue.new, filled, Pc.arriving, Pc.departing, LFQueue.data]
  · intro s l s' hs hstep
    unfold Stocked at hs ⊢
    have hmove : ∀ (p : Pid) (c : Pc α),
        (∑ q, (Function.update s.pc p c q).arriving) + (s.pc p).arriving =
            (∑ q, (s.pc q).arriving) + c.arriving ∧
          (∑ q, (Function.update s.pc p c q).departing) + (s.pc p).departing =
            (∑ q, (s.pc q).departing) + c.departing := fun p c =>
      ⟨Totals.sum_update (Finset.mem_univ p) Pc.arriving s.pc c,
        Totals.sum_update (Finset.mem_univ p) Pc.departing s.pc c⟩
    have hnext : s.next P l = some s' := hstep
    cases l with
    | push p x =>
      simp only [next] at hnext
      split at hnext
      · next last hpc =>
        cases hnext
        obtain ⟨harr, hdep⟩ := hmove p (.pushDraw x)
        rw [hpc] at harr hdep
        change _ + (0 : Int) = _ + (0 : Int) at harr hdep
        dsimp only
        omega
      · cases hnext
    | pop p =>
      simp only [next] at hnext
      split at hnext
      · next last hpc =>
        cases hnext
        obtain ⟨harr, hdep⟩ := hmove p .popDraw
        rw [hpc] at harr hdep
        change _ + (0 : Int) = _ + (0 : Int) at harr hdep
        dsimp only
        omega
      · cases hnext
    | step p errno =>
      obtain ⟨r, hatom, rfl⟩ := Option.map_eq_some_iff.mp hnext
      obtain ⟨harr, hdep⟩ := hmove p r.2.1
      have hstocked := atomic_stocked hatom
      dsimp only
      omega

end State

/-! ### Outstanding numbers -/

/-- How many of the numbers from `pop_` on, below `push_`, map to item `i`. -/
def outstanding (P : LFParams) (q : LFQueue α) (i : Nat) : Nat :=
  ((Finset.Ico q.pop_ q.push_).filter (P.slot · = i)).card

variable {P : LFParams} {q : LFQueue α}

theorem outstanding_of_eq (h : q.push_ = q.pop_) (i : Nat) : q.outstanding P i = 0 := by
  unfold outstanding
  rw [h, Finset.Ico_self, Finset.filter_empty, Finset.card_empty]

/-- The next number to be popped is one of them. -/
theorem outstanding_pop {r : LFQueue α} (hlt : q.pop_ < q.push_) (hpush : r.push_ = q.push_)
    (hpop : r.pop_ = q.pop_ + 1) (i : Nat) :
    q.outstanding P i = r.outstanding P i + if P.slot q.pop_ = i then 1 else 0 := by
  have hbefore := drawn_between P i (le_of_lt hlt)
  have hafter := drawn_between P i (show q.pop_ + 1 ≤ q.push_ from hlt)
  have hdrawn := drawn_succ P i q.pop_
  unfold outstanding
  rw [hpush, hpop]
  omega

/-- What `reset` starts from and keeps: each counter is the number of numbers
    outstanding, each cell is filled if there are any, and the items stored are
    the cells filled. -/
structure Ledger (P : LFParams) (q : LFQueue α) : Prop where
  drawn : q.pop_ ≤ q.push_
  counters : ∀ i < P.capacity, q.val i = q.outstanding P i
  cells : ∀ i < P.capacity, (q.data i).isSome ↔ 0 < q.outstanding P i
  stored : q.queued_item_ = q.filled P
  range : q.InRange

/-- With no call in progress the queue is in order. -/
theorem State.Quiet.ledger [Fintype Pid] [DecidableEq Pid] [DecidableEq α] {s : State Pid α}
    (h : s.Quiet) (hs : LTS.Reachable (State.system Pid α P) s) (hrange : s.queue.InRange) :
    Ledger P s.queue := by
  have hbalanced := Slots.balanced (State.reachable_slots hs)
  have hle := h.pop_le_push hbalanced
  have hval : ∀ i, s.queue.val i = s.queue.outstanding P i := by
    intro i
    have hcount := hbalanced.counted i
    rw [h.tally fun _ => rfl, h.tally fun _ => rfl] at hcount
    have hbetween := drawn_between P i hle
    have hcount' : s.queue.val i + (0 : Nat) + (LFQueue.drawn P i s.queue.pop_ : Int) =
        (0 : Nat) + (LFQueue.drawn P i s.queue.push_ : Int) := hcount
    unfold outstanding
    omega
  refine ⟨hle, fun i _ => hval i, fun i _ => ?_, ?_, hrange⟩
  · have hpair := hbalanced.paired i
    rw [h.tally fun _ => rfl, h.tally fun _ => rfl] at hpair
    have hpair' : (if 1 ≤ s.queue.val i then 1 else 0) =
        (if (s.queue.data i).isSome then 1 else 0) := hpair
    rw [hval i] at hpair'
    by_cases hsome : (s.queue.data i).isSome
    · rw [if_pos hsome] at hpair'
      refine iff_of_true hsome ?_
      by_contra hzero
      rw [if_neg (by omega)] at hpair'
      omega
    · rw [if_neg hsome] at hpair'
      refine iff_of_false hsome ?_
      intro hpos
      rw [if_pos (by omega)] at hpair'
      omega
  · have hstocked := State.stocked hs
    unfold State.Stocked at hstocked
    have hquiet : ∀ w : Pc α → Int, (∀ last, w (.idle last) = 0) → ∑ p, w (s.pc p) = 0 := by
      intro w hw
      refine Finset.sum_eq_zero fun p _ => ?_
      obtain ⟨last, hpc⟩ := h p
      rw [hpc]
      exact hw last
    rw [hquiet _ fun _ => rfl, hquiet _ fun _ => rfl, add_zero, add_zero] at hstocked
    exact hstocked

/-! ### The loop -/

theorem filled_nonneg (P : LFParams) (q : LFQueue α) : 0 ≤ q.filled P :=
  Finset.sum_nonneg fun i _ => by split <;> decide

theorem filled_pos {i : Nat} (hi : i < P.capacity) (h : (q.data i).isSome) : 0 < q.filled P := by
  have hle := Finset.single_le_sum (f := fun i => if (q.data i).isSome then (1 : Int) else 0)
    (fun i _ => by split <;> decide) (Finset.mem_range.mpr hi)
  rw [if_pos h] at hle
  exact lt_of_lt_of_le Int.one_pos hle

/-- The ledger after the next number to be popped has been taken off. -/
theorem Ledger.next (h : Ledger P q) (hlt : q.pop_ < q.push_) {q' : LFQueue α}
    (hpush : q'.push_ = q.push_) (hpop : q'.pop_ = q.pop_ + 1)
    (hval : q'.val = Function.update q.val (P.slot q.pop_) (q.val (P.slot q.pop_) - 1))
    (hother : ∀ i, i ≠ P.slot q.pop_ → q'.data i = q.data i)
    (hcell : (q'.data (P.slot q.pop_)).isSome ↔ 1 < q.val (P.slot q.pop_))
    (hstored : q'.queued_item_ = q'.filled P) (hless : q'.queued_item_ ≤ q.queued_item_) :
    Ledger P q' := by
  have hslot := P.slot_lt q.pop_
  have hcount := h.counters _ hslot
  have hfirst := outstanding_pop (P := P) hlt hpush hpop (P.slot q.pop_)
  rw [if_pos rfl] at hfirst
  have hrest : ∀ i, i ≠ P.slot q.pop_ → q.outstanding P i = q'.outstanding P i := by
    intro i hi
    rw [outstanding_pop hlt hpush hpop i, if_neg fun heq => hi heq.symm]
    rfl
  refine ⟨by omega, fun i hi => ?_, fun i hi => ?_, hstored, fun i => ?_, ?_⟩
  · by_cases hne : i = P.slot q.pop_
    · rw [hval, hne, Function.update_self]
      omega
    · rw [hval, Function.update_of_ne hne, h.counters i hi, hrest i hne]
  · by_cases hne : i = P.slot q.pop_
    · rw [hne, hcell]
      omega
    · rw [hother i hne, h.cells i hi, hrest i hne]
  · rw [hval]
    by_cases hne : i = P.slot q.pop_
    · rw [hne, Function.update_self]
      exact (h.range.val _).sub_one (by omega)
    · rw [Function.update_of_ne hne]
      exact h.range.val i
  · have hnonneg := filled_nonneg P q'
    have hhi := h.range.queued.2
    exact ⟨by omega, by omega⟩

/-- A pop with a number outstanding consumes it. -/
theorem Ledger.pop (h : Ledger P q) (hlt : q.pop_ < q.push_) :
    ∃ err data q', q.pop P = some (err, data, q') ∧ Ledger P q' ∧
      q'.push_ = q.push_ ∧ q'.pop_ = q.pop_ + 1 := by
  have hslot := P.slot_lt q.pop_
  have hcount := h.counters _ hslot
  have hfirst := outstanding_pop (P := P) hlt (r := { q with pop_ := q.pop_ + 1 }) rfl rfl
    (P.slot q.pop_)
  rw [if_pos rfl] at hfirst
  have hpos : 0 < q.val (P.slot q.pop_) := by omega
  have hdec := LFCounter.dec_of_pos (c := (q.item_ (P.slot q.pop_)).counter_) hpos
  by_cases hone : q.val (P.slot q.pop_) = 1
  · obtain ⟨x, hx⟩ := Option.isSome_iff_exists.mp ((h.cells _ hslot).mpr (by omega))
    obtain ⟨it, hpop, hval, hdata⟩ := LFItem.pop_filled hone hx
    have hdata' := data_setItem q (P.slot q.pop_) it
    rw [hdata] at hdata'
    have hfilled := Totals.sum_update (Finset.mem_range.mpr hslot)
      (fun o : Option α => if o.isSome then (1 : Int) else 0) q.data none
    have hsome : (q.data (P.slot q.pop_)).isSome := by
      rw [show q.data (P.slot q.pop_) = some x from hx]
      rfl
    simp only [hsome, if_true, Option.isSome_none, Bool.false_eq_true, if_false] at hfilled
    have hstored := h.stored
    refine ⟨0, some x, { q with
      pop_ := q.pop_ + 1
      item_ := Function.update q.item_ (P.slot q.pop_) it
      queued_item_ := q.queued_item_ - 1 }, ?_, h.next hlt rfl rfl ?_ ?_ ?_ ?_ ?_, rfl, rfl⟩
    · simp [LFQueue.pop, hpop]
    · refine (val_setItem q (P.slot q.pop_) it).trans ?_
      rw [hval, hone]
      rfl
    · intro i hi
      exact (congrFun hdata' i).trans (Function.update_of_ne hi _ _)
    · refine iff_of_false ?_ (by omega)
      change ¬ ((q.setItem (P.slot q.pop_) it).data (P.slot q.pop_)).isSome = true
      rw [hdata', Function.update_self]
      exact Bool.false_ne_true
    · show q.queued_item_ - 1 = LFQueue.filled P (q.setItem (P.slot q.pop_) it)
      unfold filled at hstored ⊢
      rw [hdata']
      omega
    · show q.queued_item_ - 1 ≤ q.queued_item_
      omega
  · -- the number of a push that was refused
    have hpop : (q.item_ (P.slot q.pop_)).pop = some (-1, none,
        { q.item_ (P.slot q.pop_) with counter_ :=
          { (q.item_ (P.slot q.pop_)).counter_ with val := q.val (P.slot q.pop_) - 1 } }) := by
      unfold LFItem.pop
      rw [hdec]
      exact if_pos hone
    have hdata : (q.addVal (P.slot q.pop_) (-1)).data = q.data := data_addVal _ _ _
    refine ⟨-1, none, { q.addVal (P.slot q.pop_) (-1) with pop_ := q.pop_ + 1 }, ?_,
      h.next hlt rfl rfl (val_addVal _ _ _) ?_ ?_ ?_ (le_refl _), rfl, rfl⟩
    · simp only [LFQueue.pop, hpop]
      rfl
    · intro i _
      exact congrFun hdata i
    · change ((q.addVal (P.slot q.pop_) (-1)).data (P.slot q.pop_)).isSome ↔ _
      rw [hdata, h.cells _ hslot]
      omega
    · exact h.stored.trans (filled_eq hdata).symm

/-- An item is stored only where a number is outstanding. -/
theorem Ledger.outstanding (h : Ledger P q) (hpos : 0 < q.queued_item_) : q.pop_ < q.push_ := by
  apply lt_of_le_of_ne h.drawn
  intro heq
  have hzero : q.filled P = 0 := by
    refine Finset.sum_eq_zero fun i hi => if_neg ?_
    rw [h.cells i (Finset.mem_range.mp hi), outstanding_of_eq heq.symm]
    exact Nat.lt_irrefl 0
  rw [h.stored, hzero] at hpos
  exact lt_irrefl 0 hpos

/-- With no item stored none is outstanding. -/
theorem Ledger.emptied (h : Ledger P q) (hzero : ¬ 0 < q.queued_item_) : Emptied P q := by
  have hstored := h.stored
  have hnonneg := filled_nonneg P q
  have hnumbers : q.push_ = q.pop_ := by
    by_contra hne
    have hlt : q.pop_ < q.push_ := lt_of_le_of_ne h.drawn fun heq => hne heq.symm
    have hfirst := outstanding_pop (P := P) hlt (r := { q with pop_ := q.pop_ + 1 }) rfl rfl
      (P.slot q.pop_)
    rw [if_pos rfl] at hfirst
    have hfilled := filled_pos (P.slot_lt q.pop_) ((h.cells _ (P.slot_lt _)).mpr (by omega))
    omega
  have hnone := outstanding_of_eq (P := P) hnumbers
  refine ⟨hnumbers, by omega, fun i hi => ?_, fun i hi => ?_⟩
  · rw [h.counters i hi, hnone]
    rfl
  · rw [← Option.not_isSome_iff_eq_none, h.cells i hi, hnone]
    exact Nat.lt_irrefl 0

/-- The loop consumes a number in each turn. -/
theorem Ledger.reset (h : Ledger P q) :
    ∃ turns q', reset P turns q = some q' ∧ Ledger P q' ∧ Emptied P q' := by
  obtain ⟨n, hn⟩ : ∃ n, q.push_ - q.pop_ = n := ⟨_, rfl⟩
  induction n generalizing q with
  | zero =>
    have hzero : ¬ 0 < q.queued_item_ := by
      intro hpos
      have := h.outstanding hpos
      omega
    exact ⟨1, q, if_neg hzero, h, h.emptied hzero⟩
  | succ n ih =>
    by_cases hpos : 0 < q.queued_item_
    · obtain ⟨err, data, q₁, hpop, hledger, hpush₁, hpop₁⟩ := h.pop (h.outstanding hpos)
      obtain ⟨turns, q', hreset, hq'⟩ := ih hledger (by omega)
      refine ⟨turns + 1, q', ?_, hq'⟩
      simp only [LFQueue.reset, gt_iff_lt, hpos, if_true, hpop, hledger.range.wrapped]
      exact hreset
    · exact ⟨1, q, if_neg hpos, h, h.emptied hpos⟩

/-! ### Like a new queue -/

/-- The same point of a call whose number is `d` further on. -/
def Pc.ahead (d : Nat) : Pc α → Pc α
  | .incRead x n => .incRead x (d + n)
  | .incCas x n v => .incCas x (d + n) v
  | .incAdd x n => .incAdd x (d + n)
  | .store x n => .store x (d + n)
  | .decRead n waited => .decRead (d + n) waited
  | .decCas n waited v => .decCas (d + n) waited v
  | .waitEnter n v => .waitEnter (d + n) v
  | .futexWait n v => .futexWait (d + n) v
  | .decAdd n => .decAdd (d + n)
  | .waitLeave n v => .waitLeave (d + n) v
  | .take n => .take (d + n)
  | .takeCas n x => .takeCas (d + n) x
  | c => c

/-- The same queue, `d` numbers further on. -/
structure Ahead (P : LFParams) (d : Nat) (q q₀ : LFQueue α) : Prop where
  push_ : q.push_ = d + q₀.push_
  pop_ : q.pop_ = d + q₀.pop_
  queued : q.queued_item_ = q₀.queued_item_
  val : ∀ n, q.val (P.slot (d + n)) = q₀.val (P.slot n)
  data : ∀ n, q.data (P.slot (d + n)) = q₀.data (P.slot n)

section

variable {d : Nat} {q₀ : LFQueue α}

theorem slot_add_inj (P : LFParams) (d n t : Nat) :
    P.slot (d + t) = P.slot (d + n) ↔ P.slot t = P.slot n := by
  rw [P.slot_eq, P.slot_eq, P.slot_eq, P.slot_eq]
  exact ⟨Nat.ModEq.add_left_cancel' d, Nat.ModEq.add_left d⟩

/-- Functions on the items stay aligned when the same one is changed in both. -/
theorem aligned_update {β : Type} {f g : Nat → β} (h : ∀ n, f (P.slot (d + n)) = g (P.slot n))
    (n : Nat) (b : β) (t : Nat) :
    Function.update f (P.slot (d + n)) b (P.slot (d + t)) =
      Function.update g (P.slot n) b (P.slot t) := by
  by_cases ht : P.slot t = P.slot n
  · rw [(slot_add_inj P d n t).mpr ht, ht, Function.update_self, Function.update_self]
  · rw [Function.update_of_ne fun heq => ht ((slot_add_inj P d n t).mp heq),
      Function.update_of_ne ht, h]

theorem Ahead.addVal (h : Ahead P d q q₀) (n : Nat) (v : Int) :
    Ahead P d (q.addVal (P.slot (d + n)) v) (q₀.addVal (P.slot n) v) := by
  refine ⟨h.push_, h.pop_, h.queued, fun t => ?_, fun t => ?_⟩
  · rw [val_addVal, val_addVal, h.val]
    exact aligned_update h.val n _ t
  · rw [data_addVal, data_addVal]
    exact h.data t

theorem Ahead.addWaiters (h : Ahead P d q q₀) (n : Nat) (v : Int) :
    Ahead P d (q.addWaiters (P.slot (d + n)) v) (q₀.addWaiters (P.slot n) v) := by
  refine ⟨h.push_, h.pop_, h.queued, fun t => ?_, fun t => ?_⟩
  · rw [val_addWaiters, val_addWaiters]
    exact h.val t
  · rw [data_addWaiters, data_addWaiters]
    exact h.data t

theorem Ahead.setData (h : Ahead P d q q₀) (n : Nat) (o : Option α) :
    Ahead P d (q.setData (P.slot (d + n)) o) (q₀.setData (P.slot n) o) := by
  refine ⟨h.push_, h.pop_, h.queued, fun t => ?_, fun t => ?_⟩
  · rw [val_setData, val_setData]
    exact h.val t
  · rw [data_setData, data_setData]
    exact aligned_update h.data n o t

theorem Ahead.wrapped (h : Ahead P d q q₀) : Ahead P d q.wrapped q₀.wrapped where
  push_ := h.push_
  pop_ := h.pop_
  queued := congrArg wrapInt h.queued
  val n := congrArg wrapInt (h.val n)
  data n := h.data n

theorem incDone_ahead (d : Nat) (x : α) (n : Nat) (v : Int) :
    (incDone x (d + n) v).1 = (incDone x n v).1.ahead d := by
  unfold incDone
  split
  · rfl
  · split
    · rfl
    · rfl

theorem decDone_ahead (d n : Nat) (v : Int) :
    (decDone (d + n) v : Pc α) = (decDone n v).ahead d := by
  unfold decDone
  split
  · rfl
  · rfl

/-- Corresponding accesses. -/
theorem Ahead.atomic [DecidableEq α] (h : Ahead P d q q₀) (errno : Nat) (c : Pc α) :
    Option.Rel (fun r r₀ => Ahead P d r.1 r₀.1 ∧ r.2.1 = r₀.2.1.ahead d)
      (atomic P q errno (c.ahead d)) (atomic P q₀ errno c) := by
  cases c with
  | idle last => exact .none
  | pushDraw x =>
    exact .some ⟨⟨congrArg (· + 1) h.push_, h.pop_, h.queued, h.val, h.data⟩,
      congrArg (Pc.incRead x) h.push_⟩
  | incRead x n =>
    simp only [Pc.ahead, LFQueue.atomic, h.val]
    refine .some ⟨h, ?_⟩
    dsimp only
    split
    · rfl
    · rfl
  | incCas x n v =>
    simp only [Pc.ahead, LFQueue.atomic, h.val]
    split
    · exact .some ⟨h.addVal n 1, incDone_ahead d x n v⟩
    · exact .some ⟨h, rfl⟩
  | incAdd x n =>
    simp only [Pc.ahead, LFQueue.atomic, h.val]
    exact .some ⟨h.addVal n 1, incDone_ahead d x n _⟩
  | store x n =>
    simp only [Pc.ahead, LFQueue.atomic, h.data]
    cases q₀.data (P.slot n) with
    | none => exact .some ⟨h.setData n (some x), rfl⟩
    | some y => exact .some ⟨h, rfl⟩
  | pushed x err =>
    simp only [Pc.ahead, LFQueue.atomic]
    split
    · exact .some ⟨⟨h.push_, h.pop_, congrArg (· + 1) h.queued, h.val, h.data⟩, rfl⟩
    · split
      · exact .some ⟨h, rfl⟩
      · split
        · exact .some ⟨h, rfl⟩
        · exact .some ⟨h, rfl⟩
  | popDraw =>
    exact .some ⟨⟨h.push_, congrArg (· + 1) h.pop_, h.queued, h.val, h.data⟩,
      congrArg (fun n => Pc.decRead n false) h.pop_⟩
  | decRead n waited =>
    simp only [Pc.ahead, LFQueue.atomic, h.val]
    split
    · exact .some ⟨h, rfl⟩
    · refine .some ⟨h, ?_⟩
      cases waited with
      | true => rfl
      | false => rfl
  | decCas n waited v =>
    simp only [Pc.ahead, LFQueue.atomic, h.val]
    split
    · refine .some ⟨h.addVal n (-1), ?_⟩
      cases waited with
      | true => rfl
      | false => exact decDone_ahead d n v
    · exact .some ⟨h, rfl⟩
  | waitEnter n v => exact .some ⟨h.addWaiters n 1, rfl⟩
  | futexWait n v =>
    simp only [Pc.ahead, LFQueue.atomic]
    split
    · exact .some ⟨h, rfl⟩
    · exact .some ⟨h, rfl⟩
  | decAdd n =>
    simp only [Pc.ahead, LFQueue.atomic, h.val]
    exact .some ⟨h.addVal n (-1), rfl⟩
  | waitLeave n v => exact .some ⟨h.addWaiters n (-1), decDone_ahead d n v⟩
  | take n =>
    simp only [Pc.ahead, LFQueue.atomic, h.data]
    cases q₀.data (P.slot n) with
    | none => exact .some ⟨h, rfl⟩
    | some y => exact .some ⟨h, rfl⟩
  | takeCas n x =>
    simp only [Pc.ahead, LFQueue.atomic, h.data]
    split
    · exact .some ⟨h.setData n none, rfl⟩
    · exact .some ⟨h, rfl⟩
  | popped data err =>
    simp only [Pc.ahead, LFQueue.atomic]
    refine .some ⟨?_, rfl⟩
    dsimp only
    split
    · exact ⟨h.push_, h.pop_, congrArg (· - 1) h.queued, h.val, h.data⟩
    · exact h

end

namespace State

variable [DecidableEq Pid] [DecidableEq α] {d : Nat}

/-- Corresponding states. -/
structure Ahead (P : LFParams) (d : Nat) (s s₀ : State Pid α) : Prop where
  queue : LFQueue.Ahead P d s.queue s₀.queue
  pc : ∀ p, s.pc p = (s₀.pc p).ahead d

omit [DecidableEq Pid] [DecidableEq α] in
/-- They give the same answers. -/
theorem Ahead.answers {s s₀ : State Pid α} (h : Ahead P d s s₀) : s.answers = s₀.answers := by
  funext p
  unfold State.answers
  rw [h.pc p]
  cases s₀.pc p with
  | _ => rfl

omit [DecidableEq α] in
/-- The thread that moves, and the others. -/
theorem Ahead.update {s s₀ : State Pid α} (h : Ahead P d s s₀) (p : Pid) (c : Pc α) (r : Pid) :
    Function.update s.pc p (c.ahead d) r = (Function.update s₀.pc p c r).ahead d := by
  by_cases hr : r = p
  · rw [hr, Function.update_self, Function.update_self]
  · rw [Function.update_of_ne hr, Function.update_of_ne hr, h.pc]

/-- Corresponding steps. -/
theorem Ahead.nextInt {s s₀ : State Pid α} (h : Ahead P d s s₀) (l : Label Pid α) :
    Option.Rel (Ahead P d) (s.nextInt P l) (s₀.nextInt P l) := by
  unfold State.nextInt
  cases l with
  | push p x =>
    simp only [next, h.pc p]
    cases s₀.pc p with
    | idle last => exact .some ⟨h.queue.wrapped, h.update p (.pushDraw x)⟩
    | _ => exact .none
  | pop p =>
    simp only [next, h.pc p]
    cases s₀.pc p with
    | idle last => exact .some ⟨h.queue.wrapped, h.update p .popDraw⟩
    | _ => exact .none
  | step p errno =>
    have hatom := h.queue.atomic errno (s₀.pc p)
    simp only [next, h.pc p]
    generalize atomic P s.queue errno ((s₀.pc p).ahead d) = r at hatom ⊢
    generalize atomic P s₀.queue errno (s₀.pc p) = r₀ at hatom ⊢
    cases hatom with
    | none => exact .none
    | some hr =>
      refine .some ⟨hr.1.wrapped, fun p' => ?_⟩
      dsimp only
      rw [hr.2]
      exact h.update p _ p'

/-- Corresponding schedules. -/
theorem Ahead.exec {s s₀ : State Pid α} (h : Ahead P d s s₀) (ls : List (Label Pid α)) :
    (LTS.exec (State.nextInt P) s ls).map State.answers =
      (LTS.exec (State.nextInt P) s₀ ls).map State.answers := by
  induction ls generalizing s s₀ with
  | nil => exact congrArg some h.answers
  | cons l ls ih =>
    have hstep := h.nextInt l
    simp only [LTS.exec]
    generalize s.nextInt P l = r at hstep ⊢
    generalize s₀.nextInt P l = r₀ at hstep ⊢
    cases hstep with
    | none => rfl
    | some hnext => exact ih hnext

end State

/-- An empty queue is a new one, as many numbers further on as it has drawn. -/
theorem Emptied.ahead (h : Emptied P q) : Ahead P q.push_ q new where
  push_ := rfl
  pop_ := h.numbers.symm
  queued := h.queued
  val _ := h.counters _ (P.slot_lt _)
  data _ := h.cells _ (P.slot_lt _)

/-! ### Runs -/

/-- After a run whose steps run no `int` over, with no call in progress, `reset`
    does what is wanted. -/
theorem resets_of_fitting [Fintype Pid] [DecidableEq Pid] [DecidableEq α] {s : State Pid α}
    (h : LTS.Reachable ((State.intSystem Pid α P).restrict (State.Fitting P)) s)
    (hquiet : s.Quiet) : Resets Pid P s.queue := by
  obtain ⟨hreach, hrange⟩ := State.fits h
  obtain ⟨turns, q', hreset, -, hempty⟩ := (hquiet.ledger hreach hrange).reset
  refine ⟨turns, q', hreset, hempty, fun ls => ?_⟩
  have hahead : State.Ahead P q'.push_ (State.fresh q' : State Pid α) State.new :=
    ⟨hempty.ahead, fun _ => rfl⟩
  exact hahead.exec ls

namespace State

/-- A queue of one. -/
def single : LFParams := ⟨0, 64, by decide⟩

/-- Two pushes into it, the second refused. -/
def refusedOnce : List (Label Unit Nat) :=
  (.push () 10 :: List.replicate 5 (.step () 0)) ++ (.push () 20 :: List.replicate 4 (.step () 0))

theorem resets_refusedOnce :
    ∃ s, LTS.exec (LTS.guarded (Fitting single) (nextInt single)) new refusedOnce = some s ∧
      Resets Unit single s.queue := by
  obtain ⟨s, hs⟩ := Option.isSome_iff_exists.mp
    (show (LTS.exec (LTS.guarded (Fitting single) (nextInt single)) new refusedOnce).isSome by
      decide +kernel)
  have hpc : (LTS.exec (LTS.guarded (Fitting single) (nextInt single)) new refusedOnce).map
      (fun s => s.pc ()) = some (.idle (some (.push 0))) := by decide +kernel
  rw [hs] at hpc
  exact ⟨s, hs, resets_of_fitting (LTS.reachable_restrict_of_guarded rfl hs) fun _ =>
    ⟨_, Option.some.inj hpc⟩⟩

/-- The step does not begin to wait. -/
def NoWait (s : State Pid α) : Label Pid α → Prop
  | .step p _ => ∀ n v, s.pc p ≠ .waitEnter n v
  | _ => True

/-- The step begins to wait. -/
def beginsToWait (s : State Pid α) : Label Pid α → Bool
  | .step p _ =>
      match s.pc p with
      | .waitEnter _ _ => true
      | _ => false
  | _ => false

theorem noWait_iff (s : State Pid α) (l : Label Pid α) : s.beginsToWait l = false ↔ s.NoWait l := by
  cases l with
  | step p errno =>
    unfold beginsToWait NoWait
    dsimp only
    generalize s.pc p = c
    cases c with
    | waitEnter n v =>
      constructor
      · intro h
        cases h
      · intro h
        exact absurd rfl (h n v)
    | _ =>
      constructor
      · intro _ n v h
        cases h
      · intro _
        rfl
  | _ => exact ⟨fun _ => trivial, fun _ => rfl⟩

instance decidableNoWait (s : State Pid α) (l : Label Pid α) : Decidable (s.NoWait l) :=
  decidable_of_iff _ (noWait_iff s l)

/-! ### A counter that runs over -/

theorem single_slot (n : Nat) : single.slot n = 0 := by
  rw [single.slot_eq]
  exact Nat.mod_one n

/-- What one thread reaches without a wait. -/
abbrev Alone (s : State Unit Nat) : Prop :=
  LTS.Reachable ((intSystem Unit Nat single).restrict NoWait) s

/-- Its next call. -/
theorem Alone.push {s : State Unit Nat} (h : Alone s) {last : Option (Ret Nat)}
    (hpc : s.pc () = .idle last) (x : Nat) :
    ∃ s', Alone s' ∧ s'.queue = s.queue ∧ s'.pc () = .pushDraw x := by
  refine ⟨⟨s.queue.wrapped, Function.update s.pc () (.pushDraw x), s.trace ++ [((), .called x)]⟩,
    LTS.Reachable.step (.push () x) h ⟨trivial, ?_⟩, (inRange h.of_restrict).wrapped,
    Function.update_self () (Pc.pushDraw x) s.pc⟩
  show s.nextInt single (.push () x) = _
  unfold nextInt
  simp only [next, hpc, Option.map_some]

/-- Its next access. -/
theorem Alone.access {s : State Unit Nat} (h : Alone s) {c : Pc Nat} (hpc : s.pc () = c)
    (hwait : ∀ n v, c ≠ .waitEnter n v) {r : LFQueue Nat × Pc Nat × Option (Event Nat)}
    (hatom : atomic single s.queue 0 c = some r) :
    ∃ s', Alone s' ∧ s'.queue = r.1.wrapped ∧ s'.pc () = r.2.1 := by
  refine ⟨⟨r.1.wrapped, Function.update s.pc () r.2.1, s.trace ++ (r.2.2.map ((), ·)).toList⟩,
    LTS.Reachable.step (.step () 0) h ⟨fun n v => ?_, ?_⟩, rfl,
    Function.update_self () r.2.1 s.pc⟩
  · rw [hpc]
    exact hwait n v
  · show s.nextInt single (.step () 0) = _
    unfold nextInt
    simp only [next, hpc, hatom, Option.map_some]

/-- It draws a number for its push. -/
theorem Alone.draw {s : State Unit Nat} (h : Alone s) {last : Option (Ret Nat)}
    (hpc : s.pc () = .idle last) (x : Nat) :
    ∃ s', Alone s' ∧ s'.queue = { s.queue with push_ := s.queue.push_ + 1 } ∧
      s'.pc () = .incRead x s.queue.push_ := by
  obtain ⟨s₁, h₁, hq₁, hpc₁⟩ := h.push hpc x
  obtain ⟨s₂, h₂, hq₂, hpc₂⟩ := h₁.access hpc₁ (by simp) rfl
  rw [hq₁] at hq₂ hpc₂
  have hrange := inRange h.of_restrict
  exact ⟨s₂, h₂, hq₂.trans (InRange.wrapped ⟨hrange.val, hrange.queued⟩), hpc₂⟩

/-- A push that is refused. -/
theorem Alone.refused {s : State Unit Nat} (h : Alone s) {last : Option (Ret Nat)}
    (hpc : s.pc () = .idle last) (hpos : 0 < s.queue.val 0) :
    ∃ s', Alone s' ∧ s'.pc () = .idle (some (.push 0)) ∧
      s'.queue.val 0 = wrapInt (s.queue.val 0 + 1) ∧
      s'.queue.queued_item_ = s.queue.queued_item_ := by
  have hrange := inRange h.of_restrict
  obtain ⟨s₂, h₂, hq₂, hpc₂⟩ := h.draw hpc 0
  have hval₂ : s₂.queue.val = s.queue.val := by
    rw [hq₂]
    rfl
  -- the counter is above 0
  obtain ⟨s₃, h₃, hq₃, hpc₃⟩ := h₂.access hpc₂ (by simp) rfl
  rw [(inRange h₂.of_restrict).wrapped] at hq₃
  rw [hval₂, single_slot] at hpc₃
  have hpc₃' : s₃.pc () = .incAdd 0 s.queue.push_ := hpc₃.trans (if_neg (by omega))
  -- it goes up
  obtain ⟨s₄, h₄, hq₄, hpc₄⟩ := h₃.access hpc₃' (by simp) rfl
  rw [hq₃, single_slot] at hq₄ hpc₄
  have hpc₄' : s₄.pc () = .pushed 0 (-2) := by
    refine hpc₄.trans ?_
    rw [hval₂]
    simp [incDone, hpos, not_lt.mpr (le_of_lt hpos)]
  -- and the push returns
  obtain ⟨s₅, h₅, hq₅, hpc₅⟩ := h₄.access hpc₄' (by simp) rfl
  replace hq₅ : s₅.queue = s₄.queue := hq₅.trans (inRange h₄.of_restrict).wrapped
  refine ⟨s₅, h₅, hpc₅, ?_, ?_⟩
  · rw [hq₅, hq₄]
    show wrapInt ((s₂.queue.addVal 0 1).val 0) = _
    rw [val_addVal, Function.update_self, hval₂]
  · rw [hq₅, hq₄, hq₂]
    exact wrapInt_eq hrange.queued

/-- As many pushes as an `int` counts. -/
theorem alone_pushes (n : Nat) (hn : n < 2147483647) :
    ∃ s, Alone s ∧ s.pc () = .idle (some (.push 0)) ∧ s.queue.val 0 = n + 1 ∧
      s.queue.queued_item_ = 1 := by
  induction n with
  | zero =>
    -- the first push stores its item
    obtain ⟨s, hs⟩ := Option.isSome_iff_exists.mp
      (show (LTS.exec (LTS.guarded NoWait (nextInt single)) (new : State Unit Nat)
        (.push () 0 :: List.replicate 5 (.step () 0))).isSome by decide +kernel)
    have hseen : (LTS.exec (LTS.guarded NoWait (nextInt single)) (new : State Unit Nat)
        (.push () 0 :: List.replicate 5 (.step () 0))).map
        (fun s => (s.pc (), s.queue.val 0, s.queue.queued_item_)) =
          some (.idle (some (.push 0)), 1, 1) := by decide +kernel
    rw [hs] at hseen
    obtain ⟨hpc, hrest⟩ := Prod.mk.inj (Option.some.inj hseen)
    obtain ⟨hval, hqueued⟩ := Prod.mk.inj hrest
    exact ⟨s, LTS.reachable_restrict_of_guarded rfl hs, hpc, hval, hqueued⟩
  | succ n ih =>
    obtain ⟨s, h, hpc, hval, hqueued⟩ := ih (by omega)
    obtain ⟨s', h', hpc', hval', hqueued'⟩ := h.refused hpc (by omega)
    refine ⟨s', h', hpc', ?_, hqueued'.trans hqueued⟩
    rw [hval', hval, wrapInt_eq ⟨by omega, by omega⟩]
    push_cast
    rfl

end State

/-- After one more push than an `int` counts `reset` waits for ever. -/
theorem overrun_not_resets : ¬ ∀ (P : LFParams) (s : State Unit Nat),
    LTS.Reachable ((State.intSystem Unit Nat P).restrict State.NoWait) s → s.Quiet →
      Resets Unit P s.queue := by
  intro hall
  obtain ⟨s, h, hpc, hval, hqueued⟩ := State.alone_pushes 2147483646 (by decide)
  obtain ⟨s', h', hpc', hval', hqueued'⟩ := h.refused hpc (by omega)
  obtain ⟨turns, q', hreset, -⟩ := hall State.single s' h' fun _ => ⟨_, hpc'⟩
  rw [hval] at hval'
  have hnegative : (s'.queue.item_ 0).counter_.val = -2147483648 := hval'
  have hitem : (s'.queue.item_ 0).pop = none := by
    simp [LFItem.pop, LFCounter.dec, LFCounter.decIfGt0, hnegative]
  have hpop : s'.queue.pop State.single = none := by
    simp only [LFQueue.pop, State.single_slot, hitem]
  cases turns with
  | zero => cases hreset
  | succ turns =>
    simp only [LFQueue.reset, hqueued', hqueued, hpop] at hreset
    cases hreset

end LFQueue

end BlackSiren

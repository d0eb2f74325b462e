import BlackSiren.LFQueue.Ints
import BlackSiren.LFQueue.Progress

/-! # `LFQueue`: sleeping and waking with counters of 32 bits

    A counter that has run over is below 0 although its cell is filled, so pops fall
    asleep at it and nobody is about to wake them.  In runs that run no counter over,
    and with fewer threads than an `int` counts, nothing of the kind happens.

    - `State.nextInt`, `State.intSystem`: the steps of `BlackSiren.LFQueue.Futex` with
      the `int`s in range
    - `State.reachable_recount`: the states of such runs
    - `no_lost_wakeup`: no wake-up is lost in them
    - `State.Room`: every counter has room for the pushes in progress
    - `can_rest`: then the calls in progress can be brought to rest
-/

namespace BlackSiren

namespace LFQueue

variable {Pid α : Type}

/-- The item with the waiters of its counter in range. -/
def wrapWaiters (it : LFItem α) : LFItem α :=
  { it with counter_ := { it.counter_ with waiters := wrapInt it.counter_.waiters } }

/-- The queue with every `int` in range. -/
def allWrapped (q : LFQueue α) : LFQueue α :=
  { q.wrapped with item_ := fun i => wrapWaiters (q.wrapped.item_ i) }

/-- With the counters and their waiters in range only the count of the items is put
    back in range. -/
theorem allWrapped_eq {q : LFQueue α} (hval : ∀ i, InInt (q.val i))
    (hwaiters : ∀ i, InInt (q.waiters i)) : q.allWrapped = q.recount (wrapInt q.queued_item_) := by
  have hitems : (fun i => wrapWaiters (q.item_ i)) = q.item_ := by
    funext i
    have hsame : wrapInt (q.item_ i).counter_.waiters = (q.item_ i).counter_.waiters :=
      wrapInt_eq (hwaiters i)
    unfold wrapWaiters
    rw [hsame]
  unfold allWrapped
  rw [wrapped_of_inInt hval]
  show { q.recount (wrapInt q.queued_item_) with item_ := fun i => wrapWaiters (q.item_ i) } = _
  rw [hitems]
  rfl

/-! ### Waiters -/

theorem Pc.waiting_le (P : LFParams) (i : Nat) (c : Pc α) : c.waiting P i ≤ 1 := by
  unfold waiting
  split
  all_goals omega

/-- There are no more waiters than threads. -/
theorem State.waiters_inInt [Fintype Pid] [DecidableEq Pid] [DecidableEq α] {P : LFParams}
    {s : State Pid α} (hthreads : Fintype.card Pid < 2147483648)
    (h : LTS.Reachable (system Pid α P) s) (i : Nat) : InInt (s.queue.waiters i) := by
  have hle : ∑ p, (s.pc p).waiting P i ≤ ∑ _p : Pid, (1 : Int) :=
    Finset.sum_le_sum fun p _ => (s.pc p).waiting_le P i
  have hnonneg : 0 ≤ ∑ p, (s.pc p).waiting P i :=
    Finset.sum_nonneg fun p _ => (s.pc p).waiting_nonneg P i
  rw [← waiters_eq h] at hle hnonneg
  rw [Finset.sum_const, Finset.card_univ, nsmul_eq_mul, mul_one] at hle
  exact ⟨by omega, by omega⟩

/-! ### Room -/

/-- Pushes that are yet to raise a counter. -/
def Phase.raises : Phase α → Nat
  | .asking _ => 1
  | .claiming _ _ => 1
  | _ => 0

/-- What an action of a call in progress adds to a counter its push has still to
    raise. -/
theorem Act.raises {P : LFParams} {m m' : Memory α} {f f' : Phase α} {ev : Option (Event α)}
    (h : Act P m f m' f' ev) (hcall : ∀ last, f ≠ .idle last) (hm : ∀ i, 0 ≤ m.val i) (i : Nat) :
    m'.val i + f'.raises ≤ m.val i + f.raises := by
  -- a counter that changes by one
  have hupdate : ∀ (n : Nat) (v : Int), v ≤ m.val (P.slot n) + 1 →
      Function.update m.val (P.slot n) v i ≤ m.val i + 1 := by
    intro n v hv
    by_cases hi : i = P.slot n
    · rw [hi, Function.update_self]
      exact hv
    · rw [Function.update_of_ne hi]
      omega
  cases h with
  | call last x => exact absurd rfl (hcall last)
  | want last => exact absurd rfl (hcall last)
  | accept x n hzero => exact (add_zero _).trans_le (hupdate n 1 (by omega))
  | overflow x n hpos => exact (add_zero _).trans_le (hupdate n _ le_rfl)
  | retry x n hneg =>
    have := hm (P.slot n)
    omega
  | lower n hpos =>
    have hraises : (Phase.lowered n (m.val (P.slot n)) : Phase α).raises = 0 := by
      unfold Phase.lowered
      split <;> rfl
    rw [hraises]
    show Function.update m.val (P.slot n) (m.val (P.slot n) - 1) i + 0 ≤ m.val i + 0
    by_cases hi : i = P.slot n
    · rw [hi, Function.update_self]
      omega
    · rw [Function.update_of_ne hi]
  | _ => exact le_rfl

namespace State

variable [Fintype Pid]

/-- Every counter has room for the pushes in progress. -/
def Room (P : LFParams) (s : State Pid α) : Prop :=
  ∀ i < P.capacity, s.queue.val i + s.slots.tally Phase.raises ≤ 2147483647

instance decidableRoom (P : LFParams) (s : State Pid α) : Decidable (s.Room P) := by
  unfold Room
  infer_instance

/-- Then the next access runs none over. -/
theorem Room.fits {P : LFParams} {s : State Pid α} (h : s.Room P) (p : Pid) :
    (s.pc p).Fits P s.queue := by
  unfold Pc.Fits
  split
  · next x n hpc =>
    have hroom := h (P.slot n) (P.slot_lt n)
    have hone : (s.slots.phase p).raises = 1 := by
      show (s.pc p).phase.raises = 1
      rw [hpc]
      rfl
    have hle : (s.slots.phase p).raises ≤ s.slots.tally Phase.raises :=
      Finset.single_le_sum (f := fun r => (s.slots.phase r).raises) (fun _ _ => Nat.zero_le _)
        (Finset.mem_univ p)
    omega
  · trivial

variable [DecidableEq Pid] [DecidableEq α]

/-- And leaves the others their room. -/
theorem Room.next {P : LFParams} {s s' : State Pid α} {p : Pid} {errno : Nat}
    (h : s.Room P) (hok : (s.pc p).Ok) (hnonneg : ∀ i, 0 ≤ s.queue.val i)
    (hnext : s.next P (.step p errno) = some s') : s'.Room P := by
  obtain ⟨⟨q', c', ev⟩, hatom, rfl⟩ := Option.map_eq_some_iff.mp hnext
  intro i hi
  have hroom := h i hi
  have hmove := s.slots_move p q' c' ev
  have htally := s.slots.tally_after Phase.raises p q'.memory c'.phase ev
  show q'.memory.val i + ((State.slots ⟨q', Function.update s.pc p c', _⟩).tally Phase.raises : Nat)
    ≤ _
  rw [hmove]
  have hphase : s.slots.phase p = (s.pc p).phase := rfl
  rw [hphase] at htally
  have hval : s.queue.memory.val i = s.queue.val i := rfl
  rcases (atomic_act hok hatom).2 with ⟨hmem, hsame, -⟩ | hact
  · rw [hmem, hsame] at htally ⊢
    omega
  · -- no access of a call is the call
    have hbusy : ∀ last, s.pc p ≠ .idle last := by
      intro last hidle
      rw [hidle] at hatom
      cases hatom
    have hraises := hact.raises (phase_ne_idle hbusy) hnonneg i
    omega

end State

namespace Futex

namespace State

/-! ### The steps -/

/-- The state with another count of the items. -/
def recount (s : State Pid α) (m : Int) : State Pid α := { s with queue := s.queue.recount m }

/-- The step does not run the counter of an item over. -/
def CountersFit (P : LFParams) (s : State Pid α) : Label Pid α → Prop
  | .step p _ =>
      match s.pt p with
      | .run c => c.Fits P s.queue
      | _ => True
  | _ => True

instance decidableCountersFit (P : LFParams) (s : State Pid α) (l : Label Pid α) :
    Decidable (s.CountersFit P l) := by
  unfold CountersFit
  cases l with
  | step p errno =>
    dsimp only
    cases s.pt p with
    | run c =>
      cases c with
      | incAdd x n => exact inferInstanceAs (Decidable (_ ≠ _))
      | _ => exact isTrue trivial
    | _ => exact isTrue trivial
  | _ => exact isTrue trivial

variable [DecidableEq Pid] [DecidableEq α]

/-- A step; it adds to one `int` at most. -/
def nextInt (P : LFParams) (s : State Pid α) (l : Label Pid α) : Option (State Pid α) :=
  (s.next P l).map fun s => { s with queue := s.queue.allWrapped }

/-- Any number of threads, any order of steps. -/
def intSystem (Pid α : Type) [DecidableEq Pid] [DecidableEq α] (P : LFParams) :
    LTS.System (State Pid α) (Label Pid α) :=
  .ofFn (· = new) (nextInt P)

/-- The same step. -/
theorem next_recount {P : LFParams} {s s' : State Pid α} {l : Label Pid α}
    (h : s.next P l = some s') (m : Int) : ∃ m', (s.recount m).next P l = some (s'.recount m') := by
  cases step_cases h with
  | push p x hpt =>
    refine ⟨m, ?_⟩
    have hpt' : (s.recount m).pt p = _ := hpt
    simp only [next, hpt']
    rfl
  | pop p hpt =>
    refine ⟨m, ?_⟩
    have hpt' : (s.recount m).pt p = _ := hpt
    simp only [next, hpt']
    rfl
  | @access p errno c c' q ev hpt hwait hatom =>
    obtain ⟨m', hatom'⟩ := atomic_recount hatom m
    refine ⟨m', ?_⟩
    have hpt' : (s.recount m).pt p = .run c := hpt
    have hqueue : (s.recount m).queue = s.queue.recount m := rfl
    simp only [next, hpt', State.access, hqueue, hatom']
    rfl
  | sleep p errno hpt hval =>
    refine ⟨m, ?_⟩
    have hpt' : (s.recount m).pt p = _ := hpt
    simp only [next, hpt']
    exact if_pos hval
  | stale p errno hpt hval =>
    refine ⟨m, ?_⟩
    have hpt' : (s.recount m).pt p = _ := hpt
    simp only [next, hpt']
    exact if_neg hval
  | return_ p errno hpt =>
    refine ⟨m, ?_⟩
    have hpt' : (s.recount m).pt p = _ := hpt
    simp only [next, hpt']
    exact access_woken ..
  | @wake p errno n c hpt hwaiters =>
    refine ⟨m, ?_⟩
    have hpt' : (s.recount m).pt p = _ := hpt
    have hpos : (s.recount m).queue.waiters (P.slot n) > 0 := hwaiters
    simp only [next, hpt', if_pos hpos]
    rfl
  | @skip p errno n c hpt hwaiters =>
    refine ⟨m, ?_⟩
    have hpt' : (s.recount m).pt p = _ := hpt
    have hnone : ¬ (s.recount m).queue.waiters (P.slot n) > 0 := not_lt.mpr hwaiters
    simp only [next, hpt', if_neg hnone]
    rfl
  | wakeAll p errno hpt =>
    refine ⟨m, ?_⟩
    have hpt' : (s.recount m).pt p = _ := hpt
    simp only [next, hpt']
    rfl
  | interrupt p hpt =>
    refine ⟨m, ?_⟩
    have hpt' : (s.recount m).pt p = _ := hpt
    simp only [next, hpt']
    rfl

/-- One step keeps the counters in range. -/
theorem inInt_next {P : LFParams} {s s' : State Pid α} {l : Label Pid α}
    (hok : ∀ p, (s.plain.pc p).Ok) (hfits : s.CountersFit P l) (hnext : s.next P l = some s')
    (h : ∀ i, InInt (s.queue.val i)) (i : Nat) : InInt (s'.queue.val i) := by
  cases step_cases hnext with
  | @access p errno c c' q ev hpt hwait hatom =>
    have hc : c.Ok := by
      have hpc : s.plain.pc p = c := congrArg Point.pc hpt
      exact hpc ▸ hok p
    have hfits' : c.Fits P s.queue := by
      unfold CountersFit at hfits
      dsimp only at hfits
      rwa [hpt] at hfits
    exact inInt_access hc hfits' (access_of_atomic hatom) h i
  | _ =>
    -- the other steps leave the queue alone
    exact h i

variable [Fintype Pid]

/-- A step that keeps the counters in range is a step with `int`s. -/
theorem nextInt_eq {P : LFParams} {s s' : State Pid α} {l : Label Pid α} {m : Int}
    (hthreads : Fintype.card Pid < 2147483648)
    (hreach : LTS.Reachable (system Pid α P) (s'.recount m)) (hnext : s.next P l = some s')
    (hval : ∀ i, InInt (s'.queue.val i)) :
    s.nextInt P l = some (s'.recount (wrapInt s'.queue.queued_item_)) := by
  have hwaiters : ∀ i, InInt (s'.queue.waiters i) := fun i =>
    LFQueue.State.waiters_inInt hthreads (reachable_plain hreach) i
  unfold nextInt
  rw [hnext, Option.map_some, allWrapped_eq hval hwaiters]
  rfl

/-- While no step runs a counter over, the states are those of unbounded integers
    but for the count of the items, which no access reads. -/
theorem reachable_recount {P : LFParams} {s : State Pid α}
    (hthreads : Fintype.card Pid < 2147483648)
    (h : LTS.Reachable ((intSystem Pid α P).restrict (CountersFit P)) s) :
    (∃ m, LTS.Reachable (system Pid α P) (s.recount m)) ∧ ∀ i, InInt (s.queue.val i) := by
  induction h with
  | init hs =>
    rw [show _ = new from hs]
    exact ⟨⟨0, .init rfl⟩, inRange_new.val⟩
  | @step s s' l _ hstep ih =>
    obtain ⟨⟨m, hreach⟩, hval⟩ := ih
    obtain ⟨hfits, hnext⟩ := hstep
    obtain ⟨s₁, hs₁, hs'⟩ := Option.map_eq_some_iff.mp hnext
    obtain ⟨m', hs₁'⟩ := next_recount hs₁ m
    have hreach₁ : LTS.Reachable (system Pid α P) (s₁.recount m') := .step l hreach hs₁'
    have hok : ∀ p, (s.plain.pc p).Ok := fun p => LFQueue.State.pc_ok (reachable_plain hreach) p
    have hval₁ := inInt_next hok hfits hs₁ hval
    have hsame := nextInt_eq hthreads hreach₁ hs₁ hval₁
    rw [show s.nextInt P l = some s' from hnext] at hsame
    cases hsame
    exact ⟨⟨m', hreach₁⟩, hval₁⟩

end State

variable [DecidableEq Pid] [DecidableEq α] [Fintype Pid] {P : LFParams}

/-! ### Wake-ups -/

/-- In every run that runs no counter over no wake-up is lost: a thread asleep at a
    counter above 0 is about to be woken, and at rest threads sleep only on an empty
    queue. -/
theorem no_lost_wakeup {s : State Pid α} (hthreads : Fintype.card Pid < 2147483648)
    (h : LTS.Reachable ((State.intSystem Pid α P).restrict (State.CountersFit P)) s) :
    s.NoneLost P := by
  obtain ⟨⟨m, hreach⟩, -⟩ := State.reachable_recount hthreads h
  have hnone : (s.recount m).NoneLost P := noneLost hreach
  exact hnone

/-- A pop falls asleep, a push wakes it, it takes the item, and the next pop falls
    asleep. -/
def awakened : List (Label LFQueue.State.Caller Nat) :=
  (.pop .consumer :: List.replicate 4 (.step .consumer 0)) ++
    (.push .first 10 :: List.replicate 7 (.step .first 0)) ++
    List.replicate 8 (.step .consumer 0) ++
    (.pop .consumer :: List.replicate 4 (.step .consumer 0))

theorem no_lost_wakeup_awakened :
    ∃ s, LTS.exec (LTS.guarded (State.CountersFit ⟨1, 64, by decide⟩)
        (State.nextInt ⟨1, 64, by decide⟩)) State.new awakened = some s ∧
      0 < s.sleepers ⟨1, 64, by decide⟩ 1 ∧ s.NoneLost ⟨1, 64, by decide⟩ := by
  obtain ⟨s, hs⟩ := Option.isSome_iff_exists.mp
    (show (LTS.exec (LTS.guarded (State.CountersFit ⟨1, 64, by decide⟩)
      (State.nextInt ⟨1, 64, by decide⟩)) State.new awakened).isSome by decide +kernel)
  have hsleeps : ((LTS.exec (LTS.guarded (State.CountersFit ⟨1, 64, by decide⟩)
      (State.nextInt ⟨1, 64, by decide⟩)) State.new awakened).map
      fun s => decide (0 < s.sleepers ⟨1, 64, by decide⟩ 1)) = some true := by decide +kernel
  rw [hs] at hsleeps
  exact ⟨s, hs, by simpa using hsleeps,
    no_lost_wakeup (by decide) (LTS.reachable_restrict_of_guarded rfl hs)⟩

/-! ### Coming to rest -/

omit [DecidableEq Pid] [DecidableEq α] in
theorem State.countersFit_of_room {s : State Pid α} (h : s.plain.Room P) (l : Label Pid α) :
    s.CountersFit P l := by
  unfold CountersFit
  split
  · next p errno =>
    split
    · next c hpt =>
      have hpc : s.plain.pc p = c := congrArg Point.pc hpt
      exact hpc ▸ h.fits p
    · trivial
  · trivial

/-- A state of the run with `int`s beside one of the run with unbounded integers. -/
structure Beside (P : LFParams) (s s₀ : State Pid α) : Prop where
  same : ∃ m, s.recount m = s₀
  reachable : LTS.Reachable (State.system Pid α P) s₀
  val : ∀ i, InInt (s.queue.val i)
  room : s.plain.Room P

/-- A step of the calls in progress is one with `int`s. -/
theorem Beside.step {s s₀ s₀' : State Pid α} {l : Label Pid α}
    (hthreads : Fintype.card Pid < 2147483648) (h : Beside P s s₀) (hfin : Finishing s₀ l)
    (hnext : s₀.next P l = some s₀') : ∃ s', s.nextInt P l = some s' ∧ Beside P s' s₀' := by
  obtain ⟨⟨m, rfl⟩, hreach, hval, hroom⟩ := h
  have hok : ∀ p, (s.plain.pc p).Ok := fun p => LFQueue.State.pc_ok (reachable_plain hreach) p
  have hnonneg : ∀ i, 0 ≤ s.queue.val i := fun i =>
    LFQueue.State.val_nonneg (reachable_plain hreach) i
  have hreach' : LTS.Reachable (State.system Pid α P) s₀' := .step l hreach hnext
  -- the step from the state with its own count
  obtain ⟨m', hnext'⟩ := State.next_recount hnext s.queue.queued_item_
  have hs' : s.next P l = some (s₀'.recount m') := hnext'
  have hback : LTS.Reachable (State.system Pid α P)
    ((s₀'.recount m').recount s₀'.queue.queued_item_) := hreach'
  have hval' := State.inInt_next hok (State.countersFit_of_room hroom l) hs' hval
  refine ⟨_, State.nextInt_eq hthreads hback hs' hval', ⟨_, rfl⟩, hreach', hval', ?_⟩
  -- and the room it leaves
  show (s₀'.recount m').plain.Room P
  rcases (step_cases hs').plain with hsame | ⟨l', hl', hnext'⟩
  · rw [hsame]
    exact hroom
  · cases l with
    | step p errno =>
      cases hl'
      exact hroom.next (hok p) hnonneg hnext'
    | _ => exact hfin.elim

/-- So is a run. -/
theorem Beside.reaches {s s₀ s₀' : State Pid α} (hthreads : Fintype.card Pid < 2147483648)
    (h : Beside P s s₀)
    (hrun : LTS.Reaches ((State.system Pid α P).restrict Finishing) s₀ s₀') :
    ∃ s', LTS.Reaches ((State.intSystem Pid α P).restrict Finishing) s s' ∧ Beside P s' s₀' := by
  induction hrun with
  | init hs => exact ⟨s, .refl _ s, hs ▸ h⟩
  | step l _ hstep ih =>
    obtain ⟨s₁, hrun₁, hbeside⟩ := ih
    obtain ⟨s', hnext, hbeside'⟩ := hbeside.step hthreads hstep.1 hstep.2
    exact ⟨s', hrun₁.tail l ⟨hstep.1, hnext⟩, hbeside'⟩

/-- From every state of a run that has run no counter over, with room in every counter
    for the pushes in progress, the calls in progress can go on, with no new call and
    no interrupted wait, until each has returned or is asleep; and then nobody is
    asleep, or the queue is empty. -/
theorem can_rest {s : State Pid α} (hthreads : Fintype.card Pid < 2147483648)
    (h : LTS.Reachable ((State.intSystem Pid α P).restrict (State.CountersFit P)) s)
    (hroom : s.plain.Room P) :
    ∃ s', LTS.Reaches ((State.intSystem Pid α P).restrict Finishing) s s' ∧ s'.Resting ∧
      ((∀ i, s'.sleepers P i = 0) ∨ ∀ i, s'.queue.val i = 0 ∧ s'.queue.data i = none) := by
  obtain ⟨⟨m, hreach⟩, hval⟩ := State.reachable_recount hthreads h
  have hbeside : Beside P s (s.recount m) := ⟨⟨m, rfl⟩, hreach, hval, hroom⟩
  obtain ⟨s₀', hrun, hrest, hempty⟩ := reaches_rest hreach
  obtain ⟨s', hrun', ⟨⟨m', rfl⟩, -, -, -⟩⟩ := hbeside.reaches hthreads hrun
  exact ⟨s', hrun', hrest, hempty⟩

/-- A push that spins behind a pop that has not emptied its cell yet. -/
def behind : List (Label LFQueue.State.Caller Nat) :=
  (.push .first 10 :: List.replicate 6 (.step .first 0)) ++
    (.pop .consumer :: List.replicate 3 (.step .consumer 0)) ++
    (.push .first 11 :: List.replicate 4 (.step .first 0))

theorem can_rest_behind :
    ∃ s, LTS.exec (LTS.guarded (State.CountersFit ⟨0, 64, by decide⟩)
        (State.nextInt ⟨0, 64, by decide⟩)) State.new behind = some s ∧
      s.pt .first = .run (.store 11 1) ∧ s.queue.data 0 = some 10 ∧
      ∃ s', LTS.Reaches ((State.intSystem _ _ ⟨0, 64, by decide⟩).restrict Finishing) s s' ∧
        s'.Resting := by
  obtain ⟨s, hs⟩ := Option.isSome_iff_exists.mp
    (show (LTS.exec (LTS.guarded (State.CountersFit ⟨0, 64, by decide⟩)
      (State.nextInt ⟨0, 64, by decide⟩)) State.new behind).isSome by decide +kernel)
  have hseen : (LTS.exec (LTS.guarded (State.CountersFit ⟨0, 64, by decide⟩)
      (State.nextInt ⟨0, 64, by decide⟩)) State.new behind).map
      (fun s => ((s.pt .first, s.queue.data 0), decide (s.plain.Room ⟨0, 64, by decide⟩))) =
        some ((.run (.store 11 1), some 10), true) := by decide +kernel
  rw [hs] at hseen
  obtain ⟨hseen, hroom⟩ := Prod.mk.inj (Option.some.inj hseen)
  obtain ⟨s', hrun, hrest, _⟩ := can_rest (by decide) (LTS.reachable_restrict_of_guarded rfl hs)
    (of_decide_eq_true hroom)
  exact ⟨s, hs, (Prod.mk.inj hseen).1, (Prod.mk.inj hseen).2, s', hrun, hrest⟩

end Futex

end LFQueue

end BlackSiren

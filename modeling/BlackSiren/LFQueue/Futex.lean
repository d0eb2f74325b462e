import BlackSiren.LFQueue.Overflow
import BlackSiren.LFQueue.Timeout

/-! # `LFQueue`: threads asleep in `futex_wait`

    In `BlackSiren.LFQueue.Steps` a wait may return at any time.  Here the kernel
    puts the thread to sleep, and it sleeps until another thread wakes it:

        pop     waiters + 1, then FUTEX_WAIT if the counter is what it was
        push    counter + 1, fill the cell, then FUTEX_WAKE if waiters > 0

    - `Point`, `Futex.next`, `Futex.system`: the accesses of
      `BlackSiren.LFQueue.Steps` with `wake_if_needed` and the sleepers
    - `reachable_plain`: waking and sleeping change nothing else
    - `Counted`: `waiters` counts the calls on their way in and out of a wait
    - `Guarded`: a thread asleep at a counter above 0 is about to be woken
    - `noneLost`: at rest, threads are asleep only on an empty queue

    The integers are unbounded; `BlackSiren.LFQueue.FutexInts` has `int`s.
-/

namespace BlackSiren

namespace LFQueue

variable {Pid α : Type}

/-! ### The threads and the kernel -/

/-- Where a thread is; `n` is the number it has drawn. -/
inductive Point (α : Type) where
  | run (c : Pc α)
  /-- `FUTEX_WAIT` has put it to sleep on the counter of item `n`. -/
  | asleep (n : Nat) (v : Int)
  /-- The system call returns. -/
  | woken (n : Nat) (v : Int)
  /-- `wake_if_needed`: the read of `waiters`; `c` follows. -/
  | wakeIfNeeded (n : Nat) (c : Pc α)
  /-- `wake` -/
  | wake (n : Nat) (c : Pc α)
  deriving DecidableEq

namespace Point

/-- The access that is to come, or that has put the thread to sleep. -/
def pc : Point α → Pc α
  | run c => c
  | asleep n v => .futexWait n v
  | woken n v => .futexWait n v
  | wakeIfNeeded _ c => c
  | wake _ c => c

/-- `LFItem::push` and `LFItem::pop` call `wake_if_needed` when they are done with
    the counter; a push that has the item fills the cell before. -/
def wakes : Pc α → Pc α → Option Nat
  | .incCas _ n _, .pushed _ _ => some n
  | .incAdd _ n, .pushed _ _ => some n
  | .store _ n, .pushed _ _ => some n
  | .decCas n false _, .take _ => some n
  | .decCas n false _, .popped _ _ => some n
  | .waitLeave n _, _ => some n
  | _, _ => none

/-- After an access of a call. -/
def after (c c' : Pc α) : Point α :=
  match wakes c c' with
  | some n => wakeIfNeeded n c'
  | none => run c'

@[simp] theorem pc_after (c c' : Pc α) : (after c c').pc = c' := by
  unfold after
  split
  · rfl
  · rfl

/-- Asleep on the counter of item `i`. -/
def sleeps (P : LFParams) (i : Nat) : Point α → Bool
  | asleep n _ => P.slot n = i
  | _ => false

/-- About to look for waiters of item `i`. -/
def wakesSoon (P : LFParams) (i : Nat) : Point α → Bool
  | run (.store _ n) => P.slot n = i
  | wakeIfNeeded n _ => P.slot n = i
  | wake n _ => P.slot n = i
  | _ => false

/-- `FUTEX_WAKE` on the counter of item `i`, as one of its sleepers sees it. -/
def wokenBy (P : LFParams) (i : Nat) : Point α → Point α
  | asleep n v => if P.slot n = i then woken n v else asleep n v
  | pt => pt

@[simp] theorem pc_wokenBy (P : LFParams) (i : Nat) (pt : Point α) :
    (pt.wokenBy P i).pc = pt.pc := by
  cases pt with
  | asleep n v =>
    show (if P.slot n = i then woken n v else asleep n v : Point α).pc = _
    split
    · rfl
    · rfl
  | _ => rfl

end Point

/-- `waiters` of the counter of item `i`. -/
def waiters (q : LFQueue α) (i : Nat) : Int := (q.item_ i).counter_.waiters

theorem waiters_setItem (q : LFQueue α) (i : Nat) (it : LFItem α) :
    (q.setItem i it).waiters = Function.update q.waiters i it.counter_.waiters := by
  funext j
  by_cases h : j = i
  · subst h
    simp [waiters, setItem]
  · simp [waiters, setItem, h]

@[simp] theorem waiters_addVal (q : LFQueue α) (i : Nat) (d : Int) :
    (q.addVal i d).waiters = q.waiters :=
  (waiters_setItem q i _).trans (Function.update_eq_self i q.waiters)

@[simp] theorem waiters_addWaiters (q : LFQueue α) (i : Nat) (d : Int) :
    (q.addWaiters i d).waiters = Function.update q.waiters i (q.waiters i + d) :=
  waiters_setItem q i _

@[simp] theorem waiters_setData (q : LFQueue α) (i : Nat) (o : Option α) :
    (q.setData i o).waiters = q.waiters :=
  (waiters_setItem q i _).trans (Function.update_eq_self i q.waiters)

namespace Futex

structure State (Pid α : Type) where
  queue : LFQueue α
  pt : Pid → Point α
  trace : List (Pid × Event α)

inductive Label (Pid α : Type) where
  | push (p : Pid) (x : α)
  | pop (p : Pid)
  | step (p : Pid) (errno : Nat)
  /-- A signal, a timeout, or no reason at all ends the sleep. -/
  | interrupt (p : Pid)

namespace State

/-- A new queue, nobody in a call. -/
def new : State Pid α where
  queue := LFQueue.new
  pt := fun _ => .run (.idle none)
  trace := []

variable [DecidableEq Pid] [DecidableEq α]

/-- `p` goes to `pt`. -/
def at_ (s : State Pid α) (p : Pid) (pt : Point α) : State Pid α :=
  { s with pt := Function.update s.pt p pt }

/-- The access of a call. -/
def access (P : LFParams) (s : State Pid α) (p : Pid) (errno : Nat) (c : Pc α) :
    Option (State Pid α) :=
  (atomic P s.queue errno c).map fun r =>
    { queue := r.1
      pt := Function.update s.pt p (.after c r.2.1)
      trace := s.trace ++ (r.2.2.map (p, ·)).toList }

def next (P : LFParams) (s : State Pid α) : Label Pid α → Option (State Pid α)
  | .push p x =>
      match s.pt p with
      | .run (.idle _) => some { s with
          pt := Function.update s.pt p (.run (.pushDraw x))
          trace := s.trace ++ [(p, .called x)] }
      | _ => none
  | .pop p =>
      match s.pt p with
      | .run (.idle _) => some { s with
          pt := Function.update s.pt p (.run .popDraw)
          trace := s.trace ++ [(p, .wanted)] }
      | _ => none
  | .step p errno =>
      match s.pt p with
      | .run (.futexWait n v) =>
          -- the kernel compares and puts to sleep in one
          if s.queue.val (P.slot n) = v then some (s.at_ p (.asleep n v))
          else some (s.at_ p (.woken n v))
      | .run c => s.access P p errno c
      | .asleep _ _ => none
      | .woken n v => s.access P p errno (.futexWait n v)
      | .wakeIfNeeded n c =>
          some (s.at_ p (if s.queue.waiters (P.slot n) > 0 then .wake n c else .run c))
      | .wake n c =>
          some { s with
            pt := Function.update (fun r => (s.pt r).wokenBy P (P.slot n)) p (.run c) }
  | .interrupt p =>
      match s.pt p with
      | .asleep n v => some (s.at_ p (.woken n v))
      | _ => none

/-- Any number of threads, any order of steps. -/
def system (Pid α : Type) [DecidableEq Pid] [DecidableEq α] (P : LFParams) :
    LTS.System (State Pid α) (Label Pid α) :=
  .ofFn (· = new) (next P)

end State

/-! ### What a step does -/

variable [DecidableEq Pid] [DecidableEq α]

/-- The steps, with what is known of the state they are made in. -/
inductive Step (P : LFParams) (s : State Pid α) : Label Pid α → State Pid α → Prop
  | push (p : Pid) (x : α) {last : Option (Ret α)} (hpt : s.pt p = .run (.idle last)) :
      Step P s (.push p x) { s with
        pt := Function.update s.pt p (.run (.pushDraw x))
        trace := s.trace ++ [(p, .called x)] }
  | pop (p : Pid) {last : Option (Ret α)} (hpt : s.pt p = .run (.idle last)) :
      Step P s (.pop p) { s with
        pt := Function.update s.pt p (.run .popDraw)
        trace := s.trace ++ [(p, .wanted)] }
  | access (p : Pid) (errno : Nat) {c c' : Pc α} {q : LFQueue α} {ev : Option (Event α)}
      (hpt : s.pt p = .run c) (hwait : ∀ n v, c ≠ .futexWait n v)
      (hatom : atomic P s.queue errno c = some (q, c', ev)) :
      Step P s (.step p errno)
        ⟨q, Function.update s.pt p (.after c c'), s.trace ++ (ev.map (p, ·)).toList⟩
  | sleep (p : Pid) (errno : Nat) {n : Nat} {v : Int} (hpt : s.pt p = .run (.futexWait n v))
      (hval : s.queue.val (P.slot n) = v) :
      Step P s (.step p errno) (s.at_ p (.asleep n v))
  /-- `EAGAIN` -/
  | stale (p : Pid) (errno : Nat) {n : Nat} {v : Int} (hpt : s.pt p = .run (.futexWait n v))
      (hval : s.queue.val (P.slot n) ≠ v) :
      Step P s (.step p errno) (s.at_ p (.woken n v))
  | return_ (p : Pid) (errno : Nat) {n : Nat} {v : Int} (hpt : s.pt p = .woken n v) :
      Step P s (.step p errno) (s.at_ p (.run (.decRead n true)))
  | wake (p : Pid) (errno : Nat) {n : Nat} {c : Pc α} (hpt : s.pt p = .wakeIfNeeded n c)
      (hwaiters : 0 < s.queue.waiters (P.slot n)) :
      Step P s (.step p errno) (s.at_ p (.wake n c))
  | skip (p : Pid) (errno : Nat) {n : Nat} {c : Pc α} (hpt : s.pt p = .wakeIfNeeded n c)
      (hwaiters : s.queue.waiters (P.slot n) ≤ 0) :
      Step P s (.step p errno) (s.at_ p (.run c))
  | wakeAll (p : Pid) (errno : Nat) {n : Nat} {c : Pc α} (hpt : s.pt p = .wake n c) :
      Step P s (.step p errno) { s with
        pt := Function.update (fun r => (s.pt r).wokenBy P (P.slot n)) p (.run c) }
  | interrupt (p : Pid) {n : Nat} {v : Int} (hpt : s.pt p = .asleep n v) :
      Step P s (.interrupt p) (s.at_ p (.woken n v))

/-- A wait that returns reads the counter again: an `errno` is never `-ETIMEDOUT`. -/
theorem access_woken {P : LFParams} (s : State Pid α) (p : Pid) (errno n : Nat) (v : Int) :
    s.access P p errno (.futexWait n v) = some (s.at_ p (.run (.decRead n true))) := by
  unfold State.access
  rw [LFQueue.State.atomic_futexWait]
  simp only [Option.map_some, Option.map_none, Option.toList_none, List.append_nil]
  rfl

theorem step_cases {P : LFParams} {s s' : State Pid α} {l : Label Pid α}
    (h : s.next P l = some s') : Step P s l s' := by
  cases l with
  | push p x =>
    simp only [State.next] at h
    split at h
    · cases h; exact .push p x ‹_›
    · cases h
  | pop p =>
    simp only [State.next] at h
    split at h
    · cases h; exact .pop p ‹_›
    · cases h
  | step p errno =>
    simp only [State.next] at h
    split at h
    · next n v hpt =>
      split at h
      · next hval => cases h; exact .sleep p errno hpt hval
      · next hval => cases h; exact .stale p errno hpt hval
    · next c hwait hpt =>
      obtain ⟨⟨q, c', ev⟩, hatom, rfl⟩ := Option.map_eq_some_iff.mp h
      exact .access p errno hpt hwait hatom
    · cases h
    · next n v hpt =>
      rw [access_woken] at h
      cases h
      exact .return_ p errno hpt
    · next n c hpt =>
      cases h
      by_cases hwaiters : s.queue.waiters (P.slot n) > 0
      · rw [if_pos hwaiters]
        exact .wake p errno hpt hwaiters
      · rw [if_neg hwaiters]
        exact .skip p errno hpt (by omega)
    · next n c hpt =>
      cases h
      exact .wakeAll p errno hpt
  | interrupt p =>
    simp only [State.next] at h
    split at h
    · cases h; exact .interrupt p ‹_›
    · cases h

/-! ### Without the kernel -/

/-- The queue, the accesses and the events. -/
def State.plain (s : State Pid α) : LFQueue.State Pid α where
  queue := s.queue
  pc := fun p => (s.pt p).pc
  trace := s.trace

omit [DecidableEq α] in
/-- A thread goes to a point of another access. -/
theorem State.plain_move (q : LFQueue α) (pt : Pid → Point α) (tr : List (Pid × Event α)) (p : Pid)
    (b : Point α) :
    (State.mk q (Function.update pt p b) tr).plain =
      ⟨q, Function.update (fun r => (pt r).pc) p b.pc, tr⟩ := by
  unfold State.plain
  congr 1
  funext r
  show (Function.update pt p b r).pc = _
  by_cases hr : r = p
  · rw [hr, Function.update_self, Function.update_self]
  · rw [Function.update_of_ne hr, Function.update_of_ne hr]

omit [DecidableEq α] in
/-- Or of the same. -/
theorem State.plain_stay (s : State Pid α) {p : Pid} {b : Point α} (h : b.pc = (s.pt p).pc) :
    (State.mk s.queue (Function.update s.pt p b) s.trace).plain = s.plain := by
  rw [State.plain_move, h, Function.update_eq_self]
  rfl

/-- The call or access of a step. -/
def Label.plain : Label Pid α → Option (LFQueue.Label Pid α)
  | .push p x => some (.push p x)
  | .pop p => some (.pop p)
  | .step p errno => some (.step p errno)
  | .interrupt _ => none

/-- Waking and sleeping only hold the accesses up. -/
theorem Step.plain {P : LFParams} {s s' : State Pid α} {l : Label Pid α} (h : Step P s l s') :
    s'.plain = s.plain ∨ ∃ l', l.plain = some l' ∧ s.plain.next P l' = some s'.plain := by
  cases h with
  | @push p x last hpt =>
    have hpc : s.plain.pc p = .idle last := congrArg Point.pc hpt
    refine .inr ⟨.push p x, rfl, ?_⟩
    rw [State.plain_move]
    simp only [LFQueue.State.next, hpc]
    rfl
  | @pop p last hpt =>
    have hpc : s.plain.pc p = .idle last := congrArg Point.pc hpt
    refine .inr ⟨.pop p, rfl, ?_⟩
    rw [State.plain_move]
    simp only [LFQueue.State.next, hpc]
    rfl
  | @access p errno c c' q ev hpt hwait hatom =>
    have hpc : s.plain.pc p = c := congrArg Point.pc hpt
    have hatom' : atomic P s.plain.queue errno c = some (q, c', ev) := hatom
    refine .inr ⟨.step p errno, rfl, ?_⟩
    rw [State.plain_move, Point.pc_after]
    simp only [LFQueue.State.next, hpc, hatom', Option.map_some]
    rfl
  | sleep p errno hpt hval => exact .inl (s.plain_stay (congrArg Point.pc hpt).symm)
  | stale p errno hpt => exact .inl (s.plain_stay (congrArg Point.pc hpt).symm)
  | @return_ p errno n v hpt =>
    have hpc : s.plain.pc p = .futexWait n v := congrArg Point.pc hpt
    refine .inr ⟨.step p errno, rfl, ?_⟩
    unfold State.at_
    rw [State.plain_move]
    simp only [LFQueue.State.next, hpc, LFQueue.State.atomic_futexWait, Option.map_some,
      Option.map_none, Option.toList_none, List.append_nil]
    rfl
  | wake p errno hpt hwaiters => exact .inl (s.plain_stay (congrArg Point.pc hpt).symm)
  | skip p errno hpt hwaiters => exact .inl (s.plain_stay (congrArg Point.pc hpt).symm)
  | @wakeAll p errno n c hpt =>
    left
    rw [State.plain_move]
    simp only [Point.pc_wokenBy]
    have hpc : c = (s.pt p).pc := (congrArg Point.pc hpt).symm
    show LFQueue.State.mk s.queue (Function.update (fun r => (s.pt r).pc) p c) s.trace = _
    rw [hpc, Function.update_eq_self]
    rfl
  | interrupt p hpt => exact .inl (s.plain_stay (congrArg Point.pc hpt).symm)

theorem reachable_plain {P : LFParams} {s : State Pid α}
    (h : LTS.Reachable (State.system Pid α P) s) :
    LTS.Reachable (LFQueue.State.system Pid α P) s.plain := by
  refine LTS.Reachable.map State.plain ?_ ?_ h
  · intro s hs
    rw [show s = .new from hs]
    rfl
  · intro s l s' _ hstep
    rcases (step_cases hstep).plain with hsame | ⟨l', -, hnext⟩
    · exact .inl hsame
    · exact .inr ⟨l', hnext⟩

end Futex

/-! ### Waiters -/

namespace Pc

/-- A call between its two updates of `waiters` of item `i`. -/
def waiting (P : LFParams) (i : Nat) : Pc α → Int
  | .futexWait n _ => if P.slot n = i then 1 else 0
  | .decRead n true => if P.slot n = i then 1 else 0
  | .decCas n true _ => if P.slot n = i then 1 else 0
  | .decAdd n => if P.slot n = i then 1 else 0
  | .waitLeave n _ => if P.slot n = i then 1 else 0
  | _ => 0

theorem waiting_nonneg (P : LFParams) (i : Nat) (c : Pc α) : 0 ≤ c.waiting P i := by
  unfold waiting
  split
  all_goals omega

theorem waiting_incDone (P : LFParams) (i : Nat) (x : α) (n : Nat) (old : Int) :
    (incDone x n old).1.waiting P i = 0 := by
  unfold incDone
  split
  · rfl
  · split <;> rfl

theorem waiting_decDone (P : LFParams) (i n : Nat) (old : Int) :
    (decDone n old : Pc α).waiting P i = 0 := by
  unfold decDone
  split <;> rfl

end Pc

/-- `waiters` and the calls that have announced themselves change together. -/
theorem Access.waiters {P : LFParams} {q q' : LFQueue α} {c c' : Pc α} {ev : Option (Event α)}
    (h : Access P q c q' c' ev) (i : Nat) :
    q'.waiters i + c.waiting P i = q.waiters i + c'.waiting P i := by
  cases h with
  | raise x n heq =>
    rw [Pc.waiting_incDone, waiters_addVal]
    rfl
  | add x n =>
    rw [Pc.waiting_incDone, waiters_addVal]
    rfl
  | readPos n waited hpos => cases waited <;> rfl
  | readNone n waited => cases waited <;> rfl
  | lower n waited heq =>
    rw [waiters_addVal]
    cases waited with
    | true => rfl
    | false =>
      simp only [Bool.false_eq_true, if_false]
      rw [Pc.waiting_decDone]
      rfl
  | lowerMissed n waited v => cases waited <;> rfl
  | enter n v =>
    by_cases hi : P.slot n = i
    · subst hi
      simp [Pc.waiting]
    · simp [Pc.waiting, hi, Function.update_of_ne (Ne.symm hi)]
  | leave n v =>
    rw [Pc.waiting_decDone]
    by_cases hi : P.slot n = i
    · subst hi
      simp [Pc.waiting]
    · simp [Pc.waiting, hi, Function.update_of_ne (Ne.symm hi)]
  | timeout n =>
    rw [waiters_addVal]
    rfl
  | fill x n hnone =>
    rw [waiters_setData]
    rfl
  | empty n hsome =>
    rw [waiters_setData]
    rfl
  | _ => rfl

namespace State

variable [Fintype Pid] [DecidableEq Pid] [DecidableEq α] {P : LFParams}

/-- In every state `waiters` is the number of calls that have announced themselves. -/
theorem waiters_eq {s : State Pid α} (h : LTS.Reachable (system Pid α P) s) (i : Nat) :
    s.queue.waiters i = ∑ p, (s.pc p).waiting P i := by
  refine LTS.invariant (system Pid α P)
    (fun s => s.queue.waiters i = ∑ p, (s.pc p).waiting P i) ?_ ?_ h
  · intro s hs
    rw [show s = .new from hs]
    exact (Finset.sum_eq_zero fun _ _ => rfl).symm
  · intro s l s' hs hstep
    have hstep' : s.next P l = some s' := hstep
    have hmove := fun p c => Totals.sum_update (Finset.mem_univ p) (Pc.waiting P i) s.pc c
    cases l with
    | push p x =>
      simp only [next] at hstep'
      split at hstep'
      · next last hpc =>
        cases hstep'
        have := hmove p (.pushDraw x)
        rw [hpc] at this
        simp only [Pc.waiting, add_zero] at this
        rw [hs]
        exact this.symm
      · cases hstep'
    | pop p =>
      simp only [next] at hstep'
      split at hstep'
      · next last hpc =>
        cases hstep'
        have := hmove p .popDraw
        rw [hpc] at this
        simp only [Pc.waiting, add_zero] at this
        rw [hs]
        exact this.symm
      · cases hstep'
    | step p errno =>
      obtain ⟨⟨q', c', ev⟩, hatom, rfl⟩ := Option.map_eq_some_iff.mp hstep'
      have haccess := (access_of_atomic hatom).waiters i
      have := hmove p c'
      show q'.waiters i = ∑ r, (Function.update s.pc p c' r).waiting P i
      dsimp only at haccess
      omega

end State

/-! ### The values waited for -/

/-- `dec_if_gt0` has returned what is waited for. -/
def Pc.Low : Pc α → Prop
  | .waitEnter _ v => v ≤ 0
  | .futexWait _ v => v ≤ 0
  | _ => True

theorem incDone_low (x : α) (n : Nat) (old : Int) : (incDone x n old).1.Low := by
  unfold incDone
  split
  · trivial
  · split <;> trivial

theorem decDone_low (n : Nat) (old : Int) : (decDone n old : Pc α).Low := by
  unfold decDone
  split <;> trivial

theorem atomic_low [DecidableEq α] {P : LFParams} {q q' : LFQueue α} {errno : Nat} {c c' : Pc α}
    {ev : Option (Event α)} (h : atomic P q errno c = some (q', c', ev)) (hc : c.Low) :
    c'.Low := by
  cases c with
  | decRead n waited =>
    simp only [atomic] at h
    split at h
    · cases h
      trivial
    · next hle =>
      cases h
      cases waited with
      | true => exact not_lt.mp hle
      | false => exact not_lt.mp hle
  | incCas x n v =>
    cases access_of_atomic h with
    | raise => exact incDone_low x n v
    | raiseMissed => trivial
  | incAdd x n =>
    cases access_of_atomic h with
    | add => exact incDone_low x n _
  | decCas n waited v =>
    cases access_of_atomic h with
    | lower =>
      cases waited with
      | true => trivial
      | false => exact decDone_low n v
    | lowerMissed => trivial
  | waitLeave n v =>
    cases access_of_atomic h with
    | leave => exact decDone_low n v
  | waitEnter n v =>
    cases access_of_atomic h with
    | enter => exact hc
  | _ =>
    have haccess : Access P q _ q' c' ev := access_of_atomic h
    cases haccess <;> trivial

namespace Futex

variable [DecidableEq Pid] [DecidableEq α] {P : LFParams}

theorem low {s : LFQueue.State Pid α} (h : LTS.Reachable (LFQueue.State.system Pid α P) s)
    (p : Pid) : (s.pc p).Low := by
  refine LTS.invariant (LFQueue.State.system Pid α P) (fun s => ∀ p, (s.pc p).Low) ?_ ?_ h p
  · intro s hs p
    rw [show s = .new from hs]
    trivial
  · intro s l s' hs hstep r
    have hstep' : s.next P l = some s' := hstep
    have hupdate : ∀ (p : Pid) (c : Pc α), c.Low → (Function.update s.pc p c r).Low := by
      intro p c hc
      by_cases hr : r = p
      · rw [hr, Function.update_self]
        exact hc
      · rw [Function.update_of_ne hr]
        exact hs r
    cases l with
    | push p x =>
      simp only [LFQueue.State.next] at hstep'
      split at hstep'
      · cases hstep'
        exact hupdate p _ trivial
      · cases hstep'
    | pop p =>
      simp only [LFQueue.State.next] at hstep'
      split at hstep'
      · cases hstep'
        exact hupdate p _ trivial
      · cases hstep'
    | step p errno =>
      obtain ⟨⟨q', c', ev⟩, hatom, rfl⟩ := Option.map_eq_some_iff.mp hstep'
      exact hupdate p c' (atomic_low hatom (hs p))

/-! ### Sleepers -/

/-- A thread asleep at a counter above 0 is about to be woken. -/
def State.Guarded (P : LFParams) (s : State Pid α) : Prop :=
  ∀ i p, (s.pt p).sleeps P i → 0 < s.queue.val i → ∃ r, (s.pt r).wakesSoon P i

omit [DecidableEq Pid] [DecidableEq α] in
/-- A thread asleep has announced itself. -/
theorem sleeps_waiting {i : Nat} {pt : Point α} (h : pt.sleeps P i) : pt.pc.waiting P i = 1 := by
  cases pt with
  | asleep n v =>
    have hi : P.slot n = i := by simpa [Point.sleeps] using h
    simp [Point.pc, Pc.waiting, hi]
  | _ => cases h

/-- `waiters` is above 0 while a thread sleeps. -/
theorem waiters_pos [Fintype Pid] {s : State Pid α}
    (h : LTS.Reachable (State.system Pid α P) s) {p : Pid} {i : Nat}
    (hp : (s.pt p).sleeps P i) : 0 < s.queue.waiters i := by
  have hsum : s.queue.waiters i = ∑ p, (s.pt p).pc.waiting P i :=
    LFQueue.State.waiters_eq (reachable_plain h) i
  have hle := Finset.single_le_sum (fun r _ => Pc.waiting_nonneg P i (s.pt r).pc)
    (Finset.mem_univ p)
  rw [sleeps_waiting hp] at hle
  omega

omit [DecidableEq α] in
/-- The mover does not sleep afterwards, and if it was the waker it still is one. -/
theorem Guarded.move {s : State Pid α} (hs : s.Guarded P) {q : LFQueue α} {p : Pid} {pt : Point α}
    {tr : List (Pid × Event α)} (hasleep : ∀ i, ¬ pt.sleeps P i)
    (hval : ∀ i, 0 < q.val i → 0 < s.queue.val i ∨ pt.wakesSoon P i)
    (hwakes : ∀ i, (∃ r, r ≠ p ∧ (s.pt r).sleeps P i) → (s.pt p).wakesSoon P i →
      pt.wakesSoon P i) :
    State.Guarded P ⟨q, Function.update s.pt p pt, tr⟩ := by
  intro i r hr hpos
  have hne : r ≠ p := by
    rintro rfl
    rw [show (State.mk q (Function.update s.pt r pt) tr).pt r = pt from
      Function.update_self r pt s.pt] at hr
    exact hasleep i hr
  have hr' : (s.pt r).sleeps P i := by
    rwa [show (State.mk q (Function.update s.pt p pt) tr).pt r = s.pt r from
      Function.update_of_ne hne pt s.pt] at hr
  have hself : pt.wakesSoon P i → ∃ w, ((Function.update s.pt p pt) w).wakesSoon P i := by
    intro h
    exact ⟨p, by rwa [Function.update_self]⟩
  rcases hval i hpos with hval' | hnow
  · obtain ⟨w, hw⟩ := hs i r hr' hval'
    by_cases hwp : w = p
    · subst hwp
      exact hself (hwakes i ⟨r, hne, hr'⟩ hw)
    · exact ⟨w, by rwa [show (State.mk q (Function.update s.pt p pt) tr).pt w = s.pt w from
        Function.update_of_ne hwp pt s.pt]⟩
  · exact hself hnow

omit [DecidableEq Pid] [DecidableEq α] in
theorem sleeps_after (i : Nat) (c c' : Pc α) : ¬ (Point.after c c').sleeps P i := by
  unfold Point.after
  split <;> exact Bool.false_ne_true

omit [DecidableEq Pid] [DecidableEq α] in
/-- `LFItem::push` wakes, whatever `inc` has found. -/
theorem wakesSoon_incDone {c : Pc α} {x : α} {n : Nat}
    (hc : c = .incAdd x n ∨ ∃ v, c = .incCas x n v)
    (old : Int) : (Point.after c (incDone x n old).1).wakesSoon P (P.slot n) := by
  unfold incDone
  rcases hc with rfl | ⟨v, rfl⟩
  all_goals
    split
    · simp [Point.after, Point.wakes, Point.wakesSoon]
    · split <;> simp [Point.after, Point.wakes, Point.wakesSoon]

omit [DecidableEq Pid] [DecidableEq α] in
/-- Whoever lifts a counter above 0 wakes. -/
theorem wakesSoon_lift {q q' : LFQueue α} {c c' : Pc α} {ev : Option (Event α)}
    (h : Access P q c q' c' ev) {i : Nat} (hpos : 0 < q'.val i) :
    0 < q.val i ∨ (Point.after c c').wakesSoon P i := by
  cases h with
  | raise x n heq =>
    by_cases hi : i = P.slot n
    · subst hi
      exact .inr (wakesSoon_incDone (.inr ⟨_, rfl⟩) _)
    · rw [val_addVal, Function.update_of_ne hi] at hpos
      exact .inl hpos
  | add x n =>
    by_cases hi : i = P.slot n
    · subst hi
      exact .inr (wakesSoon_incDone (.inl rfl) _)
    · rw [val_addVal, Function.update_of_ne hi] at hpos
      exact .inl hpos
  | lower n waited heq =>
    left
    by_cases hi : i = P.slot n
    · subst hi
      rw [val_addVal, Function.update_self] at hpos
      omega
    · rwa [val_addVal, Function.update_of_ne hi] at hpos
  | timeout n =>
    left
    by_cases hi : i = P.slot n
    · subst hi
      rw [val_addVal, Function.update_self] at hpos
      omega
    · rwa [val_addVal, Function.update_of_ne hi] at hpos
  | fill x n hnone => exact .inl (by rwa [val_setData] at hpos)
  | empty n hsome => exact .inl (by rwa [val_setData] at hpos)
  | enter n v => exact .inl (by rwa [val_addWaiters] at hpos)
  | leave n v => exact .inl (by rwa [val_addWaiters] at hpos)
  | _ => exact .inl hpos

omit [DecidableEq Pid] [DecidableEq α] in
/-- A push that fills a cell stays on its way to wake. -/
theorem wakesSoon_access {q q' : LFQueue α} {c c' : Pc α} {ev : Option (Event α)}
    (h : Access P q c q' c' ev) {i : Nat} (hc : (Point.run c).wakesSoon P i) :
    (Point.after c c').wakesSoon P i := by
  cases h with
  | fill x n hnone => exact hc
  | fillMissed x n => exact hc
  | _ => cases hc

omit [DecidableEq α] in
/-- What a `FUTEX_WAKE` leaves asleep waits for another counter. -/
theorem sleeps_wokenBy {i n : Nat} {pt : Point α} (h : (pt.wokenBy P (P.slot n)).sleeps P i) :
    pt.sleeps P i ∧ i ≠ P.slot n := by
  cases pt with
  | asleep m v =>
    simp only [Point.wokenBy] at h
    split at h
    · cases h
    · next hm =>
      have hi : P.slot m = i := by simpa [Point.sleeps] using h
      exact ⟨h, fun heq => hm (hi.trans heq)⟩
  | _ => cases h

omit [DecidableEq α] in
theorem wakesSoon_wokenBy {i j : Nat} {pt : Point α} (h : pt.wakesSoon P i) :
    (pt.wokenBy P j).wakesSoon P i := by
  cases pt with
  | asleep m v => cases h
  | _ => exact h

/-- One step. -/
theorem Step.guarded [Fintype Pid] {s s' : State Pid α} {l : Label Pid α}
    (hr : LTS.Reachable (State.system Pid α P) s) (hs : s.Guarded P) (h : Step P s l s') :
    s'.Guarded P := by
  cases h with
  | @push p x last hpt =>
    refine Guarded.move hs (fun _ => Bool.false_ne_true) (fun _ h => .inl h) ?_
    intro i _ hw
    rw [hpt] at hw
    cases hw
  | @pop p last hpt =>
    refine Guarded.move hs (fun _ => Bool.false_ne_true) (fun _ h => .inl h) ?_
    intro i _ hw
    rw [hpt] at hw
    cases hw
  | @access p errno c c' q ev hpt hwait hatom =>
    have haccess : Access P s.queue c q c' ev := access_of_atomic hatom
    refine Guarded.move hs (sleeps_after · c c') (fun _ h => wakesSoon_lift haccess h) ?_
    intro i _ hw
    rw [hpt] at hw
    exact wakesSoon_access haccess hw
  | @sleep p errno n v hpt hval =>
    -- the counter is what the thread has read, and that was not above 0
    have hlow : v ≤ 0 := by
      have := low (reachable_plain hr) p
      rwa [show s.plain.pc p = .futexWait n v from congrArg Point.pc hpt] at this
    intro i r hr' hpos
    have hpos' : 0 < s.queue.val i := hpos
    by_cases hrp : r = p
    · subst hrp
      rw [show (s.at_ r (.asleep n v)).pt r = .asleep n v from Function.update_self ..] at hr'
      have hi : P.slot n = i := by simpa [Point.sleeps] using hr'
      rw [← hi] at hpos'
      omega
    · rw [show (s.at_ p (.asleep n v)).pt r = s.pt r from Function.update_of_ne hrp ..] at hr'
      obtain ⟨w, hw⟩ := hs i r hr' hpos'
      have hwp : w ≠ p := by
        rintro rfl
        rw [hpt] at hw
        cases hw
      exact ⟨w, by rwa [show (s.at_ p (.asleep n v)).pt w = s.pt w from
        Function.update_of_ne hwp ..]⟩
  | @stale p errno n v hpt =>
    refine Guarded.move hs (fun _ => Bool.false_ne_true) (fun _ h => .inl h) ?_
    intro i _ hw
    rw [hpt] at hw
    cases hw
  | @return_ p errno n v hpt =>
    refine Guarded.move hs (fun _ => Bool.false_ne_true) (fun _ h => .inl h) ?_
    intro i _ hw
    rw [hpt] at hw
    cases hw
  | @wake p errno n c hpt hwaiters =>
    refine Guarded.move hs (fun _ => Bool.false_ne_true) (fun _ h => .inl h) ?_
    intro i _ hw
    rw [hpt] at hw
    exact hw
  | @skip p errno n c hpt hwaiters =>
    refine Guarded.move hs (fun _ => Bool.false_ne_true) (fun _ h => .inl h) ?_
    -- nobody sleeps at a counter without waiters
    rintro i ⟨r, _, hr'⟩ hw
    rw [hpt] at hw
    have hi : P.slot n = i := by simpa [Point.wakesSoon] using hw
    have := waiters_pos hr hr'
    rw [← hi] at this
    omega
  | @wakeAll p errno n c hpt =>
    intro i r hr' hpos
    change (Function.update (fun r => (s.pt r).wokenBy P (P.slot n)) p (.run c) r).sleeps P i
      at hr'
    have hrp : r ≠ p := by
      rintro rfl
      rw [Function.update_self] at hr'
      cases hr'
    rw [Function.update_of_ne hrp] at hr'
    obtain ⟨hsleep, hi⟩ := sleeps_wokenBy hr'
    obtain ⟨w, hw⟩ := hs i r hsleep hpos
    have hwp : w ≠ p := by
      rintro rfl
      rw [hpt] at hw
      exact hi (by simpa [Point.wakesSoon, eq_comm] using hw)
    refine ⟨w, ?_⟩
    show (Function.update (fun r => (s.pt r).wokenBy P (P.slot n)) p (.run c) w).wakesSoon P i
    rw [Function.update_of_ne hwp]
    exact wakesSoon_wokenBy hw
  | @interrupt p n v hpt =>
    refine Guarded.move hs (fun _ => Bool.false_ne_true) (fun _ h => .inl h) ?_
    intro i _ hw
    rw [hpt] at hw
    cases hw

/-- In every state. -/
theorem guarded [Fintype Pid] {s : State Pid α}
    (h : LTS.Reachable (State.system Pid α P) s) : s.Guarded P := by
  refine LTS.invariant_of_reachable (State.system Pid α P) (State.Guarded P) ?_ ?_ h
  · intro s hs i p hp
    rw [show s = .new from hs] at hp
    cases hp
  · intro s l s' hr hs hstep
    exact (step_cases hstep).guarded hr hs

/-! ### At rest -/

/-- Every call in progress is asleep. -/
def State.Resting (s : State Pid α) : Prop :=
  ∀ p, (∃ last, s.pt p = .run (.idle last)) ∨ ∃ n v, s.pt p = .asleep n v

/-- The number of threads asleep on item `i`. -/
def State.sleepers [Fintype Pid] (P : LFParams) (s : State Pid α) (i : Nat) : Nat :=
  (Finset.univ.filter fun p => (s.pt p).sleeps P i).card

omit [DecidableEq Pid] [DecidableEq α] in
/-- Only what a wait counts for is there to count. -/
theorem State.Resting.tally [Fintype Pid] {M : Type} [AddCommMonoid M] {s : State Pid α}
    (h : s.Resting) {w : Phase α → M} (hidle : ∀ last, w (.idle last) = 0)
    (hawaits : ∀ n, w (.awaiting n) = 0) : s.plain.slots.tally w = 0 := by
  refine Finset.sum_eq_zero fun p _ => ?_
  show w (s.pt p).pc.phase = 0
  rcases h p with ⟨last, hpt⟩ | ⟨n, v, hpt⟩
  · rw [hpt]
    exact hidle last
  · rw [hpt]
    exact hawaits n

omit [DecidableEq Pid] [DecidableEq α] in
theorem State.Resting.awaits [Fintype Pid] {s : State Pid α} (h : s.Resting) (i : Nat) :
    s.plain.slots.tally (Phase.awaits P i) = s.sleepers P i := by
  unfold State.sleepers Slots.tally
  rw [Finset.card_filter]
  refine Finset.sum_congr rfl fun p _ => ?_
  show (s.pt p).pc.phase.awaits P i = _
  rcases h p with ⟨last, hpt⟩ | ⟨n, v, hpt⟩
  · rw [hpt]
    rfl
  · rw [hpt]
    simp [Point.pc, Pc.phase, Phase.awaits, Point.sleeps]

/-- At rest nobody is about to wake, so nobody sleeps at a counter above 0. -/
theorem State.Resting.val_eq_zero [Fintype Pid] {s : State Pid α}
    (h : LTS.Reachable (State.system Pid α P) s) (hrest : s.Resting) {i : Nat}
    (hpos : 0 < s.sleepers P i) : s.queue.val i = 0 := by
  have hnonneg : 0 ≤ s.queue.val i := LFQueue.State.val_nonneg (reachable_plain h) i
  by_contra hne
  obtain ⟨p, hp⟩ := Finset.card_pos.mp hpos
  obtain ⟨r, hr⟩ := guarded h i p (Finset.mem_filter.mp hp).2 (by omega)
  rcases hrest r with ⟨last, hpt⟩ | ⟨n, v, hpt⟩
  · rw [hpt] at hr
    cases hr
  · rw [hpt] at hr
    cases hr

omit [DecidableEq α] in
theorem drawn_mono (P : LFParams) (i : Nat) {a b : Nat} (h : a ≤ b) :
    drawn P i a ≤ drawn P i b := by
  rw [drawn_between P i h]
  omega

omit [DecidableEq Pid] [DecidableEq α] in
/-- The counters balance the numbers drawn and the sleepers. -/
theorem State.Resting.counted [Fintype Pid] {s : State Pid α} (hrest : s.Resting)
    (hs : s.plain.slots.Balanced P) (i : Nat) :
    s.queue.val i + (drawn P i s.queue.pop_ : Int) =
      (s.sleepers P i : Int) + (drawn P i s.queue.push_ : Int) := by
  have hcount := hs.counted i
  rw [hrest.awaits, hrest.tally (fun _ => rfl) fun _ => rfl] at hcount
  have hcount' : s.queue.val i + (0 : Nat) + (drawn P i s.queue.pop_ : Int) =
    (s.sleepers P i : Int) + (drawn P i s.queue.push_ : Int) := hcount
  omega

/-- A thread asleep at rest: the pops are ahead of the pushes, and the queue is empty. -/
theorem State.Resting.empty [Fintype Pid] {s : State Pid α}
    (h : LTS.Reachable (State.system Pid α P) s) (hrest : s.Resting) {i₀ : Nat}
    (hpos : 0 < s.sleepers P i₀) :
    s.queue.push_ ≤ s.queue.pop_ ∧ ∀ i, s.queue.val i = 0 ∧ s.queue.data i = none := by
  have hbalanced := Slots.balanced (LFQueue.State.reachable_slots (reachable_plain h))
  have hahead : s.queue.push_ ≤ s.queue.pop_ := by
    by_contra hlt
    have hcount := hrest.counted hbalanced i₀
    have hmono := drawn_mono P i₀ (a := s.queue.pop_) (b := s.queue.push_) (by omega)
    have hzero := State.Resting.val_eq_zero h hrest hpos
    omega
  have hval : ∀ i, s.queue.val i = 0 := by
    intro i
    by_cases hi : 0 < s.sleepers P i
    · exact State.Resting.val_eq_zero h hrest hi
    · have hcount := hrest.counted hbalanced i
      have hmono := drawn_mono P i hahead
      have hnonneg : 0 ≤ s.queue.val i := LFQueue.State.val_nonneg (reachable_plain h) i
      omega
  refine ⟨hahead, fun i => ⟨hval i, ?_⟩⟩
  -- nobody is about to fill or to empty a cell
  have hpair := hbalanced.paired i
  rw [hrest.tally (fun _ => rfl) fun _ => rfl, hrest.tally (fun _ => rfl) fun _ => rfl] at hpair
  have hpair' : (if 1 ≤ s.queue.val i then 1 else 0) + 0 =
    (if (s.queue.data i).isSome then 1 else 0) + 0 := hpair
  rw [hval i, if_neg (by omega)] at hpair'
  by_contra hne
  rw [if_pos (Option.isSome_iff_ne_none.mpr hne)] at hpair'
  omega

/-- A thread asleep at a counter above 0 is about to be woken.  So at rest threads
    sleep only on an empty queue, and then every item of a push that has returned is
    taken, but for the overflows. -/
def State.NoneLost [Fintype Pid] (P : LFParams) (s : State Pid α) : Prop :=
  s.Guarded P ∧
    (s.Resting → (∃ i, 0 < s.sleepers P i) →
      (∀ i < P.capacity, s.queue.val i = 0 ∧ s.queue.data i = none ∧
        s.sleepers P i = ((Finset.Ico s.queue.push_ s.queue.pop_).filter (P.slot · = i)).card) ∧
      (Trace.returned s.trace : Multiset α) =
        ↑(Trace.taken s.trace) + ↑(Trace.overflowed s.trace))

/-- No wake-up is lost. -/
theorem noneLost [Fintype Pid] {s : State Pid α}
    (h : LTS.Reachable (State.system Pid α P) s) : s.NoneLost P := by
  refine ⟨guarded h, ?_⟩
  rintro hrest ⟨i₀, hpos⟩
  have hslots := LFQueue.State.reachable_slots (reachable_plain h)
  have hbalanced := Slots.balanced hslots
  obtain ⟨hahead, hempty⟩ := State.Resting.empty h hrest hpos
  refine ⟨fun i _ => ⟨(hempty i).1, (hempty i).2, ?_⟩, ?_⟩
  · have hcount := hrest.counted hbalanced i
    have hbetween := drawn_between P i hahead
    rw [(hempty i).1] at hcount
    omega
  · have hreturns := Slots.returns hslots
    have hitems := hbalanced.items
    rw [hrest.tally (fun _ => rfl) fun _ => rfl, hrest.tally (fun _ => rfl) fun _ => rfl,
      hrest.tally (fun _ => rfl) fun _ => rfl] at hreturns
    rw [hrest.tally (fun _ => rfl) fun _ => rfl] at hitems
    have hcells : s.plain.slots.mem.cells P = 0 := by
      refine Finset.sum_eq_zero fun i _ => ?_
      show inCell (s.queue.data i) = 0
      rw [(hempty i).2]
      rfl
    rw [hcells, add_zero, add_zero] at hitems
    rw [hitems, add_zero] at hreturns
    exact (add_zero _).symm.trans hreturns

end Futex

end LFQueue

end BlackSiren

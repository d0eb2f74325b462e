import BlackSiren.Framework.System
import BlackSiren.LFQueue.Queue

/-! # `LFQueue`: the atomic steps of several threads

    Every thread is at some point of `LFQueue::push` or `LFQueue::pop`, and one
    step is one atomic access of the source: drawing a number, reading a
    counter, a compare-and-swap, a fetch-and-add.

    - `Pc`: the points of the two calls, with the locals that are live there
    - `atomic`: what the access at such a point does
    - `State`, `next`, `system`: all threads, in any order
    - the projections of the trace

    `futex_wake` only makes waits return.  A wait may return at any time here,
    so waking leaves no trace in the state.
-/

namespace BlackSiren

namespace LFQueue

variable {Pid α : Type}

/-! ### Cells and counters of the array -/

/-- The counter of item `i`. -/
def val (q : LFQueue α) (i : Nat) : Int := (q.item_ i).counter_.val

/-- The cell of item `i`. -/
def data (q : LFQueue α) (i : Nat) : Option α := (q.item_ i).data_

/-- The same array but for item `i`. -/
def setItem (q : LFQueue α) (i : Nat) (it : LFItem α) : LFQueue α :=
  { q with item_ := Function.update q.item_ i it }

/-- `__sync_fetch_and_add(&val, d)`, and a successful swap to `val + d`. -/
def addVal (q : LFQueue α) (i : Nat) (d : Int) : LFQueue α :=
  let c := (q.item_ i).counter_
  q.setItem i { q.item_ i with counter_ := { c with val := c.val + d } }

/-- `__sync_add_and_fetch(&waiters, d)`. -/
def addWaiters (q : LFQueue α) (i : Nat) (d : Int) : LFQueue α :=
  let c := (q.item_ i).counter_
  q.setItem i { q.item_ i with counter_ := { c with waiters := c.waiters + d } }

/-- A successful swap of the cell. -/
def setData (q : LFQueue α) (i : Nat) (o : Option α) : LFQueue α :=
  q.setItem i { q.item_ i with data_ := o }

@[simp] theorem push_addVal (q : LFQueue α) (i : Nat) (d : Int) :
    (q.addVal i d).push_ = q.push_ := rfl

@[simp] theorem pop_addVal (q : LFQueue α) (i : Nat) (d : Int) :
    (q.addVal i d).pop_ = q.pop_ := rfl

@[simp] theorem push_addWaiters (q : LFQueue α) (i : Nat) (d : Int) :
    (q.addWaiters i d).push_ = q.push_ := rfl

@[simp] theorem pop_addWaiters (q : LFQueue α) (i : Nat) (d : Int) :
    (q.addWaiters i d).pop_ = q.pop_ := rfl

@[simp] theorem push_setData (q : LFQueue α) (i : Nat) (o : Option α) :
    (q.setData i o).push_ = q.push_ := rfl

@[simp] theorem pop_setData (q : LFQueue α) (i : Nat) (o : Option α) :
    (q.setData i o).pop_ = q.pop_ := rfl

theorem val_setItem (q : LFQueue α) (i : Nat) (it : LFItem α) :
    (q.setItem i it).val = Function.update q.val i it.counter_.val := by
  funext j
  by_cases h : j = i
  · subst h
    simp [val, setItem]
  · simp [val, setItem, h]

theorem data_setItem (q : LFQueue α) (i : Nat) (it : LFItem α) :
    (q.setItem i it).data = Function.update q.data i it.data_ := by
  funext j
  by_cases h : j = i
  · subst h
    simp [data, setItem]
  · simp [data, setItem, h]

@[simp] theorem val_addVal (q : LFQueue α) (i : Nat) (d : Int) :
    (q.addVal i d).val = Function.update q.val i (q.val i + d) :=
  val_setItem q i _

@[simp] theorem data_addVal (q : LFQueue α) (i : Nat) (d : Int) :
    (q.addVal i d).data = q.data :=
  (data_setItem q i _).trans (Function.update_eq_self i q.data)

@[simp] theorem val_addWaiters (q : LFQueue α) (i : Nat) (d : Int) :
    (q.addWaiters i d).val = q.val :=
  (val_setItem q i _).trans (Function.update_eq_self i q.val)

@[simp] theorem data_addWaiters (q : LFQueue α) (i : Nat) (d : Int) :
    (q.addWaiters i d).data = q.data :=
  (data_setItem q i _).trans (Function.update_eq_self i q.data)

@[simp] theorem val_setData (q : LFQueue α) (i : Nat) (o : Option α) :
    (q.setData i o).val = q.val :=
  (val_setItem q i _).trans (Function.update_eq_self i q.val)

@[simp] theorem data_setData (q : LFQueue α) (i : Nat) (o : Option α) :
    (q.setData i o).data = Function.update q.data i o :=
  data_setItem q i _

/-! ### One thread -/

/-- What a call returned. -/
inductive Ret (α : Type) where
  | push (status : Int)
  | pop (err : Int) (data : Option α)
  deriving DecidableEq

/-- The next atomic access of a thread; `n` is the number it has drawn, `v` the
    counter value it has read. -/
inductive Pc (α : Type) where
  /-- No call in progress. -/
  | idle (last : Option (Ret α))
  /-- `__sync_fetch_and_add(&push_, 1)` -/
  | pushDraw (x : α)
  /-- `inc_if_le0`: the read -/
  | incRead (x : α) (n : Nat)
  /-- `inc_if_le0`: the swap -/
  | incCas (x : α) (n : Nat) (v : Int)
  /-- `inc`, not blocking: the fetch-and-add -/
  | incAdd (x : α) (n : Nat)
  /-- `LFItem::push`: the swap that fills the cell -/
  | store (x : α) (n : Nat)
  /-- `LFItem::push` has returned. -/
  | pushed (x : α) (err : Int)
  /-- `__sync_fetch_and_add(&pop_, 1)` -/
  | popDraw
  /-- `dec_if_gt0`: the read, before or after a wait -/
  | decRead (n : Nat) (waited : Bool)
  /-- `dec_if_gt0`: the swap -/
  | decCas (n : Nat) (waited : Bool) (v : Int)
  /-- `dec`: one more waiter -/
  | waitEnter (n : Nat) (v : Int)
  /-- `futex_wait` -/
  | futexWait (n : Nat) (v : Int)
  /-- `dec`: the fetch-and-add after a timeout -/
  | decAdd (n : Nat)
  /-- `dec`: one waiter less -/
  | waitLeave (n : Nat) (v : Int)
  /-- `LFItem::pop`: the read of the cell -/
  | take (n : Nat)
  /-- `LFItem::pop`: the swap that empties the cell -/
  | takeCas (n : Nat) (d : α)
  /-- `LFItem::pop` has returned. -/
  | popped (data : Option α) (err : Int)
  deriving DecidableEq

/-- What a run records of its steps. -/
inductive Event (α : Type) where
  /-- `LFQueue::push` is called. -/
  | called (x : α)
  /-- `LFQueue::pop` is called. -/
  | wanted
  /-- A counter goes up from 0 for `x`. -/
  | accepted (x : α)
  /-- A counter above 0 goes up for `x`. -/
  | overflowed (x : α)
  /-- The cell of item `i` takes `x`. -/
  | filled (i : Nat) (x : α)
  /-- The cell of item `i` gives `x`. -/
  | taken (i : Nat) (x : α)
  /-- `LFQueue::push` returns. -/
  | returned (x : α) (status : Int)
  deriving DecidableEq

/-- `LFItem::push` after `inc`: what it does about the old value. -/
def incDone (x : α) (n : Nat) (old : Int) : Pc α × Option (Event α) :=
  if old < 0 then (.pushed x (-1), none)
  else if old > 0 then (.pushed x (-2), some (.overflowed x))
  else (.store x n, some (.accepted x))

/-- `LFItem::pop` after `dec`. -/
def decDone (n : Nat) (old : Int) : Pc α :=
  if old ≠ 1 then .popped none (-1) else .take n

/-- `ETIMEDOUT`. -/
def ETIMEDOUT : Int := 110

/-- The atomic access at a point of a call. `errno` is what a `futex_wait`
    returns; it has no other use. -/
def atomic [DecidableEq α] (P : LFParams) (q : LFQueue α) (errno : Nat) :
    Pc α → Option (LFQueue α × Pc α × Option (Event α))
  | .idle _ => none
  | .pushDraw x => some ({ q with push_ := q.push_ + 1 }, .incRead x q.push_, none)
  | .incRead x n =>
      let v := q.val (P.slot n)
      some (q, if v ≤ 0 then .incCas x n v else .incAdd x n, none)
  | .incCas x n v =>
      if q.val (P.slot n) = v then some (q.addVal (P.slot n) 1, incDone x n v)
      else some (q, .incRead x n, none)
  | .incAdd x n => some (q.addVal (P.slot n) 1, incDone x n (q.val (P.slot n)))
  | .store x n =>
      match q.data (P.slot n) with
      | none =>
          some (q.setData (P.slot n) (some x), .pushed x 0, some (.filled (P.slot n) x))
      | some _ => some (q, .store x n, none)
  | .pushed x err =>
      if err = 0 then
        some ({ q with queued_item_ := q.queued_item_ + 1 }, .idle (some (.push 0)),
          some (.returned x 0))
      else if err = -1 then some (q, .pushDraw x, none)
      else if err = -2 then some (q, .idle (some (.push 0)), some (.returned x 0))
      else some (q, .pushDraw x, none)
  | .popDraw => some ({ q with pop_ := q.pop_ + 1 }, .decRead q.pop_ false, none)
  | .decRead n waited =>
      let v := q.val (P.slot n)
      if v > 0 then some (q, .decCas n waited v, none)
      else some (q, if waited then .futexWait n v else .waitEnter n v, none)
  | .decCas n waited v =>
      if q.val (P.slot n) = v then
        some (q.addVal (P.slot n) (-1), if waited then .waitLeave n v else decDone n v, none)
      else some (q, .decRead n waited, none)
  | .waitEnter n v => some (q.addWaiters (P.slot n) 1, .futexWait n v, none)
  | .futexWait n _ => some (q, if -ETIMEDOUT = errno then .decAdd n else .decRead n true, none)
  | .decAdd n =>
      some (q.addVal (P.slot n) (-1), .waitLeave n (q.val (P.slot n)), none)
  | .waitLeave n v => some (q.addWaiters (P.slot n) (-1), decDone n v, none)
  | .take n =>
      match q.data (P.slot n) with
      | none => some (q, .take n, none)
      | some d => some (q, .takeCas n d, none)
  | .takeCas n d =>
      if q.data (P.slot n) = some d then
        some (q.setData (P.slot n) none, .popped (some d) 0, some (.taken (P.slot n) d))
      else some (q, .take n, none)
  | .popped data err =>
      some (if err = 0 then { q with queued_item_ := q.queued_item_ - 1 } else q,
        .idle (some (.pop err data)), none)

/-- The accesses, branch by branch: the point of the call, the queue and the point
    afterwards, and the event. -/
inductive Access (P : LFParams) (q : LFQueue α) :
    Pc α → LFQueue α → Pc α → Option (Event α) → Prop where
  | drawPush (x : α) :
      Access P q (.pushDraw x) { q with push_ := q.push_ + 1 } (.incRead x q.push_) none
  | readLow (x : α) (n : Nat) (h : q.val (P.slot n) ≤ 0) :
      Access P q (.incRead x n) q (.incCas x n (q.val (P.slot n))) none
  | readHigh (x : α) (n : Nat) : Access P q (.incRead x n) q (.incAdd x n) none
  | raise (x : α) (n : Nat) {v : Int} (h : q.val (P.slot n) = v) :
      Access P q (.incCas x n v) (q.addVal (P.slot n) 1) (incDone x n v).1 (incDone x n v).2
  | raiseMissed (x : α) (n : Nat) (v : Int) : Access P q (.incCas x n v) q (.incRead x n) none
  | add (x : α) (n : Nat) :
      Access P q (.incAdd x n) (q.addVal (P.slot n) 1) (incDone x n (q.val (P.slot n))).1
        (incDone x n (q.val (P.slot n))).2
  | fill (x : α) (n : Nat) (h : q.data (P.slot n) = none) :
      Access P q (.store x n) (q.setData (P.slot n) (some x)) (.pushed x 0)
        (some (.filled (P.slot n) x))
  | fillMissed (x : α) (n : Nat) : Access P q (.store x n) q (.store x n) none
  | count (x : α) :
      Access P q (.pushed x 0) { q with queued_item_ := q.queued_item_ + 1 }
        (.idle (some (.push 0))) (some (.returned x 0))
  | again (x : α) {err : Int} (hzero : err ≠ 0) (htwo : err ≠ -2) :
      Access P q (.pushed x err) q (.pushDraw x) none
  | refuse (x : α) :
      Access P q (.pushed x (-2)) q (.idle (some (.push 0))) (some (.returned x 0))
  | drawPop : Access P q .popDraw { q with pop_ := q.pop_ + 1 } (.decRead q.pop_ false) none
  | readPos (n : Nat) (waited : Bool) (h : 0 < q.val (P.slot n)) :
      Access P q (.decRead n waited) q (.decCas n waited (q.val (P.slot n))) none
  | readNone (n : Nat) (waited : Bool) :
      Access P q (.decRead n waited) q
        (if waited then .futexWait n (q.val (P.slot n)) else .waitEnter n (q.val (P.slot n))) none
  | lower (n : Nat) (waited : Bool) {v : Int} (h : q.val (P.slot n) = v) :
      Access P q (.decCas n waited v) (q.addVal (P.slot n) (-1))
        (if waited then .waitLeave n v else decDone n v) none
  | lowerMissed (n : Nat) (waited : Bool) (v : Int) :
      Access P q (.decCas n waited v) q (.decRead n waited) none
  | enter (n : Nat) (v : Int) :
      Access P q (.waitEnter n v) (q.addWaiters (P.slot n) 1) (.futexWait n v) none
  | wake (n : Nat) (v : Int) : Access P q (.futexWait n v) q (.decRead n true) none
  | timeout (n : Nat) :
      Access P q (.decAdd n) (q.addVal (P.slot n) (-1)) (.waitLeave n (q.val (P.slot n))) none
  | leave (n : Nat) (v : Int) :
      Access P q (.waitLeave n v) (q.addWaiters (P.slot n) (-1)) (decDone n v) none
  | look (n : Nat) {d : α} (h : q.data (P.slot n) = some d) :
      Access P q (.take n) q (.takeCas n d) none
  | lookMissed (n : Nat) : Access P q (.take n) q (.take n) none
  | empty (n : Nat) {d : α} (h : q.data (P.slot n) = some d) :
      Access P q (.takeCas n d) (q.setData (P.slot n) none) (.popped (some d) 0)
        (some (.taken (P.slot n) d))
  | emptyMissed (n : Nat) (d : α) : Access P q (.takeCas n d) q (.take n) none
  | uncount (data : Option α) :
      Access P q (.popped data 0) { q with queued_item_ := q.queued_item_ - 1 }
        (.idle (some (.pop 0 data))) none
  | fail (data : Option α) {err : Int} (h : err ≠ 0) :
      Access P q (.popped data err) q (.idle (some (.pop err data))) none

/-- There are no others. An `errno` is not negative, so it is never `-ETIMEDOUT`. -/
theorem access_of_atomic [DecidableEq α] {P : LFParams} {q : LFQueue α} {errno : Nat} {c : Pc α}
    {r : LFQueue α × Pc α × Option (Event α)} (h : atomic P q errno c = some r) :
    Access P q c r.1 r.2.1 r.2.2 := by
  cases c with
  | idle last => cases h
  | pushDraw x =>
    cases h
    exact .drawPush x
  | incRead x n =>
    cases h
    dsimp only
    split
    · next hle => exact .readLow x n hle
    · exact .readHigh x n
  | incCas x n v =>
    simp only [atomic] at h
    split at h
    · next heq =>
      cases h
      exact .raise x n heq
    · cases h
      exact .raiseMissed x n v
  | incAdd x n =>
    cases h
    exact .add x n
  | store x n =>
    simp only [atomic] at h
    split at h
    · next hnone =>
      cases h
      exact .fill x n hnone
    · cases h
      exact .fillMissed x n
  | pushed x err =>
    simp only [atomic] at h
    split at h
    · next hzero =>
      cases h
      rw [hzero]
      exact .count x
    · next hzero =>
      split at h
      · next hone =>
        cases h
        exact .again x hzero (by omega)
      · split at h
        · next htwo =>
          cases h
          rw [htwo]
          exact .refuse x
        · next htwo =>
          cases h
          exact .again x hzero htwo
  | popDraw =>
    cases h
    exact .drawPop
  | decRead n waited =>
    simp only [atomic] at h
    split at h
    · next hpos =>
      cases h
      exact .readPos n waited hpos
    · cases h
      exact .readNone n waited
  | decCas n waited v =>
    simp only [atomic] at h
    split at h
    · next heq =>
      cases h
      exact .lower n waited heq
    · cases h
      exact .lowerMissed n waited v
  | waitEnter n v =>
    cases h
    exact .enter n v
  | futexWait n v =>
    have hne : ¬ -ETIMEDOUT = (errno : Int) := by
      unfold ETIMEDOUT
      omega
    simp only [atomic, hne, if_false] at h
    cases h
    exact .wake n v
  | decAdd n =>
    cases h
    exact .timeout n
  | waitLeave n v =>
    cases h
    exact .leave n v
  | take n =>
    simp only [atomic] at h
    split at h
    · cases h
      exact .lookMissed n
    · next d hsome =>
      cases h
      exact .look n hsome
  | takeCas n d =>
    simp only [atomic] at h
    split at h
    · next hsome =>
      cases h
      exact .empty n hsome
    · cases h
      exact .emptyMissed n d
  | popped data err =>
    cases h
    dsimp only
    by_cases hzero : err = 0
    · rw [if_pos hzero, hzero]
      exact .uncount data
    · rw [if_neg hzero]
      exact .fail data hzero

/-! ### All threads -/

/-- The queue, where each thread is, and the events so far with their threads. -/
structure State (Pid α : Type) where
  queue : LFQueue α
  pc : Pid → Pc α
  trace : List (Pid × Event α)

inductive Label (Pid α : Type) where
  | push (p : Pid) (x : α)
  | pop (p : Pid)
  | step (p : Pid) (errno : Nat)

namespace State

/-- A new queue, nobody in a call. -/
def new : State Pid α where
  queue := LFQueue.new
  pc := fun _ => .idle none
  trace := []

variable [DecidableEq Pid] [DecidableEq α]

/-- A call begins, or the thread of a call makes its next access. -/
def next (P : LFParams) (s : State Pid α) : Label Pid α → Option (State Pid α)
  | .push p x =>
      match s.pc p with
      | .idle _ => some { s with
          pc := Function.update s.pc p (.pushDraw x)
          trace := s.trace ++ [(p, .called x)] }
      | _ => none
  | .pop p =>
      match s.pc p with
      | .idle _ => some { s with
          pc := Function.update s.pc p .popDraw
          trace := s.trace ++ [(p, .wanted)] }
      | _ => none
  | .step p errno =>
      (atomic P s.queue errno (s.pc p)).map fun r =>
        { queue := r.1
          pc := Function.update s.pc p r.2.1
          trace := s.trace ++ (r.2.2.map (p, ·)).toList }

/-- Any number of threads, any order of steps. -/
def system (Pid α : Type) [DecidableEq Pid] [DecidableEq α] (P : LFParams) :
    LTS.System (State Pid α) (Label Pid α) :=
  .ofFn (· = new) (next P)

/-- No operation is in progress. -/
def Quiet (s : State Pid α) : Prop := ∀ p, ∃ last, s.pc p = .idle last

end State

/-! ### Reading a trace -/

namespace Trace

/-- The calls of `push`, in order. -/
def calls (tr : List (Pid × Event α)) : List (Pid × α) :=
  tr.filterMap fun e => match e.2 with
    | .called x => some (e.1, x)
    | _ => none

/-- Their items. -/
def called (tr : List (Pid × Event α)) : List α := (calls tr).map Prod.snd

/-- The items whose claim raised a counter from 0. -/
def accepted (tr : List (Pid × Event α)) : List α :=
  tr.filterMap fun e => match e.2 with
    | .accepted x => some x
    | _ => none

/-- The items whose claim found a counter above 0. -/
def overflowed (tr : List (Pid × Event α)) : List α :=
  tr.filterMap fun e => match e.2 with
    | .overflowed x => some x
    | _ => none

/-- The items put into cells, each with its item's index. -/
def fills (tr : List (Pid × Event α)) : List (Nat × α) :=
  tr.filterMap fun e => match e.2 with
    | .filled i x => some (i, x)
    | _ => none

/-- The items taken from cells, each with its item's index. -/
def takes (tr : List (Pid × Event α)) : List (Nat × α) :=
  tr.filterMap fun e => match e.2 with
    | .taken i x => some (i, x)
    | _ => none

/-- The items returned by successful pops, in order. -/
def taken (tr : List (Pid × Event α)) : List α := (takes tr).map Prod.snd

/-- The items for which `push` returned 0. -/
def returned (tr : List (Pid × Event α)) : List α :=
  tr.filterMap fun e => match e.2 with
    | .returned x status => if status = 0 then some x else none
    | _ => none

@[simp] theorem calls_append (tr tr' : List (Pid × Event α)) :
    calls (tr ++ tr') = calls tr ++ calls tr' :=
  List.filterMap_append

@[simp] theorem called_append (tr tr' : List (Pid × Event α)) :
    called (tr ++ tr') = called tr ++ called tr' := by
  simp [called]

@[simp] theorem accepted_append (tr tr' : List (Pid × Event α)) :
    accepted (tr ++ tr') = accepted tr ++ accepted tr' :=
  List.filterMap_append

@[simp] theorem overflowed_append (tr tr' : List (Pid × Event α)) :
    overflowed (tr ++ tr') = overflowed tr ++ overflowed tr' :=
  List.filterMap_append

@[simp] theorem fills_append (tr tr' : List (Pid × Event α)) :
    fills (tr ++ tr') = fills tr ++ fills tr' :=
  List.filterMap_append

@[simp] theorem takes_append (tr tr' : List (Pid × Event α)) :
    takes (tr ++ tr') = takes tr ++ takes tr' :=
  List.filterMap_append

@[simp] theorem taken_append (tr tr' : List (Pid × Event α)) :
    taken (tr ++ tr') = taken tr ++ taken tr' := by
  simp [taken]

@[simp] theorem returned_append (tr tr' : List (Pid × Event α)) :
    returned (tr ++ tr') = returned tr ++ returned tr' :=
  List.filterMap_append

end Trace

end LFQueue

end BlackSiren

import BlackSiren.Framework.BoundedFifo
import Mathlib.Data.Int.ModEq
import Mathlib.Data.Nat.Bitwise

/-! # `LFQueue`: the data and its operations

    The queue is an array of items, each a counter and a cell for a pointer.
    `push` draws a sequence number, claims the item it maps to by raising the
    counter from 0, and fills the cell; `pop` does the reverse.

    This module has the operations as a single thread executes them: a call
    that would wait or spin for another thread has no result.  The atomic steps
    of several threads are in `BlackSiren.LFQueue.Steps`.
-/

namespace BlackSiren

/-- The geometry of a queue: `2 ^ k` items, indexed by counters of `w` bits. -/
structure LFParams where
  k : Nat
  w : Nat
  hk : k ≤ w

namespace LFParams

/-- The number of items, a power of two. -/
def capacity (P : LFParams) : Nat := 2 ^ P.k

/-- `pos_mask_`. -/
def pos_mask_ (P : LFParams) : Nat := P.capacity - 1

/-- The item that the `n`-th number drawn maps to: the counter holds `n`
    modulo `2 ^ w`. -/
def slot (P : LFParams) (n : Nat) : Nat := (n % 2 ^ P.w) &&& P.pos_mask_

theorem capacity_pos (P : LFParams) : 0 < P.capacity := Nat.two_pow_pos P.k

/-- The wrap-around of the counters does not show in the items. -/
theorem slot_eq (P : LFParams) (n : Nat) : P.slot n = n % P.capacity := by
  unfold slot pos_mask_ capacity
  rw [Nat.and_two_pow_sub_one_eq_mod]
  exact Nat.mod_mod_of_dvd n (pow_dvd_pow 2 P.hk)

theorem slot_lt (P : LFParams) (n : Nat) : P.slot n < P.capacity := by
  rw [slot_eq]
  exact Nat.mod_lt n P.capacity_pos

theorem slot_add_capacity (P : LFParams) (n : Nat) : P.slot (n + P.capacity) = P.slot n := by
  rw [slot_eq, slot_eq, Nat.add_mod_right]

/-- Numbers less than a lap apart map to different items. -/
theorem slot_inj (P : LFParams) {m n : Nat} (hle : m ≤ n) (hlap : n < m + P.capacity)
    (h : P.slot m = P.slot n) : m = n := by
  rw [slot_eq, slot_eq] at h
  have hdvd : P.capacity ∣ n - m := (Nat.modEq_iff_dvd' hle).mp h
  have hzero : n - m = 0 := Nat.eq_zero_of_dvd_of_lt hdvd (by omega)
  omega

end LFParams

/-- `LFCounter`. `val` counts the numbers drawn for its item and not yet consumed.
    Unbounded integers stand for its `int`s here; in `BlackSiren.LFQueue.Ints` they
    wrap around. -/
structure LFCounter where
  val : Int
  waiters : Int
  deriving DecidableEq, Repr

/-- `LFItem`; the null pointer is `none`. -/
structure LFItem (α : Type) where
  counter_ : LFCounter
  data_ : Option α
  deriving DecidableEq, Repr

/-- `LFQueue`; `push_` and `pop_` are the numbers drawn so far. -/
structure LFQueue (α : Type) where
  push_ : Nat
  pop_ : Nat
  item_ : Nat → LFItem α
  queued_item_ : Int

/-! ### Counters -/

namespace LFCounter

/-- `inc_if_le0`: the value read, and the counter. -/
def incIfLe0 (c : LFCounter) : Int × LFCounter :=
  if c.val ≤ 0 then (c.val, { c with val := c.val + 1 }) else (c.val, c)

/-- `dec_if_gt0`. -/
def decIfGt0 (c : LFCounter) : Int × LFCounter :=
  if c.val > 0 then (c.val, { c with val := c.val - 1 }) else (c.val, c)

/-- `inc` with `block = false`: the value before. -/
def inc (c : LFCounter) : Int × LFCounter :=
  let (val, c) := c.incIfLe0
  if val ≤ 0 then (val, c) else (c.val, { c with val := c.val + 1 })

/-- `dec`: without another thread a counter that is not positive stays so, and
    the call waits for ever. -/
def dec (c : LFCounter) : Option (Int × LFCounter) :=
  let (val, c) := c.decIfGt0
  if val > 0 then some (val, c) else none

theorem inc_val (c : LFCounter) : c.inc.1 = c.val ∧ c.inc.2.val = c.val + 1 := by
  by_cases h : c.val ≤ 0
  · simp [inc, incIfLe0, h]
  · simp [inc, incIfLe0, h]

theorem dec_of_pos {c : LFCounter} (h : 0 < c.val) :
    c.dec = some (c.val, { c with val := c.val - 1 }) := by
  simp [dec, decIfGt0, h]

end LFCounter

/-! ### Items -/

namespace LFItem

variable {α : Type}

/-- `LFItem::push`: 0, -1 or -2. Filling the cell spins until it is null. -/
def push (it : LFItem α) (pdata : α) : Option (Int × LFItem α) :=
  let (old_val, counter_) := it.counter_.inc
  let it := { it with counter_ := counter_ }
  if old_val < 0 then some (-1, it)
  else if old_val > 0 then some (-2, it)
  else
    match it.data_ with
    | none => some (0, { it with data_ := some pdata })
    | some _ => none

/-- `LFItem::pop`: 0 and the item, or -1. Emptying the cell spins until it is
    not null. -/
def pop (it : LFItem α) : Option (Int × Option α × LFItem α) :=
  match it.counter_.dec with
  | none => none
  | some (val, counter_) =>
      let it := { it with counter_ := counter_ }
      if val ≠ 1 then some (-1, none, it)
      else
        match it.data_ with
        | none => none
        | some data => some (0, some data, { it with data_ := none })

/-- An empty item takes the pointer. -/
theorem push_empty {it : LFItem α} (x : α) (hval : it.counter_.val = 0) (hdata : it.data_ = none) :
    ∃ it', it.push x = some (0, it') ∧ it'.counter_.val = 1 ∧ it'.data_ = some x := by
  obtain ⟨hold, hnew⟩ := it.counter_.inc_val
  rw [hval] at hold hnew
  refine ⟨{ counter_ := it.counter_.inc.2, data_ := some x }, ?_, hnew, rfl⟩
  simp [push, hold, hdata]

/-- A claimed item counts the push and refuses it. -/
theorem push_claimed {it : LFItem α} (x : α) (hval : 0 < it.counter_.val) :
    ∃ it', it.push x = some (-2, it') ∧ it'.counter_.val = it.counter_.val + 1 ∧
      it'.data_ = it.data_ := by
  obtain ⟨hold, hnew⟩ := it.counter_.inc_val
  refine ⟨{ it with counter_ := it.counter_.inc.2 }, ?_, hnew, rfl⟩
  have hneg : ¬ it.counter_.val < 0 := by omega
  simp [push, hold, hneg, hval]

/-- A filled item gives its pointer back. -/
theorem pop_filled {it : LFItem α} {x : α} (hval : it.counter_.val = 1)
    (hdata : it.data_ = some x) :
    ∃ it', it.pop = some (0, some x, it') ∧ it'.counter_.val = 0 ∧ it'.data_ = none := by
  refine ⟨{ counter_ := { it.counter_ with val := it.counter_.val - 1 }, data_ := none },
    ?_, by simp [hval], rfl⟩
  have hdec := LFCounter.dec_of_pos (c := it.counter_) (by omega)
  simp [pop, hdec, hval, hdata]

/-- An item that has refused a push refuses the next pop too. -/
theorem pop_overflowed {it : LFItem α} (hval : 2 ≤ it.counter_.val) :
    ∃ it', it.pop = some (-1, none, it') := by
  have hdec := LFCounter.dec_of_pos (c := it.counter_) (by omega)
  have hne : it.counter_.val ≠ 1 := by omega
  refine ⟨{ it with counter_ := { it.counter_ with val := it.counter_.val - 1 } }, ?_⟩
  simp [pop, hdec, hne]

end LFItem

/-! ### The queue -/

namespace LFQueue

variable {α : Type}

/-- The constructor, on zeroed memory. -/
def new : LFQueue α where
  push_ := 0
  pop_ := 0
  item_ := fun _ => ⟨⟨0, 0⟩, none⟩
  queued_item_ := 0

/-- The loop of `push`: the last `err`. Only -1 leads to another turn. -/
def pushLoop (P : LFParams) (data : α) : Nat → LFQueue α → Option (Int × LFQueue α)
  | 0, _ => none
  | fuel + 1, q =>
      let i := P.slot q.push_
      match (q.item_ i).push data with
      | none => none
      | some (err, it) =>
          let q := { q with push_ := q.push_ + 1, item_ := Function.update q.item_ i it }
          if err = 0 then some (0, { q with queued_item_ := q.queued_item_ + 1 })
          else if err = -1 then pushLoop P data fuel q
          else some (err, q)

/-- `push`: returns 0 whatever `err` is. -/
def push (P : LFParams) (data : α) (fuel : Nat) (q : LFQueue α) : Option (Int × LFQueue α) :=
  (pushLoop P data fuel q).map fun r => (0, r.2)

/-- `pop`: `err` and the item. -/
def pop (P : LFParams) (q : LFQueue α) : Option (Int × Option α × LFQueue α) :=
  let i := P.slot q.pop_
  match (q.item_ i).pop with
  | none => none
  | some (err, data, it) =>
      let q := { q with pop_ := q.pop_ + 1, item_ := Function.update q.item_ i it }
      some (err, data,
        if err = 0 then { q with queued_item_ := q.queued_item_ - 1 } else q)

end LFQueue

end BlackSiren

import Mathlib.Tactic.Basic

/-! # Condition variables

    One thread in `cond.wait(lock, predicate)`, where the predicate is a flag:

    - `Waiter`: where the thread is in the call
    - `Waiter.run`: its steps; the lock is held from the look at the flag to the
      moment the thread sleeps
    - `Waiter.notify` and `Waiter.spurious`: how a sleeping thread wakes
    - `Waiter.Heard`: a thread that has seen the flag false is right about it.
      This holds at all times if the flag is set under the lock, and it is what a
      wake-up lost in the middle of the call breaks
-/

namespace CondVar

/-- A thread in `cond.wait(lock, predicate)`. -/
inductive Waiter where
  /-- About to take the lock and look at the flag. -/
  | checking
  /-- Has seen the flag false and still has the lock. -/
  | blocking
  /-- Has released the lock and sleeps. -/
  | asleep
  deriving DecidableEq

namespace Waiter

/-- One step of the thread, none while it sleeps; `some none` is the return of
    the call, with the lock. -/
def run (flag : Bool) : Waiter → Option (Option Waiter)
  | .checking => some (if flag then none else some .blocking)
  | .blocking => some (some .asleep)
  | .asleep => none

/-- `notify_one` -/
def notify : Waiter → Waiter
  | .asleep => .checking
  | w => w

/-- The thread wakes up without being notified. -/
def spurious : Waiter → Option Waiter
  | .asleep => some .checking
  | _ => none

/-- What the thread has seen of the flag is still so. -/
def Heard (w : Waiter) (flag : Bool) : Prop := w ≠ .checking → flag = false

/-- Only a sleeping thread does not move. -/
theorem run_eq_none {w : Waiter} {flag : Bool} : w.run flag = none ↔ w = .asleep := by
  cases w <;> simp [run]

theorem heard_checking (flag : Bool) : Heard .checking flag := by
  intro h
  exact absurd rfl h

theorem Heard.run {w w' : Waiter} {flag : Bool} (h : w.Heard flag)
    (hrun : w.run flag = some (some w')) : w'.Heard flag := by
  cases w with
  | checking =>
    cases flag with
    | false => intro _; rfl
    | true => cases hrun
  | blocking =>
    intro _
    apply h
    intro hw
    cases hw
  | asleep => cases hrun

theorem Heard.spurious {w w' : Waiter} {flag : Bool} (h : w.spurious = some w') :
    w'.Heard flag := by
  cases w with
  | asleep => cases h; exact heard_checking flag
  | checking => cases h
  | blocking => cases h

/-- A notification is heard unless it comes between the look at the flag and the
    sleep. -/
theorem heard_notify {w : Waiter} {flag : Bool} (h : w ≠ .blocking) : w.notify.Heard flag := by
  cases w with
  | checking => exact heard_checking flag
  | blocking => exact absurd rfl h
  | asleep => exact heard_checking flag

/-- The call returns only when the flag is set. -/
theorem flag_of_run {w : Waiter} {flag : Bool} (h : w.run flag = some none) : flag = true := by
  cases w with
  | checking => cases flag with
    | false => cases h
    | true => rfl
  | blocking => cases h
  | asleep => cases h

end Waiter

end CondVar

import BlackSiren.Channel.Message
import BlackSiren.Framework.System
import Mathlib.Data.List.Induction

/-! # `SirenSocketWriter::writeMessage`

    Any number of threads write messages.  A thread holds `writeGuard` from
    before its write until after it, and the kernel takes the bytes of a write a
    few at a time.  So between writes the stream is the messages one after the
    other, in the order in which the threads got the lock (`stream_eq`).
-/

namespace BlackSiren

/-- A message as it lies in the sender's memory. -/
structure Sent where
  m : Message
  spare : Nat → UInt8

def Sent.bytes (s : Sent) : List UInt8 := s.m.bytes s.spare

/-- Who holds the lock with which bytes still to write, the messages whose write
    has begun, and the stream. -/
structure Writers (Pid : Type) where
  holder : Option (Pid × List UInt8)
  sent : List Sent
  wire : List UInt8

/-- `lock_guard` and the call of `write`; the kernel takes up to `k` bytes;
    `write` returns and the lock is released. -/
inductive WriteLabel (Pid : Type) where
  | lock (p : Pid) (s : Sent)
  | chunk (p : Pid) (k : Nat)
  | unlock (p : Pid)

namespace Writers

variable {Pid : Type}

inductive Step : Writers Pid → WriteLabel Pid → Writers Pid → Prop
  | lock (w : Writers Pid) (p : Pid) (s : Sent) (h : w.holder = none) :
      Step w (.lock p s) { w with holder := some (p, s.bytes), sent := w.sent ++ [s] }
  | chunk (w : Writers Pid) (p : Pid) (k : Nat) (rest : List UInt8)
      (h : w.holder = some (p, rest)) :
      Step w (.chunk p k)
        { w with holder := some (p, rest.drop k), wire := w.wire ++ rest.take k }
  | unlock (w : Writers Pid) (p : Pid) (h : w.holder = some (p, [])) :
      Step w (.unlock p) { w with holder := none }

/-- Nothing sent. -/
def new : Writers Pid := ⟨none, [], []⟩

def system (Pid : Type) : LTS.System (Writers Pid) (WriteLabel Pid) where
  init := (· = new)
  step := Step

/-- The bytes that the holder of the lock has still to write. -/
def pending (w : Writers Pid) : List UInt8 :=
  match w.holder with
  | none => []
  | some (_, rest) => rest

/-- The stream, with what is being written, is the messages. -/
theorem wire_pending {w : Writers Pid} (h : LTS.Reachable (system Pid) w) :
    w.wire ++ w.pending = w.sent.flatMap Sent.bytes := by
  refine LTS.invariant (system Pid) (fun w => w.wire ++ w.pending = w.sent.flatMap Sent.bytes)
    ?_ ?_ h
  · intro w hw
    rw [show w = new from hw]
    rfl
  · intro w l w' hinv hstep
    cases hstep with
    | lock p s hfree =>
      have hpending : w.pending = [] := by simp [pending, hfree]
      rw [hpending, List.append_nil] at hinv
      show w.wire ++ s.bytes = (w.sent ++ [s]).flatMap Sent.bytes
      rw [hinv, List.flatMap_append, List.flatMap_singleton]
    | chunk p k rest hheld =>
      have hpending : w.pending = rest := by simp [pending, hheld]
      rw [hpending] at hinv
      show w.wire ++ rest.take k ++ rest.drop k = _
      rw [List.append_assoc, List.take_append_drop, hinv]
    | unlock p hheld =>
      have hpending : w.pending = [] := by simp [pending, hheld]
      rw [hpending] at hinv
      exact hinv

/-- Between writes the stream is the messages one after the other. -/
theorem stream_eq {w : Writers Pid} (h : LTS.Reachable (system Pid) w) (hfree : w.holder = none) :
    w.wire = w.sent.flatMap Sent.bytes := by
  have hwire := wire_pending h
  have hpending : w.pending = [] := by simp [pending, hfree]
  rwa [hpending, List.append_nil] at hwire

/-- One thread can write any messages. -/
theorem exists_written (Pid : Type) [Inhabited Pid] (l : List Sent) :
    ∃ w : Writers Pid, LTS.Reachable (system Pid) w ∧ w.holder = none ∧ w.sent = l := by
  induction l using List.reverseRecOn with
  | nil => exact ⟨new, .init rfl, rfl, rfl⟩
  | append_singleton l s ih =>
    obtain ⟨w, hw, hfree, hsent⟩ := ih
    have h₁ := LTS.Reachable.step _ hw (Step.lock w default s hfree)
    have h₂ := LTS.Reachable.step _ h₁ (Step.chunk _ default s.bytes.length s.bytes rfl)
    have h₃ := LTS.Reachable.step _ h₂ (Step.unlock _ default (by simp))
    refine ⟨_, h₃, rfl, ?_⟩
    show w.sent ++ [s] = l ++ [s]
    rw [hsent]

end Writers

end BlackSiren

import Mathlib.Data.List.Basic

/-! # Bounded queues

    What a first-in first-out queue of limited capacity is supposed to do, as
    the sequence of results its operations give:

    - `step` and `results`: the specification
    - `PopsHeld`, `RoomForPushes`: sequences that pop only what is held, or push
      only where there is room
    - `drained`: a sequence followed by pops for everything still held
-/

namespace BoundedFifo

variable {α : Type*}

/-- The operations. -/
inductive Op (α : Type*) where
  | push (x : α)
  | pop

/-- Their results: whether the item was accepted, the item returned if any. -/
inductive Out (α : Type*) where
  | pushed (accepted : Bool)
  | popped (item : Option α)
  deriving DecidableEq

/-- One operation on the items held, oldest first. -/
def step (cap : Nat) (held : List α) : Op α → Out α × List α
  | .push x => if held.length < cap then (.pushed true, held ++ [x]) else (.pushed false, held)
  | .pop => (.popped held.head?, held.tail)

/-- The results of a sequence of operations. -/
def results (cap : Nat) : List α → List (Op α) → List (Out α)
  | _, [] => []
  | held, op :: ops => (step cap held op).1 :: results cap (step cap held op).2 ops

/-- Every pop finds an item. -/
def PopsHeld (cap : Nat) : List α → List (Op α) → Prop
  | _, [] => True
  | held, .push x :: ops => PopsHeld cap (step cap held (.push x)).2 ops
  | held, .pop :: ops => held ≠ [] ∧ PopsHeld cap held.tail ops

/-- Every push finds room. -/
def RoomForPushes (cap : Nat) : List α → List (Op α) → Prop
  | _, [] => True
  | held, .push x :: ops => held.length < cap ∧ RoomForPushes cap (held ++ [x]) ops
  | held, .pop :: ops => RoomForPushes cap held.tail ops

/-- The sequence, then one pop for each item that is still held. -/
def drained (cap : Nat) : List α → List (Op α) → List (Op α)
  | held, [] => List.replicate held.length .pop
  | held, op :: ops => op :: drained cap (step cap held op).2 ops

instance decidablePopsHeld (cap : Nat) :
    ∀ (held : List α) (ops : List (Op α)), Decidable (PopsHeld cap held ops)
  | _, [] => isTrue trivial
  | held, .push x :: ops => decidablePopsHeld cap (step cap held (.push x)).2 ops
  | [], .pop :: _ => isFalse fun h => h.1 rfl
  | x :: held, .pop :: ops =>
      match decidablePopsHeld cap held ops with
      | isTrue h => isTrue ⟨List.cons_ne_nil x held, h⟩
      | isFalse h => isFalse fun h' => h h'.2

theorem step_push_room {cap : Nat} (held : List α) (x : α) (h : held.length < cap) :
    step cap held (.push x) = (.pushed true, held ++ [x]) := by
  simp [step, h]

theorem step_push_full {cap : Nat} (held : List α) (x : α) (h : ¬ held.length < cap) :
    step cap held (.push x) = (.pushed false, held) := by
  simp [step, h]

end BoundedFifo

import Mathlib.Data.List.Basic

/-! # Buffers

    A block of memory as its bytes, written and read at offsets:

    - `store` and `slice`
    - `Write`: a write or a copy inside the block, and `writes`
    - what writing and reading a middle part does to the whole
-/

namespace Buffers

/-- Overwrite the bytes from `off` on. -/
def store (buf : List UInt8) (off : Nat) (bs : List UInt8) : List UInt8 :=
  buf.take off ++ bs ++ buf.drop (off + bs.length)

/-- The `n` bytes from `off` on, if they are in the block. -/
def slice (buf : List UInt8) (off n : Nat) : Option (List UInt8) :=
  if off + n ≤ buf.length then some ((buf.drop off).take n) else none

/-- One access that writes: given bytes, or bytes of the block. -/
inductive Write where
  | put (off : Nat) (bs : List UInt8)
  | copy (dst src n : Nat)

namespace Write

/-- The first byte written. -/
def start : Write → Nat
  | put off _ => off
  | copy dst _ _ => dst

/-- Behind the last byte written. -/
def stop : Write → Nat
  | put off bs => off + bs.length
  | copy dst _ n => dst + n

/-- Behind the last byte touched. -/
def reach : Write → Nat
  | put off bs => off + bs.length
  | copy dst src n => max dst src + n

/-- The same access relative to another origin. -/
def shift (k : Nat) : Write → Write
  | put off bs => put (k + off) bs
  | copy dst src n => copy (k + dst) (k + src) n

def run (buf : List UInt8) : Write → List UInt8
  | put off bs => store buf off bs
  | copy dst src n => store buf dst ((buf.drop src).take n)

theorem start_shift (k : Nat) (w : Write) : (w.shift k).start = k + w.start := by
  cases w <;> rfl

theorem stop_shift (k : Nat) (w : Write) : (w.shift k).stop = k + w.stop := by
  cases w with
  | put off bs => exact Nat.add_assoc _ _ _
  | copy dst src n => exact Nat.add_assoc _ _ _

theorem stop_le_reach (w : Write) : w.stop ≤ w.reach := by
  cases w with
  | put off bs => exact Nat.le_refl _
  | copy dst src n =>
    show dst + n ≤ max dst src + n
    omega

end Write

/-- One access after the other. -/
def writes (buf : List UInt8) (ws : List Write) : List UInt8 := ws.foldl Write.run buf

theorem writes_append (buf : List UInt8) (ws ws' : List Write) :
    writes buf (ws ++ ws') = writes (writes buf ws) ws' :=
  List.foldl_append

theorem length_store {buf bs : List UInt8} {off : Nat} (h : off + bs.length ≤ buf.length) :
    (store buf off bs).length = buf.length := by
  unfold store
  rw [List.length_append, List.length_append, List.length_take_of_le (by omega), List.length_drop]
  omega

/-- A write inside the middle part. -/
theorem store_middle (a b c : List UInt8) {off : Nat} {bs : List UInt8}
    (h : off + bs.length ≤ b.length) :
    store (a ++ b ++ c) (a.length + off) bs = a ++ store b off bs ++ c := by
  unfold store
  rw [List.append_assoc a b c, List.take_length_add_append, Nat.add_assoc,
    List.drop_length_add_append, List.take_append_of_le_length (by omega),
    List.drop_append_of_le_length h]
  simp only [List.append_assoc]

/-- An access that stays inside the middle part. -/
theorem run_middle (a b c : List UInt8) {w : Write} (h : w.reach ≤ b.length) :
    (w.shift a.length).run (a ++ b ++ c) = a ++ w.run b ++ c ∧
      (w.run b).length = b.length := by
  cases w with
  | put off bs => exact ⟨store_middle a b c h, length_store h⟩
  | copy dst src n =>
    have h' : max dst src + n ≤ b.length := h
    have hsrc : ((a ++ b ++ c).drop (a.length + src)).take n = (b.drop src).take n := by
      rw [List.append_assoc, List.drop_length_add_append, List.drop_append_of_le_length (by omega),
        List.take_append_of_le_length (by rw [List.length_drop]; omega)]
    have hlen : ((b.drop src).take n).length = n :=
      List.length_take_of_le (by rw [List.length_drop]; omega)
    refine ⟨?_, length_store (by rw [hlen]; omega)⟩
    show store (a ++ b ++ c) (a.length + dst) (((a ++ b ++ c).drop (a.length + src)).take n) = _
    rw [hsrc]
    exact store_middle a b c (by rw [hlen]; omega)

/-- Accesses that stay inside the middle part. -/
theorem writes_middle (a b c : List UInt8) {ws : List Write}
    (h : ∀ w ∈ ws, w.reach ≤ b.length) :
    writes (a ++ b ++ c) (ws.map (Write.shift a.length)) = a ++ writes b ws ++ c := by
  induction ws generalizing b with
  | nil => rfl
  | cons w ws ih =>
    obtain ⟨hrun, hlen⟩ := run_middle a b c (h w List.mem_cons_self)
    show writes ((w.shift a.length).run (a ++ b ++ c)) (ws.map _) = a ++ writes (w.run b) ws ++ c
    rw [hrun]
    refine ih (w.run b) fun w' hw' => ?_
    rw [hlen]
    exact h w' (List.mem_cons_of_mem w hw')

theorem Write.shift_zero (w : Write) : w.shift 0 = w := by
  cases w <;> simp [shift]

/-- Accesses that stay inside the first part. -/
theorem writes_left (b c : List UInt8) {ws : List Write} (h : ∀ w ∈ ws, w.reach ≤ b.length) :
    writes (b ++ c) ws = writes b ws ++ c := by
  have hmiddle := writes_middle [] b c h
  have hmap : ws.map (Write.shift ([] : List UInt8).length) = ws := by
    rw [List.length_nil, show Write.shift 0 = id from funext Write.shift_zero, List.map_id]
  rwa [hmap] at hmiddle

/-- Writing on where what has been written ends. -/
theorem store_next (a bs c : List UInt8) :
    store (a ++ c) a.length bs = a ++ bs ++ c.drop bs.length := by
  unfold store
  rw [List.take_left' rfl, List.drop_length_add_append]

/-- Reading inside the middle part. -/
theorem slice_middle (a b c : List UInt8) {off n : Nat} (h : off + n ≤ b.length) :
    slice (a ++ b ++ c) (a.length + off) n = some ((b.drop off).take n) := by
  unfold slice
  rw [if_pos (by simp only [List.length_append]; omega), List.append_assoc,
    List.drop_length_add_append, List.drop_append_of_le_length (by omega),
    List.take_append_of_le_length (by rw [List.length_drop]; omega)]

end Buffers

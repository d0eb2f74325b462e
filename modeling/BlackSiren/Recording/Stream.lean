import BlackSiren.Framework.System
import Mathlib.Algebra.Order.BigOperators.Group.List
import Mathlib.Algebra.Order.Ring.Nat
import Mathlib.Algebra.Group.Action.Defs

/-! # The recording socket

    `RecordingThread::recordingFn` writes frames to a stream socket and
    `SirenBase::loopRecording` reads them back, one `read` a frame.  A stream
    keeps no boundaries: a `read` of `frameSize` bytes is given what is there,
    or less.

    - `MicConfig.frameSize`: the size both sides compute
    - `loopRecording`: one turn of the loop after its `read`
    - `system`: frames written whole, reads of any size
    - `InStep`: the k-th frame handed to the preprocessor is the k-th written
-/

open LTS

namespace BlackSiren

/-! ### Frames -/

/-- The fields of `SirenConfig` that give the size of a frame. -/
structure MicConfig where
  mic_channel_num : Nat
  mic_sample_rate : Nat
  mic_audio_byte : Nat
  mic_frame_length : Nat

/-- `frameSize` as the constructors of `RecordingThread` and of `SirenBase` both
    compute it. -/
def MicConfig.frameSize (config : MicConfig) : Nat :=
  let frameLenInMs := 1000 / config.mic_frame_length
  config.mic_channel_num * config.mic_sample_rate * config.mic_audio_byte / frameLenInMs

/-- The contents of a frame buffer. -/
abbrev Frame (frameSize : Nat) := {bytes : List UInt8 // bytes.length = frameSize}

namespace RecordingStream

variable {frameSize : Nat}

/-- `frameBuffer` after a `read` has put the first `n` bytes of the stream there. -/
def fill (frameBuffer : Frame frameSize) (stream : List UInt8) (n : Nat) : Frame frameSize :=
  let m := min n (min frameSize stream.length)
  ⟨stream.take m ++ frameBuffer.1.drop m, by
    have hlen := frameBuffer.2
    rw [List.length_append, List.length_take, List.length_drop]
    omega⟩

theorem fill_val (frameBuffer : Frame frameSize) {stream : List UInt8} {n : Nat}
    (hsize : n ≤ frameSize) (havail : n ≤ stream.length) :
    (fill frameBuffer stream n).1 = stream.take n ++ frameBuffer.1.drop n := by
  have hm : min n (min frameSize stream.length) = n := by omega
  simp only [fill, hm]

/-! ### The system -/

structure State (frameSize : Nat) where
  /-- What `recordingFn` has written, oldest frame first. -/
  written : List (Frame frameSize)
  /-- The bytes in the socket. -/
  socket : List UInt8
  /-- `SirenBase::frameBuffer` -/
  frameBuffer : Frame frameSize
  /-- What `preprocess` has been called with. -/
  handed : List (Frame frameSize)
  /-- The results of the reads that got anything. -/
  reads : List Nat
  deriving DecidableEq

/-- `new char[frameSize]` is left as it is found. -/
def Init (s : State frameSize) : Prop :=
  s.written = [] ∧ s.socket = [] ∧ s.handed = [] ∧ s.reads = []

inductive Label (frameSize : Nat) where
  /-- `recordingFn` writes a frame whole. -/
  | write (frame : Frame frameSize)
  /-- `read` returns `status` to `loopRecording`. -/
  | read (status : Int)

/-- `SirenBase::loopRecording` from a `read` to the next one. -/
def loopRecording (s : State frameSize) (status : Int) : State frameSize :=
  if status ≤ 0 then
    s
  else
    -- any positive status counts as a frame
    let frameBuffer := fill s.frameBuffer s.socket status.toNat
    { s with
      socket := s.socket.drop status.toNat
      frameBuffer := frameBuffer
      handed := s.handed ++ [frameBuffer]
      reads := s.reads ++ [status.toNat] }

def next (s : State frameSize) : Label frameSize → Option (State frameSize)
  | .write frame =>
      some { s with written := s.written ++ [frame], socket := s.socket ++ frame.1 }
  | .read status =>
      if status ≤ min frameSize s.socket.length then some (loopRecording s status) else none

variable (frameSize) in
def system : System (State frameSize) (Label frameSize) := .ofFn Init next

/-! ### What a step does -/

/-- A step writes a frame, gets nothing, or gets `n` bytes. -/
theorem step_cases {s s' : State frameSize} {l : Label frameSize}
    (h : (system frameSize).step s l s') :
    (∃ frame, s' = { s with written := s.written ++ [frame], socket := s.socket ++ frame.1 }) ∨
    s' = s ∨
    ∃ n, 0 < n ∧ n ≤ frameSize ∧ n ≤ s.socket.length ∧
      s' = { s with
        socket := s.socket.drop n
        frameBuffer := fill s.frameBuffer s.socket n
        handed := s.handed ++ [fill s.frameBuffer s.socket n]
        reads := s.reads ++ [n] } := by
  cases l with
  | write frame =>
    have heq : some _ = some s' := h
    exact .inl ⟨frame, (Option.some.inj heq).symm⟩
  | read status =>
    have hnext : (if status ≤ min frameSize s.socket.length then some (loopRecording s status)
      else none) = some s' := h
    split at hnext
    · next hle =>
      cases hnext
      by_cases hpos : status ≤ 0
      · exact .inr (.inl (if_pos hpos))
      · refine .inr (.inr ⟨status.toNat, ?_, ?_, ?_, if_neg hpos⟩) <;> omega
    · cases hnext

/-! ### Counting bytes -/

/-- Every byte written is read or in the socket, and every read gave one frame. -/
structure Counted (s : State frameSize) : Prop where
  bytes : s.socket.length + s.reads.sum = frameSize * s.written.length
  frames : s.handed.length = s.reads.length
  bounded : ∀ n ∈ s.reads, 0 < n ∧ n ≤ frameSize

theorem counted {s : State frameSize} (h : Reachable (system frameSize) s) : Counted s := by
  refine invariant _ Counted ?_ ?_ h
  · intro s hinit
    obtain ⟨hw, hs, hh, hr⟩ := hinit
    exact ⟨by simp [hw, hs, hr], by simp [hh, hr], by simp [hr]⟩
  · intro s l s' hinv hstep
    obtain ⟨hbytes, hframes, hbounded⟩ := hinv
    rcases step_cases hstep with ⟨frame, rfl⟩ | rfl | ⟨n, hpos, hle, havail, rfl⟩
    · refine ⟨?_, hframes, hbounded⟩
      have hlen := frame.2
      simp only [List.length_append, List.length_singleton, Nat.mul_add, hlen]
      omega
    · exact ⟨hbytes, hframes, hbounded⟩
    · refine ⟨?_, by simp [hframes], ?_⟩
      · simp only [List.length_drop, List.sum_append, List.sum_singleton]
        omega
      · intro m hm
        rcases List.mem_append.mp hm with hm | hm
        · exact hbounded m hm
        · rw [List.mem_singleton.mp hm]
          exact ⟨hpos, hle⟩

/-! ### Whole reads -/

/-- The k-th frame handed to `preprocess` is the k-th frame written. -/
def InStep (s : State frameSize) : Prop := s.handed <+: s.written

/-- Every read so far was given all it asked for. -/
def Whole (s : State frameSize) : Prop := ∀ n ∈ s.reads, n = frameSize

/-- The socket holds the frames not handed on yet. -/
def Aligned (s : State frameSize) : Prop :=
  ∃ rest : List (Frame frameSize),
    s.written = s.handed ++ rest ∧ s.socket = (rest.map Subtype.val).flatten

theorem fill_whole (buffer frame : Frame frameSize) (rest : List UInt8) :
    fill buffer (frame.1 ++ rest) frameSize = frame := by
  have hframe := frame.2
  have hbuffer := buffer.2
  apply Subtype.ext
  rw [fill_val buffer (by omega) (by rw [List.length_append]; omega), List.take_left' hframe,
    List.drop_of_length_le (by omega), List.append_nil]

theorem aligned_of_whole {s : State frameSize} (h : Reachable (system frameSize) s)
    (hwhole : Whole s) : Aligned s := by
  induction h with
  | init hinit =>
    obtain ⟨hw, hs, hh, -⟩ := hinit
    exact ⟨[], by simp [hw, hh], by simp [hs]⟩
  | step l hr hstep ih =>
    rcases step_cases hstep with ⟨frame, rfl⟩ | rfl | ⟨n, hpos, -, havail, rfl⟩
    · obtain ⟨rest, hwritten, hsocket⟩ := ih hwhole
      exact ⟨rest ++ [frame], by simp [hwritten], by simp [hsocket]⟩
    · exact ih hwhole
    · have hn : n = frameSize := hwhole n (by simp)
      subst hn
      obtain ⟨rest, hwritten, hsocket⟩ := ih fun m hm => hwhole m (by simp [hm])
      cases rest with
      | nil => simp only [hsocket, List.map_nil, List.flatten_nil, List.length_nil] at havail; omega
      | cons frame rest =>
        simp only [List.map_cons, List.flatten_cons] at hsocket
        refine ⟨rest, ?_, ?_⟩
        · simp [hwritten, hsocket, fill_whole]
        · simp [hsocket, List.drop_left' frame.2]

/-- As long as every read is whole, frames arrive as they were written. -/
theorem inStep_of_whole {s : State frameSize} (h : Reachable (system frameSize) s)
    (hwhole : Whole s) : InStep s := by
  obtain ⟨rest, hwritten, -⟩ := aligned_of_whole h hwhole
  exact ⟨rest, hwritten.symm⟩

/-- Once the socket is empty the frames are in step only if every read was whole:
    a short read leaves more frames handed on than were written. -/
theorem whole_of_drained {s : State frameSize} (h : Reachable (system frameSize) s)
    (hempty : s.socket = []) (hstep : InStep s) : Whole s := by
  obtain ⟨hbytes, hframes, hbounded⟩ := counted h
  have hle : s.reads.length ≤ s.written.length := hframes ▸ hstep.length_le
  have hsum : frameSize * s.reads.length ≤ s.reads.sum := by
    have hmul := Nat.mul_le_mul_left frameSize hle
    simp only [hempty, List.length_nil] at hbytes
    omega
  intro n hn
  by_contra hne
  have hlt : (s.reads.map id).sum < (s.reads.map fun _ => frameSize).sum :=
    List.sum_lt_sum id (fun _ => frameSize) (fun m hm => (hbounded m hm).2)
      ⟨n, hn, lt_of_le_of_ne (hbounded n hn).2 hne⟩
  rw [List.map_id, List.map_const', List.sum_replicate, smul_eq_mul, Nat.mul_comm] at hlt
  omega

/-! ### Short reads

    What a short read does depends on the bytes it leaves in the buffer.  In the
    runs below frame k is filled with the parity of k and the buffer starts as
    frame -1 would, so a short read mixes two frames that differ everywhere. -/

/-- Frame k of a striped recording. -/
def stripe (frameSize k : Nat) : Frame frameSize :=
  ⟨List.replicate frameSize (if k % 2 = 0 then 0 else 1), List.length_replicate⟩

/-- A frame with two different bytes. -/
def Mixed (frame : Frame frameSize) : Prop := ∃ a ∈ frame.1, ∃ b ∈ frame.1, a ≠ b

/-- Recordings of stripes. -/
structure Striped (s : State frameSize) : Prop where
  written : s.written = (List.range s.written.length).map (stripe frameSize)
  /-- The buffer holds the frame handed on last, or a mixed one has been. -/
  handed : Whole s ∧ s.frameBuffer = stripe frameSize (s.handed.length + 1) ∨
    ∃ frame ∈ s.handed, Mixed frame

theorem not_mixed_stripe (k : Nat) : ¬ Mixed (stripe frameSize k) := by
  rintro ⟨a, ha, b, hb, hne⟩
  exact hne ((List.eq_of_mem_replicate ha).trans (List.eq_of_mem_replicate hb).symm)

theorem stripe_add_two (k : Nat) : stripe frameSize (k + 2) = stripe frameSize k := by
  simp only [stripe, Nat.add_mod_right]

/-- The first frame in the socket is the first that was not handed on. -/
theorem socket_of_striped {t : State frameSize} (hwritten : t.written =
      (List.range t.written.length).map (stripe frameSize))
    (haligned : Aligned t) (hbytes : 0 < t.socket.length) :
    ∃ rest, t.socket = (stripe frameSize t.handed.length).1 ++ rest := by
  obtain ⟨rest, hsplit, hsocket⟩ := haligned
  cases rest with
  | nil => simp [hsocket] at hbytes
  | cons frame rest =>
    have hget : t.written[t.handed.length]? = some frame := by simp [hsplit]
    have hstripe : t.written[t.handed.length]? = some (stripe frameSize t.handed.length) := by
      rw [hwritten, List.getElem?_map, List.getElem?_range (by simp [hsplit])]
      rfl
    rw [hget, Option.some.injEq] at hstripe
    exact ⟨(rest.map Subtype.val).flatten, by rw [hsocket, hstripe]; rfl⟩

/-- A short read puts two frames into one. -/
theorem mixed_of_short {k n : Nat} (rest : List UInt8) (hpos : 0 < n) (hlt : n < frameSize) :
    Mixed (fill (stripe frameSize (k + 1)) ((stripe frameSize k).1 ++ rest) n) := by
  have hlen := (stripe frameSize k).2
  have havail : n ≤ ((stripe frameSize k).1 ++ rest).length := by
    rw [List.length_append]
    omega
  unfold Mixed
  rw [fill_val _ (Nat.le_of_lt hlt) havail, List.take_append_of_le_length (by omega)]
  simp only [stripe, List.take_replicate, List.drop_replicate]
  refine ⟨if k % 2 = 0 then 0 else 1, ?_, if (k + 1) % 2 = 0 then 0 else 1, ?_, ?_⟩
  · apply List.mem_append_left
    exact List.mem_replicate.mpr ⟨by omega, rfl⟩
  · apply List.mem_append_right
    exact List.mem_replicate.mpr ⟨by omega, rfl⟩
  · rcases Nat.mod_two_eq_zero_or_one k with h | h
    · have hsucc : (k + 1) % 2 = 1 := by omega
      simp [h, hsucc]
    · have hsucc : (k + 1) % 2 = 0 := by omega
      simp [h, hsucc]

/-- Every pattern of writes and reads is that of a striped recording. -/
theorem exists_striped {s : State frameSize} (h : Reachable (system frameSize) s) :
    ∃ t, Reachable (system frameSize) t ∧ Striped t ∧ t.reads = s.reads ∧
      t.socket.length = s.socket.length := by
  induction h with
  | init hinit =>
    obtain ⟨-, hs, -, hr⟩ := hinit
    refine ⟨⟨[], [], stripe frameSize 1, [], []⟩, .init ⟨rfl, rfl, rfl, rfl⟩, ⟨rfl, ?_⟩, ?_, ?_⟩
    · exact .inl ⟨by simp [Whole], rfl⟩
    · exact hr.symm
    · rw [hs]
  | step l hr hstep ih =>
    obtain ⟨t, ht, hstriped, hreads, hsocket⟩ := ih
    rcases step_cases hstep with ⟨frame, rfl⟩ | rfl | ⟨n, hpos, hle, havail, rfl⟩
    · -- the same write, of the next stripe
      refine ⟨_, .step (.write (stripe frameSize t.written.length)) ht rfl, ⟨?_, ?_⟩, hreads, ?_⟩
      · simp only [List.length_append, List.length_singleton, List.range_succ, List.map_append,
          ← hstriped.written, List.map_singleton]
      · exact hstriped.handed
      · have hframe := frame.2
        have hlen := (stripe frameSize t.written.length).2
        simp only [List.length_append]
        omega
    · exact ⟨t, ht, hstriped, hreads, hsocket⟩
    · -- the same read
      have havail' : n ≤ t.socket.length := hsocket ▸ havail
      have hnext : (system frameSize).step t (.read n) (loopRecording t n) :=
        if_pos (by omega)
      have hloop : loopRecording t n = { t with
          socket := t.socket.drop n
          frameBuffer := fill t.frameBuffer t.socket n
          handed := t.handed ++ [fill t.frameBuffer t.socket n]
          reads := t.reads ++ [n] } := if_neg (by omega)
      rw [hloop] at hnext
      refine ⟨_, .step _ ht hnext, ⟨hstriped.written, ?_⟩, by simp [hreads], by simp [hsocket]⟩
      rcases hstriped.handed with ⟨hwhole, hbuffer⟩ | ⟨frame, hmem, hmixed⟩
      · obtain ⟨rest, hrest⟩ :=
          socket_of_striped hstriped.written (aligned_of_whole ht hwhole) (by omega)
        -- a whole read takes the next stripe
        by_cases hfull : n = frameSize
        · subst hfull
          refine .inl ⟨?_, ?_⟩
          · intro m hm
            rcases List.mem_append.mp hm with hm | hm
            · exact hwhole m hm
            · exact List.mem_singleton.mp hm
          · simp only [hrest, fill_whole, List.length_append, List.length_singleton]
            exact (stripe_add_two _).symm
        · refine .inr ⟨fill t.frameBuffer t.socket n, by simp, ?_⟩
          rw [hbuffer, hrest]
          exact mixed_of_short rest hpos (by omega)
      · exact .inr ⟨frame, by simp [hmem], hmixed⟩

/-- A striped recording is in step only if every read was whole. -/
theorem whole_of_striped {t : State frameSize} (hstriped : Striped t) (hstep : InStep t) :
    Whole t := by
  rcases hstriped.handed with ⟨hwhole, -⟩ | ⟨frame, hmem, hmixed⟩
  · exact hwhole
  · have hwritten := hstep.subset hmem
    rw [hstriped.written] at hwritten
    obtain ⟨k, -, rfl⟩ := List.mem_map.mp hwritten
    exact absurd hmixed (not_mixed_stripe k)

/-! ### Frames in step -/

/-- Which reads keep the two sides in step.  Whole reads do, whatever is written;
    once everything written has been read nothing else does; and for any pattern
    with a short read there are frames that arrive wrong under it. -/
theorem frames_in_step (s : State frameSize) (h : Reachable (system frameSize) s) :
    (Whole s → InStep s) ∧
    (s.socket = [] → (InStep s ↔ Whole s)) ∧
    ((∀ t, Reachable (system frameSize) t → t.reads = s.reads → InStep t) ↔ Whole s) := by
  refine ⟨inStep_of_whole h, fun hempty => ⟨whole_of_drained h hempty, inStep_of_whole h⟩, ?_, ?_⟩
  · intro hall
    obtain ⟨t, ht, hstriped, hreads, -⟩ := exists_striped h
    have hwhole := whole_of_striped hstriped (hall t ht hreads)
    intro n hn
    exact hwhole n (hreads ▸ hn)
  · intro hwhole t ht hreads
    apply inStep_of_whole ht
    intro n hn
    exact hwhole n (hreads ▸ hn)

/-- Three frames of four bytes, two of which have been read whole. -/
def wholeReads : List (Label 4) :=
  [.write ⟨[1, 2, 3, 4], rfl⟩, .write ⟨[5, 6, 7, 8], rfl⟩, .read 4,
    .write ⟨[9, 10, 11, 12], rfl⟩, .read 4]

theorem frames_in_step_unread :
    ∃ s, exec next ⟨[], [], ⟨[0, 0, 0, 0], rfl⟩, [], []⟩ wholeReads = some s ∧
      s.handed.map Subtype.val = [[1, 2, 3, 4], [5, 6, 7, 8]] ∧ s.socket = [9, 10, 11, 12] ∧
      InStep s := by
  have hrun : (exec next ⟨[], [], ⟨[0, 0, 0, 0], rfl⟩, [], []⟩ wholeReads).map
      (fun s => (s.handed.map Subtype.val, s.socket, s.reads)) =
    some ([[1, 2, 3, 4], [5, 6, 7, 8]], [9, 10, 11, 12], [4, 4]) := by decide
  obtain ⟨s, hs, hval⟩ := Option.map_eq_some_iff.mp hrun
  simp only [Prod.mk.injEq] at hval
  obtain ⟨hhanded, hsocket, hreads⟩ := hval
  refine ⟨s, hs, hhanded, hsocket, ?_⟩
  apply (frames_in_step s (reachable_of_exec ⟨rfl, rfl, rfl, rfl⟩ hs)).1
  unfold Whole
  rw [hreads]
  decide

/-- Two frames of four bytes, read as two, four and two. -/
def shortRead : List (Label 4) :=
  [.write ⟨[1, 2, 3, 4], rfl⟩, .read 2, .write ⟨[5, 6, 7, 8], rfl⟩, .read 4, .read 2]

/-- Frames written whole and reads of 1 to `frameSize` bytes do not make the k-th
    frame handed on the k-th frame written. -/
theorem not_frames_in_step : ¬ ∀ (frameSize : Nat) (s : State frameSize),
    Reachable (system frameSize) s → InStep s := by
  intro h
  have hrun : (exec next ⟨[], [], ⟨[0, 0, 0, 0], rfl⟩, [], []⟩ shortRead).map
      (fun s => (s.handed.map Subtype.val, s.written.map Subtype.val)) =
    some ([[1, 2, 0, 0], [3, 4, 5, 6], [7, 8, 5, 6]], [[1, 2, 3, 4], [5, 6, 7, 8]]) := by decide
  obtain ⟨s, hs, hval⟩ := Option.map_eq_some_iff.mp hrun
  have hstep := h 4 s (reachable_of_exec ⟨rfl, rfl, rfl, rfl⟩ hs)
  have hlen := hstep.length_le
  rw [Prod.mk.injEq] at hval
  have hhanded := congrArg List.length hval.1
  have hwritten := congrArg List.length hval.2
  simp only [List.length_map, List.length_cons, List.length_nil] at hhanded hwritten
  omega

end RecordingStream

end BlackSiren

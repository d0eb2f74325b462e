import Mathlib.Computability.Language
import Mathlib.Data.Finset.Image
import Mathlib.Data.Finset.Insert

/-! # Streams of segments

    A segment is a start letter, any number of data letters and a stop letter.
    `segments` is the language of all sequences of segments, `run` the two-state
    check of a stream against it, and `run_prefix` says that a stream the check
    passes can be completed to a word of the language.  `data_of_run` is the
    reading of a segment: nothing but data up to its stop.
-/

open scoped Computability

namespace Segments

variable {α : Type*}

/-- Appending one more word of `l`. -/
theorem append_mem_kstar {l : Language α} {u v : List α} (hu : u ∈ l∗) (hv : v ∈ l) :
    u ++ v ∈ l∗ := by
  obtain ⟨L, rfl, hL⟩ := Language.mem_kstar.mp hu
  refine Language.mem_kstar.mpr ⟨L ++ [v], by simp, ?_⟩
  intro y hy
  rcases List.mem_append.mp hy with hy | hy
  · exact hL y hy
  · rw [List.mem_singleton.mp hy]
    exact hv

variable [DecidableEq α] (start data : α) (stop : Finset α)

/-- The stop letters, as words. -/
def stops : Language α := {w : List α | ∃ e ∈ stop, w = [e]}

/-- All sequences of segments. -/
def segments : Language α := ({[start]} * {[data]}∗ * stops stop)∗

/-- Is a segment open after one more letter? No result if the letter may not
    stand here. -/
def next : Bool → α → Option Bool
  | false, a => if a = start then some true else none
  | true, a => if a = data then some true else if a ∈ stop then some false else none

/-- `next` over a stream. -/
def run (isOpen : Bool) (w : List α) : Option Bool :=
  w.foldlM (next start data stop) isOpen

theorem run_append (b : Bool) (u v : List α) :
    run start data stop b (u ++ v) =
      (run start data stop b u).bind fun b' => run start data stop b' v := by
  simp only [run, List.foldlM_append]
  rfl

theorem run_singleton (b : Bool) (a : α) :
    run start data stop b [a] = next start data stop b a := by
  simp [run]

theorem run_concat (b : Bool) (u : List α) (a : α) :
    run start data stop b (u ++ [a]) =
      (run start data stop b u).bind fun b' => next start data stop b' a := by
  rw [run_append]
  congr 1
  funext b'
  exact run_singleton start data stop b' a

/-- The check of the same stream in other letters. -/
theorem run_map {β : Type*} [DecidableEq β] {f : α → β} (hf : Function.Injective f) (b : Bool)
    (w : List α) :
    run (f start) (f data) (stop.image f) b (w.map f) = run start data stop b w := by
  have hnext : ∀ (b : Bool) (a : α),
      next (f start) (f data) (stop.image f) b (f a) = next start data stop b a := by
    intro b a
    cases b with
    | false => simp only [next, hf.eq_iff]
    | true => simp only [next, hf.eq_iff, Finset.mem_image, exists_eq_right]
  unfold run
  rw [List.foldlM_map]
  simp only [hnext]

omit [DecidableEq α] in
/-- A whole segment behind a sequence of segments. -/
theorem append_segment {u d : List α} {e : α} (hu : u ∈ segments start data stop)
    (hd : d ∈ ({[data]} : Language α)∗) (he : e ∈ stop) :
    u ++ start :: d ++ [e] ∈ segments start data stop := by
  have hseg : [start] ++ d ++ [e] ∈ ({[start]} * {[data]}∗ * stops stop : Language α) := by
    refine Language.mem_mul.mpr ⟨[start] ++ d, ?_, [e], ⟨e, he, rfl⟩, rfl⟩
    exact Language.mem_mul.mpr ⟨[start], rfl, d, hd, rfl⟩
  have happ : u ++ ([start] ++ d ++ [e]) ∈ segments start data stop := append_mem_kstar hu hseg
  simpa using happ

/-- After a checked stream either all segments are closed, or the last one is
    open and has only data so far. -/
theorem run_sound {w : List α} {b : Bool} (h : run start data stop false w = some b) :
    (b = false → w ∈ segments start data stop) ∧
      (b = true → ∃ u d, w = u ++ start :: d ∧ u ∈ segments start data stop ∧
        d ∈ ({[data]} : Language α)∗) := by
  induction w using List.reverseRecOn generalizing b with
  | nil =>
    cases h
    refine ⟨fun _ => Language.nil_mem_kstar _, ?_⟩
    intro hb
    cases hb
  | append_singleton w a ih =>
    rw [run_concat] at h
    obtain ⟨b₀, hw, ha⟩ := Option.bind_eq_some_iff.mp h
    obtain ⟨hclosed, hopen⟩ := ih hw
    cases b₀ with
    | false =>
      -- the letter opens a segment
      simp only [next] at ha
      split at ha
      · next heq =>
        cases ha
        constructor
        · intro hb
          cases hb
        · intro _
          refine ⟨w, [], ?_, hclosed rfl, ?_⟩
          · rw [heq]
          · exact Language.nil_mem_kstar _
      · cases ha
    | true =>
      obtain ⟨u, d, rfl, hu, hd⟩ := hopen rfl
      simp only [next] at ha
      split at ha
      · next heq =>
        cases ha
        constructor
        · intro hb
          cases hb
        · intro _
          refine ⟨u, d ++ [a], by simp, hu, ?_⟩
          apply append_mem_kstar hd
          rw [heq]
          exact rfl
      · split at ha
        · next hstop =>
          cases ha
          constructor
          · intro _
            exact append_segment start data stop hu hd hstop
          · intro hb
            cases hb
        · cases ha

/-- A checked stream is a prefix of a sequence of segments. -/
theorem run_prefix {w : List α} {b : Bool} {e : α} (he : e ∈ stop)
    (h : run start data stop false w = some b) :
    ∃ rest, w ++ rest ∈ segments start data stop := by
  obtain ⟨hclosed, hopen⟩ := run_sound start data stop h
  cases b with
  | false =>
    refine ⟨[], ?_⟩
    rw [List.append_nil]
    exact hclosed rfl
  | true =>
    -- stopping the open segment completes the stream
    obtain ⟨u, d, rfl, hu, hd⟩ := hopen rfl
    exact ⟨[e], append_segment start data stop hu hd he⟩

/-- In an open segment every letter is data until one stops it. -/
theorem data_of_open {w : List α} {b : Bool} (h : run start data stop true w = some b)
    (hstop : ∀ a ∈ w, a ∉ stop) : ∀ a ∈ w, a = data := by
  induction w with
  | nil => simp
  | cons a w ih =>
    rw [List.forall_mem_cons] at hstop ⊢
    rw [run, List.foldlM_cons] at h
    obtain ⟨b', ha, h⟩ := Option.bind_eq_some_iff.mp h
    simp only [next] at ha
    split at ha
    · next heq =>
      cases ha
      exact ⟨heq, ih h hstop.2⟩
    · rw [if_neg hstop.1] at ha
      cases ha

/-- The letters between a start and the next stop. -/
theorem data_of_run (hdata : start ≠ data) (hstart : start ∉ stop) {u w v : List α} {b c : Bool}
    (h : run start data stop b (u ++ start :: (w ++ v)) = some c)
    (hstop : ∀ a ∈ w, a ∉ stop) : ∀ a ∈ w, a = data := by
  rw [run_append] at h
  obtain ⟨b₁, -, h⟩ := Option.bind_eq_some_iff.mp h
  rw [run, List.foldlM_cons] at h
  obtain ⟨b₂, hb₂, h⟩ := Option.bind_eq_some_iff.mp h
  -- a start has opened the segment
  have hopen : b₂ = true := by
    cases b₁ with
    | false =>
      rw [next, if_pos rfl] at hb₂
      exact (Option.some.inj hb₂).symm
    | true =>
      rw [next, if_neg hdata, if_neg hstart] at hb₂
      cases hb₂
  rw [hopen, ← run, run_append] at h
  obtain ⟨b₃, hw, -⟩ := Option.bind_eq_some_iff.mp h
  exact data_of_open start data stop hw hstop

end Segments

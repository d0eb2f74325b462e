import BlackSiren.LFQueue.Queue

/-! # `LFQueue` against the bounded queue, one thread

    As long as every push finds room, `LFQueue` gives the results of a bounded
    queue (`Normal` is the invariant).  A push into a full queue is refused, but
    it leaves its mark: the counter of the oldest item goes to 2, and the pop
    whose turn it is fails (`Jammed`).  So a sequence of operations behaves like
    the bounded queue exactly if it never pushes into a full one.
-/

namespace BlackSiren

open BoundedFifo

namespace LFQueue

variable {α : Type}

/-- One operation and what its caller can tell: a push is accepted if the last
    `LFItem::push` returned 0, a pop gives an item if it returned 0. -/
def exec (P : LFParams) (fuel : Nat) (q : LFQueue α) : Op α → Option (Out α × LFQueue α)
  | .push x => (pushLoop P x fuel q).map fun r => (.pushed (r.1 == 0), r.2)
  | .pop => (pop P q).map fun r => (.popped (if r.1 = 0 then r.2.1 else none), r.2.2)

/-- The results of a sequence of operations, if all of them return. -/
def results (P : LFParams) (fuel : Nat) : LFQueue α → List (Op α) → Option (List (Out α))
  | _, [] => some []
  | q, op :: ops =>
      match q.exec P fuel op with
      | none => none
      | some (o, q) => (results P fuel q ops).map (o :: ·)

/-- The operations, and the pops that fetch what is then still held, give the
    results of a bounded queue. -/
def Behaves (P : LFParams) (fuel : Nat) (ops : List (Op α)) : Prop :=
  results P fuel new (drained P.capacity [] ops) =
    some (BoundedFifo.results P.capacity [] (drained P.capacity [] ops))

/-! ### While there is room -/

/-- The queue holds `held`: its numbers are the last ones drawn by pushes, their
    items are claimed and filled, the others are empty. -/
structure Normal (P : LFParams) (q : LFQueue α) (held : List α) : Prop where
  drawn : q.push_ = q.pop_ + held.length
  room : held.length ≤ P.capacity
  full : ∀ j (hj : j < held.length),
    (q.item_ (P.slot (q.pop_ + j))).counter_.val = 1 ∧
      (q.item_ (P.slot (q.pop_ + j))).data_ = some held[j]
  empty : ∀ t, q.push_ ≤ t → t < q.pop_ + P.capacity →
    (q.item_ (P.slot t)).counter_.val = 0 ∧ (q.item_ (P.slot t)).data_ = none

theorem new_normal (P : LFParams) : Normal P (new : LFQueue α) [] where
  drawn := rfl
  room := Nat.zero_le _
  full := fun j hj => absurd hj (Nat.not_lt_zero j)
  empty := fun _ _ _ => ⟨rfl, rfl⟩

/-- A push with room is accepted. -/
theorem exec_push_room {P : LFParams} {q : LFQueue α} {held : List α} (fuel : Nat) (x : α)
    (h : Normal P q held) (hroom : held.length < P.capacity) :
    ∃ q', q.exec P (fuel + 1) (.push x) = some (.pushed true, q') ∧
      Normal P q' (held ++ [x]) := by
  have hdrawn := h.drawn
  obtain ⟨hval, hdata⟩ := h.empty q.push_ (le_refl _) (by omega)
  obtain ⟨it, hpush, hval', hdata'⟩ := LFItem.push_empty x hval hdata
  refine ⟨{ q with
    push_ := q.push_ + 1
    item_ := Function.update q.item_ (P.slot q.push_) it
    queued_item_ := q.queued_item_ + 1 }, ?_, ?_⟩
  · simp [exec, pushLoop, hpush]
  · -- a number less than a lap away maps to another item
    have hother : ∀ t, q.pop_ ≤ t → t < q.pop_ + P.capacity → t ≠ q.push_ →
        P.slot t ≠ P.slot q.push_ := by
      intro t hlo hhi hne heq
      rcases Nat.lt_or_gt_of_ne hne with hlt | hgt
      · exact hne (P.slot_inj (by omega) (by omega) heq)
      · exact hne (P.slot_inj (by omega) (by omega) heq.symm).symm
    refine ⟨?_, ?_, ?_, ?_⟩
    · simp only [List.length_append, List.length_singleton]
      omega
    · simp only [List.length_append, List.length_singleton]
      omega
    · intro j hj
      simp only [List.length_append, List.length_singleton] at hj
      by_cases hlast : j = held.length
      · have hslot : q.pop_ + j = q.push_ := by omega
        simp only [hslot, Function.update_self]
        refine ⟨hval', ?_⟩
        rw [hdata']
        simp [hlast]
      · have hlt : j < held.length := by omega
        have hne := hother (q.pop_ + j) (by omega) (by omega) (by omega)
        simp only [Function.update_of_ne hne]
        obtain ⟨hv, hd⟩ := h.full j hlt
        refine ⟨hv, ?_⟩
        rw [hd, List.getElem_append_left hlt]
    · intro t hlo hhi
      have hlo' : q.push_ + 1 ≤ t := hlo
      have hhi' : t < q.pop_ + P.capacity := hhi
      have hne := hother t (by omega) hhi' (by omega)
      simp only [Function.update_of_ne hne]
      exact h.empty t (by omega) hhi'

/-- A pop returns the oldest item. -/
theorem exec_pop_held {P : LFParams} {q : LFQueue α} {x : α} {held : List α} (fuel : Nat)
    (h : Normal P q (x :: held)) :
    ∃ q', q.exec P fuel .pop = some (.popped (some x), q') ∧ Normal P q' held := by
  have hdrawn := h.drawn
  have hcap := h.room
  simp only [List.length_cons] at hdrawn hcap
  obtain ⟨hval, hdata⟩ := h.full 0 (by simp)
  simp only [Nat.add_zero, List.getElem_cons_zero] at hval hdata
  obtain ⟨it, hpop, hval', hdata'⟩ := LFItem.pop_filled hval hdata
  refine ⟨{ q with
    pop_ := q.pop_ + 1
    item_ := Function.update q.item_ (P.slot q.pop_) it
    queued_item_ := q.queued_item_ - 1 }, ?_, ?_⟩
  · simp [exec, pop, hpop]
  · have hother : ∀ t, q.pop_ < t → t < q.pop_ + P.capacity → P.slot t ≠ P.slot q.pop_ := by
      intro t hlo hhi heq
      have := P.slot_inj (le_of_lt hlo) hhi heq.symm
      omega
    refine ⟨?_, ?_, ?_, ?_⟩
    · show q.push_ = q.pop_ + 1 + held.length
      omega
    · omega
    · intro j hj
      have hne := hother (q.pop_ + 1 + j) (by omega) (by omega)
      simp only [Function.update_of_ne hne]
      have hfull := h.full (j + 1) (by simpa using hj)
      rw [show q.pop_ + (j + 1) = q.pop_ + 1 + j by omega] at hfull
      simpa using hfull
    · intro t hlo hhi
      by_cases hlap : t = q.pop_ + P.capacity
      · -- the item just emptied is the one a lap ahead
        simp only [hlap, P.slot_add_capacity, Function.update_self]
        exact ⟨hval', hdata'⟩
      · have hlo' : q.push_ ≤ t := hlo
        have hhi' : t < q.pop_ + 1 + P.capacity := hhi
        have hne := hother t (by omega) (by omega)
        simp only [Function.update_of_ne hne]
        exact h.empty t hlo' (by omega)

/-! ### After a push into the full queue -/

/-- Every item is claimed, and the next to be popped more than once. -/
structure Jammed (P : LFParams) (q : LFQueue α) : Prop where
  claimed : ∀ t, 0 < (q.item_ (P.slot t)).counter_.val
  next : 2 ≤ (q.item_ (P.slot q.pop_)).counter_.val

theorem exec_push_claimed {P : LFParams} {q : LFQueue α} (fuel : Nat) (x : α)
    (h : 0 < (q.item_ (P.slot q.push_)).counter_.val) :
    ∃ it', q.exec P (fuel + 1) (.push x) = some (.pushed false,
        { q with
          push_ := q.push_ + 1
          item_ := Function.update q.item_ (P.slot q.push_) it' }) ∧
      it'.counter_.val = (q.item_ (P.slot q.push_)).counter_.val + 1 := by
  obtain ⟨it, hpush, hval, _⟩ := LFItem.push_claimed x h
  refine ⟨it, ?_, hval⟩
  simp [exec, pushLoop, hpush]

/-- Pushing into the full queue jams it: the item a lap ahead is the oldest. -/
theorem exec_push_full {P : LFParams} {q : LFQueue α} {held : List α} (fuel : Nat) (x : α)
    (h : Normal P q held) (hfull : ¬ held.length < P.capacity) :
    ∃ q', q.exec P (fuel + 1) (.push x) = some (.pushed false, q') ∧ Jammed P q' := by
  have hlen : held.length = P.capacity := by
    have := h.room
    omega
  have hpos := P.capacity_pos
  have hdrawn := h.drawn
  have hclaimed : ∀ t, (q.item_ (P.slot t)).counter_.val = 1 := by
    intro t
    -- some number of the last lap maps to the same item
    have hj : (t + P.capacity * q.pop_ - q.pop_) % P.capacity < held.length := by
      rw [hlen]
      exact Nat.mod_lt _ hpos
    have hslot : P.slot (q.pop_ + (t + P.capacity * q.pop_ - q.pop_) % P.capacity) =
        P.slot t := by
      have hle : q.pop_ ≤ t + P.capacity * q.pop_ := by
        have := Nat.le_mul_of_pos_left q.pop_ hpos
        omega
      rw [P.slot_eq, P.slot_eq, Nat.add_mod_mod, Nat.add_sub_cancel' hle, Nat.add_mul_mod_self_left]
    have := (h.full _ hj).1
    rwa [hslot] at this
  have hnext : P.slot q.push_ = P.slot q.pop_ := by
    rw [hdrawn, hlen, P.slot_add_capacity]
  obtain ⟨it, hexec, hval⟩ := exec_push_claimed fuel x (q := q) (P := P)
    (by rw [hclaimed]; omega)
  refine ⟨_, hexec, ?_, ?_⟩
  · intro t
    by_cases heq : P.slot t = P.slot q.push_
    · simp only [heq, Function.update_self, hval, hclaimed]
      omega
    · simp only [Function.update_of_ne heq, hclaimed]
      omega
  · simp only [hnext, Function.update_self]
    rw [hval, hclaimed]
    omega

theorem exec_push_jammed {P : LFParams} {q : LFQueue α} (fuel : Nat) (x : α)
    (h : Jammed P q) :
    ∃ q', q.exec P (fuel + 1) (.push x) = some (.pushed false, q') ∧ Jammed P q' := by
  obtain ⟨it, hexec, hval⟩ := exec_push_claimed fuel x (h.claimed q.push_)
  have hclaimed := h.claimed q.push_
  have hnext := h.next
  refine ⟨_, hexec, ?_, ?_⟩
  · intro t
    by_cases heq : P.slot t = P.slot q.push_
    · simp only [heq, Function.update_self, hval]
      omega
    · simp only [Function.update_of_ne heq]
      exact h.claimed t
  · show 2 ≤ (Function.update q.item_ (P.slot q.push_) it (P.slot q.pop_)).counter_.val
    by_cases heq : P.slot q.pop_ = P.slot q.push_
    · rw [heq, Function.update_self, hval]
      omega
    · rw [Function.update_of_ne heq]
      exact hnext

theorem exec_pop_jammed {P : LFParams} {q : LFQueue α} (fuel : Nat) (h : Jammed P q) :
    ∃ q', q.exec P fuel .pop = some (.popped none, q') := by
  obtain ⟨it, hpop⟩ := LFItem.pop_overflowed h.next
  exact ⟨{ q with
    pop_ := q.pop_ + 1
    item_ := Function.update q.item_ (P.slot q.pop_) it }, by simp [exec, pop, hpop]⟩

/-! ### Sequences -/

theorem results_cons {P : LFParams} {fuel : Nat} {q q' : LFQueue α} {op : Op α} {o : Out α}
    {ops : List (Op α)} (h : q.exec P fuel op = some (o, q')) :
    results P fuel q (op :: ops) = (results P fuel q' ops).map (o :: ·) := by
  simp [results, h]

/-- Popping what is held. -/
theorem results_drain {P : LFParams} {q : LFQueue α} {held : List α} (fuel : Nat)
    (h : Normal P q held) :
    results P fuel q (List.replicate held.length .pop) =
      some (BoundedFifo.results P.capacity held (List.replicate held.length .pop)) := by
  induction held generalizing q with
  | nil => rfl
  | cons x held ih =>
    obtain ⟨q', hexec, hnormal⟩ := exec_pop_held fuel h
    rw [List.length_cons, List.replicate_succ, results_cons hexec, ih hnormal]
    rfl

theorem results_pop_jammed {P : LFParams} {q : LFQueue α} {held : List α} (fuel : Nat)
    (h : Jammed P q) (hne : held ≠ []) (ops : List (Op α)) :
    results P fuel q (.pop :: ops) ≠ some (BoundedFifo.results P.capacity held (.pop :: ops)) := by
  intro heq
  obtain ⟨q', hexec⟩ := exec_pop_jammed fuel h
  rw [results_cons hexec, Option.map_eq_some_iff] at heq
  obtain ⟨os, _, hos⟩ := heq
  obtain ⟨x, held', rfl⟩ := List.exists_cons_of_ne_nil hne
  have hhead := congrArg List.head? hos
  simp [BoundedFifo.results, step] at hhead

/-- A jammed queue goes wrong before everything held has been popped. -/
theorem results_jammed {P : LFParams} {q : LFQueue α} {held : List α} (fuel : Nat)
    (h : Jammed P q) (hfull : held.length = P.capacity) (ops : List (Op α)) :
    results P (fuel + 1) q (drained P.capacity held ops) ≠
      some (BoundedFifo.results P.capacity held (drained P.capacity held ops)) := by
  have hpos := P.capacity_pos
  have hne : held ≠ [] := by
    intro hnil
    rw [hnil, List.length_nil] at hfull
    omega
  induction ops generalizing q with
  | nil =>
    obtain ⟨n, hn⟩ : ∃ n, held.length = n + 1 := ⟨held.length - 1, by omega⟩
    simp only [drained, hn, List.replicate_succ]
    exact results_pop_jammed _ h hne _
  | cons op ops ih =>
    cases op with
    | push x =>
      obtain ⟨q', hexec, hjam⟩ := exec_push_jammed fuel x h
      have hstep := step_push_full held x hfull.ge.not_gt
      simp only [drained, BoundedFifo.results, hstep, results_cons hexec]
      intro heq
      obtain ⟨os, hos, hcons⟩ := Option.map_eq_some_iff.mp heq
      exact ih hjam (hos.trans (congrArg some (List.cons.inj hcons).2))
    | pop => exact results_pop_jammed _ h hne _

/-- The results agree with the bounded queue's exactly if no push meets a full
    queue. -/
theorem results_iff {P : LFParams} {q : LFQueue α} {held : List α} (fuel : Nat)
    (h : Normal P q held) {ops : List (Op α)} (hops : PopsHeld P.capacity held ops) :
    results P (fuel + 1) q (drained P.capacity held ops) =
        some (BoundedFifo.results P.capacity held (drained P.capacity held ops)) ↔
      RoomForPushes P.capacity held ops := by
  induction ops generalizing q held with
  | nil =>
    simp only [drained, RoomForPushes, iff_true]
    exact results_drain _ h
  | cons op ops ih =>
    -- both sides give the same first result, so the rest decides
    have hrest : ∀ (q' : LFQueue α) (held' : List α) (o : Out α),
        q.exec P (fuel + 1) op = some (o, q') → step P.capacity held op = (o, held') →
        (results P (fuel + 1) q (drained P.capacity held (op :: ops)) =
            some (BoundedFifo.results P.capacity held (drained P.capacity held (op :: ops))) ↔
          results P (fuel + 1) q' (drained P.capacity held' ops) =
            some (BoundedFifo.results P.capacity held' (drained P.capacity held' ops))) := by
      intro q' held' o hexec hstep
      simp only [drained, BoundedFifo.results, hstep, results_cons hexec]
      constructor
      · intro heq
        obtain ⟨os, hos, hcons⟩ := Option.map_eq_some_iff.mp heq
        exact hos.trans (congrArg some (List.cons.inj hcons).2)
      · intro heq
        rw [heq]
        rfl
    cases op with
    | push x =>
      simp only [PopsHeld] at hops
      by_cases hroom : held.length < P.capacity
      · obtain ⟨q', hexec, hnormal⟩ := exec_push_room fuel x h hroom
        have hstep := step_push_room held x hroom
        rw [hstep] at hops
        rw [hrest q' _ _ hexec hstep, ih hnormal hops]
        simp only [RoomForPushes, hroom, true_and]
      · obtain ⟨q', hexec, hjam⟩ := exec_push_full fuel x h hroom
        have hstep := step_push_full held x hroom
        have hfull : held.length = P.capacity := by
          have := h.room
          omega
        rw [hrest q' _ _ hexec hstep]
        simp only [RoomForPushes, hroom, false_and, iff_false]
        exact results_jammed fuel hjam hfull ops
    | pop =>
      obtain ⟨hne, hops⟩ := hops
      obtain ⟨x, held', rfl⟩ := List.exists_cons_of_ne_nil hne
      obtain ⟨q', hexec, hnormal⟩ := exec_pop_held (fuel + 1) h
      rw [hrest q' held' (.popped (some x)) hexec rfl]
      exact ih hnormal hops

/-- One thread sees a bounded queue exactly if it never pushes while `capacity`
    items are held. -/
theorem behaves_iff (P : LFParams) (fuel : Nat) (ops : List (Op α))
    (hops : PopsHeld P.capacity [] ops) :
    Behaves P (fuel + 1) ops ↔ RoomForPushes P.capacity [] ops :=
  results_iff fuel (new_normal P) hops

/-- Three pushes with a pop between them, in a queue of two. -/
theorem behaves_iff_small :
    Behaves ⟨1, 64, by decide⟩ 1 [.push 10, .push 20, .pop, .push 30] ↔
      RoomForPushes 2 [] [.push 10, .push 20, .pop, .push 30] :=
  behaves_iff ⟨1, 64, by decide⟩ 0 [.push 10, .push 20, .pop, .push 30] (by decide)

/-- A second push into a queue of one is refused, and then the first item is
    not delivered. -/
theorem overflow_not_behaves :
    ¬ ∀ (P : LFParams) (ops : List (Op Nat)), PopsHeld P.capacity [] ops →
      Behaves P 1 ops := by
  intro hall
  have hbad := hall ⟨0, 64, by decide⟩ [.push 10, .push 20] (by decide)
  revert hbad
  unfold Behaves
  decide

end LFQueue

end BlackSiren

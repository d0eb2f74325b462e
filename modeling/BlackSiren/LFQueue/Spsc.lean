import BlackSiren.LFQueue.Order
import Mathlib.Data.Fintype.Defs

/-! # `LFQueue`: one producer and one consumer

    With one thread on each side no push is overtaken, so without overflow the
    queue is a plain pipe: what comes out is what went in, in order.

    - `Side`, `spsc`: the runs of two threads
    - `Slots.Filling`: the producer's numbers
    - `taken_prefix_called`: the order
    - `taken_eq_called`: nothing is left behind in an empty queue
    - `inHand`, `push_steps`, `pop_steps`: what the steps of either thread show
      to the outside
    - `record_of_pop`, `record_of_push` and the like: what the consumer's thread
      has passed on and what it holds stay what was taken
-/

namespace BlackSiren

namespace LFQueue

variable {α : Type}

/-- The two threads of such a queue. -/
inductive Side where
  | producer
  | consumer
  deriving DecidableEq

instance : Fintype Side where
  elems := {.producer, .consumer}
  complete p := by cases p <;> decide

/-- Each thread makes its own calls. -/
def Label.Own : Label Side α → Prop
  | .push p _ => p = .producer
  | .pop p => p = .consumer
  | .step _ _ => True

/-- The runs of one producer and one consumer. -/
def State.spsc (α : Type) [DecidableEq α] (P : LFParams) :
    LTS.System (State Side α) (Label Side α) :=
  (State.system Side α P).restrict fun _ l => l.Own

namespace Trace

theorem SingleConsumer.append {c : Side} {tr tr' : List (Side × Event α)}
    (h : SingleConsumer c tr) (h' : SingleConsumer c tr') : SingleConsumer c (tr ++ tr') := by
  intro e he
  rcases List.mem_append.mp he with he | he
  · exact h e he
  · exact h' e he

theorem OwnItems.append {owner : α → Side} {tr tr' : List (Side × Event α)}
    (h : OwnItems owner tr) (h' : OwnItems owner tr') : OwnItems owner (tr ++ tr') := by
  intro e he
  rw [calls_append] at he
  rcases List.mem_append.mp he with he | he
  · exact h e he
  · exact h' e he

end Trace

/-! ### The producer's numbers -/

namespace Phase

/-- The number of a push that has drawn one and not yet filled its cell. -/
def number : Phase α → Option Nat
  | .claiming _ n => some n
  | .storing _ n => some n
  | _ => none

end Phase

/-- A push begins with its call. -/
theorem Act.pushing {P : LFParams} {m m' : Memory α} {f f' : Phase α} {ev : Option (Event α)}
    (h : Act P m f m' f' ev) (hf : f'.item ≠ none) :
    f.item ≠ none ∨ ∃ x, ev = some (.called x) := by
  cases h with
  | call last x => exact .inr ⟨x, rfl⟩
  | lower n hpos =>
    exact absurd (by unfold Phase.lowered; split <;> rfl) hf
  | draw x => exact .inl (Option.some_ne_none x)
  | accept x n hzero => exact .inl (Option.some_ne_none x)
  | retry x n hneg => exact .inl (Option.some_ne_none x)
  | _ => exact absurd rfl hf

/-- What an action does about the numbers of pushes, as long as no push can
    fail. -/
theorem Act.number_cases {P : LFParams} {m m' : Memory α} {f f' : Phase α}
    {ev : Option (Event α)} (h : Act P m f m' f' ev) (hm : ∀ i, 0 ≤ m.val i) (p : Side)
    (hov : Trace.overflowed (ev.map (p, ·)).toList = []) {isMover : Prop}
    (hmover : f.item ≠ none → isMover) :
    TicketCases P isMover f.number f'.number m.push_ m'.push_
      (Trace.fills (ev.map (p, ·)).toList) := by
  cases h with
  | draw x => exact .draw (hmover (Option.some_ne_none x)) rfl rfl rfl rfl
  | fill x n hnone => exact .use (hmover (Option.some_ne_none x)) n x rfl rfl rfl rfl
  | overflow x n hpos => cases hov
  | retry x n hneg =>
    have := hm (P.slot n)
    omega
  | lower n hpos =>
    refine .keep ?_ rfl rfl
    unfold Phase.lowered
    split <;> rfl
  | _ => exact .keep rfl rfl rfl

namespace Slots

variable {P : LFParams}

/-- The producer fills the cells in turn. -/
structure Filling (P : LFParams) (s : Slots Side α) : Prop where
  turns : InTurn P .producer Phase.number Memory.push_ Trace.fills s
  others : ∀ p, p ≠ .producer → (s.phase p).item = none

/-- All pushes are the producer's. -/
theorem filling {s : Slots Side α} (h : LTS.Reachable (system Side α P) s)
    (hown : Trace.OwnItems (fun _ => Side.producer) s.trace)
    (hov : Trace.overflowed s.trace = []) : Filling P s := by
  refine invariant_of_acts (fun s : Slots Side α =>
    Trace.OwnItems (fun _ => Side.producer) s.trace →
      Trace.overflowed s.trace = [] → Filling P s) ?_ ?_ h hown hov
  · intro _ _
    refine ⟨⟨rfl, fun _ => rfl, ?_⟩, fun _ _ => rfl⟩
    intro n hn
    cases hn
  · intro s p m f ev hr hs hact hown hov
    have hown' : Trace.OwnItems (fun _ => Side.producer) (s.trace ++ (ev.map (p, ·)).toList) := hown
    have hov' : Trace.overflowed (s.trace ++ (ev.map (p, ·)).toList) = [] := hov
    rw [Trace.overflowed_append, List.append_eq_nil_iff] at hov'
    have hfill := hs hown'.of_append.1 hov'.1
    -- only the producer pushes
    have hmover : (s.phase p).item ≠ none → p = .producer := by
      intro hitem
      by_contra hne
      exact hitem (hfill.others p hne)
    refine ⟨hfill.turns.after Trace.fills_append
      (hact.number_cases (balanced hr).nonneg p hov'.2 hmover), ?_⟩
    intro q hq
    by_cases hqp : q = p
    · subst hqp
      show (Function.update s.phase q f q).item = none
      rw [Function.update_self]
      by_contra hitem
      rcases hact.pushing hitem with hbefore | ⟨x, rfl⟩
      · exact hq (hmover hbefore)
      · exact hq (hown'.of_append.2 (q, x) (List.mem_singleton.mpr rfl)).symm
    · show (Function.update s.phase p f q).item = none
      rw [Function.update_of_ne hqp]
      exact hfill.others q hq

/-- The places that are filled in turn go up. -/
theorem Filling.ascend {s : Slots Side α} (h : Filling P s) :
    (Lanes.places P.capacity (Trace.fills s.trace)).Pairwise fun a b => a.1 < b.1 := by
  have hturn : (Trace.fills s.trace).map Prod.fst =
      (List.range (Trace.fills s.trace).length).map (· % P.capacity) := by
    rw [h.turns.in_turn]
    exact List.map_congr_left fun t _ => P.slot_eq t
  rw [← List.pairwise_map (R := (· < ·)), Lanes.places_in_turn P.capacity_pos hturn]
  exact List.pairwise_lt_range

/-- What both threads have called for, in a run without overflow. -/
structure Piped (P : LFParams) (s : Slots Side α) : Prop where
  filling : Filling P s
  taking : OneAtATime P .consumer s
  called : Trace.called s.trace =
    (Trace.fills s.trace).map Prod.snd ++ (s.phase .producer).item.toList
  taken : Trace.taken s.trace <+: (Trace.fills s.trace).map Prod.snd

theorem piped {s : Slots Side α} (h : LTS.Reachable (system Side α P) s)
    (hc : Trace.SingleConsumer Side.consumer s.trace)
    (hown : Trace.OwnItems (fun _ => Side.producer) s.trace)
    (hov : Trace.overflowed s.trace = []) : Piped P s := by
  have hfilling := filling h hown hov
  refine ⟨hfilling, one_at_a_time h hc hov, ?_, ?_⟩
  · have hcalled := (fills_of_called h hown hov).called .producer
    rwa [List.filter_eq_self.mpr fun _ _ => by simp,
      List.filter_eq_self.mpr fun _ _ => by simp] at hcalled
  · have hprefix := taken_prefix h hc hov (fun _ => true) (hfilling.ascend.filter _)
    rwa [List.filter_true, List.filter_true] at hprefix

/-- Of the numbers used so far, as many go to item `i` as the log has entries. -/
theorem lane_count {c : Side} {ticket : Phase α → Option Nat} {counter : Memory α → Nat}
    {log : List (Side × Event α) → List (Nat × α)} {s : Slots Side α}
    (h : InTurn P c ticket counter log s) {i : Nat} :
    (log s.trace).countP (fun e => e.1 = i) =
      (List.range (log s.trace).length).countP (fun t => P.slot t = i) := by
  have hcount := congrArg (List.countP (· = i)) h.in_turn
  rw [List.countP_map, List.countP_map] at hcount
  exact hcount

/-- With empty cells, all that has been filled has been taken. -/
theorem Piped.taken_eq {s : Slots Side α} (hs : Piped P s)
    (h : LTS.Reachable (system Side α P) s) (hcells : ∀ i < P.capacity, s.mem.data i = none) :
    Trace.taken s.trace = (Trace.fills s.trace).map Prod.snd := by
  apply hs.taken.eq_of_length_le
  rw [List.length_map]
  show _ ≤ ((Trace.takes s.trace).map Prod.snd).length
  rw [List.length_map]
  by_contra hlt
  -- otherwise the first filling that has not been taken is in its cell
  have hlane := fills_lane h (P.slot (Trace.takes s.trace).length)
  rw [hcells _ (P.slot_lt _), Option.map_none, Option.toList_none, List.append_nil] at hlane
  have hcount := congrArg List.length hlane
  rw [← List.countP_eq_length_filter, ← List.countP_eq_length_filter, lane_count hs.filling.turns,
    lane_count hs.taking.turns] at hcount
  obtain ⟨k, hk⟩ := Nat.exists_eq_add_of_lt (not_le.mp hlt)
  rw [hk, Nat.add_right_comm, List.range_add, List.range_succ] at hcount
  simp at hcount

end Slots

/-! ### Inside a call -/

namespace Phase

/-- The item that a pop has taken, until the consumer does something else. -/
def inHand : Phase α → List α
  | .leaving data _ => data.toList
  | .idle (some (.pop _ data)) => data.toList
  | _ => []

/-- The status with which a pop returns. -/
def status : Phase α → Option Int
  | .leaving _ err => some err
  | .idle (some (.pop err _)) => some err
  | _ => none

end Phase

/-- Inside a call, an action on the consumer's side hands over what it takes. -/
theorem Act.inHand {P : LFParams} {m m' : Memory α} {f f' : Phase α} {ev : Option (Event α)}
    (h : Act P m f m' f' ev) (hidle : ∀ last, f ≠ .idle last) (p : Side) :
    f'.inHand = f.inHand ++ Trace.taken (ev.map (p, ·)).toList := by
  cases h with
  | call last x => exact absurd rfl (hidle last)
  | want last => exact absurd rfl (hidle last)
  | lower n hpos =>
    unfold Phase.lowered
    split <;> rfl
  | leave data err => exact (List.append_nil _).symm
  | _ => rfl

/-- What is in a cell was put there last, or was there before. -/
theorem cell_of_update {data : Nat → Option α} {n i : Nat} {o : Option α} {x : α}
    (h : Function.update data n o i = some x) : o = some x ∨ data i = some x := by
  by_cases hi : i = n
  · rw [hi, Function.update_self] at h
    exact .inl h
  · rw [Function.update_of_ne hi] at h
    exact .inr h

/-- What is in the cells, on its way to one or in hand has been called for. -/
structure Slots.Sourced (s : Slots Side α) : Prop where
  item : ∀ p x, (s.phase p).item = some x → x ∈ Trace.called s.trace
  cell : ∀ i x, s.mem.data i = some x → x ∈ Trace.called s.trace
  inHand : ∀ p, ∀ x ∈ (s.phase p).inHand, x ∈ Trace.called s.trace

/-- An action moves items and adds none but what it is called with. -/
theorem Act.sourced {P : LFParams} {m m' : Memory α} {f f' : Phase α} {ev : Option (Event α)}
    (h : Act P m f m' f' ev) (p : Side) {Q : α → Prop} (hitem : ∀ x, f.item = some x → Q x)
    (hcell : ∀ i x, m.data i = some x → Q x) (hhand : ∀ x ∈ f.inHand, Q x)
    (hcalled : ∀ x ∈ Trace.called (ev.map (p, ·)).toList, Q x) :
    (∀ x, f'.item = some x → Q x) ∧ (∀ i x, m'.data i = some x → Q x) ∧
      ∀ x ∈ f'.inHand, Q x := by
  cases h with
  | call last x =>
    refine ⟨?_, hcell, ?_⟩
    · intro y hy
      exact Option.some.inj hy ▸ hcalled x List.mem_cons_self
    · intro y hy
      cases hy
  | fill x n hnone =>
    refine ⟨?_, ?_, ?_⟩
    · intro y hy
      cases hy
    · intro i y hy
      rcases cell_of_update hy with hy | hy
      · exact Option.some.inj hy ▸ hitem x rfl
      · exact hcell i y hy
    · intro y hy
      cases hy
  | take n x hsome =>
    refine ⟨?_, ?_, ?_⟩
    · intro y hy
      cases hy
    · intro i y hy
      rcases cell_of_update hy with hy | hy
      · cases hy
      · exact hcell i y hy
    · intro y hy
      exact List.mem_singleton.mp hy ▸ hcell _ x hsome
  | lower n hpos =>
    unfold Phase.lowered
    refine ⟨?_, hcell, ?_⟩
    · intro y hy
      split at hy <;> cases hy
    · intro y hy
      split at hy <;> cases hy
  | overflow x n hpos =>
    refine ⟨?_, hcell, hhand⟩
    intro y hy
    cases hy
  | want last =>
    refine ⟨?_, hcell, ?_⟩
    · intro y hy
      cases hy
    · intro y hy
      cases hy
  | _ => exact ⟨hitem, hcell, hhand⟩

theorem Slots.sourced {P : LFParams} {s : Slots Side α}
    (h : LTS.Reachable (system Side α P) s) : s.Sourced := by
  refine invariant_of_acts Slots.Sourced ⟨?_, ?_, ?_⟩ ?_ h
  · intro p x hx
    cases hx
  · intro i x hx
    cases hx
  · intro p x hx
    cases hx
  · intro s p m f ev _ hs hact
    -- what has been called for stays on record
    have hold : ∀ x ∈ Trace.called s.trace,
        x ∈ Trace.called (s.trace ++ (ev.map (p, ·)).toList) := by
      intro x hx
      rw [Trace.called_append]
      exact List.mem_append_left _ hx
    obtain ⟨hitem, hcell, hhand⟩ := hact.sourced p (fun x hx => hold x (hs.item p x hx))
      (fun i x hx => hold x (hs.cell i x hx)) (fun x hx => hold x (hs.inHand p x hx))
      (fun x hx => by rw [Trace.called_append]; exact List.mem_append_right _ hx)
    refine ⟨?_, hcell, ?_⟩
    · intro q x hx
      by_cases hq : q = p
      · have hx' : (Function.update s.phase p f q).item = some x := hx
        rw [hq, Function.update_self] at hx'
        exact hitem x hx'
      · have hx' : (Function.update s.phase p f q).item = some x := hx
        rw [Function.update_of_ne hq] at hx'
        exact hold x (hs.item q x hx')
    · intro q x hx
      by_cases hq : q = p
      · have hx' : x ∈ (Function.update s.phase p f q).inHand := hx
        rw [hq, Function.update_self] at hx'
        exact hhand x hx'
      · have hx' : x ∈ (Function.update s.phase p f q).inHand := hx
        rw [Function.update_of_ne hq] at hx'
        exact hold x (hs.inHand q x hx')

/-- Inside a call nothing is called for. -/
theorem Act.called_nil {P : LFParams} {m m' : Memory α} {f f' : Phase α} {ev : Option (Event α)}
    (h : Act P m f m' f' ev) (hidle : ∀ last, f ≠ .idle last) :
    ev ≠ some .wanted ∧ ∀ x, ev ≠ some (.called x) := by
  cases h with
  | call last x => exact absurd rfl (hidle last)
  | want last => exact absurd rfl (hidle last)
  | _ =>
    constructor
    · intro hev
      cases hev
    · intro x hev
      cases hev

/-- Only pops take. -/
theorem Act.taken_nil {P : LFParams} {m m' : Memory α} {f f' : Phase α} {ev : Option (Event α)}
    (h : Act P m f m' f' ev) (hf : f.popping = false) (p : Side) :
    Trace.taken (ev.map (p, ·)).toList = [] := by
  cases h with
  | take n x hsome => cases hf
  | _ => rfl

/-- A pop returns 0 or -1. -/
theorem Act.status {P : LFParams} {m m' : Memory α} {f f' : Phase α} {ev : Option (Event α)}
    (h : Act P m f m' f' ev) (hf : f.status ≠ some (-2)) : f'.status ≠ some (-2) := by
  cases h with
  | lower n hpos =>
    unfold Phase.lowered
    split
    · show some (-1 : Int) ≠ some (-2)
      decide
    · intro hnone
      cases hnone
  | take n x hsome =>
    show some (0 : Int) ≠ some (-2)
    decide
  | leave data err => exact hf
  | _ =>
    intro hnone
    cases hnone

theorem Pc.eq_idle {c : Pc α} {last : Option (Ret α)} (h : c.phase = .idle last) :
    c = .idle last := by
  cases c with
  | idle last' => exact congrArg Pc.idle (Phase.idle.inj h)
  | pushed x err =>
    simp only [Pc.phase] at h
    split at h
    · cases h
    · split at h <;> cases h
  | waitLeave n v =>
    simp only [Pc.phase, Phase.lowered] at h
    split at h <;> cases h
  | _ => cases h

namespace State

variable [DecidableEq α] {P : LFParams}

/-- A step of a thread: its phase and the memory are as before, or it has taken
    an action inside a call. -/
theorem next_step {s s' : State Side α} {p : Side} {errno : Nat} (hok : ∀ p, (s.pc p).Ok)
    (h : s.next P (.step p errno) = some s') :
    (∀ q, q ≠ p → s'.pc q = s.pc q) ∧
      (s'.slots = s.slots ∨ ∃ m f ev, s'.slots = s.slots.after p m f ev ∧
        (∀ last, s.slots.phase p ≠ .idle last) ∧ Act P s.slots.mem (s.slots.phase p) m f ev) := by
  obtain ⟨⟨q', c', ev⟩, hatom, rfl⟩ := Option.map_eq_some_iff.mp h
  refine ⟨fun q hq => Function.update_of_ne hq _ _, ?_⟩
  have hmove := s.slots_move p q' c' ev
  rcases (atomic_act (hok p) hatom).2 with ⟨hmem, hphase, rfl⟩ | hact
  · left
    rw [hmove, hmem, hphase]
    show s.slots.after p s.slots.mem (s.slots.phase p) none = s.slots
    unfold Slots.after
    rw [Function.update_eq_self]
    simp
  · refine .inr ⟨q'.memory, c'.phase, ev, hmove, ?_, hact⟩
    intro last hlast
    rw [Pc.eq_idle hlast] at hatom
    cases hatom

theorem next_push {s s' : State Side α} {p : Side} {x : α} (h : s.next P (.push p x) = some s') :
    s' = { s with
      pc := Function.update s.pc p (.pushDraw x)
      trace := s.trace ++ [(p, .called x)] } := by
  simp only [next] at h
  split at h
  · exact (Option.some.inj h).symm
  · cases h

theorem next_pop {s s' : State Side α} {p : Side} (h : s.next P (.pop p) = some s') :
    s' = { s with
      pc := Function.update s.pc p .popDraw
      trace := s.trace ++ [(p, .wanted)] } := by
  simp only [next] at h
  split at h
  · exact (Option.some.inj h).symm
  · cases h

/-- What a run of two threads records. -/
theorem spsc_trace {s : State Side α} (h : LTS.Reachable (spsc α P) s) :
    Trace.SingleConsumer Side.consumer s.trace ∧
      Trace.OwnItems (fun _ => Side.producer) s.trace := by
  refine LTS.invariant_of_reachable (spsc α P) (fun s => Trace.SingleConsumer Side.consumer s.trace ∧
      Trace.OwnItems (fun _ => Side.producer) s.trace) ?_ ?_ h
  · intro s hs
    rw [show s = .new from hs]
    constructor
    · intro e he
      cases he
    · intro e he
      cases he
  · intro s l s' hr hs hstep
    obtain ⟨hown, hnext⟩ := hstep
    cases l with
    | push p x =>
      rw [next_push hnext, show p = .producer from hown]
      exact ⟨hs.1.append (by simp [Trace.SingleConsumer]),
        hs.2.append (by simp [Trace.OwnItems, Trace.calls])⟩
    | pop p =>
      rw [next_pop hnext, show p = .consumer from hown]
      exact ⟨hs.1.append (by simp [Trace.SingleConsumer]),
        hs.2.append (by simp [Trace.OwnItems, Trace.calls])⟩
    | step p errno =>
      rcases (next_step (pc_ok hr.of_restrict) hnext).2 with hsame | ⟨m, f, ev, hafter, hidle, hact⟩
      · rw [show s'.trace = s.trace from congrArg Slots.trace hsame]
        exact hs
      · rw [show s'.trace = s.trace ++ (ev.map (p, ·)).toList from congrArg Slots.trace hafter]
        obtain ⟨hwanted, hcalled⟩ := hact.called_nil hidle
        refine ⟨hs.1.append ?_, hs.2.append ?_⟩
        · intro e he hev
          cases ev with
          | none => cases he
          | some ev =>
            rw [List.mem_singleton.mp he] at hev
            exact absurd (congrArg some hev) hwanted
        · intro e he
          cases ev with
          | none => cases he
          | some ev =>
            cases ev with
            | called x => exact absurd rfl (hcalled x)
            | _ => cases he

/-! ### The queue as a pipe -/

theorem spsc_piped {s : State Side α} (h : LTS.Reachable (spsc α P) s)
    (hov : Trace.overflowed s.trace = []) : Slots.Piped P s.slots := by
  obtain ⟨hc, hown⟩ := spsc_trace h
  exact Slots.piped (reachable_slots h.of_restrict) hc hown hov

/-- What comes out is what went in, in order. -/
theorem taken_prefix_called {s : State Side α} (h : LTS.Reachable (spsc α P) s)
    (hov : Trace.overflowed s.trace = []) : Trace.taken s.trace <+: Trace.called s.trace := by
  have hs := spsc_piped h hov
  exact hs.taken.trans ⟨_, hs.called.symm⟩

/-- All of it, once no push is in progress and all cells are empty. -/
theorem taken_eq_called {s : State Side α} (h : LTS.Reachable (spsc α P) s)
    (hov : Trace.overflowed s.trace = []) (hidle : ∃ last, s.pc .producer = .idle last)
    (hcells : ∀ i < P.capacity, s.queue.data i = none) :
    Trace.taken s.trace = Trace.called s.trace := by
  obtain ⟨last, hidle⟩ := hidle
  have hs := spsc_piped h hov
  have hitem : (s.slots.phase .producer).item = none := by
    show (s.pc .producer).phase.item = none
    rw [hidle]
    rfl
  have hcalled := hs.called
  rw [hitem, Option.toList_none, List.append_nil] at hcalled
  exact (hs.taken_eq (reachable_slots h.of_restrict) hcells).trans hcalled.symm

/-- A cell that has never been filled is empty. -/
theorem data_eq_none {s : State Side α} (h : LTS.Reachable (spsc α P) s) {i : Nat}
    (hi : ∀ e ∈ Trace.fills s.trace, e.1 ≠ i) : s.queue.data i = none := by
  have hlane := Slots.fills_lane (reachable_slots h.of_restrict) i
  have hnone : (Trace.fills s.trace).filter (fun e => e.1 = i) = [] := by
    rw [List.filter_eq_nil_iff]
    intro e he
    simpa using hi e he
  rw [show s.slots.trace = s.trace from rfl, hnone] at hlane
  have hcell := (List.append_eq_nil_iff.mp hlane.symm).2
  rw [Option.toList_eq_nil_iff, Option.map_eq_none_iff] at hcell
  exact hcell

/-- A pop never returns -2. -/
theorem pop_status {s : State Side α} (h : LTS.Reachable (spsc α P) s) {err : Int}
    {data : Option α} (hpc : s.pc .consumer = .idle (some (.pop err data))) : err ≠ -2 := by
  have hall : ∀ p, (s.slots.phase p).status ≠ some (-2) := by
    refine Slots.invariant_of_acts (fun s : Slots Side α => ∀ p, (s.phase p).status ≠ some (-2))
      ?_ ?_ (reachable_slots h.of_restrict)
    · intro p hp
      cases hp
    intro s p m f ev _ hs hact q
    show (Function.update s.phase p f q).status ≠ some (-2)
    by_cases hq : q = p
    · rw [hq, Function.update_self]
      exact hact.status (hs p)
    · rw [Function.update_of_ne hq]
      exact hs q
  have hstatus : (s.slots.phase .consumer).status = some err := by
    show (s.pc .consumer).phase.status = some err
    rw [hpc]
    rfl
  intro herr
  rw [herr] at hstatus
  exact hall .consumer hstatus

/-- The item that the consumer's pop has taken and that the consumer still has. -/
def inHand (s : State Side α) : List α := (s.pc .consumer).phase.inHand

/-- It is one of the items pushed, also when the counters have lapped. -/
theorem mem_called_of_inHand {s : State Side α} (h : LTS.Reachable (spsc α P) s) {x : α}
    (hx : x ∈ s.inHand) : x ∈ Trace.called s.trace :=
  (Slots.sourced (reachable_slots h.of_restrict)).inHand .consumer x hx

/-- A push begins. -/
theorem push_begins {s s' : State Side α} {x : α} (h : s.next P (.push .producer x) = some s') :
    Trace.called s'.trace = Trace.called s.trace ++ [x] ∧
      Trace.taken s'.trace = Trace.taken s.trace ∧ s'.inHand = s.inHand := by
  rw [next_push h]
  exact ⟨Trace.called_append _ _, by simp [Trace.taken, Trace.takes], rfl⟩

/-- A pop begins. -/
theorem pop_begins {s s' : State Side α} (h : s.next P (.pop .consumer) = some s') :
    Trace.called s'.trace = Trace.called s.trace ∧ Trace.taken s'.trace = Trace.taken s.trace ∧
      s'.inHand = [] := by
  rw [next_pop h]
  exact ⟨by simp [Trace.called, Trace.calls], by simp [Trace.taken, Trace.takes], rfl⟩

/-- A step inside a call records no call. -/
theorem step_called {s s' : State Side α} {p : Side} {errno : Nat}
    (hr : LTS.Reachable (spsc α P) s) (h : s.next P (.step p errno) = some s') :
    Trace.called s'.trace = Trace.called s.trace := by
  rcases (next_step (pc_ok hr.of_restrict) h).2 with hsame | ⟨m, f, ev, hafter, hidle, hact⟩
  · rw [show s'.trace = s.trace from congrArg Slots.trace hsame]
  · rw [show s'.trace = s.trace ++ (ev.map (p, ·)).toList from congrArg Slots.trace hafter]
    have hcalled := (hact.called_nil hidle).2
    have hnone : Trace.called (ev.map (p, ·)).toList = [] := by
      cases ev with
      | none => rfl
      | some ev =>
        cases ev with
        | called x => exact absurd rfl (hcalled x)
        | _ => rfl
    rw [Trace.called_append, hnone, List.append_nil]

/-- A step inside a pop: what it takes it has in hand. -/
theorem pop_steps {s s' : State Side α} {errno : Nat} (hr : LTS.Reachable (spsc α P) s)
    (h : s.next P (.step .consumer errno) = some s') :
    ∃ t, Trace.taken s'.trace = Trace.taken s.trace ++ t ∧ s'.inHand = s.inHand ++ t := by
  rcases (next_step (pc_ok hr.of_restrict) h).2 with hsame | ⟨m, f, ev, hafter, hidle, hact⟩
  · refine ⟨[], ?_, ?_⟩
    · rw [show s'.trace = s.trace from congrArg Slots.trace hsame, List.append_nil]
    · show (s'.slots.phase .consumer).inHand = _
      rw [hsame, List.append_nil]
      rfl
  · refine ⟨Trace.taken (ev.map (Side.consumer, ·)).toList, ?_, ?_⟩
    · rw [show s'.trace = s.trace ++ _ from congrArg Slots.trace hafter, Trace.taken_append]
    · show (s'.slots.phase .consumer).inHand = _
      rw [hafter]
      show (Function.update s.slots.phase .consumer f .consumer).inHand = _
      rw [Function.update_self]
      exact hact.inHand hidle .consumer

/-- A step inside a push: nothing is taken. -/
theorem push_steps {s s' : State Side α} {errno : Nat} (hr : LTS.Reachable (spsc α P) s)
    (hov : Trace.overflowed s.trace = []) (h : s.next P (.step .producer errno) = some s') :
    Trace.taken s'.trace = Trace.taken s.trace ∧ s'.inHand = s.inHand := by
  obtain ⟨hothers, hmove⟩ := next_step (pc_ok hr.of_restrict) h
  have hhand : s'.inHand = s.inHand := by
    unfold inHand
    rw [hothers .consumer (by decide)]
  refine ⟨?_, hhand⟩
  rcases hmove with hsame | ⟨m, f, ev, hafter, _, hact⟩
  · rw [show s'.trace = s.trace from congrArg Slots.trace hsame]
  · have hpopping := (spsc_piped hr hov).taking.others .producer (by decide)
    rw [show s'.trace = s.trace ++ _ from congrArg Slots.trace hafter, Trace.taken_append,
      hact.taken_nil hpopping .producer, List.append_nil]

/-! What a consumer's thread has passed on, `done`, and what it holds are what it has taken. -/

variable {done : List α}

/-- A pop begins with nothing in hand. -/
theorem record_of_pop {s s' : State Side α} (hdone : Trace.taken s.trace = done)
    (h : s.next P (.pop .consumer) = some s') : Trace.taken s'.trace = done ++ s'.inHand := by
  obtain ⟨_, htaken, hhand⟩ := pop_begins h
  rw [htaken, hhand, List.append_nil]
  exact hdone

/-- What the pop takes on its way is in hand. -/
theorem record_of_popping {s s' : State Side α} {errno : Nat} (hr : LTS.Reachable (spsc α P) s)
    (hdone : Trace.taken s.trace = done ++ s.inHand)
    (h : s.next P (.step .consumer errno) = some s') :
    Trace.taken s'.trace = done ++ s'.inHand := by
  obtain ⟨t, htaken, hhand⟩ := pop_steps hr h
  rw [htaken, hhand, hdone, List.append_assoc]

/-- The producer's thread moves nothing of it. -/
theorem record_of_push {s s' : State Side α} {x : α} (held : List α → List α)
    (hdone : Trace.taken s.trace = done ++ held s.inHand)
    (h : s.next P (.push .producer x) = some s') :
    Trace.taken s'.trace = done ++ held s'.inHand := by
  obtain ⟨_, htaken, hhand⟩ := push_begins h
  rw [htaken, hhand]
  exact hdone

theorem record_of_pushing {s s' : State Side α} {errno : Nat} (held : List α → List α)
    (hr : LTS.Reachable (spsc α P) s) (hov : Trace.overflowed s.trace = [])
    (hdone : Trace.taken s.trace = done ++ held s.inHand)
    (h : s.next P (.step .producer errno) = some s') :
    Trace.taken s'.trace = done ++ held s'.inHand := by
  obtain ⟨htaken, hhand⟩ := push_steps hr hov h
  rw [htaken, hhand]
  exact hdone

/-- A push overflows when its fetch-and-add finds a counter above 0. -/
theorem atomic_overflowed {q q' : LFQueue α} {errno : Nat} {c c' : Pc α} {x : α} (hok : c.Ok)
    (h : atomic P q errno c = some (q', c', some (.overflowed x))) :
    ∃ n, c = .incAdd x n ∧ 0 < q.val (P.slot n) := by
  have hacc : Access P q c q' c' (some (.overflowed x)) := access_of_atomic h
  generalize hev : some (Event.overflowed x) = ev at hacc
  cases hacc with
  | raise y n _ =>
    have hle : _ ≤ (0 : Int) := hok
    simp only [incDone] at hev
    split at hev
    · cases hev
    · split at hev
      · omega
      · cases hev
  | add y n =>
    simp only [incDone] at hev
    split at hev
    · cases hev
    · split at hev
      · next hpos =>
        cases hev
        exact ⟨n, rfl, hpos⟩
      · cases hev
  | _ => cases hev

/-- The consumer never pushes. -/
theorem consumer_item {s : State Side α} (hr : LTS.Reachable (spsc α P) s)
    (hov : Trace.overflowed s.trace = []) : (s.pc .consumer).phase.item = none :=
  (spsc_piped hr hov).filling.others .consumer (by decide)

/-- A step that overflows nothing new. -/
theorem overflowed_step {s s' : State Side α} {p : Side} {errno : Nat}
    (hr : LTS.Reachable (spsc α P) s) (hov : Trace.overflowed s.trace = [])
    (hroom : p = .producer → ∀ x n, s.pc .producer = .incAdd x n → s.queue.val (P.slot n) ≤ 0)
    (h : s.next P (.step p errno) = some s') : Trace.overflowed s'.trace = [] := by
  obtain ⟨⟨q', c', ev⟩, hatom, rfl⟩ := Option.map_eq_some_iff.mp h
  show Trace.overflowed (s.trace ++ (ev.map (p, ·)).toList) = []
  rw [Trace.overflowed_append, hov, List.nil_append]
  rcases hev : ev with _ | e
  · rfl
  · cases e with
    | overflowed x =>
      rw [hev] at hatom
      obtain ⟨n, hpc, hpos⟩ := atomic_overflowed (pc_ok hr.of_restrict p) hatom
      cases p with
      | producer =>
        have hle := hroom rfl x n hpc
        omega
      | consumer =>
        have hitem := consumer_item hr hov
        rw [hpc] at hitem
        cases hitem
    | _ => rfl

/-- Overflows stay on record. -/
theorem overflowed_of_next {s s' : State Side α} {l : Label Side α} (h : s.next P l = some s')
    (hov : Trace.overflowed s'.trace = []) : Trace.overflowed s.trace = [] := by
  obtain ⟨tr, htr⟩ : ∃ tr, s'.trace = s.trace ++ tr := by
    cases l with
    | push p x => exact ⟨_, congrArg State.trace (next_push h)⟩
    | pop p => exact ⟨_, congrArg State.trace (next_pop h)⟩
    | step p errno =>
      obtain ⟨r, _, rfl⟩ := Option.map_eq_some_iff.mp h
      exact ⟨_, rfl⟩
  rw [htr, Trace.overflowed_append, List.append_eq_nil_iff] at hov
  exact hov.1

end State

end LFQueue

end BlackSiren

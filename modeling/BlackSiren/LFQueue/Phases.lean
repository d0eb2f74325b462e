import BlackSiren.LFQueue.Steps

/-! # `LFQueue`: what the calls do to numbers, counters and cells

    Most accesses of a call only look.  Seen from the numbers, the counters and
    the cells, a call goes through a few phases, and each of its steps is one of
    thirteen actions.

    - `Phase` and `Pc.phase`: where a call stands
    - `Memory`, `Act`: the actions
    - `Slots`, `Slots.system`: threads that take these actions in any order
    - `reachable_slots`: every run of the atomic steps is such a run

    The invariants of the queue are proved of `Slots.system`.
-/

namespace BlackSiren

namespace LFQueue

variable {Pid α : Type}

/-! ### Phases -/

/-- Where a call stands. -/
inductive Phase (α : Type) where
  | idle (last : Option (Ret α))
  /-- A push is about to draw a number. -/
  | asking (x : α)
  /-- It is about to raise the counter of item `n`. -/
  | claiming (x : α) (n : Nat)
  /-- It has the item and fills its cell. -/
  | storing (x : α) (n : Nat)
  | stored (x : α)
  /-- The counter was above 0. -/
  | refused (x : α)
  /-- A pop is about to draw a number. -/
  | wanting
  /-- It waits for the counter of item `n` to be above 0. -/
  | awaiting (n : Nat)
  /-- It has the item and empties its cell. -/
  | taking (n : Nat)
  | leaving (data : Option α) (err : Int)
  deriving DecidableEq

/-- The phase of a pop that has lowered its counter from `old`. -/
def Phase.lowered (n : Nat) (old : Int) : Phase α :=
  if old ≠ 1 then .leaving none (-1) else .taking n

/-- The phase at a point of a call. -/
def Pc.phase : Pc α → Phase α
  | .idle last => .idle last
  | .pushDraw x => .asking x
  | .incRead x n => .claiming x n
  | .incCas x n _ => .claiming x n
  | .incAdd x n => .claiming x n
  | .store x n => .storing x n
  | .pushed x err => if err = 0 then .stored x else if err = -2 then .refused x else .asking x
  | .popDraw => .wanting
  | .decRead n _ => .awaiting n
  | .decCas n _ _ => .awaiting n
  | .waitEnter n _ => .awaiting n
  | .futexWait n _ => .awaiting n
  | .decAdd n => .awaiting n
  | .waitLeave n v => .lowered n v
  | .take n => .taking n
  | .takeCas n _ => .taking n
  | .popped data err => .leaving data err

/-- Only a thread in no call is idle. -/
theorem phase_ne_idle {c : Pc α} (h : ∀ last, c ≠ .idle last) (last : Option (Ret α)) :
    c.phase ≠ .idle last := by
  intro hidle
  cases c with
  | idle last => exact h last rfl
  | pushed x err =>
    simp only [Pc.phase] at hidle
    split at hidle
    · cases hidle
    · split at hidle <;> cases hidle
  | waitLeave n v =>
    simp only [Pc.phase, Phase.lowered] at hidle
    split at hidle <;> cases hidle
  | _ => cases hidle

/-- What a thread knows of the value it has read: `inc_if_le0` and `dec_if_gt0`
    swap only values of their side of 0, and no wait times out. -/
def Pc.Ok : Pc α → Prop
  | .incCas _ _ v => v ≤ 0
  | .decCas _ _ v => 0 < v
  | .decAdd _ => False
  | _ => True

/-! ### Actions -/

/-- What the calls share: the numbers drawn, the counters and the cells. -/
structure Memory (α : Type) where
  push_ : Nat
  pop_ : Nat
  val : Nat → Int
  data : Nat → Option α

/-- The numbers, counters and cells of a queue. -/
def memory (q : LFQueue α) : Memory α := ⟨q.push_, q.pop_, q.val, q.data⟩

theorem memory_addVal (q : LFQueue α) (i : Nat) (d : Int) :
    (q.addVal i d).memory =
      { q.memory with val := Function.update q.val i (q.val i + d) } := by
  unfold memory
  simp

theorem memory_addWaiters (q : LFQueue α) (i : Nat) (d : Int) :
    (q.addWaiters i d).memory = q.memory := by
  unfold memory
  simp

theorem memory_setData (q : LFQueue α) (i : Nat) (o : Option α) :
    (q.setData i o).memory = { q.memory with data := Function.update q.data i o } := by
  unfold memory
  simp

/-- The actions: what a call in some phase does to the memory, its next phase
    and the event recorded. -/
inductive Act (P : LFParams) : Memory α → Phase α → Memory α → Phase α → Option (Event α) → Prop
  | call (m : Memory α) (last : Option (Ret α)) (x : α) :
      Act P m (.idle last) m (.asking x) (some (.called x))
  | draw (m : Memory α) (x : α) :
      Act P m (.asking x) { m with push_ := m.push_ + 1 } (.claiming x m.push_) none
  | accept (m : Memory α) (x : α) (n : Nat) (h : m.val (P.slot n) = 0) :
      Act P m (.claiming x n) { m with val := Function.update m.val (P.slot n) 1 }
        (.storing x n) (some (.accepted x))
  | overflow (m : Memory α) (x : α) (n : Nat) (h : 0 < m.val (P.slot n)) :
      Act P m (.claiming x n)
        { m with val := Function.update m.val (P.slot n) (m.val (P.slot n) + 1) }
        (.refused x) (some (.overflowed x))
  | retry (m : Memory α) (x : α) (n : Nat) (h : m.val (P.slot n) < 0) :
      Act P m (.claiming x n)
        { m with val := Function.update m.val (P.slot n) (m.val (P.slot n) + 1) }
        (.asking x) none
  | fill (m : Memory α) (x : α) (n : Nat) (h : m.data (P.slot n) = none) :
      Act P m (.storing x n) { m with data := Function.update m.data (P.slot n) (some x) }
        (.stored x) (some (.filled (P.slot n) x))
  | finish (m : Memory α) (x : α) :
      Act P m (.stored x) m (.idle (some (.push 0))) (some (.returned x 0))
  | giveUp (m : Memory α) (x : α) :
      Act P m (.refused x) m (.idle (some (.push 0))) (some (.returned x 0))
  | want (m : Memory α) (last : Option (Ret α)) :
      Act P m (.idle last) m .wanting (some .wanted)
  | drawPop (m : Memory α) :
      Act P m .wanting { m with pop_ := m.pop_ + 1 } (.awaiting m.pop_) none
  | lower (m : Memory α) (n : Nat) (h : 0 < m.val (P.slot n)) :
      Act P m (.awaiting n)
        { m with val := Function.update m.val (P.slot n) (m.val (P.slot n) - 1) }
        (.lowered n (m.val (P.slot n))) none
  | take (m : Memory α) (n : Nat) (x : α) (h : m.data (P.slot n) = some x) :
      Act P m (.taking n) { m with data := Function.update m.data (P.slot n) none }
        (.leaving (some x) 0) (some (.taken (P.slot n) x))
  | leave (m : Memory α) (data : Option α) (err : Int) :
      Act P m (.leaving data err) m (.idle (some (.pop err data))) none

/-- Raising a counter is one of three actions. -/
theorem act_incDone {P : LFParams} (m : Memory α) (x : α) (n : Nat) :
    Act P m (.claiming x n)
      { m with val := Function.update m.val (P.slot n) (m.val (P.slot n) + 1) }
      (incDone x n (m.val (P.slot n))).1.phase (incDone x n (m.val (P.slot n))).2 := by
  unfold incDone
  rcases lt_trichotomy (m.val (P.slot n)) 0 with hneg | hzero | hpos
  · simp only [hneg, if_true]
    exact .retry m x n hneg
  · have hact := Act.accept m x n hzero
    simpa [hzero, Pc.phase] using hact
  · have hnot : ¬ m.val (P.slot n) < 0 := by omega
    have hpos' : m.val (P.slot n) > 0 := hpos
    simp only [hnot, hpos', if_true, if_false]
    exact .overflow m x n hpos

theorem incDone_ok (x : α) (n : Nat) (old : Int) : (incDone x n old).1.Ok := by
  unfold incDone
  split
  · trivial
  · split <;> trivial

theorem phase_decDone (n : Nat) (old : Int) :
    (decDone n old : Pc α).phase = .lowered n old := by
  unfold decDone Phase.lowered
  split <;> rfl

theorem decDone_ok (n : Nat) (old : Int) : (decDone n old : Pc α).Ok := by
  unfold decDone
  split <;> trivial

/-- What an access does to what the phases see: an action, or nothing. -/
def Shows (P : LFParams) (q : LFQueue α) (c : Pc α) (q' : LFQueue α) (c' : Pc α)
    (ev : Option (Event α)) : Prop :=
  c'.Ok ∧ ((q'.memory = q.memory ∧ c'.phase = c.phase ∧ ev = none) ∨
    Act P q.memory c.phase q'.memory c'.phase ev)

section Accesses

variable {P : LFParams} {q q' : LFQueue α} {errno : Nat} {c c' : Pc α} {ev : Option (Event α)}

/-- `inc`, by either of its accesses. -/
theorem incremented {x : α} {n : Nat} (hc : c.phase = .claiming x n) :
    Shows P q c (q.addVal (P.slot n) 1) (incDone x n (q.val (P.slot n))).1
      (incDone x n (q.val (P.slot n))).2 := by
  refine ⟨incDone_ok x n _, .inr ?_⟩
  rw [hc, memory_addVal]
  exact act_incDone q.memory x n

/-- `dec_if_gt0` lowers the counter it has seen above 0. -/
theorem lowered {n : Nat} (waited : Bool) (hpos : 0 < q.val (P.slot n)) :
    Shows P q (.decCas n waited (q.val (P.slot n))) (q.addVal (P.slot n) (-1))
      (if waited then .waitLeave n (q.val (P.slot n)) else decDone n (q.val (P.slot n))) none := by
  have hact := Act.lower q.memory n hpos
  unfold Shows
  rw [memory_addVal, ← sub_eq_add_neg]
  cases waited with
  | true => exact ⟨trivial, .inr hact⟩
  | false =>
    refine ⟨decDone_ok n _, .inr ?_⟩
    show Act P q.memory (.awaiting n) _ (decDone n (q.val (P.slot n))).phase none
    rw [phase_decDone]
    exact hact

/-- An access is an action or shows nothing. -/
theorem access_act (hok : c.Ok) (h : Access P q c q' c' ev) : Shows P q c q' c' ev := by
  cases h with
  | drawPush x => exact ⟨trivial, .inr (.draw q.memory x)⟩
  | readLow x n hle => exact ⟨hle, .inl ⟨rfl, rfl, rfl⟩⟩
  | readHigh x n => exact ⟨trivial, .inl ⟨rfl, rfl, rfl⟩⟩
  | raise x n heq =>
    subst heq
    exact incremented rfl
  | raiseMissed x n v => exact ⟨trivial, .inl ⟨rfl, rfl, rfl⟩⟩
  | add x n => exact incremented rfl
  | fill x n hnone =>
    refine ⟨trivial, .inr ?_⟩
    rw [memory_setData]
    exact .fill q.memory x n hnone
  | fillMissed x n => exact ⟨trivial, .inl ⟨rfl, rfl, rfl⟩⟩
  | count x => exact ⟨trivial, .inr (.finish q.memory x)⟩
  | @again x err hzero htwo =>
    have hphase : (Pc.pushed x err).phase = .asking x := by simp [Pc.phase, hzero, htwo]
    exact ⟨trivial, .inl ⟨rfl, hphase.symm, rfl⟩⟩
  | refuse x => exact ⟨trivial, .inr (.giveUp q.memory x)⟩
  | drawPop => exact ⟨trivial, .inr (.drawPop q.memory)⟩
  | readPos n waited hpos => exact ⟨hpos, .inl ⟨rfl, rfl, rfl⟩⟩
  | readNone n waited => cases waited <;> exact ⟨trivial, .inl ⟨rfl, rfl, rfl⟩⟩
  | lower n waited heq =>
    subst heq
    exact lowered waited hok
  | lowerMissed n waited v => exact ⟨trivial, .inl ⟨rfl, rfl, rfl⟩⟩
  | enter n v => exact ⟨trivial, .inl ⟨memory_addWaiters q _ _, rfl, rfl⟩⟩
  | wake n v => exact ⟨trivial, .inl ⟨rfl, rfl, rfl⟩⟩
  | timeout n => cases hok
  | leave n v =>
    exact ⟨decDone_ok n v, .inl ⟨memory_addWaiters q _ _, phase_decDone n v, rfl⟩⟩
  | look n hsome => exact ⟨trivial, .inl ⟨rfl, rfl, rfl⟩⟩
  | lookMissed n => exact ⟨trivial, .inl ⟨rfl, rfl, rfl⟩⟩
  | empty n hsome =>
    refine ⟨trivial, .inr ?_⟩
    rw [memory_setData]
    exact .take q.memory n _ hsome
  | emptyMissed n d => exact ⟨trivial, .inl ⟨rfl, rfl, rfl⟩⟩
  | uncount data => exact ⟨trivial, .inr (.leave q.memory data 0)⟩
  | @fail data err hne => exact ⟨trivial, .inr (.leave q.memory data err)⟩

/-- An atomic access is an action or shows nothing. -/
theorem atomic_act [DecidableEq α] (hok : c.Ok) (h : atomic P q errno c = some (q', c', ev)) :
    Shows P q c q' c' ev :=
  access_act hok (access_of_atomic h)

end Accesses

/-! ### All threads -/

/-- The memory, the phase of each thread, and the events so far. -/
structure Slots (Pid α : Type) where
  mem : Memory α
  phase : Pid → Phase α
  trace : List (Pid × Event α)

/-- The phases of a state. -/
def State.slots (s : State Pid α) : Slots Pid α where
  mem := s.queue.memory
  phase := fun p => (s.pc p).phase
  trace := s.trace

namespace Slots

variable [DecidableEq Pid]

/-- The new queue. -/
def new : Slots Pid α where
  mem := ⟨0, 0, fun _ => 0, fun _ => none⟩
  phase := fun _ => .idle none
  trace := []

/-- The state after an action of `p`. -/
def after (s : Slots Pid α) (p : Pid) (m : Memory α) (f : Phase α) (ev : Option (Event α)) :
    Slots Pid α where
  mem := m
  phase := Function.update s.phase p f
  trace := s.trace ++ (ev.map (p, ·)).toList

/-- Threads take actions in any order. -/
def system (Pid α : Type) [DecidableEq Pid] (P : LFParams) : LTS.System (Slots Pid α) Pid where
  init := (· = new)
  step := fun s p s' => ∃ m f ev, Act P s.mem (s.phase p) m f ev ∧ s' = s.after p m f ev

/-- What every action keeps holds in every state. -/
theorem invariant_of_acts {P : LFParams} (inv : Slots Pid α → Prop) (hinit : inv new)
    (hact : ∀ s p m f ev, LTS.Reachable (system Pid α P) s → inv s →
      Act P s.mem (s.phase p) m f ev → inv (s.after p m f ev))
    {s : Slots Pid α} (h : LTS.Reachable (system Pid α P) s) : inv s := by
  refine LTS.invariant_of_reachable (system Pid α P) inv ?_ ?_ h
  · intro s hs
    rw [show s = new from hs]
    exact hinit
  · intro s p s' hr hs hstep
    obtain ⟨m, f, ev, hact', rfl⟩ := hstep
    exact hact s p m f ev hr hs hact'

end Slots

/-- The phases of a state after a thread's move. -/
theorem State.slots_move [DecidableEq Pid] (s : State Pid α) (p : Pid) (q : LFQueue α) (c : Pc α)
    (ev : Option (Event α)) :
    State.slots ⟨q, Function.update s.pc p c, s.trace ++ (ev.map (p, ·)).toList⟩ =
      s.slots.after p q.memory c.phase ev := by
  unfold State.slots Slots.after
  congr 1
  funext r
  show (Function.update s.pc p c r).phase = Function.update (fun p => (s.pc p).phase) p c.phase r
  by_cases hr : r = p
  · rw [hr, Function.update_self, Function.update_self]
  · rw [Function.update_of_ne hr, Function.update_of_ne hr]

section

variable [DecidableEq Pid] [DecidableEq α] {P : LFParams}

/-- What a thread knows of what it has read stays true. -/
theorem State.pc_ok {s : State Pid α} (h : LTS.Reachable (State.system Pid α P) s) (p : Pid) :
    (s.pc p).Ok := by
  refine LTS.invariant (State.system Pid α P) (fun s => ∀ p, (s.pc p).Ok) ?_ ?_ h p
  · intro s hs p
    rw [show s = .new from hs]
    trivial
  · intro s l s' hok hstep q
    have hstep' : s.next P l = some s' := hstep
    -- the thread that moves is well again, the others have not changed
    have hupdate : ∀ (p : Pid) (c : Pc α), c.Ok → (Function.update s.pc p c q).Ok := by
      intro p c hc
      by_cases hq : q = p
      · rw [hq, Function.update_self]
        exact hc
      · rw [Function.update_of_ne hq]
        exact hok q
    cases l with
    | push p x =>
      simp only [State.next] at hstep'
      split at hstep'
      · cases hstep'
        exact hupdate p _ trivial
      · cases hstep'
    | pop p =>
      simp only [State.next] at hstep'
      split at hstep'
      · cases hstep'
        exact hupdate p _ trivial
      · cases hstep'
    | step p errno =>
      obtain ⟨⟨q', c', ev⟩, hatom, rfl⟩ := Option.map_eq_some_iff.mp hstep'
      exact hupdate p c' (atomic_act (hok p) hatom).1

/-- Every step of the threads is an action or changes no phase. -/
theorem State.slots_next {s s' : State Pid α} {l : Label Pid α} (hok : ∀ p, (s.pc p).Ok)
    (h : s.next P l = some s') :
    s'.slots = s.slots ∨ ∃ p, (Slots.system Pid α P).step s.slots p s'.slots := by
  cases l with
  | push p x =>
    simp only [State.next] at h
    split at h
    · next last hpc =>
      cases h
      refine .inr ⟨p, s.queue.memory, .asking x, some (.called x), ?_, ?_⟩
      · have hphase : s.slots.phase p = .idle last := congrArg Pc.phase hpc
        rw [hphase]
        exact .call _ last x
      · exact s.slots_move p s.queue (.pushDraw x) (some (.called x))
    · cases h
  | pop p =>
    simp only [State.next] at h
    split at h
    · next last hpc =>
      cases h
      refine .inr ⟨p, s.queue.memory, .wanting, some .wanted, ?_, ?_⟩
      · have hphase : s.slots.phase p = .idle last := congrArg Pc.phase hpc
        rw [hphase]
        exact .want _ last
      · exact s.slots_move p s.queue .popDraw (some .wanted)
    · cases h
  | step p errno =>
    obtain ⟨⟨q', c', ev⟩, hatom, rfl⟩ := Option.map_eq_some_iff.mp h
    have hmove := s.slots_move p q' c' ev
    rcases (atomic_act (hok p) hatom).2 with ⟨hmem, hphase, rfl⟩ | hact
    · left
      rw [hmove, hmem, hphase]
      show s.slots.after p s.slots.mem (s.slots.phase p) none = s.slots
      -- the update puts back what was there
      unfold Slots.after
      rw [Function.update_eq_self]
      simp
    · exact .inr ⟨p, q'.memory, c'.phase, ev, hact, hmove⟩

/-- The phases of a reachable state are reachable by actions. -/
theorem State.reachable_slots {s : State Pid α} (h : LTS.Reachable (State.system Pid α P) s) :
    LTS.Reachable (Slots.system Pid α P) s.slots := by
  refine LTS.Reachable.map State.slots ?_ ?_ h
  · intro s hs
    rw [show s = .new from hs]
    rfl
  · intro s l s' hr hstep
    rcases State.slots_next (State.pc_ok hr) hstep with hsame | ⟨p, hp⟩
    · exact .inl hsame
    · exact .inr ⟨p, hp⟩

end

end LFQueue

end BlackSiren

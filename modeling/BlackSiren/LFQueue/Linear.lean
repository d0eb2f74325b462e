import BlackSiren.Framework.Atomic
import BlackSiren.Framework.BoundedFifo
import BlackSiren.LFQueue.Numbers

/-! # `LFQueue` as an atomic queue

    Any number of threads push and pop.  Where nobody is a lap behind, the queue is a
    plain bounded one: a push takes effect when it draws its number, and a pop when it
    draws its own or, if it was first, when the push with the same number does.

    - `Recorded`: what the callers see
    - `fifo`: the bounded queue, in which a pop of nothing and a push without room wait
    - `Phase.view`, `Numbers.threads`: where its threads are
    - `Follows`: it makes actions that show the same
    - `history_linearizable`
-/

namespace BlackSiren

open BoundedFifo

namespace LFQueue

variable {Pid α : Type}

/-! ### What the callers see -/

/-- What a thread shows of the call it was in, when it has come to this point. -/
def Pc.left : Pc α → List (Atomic.Entry (Op α) (Ret α))
  | .idle (some r) => [.ret r]
  | _ => []

/-- What a step shows; `s` is the state behind it. -/
def State.shown (s : State Pid α) : Label Pid α → List (Pid × Atomic.Entry (Op α) (Ret α))
  | .push p x => [(p, .call (.push x))]
  | .pop p => [(p, .call .pop)]
  | .step p _ => (s.pc p).left.map (p, ·)

/-- The threads and what has been seen of them. -/
structure Recorded (Pid α : Type) where
  state : State Pid α
  history : List (Pid × Atomic.Entry (Op α) (Ret α))

def Recorded.new : Recorded Pid α := ⟨.new, []⟩

def Recorded.next [DecidableEq Pid] [DecidableEq α] (P : LFParams) (r : Recorded Pid α)
    (l : Label Pid α) : Option (Recorded Pid α) :=
  (r.state.next P l).map fun s => ⟨s, r.history ++ s.shown l⟩

/-- `BoundedFifo` with the results of `LFQueue`: `push` returns 0, and `pop` 0 and the item. -/
def fifo (α : Type) (cap : Nat) : Atomic.Object (Op α) (Ret α) (List α) where
  start := []
  apply held op :=
    match BoundedFifo.step cap held op with
    | (.pushed true, held) => some (held, .push 0)
    | (.popped (some x), held) => some (held, .pop 0 (some x))
    | _ => none

theorem fifo_push {cap : Nat} {held : List α} (x : α) (h : held.length < cap) :
    (fifo α cap).apply held (.push x) = some (held ++ [x], .push 0) := by
  simp [fifo, step_push_room held x h]

theorem fifo_pop {cap : Nat} (x : α) (held : List α) :
    (fifo α cap).apply (x :: held) .pop = some (held, .pop 0 (some x)) := rfl

/-- Nobody is a lap behind after the step. -/
def Recorded.Keeps [DecidableEq Pid] [DecidableEq α] (P : LFParams) (r : Recorded Pid α)
    (l : Label Pid α) : Prop :=
  ∀ r' ∈ r.next P l, r'.state.slots.Unlapped P

instance [Fintype Pid] [DecidableEq Pid] [DecidableEq α] (P : LFParams) (r : Recorded Pid α)
    (l : Label Pid α) : Decidable (r.Keeps P l) :=
  inferInstanceAs (Decidable (∀ r' ∈ r.next P l, r'.state.slots.Unlapped P))

/-- The runs in which nobody falls a lap behind. -/
def Recorded.unlapped (Pid α : Type) [DecidableEq Pid] [DecidableEq α] (P : LFParams) :
    LTS.System (Recorded Pid α) (Label Pid α) :=
  (LTS.System.ofFn (· = .new) (Recorded.next P)).restrict (Recorded.Keeps P)

/-! ### Steps as actions -/

/-- `Pc.left` of a phase. -/
def Phase.left : Phase α → List (Atomic.Entry (Op α) (Ret α))
  | .idle (some r) => [.ret r]
  | _ => []

/-- What an action shows of the thread that goes from `f` to `f'`. -/
def Phase.shown : Phase α → Phase α → List (Atomic.Entry (Op α) (Ret α))
  | .idle _, .asking x => [.call (.push x)]
  | .idle _, .wanting => [.call .pop]
  | _, f' => f'.left

theorem left_of_busy {f : Phase α} (h : ∀ last, f ≠ .idle last) : f.left = [] := by
  cases f with
  | idle last => exact absurd rfl (h last)
  | _ => rfl

theorem shown_of_busy {f : Phase α} (h : ∀ last, f ≠ .idle last) (f' : Phase α) :
    f.shown f' = f'.left := by
  cases f with
  | idle last => exact absurd rfl (h last)
  | _ => rfl

theorem left_phase (c : Pc α) : c.phase.left = c.left := by
  by_cases h : ∃ last, c = .idle last
  · obtain ⟨last, rfl⟩ := h
    cases last <;> rfl
  · rw [left_of_busy (phase_ne_idle fun last hlast => h ⟨last, hlast⟩)]
    cases c with
    | idle last => exact absurd ⟨last, rfl⟩ h
    | _ => rfl

/-- A step of the threads is an action that shows the same, or changes no phase and
    shows nothing. -/
theorem State.next_shown [DecidableEq Pid] [DecidableEq α] {P : LFParams} {s s' : State Pid α}
    {l : Label Pid α} (hok : ∀ p, (s.pc p).Ok) (h : s.next P l = some s') :
    (s'.slots = s.slots ∧ s'.shown l = []) ∨
      ∃ p m f ev, Act P s.slots.mem (s.slots.phase p) m f ev ∧ s'.slots = s.slots.after p m f ev ∧
      s'.shown l = ((s.slots.phase p).shown f).map (p, ·) := by
  cases l with
  | push p x =>
    simp only [State.next] at h
    split at h
    · next last hpc =>
      cases h
      have hphase : s.slots.phase p = .idle last := congrArg Pc.phase hpc
      refine .inr ⟨p, s.queue.memory, .asking x, some (.called x), ?_,
        s.slots_move p s.queue (.pushDraw x) (some (.called x)), ?_⟩
      · rw [hphase]
        exact .call _ last x
      · rw [hphase]
        rfl
    · cases h
  | pop p =>
    simp only [State.next] at h
    split at h
    · next last hpc =>
      cases h
      have hphase : s.slots.phase p = .idle last := congrArg Pc.phase hpc
      refine .inr ⟨p, s.queue.memory, .wanting, some .wanted, ?_,
        s.slots_move p s.queue .popDraw (some .wanted), ?_⟩
      · rw [hphase]
        exact .want _ last
      · rw [hphase]
        rfl
    · cases h
  | step p errno =>
    obtain ⟨⟨q', c', ev⟩, hatom, rfl⟩ := Option.map_eq_some_iff.mp h
    have hmove := s.slots_move p q' c' ev
    -- a thread outside of a call makes no access
    have hbusy : ∀ last, s.slots.phase p ≠ .idle last := by
      refine phase_ne_idle ?_
      intro last hidle
      rw [hidle] at hatom
      cases hatom
    have hshown : State.shown ⟨q', Function.update s.pc p c', s.trace ++ (ev.map (p, ·)).toList⟩
        (.step p errno) = c'.phase.left.map (p, ·) := by
      rw [left_phase]
      exact congrArg (fun c : Pc α => c.left.map (p, ·)) (Function.update_self p c' s.pc)
    rw [hshown]
    rcases (atomic_act (hok p) hatom).2 with ⟨hmem, hphase, rfl⟩ | hact
    · refine .inl ⟨?_, ?_⟩
      · rw [hmove, hmem, hphase]
        show s.slots.after p s.slots.mem (s.slots.phase p) none = s.slots
        unfold Slots.after
        rw [Function.update_eq_self]
        simp
      · rw [hphase]
        exact congrArg _ (left_of_busy hbusy)
    · exact .inr ⟨p, q'.memory, c'.phase, ev, hact, hmove, by rw [shown_of_busy hbusy]⟩

/-! ### The threads of the bounded queue -/

/-- A pop that has drawn its number, with the item that a push has drawn it for. -/
def popView : Option α → Atomic.Thread (Op α) (Ret α)
  | some x => .done (.pop 0 (some x))
  | none => .called .pop

/-- A call that has drawn its number has taken effect, but for a pop whose item has not
    been drawn for. -/
def Phase.view (items : List α) : Phase α → Atomic.Thread (Op α) (Ret α)
  | .idle _ => .idle
  | .asking x => .called (.push x)
  | .claiming _ _ => .done (.push 0)
  | .storing _ _ => .done (.push 0)
  | .stored _ => .done (.push 0)
  | .refused _ => .done (.push 0)
  | .wanting => .called .pop
  | .awaiting n => popView items[n]?
  | .taking n => popView items[n]?
  | .leaving data err => .done (.pop err data)

/-- The threads of the bounded queue; a push that has not filled its cell is in it. -/
def Numbers.threads (L : Numbers Pid α) (s : Slots Pid α)
    (history : List (Pid × Atomic.Entry (Op α) (Ret α))) :
    Atomic.Threads Pid (Op α) (Ret α) (List α) :=
  ⟨L.items.drop s.mem.pop_, fun p => (s.phase p).view L.items, history⟩

/-- One more item is seen only by the pop that has its number. -/
theorem view_append (items : List α) (x : α) {f : Phase α}
    (h : ∀ counted, f.place ≠ some ((.pop, items.length), counted)) :
    f.view (items ++ [x]) = f.view items := by
  have hget : ∀ n, n ≠ items.length → (items ++ [x])[n]? = items[n]? := by
    intro n hn
    rcases Nat.lt_or_gt_of_ne hn with hlt | hgt
    · exact List.getElem?_append_left hlt
    · rw [List.getElem?_eq_none (by simp; omega), List.getElem?_eq_none (by omega)]
  cases f with
  | awaiting n => exact congrArg popView (hget n fun hn => h false (by rw [hn]; rfl))
  | taking n => exact congrArg popView (hget n fun hn => h true (by rw [hn]; rfl))
  | _ => rfl

section

variable [DecidableEq Pid] {P : LFParams} {L : Numbers Pid α} {s : Slots Pid α}

theorem view_update (items : List α) (s : Slots Pid α) (p : Pid) (f : Phase α) :
    (fun q => (Function.update s.phase p f q).view items) =
      Function.update (fun q => (s.phase q).view items) p (f.view items) :=
  Function.comp_update (Phase.view items) s.phase p f

/-- The bounded queue follows an action: it makes actions that show the same. -/
def Follows (P : LFParams) (L : Numbers Pid α) (s : Slots Pid α) (p : Pid) (m : Memory α)
    (f : Phase α) (ev : Option (Event α)) : Prop :=
  ∀ history, ∃ L' actions, Fits P L' (s.after p m f ev) ∧
    LTS.exec (Atomic.next (fifo α P.capacity)) (L.threads s history) actions =
      some (L'.threads (s.after p m f ev) (history ++ ((s.phase p).shown f).map (p, ·)))

/-- An action in the middle of a call. -/
theorem follows_inside {L' : Numbers Pid α} {p : Pid} {m : Memory α} {f : Phase α}
    {ev : Option (Event α)} (h : Fits P L' (s.after p m f ev)) (hitems : L'.items = L.items)
    (hpop : m.pop_ = s.mem.pop_) (hview : f.view L.items = (s.phase p).view L.items)
    (hshown : (s.phase p).shown f = []) : Follows P L s p m f ev := by
  intro history
  refine ⟨L', [], h, ?_⟩
  unfold Numbers.threads
  rw [hshown, List.map_nil, List.append_nil, hitems]
  show some _ = some (Atomic.Threads.mk (L.items.drop m.pop_)
    (fun q => (Function.update s.phase p f q).view L.items) history)
  rw [view_update, hview, Function.update_eq_self, hpop]

/-- A call begins or returns. -/
theorem follows_shown {p : Pid} {f : Phase α} {ev : Option (Event α)}
    (h : Fits P L (s.after p s.mem f ev)) (action : Atomic.Action Pid (Op α))
    (hnext : ∀ history, Atomic.next (fifo α P.capacity) (L.threads s history) action =
      some { L.threads s history with
        thread := Function.update (L.threads s history).thread p (f.view L.items)
        history := history ++ ((s.phase p).shown f).map (p, ·) }) :
    Follows P L s p s.mem f ev := by
  intro history
  refine ⟨L, [action], h, ?_⟩
  rw [LTS.exec, hnext]
  show some _ = some (Atomic.Threads.mk (L.items.drop s.mem.pop_)
    (fun q => (Function.update s.phase p f q).view L.items) _)
  rw [view_update]
  rfl

omit [DecidableEq Pid] in
/-- A pop that has drawn a number before the push has waits for it. -/
theorem Fits.exists_awaiting (h : Fits P L s) (hlt : s.mem.push_ < s.mem.pop_) :
    ∃ q, s.phase q = .awaiting s.mem.push_ ∧
      ∀ r counted, (s.phase r).place = some ((.pop, s.mem.push_), counted) → r = q := by
  have hundrawn : L.stage (.push, s.mem.push_) = .undrawn := (h.undrawn .push _).mpr le_rfl
  have hcounted := h.counted s.mem.push_
  rw [hundrawn] at hcounted
  cases hstage : L.stage (.pop, s.mem.push_) with
  | undrawn => exact absurd ((h.undrawn .pop _).mp hstage) (not_le.mpr hlt)
  | finished =>
    rw [hstage] at hcounted
    cases hcounted rfl
  | held q counted =>
    rw [hstage] at hcounted
    cases counted with
    | true => cases hcounted rfl
    | false =>
      refine ⟨q, awaiting_of_place ((h.held q _ _).mpr hstage), ?_⟩
      intro r counted hr
      rw [h.held, hstage] at hr
      cases hr
      rfl

/-- Its item goes into the bounded queue. -/
theorem next_push (h : Fits P L s) {p : Pid} {x : α} (hp : s.phase p = .asking x)
    (hroom : s.mem.push_ + 1 ≤ s.mem.pop_ + P.capacity)
    (history : List (Pid × Atomic.Entry (Op α) (Ret α))) :
    Atomic.next (fifo α P.capacity) (L.threads s history) (.effect p) = some
      { L.threads s history with
        object := L.items.drop s.mem.pop_ ++ [x]
        thread := Function.update (fun q => (s.phase q).view L.items) p (.done (.push 0)) } := by
  have hcalled : (L.threads s history).thread p = .called (.push x) := by
    show (s.phase p).view L.items = _
    rw [hp]
    rfl
  refine Atomic.next_effect hcalled (fifo_push x ?_)
  show (L.items.drop s.mem.pop_).length < P.capacity
  have hpos := P.capacity_pos
  rw [List.length_drop, h.length]
  omega

omit [DecidableEq Pid] in
/-- A thread that has nothing to do with the number drawn is seen as before. -/
theorem view_other (h : Fits P L s) (x : α) {q : Pid}
    (hq : ∀ counted, (s.phase q).place ≠ some ((.pop, s.mem.push_), counted)) :
    (s.phase q).view (L.items ++ [x]) = (s.phase q).view L.items := by
  refine view_append L.items x ?_
  rw [h.length]
  exact hq

/-- A push takes effect when it draws its number, and so does the pop that has already
    drawn the same number, if there is one. -/
theorem follows_push (h : Fits P L s) {p : Pid} {x : α} {ev : Option (Event α)}
    (hp : s.phase p = .asking x)
    (hun : (s.after p { s.mem with push_ := s.mem.push_ + 1 } (.claiming x s.mem.push_)
      ev).Unlapped P) :
    Follows P L s p { s.mem with push_ := s.mem.push_ + 1 } (.claiming x s.mem.push_) ev := by
  obtain ⟨low, hfits⟩ := h.draw_push hp hun
  intro history
  have hpushed := next_push h hp hun.1 history
  have hshown : history ++ ((s.phase p).shown (.claiming x s.mem.push_)).map (p, ·) = history := by
    rw [hp]
    exact List.append_nil history
  rw [hshown]
  rcases Nat.lt_or_ge s.mem.push_ s.mem.pop_ with hlt | hle
  · -- the pop with this number takes the item at once
    obtain ⟨q, hq, honly⟩ := h.exists_awaiting hlt
    have hqp : q ≠ p := by
      rintro rfl
      rw [hp] at hq
      cases hq
    rw [List.drop_eq_nil_of_le (by rw [h.length]; omega)] at hpushed
    refine ⟨_, [.effect p, .effect q], hfits, LTS.exec_cons_eq_some.mpr ⟨_, hpushed,
      LTS.exec_cons_eq_some.mpr ⟨_, Atomic.next_effect ?_ (fifo_pop x []), ?_⟩⟩⟩
    · show Function.update (fun q => (s.phase q).view L.items) p _ q = _
      rw [Function.update_of_ne hqp, hq]
      exact congrArg popView (List.getElem?_eq_none (by rw [h.length]))
    · unfold Numbers.threads
      rw [LTS.exec_nil]
      refine congrArg some (congrArg₂ (Atomic.Threads.mk · · history) ?_ ?_)
      · refine (List.drop_eq_nil_of_le ?_).symm
        rw [List.length_append, h.length]
        exact hlt
      · funext r
        show Function.update (Function.update (fun q => (s.phase q).view L.items) p _) q _ r =
          (Function.update s.phase p _ r).view (L.items ++ [x])
        by_cases hr : r = q
        · have hitem : (L.items ++ [x])[s.mem.push_]? = some x := by
            rw [← h.length, List.getElem?_concat_length]
          rw [hr, Function.update_self, Function.update_of_ne hqp, hq]
          exact (congrArg popView hitem).symm
        · rw [Function.update_of_ne hr]
          by_cases hrp : r = p
          · rw [hrp, Function.update_self, Function.update_self]
            rfl
          · rw [Function.update_of_ne hrp, Function.update_of_ne hrp]
            exact (view_other h x fun counted hplace => hr (honly r counted hplace)).symm
  · refine ⟨_, [.effect p], hfits, LTS.exec_cons_eq_some.mpr ⟨_, hpushed, ?_⟩⟩
    unfold Numbers.threads
    rw [LTS.exec_nil]
    refine congrArg some (congrArg₂ (Atomic.Threads.mk · · history) ?_ ?_)
    · exact (List.drop_append_of_le_length (h.length.symm ▸ hle)).symm
    · funext q
      show Function.update (fun q => (s.phase q).view L.items) p _ q =
        (Function.update s.phase p _ q).view (L.items ++ [x])
      by_cases hq : q = p
      · rw [hq, Function.update_self, Function.update_self]
        rfl
      · rw [Function.update_of_ne hq, Function.update_of_ne hq]
        refine (view_other h x ?_).symm
        -- no pop has drawn this number yet
        intro counted hplace
        rw [h.held] at hplace
        have hdrawn : s.mem.push_ < s.mem.pop_ := h.lt_count (by rw [hplace]; nofun)
        omega

/-- A pop takes effect when it draws its number, if its item has been drawn for. -/
theorem follows_pop (h : Fits P L s) {p : Pid} {ev : Option (Event α)} (hp : s.phase p = .wanting)
    (hun : (s.after p { s.mem with pop_ := s.mem.pop_ + 1 } (.awaiting s.mem.pop_) ev).Unlapped P) :
    Follows P L s p { s.mem with pop_ := s.mem.pop_ + 1 } (.awaiting s.mem.pop_) ev := by
  obtain ⟨low, hfits⟩ := h.draw_pop hp hun
  intro history
  have hcalled : (L.threads s history).thread p = .called .pop := by
    show (s.phase p).view L.items = _
    rw [hp]
    rfl
  have hshown : history ++ ((s.phase p).shown (.awaiting s.mem.pop_)).map (p, ·) = history := by
    rw [hp]
    exact List.append_nil history
  rw [hshown]
  cases hitem : L.items[s.mem.pop_]? with
  | some x =>
    obtain ⟨hlt, hx⟩ := List.getElem?_eq_some_iff.mp hitem
    have hdrop : L.items.drop s.mem.pop_ = x :: L.items.drop (s.mem.pop_ + 1) := by
      rw [List.drop_eq_getElem_cons hlt, hx]
    refine ⟨_, [.effect p], hfits, LTS.exec_cons_eq_some.mpr ⟨_, Atomic.next_effect hcalled
      (hdrop ▸ fifo_pop x (L.items.drop (s.mem.pop_ + 1))), ?_⟩⟩
    unfold Numbers.threads
    rw [LTS.exec_nil]
    refine congrArg some (congrArg (Atomic.Threads.mk _ · history) ?_)
    show _ = fun q => (Function.update s.phase p _ q).view L.items
    rw [view_update]
    refine congrArg (Function.update _ p) ?_
    exact (congrArg popView hitem).symm
  | none =>
    refine ⟨_, [], hfits, ?_⟩
    unfold Numbers.threads
    rw [LTS.exec_nil]
    refine congrArg some (congrArg₂ (Atomic.Threads.mk · · history) ?_ ?_)
    · have hle := List.getElem?_eq_none_iff.mp hitem
      rw [List.drop_eq_nil_of_le hle]
      exact (List.drop_eq_nil_of_le (Nat.le_succ_of_le hle)).symm
    · show _ = fun q => (Function.update s.phase p _ q).view L.items
      rw [view_update]
      refine (Function.update_eq_self_iff.mpr ?_).symm
      rw [hp]
      exact congrArg popView hitem

/-- Whatever a call does, the bounded queue follows. -/
theorem Fits.follows (h : Fits P L s) {p : Pid} {m : Memory α} {f : Phase α}
    {ev : Option (Event α)} (hact : Act P s.mem (s.phase p) m f ev)
    (hun : (s.after p m f ev).Unlapped P) : Follows P L s p m f ev := by
  generalize hp : s.phase p = f₀ at hact
  have hview : ∀ history, (L.threads s history).thread p = f₀.view L.items := by
    intro history
    rw [← hp]
    rfl
  cases hact with
  | call last x =>
    refine follows_shown (h.rest (by rw [hp]; rfl) rfl) (.call p (.push x)) fun history => ?_
    rw [Atomic.next_call (hview history), hp]
    rfl
  | draw x => exact follows_push h hp hun
  | accept x n hzero =>
    exact follows_inside (h.accept hp) rfl rfl (by rw [hp]; rfl) (by rw [hp]; rfl)
  | overflow x n hpos =>
    rw [(h.claiming hp).2] at hpos
    cases hpos
  | retry x n hneg =>
    rw [(h.claiming hp).2] at hneg
    cases hneg
  | fill x n hnone =>
    exact follows_inside (h.fill hp) rfl rfl (by rw [hp]; rfl) (by rw [hp]; rfl)
  | finish x =>
    refine follows_shown (h.rest (by rw [hp]; rfl) rfl) (.ret p) fun history => ?_
    rw [Atomic.next_ret (hview history), hp]
    rfl
  | giveUp x =>
    refine follows_shown (h.rest (by rw [hp]; rfl) rfl) (.ret p) fun history => ?_
    rw [Atomic.next_ret (hview history), hp]
    rfl
  | want last =>
    refine follows_shown (h.rest (by rw [hp]; rfl) rfl) (.call p .pop) fun history => ?_
    rw [Atomic.next_call (hview history), hp]
    rfl
  | drawPop => exact follows_pop h hp hun
  | lower n hpos =>
    have hlowered : (Phase.lowered n (s.mem.val (P.slot n)) : Phase α) = .taking n := by
      rw [(h.awaiting hp hpos).2]
      rfl
    rw [hlowered]
    exact follows_inside (h.lower hp hpos) rfl rfl (by rw [hp]; rfl) (by rw [hp]; rfl)
  | take n x hsome =>
    refine follows_inside (h.take hp hsome) rfl rfl ?_ (by rw [hp]; rfl)
    rw [hp]
    exact (congrArg popView (h.taking hp hsome).2).symm
  | leave data err =>
    refine follows_shown (h.rest (by rw [hp]; rfl) rfl) (.ret p) fun history => ?_
    rw [Atomic.next_ret (hview history), hp]
    rfl

omit [DecidableEq Pid] in
theorem Fits.new : Fits P ⟨[], fun _ => .undrawn, 0⟩ (Slots.new : Slots Pid α) where
  length := rfl
  undrawn k n := by
    cases k with
    | push => exact ⟨fun _ => Nat.zero_le n, fun _ => rfl⟩
    | pop => exact ⟨fun _ => Nat.zero_le n, fun _ => rfl⟩
  held p k counted := ⟨nofun, nofun⟩
  item p n counted := nofun
  counted n := id
  finished n := id
  past n hn := absurd hn (Nat.not_lt_zero n)
  window k := by cases k <;> exact Nat.zero_le _
  val n _ _ := rfl
  cell n _ _ := rfl

end

/-! ### Every run -/

section

variable [DecidableEq Pid] [DecidableEq α] {P : LFParams}

theorem Recorded.reachable_state {r : Recorded Pid α}
    (h : LTS.Reachable (Recorded.unlapped Pid α P) r) :
    LTS.Reachable (State.system Pid α P) r.state := by
  refine LTS.Reachable.map Recorded.state ?_ ?_ h.of_restrict
  · rintro r rfl
    rfl
  · intro r l r' _ hstep
    obtain ⟨s, hs, rfl⟩ := Option.map_eq_some_iff.mp hstep
    exact .inr ⟨l, hs⟩

theorem Recorded.implements : Atomic.Implements (Recorded.unlapped Pid α P) (fifo α P.capacity)
    Recorded.history fun r a =>
      ∃ L, Fits P L r.state.slots ∧ a = L.threads r.state.slots r.history where
  init := by
    rintro r rfl
    exact ⟨_, .new, rfl⟩
  step := by
    rintro r l r' a hr ⟨L, hfits, rfl⟩ ⟨hguard, hstep⟩
    have hun := hguard r' hstep
    obtain ⟨s, hs, rfl⟩ := Option.map_eq_some_iff.mp hstep
    rcases State.next_shown (State.pc_ok (Recorded.reachable_state hr)) hs with
      ⟨hslots, hshown⟩ | ⟨p, m, f, ev, hact, hslots, hshown⟩
    · refine ⟨[], _, rfl, L, hslots ▸ hfits, ?_⟩
      show L.threads r.state.slots r.history = L.threads s.slots (r.history ++ s.shown l)
      rw [hslots, hshown, List.append_nil]
    · have hun' : (r.state.slots.after p m f ev).Unlapped P := hslots ▸ hun
      obtain ⟨L', actions, hfits', hexec⟩ := hfits.follows hact hun' r.history
      refine ⟨actions, _, hexec, L', hslots ▸ hfits', ?_⟩
      show _ = L'.threads s.slots (r.history ++ s.shown l)
      rw [hslots, hshown]
  seen := by
    rintro r a ⟨L, -, rfl⟩
    rfl

/-- Any number of threads push and pop, and none is a lap behind: their calls and
    returns are those of a bounded queue whose operations take effect at once, at
    some moment between call and return.  The items of the pushes that have drawn a
    number are in it but for as many as pops have drawn one; a push has taken effect if
    it has drawn its number, and a pop if it has and the push with the same number has. -/
theorem history_linearizable {r : Recorded Pid α}
    (h : LTS.Reachable (Recorded.unlapped Pid α P) r) :
    Atomic.Linearizable (fifo α P.capacity) r.history ∧
    ∃ (items : List α) (a : Atomic.Threads Pid (Op α) (Ret α) (List α)),
      LTS.Reachable (Atomic.system Pid (fifo α P.capacity)) a ∧ a.history = r.history ∧
        items.length = r.state.queue.push_ ∧ a.object = items.drop r.state.queue.pop_ ∧
        ∀ p, a.thread p = (r.state.pc p).phase.view items := by
  refine ⟨Recorded.implements.linearizable h, ?_⟩
  obtain ⟨a, ha, L, hfits, rfl⟩ := Recorded.implements.follows h
  exact ⟨L.items, _, ha, rfl, hfits.length, rfl, fun _ => rfl⟩

end

deriving instance DecidableEq for Op

/-- A pop waits, the push of item 7 draws its number and stalls, and the push of item 8
    is first to fill a cell. -/
def awaited : List (Label State.Caller Nat) :=
  (.pop .consumer :: List.replicate 3 (.step .consumer 0)) ++ [.push .first 7, .step .first 0] ++
    (.push .second 8 :: List.replicate 5 (.step .second 0)) ++
    List.replicate 4 (.step .first 0) ++ List.replicate 7 (.step .consumer 0)

/-- The pop is given item 7 all the same. -/
theorem history_linearizable_awaited : ∃ r : Recorded State.Caller Nat,
    r.history = [(.consumer, .call .pop), (.first, .call (.push 7)), (.second, .call (.push 8)),
      (.second, .ret (.push 0)), (.first, .ret (.push 0)), (.consumer, .ret (.pop 0 (some 7)))] ∧
    Atomic.Linearizable (fifo Nat 2) r.history := by
  have hrun : ((LTS.exec (LTS.guarded (Recorded.Keeps ⟨1, 64, by decide⟩)
      (Recorded.next ⟨1, 64, by decide⟩)) .new awaited).any fun r =>
      decide (r.history = [(.consumer, .call .pop), (.first, .call (.push 7)),
        (.second, .call (.push 8)), (.second, .ret (.push 0)), (.first, .ret (.push 0)),
        (.consumer, .ret (.pop 0 (some 7)))])) = true := by
    decide +kernel
  obtain ⟨r, hr, hhistory⟩ := (Option.any_eq_true _ _).mp hrun
  exact ⟨r, of_decide_eq_true hhistory,
    (history_linearizable (LTS.reachable_restrict_of_guarded rfl hr)).1⟩

end LFQueue

end BlackSiren

import BlackSiren.LFQueue.Order

/-! # `LFQueue`: the numbers of calls that nobody overtakes

    A push that draws its number and stalls can be overtaken by one a lap later, which
    goes for the same item of the array, and a pop by a pop.  Where nobody is a lap
    behind, every number is used by the push and the pop that drew it: its item of the
    array is theirs alone until both have done with it.

    - `Slots.Unlapped`: nobody is a lap behind
    - `Stage`, `Numbers`: what has become of each number
    - `Fits`: what this says of the calls, the counters and the cells
    - `draw_push`, `accept`, `fill`, `draw_pop`, `lower`, `take`: the actions
-/

namespace BlackSiren

namespace LFQueue

variable {Pid α : Type}

/-! ### Nobody a lap behind -/

/-- The number a call has drawn and not finished with. -/
def Phase.drawn : Phase α → Option Nat
  | .claiming _ n => some n
  | .storing _ n => some n
  | .awaiting n => some n
  | .taking n => some n
  | _ => none

/-- No more items wait than there are places, and no call holds a number that is a lap
    behind the last ones drawn. -/
def Slots.Unlapped (P : LFParams) (s : Slots Pid α) : Prop :=
  s.mem.push_ ≤ s.mem.pop_ + P.capacity ∧
    ∀ p, ∀ n ∈ (s.phase p).drawn,
      s.mem.push_ ≤ n + P.capacity ∧ s.mem.pop_ ≤ n + P.capacity

instance [Fintype Pid] (P : LFParams) (s : Slots Pid α) : Decidable (s.Unlapped P) :=
  inferInstanceAs (Decidable (_ ∧ _))

/-! ### What has become of each number -/

/-- The two sides that draw numbers. -/
inductive Half where
  | push
  | pop
  deriving DecidableEq

/-- The numbers drawn on a side. -/
def Memory.count (m : Memory α) : Half → Nat
  | .push => m.push_
  | .pop => m.pop_

/-- What has become of a number on one side; `counted` if the call that holds it has
    changed the counter of its item. -/
inductive Stage (Pid : Type) where
  | undrawn
  | held (p : Pid) (counted : Bool)
  | finished

def Stage.counted : Stage Pid → Bool
  | .undrawn => false
  | .held _ counted => counted
  | .finished => true

def Stage.isFinished : Stage Pid → Bool
  | .finished => true
  | _ => false

@[simp] theorem Stage.counted_held (p : Pid) (counted : Bool) :
    (Stage.held p counted).counted = counted := rfl

@[simp] theorem Stage.counted_finished : (Stage.finished : Stage Pid).counted = true := rfl

@[simp] theorem Stage.isFinished_held (p : Pid) (counted : Bool) :
    (Stage.held p counted).isFinished = false := rfl

@[simp] theorem Stage.isFinished_finished : (Stage.finished : Stage Pid).isFinished = true := rfl

/-- The number a call holds, with its side. -/
def Phase.place : Phase α → Option ((Half × Nat) × Bool)
  | .claiming _ n => some ((.push, n), false)
  | .storing _ n => some ((.push, n), true)
  | .awaiting n => some ((.pop, n), false)
  | .taking n => some ((.pop, n), true)
  | _ => none

theorem drawn_of_place {f : Phase α} {k : Half × Nat} {counted : Bool}
    (h : f.place = some (k, counted)) : k.2 ∈ f.drawn := by
  cases f with
  | claiming x n | storing x n | awaiting n | taking n =>
    cases h
    rfl
  | _ => cases h

theorem awaiting_of_place {f : Phase α} {n : Nat} (h : f.place = some ((.pop, n), false)) :
    f = .awaiting n := by
  cases f with
  | awaiting n' =>
    cases h
    rfl
  | _ => cases h

/-- What the queue itself does not know of its numbers. -/
structure Numbers (Pid α : Type) where
  /-- The items, in the order in which pushes have drawn numbers for them. -/
  items : List α
  stage : Half × Nat → Stage Pid
  /-- All numbers below are over. -/
  low : Nat

/-- The counter of the item of number `n`, if it is up to the two calls of this number. -/
def Numbers.val (L : Numbers Pid α) (n : Nat) : Int :=
  (L.stage (.push, n)).counted.toInt - (L.stage (.pop, n)).counted.toInt

/-- The cell of the item of number `n`, likewise. -/
def Numbers.cell (L : Numbers Pid α) (n : Nat) : Option α :=
  if (L.stage (.push, n)).isFinished = true ∧ (L.stage (.pop, n)).isFinished = false then
    L.items[n]?
  else none

/-- All that is drawn is less than a lap from `low`, so each item of the array has one
    number there, and its counter and cell are what the calls of that number have made
    them. -/
structure Fits (P : LFParams) (L : Numbers Pid α) (s : Slots Pid α) : Prop where
  length : L.items.length = s.mem.push_
  undrawn : ∀ k n, L.stage (k, n) = .undrawn ↔ s.mem.count k ≤ n
  held : ∀ p k counted, (s.phase p).place = some (k, counted) ↔ L.stage k = .held p counted
  item : ∀ p n counted, (s.phase p).place = some ((.push, n), counted) →
    L.items[n]? = (s.phase p).item
  counted : ∀ n, (L.stage (.pop, n)).counted = true → (L.stage (.push, n)).counted = true
  finished : ∀ n, (L.stage (.pop, n)).isFinished = true → (L.stage (.push, n)).isFinished = true
  past : ∀ n < L.low, (L.stage (.pop, n)).isFinished = true
  window : ∀ k, s.mem.count k ≤ L.low + P.capacity
  val : ∀ n, L.low ≤ n → n < L.low + P.capacity → s.mem.val (P.slot n) = L.val n
  cell : ∀ n, L.low ≤ n → n < L.low + P.capacity → s.mem.data (P.slot n) = L.cell n

@[simp] theorem phase_after_self [DecidableEq Pid] (s : Slots Pid α) (p : Pid) (m : Memory α)
    (f : Phase α) (ev : Option (Event α)) : (s.after p m f ev).phase p = f := by
  simp [Slots.after]

theorem phase_after_of_ne [DecidableEq Pid] {s : Slots Pid α} {p q : Pid} {m : Memory α}
    {f : Phase α} {ev : Option (Event α)} (h : q ≠ p) : (s.after p m f ev).phase q = s.phase q := by
  simp [Slots.after, h]

theorem Stage.counted_of_isFinished {a : Stage Pid} (h : a.isFinished = true) :
    a.counted = true := by
  cases a with
  | finished => rfl
  | _ => cases h

theorem Stage.eq_finished {a : Stage Pid} (h : a.isFinished = true) : a = .finished := by
  cases a with
  | finished => rfl
  | _ => cases h

namespace Fits

variable {P : LFParams} {L : Numbers Pid α} {s : Slots Pid α}

/-- A number that is not undrawn is below the last one drawn. -/
theorem lt_count (h : Fits P L s) {k : Half} {n : Nat} (hn : L.stage (k, n) ≠ .undrawn) :
    n < s.mem.count k := by
  rw [ne_eq, h.undrawn] at hn
  omega

/-- The number of a call is less than a lap from `low`. -/
theorem near (h : Fits P L s) {p : Pid} {k : Half} {n : Nat} {counted : Bool}
    (hplace : (s.phase p).place = some ((k, n), counted)) :
    L.low ≤ n ∧ n < L.low + P.capacity := by
  have hstage := (h.held p (k, n) counted).mp hplace
  have hlt := h.lt_count (k := k) (n := n) (by rw [hstage]; nofun)
  refine ⟨?_, lt_of_lt_of_le hlt (h.window k)⟩
  by_contra hlow
  have hpop := h.past n (by omega)
  have hpush := h.finished n hpop
  cases k with
  | push =>
    rw [hstage] at hpush
    cases hpush
  | pop =>
    rw [hstage] at hpop
    cases hpop

/-- The numbers that are over may be left behind. -/
theorem slide (h : Fits P L s) {low : Nat} (hlow : L.low ≤ low)
    (hpast : ∀ n < low, (L.stage (.pop, n)).isFinished = true) :
    Fits P { L with low := low } s := by
  -- the number a lap before one that is new here is over, and the new one is undrawn
  have hnew : ∀ n, low ≤ n → n < low + P.capacity → ¬ n < L.low + P.capacity →
      s.mem.val (P.slot n) = L.val n ∧ s.mem.data (P.slot n) = L.cell n := by
    intro n hge hlt hout
    obtain ⟨m, rfl⟩ : ∃ m, n = m + P.capacity := ⟨n - P.capacity, by omega⟩
    have hover := hpast m (by omega)
    have hover' := h.finished m hover
    have hm : m < L.low + P.capacity := by
      have hdrawn := h.lt_count (k := .pop) (n := m) (by rw [Stage.eq_finished hover]; nofun)
      exact lt_of_lt_of_le hdrawn (h.window .pop)
    have hslot : P.slot (m + P.capacity) = P.slot m := by
      rw [P.slot_eq, P.slot_eq, Nat.add_mod_right]
    have hundrawn : ∀ k, L.stage (k, m + P.capacity) = .undrawn := by
      intro k
      rw [h.undrawn]
      exact (h.window k).trans (by omega)
    rw [hslot, h.val m (by omega) hm, h.cell m (by omega) hm]
    unfold Numbers.val Numbers.cell
    rw [hundrawn, hundrawn, Stage.eq_finished hover, Stage.eq_finished hover']
    exact ⟨rfl, rfl⟩
  refine { h with past := hpast, window := ?window, val := ?val, cell := ?cell }
  case window =>
    intro k
    exact (h.window k).trans (Nat.add_le_add_right hlow _)
  case val =>
    intro n hge hlt
    by_cases hin : n < L.low + P.capacity
    · exact h.val n (hlow.trans hge) hin
    · exact (hnew n hge hlt hin).1
  case cell =>
    intro n hge hlt
    by_cases hin : n < L.low + P.capacity
    · exact h.cell n (hlow.trans hge) hin
    · exact (hnew n hge hlt hin).2

variable [DecidableEq Pid]

/-- What the calls hold, when `p` has gone on to `f` and the number it holds to `a`. -/
theorem held_after (h : Fits P L s) {p : Pid} {k : Half × Nat} {a : Stage Pid} {f : Phase α}
    (hfree : ∀ q counted, L.stage k = .held q counted → q = p)
    (hbefore : ∀ k' counted, (s.phase p).place = some (k', counted) → k' = k)
    (hmine : ∀ q counted, a = .held q counted → q = p)
    (hafter : ∀ k' counted, f.place = some (k', counted) ↔ k' = k ∧ a = .held p counted)
    (q : Pid) (k' : Half × Nat) (counted : Bool) :
    (Function.update s.phase p f q).place = some (k', counted) ↔
      Function.update L.stage k a k' = .held q counted := by
  by_cases hq : q = p
  · subst hq
    rw [Function.update_self, hafter]
    by_cases hk : k' = k
    · subst hk
      rw [Function.update_self]
      exact and_iff_right rfl
    · rw [Function.update_of_ne hk, ← h.held]
      exact ⟨fun hf => absurd hf.1 hk, fun hf => absurd (hbefore k' counted hf) hk⟩
  · rw [Function.update_of_ne hq]
    by_cases hk : k' = k
    · subst hk
      rw [Function.update_self, h.held]
      exact ⟨fun hf => absurd (hfree q counted hf) hq, fun hf => absurd (hmine q counted hf) hq⟩
    · rw [Function.update_of_ne hk, h.held]

/-- An action that has nothing to do with numbers. -/
theorem rest (h : Fits P L s) {p : Pid} {f : Phase α} {ev : Option (Event α)}
    (hbefore : (s.phase p).place = none) (hafter : f.place = none) :
    Fits P L (s.after p s.mem f ev) := by
  have hplace : ∀ q, (Function.update s.phase p f q).place = (s.phase q).place := by
    intro q
    by_cases hq : q = p
    · rw [hq, Function.update_self, hbefore, hafter]
    · rw [Function.update_of_ne hq]
  refine { h with held := ?held, item := ?item }
  case held =>
    intro q k counted
    rw [← h.held q k counted]
    exact Eq.congr_left (hplace q)
  case item =>
    intro q n counted hq
    have hne : q ≠ p := by
      rintro rfl
      rw [phase_after_self, hafter] at hq
      cases hq
    rw [phase_after_of_ne hne] at hq ⊢
    exact h.item q n counted hq

/-- A number is drawn. -/
theorem draw (h : Fits P L s) {p : Pid} {k : Half} {m : Memory α} {f : Phase α}
    {ev : Option (Event α)} {tail : List α} (hbefore : (s.phase p).place = none)
    (hroom : s.mem.count k < L.low + P.capacity)
    (hafter : f.place = some ((k, s.mem.count k), false))
    (hcount : ∀ k', m.count k' = if k' = k then s.mem.count k + 1 else s.mem.count k')
    (hval : m.val = s.mem.val) (hdata : m.data = s.mem.data)
    (hlength : (L.items ++ tail).length = m.push_)
    (hitem : k = .push → (L.items ++ tail)[s.mem.count k]? = f.item) :
    Fits P ⟨L.items ++ tail,
      Function.update L.stage (k, s.mem.count k) (.held p false), L.low⟩ (s.after p m f ev) := by
  have hundrawn : L.stage (k, s.mem.count k) = .undrawn := (h.undrawn _ _).mpr le_rfl
  -- nothing has been counted or is over that was not before
  have hsame : ∀ g : Stage Pid → Bool, g (.held p false) = g .undrawn → ∀ k',
      g (Function.update L.stage (k, s.mem.count k) (.held p false) k') = g (L.stage k') := by
    intro g hg k'
    by_cases hk : k' = (k, s.mem.count k)
    · rw [hk, Function.update_self, hundrawn, hg]
    · rw [Function.update_of_ne hk]
  have hcounted := hsame Stage.counted rfl
  have hover := hsame Stage.isFinished rfl
  have hold : ∀ n, L.stage (.push, n) ≠ .undrawn → (L.items ++ tail)[n]? = L.items[n]? := by
    intro n hn
    have hlt : n < s.mem.push_ := h.lt_count hn
    exact List.getElem?_append_left (by rw [h.length]; exact hlt)
  constructor
  case length => exact hlength
  case undrawn =>
    intro k' n
    show Function.update L.stage _ _ (k', n) = .undrawn ↔ m.count k' ≤ n
    rw [hcount]
    by_cases hk : k' = k
    · subst hk
      rw [if_pos rfl]
      by_cases hn : n = s.mem.count k'
      · subst hn
        rw [Function.update_self]
        exact ⟨nofun, fun hle => absurd hle (by omega)⟩
      · rw [Function.update_of_ne (fun heq => hn (Prod.mk.inj heq).2), h.undrawn]
        omega
    · rw [if_neg hk, Function.update_of_ne (fun heq => hk (Prod.mk.inj heq).1), h.undrawn]
  case held =>
    refine h.held_after ?_ ?_ ?_ ?_
    · intro q counted hq
      rw [hundrawn] at hq
      cases hq
    · intro k' counted hk
      rw [hbefore] at hk
      cases hk
    · intro q counted hq
      cases hq
      rfl
    · intro k' counted
      rw [hafter]
      constructor
      · intro heq
        cases heq
        exact ⟨rfl, rfl⟩
      · rintro ⟨rfl, heq⟩
        cases heq
        rfl
  case item =>
    intro q n counted hq
    by_cases hqp : q = p
    · subst hqp
      rw [phase_after_self] at hq ⊢
      rw [hafter] at hq
      cases hq
      exact hitem rfl
    · rw [phase_after_of_ne hqp] at hq ⊢
      rw [← h.item q n counted hq]
      exact hold n (by rw [(h.held q _ counted).mp hq]; nofun)
  case counted =>
    intro n
    rw [hcounted, hcounted]
    exact h.counted n
  case finished =>
    intro n
    rw [hover, hover]
    exact h.finished n
  case past =>
    intro n hn
    rw [hover]
    exact h.past n hn
  case window =>
    intro k'
    show m.count k' ≤ L.low + P.capacity
    rw [hcount]
    split
    · exact hroom
    · exact h.window k'
  case val =>
    intro n hge hlt
    show m.val (P.slot n) = _
    rw [hval, h.val n hge hlt]
    unfold Numbers.val
    rw [hcounted, hcounted]
  case cell =>
    intro n hge hlt
    show m.data (P.slot n) = _
    rw [hdata, h.cell n hge hlt]
    unfold Numbers.cell
    rw [hover, hover]
    by_cases hpush : (L.stage (.push, n)).isFinished = true
    · rw [hold n (by rw [Stage.eq_finished hpush]; nofun)]
    · rw [if_neg (fun hboth => hpush hboth.1), if_neg (fun hboth => hpush hboth.1)]

/-- The call that holds a number changes the counter or the cell of its item. -/
theorem move (h : Fits P L s) {p : Pid} {k : Half} {n : Nat} {counted : Bool} {a : Stage Pid}
    {m : Memory α} {f : Phase α} {ev : Option (Event α)} {v : Int} {d : Option α}
    (hbefore : (s.phase p).place = some ((k, n), counted)) (ha : a ≠ .undrawn)
    (hafter : ∀ k' c, f.place = some (k', c) ↔ k' = (k, n) ∧ a = .held p c)
    (hmine : ∀ q c, a = .held q c → q = p) (hitem : f.place = none ∨ f.item = (s.phase p).item)
    (hcount : m.count = s.mem.count) (hval : m.val = Function.update s.mem.val (P.slot n) v)
    (hdata : m.data = Function.update s.mem.data (P.slot n) d)
    (hv : v = Numbers.val { L with stage := Function.update L.stage (k, n) a } n)
    (hd : d = Numbers.cell { L with stage := Function.update L.stage (k, n) a } n)
    (hcounted : (Function.update L.stage (k, n) a (.pop, n)).counted = true →
      (Function.update L.stage (k, n) a (.push, n)).counted = true)
    (hover : (Function.update L.stage (k, n) a (.pop, n)).isFinished = true →
      (Function.update L.stage (k, n) a (.push, n)).isFinished = true) :
    Fits P { L with stage := Function.update L.stage (k, n) a } (s.after p m f ev) := by
  obtain ⟨hlow, hhigh⟩ := h.near hbefore
  have hstage := (h.held p (k, n) counted).mp hbefore
  have hother : ∀ k' n', n' ≠ n → Function.update L.stage (k, n) a (k', n') = L.stage (k', n') :=
    fun k' n' hn => Function.update_of_ne (fun heq => hn (Prod.mk.inj heq).2) _ _
  have hslot : ∀ n', L.low ≤ n' → n' < L.low + P.capacity → n' ≠ n → P.slot n' ≠ P.slot n := by
    intro n' hlow' hhigh' hne heq
    rcases Nat.le_total n' n with hle | hle
    · exact hne (P.slot_inj hle (by omega) heq)
    · exact hne (P.slot_inj hle (by omega) heq.symm).symm
  constructor
  case length =>
    exact h.length.trans (congrFun hcount .push).symm
  case undrawn =>
    intro k' n'
    show Function.update L.stage _ _ (k', n') = .undrawn ↔ m.count k' ≤ n'
    rw [hcount, ← h.undrawn]
    by_cases hk : (k', n') = (k, n)
    · rw [hk, Function.update_self, hstage]
      exact ⟨fun heq => absurd heq ha, nofun⟩
    · rw [Function.update_of_ne hk]
  case held =>
    refine h.held_after ?_ ?_ hmine hafter
    · intro q c hq
      rw [hstage] at hq
      cases hq
      rfl
    · intro k' c hk
      rw [hbefore] at hk
      cases hk
      rfl
  case item =>
    intro q n' c hq
    by_cases hqp : q = p
    · subst hqp
      rw [phase_after_self] at hq ⊢
      obtain ⟨hk, -⟩ := (hafter _ c).mp hq
      cases hk
      rcases hitem with hnone | hitem
      · rw [hnone] at hq
        cases hq
      · rw [hitem]
        exact h.item q _ counted hbefore
    · rw [phase_after_of_ne hqp] at hq ⊢
      exact h.item q n' c hq
  case counted =>
    intro n'
    by_cases hn : n' = n
    · subst hn
      exact hcounted
    · show (Function.update L.stage _ _ _).counted = true →
        (Function.update L.stage _ _ _).counted = true
      rw [hother _ _ hn, hother _ _ hn]
      exact h.counted n'
  case finished =>
    intro n'
    by_cases hn : n' = n
    · subst hn
      exact hover
    · show (Function.update L.stage _ _ _).isFinished = true →
        (Function.update L.stage _ _ _).isFinished = true
      rw [hother _ _ hn, hother _ _ hn]
      exact h.finished n'
  case past =>
    intro n' hn
    show (Function.update L.stage _ _ _).isFinished = true
    rw [hother _ _ (ne_of_lt (lt_of_lt_of_le hn hlow))]
    exact h.past n' hn
  case window =>
    intro k'
    show m.count k' ≤ _
    rw [hcount]
    exact h.window k'
  case val =>
    intro n' hge hlt
    show m.val (P.slot n') = _
    rw [hval]
    by_cases hn : n' = n
    · rw [hn, Function.update_self, hv]
    · rw [Function.update_of_ne (hslot n' hge hlt hn), h.val n' hge hlt]
      simp only [Numbers.val, hother _ _ hn]
  case cell =>
    intro n' hge hlt
    show m.data (P.slot n') = _
    rw [hdata]
    by_cases hn : n' = n
    · rw [hn, Function.update_self, hd]
    · rw [Function.update_of_ne (hslot n' hge hlt hn), h.cell n' hge hlt]
      simp only [Numbers.cell, hother _ _ hn]

omit [DecidableEq Pid] in
/-- The counter is 0 until the push of its number has raised it. -/
theorem claiming (h : Fits P L s) {p : Pid} {x : α} {n : Nat}
    (hp : s.phase p = .claiming x n) :
    (L.stage (.pop, n)).counted = false ∧ s.mem.val (P.slot n) = 0 := by
  have hplace : (s.phase p).place = some ((.push, n), false) := by rw [hp]; rfl
  have hstage := (h.held p _ _).mp hplace
  have hpop : (L.stage (.pop, n)).counted = false := by
    by_contra hne
    have := h.counted n (by simpa using hne)
    rw [hstage] at this
    cases this
  obtain ⟨hlow, hhigh⟩ := h.near hplace
  refine ⟨hpop, ?_⟩
  rw [h.val n hlow hhigh, Numbers.val, hstage, hpop]
  rfl

/-- The counter goes up for an item. -/
theorem accept (h : Fits P L s) {p : Pid} {x : α} {n : Nat} {ev : Option (Event α)}
    (hp : s.phase p = .claiming x n) : Fits P
      { L with stage := Function.update L.stage (.push, n) (.held p true) }
      (s.after p { s.mem with val := Function.update s.mem.val (P.slot n) 1 } (.storing x n)
        ev) := by
  have hplace : (s.phase p).place = some ((.push, n), false) := by rw [hp]; rfl
  have hstage := (h.held p _ _).mp hplace
  obtain ⟨hpop, -⟩ := h.claiming hp
  obtain ⟨hlow, hhigh⟩ := h.near hplace
  refine h.move hplace nofun ?_ ?_ (.inr (by rw [hp]; rfl)) rfl rfl
    (Function.update_eq_self _ _).symm ?_ ?_ ?_ ?_
  · intro k' c
    simp [Phase.place, eq_comm]
  · intro q c heq
    cases heq
    rfl
  · simp [Numbers.val, hpop]
  · rw [h.cell n hlow hhigh]
    simp [Numbers.cell, hstage]
  · simp
  · have hover := h.finished n
    rw [hstage] at hover
    simpa using hover

/-- The cell takes an item. -/
theorem fill (h : Fits P L s) {p : Pid} {x : α} {n : Nat} {ev : Option (Event α)}
    (hp : s.phase p = .storing x n) : Fits P
      { L with stage := Function.update L.stage (.push, n) .finished }
      (s.after p { s.mem with data := Function.update s.mem.data (P.slot n) (some x) }
        (.stored x) ev) := by
  have hplace : (s.phase p).place = some ((.push, n), true) := by rw [hp]; rfl
  have hstage := (h.held p _ _).mp hplace
  have hitem := h.item p n true hplace
  rw [hp] at hitem
  have hpop : (L.stage (.pop, n)).isFinished = false := by
    by_contra hne
    have := h.finished n (by simpa using hne)
    rw [hstage] at this
    cases this
  obtain ⟨hlow, hhigh⟩ := h.near hplace
  refine h.move hplace nofun ?_ nofun (.inl rfl) rfl (Function.update_eq_self _ _).symm rfl
    ?_ ?_ ?_ ?_
  · intro k' c
    simp [Phase.place]
  · rw [h.val n hlow hhigh]
    simp [Numbers.val, hstage]
  · simp [Numbers.cell, hpop, hitem, Phase.item]
  · simp
  · simp

omit [DecidableEq Pid] in
/-- A counter above 0 is 1, and the push with the number of the pop has raised it. -/
theorem awaiting (h : Fits P L s) {p : Pid} {n : Nat} (hp : s.phase p = .awaiting n)
    (hpos : 0 < s.mem.val (P.slot n)) :
    (L.stage (.push, n)).counted = true ∧ s.mem.val (P.slot n) = 1 := by
  have hplace : (s.phase p).place = some ((.pop, n), false) := by rw [hp]; rfl
  have hstage := (h.held p _ _).mp hplace
  obtain ⟨hlow, hhigh⟩ := h.near hplace
  have hval := h.val n hlow hhigh
  have hpush : (L.stage (.push, n)).counted = true := by
    by_contra hne
    rw [hval] at hpos
    simp [Numbers.val, hstage, hne] at hpos
  refine ⟨hpush, ?_⟩
  rw [hval]
  simp [Numbers.val, hstage, hpush]

/-- The counter goes down. -/
theorem lower (h : Fits P L s) {p : Pid} {n : Nat} {ev : Option (Event α)}
    (hp : s.phase p = .awaiting n) (hpos : 0 < s.mem.val (P.slot n)) : Fits P
      { L with stage := Function.update L.stage (.pop, n) (.held p true) }
      (s.after p
        { s.mem with val := Function.update s.mem.val (P.slot n) (s.mem.val (P.slot n) - 1) }
        (.taking n) ev) := by
  have hplace : (s.phase p).place = some ((.pop, n), false) := by rw [hp]; rfl
  have hstage := (h.held p _ _).mp hplace
  obtain ⟨hpush, hone⟩ := h.awaiting hp hpos
  obtain ⟨hlow, hhigh⟩ := h.near hplace
  refine h.move hplace nofun ?_ ?_ (.inr (by rw [hp]; rfl)) rfl rfl
    (Function.update_eq_self _ _).symm ?_ ?_ ?_ ?_
  · intro k' c
    simp [Phase.place, eq_comm]
  · intro q c heq
    cases heq
    rfl
  · rw [hone]
    simp [Numbers.val, hpush]
  · rw [h.cell n hlow hhigh]
    simp [Numbers.cell, hstage]
  · simp [hpush]
  · simp

omit [DecidableEq Pid] in
/-- A pop finds the item of the push with its number. -/
theorem taking (h : Fits P L s) {p : Pid} {n : Nat} {x : α} (hp : s.phase p = .taking n)
    (hsome : s.mem.data (P.slot n) = some x) :
    (L.stage (.push, n)).isFinished = true ∧ L.items[n]? = some x := by
  obtain ⟨hlow, hhigh⟩ := h.near (p := p) (k := .pop) (by rw [hp]; rfl)
  rw [h.cell n hlow hhigh, Numbers.cell, ite_eq_iff] at hsome
  obtain ⟨⟨hpush, -⟩, hitem⟩ | ⟨-, habs⟩ := hsome
  · exact ⟨hpush, hitem⟩
  · cases habs

/-- The cell gives its item. -/
theorem take (h : Fits P L s) {p : Pid} {n : Nat} {x : α} {ev : Option (Event α)}
    (hp : s.phase p = .taking n) (hsome : s.mem.data (P.slot n) = some x) :
    Fits P { L with stage := Function.update L.stage (.pop, n) .finished }
      (s.after p { s.mem with data := Function.update s.mem.data (P.slot n) none }
        (.leaving (some x) 0) ev) := by
  have hplace : (s.phase p).place = some ((.pop, n), true) := by rw [hp]; rfl
  have hstage := (h.held p _ _).mp hplace
  obtain ⟨hpush, -⟩ := h.taking hp hsome
  obtain ⟨hlow, hhigh⟩ := h.near hplace
  refine h.move hplace nofun ?_ nofun (.inl rfl) rfl (Function.update_eq_self _ _).symm rfl
    ?_ ?_ ?_ ?_
  · intro k' c
    simp [Phase.place]
  · rw [h.val n hlow hhigh]
    simp [Numbers.val, hstage]
  · simp [Numbers.cell]
  · simp [Stage.counted_of_isFinished hpush]
  · simp [hpush]

/-- Before a number is drawn `low` can be moved, so that it is less than a lap away. -/
theorem make_room (h : Fits P L s) {p : Pid} {k : Half} {m : Memory α} {f : Phase α}
    {ev : Option (Event α)} (hbefore : (s.phase p).place = none)
    (hun : (s.after p m f ev).Unlapped P)
    (hcount : ∀ k', m.count k' = if k' = k then s.mem.count k + 1 else s.mem.count k') :
    ∃ low, Fits P { L with low := low } s ∧ s.mem.count k < low + P.capacity := by
  have hpos := P.capacity_pos
  have hmk : m.count k = s.mem.count k + 1 := by rw [hcount, if_pos rfl]
  refine ⟨max L.low (s.mem.count k + 1 - P.capacity), h.slide (le_max_left _ _) ?_, by omega⟩
  intro n hn
  by_cases hlow : n < L.low
  · exact h.past n hlow
  have hlap : n + P.capacity < m.count k := by omega
  -- it is drawn, and no call is that far behind
  have hdrawn : n < s.mem.pop_ := by
    cases k with
    | push =>
      have hpop : m.pop_ = s.mem.pop_ := hcount .pop
      have hlap' : n + P.capacity < m.push_ := hlap
      have hun' : m.push_ ≤ m.pop_ + P.capacity := hun.1
      omega
    | pop =>
      have hlap' : n + P.capacity < s.mem.pop_ + 1 := hmk ▸ hlap
      omega
  cases hstage : L.stage (.pop, n) with
  | undrawn =>
    have hle : s.mem.pop_ ≤ n := (h.undrawn .pop n).mp hstage
    omega
  | held q counted =>
    have hplace := (h.held q _ _).mpr hstage
    have hne : q ≠ p := by
      rintro rfl
      rw [hbefore] at hplace
      cases hplace
    have hphase : (s.after p m f ev).phase q = s.phase q := Function.update_of_ne hne _ _
    obtain ⟨hpush, hpop⟩ := hun.2 q n (hphase ▸ drawn_of_place hplace)
    have hpush' : m.push_ ≤ n + P.capacity := hpush
    have hpop' : m.pop_ ≤ n + P.capacity := hpop
    cases k with
    | push => exact absurd hlap (not_lt.mpr hpush')
    | pop => exact absurd hlap (not_lt.mpr hpop')
  | finished => rfl

/-- A push draws a number. -/
theorem draw_push (h : Fits P L s) {p : Pid} {x : α} {ev : Option (Event α)}
    (hp : s.phase p = .asking x)
    (hun : (s.after p { s.mem with push_ := s.mem.push_ + 1 } (.claiming x s.mem.push_) ev).Unlapped
      P) : ∃ low, Fits P ⟨L.items ++ [x],
        Function.update L.stage (.push, s.mem.push_) (.held p false), low⟩
      (s.after p { s.mem with push_ := s.mem.push_ + 1 } (.claiming x s.mem.push_) ev) := by
  have hplace : (s.phase p).place = none := by rw [hp]; rfl
  have hcount : ∀ k', Memory.count { s.mem with push_ := s.mem.push_ + 1 } k' =
      if k' = .push then s.mem.count .push + 1 else s.mem.count k' := by
    intro k'
    cases k' <;> rfl
  obtain ⟨low, hroom, hlt⟩ := h.make_room hplace hun hcount
  refine ⟨low, hroom.draw hplace hlt rfl hcount rfl rfl ?_ fun _ => ?_⟩
  · rw [List.length_append, h.length]
    rfl
  · show (L.items ++ [x])[s.mem.push_]? = some x
    rw [← h.length, List.getElem?_concat_length]

/-- A pop draws a number. -/
theorem draw_pop (h : Fits P L s) {p : Pid} {ev : Option (Event α)} (hp : s.phase p = .wanting)
    (hun : (s.after p { s.mem with pop_ := s.mem.pop_ + 1 } (.awaiting s.mem.pop_) ev).Unlapped P) :
    ∃ low, Fits P ⟨L.items, Function.update L.stage (.pop, s.mem.pop_) (.held p false), low⟩
      (s.after p { s.mem with pop_ := s.mem.pop_ + 1 } (.awaiting s.mem.pop_) ev) := by
  have hplace : (s.phase p).place = none := by rw [hp]; rfl
  have hcount : ∀ k', Memory.count { s.mem with pop_ := s.mem.pop_ + 1 } k' =
      if k' = .pop then s.mem.count .pop + 1 else s.mem.count k' := by
    intro k'
    cases k' <;> rfl
  obtain ⟨low, hroom, hlt⟩ := h.make_room hplace hun hcount
  refine ⟨low, ?_⟩
  rw [← List.append_nil L.items]
  exact hroom.draw hplace hlt rfl hcount rfl rfl ((List.append_nil L.items).symm ▸ h.length) nofun

end Fits

end LFQueue

end BlackSiren

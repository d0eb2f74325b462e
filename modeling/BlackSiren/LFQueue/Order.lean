import BlackSiren.Framework.Lanes
import BlackSiren.LFQueue.Conservation

/-! # `LFQueue`: the order in which one consumer gets the items

    The number a push draws only says which item of the array it goes for.  Its
    turn there is the turn in which it fills the cell, so the `k`-th filling of
    item `i` is delivered as number `i + k * capacity`, and a push that draws a
    number, stalls, and is overtaken by a push a lap later changes places with
    it.

    - `fills_lane`: what has gone into a cell has come out or is there
    - `InTurn`: the numbers of a thread that is alone on its side
    - `OneAtATime`: the consumer's numbers, without overflow
    - `fills_of_called`: a producer's items go into cells in the order of its
      calls
    - `delivered_in_order`: they come out in this order if the places of the
      cells they go into go up
-/

namespace BlackSiren

namespace LFQueue

variable {Pid α : Type}

/-! ### What a run is allowed to do -/

namespace Trace

/-- Only `c` pops. -/
def SingleConsumer (c : Pid) (tr : List (Pid × Event α)) : Prop :=
  ∀ e ∈ tr, e.2 = Event.wanted → e.1 = c

/-- Every push is of an item that belongs to its thread. -/
def OwnItems (owner : α → Pid) (tr : List (Pid × Event α)) : Prop :=
  ∀ e ∈ calls tr, owner e.2 = e.1

/-- Each thread fills places in ascending order. -/
def FillsAscend [DecidableEq Pid] (P : LFParams) (owner : α → Pid)
    (tr : List (Pid × Event α)) : Prop :=
  ∀ p, ((Lanes.places P.capacity (fills tr)).filter (owner ·.2 = p)).Pairwise
    fun a b => a.1 < b.1

theorem SingleConsumer.of_append {c : Pid} {tr tr' : List (Pid × Event α)}
    (h : SingleConsumer c (tr ++ tr')) : SingleConsumer c tr ∧ SingleConsumer c tr' :=
  ⟨fun e he => h e (List.mem_append_left _ he), fun e he => h e (List.mem_append_right _ he)⟩

theorem OwnItems.of_append {owner : α → Pid} {tr tr' : List (Pid × Event α)}
    (h : OwnItems owner (tr ++ tr')) : OwnItems owner tr ∧ OwnItems owner tr' := by
  unfold OwnItems at h
  rw [calls_append] at h
  exact ⟨fun e he => h e (List.mem_append_left _ he), fun e he => h e (List.mem_append_right _ he)⟩

theorem OwnItems.of_called {owner : α → Pid} {p : Pid} {ev : Option (Event α)}
    (h : OwnItems owner (ev.map (p, ·)).toList) {x : α}
    (hx : x ∈ called (ev.map (p, ·)).toList) : owner x = p := by
  obtain ⟨⟨q, y⟩, hy, rfl⟩ := List.mem_map.mp hx
  rw [h _ hy]
  cases ev with
  | none => cases hy
  | some ev =>
    cases ev with
    | called z =>
      obtain ⟨rfl, rfl⟩ := Prod.mk.inj (List.mem_singleton.mp hy)
      rfl
    | _ => cases hy

end Trace

/-! ### Cells -/

/-- An action on the cell of item `i` is the last filling or the next taking. -/
theorem Act.lane {P : LFParams} {m m' : Memory α} {f f' : Phase α} {ev : Option (Event α)}
    (h : Act P m f m' f' ev) (p : Pid) (i : Nat) :
    ((m.data i).map (i, ·)).toList ++
        (Trace.fills (ev.map (p, ·)).toList).filter (fun e => e.1 = i) =
      (Trace.takes (ev.map (p, ·)).toList).filter (fun e => e.1 = i) ++
        ((m'.data i).map (i, ·)).toList := by
  cases h with
  | fill x n hnone =>
    by_cases hi : P.slot n = i
    · subst hi
      simp [Trace.fills, Trace.takes, hnone]
    · simp [Trace.fills, Trace.takes, hi, Function.update_of_ne (Ne.symm hi)]
  | take n x hsome =>
    by_cases hi : P.slot n = i
    · subst hi
      simp [Trace.fills, Trace.takes, hsome]
    · simp [Trace.fills, Trace.takes, hi, Function.update_of_ne (Ne.symm hi)]
  | _ => simp [Trace.fills, Trace.takes]

/-- Fillings and takings are of items of the array. -/
theorem Act.lanes_lt {P : LFParams} {m m' : Memory α} {f f' : Phase α} {ev : Option (Event α)}
    (h : Act P m f m' f' ev) (p : Pid) :
    (∀ e ∈ Trace.fills (ev.map (p, ·)).toList, e.1 < P.capacity) ∧
      ∀ e ∈ Trace.takes (ev.map (p, ·)).toList, e.1 < P.capacity := by
  cases h with
  | fill x n hnone => simp [Trace.fills, Trace.takes, P.slot_lt n]
  | take n x hsome => simp [Trace.fills, Trace.takes, P.slot_lt n]
  | _ => simp [Trace.fills, Trace.takes]

namespace Slots

variable [DecidableEq Pid] {P : LFParams}

/-- What has gone into a cell has come out, but for what is there. -/
theorem fills_lane {s : Slots Pid α} (h : LTS.Reachable (system Pid α P) s) (i : Nat) :
    (Trace.fills s.trace).filter (fun e => e.1 = i) =
      (Trace.takes s.trace).filter (fun e => e.1 = i) ++ ((s.mem.data i).map (i, ·)).toList := by
  refine invariant_of_acts (fun s : Slots Pid α =>
    (Trace.fills s.trace).filter (fun e => e.1 = i) =
      (Trace.takes s.trace).filter (fun e => e.1 = i) ++
        ((s.mem.data i).map (i, ·)).toList) rfl ?_ h
  intro s p m f ev _ hs hact
  show (Trace.fills (s.trace ++ _)).filter (fun e => e.1 = i) =
    (Trace.takes (s.trace ++ _)).filter (fun e => e.1 = i) ++ ((m.data i).map (i, ·)).toList
  rw [Trace.fills_append, Trace.takes_append, List.filter_append, List.filter_append, hs,
    List.append_assoc, List.append_assoc, hact.lane p i]

theorem lanes_lt {s : Slots Pid α} (h : LTS.Reachable (system Pid α P) s) :
    (∀ e ∈ Trace.fills s.trace, e.1 < P.capacity) ∧
      ∀ e ∈ Trace.takes s.trace, e.1 < P.capacity := by
  refine invariant_of_acts (fun s : Slots Pid α =>
    (∀ e ∈ Trace.fills s.trace, e.1 < P.capacity) ∧
      ∀ e ∈ Trace.takes s.trace, e.1 < P.capacity) ?_ ?_ h
  · exact ⟨fun e he => absurd he List.not_mem_nil, fun e he => absurd he List.not_mem_nil⟩
  · intro s p m f ev _ hs hact
    obtain ⟨hfills, htakes⟩ := hact.lanes_lt p
    refine ⟨fun e he => ?_, fun e he => ?_⟩
    · rcases List.mem_append.mp ((Trace.fills_append _ _) ▸ he) with he | he
      · exact hs.1 e he
      · exact hfills e he
    · rcases List.mem_append.mp ((Trace.takes_append _ _) ▸ he) with he | he
      · exact hs.2 e he
      · exact htakes e he

end Slots

/-! ### Numbers in turn

    A thread that draws all numbers of one kind uses them one after the other. -/

/-- Of the numbers that `counter` counts, `c` has used as many as `log` has
    entries; it has at most one more in hand, its `ticket`. -/
structure InTurn (P : LFParams) (c : Pid) (ticket : Phase α → Option Nat)
    (counter : Memory α → Nat) (log : List (Pid × Event α) → List (Nat × α))
    (s : Slots Pid α) : Prop where
  in_turn : (log s.trace).map Prod.fst = (List.range (log s.trace).length).map P.slot
  next : ticket (s.phase c) = none → counter s.mem = (log s.trace).length
  current : ∀ n, ticket (s.phase c) = some n →
    n = (log s.trace).length ∧ counter s.mem = (log s.trace).length + 1

/-- The three things an action does about such numbers: nothing, draw the next
    one, use the one in hand. -/
inductive TicketCases (P : LFParams) (isMover : Prop) (before after : Option Nat)
    (count count' : Nat) (used : List (Nat × α)) : Prop where
  | keep (hticket : after = before) (hcount : count' = count) (hused : used = [])
  | draw (hmover : isMover) (hbefore : before = none) (hafter : after = some count)
      (hcount : count' = count + 1) (hused : used = [])
  | use (hmover : isMover) (n : Nat) (x : α) (hbefore : before = some n) (hafter : after = none)
      (hcount : count' = count) (hused : used = [(P.slot n, x)])

theorem InTurn.after [DecidableEq Pid] {P : LFParams} {c : Pid} {ticket : Phase α → Option Nat}
    {counter : Memory α → Nat} {log : List (Pid × Event α) → List (Nat × α)} {s : Slots Pid α}
    (hs : InTurn P c ticket counter log s)
    (hlog : ∀ tr tr', log (tr ++ tr') = log tr ++ log tr') {p : Pid} {m : Memory α} {f : Phase α}
    {ev : Option (Event α)}
    (h : TicketCases P (p = c) (ticket (s.phase p)) (ticket f) (counter s.mem) (counter m)
      (log (ev.map (p, ·)).toList)) :
    InTurn P c ticket counter log (s.after p m f ev) := by
  have htrace : log (s.after p m f ev).trace = log s.trace ++ log (ev.map (p, ·)).toList :=
    hlog _ _
  cases h with
  | keep hticket hcount hused =>
    have hlen : log (s.after p m f ev).trace = log s.trace := by
      rw [htrace, hused, List.append_nil]
    have hsame : ticket (Function.update s.phase p f c) = ticket (s.phase c) := by
      by_cases hcp : c = p
      · rw [hcp, Function.update_self, hticket]
      · rw [Function.update_of_ne hcp]
    refine ⟨?_, ?_, ?_⟩
    · rw [hlen]
      exact hs.in_turn
    · intro hnone
      rw [hlen]
      exact hcount.trans (hs.next (hsame ▸ hnone))
    · intro n hn
      rw [hlen]
      obtain ⟨hturn, hnow⟩ := hs.current n (hsame ▸ hn)
      exact ⟨hturn, hcount.trans hnow⟩
  -- the next number is drawn
  | draw hmover hbefore hafter hcount hused =>
    subst hmover
    have hlen : log (s.after p m f ev).trace = log s.trace := by
      rw [htrace, hused, List.append_nil]
    have hself : (s.after p m f ev).phase p = f := Function.update_self _ _ _
    have hnext := hs.next hbefore
    refine ⟨?_, ?_, ?_⟩
    · rw [hlen]
      exact hs.in_turn
    · rw [hself, hafter]
      intro habs
      cases habs
    · rw [hself, hafter, hlen]
      intro n hn
      cases hn
      exact ⟨hnext, hcount.trans (by rw [hnext])⟩
  -- the number is used: one more access in the log, of its slot
  | use hmover n x hbefore hafter hcount hused =>
    subst hmover
    have hlen : log (s.after p m f ev).trace = log s.trace ++ [(P.slot n, x)] := by
      rw [htrace, hused]
    have hself : (s.after p m f ev).phase p = f := Function.update_self _ _ _
    obtain ⟨hturn, hnow⟩ := hs.current n hbefore
    refine ⟨?_, ?_, ?_⟩
    · rw [hlen, List.map_append, hs.in_turn, List.length_append, List.length_singleton,
        List.range_succ, List.map_append, hturn]
      rfl
    · intro _
      rw [hlen, List.length_append, List.length_singleton]
      exact hcount.trans hnow
    · rw [hself, hafter]
      intro n hn
      cases hn

/-! ### The consumer -/

namespace Phase

/-- The number of a pop that has drawn one and not yet taken its item. -/
def ticket : Phase α → Option Nat
  | .awaiting n => some n
  | .taking n => some n
  | _ => none

/-- A pop that has not taken its item. -/
def popping : Phase α → Bool
  | .wanting => true
  | .awaiting _ => true
  | .taking _ => true
  | _ => false

end Phase

/-- Without overflow no counter exceeds 1. -/
theorem Act.le_one {P : LFParams} {m m' : Memory α} {f f' : Phase α} {ev : Option (Event α)}
    (h : Act P m f m' f' ev) (hm : ∀ i, m.val i ≤ 1) (p : Pid)
    (hov : Trace.overflowed (ev.map (p, ·)).toList = []) (i : Nat) : m'.val i ≤ 1 := by
  have hupdate : ∀ (j : Nat) (v : Int), v ≤ 1 → Function.update m.val j v i ≤ 1 := by
    intro j v hv
    by_cases hi : i = j
    · rw [hi, Function.update_self]
      exact hv
    · rw [Function.update_of_ne hi]
      exact hm i
  cases h with
  | accept x n hzero => exact hupdate _ _ (by omega)
  | overflow x n hpos => cases hov
  | retry x n hneg => exact hupdate _ _ (by omega)
  | lower n hpos =>
    have := hm (P.slot n)
    exact hupdate _ _ (by omega)
  | _ => exact hm i

/-- A pop begins with its call. -/
theorem Act.popping {P : LFParams} {m m' : Memory α} {f f' : Phase α} {ev : Option (Event α)}
    (h : Act P m f m' f' ev) (hf : f'.popping = true) :
    f.popping = true ∨ ev = some .wanted := by
  cases h with
  | want last => exact .inr rfl
  | drawPop => exact .inl rfl
  | lower n hpos => exact .inl rfl
  | _ => cases hf

/-- What an action does about the numbers of pops, as long as no pop can fail. -/
theorem Act.ticket_cases {P : LFParams} {m m' : Memory α} {f f' : Phase α}
    {ev : Option (Event α)} (h : Act P m f m' f' ev) (hm : ∀ i, m.val i ≤ 1) (p : Pid)
    {isMover : Prop} (hmover : f.popping = true → isMover) :
    TicketCases P isMover f.ticket f'.ticket m.pop_ m'.pop_
      (Trace.takes (ev.map (p, ·)).toList) := by
  cases h with
  | drawPop => exact .draw (hmover rfl) rfl rfl rfl rfl
  | take n x hsome => exact .use (hmover rfl) n x rfl rfl rfl rfl
  | lower n hpos =>
    have hone : m.val (P.slot n) = 1 := by
      have := hm (P.slot n)
      omega
    refine .keep ?_ rfl rfl
    rw [hone]
    rfl
  | _ => exact .keep rfl rfl rfl

namespace Slots

/-- A single consumer's numbers come one after the other, and no counter
    exceeds 1. -/
structure OneAtATime (P : LFParams) (c : Pid) (s : Slots Pid α) : Prop where
  le_one : ∀ i, s.mem.val i ≤ 1
  turns : InTurn P c Phase.ticket Memory.pop_ Trace.takes s
  others : ∀ p, p ≠ c → (s.phase p).popping = false

variable [DecidableEq Pid] {P : LFParams} {c : Pid}

theorem OneAtATime.after {s : Slots Pid α} {p : Pid} {m : Memory α} {f : Phase α}
    {ev : Option (Event α)} (hs : OneAtATime P c s) (h : Act P s.mem (s.phase p) m f ev)
    (hc : Trace.SingleConsumer c (ev.map (p, ·)).toList)
    (hov : Trace.overflowed (ev.map (p, ·)).toList = []) :
    OneAtATime P c (s.after p m f ev) := by
  -- only the consumer pops
  have hmover : (s.phase p).popping = true → p = c := by
    intro hpop
    by_contra hne
    rw [hs.others p hne] at hpop
    cases hpop
  refine ⟨h.le_one hs.le_one p hov,
    hs.turns.after Trace.takes_append (h.ticket_cases hs.le_one p hmover), ?_⟩
  intro q hq
  by_cases hqp : q = p
  · subst hqp
    show (Function.update s.phase q f q).popping = false
    rw [Function.update_self, Bool.eq_false_iff]
    intro hpop
    rcases h.popping hpop with hbefore | rfl
    · exact hq (hmover hbefore)
    · exact hq (hc _ (List.mem_singleton.mpr rfl) rfl)
  · show (Function.update s.phase p f q).popping = false
    rw [Function.update_of_ne hqp]
    exact hs.others q hq

/-- The consumer's numbers in a run without overflow. -/
theorem one_at_a_time {s : Slots Pid α} (h : LTS.Reachable (system Pid α P) s)
    (hc : Trace.SingleConsumer c s.trace) (hov : Trace.overflowed s.trace = []) :
    OneAtATime P c s := by
  refine invariant_of_acts (fun s : Slots Pid α => Trace.SingleConsumer c s.trace →
    Trace.overflowed s.trace = [] → OneAtATime P c s) ?_ ?_ h hc hov
  · intro _ _
    refine ⟨fun _ => Int.zero_le_ofNat 1, ⟨rfl, fun _ => rfl, ?_⟩, fun _ _ => rfl⟩
    intro n hn
    cases hn
  · intro s p m f ev _ hs hact hc hov
    have hc' : Trace.SingleConsumer c (s.trace ++ (ev.map (p, ·)).toList) := hc
    have hov' : Trace.overflowed (s.trace ++ (ev.map (p, ·)).toList) = [] := hov
    rw [Trace.overflowed_append, List.append_eq_nil_iff] at hov'
    exact (hs hc'.of_append.1 hov'.1).after hact hc'.of_append.2 hov'.2

end Slots

/-! ### The producers -/

namespace Phase

/-- The item of a push that has not filled its cell yet. -/
def item : Phase α → Option α
  | .asking x => some x
  | .claiming x _ => some x
  | .storing x _ => some x
  | _ => none

end Phase

/-- A push goes from its call to its filling with one item. -/
theorem Act.item {P : LFParams} {m m' : Memory α} {f f' : Phase α} {ev : Option (Event α)}
    (h : Act P m f m' f' ev) (p : Pid) (hov : Trace.overflowed (ev.map (p, ·)).toList = []) :
    f.item.toList ++ Trace.called (ev.map (p, ·)).toList =
      (Trace.fills (ev.map (p, ·)).toList).map Prod.snd ++ f'.item.toList := by
  cases h with
  | overflow x n hpos => cases hov
  | lower n hpos =>
    have hitem : (Phase.lowered n (m.val (P.slot n)) : Phase α).item = none := by
      unfold Phase.lowered
      split <;> rfl
    rw [hitem]
    rfl
  | _ => rfl

namespace Slots

variable [DecidableEq Pid] {P : LFParams}

/-- Each thread's items have gone into cells in the order of its calls, but for
    the one on its way. -/
structure InCallOrder (owner : α → Pid) (s : Slots Pid α) : Prop where
  own : ∀ p x, (s.phase p).item = some x → owner x = p
  called : ∀ p, (Trace.called s.trace).filter (owner · = p) =
    ((Trace.fills s.trace).map Prod.snd).filter (owner · = p) ++ (s.phase p).item.toList

theorem fills_of_called {owner : α → Pid} {s : Slots Pid α}
    (h : LTS.Reachable (system Pid α P) s) (hown : Trace.OwnItems owner s.trace)
    (hov : Trace.overflowed s.trace = []) : InCallOrder owner s := by
  refine invariant_of_acts (fun s : Slots Pid α => Trace.OwnItems owner s.trace →
    Trace.overflowed s.trace = [] → InCallOrder owner s) ?_ ?_ h hown hov
  · intro _ _
    refine ⟨?_, fun _ => rfl⟩
    intro p x hx
    cases hx
  · intro s p m f ev _ hs hact hown hov
    have hown' : Trace.OwnItems owner (s.trace ++ (ev.map (p, ·)).toList) := hown
    have hov' : Trace.overflowed (s.trace ++ (ev.map (p, ·)).toList) = [] := hov
    rw [Trace.overflowed_append, List.append_eq_nil_iff] at hov'
    obtain ⟨hbefore, hnow⟩ := hown'.of_append
    have hin := hs hbefore hov'.1
    have hitem := hact.item p hov'.2
    -- whatever the thread has in hand is its own
    have hall : ∀ x ∈ (s.phase p).item.toList ++ Trace.called (ev.map (p, ·)).toList,
        owner x = p := by
      intro x hx
      rcases List.mem_append.mp hx with hx | hx
      · exact hin.own p x (Option.mem_toList.mp hx)
      · exact hnow.of_called hx
    have hall' := hall
    rw [hitem] at hall'
    refine ⟨?_, ?_⟩
    · intro q x hx
      by_cases hqp : q = p
      · subst hqp
        have hx' : (Function.update s.phase q f q).item = some x := hx
        rw [Function.update_self] at hx'
        exact hall' x (List.mem_append_right _ (Option.mem_toList.mpr hx'))
      · have hx' : (Function.update s.phase p f q).item = some x := hx
        rw [Function.update_of_ne hqp] at hx'
        exact hin.own q x hx'
    · intro q
      show (Trace.called (s.trace ++ _)).filter _ =
        ((Trace.fills (s.trace ++ _)).map Prod.snd).filter _ ++
          (Function.update s.phase p f q).item.toList
      rw [Trace.called_append, Trace.fills_append, List.filter_append, List.map_append,
        List.filter_append, hin.called q]
      by_cases hqp : q = p
      · subst hqp
        have hcall : (Trace.called (ev.map (q, ·)).toList).filter (owner · = q) =
            Trace.called (ev.map (q, ·)).toList :=
          List.filter_eq_self.mpr fun x hx => by simpa using hall x (List.mem_append_right _ hx)
        have hfill : ((Trace.fills (ev.map (q, ·)).toList).map Prod.snd).filter (owner · = q) =
            (Trace.fills (ev.map (q, ·)).toList).map Prod.snd :=
          List.filter_eq_self.mpr fun x hx => by simpa using hall' x (List.mem_append_left _ hx)
        rw [Function.update_self, hcall, hfill, List.append_assoc, List.append_assoc, hitem]
      · have hnone : ∀ {l : List α}, (∀ x ∈ l, owner x = p) → l.filter (owner · = q) = [] := by
          intro l hl
          rw [List.filter_eq_nil_iff]
          intro x hx
          rw [hl x hx, decide_eq_true_eq]
          exact fun heq => hqp heq.symm
        rw [Function.update_of_ne hqp,
          hnone fun x hx => hall x (List.mem_append_right _ hx),
          hnone fun x hx => hall' x (List.mem_append_left _ hx), List.append_nil, List.append_nil]

end Slots

/-! ### The order of delivery -/

namespace Slots

variable [DecidableEq Pid] {P : LFParams} {c : Pid}

/-- Items of a kind whose places go up come out in the order in which they went
    in. -/
theorem taken_prefix {s : Slots Pid α} (h : LTS.Reachable (system Pid α P) s)
    (hc : Trace.SingleConsumer c s.trace) (hov : Trace.overflowed s.trace = [])
    (kind : α → Bool)
    (hfill : ((Lanes.places P.capacity (Trace.fills s.trace)).filter (kind ·.2)).Pairwise
      fun a b => a.1 < b.1) :
    (Trace.taken s.trace).filter kind <+: ((Trace.fills s.trace).map Prod.snd).filter kind := by
  obtain ⟨hfills, htakes⟩ := lanes_lt h
  have hturn := (one_at_a_time h hc hov).turns.in_turn
  refine Lanes.prefix_of_lanes P.capacity_pos hfills htakes ?_ ?_ kind hfill
  · intro i
    exact ⟨_, (fills_lane h i).symm⟩
  · rw [hturn]
    exact List.map_congr_left fun t _ => P.slot_eq t

/-- With all cells empty, distinct items of a kind that came out in this order
    have gone into places that go up. -/
theorem fills_ascend {s : Slots Pid α} (h : LTS.Reachable (system Pid α P) s)
    (hc : Trace.SingleConsumer c s.trace) (hov : Trace.overflowed s.trace = [])
    (hcells : ∀ i < P.capacity, s.mem.data i = none) (kind : α → Bool)
    (hdistinct : (((Trace.fills s.trace).map Prod.snd).filter kind).Nodup)
    (horder : (Trace.taken s.trace).filter kind <+:
      ((Trace.fills s.trace).map Prod.snd).filter kind) :
    ((Lanes.places P.capacity (Trace.fills s.trace)).filter (kind ·.2)).Pairwise
      fun a b => a.1 < b.1 := by
  obtain ⟨hfills, htakes⟩ := lanes_lt h
  have hturn := (one_at_a_time h hc hov).turns.in_turn
  apply Lanes.ascend_of_prefix P.capacity_pos hfills htakes _ _ kind hdistinct horder
  · intro i
    have hlane := fills_lane h i
    by_cases hi : i < P.capacity
    · rw [hcells i hi] at hlane
      simpa using hlane.symm
    · -- there is no such item
      have hnone : ∀ l : List (Nat × α), (∀ e ∈ l, e.1 < P.capacity) →
          l.filter (fun e => e.1 = i) = [] := by
        intro l hl
        rw [List.filter_eq_nil_iff]
        intro e he
        have := hl e he
        rw [decide_eq_true_eq]
        omega
      rw [hnone _ htakes, hnone _ hfills]
  · rw [hturn]
    exact List.map_congr_left fun t _ => P.slot_eq t

end Slots

namespace State

variable [DecidableEq Pid] [DecidableEq α] {P : LFParams}

/-- One consumer, no overflow: if each producer fills places in ascending order,
    its items are delivered in the order of its calls; and once distinct items
    have all been delivered, only then. -/
theorem delivered_in_order {owner : α → Pid} {c : Pid} {s : State Pid α}
    (h : LTS.Reachable (system Pid α P) s) (hc : Trace.SingleConsumer c s.trace)
    (hown : Trace.OwnItems owner s.trace) (hov : Trace.overflowed s.trace = []) :
    (Trace.FillsAscend P owner s.trace → ∀ p, (Trace.taken s.trace).filter (owner · = p) <+:
      (Trace.called s.trace).filter (owner · = p)) ∧
    (s.Quiet → (∀ i < P.capacity, s.queue.data i = none) → (Trace.called s.trace).Nodup →
      (∀ p, (Trace.taken s.trace).filter (owner · = p) <+:
        (Trace.called s.trace).filter (owner · = p)) → Trace.FillsAscend P owner s.trace) := by
  have hr := reachable_slots h
  have horder := Slots.fills_of_called hr hown hov
  constructor
  · intro hfill p
    have hprefix := Slots.taken_prefix hr hc hov (fun x => decide (owner x = p)) (hfill p)
    exact hprefix.trans ⟨_, (horder.called p).symm⟩
  · intro hquiet hcells hdistinct hdelivered p
    -- no push is on its way, so all that was called for has gone into cells
    have hcalled : (Trace.called s.trace).filter (owner · = p) =
        ((Trace.fills s.trace).map Prod.snd).filter (owner · = p) := by
      obtain ⟨last, hpc⟩ := hquiet p
      have hitem : (s.slots.phase p).item = none := by
        show (s.pc p).phase.item = none
        rw [hpc]
        rfl
      have hall := horder.called p
      rw [hitem] at hall
      exact hall.trans (List.append_nil _)
    have hdistinct' := hdistinct.filter fun x => decide (owner x = p)
    rw [hcalled] at hdistinct'
    have hprefix := hdelivered p
    rw [hcalled] at hprefix
    exact Slots.fills_ascend hr hc hov hcells _ hdistinct' hprefix

/-- Two producers draw numbers before either fills its cell, and the later number
    is filled first. -/
def crossed : List (Label Caller Nat) :=
  [.push .first 0, .step .first 0] ++ (.push .second 1 :: List.replicate 5 (.step .second 0)) ++
    List.replicate 4 (.step .first 0) ++
    (List.range 2).flatMap (fun _ => .pop .consumer :: List.replicate 6 (.step .consumer 0))

/-- Item 0 is the first thread's, the others are the second's. -/
def firstsItem (x : Nat) : Caller := if x = 0 then .first else .second

theorem delivered_in_order_crossed :
    ∃ s, LTS.exec (next ⟨1, 64, by decide⟩) new crossed = some s ∧
      (Trace.taken s.trace).filter (firstsItem · = .second) <+:
        (Trace.called s.trace).filter (firstsItem · = .second) := by
  have hrun : ((LTS.exec (next ⟨1, 64, by decide⟩) new crossed).any fun s =>
      decide ((∀ e ∈ s.trace, e.2 = Event.wanted → e.1 = .consumer) ∧
        (∀ e ∈ Trace.calls s.trace, firstsItem e.2 = e.1) ∧ Trace.overflowed s.trace = [] ∧
        ∀ p, ((Lanes.places 2 (Trace.fills s.trace)).filter (firstsItem ·.2 = p)).Pairwise
          fun a b => a.1 < b.1)) = true := by
    decide +kernel
  obtain ⟨s, hs, hrun⟩ := (Option.any_eq_true _ _).mp hrun
  obtain ⟨hc, hown, hov, hfill⟩ := of_decide_eq_true hrun
  exact ⟨s, hs, (delivered_in_order (LTS.reachable_of_exec rfl hs) hc hown hov).1 hfill .second⟩

/-- A thread draws number 0 and stalls while another pushes 32 items into a
    queue of 32; the consumer pops once. -/
def lapped : List (Label Caller Nat) :=
  [.push .first 0, .step .first 0] ++
    (List.range 32).flatMap
      (fun k => .push .second (k + 1) :: List.replicate 5 (.step .second 0)) ++
    (.pop .consumer :: List.replicate 6 (.step .consumer 0))

/-- The last of the 32 is delivered first. -/
theorem lapped_not_in_order :
    ¬ ∀ (owner : Nat → Caller) (c : Caller) (s : State Caller Nat),
      LTS.Reachable (system Caller Nat ⟨5, 64, by decide⟩) s → Trace.SingleConsumer c s.trace →
      Trace.OwnItems owner s.trace → Trace.overflowed s.trace = [] →
      ∀ p, (Trace.taken s.trace).filter (owner · = p) <+:
        (Trace.called s.trace).filter (owner · = p) := by
  intro hall
  have hbad : ((LTS.exec (next ⟨5, 64, by decide⟩) new lapped).any fun s =>
      decide ((∀ e ∈ s.trace, e.2 = Event.wanted → e.1 = .consumer) ∧
        (∀ e ∈ Trace.calls s.trace, firstsItem e.2 = e.1) ∧ Trace.overflowed s.trace = [] ∧
        ¬ (Trace.taken s.trace).filter (firstsItem · = .second) <+:
          (Trace.called s.trace).filter (firstsItem · = .second))) = true := by
    decide +kernel
  obtain ⟨s, hs, hrun⟩ := (Option.any_eq_true _ _).mp hbad
  obtain ⟨hc, hown, hov, hnot⟩ := of_decide_eq_true hrun
  exact hnot (hall firstsItem .consumer s (LTS.reachable_of_exec rfl hs) hc hown hov .second)

end State

end LFQueue

end BlackSiren

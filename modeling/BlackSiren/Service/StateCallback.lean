import BlackSiren.Service.StateChange
import Mathlib.Data.List.Nodup

/-! # The callback of `set_siren_state`

    There is one field for the callback.  A call with a callback overwrites it
    when the request is made, and every acknowledgement, also that of a
    synchronous call, goes to what the field holds when it comes.

    - `Paired`: every acknowledgement goes where its call wanted it
    - `moves`: the steps as far as the pairing sees them
    - `Matching`: when a call leaves the field right for all that is in flight
-/

open LTS CondVar

namespace BlackSiren

namespace StateChange

variable {Cb : Type}

/-! ### What the client is promised -/

/-- Acknowledgements and calls agree. -/
structure Paired (s : State Cb) : Prop where
  /-- A request leads to at most one invocation. -/
  once : (s.invoked.map Prod.fst).Nodup
  /-- That of an asynchronous call is one of its callback, with its state. -/
  async : ∀ r callback, (r, callback) ∈ s.invoked → ∀ state cb,
    s.calls[r.id]? = some ⟨state, some cb⟩ → callback = some cb ∧ r.state = state
  /-- A synchronous call does not invoke the callback of an earlier one. -/
  sync : ∀ r cb, (r, some cb) ∈ s.invoked → ∀ state,
    s.calls[r.id]? = some ⟨state, none⟩ → ∀ c ∈ s.calls.take r.id, c.callback ≠ some cb

/-- A synchronous call is made before all asynchronous ones; an asynchronous one
    when the asynchronous requests still pending have the same callback. -/
def Matching (s : State Cb) : Label Cb → Prop
  | .call _ none => ∀ c ∈ s.calls, c.callback = none
  | .call _ (some cb) => ∀ r ∈ s.pending, ∀ state cb',
      s.calls[r.id]? = some ⟨state, some cb'⟩ → cb' = cb
  | _ => True

/-! ### Order -/

/-- The requests of a list of calls. -/
def requests (calls : List (Call Cb)) : List Request :=
  calls.mapIdx fun i c => ⟨i, c.state⟩

/-- Every request was invoked, is pending or is about to be pushed, in the order
    of the calls. -/
def Ordered (s : State Cb) : Prop :=
  s.invoked.map Prod.fst ++ s.pending ++ s.client.unpushed = requests s.calls

theorem requests_concat (calls : List (Call Cb)) (c : Call Cb) :
    requests (calls ++ [c]) = requests calls ++ [⟨calls.length, c.state⟩] := by
  simp [requests, List.mapIdx_append]

theorem nodup_requests (calls : List (Call Cb)) : (requests calls).Nodup := by
  have hids : (requests calls).map Request.id = List.range calls.length := by
    apply List.ext_getElem
    · simp [requests]
    · intro i _ _
      simp [requests]
  exact List.Nodup.of_map _ (hids ▸ List.nodup_range)

theorem getElem?_of_mem_requests {calls : List (Call Cb)} {r : Request}
    (h : r ∈ requests calls) : ∃ c, calls[r.id]? = some c ∧ c.state = r.state := by
  obtain ⟨i, hi, rfl⟩ := List.mem_mapIdx.mp h
  exact ⟨calls[i], List.getElem?_eq_getElem hi, rfl⟩

/-- A step makes a call, hands a request to the callback, or takes the requests
    further on their way. -/
theorem moves {s s' : State Cb} {l : Label Cb} (h : (inOrder Cb).step s l s') :
    (∃ state callback, l = .call state callback ∧ s.client.unpushed = [] ∧
      s' = s.called state callback) ∨
    (∃ r, s.response = .calling r ∧ s' = { s with
      response := .polling, invoked := s.invoked ++ [(r, s.stateChangeCallback)] }) ∨
    (s'.calls = s.calls ∧ s'.stateChangeCallback = s.stateChangeCallback ∧
      s'.invoked = s.invoked ∧
      s'.pending ++ s'.client.unpushed = s.pending ++ s.client.unpushed) := by
  obtain ⟨hguard, hstep⟩ := h
  have hstep := step_cases hstep
  cases hstep with
  | call state callback hclient =>
    exact .inl ⟨state, callback, rfl, by rw [hclient]; rfl, rfl⟩
  | invoke r hresponse => exact .inr (.inl ⟨r, hresponse, rfl⟩)
  | overflow requestQueue processQueue hrequest hprocess => exact absurd hguard id
  | push r sync hclient =>
    refine .inr (.inr ⟨rfl, rfl, rfl, ?_⟩)
    rw [hclient]
    cases sync <;> simp [Client.unpushed, State.pending, State.inFlight]
  | waits l client hl hrequest hfrom hto =>
    refine .inr (.inr ⟨rfl, rfl, rfl, ?_⟩)
    rw [hfrom, ← hto]
    rfl
  | givesUp r hclient =>
    refine .inr (.inr ⟨rfl, rfl, rfl, ?_⟩)
    rw [hclient]
    rfl
  | returns r hrequest hfrom hflag =>
    refine .inr (.inr ⟨rfl, rfl, rfl, ?_⟩)
    rw [hfrom]
    rfl
  | requestThread r rest hqueue =>
    refine .inr (.inr ⟨rfl, rfl, rfl, ?_⟩)
    simp [State.pending, State.inFlight, hqueue]
  | baseResponse r rest hchannel =>
    refine .inr (.inr ⟨rfl, rfl, rfl, ?_⟩)
    simp [State.pending, State.inFlight, hchannel]
  | execute r rest hprocess hqueue =>
    refine .inr (.inr ⟨rfl, rfl, rfl, ?_⟩)
    simp [State.pending, State.inFlight, hprocess, hqueue]
  | acknowledge r hprocess =>
    refine .inr (.inr ⟨rfl, rfl, rfl, ?_⟩)
    simp [State.pending, State.inFlight, hprocess]
  | release r rest hresponse hchannel =>
    refine .inr (.inr ⟨rfl, rfl, rfl, ?_⟩)
    simp [State.pending, State.inFlight, Response.toList, hresponse, hchannel]

theorem ordered {s : State Cb} (h : Reachable (inOrder Cb) s) : Ordered s := by
  refine invariant _ Ordered ?_ ?_ h
  · rintro s rfl
    rfl
  · intro s l s' hs hstep
    unfold Ordered at hs ⊢
    rcases moves hstep with ⟨state, callback, rfl, hidle, rfl⟩ | ⟨r, hresponse, rfl⟩ |
      ⟨hcalls, -, hinvoked, hpending⟩
    · rw [hidle, List.append_nil] at hs
      rw [State.called_invoked, State.called_pending, State.called_unpushed, State.called_calls, hs,
        requests_concat]
    · -- the request leaves the head of those pending
      rw [← hs]
      simp [State.pending, State.inFlight, Response.toList, hresponse]
    · rw [hinvoked, List.append_assoc, hpending, hcalls, ← List.append_assoc]
      exact hs

theorem mem_requests_of_invoked {s : State Cb} (h : Ordered s) {r : Request}
    {callback : Option Cb} (hr : (r, callback) ∈ s.invoked) : r ∈ requests s.calls := by
  rw [← h]
  apply List.mem_append_left
  apply List.mem_append_left
  exact List.mem_map_of_mem hr

theorem mem_requests_of_pending {s : State Cb} (h : Ordered s) {r : Request}
    (hr : r ∈ s.pending) : r ∈ requests s.calls := by
  rw [← h]
  apply List.mem_append_left
  exact List.mem_append_right _ hr

/-- A later call does not change what an earlier request belongs to. -/
theorem getElem?_concat {calls : List (Call Cb)} {r : Request} (hr : r ∈ requests calls)
    (c : Call Cb) : (calls ++ [c])[r.id]? = calls[r.id]? := by
  obtain ⟨c', hc', -⟩ := getElem?_of_mem_requests hr
  exact List.getElem?_append_left (List.getElem?_eq_some_iff.mp hc').1

/-! ### Matching calls -/

/-- What matching calls keep. -/
structure Matched (s : State Cb) : Prop where
  /-- The field is right for all that is to come. -/
  field : ∀ r ∈ s.pending ++ s.client.unpushed, ∀ state cb,
    s.calls[r.id]? = some ⟨state, some cb⟩ → s.stateChangeCallback = some cb
  /-- It was right for all that has come. -/
  async : ∀ r callback, (r, callback) ∈ s.invoked → ∀ state cb,
    s.calls[r.id]? = some ⟨state, some cb⟩ → callback = some cb
  syncFirst : ∀ i state, s.calls[i]? = some ⟨state, none⟩ →
    ∀ c ∈ s.calls.take i, c.callback = none

theorem Matched.call {s : State Cb} (h : Matched s) (hs : Ordered s) {state : Int}
    {callback : Option Cb} (hguard : Matching s (.call state callback)) :
    Matched (s.called state callback) where
  field := by
    intro r hr st cb hcall
    rw [State.called_pending, State.called_unpushed] at hr
    rw [State.called_calls] at hcall
    rcases List.mem_append.mp hr with hr | hr
    · rw [getElem?_concat (mem_requests_of_pending hs hr)] at hcall
      cases callback with
      | none => exact h.field r (List.mem_append_left _ hr) st cb hcall
      | some cb' => rw [hguard r hr st cb hcall]; rfl
    · rw [List.mem_singleton.mp hr, List.getElem?_concat_length, Option.some.injEq,
        Call.mk.injEq] at hcall
      rw [hcall.2]
      rfl
  async := by
    intro r invoked hr st cb hcall
    rw [State.called_invoked] at hr
    rw [State.called_calls, getElem?_concat (mem_requests_of_invoked hs hr)] at hcall
    exact h.async r invoked hr st cb hcall
  syncFirst := by
    intro i st hcall c hc
    rw [State.called_calls] at hcall hc
    have hlt := (List.getElem?_eq_some_iff.mp hcall).1
    rw [List.length_append, List.length_singleton] at hlt
    rw [List.take_append_of_le_length (by omega)] at hc
    by_cases hi : i < s.calls.length
    · rw [List.getElem?_append_left hi] at hcall
      exact h.syncFirst i st hcall c hc
    · -- the new call itself
      have hi : i = s.calls.length := by omega
      rw [hi, List.getElem?_concat_length, Option.some.injEq, Call.mk.injEq] at hcall
      rw [hcall.2] at hguard
      rw [hi, List.take_length] at hc
      exact hguard c hc

theorem Matched.invoke {s : State Cb} (h : Matched s) {r : Request}
    (hresponse : s.response = .calling r) :
    Matched { s with
      response := .polling, invoked := s.invoked ++ [(r, s.stateChangeCallback)] } where
  field := by
    intro q hq
    apply h.field
    rcases List.mem_append.mp hq with hq | hq
    · exact List.mem_append_left _ (List.mem_append_right _ hq)
    · exact List.mem_append_right _ hq
  async := by
    intro q callback hq state cb hcall
    rcases List.mem_append.mp hq with hq | hq
    · exact h.async q callback hq state cb hcall
    · have hr : r ∈ s.pending := by simp [State.pending, Response.toList, hresponse]
      rw [List.mem_singleton, Prod.mk.injEq] at hq
      rw [hq.1] at hcall
      rw [hq.2]
      exact h.field r (List.mem_append_left _ hr) state cb hcall
  syncFirst := h.syncFirst

theorem matched {s : State Cb} (h : Reachable ((inOrder Cb).restrict Matching) s) :
    Matched s := by
  refine invariant_of_reachable _ Matched ?_ ?_ h
  · rintro s rfl
    constructor <;> simp [initial, State.pending, State.inFlight, Response.toList, Client.unpushed]
  · rintro s l s' hreach hs ⟨hguard, hstep⟩
    have hord := ordered hreach.of_restrict
    rcases moves hstep with ⟨state, callback, rfl, hidle, rfl⟩ | ⟨r, hresponse, rfl⟩ |
      ⟨hcalls, hfield, hinvoked, hpending⟩
    · exact hs.call hord hguard
    · exact hs.invoke hresponse
    · refine ⟨?_, ?_, ?_⟩
      · rw [hpending, hcalls, hfield]
        exact hs.field
      · rw [hinvoked, hcalls]
        exact hs.async
      · rw [hcalls]
        exact hs.syncFirst

theorem paired_of_matched {s : State Cb} (hord : Ordered s) (h : Matched s) : Paired s where
  once := by
    have hnodup := nodup_requests s.calls
    rw [← hord, List.append_assoc] at hnodup
    exact hnodup.of_append_left
  async := by
    intro r callback hr state cb hcall
    refine ⟨h.async r callback hr state cb hcall, ?_⟩
    obtain ⟨c, hc, hstate⟩ := getElem?_of_mem_requests (mem_requests_of_invoked hord hr)
    rw [hcall, Option.some.injEq] at hc
    rw [← hstate, ← hc]
  sync := by
    intro r cb hr state hcall c hc
    rw [h.syncFirst r.id state hcall c hc]
    intro hnone
    cases hnone

/-! ### Calls that do not match -/

/-- After a call with a callback the field holds the callback of some call. -/
def Held (s : State Cb) : Prop :=
  (∃ c ∈ s.calls, c.callback ≠ none) →
    ∃ c ∈ s.calls, c.callback ≠ none ∧ s.stateChangeCallback = c.callback

theorem held {s : State Cb} (h : Reachable (system Cb) s) : Held s := by
  refine invariant _ Held ?_ ?_ h
  · rintro s rfl ⟨c, hc, -⟩
    cases hc
  · intro s l s' hs hstep
    have hstep := step_cases hstep
    cases hstep with
    | call state callback hclient =>
      rintro ⟨c, hc, hne⟩
      rw [State.called_calls] at hc ⊢
      cases callback with
      | some cb =>
        refine ⟨⟨state, some cb⟩, by simp, ?_, rfl⟩
        intro hnone
        cases hnone
      | none =>
        rcases List.mem_append.mp hc with hc | hc
        · obtain ⟨c', hc', hne', hfield⟩ := hs ⟨c, hc, hne⟩
          exact ⟨c', List.mem_append_left _ hc', hne', hfield⟩
        · rw [List.mem_singleton.mp hc] at hne
          exact absurd rfl hne
    | _ => exact hs

/-- What is pending is handed to the callback there is now. -/
theorem drain_invoked {s : State Cb} (hawake : s.client.Awake) :
    ∃ s', Reachable ((inOrder Cb).startingAt s) s' ∧ s'.calls = s.calls ∧
      ∀ r ∈ s.pending, (r, s.stateChangeCallback) ∈ s'.invoked := by
  obtain ⟨s', hrun, hmoved, hdone⟩ := drain s hawake
  refine ⟨s', hrun, hmoved.calls, ?_⟩
  intro r hr
  have hinvoked := hmoved.invoked
  rw [hdone, List.map_nil, List.append_nil] at hinvoked
  rw [hinvoked]
  apply List.mem_append_right
  exact List.mem_map_of_mem hr

/-- A synchronous call after an asynchronous one: its acknowledgement goes to the
    callback of an earlier call. -/
theorem not_paired_of_sync {s : State Cb} (hheld : Held s) {state : Int}
    (hsome : ∃ c ∈ s.calls, c.callback ≠ none) :
    ∃ s', Reachable ((inOrder Cb).startingAt (s.called state none)) s' ∧ ¬ Paired s' := by
  obtain ⟨c, hc, hne, hfield⟩ := hheld hsome
  obtain ⟨cb, hcb⟩ := Option.ne_none_iff_exists'.mp hne
  have hpush : (inOrder Cb).step (s.called state none) .push { s.called state none with
      client := .waiting ⟨s.calls.length, state⟩ .checking
      requestQueue := s.requestQueue ++ [⟨s.calls.length, state⟩] } := ⟨trivial, rfl⟩
  obtain ⟨s', hrun, hcalls, hinvoked⟩ := drain_invoked (s := { s.called state none with
      client := .waiting ⟨s.calls.length, state⟩ .checking
      requestQueue := s.requestQueue ++ [⟨s.calls.length, state⟩] }) (by
    intro r w hw
    cases hw
    rfl)
  refine ⟨s', hrun.head _ hpush, ?_⟩
  intro hpaired
  have hcalls : s'.calls = s.calls ++ [⟨state, none⟩] := hcalls
  have hmem : (⟨s.calls.length, state⟩, some cb) ∈ s'.invoked := by
    rw [← hcb, ← hfield]
    apply hinvoked
    simp [State.pending, State.inFlight]
  apply hpaired.sync _ cb hmem state (by rw [hcalls]; exact List.getElem?_concat_length) c
  · rw [hcalls, List.take_left]
    exact hc
  · exact hcb

/-- A call with a callback while a request with another one is pending: both
    acknowledgements go to the new one. -/
theorem not_paired_of_async {s : State Cb} (hord : Ordered s) {state : Int} {cb : Cb}
    {r : Request} (hr : r ∈ s.pending) {st : Int} {cb' : Cb}
    (hcall : s.calls[r.id]? = some ⟨st, some cb'⟩) (hne : cb' ≠ cb) :
    ∃ s', Reachable ((inOrder Cb).startingAt (s.called state (some cb))) s' ∧ ¬ Paired s' := by
  obtain ⟨s', hrun, hcalls, hinvoked⟩ := drain_invoked (s := s.called state (some cb)) (by
    intro r w hw
    cases hw)
  refine ⟨s', hrun, ?_⟩
  intro hpaired
  have hmem : (r, some cb) ∈ s'.invoked := by
    apply hinvoked
    rw [State.called_pending]
    exact hr
  have hcall' : s'.calls[r.id]? = some ⟨st, some cb'⟩ := by
    rw [hcalls, State.called_calls, getElem?_concat (mem_requests_of_pending hord hr)]
    exact hcall
  have heq := (hpaired.async r _ hmem st cb' hcall').1
  exact hne (Option.some.inj heq).symm

/-- Callbacks and requests are paired in every run without overflow whose calls
    all match; and after any call that does not, there is a way to go on that
    pairs them wrongly. -/
theorem callbacks_paired (Cb : Type) :
    (∀ s, Reachable ((inOrder Cb).restrict Matching) s → Paired s) ∧
    (∀ s l s', Reachable (inOrder Cb) s → (inOrder Cb).step s l s' → ¬ Matching s l →
      ∃ s'', Reachable ((inOrder Cb).startingAt s') s'' ∧ ¬ Paired s'') := by
  refine ⟨fun s h => paired_of_matched (ordered h.of_restrict) (matched h), ?_⟩
  intro s l s' h hstep hguard
  cases l with
  | call state callback =>
    obtain ⟨-, hstep⟩ := hstep
    have hcalled : s' = s.called state callback := by
      cases step_cases hstep with
      | call state callback hclient => rfl
      | waits l client hl hrequest hfrom hto => rcases hl with hl | hl | hl <;> cases hl
    subst hcalled
    cases callback with
    | none =>
      apply not_paired_of_sync (held h.of_restrict)
      simpa only [Matching, not_forall, exists_prop] using hguard
    | some cb =>
      simp only [Matching, not_forall, exists_prop] at hguard
      obtain ⟨r, hr, st, cb', hcall, hne⟩ := hguard
      exact not_paired_of_async (ordered h) hr hcall hne
  | _ => exact absurd trivial hguard

/-- Two calls with different callbacks, one right after the other. -/
def overwritten : List (Label Nat) :=
  [.call 1 (some 0), .push, .call 2 (some 1), .push, .requestThread, .baseResponse, .execute,
    .acknowledge, .release, .invoke]

/-- The first acknowledgement goes to the second callback. -/
theorem not_callbacks_paired :
    ¬ ∀ (Cb : Type) (s : State Cb), Reachable (inOrder Cb) s → Paired s := by
  intro h
  have hrun : (exec next initial overwritten).map (fun s => (s.calls, s.invoked)) =
      some ([⟨1, some 0⟩, ⟨2, some 1⟩], [(⟨0, 1⟩, some 1)]) := by decide
  obtain ⟨s, hs, hval⟩ := Option.map_eq_some_iff.mp hrun
  rw [Prod.mk.injEq] at hval
  have hreach : Reachable (inOrder Nat) s := by
    show Reachable ((System.ofFn (· = initial) next).restrict NoOverflow) s
    refine reachable_restrict_of_exec rfl hs ?_
    intro l hl _
    simp only [overwritten, List.mem_cons, List.not_mem_nil, or_false] at hl
    rcases hl with rfl | rfl | rfl | rfl | rfl | rfl | rfl | rfl | rfl | rfl <;> exact trivial
  have hasync := (h Nat s hreach).async ⟨0, 1⟩ (some 1) (by rw [hval.2]; decide) 1 0
    (by rw [hval.1]; decide)
  exact absurd hasync.1 (by decide)

end StateChange

end BlackSiren

import BlackSiren.Service.Listening
import BlackSiren.Service.OnDestroy

/-! # The process thread in the base

    The base knows the process thread by the packages it takes and the messages it
    writes; what the results of a frame are comes from outside.  The thread with its
    processor does nothing else: for whatever packages it has taken, the thread of the
    base can take the same packages and write the same messages.

    - `VoicePackage.package`, `responses`: what the base sees of it
    - `next_handle`: one package
    - `process_thread_refines`: all packages
-/

open LTS

namespace BlackSiren

/-- A package without what is in it. -/
def VoicePackage.package {F : Type} : VoicePackage F → Base.Package
  | .dataProcess _ _ _ => .dataProcess
  | .setState state => .setState state.value
  | .setSteer _ _ => .setSteer
  | .syncVTWordList _ => .syncVtWordList
  | .destroy => .destroy

/-- The message that is written for an entry. -/
def Entry.response : Entry → Option Base.Response
  | .frame => none
  | .setState state => some (.onCallback state.value)
  | .event e => some (.onVoiceEvent e.event.toInt)

/-- The messages behind a log. -/
def responses (log : List Entry) : List Base.Response := log.filterMap Entry.response

theorem responses_append (log log' : List Entry) :
    responses (log ++ log') = responses log ++ responses log' :=
  List.filterMap_append

/-! ### The thread of the base -/

namespace OnDestroy

/-- The thread of the base has written what it had in hand. -/
theorem exec_write (s : State) (ms : List Base.Response)
    (h : s.base.process = .of ms) :
    exec next s (List.replicate ms.length (.base (.process []))) = some { s with
      base := { s.base with process := .popping }, channel := s.channel ++ ms } := by
  induction ms generalizing s with
  | nil =>
    obtain ⟨⟨response, main, process, start, exit, queue⟩, channel, received⟩ := s
    obtain rfl : process = .popping := h
    simp
  | cons m ms ih =>
    have hstep : next s (.base (.process [])) = some { s with
        base := { s.base with process := .of ms }, channel := s.channel ++ [m] } := by
      have hwriting : s.base.process = .writing m ms := h
      simp [next, Base.next, hwriting]
    refine exec_cons_eq_some.mpr ⟨_, hstep, ?_⟩
    rw [ih _ rfl, List.append_assoc]
    rfl

/-- It takes a package and writes what that gives. -/
theorem exec_package (s : State) {p : Base.Package} {rest : List Base.Package}
    {props : List Int} {ms : List Base.Response} (hpopping : s.base.process = .popping)
    (hqueue : s.base.processQueue = p :: rest) (hhandle : p.handle props = .of ms) :
    ∃ ls, exec next s ls = some { s with
      base := { s.base with process := .popping, processQueue := rest }
      channel := s.channel ++ ms } := by
  refine ⟨.base (.process props) :: List.replicate ms.length (.base (.process [])), ?_⟩
  have hstep : next s (.base (.process props)) = some { s with
      base := { s.base with process := .of ms, processQueue := rest } } := by
    simp [next, Base.next, hpopping, hqueue, hhandle]
  exact exec_cons_eq_some.mpr ⟨_, hstep, exec_write _ ms rfl⟩

end OnDestroy

/-! ### The thread with its processor -/

namespace ProcessThread

variable {F : Type} [CFloat F] {E : Engines F}

/-- What the base is told of a frame. -/
def props (result : List ProcessedVoiceResult) : List Int :=
  result.map fun r => r.event.event.toInt

theorem responses_results (result : List ProcessedVoiceResult) :
    responses (.frame :: result.map fun r => .event r.event) =
      (props result).map .onVoiceEvent := by
  unfold responses props
  rw [List.filterMap_cons_none rfl, List.filterMap_map, List.map_map]
  exact congrFun List.filterMap_eq_map result

/-- A package ends the thread, or is handled as the base says. -/
theorem next_handle {s s' : ProcessThread F E} {pkg : VoicePackage F} {env : ResultEnv}
    (h : s.next (pkg, env) = some s') :
    (pkg.package = .destroy ∧ s'.exited = true ∧ s'.log = s.log) ∨
      s'.exited = s.exited ∧ ∃ es props, s'.log = s.log ++ es ∧
        pkg.package.handle props = .of (responses es) := by
  have h := next_eq_some h
  -- a package that gives no message
  have hsilent : s'.exited = s.exited → s'.log = s.log → pkg.package.handle [] = .of [] →
      s'.exited = s.exited ∧ ∃ es props, s'.log = s.log ++ es ∧
        pkg.package.handle props = .of (responses es) := by
    intro hexited hlog hhandle
    exact ⟨hexited, [], [], by rw [hlog, List.append_nil], hhandle⟩
  cases pkg with
  | dataProcess aec size data =>
    obtain ⟨⟨a, result⟩, _, h⟩ := bind_eq_ok.mp h
    cases h
    refine .inr ⟨rfl, _, props result, rfl, ?_⟩
    rw [responses_results]
    rfl
  | setState state =>
    cases h
    exact .inr ⟨rfl, [.setState state], [], rfl, rfl⟩
  | setSteer ho ver =>
    cases h
    exact .inr (hsilent rfl rfl rfl)
  | syncVTWordList msg =>
    simp only [handle] at h
    split at h
    · cases h
    · split at h
      · obtain ⟨p, _, h⟩ := bind_eq_ok.mp h
        cases h
        exact .inr (hsilent rfl rfl rfl)
      · cases h
        exact .inr (hsilent rfl rfl rfl)
  | destroy =>
    cases h
    exact .inl ⟨rfl, rfl, rfl⟩

/-- The thread of the base, which has written these messages on the channel. -/
def inBase (o : OnDestroy.State) (exited : Bool) (queue : List Base.Package)
    (ms : List Base.Response) : OnDestroy.State :=
  { o with
    base := { o.base with
      process := if exited then .exited else .popping
      processQueue := queue }
    channel := o.channel ++ ms }

/-- Whatever packages the thread has taken, and whatever they gave: the thread of a base
    that has them in its queue, with others behind them, can take the same packages,
    write the messages of the log in its order, and end exactly if the thread has. -/
theorem process_thread_refines {s s' : ProcessThread F E}
    {ls : List (VoicePackage F × ResultEnv)} (h : exec next s ls = some s')
    (hexited : s.exited = false) (o : OnDestroy.State) (rest : List Base.Package)
    (hpopping : o.base.process = .popping)
    (hqueue : o.base.processQueue = ls.map (·.1.package) ++ rest) :
    ∃ es, s'.log = s.log ++ es ∧ ∃ os, exec OnDestroy.next o os =
      some (inBase o s'.exited rest (responses es)) := by
  induction ls generalizing s o with
  | nil =>
    cases h
    refine ⟨[], (List.append_nil _).symm, [], ?_⟩
    obtain ⟨⟨response, main, process, start, exit, queue⟩, channel, received⟩ := o
    obtain rfl : process = .popping := hpopping
    obtain rfl : queue = rest := hqueue
    simp [inBase, hexited, responses]
  | cons l ls ih =>
    obtain ⟨pkg, env⟩ := l
    obtain ⟨s₁, hs₁, hrest⟩ := exec_cons_eq_some.mp h
    rcases next_handle hs₁ with ⟨hdestroy, hexited₁, hlog⟩ | ⟨hexited₁, es, props, hlog, hhandle⟩
    · -- the thread takes no other package
      have hnil : ls = [] ∧ s' = s₁ := by
        cases ls with
        | nil =>
          cases hrest
          exact ⟨rfl, rfl⟩
        | cons l ls =>
          obtain ⟨s₂, hs₂, _⟩ := exec_cons_eq_some.mp hrest
          rw [next, if_pos hexited₁] at hs₂
          cases hs₂
      obtain ⟨rfl, rfl⟩ := hnil
      refine ⟨[], by rw [hlog, List.append_nil], [.base (.process [])], ?_⟩
      have hqueue : o.base.processQueue = .destroy :: rest := by
        rw [hqueue, List.map_singleton, hdestroy]
        rfl
      refine exec_cons_eq_some.mpr ⟨_, ?_, rfl⟩
      simp [OnDestroy.next, Base.next, hpopping, hqueue, Base.Package.handle, inBase, hexited₁,
        responses]
    · have hqueue : o.base.processQueue = pkg.package :: (ls.map (·.1.package) ++ rest) := hqueue
      obtain ⟨os, hos⟩ := OnDestroy.exec_package o hpopping hqueue hhandle
      obtain ⟨es', hlog', os', hos'⟩ := ih hrest (hexited₁.trans hexited)
        { o with
          base := { o.base with
            process := .popping, processQueue := ls.map (·.1.package) ++ rest }
          channel := o.channel ++ responses es } rfl rfl
      refine ⟨es ++ es', by rw [hlog', hlog, List.append_assoc], os ++ os', ?_⟩
      rw [exec_append, hos, Option.bind_some, responses_append]
      refine hos'.trans ?_
      simp [inBase, List.append_assoc]

/-- Two frames with a wake word and its command, and the end of the thread, with a
    request behind it that nobody takes. -/
theorem process_thread_refines_wakeWord : ∃ s s' : ProcessThread ℚ wakeWordCmd,
    script wakeWordCmd (smallConfig true true) [] = some s ∧
      s'.log.length = 7 ∧ s'.exited = true ∧
      ∃ es, s'.log = s.log ++ es ∧ ∃ os, exec OnDestroy.next
        { OnDestroy.initial with base := { Base.initial with
            processQueue := [.dataProcess, .dataProcess, .destroy, .setSteer] } } os =
        some (inBase { OnDestroy.initial with base := { Base.initial with
            processQueue := [.dataProcess, .dataProcess, .destroy, .setSteer] } }
          s'.exited [.setSteer] (responses es)) := by
  have hrun : (script wakeWordCmd (smallConfig true true) []).map (fun s =>
      (s.exited, (exec next s [onePackage, onePackage, (.destroy, quietEnv)]).map
        fun s' => (s'.log.length, s'.exited))) = some (false, some (7, true)) := by
    decide +kernel
  obtain ⟨s, hs, hrest⟩ := Option.map_eq_some_iff.mp hrun
  obtain ⟨hexited, hrest⟩ := Prod.mk.inj hrest
  obtain ⟨s', hs', hlog⟩ := Option.map_eq_some_iff.mp hrest
  obtain ⟨hlength, hended⟩ := Prod.mk.inj hlog
  exact ⟨s, s', hs, hlength, hended,
    process_thread_refines hs' hexited _ [.setSteer] rfl rfl⟩

end ProcessThread

end BlackSiren

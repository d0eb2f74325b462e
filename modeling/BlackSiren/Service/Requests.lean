import BlackSiren.Channel.Delivery
import BlackSiren.Service.Refinement
import BlackSiren.VTWord.Pipeline

/-! # Requests in the base

    A request of the client is a message of a few bytes, which the response thread of
    the base takes apart again.  The thread of the base model is told the request
    itself.  Both do the same: whatever is asked for and however the bytes arrive, as
    long as each header is read whole.

    - `ReadOf`: reading messages
    - `ClientRequest`: what is asked for, and its message
    - `ResponseHandler`: `SirenBase::responseThreadHandler` on bytes
    - `onMessage_message`: one request
    - `requests_refine`: all requests
-/

open LTS

namespace BlackSiren

def SIREN_REQUEST_MSG_START_PROCESS_STREAM : BitVec 32 := 1
def SIREN_REQUEST_MSG_STOP_PROCESS_STREAM : BitVec 32 := 2
def SIREN_RESPONSE_MSG_ON_DESTROY : BitVec 32 := 18

/-! ### The channel -/

/-- The outcomes of the calls that read these messages.  Any threads may have written
    them, and their bytes may arrive in any pieces, but the reads of the headers are
    whole. -/
inductive ReadOf (Pid : Type) (ms : List Message) : List Outcome → Prop
  | intro {script : List ReadEvent} {w : Writers Pid} (whole : HeadersWhole ms script)
      (written : Reachable (Writers.system Pid) w) (free : w.holder = none)
      (sent : w.sent.map Sent.m = ms) (junk : Nat → Nat → UInt8) :
      ReadOf Pid ms (pollAll ms.length junk script w.wire)

theorem ReadOf.eq {Pid : Type} {ms : List Message} {os : List Outcome} (h : ReadOf Pid ms os) :
    os = ms.map .ok := by
  obtain ⟨whole, written, free, sent, junk⟩ := h
  have hall := (delivers_iff _ _).mpr whole _ junk sent
  rwa [← Writers.stream_eq written free] at hall

/-! ### Requests -/

/-- What the client asks for; `list` is the data of `allocateMessageFromVTWord`. -/
inductive ClientRequest (F : Type) where
  | startProcessStream
  | stopProcessStream
  | setState (state : R2vSysState)
  | setSteer (ho var : F)
  | syncVTWordList (list : List UInt8) (fits : list.length < 2 ^ 31)
  | destroy

theorem nil_fits : ([] : List UInt8).length < 2 ^ 31 := by decide

theorem state_fits (state : R2vSysState) : (Bytes.toLE32 state.value).length < 2 ^ 31 := by
  rw [Bytes.length_toLE32]
  decide

namespace ClientRequest

variable {F : Type} [CFloat F]

theorem steer_fits (ho var : F) : (Bytes.toLE 4 (CFloat.bits ho).toNat ++
    Bytes.toLE 4 (CFloat.bits var).toNat).length < 2 ^ 31 := by
  rw [List.length_append, Bytes.length_toLE, Bytes.length_toLE]
  decide

/-- The message the proxy puts into `requestQueue`. -/
def message : ClientRequest F → Message
  | .startProcessStream => ⟨SIREN_REQUEST_MSG_START_PROCESS_STREAM, [], nil_fits⟩
  | .stopProcessStream => ⟨SIREN_REQUEST_MSG_STOP_PROCESS_STREAM, [], nil_fits⟩
  | .setState state => ⟨SIREN_REQUEST_MSG_SET_STATE, Bytes.toLE32 state.value, state_fits state⟩
  | .setSteer ho var => ⟨SIREN_REQUEST_MSG_SET_STEER,
      Bytes.toLE 4 (CFloat.bits ho).toNat ++ Bytes.toLE 4 (CFloat.bits var).toNat,
      steer_fits ho var⟩
  | .syncVTWordList list fits => ⟨SIREN_REQUEST_MSG_SYNC_VT_WORD_LIST, list, fits⟩
  | .destroy => ⟨SIREN_REQUEST_MSG_DESTROY, [], nil_fits⟩

/-- What the base model is told. -/
def request : ClientRequest F → Base.Request
  | .startProcessStream => .startProcessStream
  | .stopProcessStream => .stopProcessStream
  | .setState state => .setState state.value
  | .setSteer _ _ => .setSteer
  | .syncVTWordList _ _ => .syncVtWordList
  | .destroy => .destroy

/-- The package the process thread is to get. -/
def package : ClientRequest F → Option (VoicePackage F)
  | .startProcessStream => none
  | .stopProcessStream => none
  | .setState state => some (.setState state)
  | .setSteer ho var => some (.setSteer ho var)
  | r@(.syncVTWordList _ _) => some (.syncVTWordList r.message)
  | .destroy => some .destroy

def isDestroy : ClientRequest F → Bool
  | .destroy => true
  | _ => false

/-- The packages that some requests are to give; none behind `destroy` is read. -/
def packages : List (ClientRequest F) → List (VoicePackage F)
  | [] => []
  | r :: rs => r.package.toList ++ if r.isDestroy then [] else packages rs

end ClientRequest

/-! ### The thread -/

/-- The members that `SirenBase::responseThreadHandler` writes, what it has pushed and
    written, and its locals. -/
structure ResponseHandler (F : Type) where
  recordingStart : Bool
  recordingExit : Bool
  pushed : List (VoicePackage F)
  written : List Message
  retry : Nat
  exited : Bool

namespace ResponseHandler

variable {F : Type}

def new : ResponseHandler F := ⟨false, false, [], [], 0, false⟩

def push (s : ResponseHandler F) (p : VoicePackage F) : ResponseHandler F :=
  { s with pushed := s.pushed ++ [p] }

/-- `destroy_siren`, and the return behind it. -/
def destroy_siren (s : ResponseHandler F) : ResponseHandler F :=
  { s.push .destroy with
    written := s.written ++ [⟨SIREN_RESPONSE_MSG_ON_DESTROY, [], nil_fits⟩]
    recordingExit := true
    recordingStart := true
    exited := true }

variable [CFloat F]

/-- A float of a message. -/
def floatAt (data : List UInt8) (off : Nat) : F :=
  CFloat.ofBits (BitVec.ofNat 32 (Bytes.ofLE ((data.drop off).take 4)))

/-- A message that has been read. -/
def onMessage (s : ResponseHandler F) (m : Message) : ResponseHandler F :=
  if m.msg = SIREN_REQUEST_MSG_START_PROCESS_STREAM then { s with recordingStart := true }
  else if m.msg = SIREN_REQUEST_MSG_STOP_PROCESS_STREAM then { s with recordingStart := false }
  else if m.msg = SIREN_REQUEST_MSG_SET_STATE then
    if m.data.length = 4 then
      s.push (.setState ⟨Bytes.ofLE32 (m.data.take 4), Bytes.ofLE32_bounds _⟩)
    else s
  else if m.msg = SIREN_REQUEST_MSG_SET_STEER then
    if m.data.length = 4 * 2 then s.push (.setSteer (floatAt m.data 0) (floatAt m.data 4))
    else s
  else if m.msg = SIREN_REQUEST_MSG_SYNC_VT_WORD_LIST then s.push (.syncVTWordList (copyMessage m))
  else if m.msg = SIREN_REQUEST_MSG_DESTROY then s.destroy_siren
  else s

/-- A call of `pollMessage` as it ends; none if it faults. -/
def onOutcome (s : ResponseHandler F) : Outcome → Option (ResponseHandler F)
  | .ok m => some ({ s with retry := 0 }.onMessage m)
  | .magicError => some { s with retry := s.retry + 1, exited := s.retry + 1 ≥ 5 }
  -- the thread stays in the call
  | .stuck => some s
  | .fault => none

/-- The calls one after the other, until the thread returns. -/
def run (s : ResponseHandler F) : List Outcome → Option (ResponseHandler F)
  | [] => some s
  | o :: os => if s.exited then some s else (s.onOutcome o).bind fun s => s.run os

/-! ### One request -/

/-- What a request is to do. -/
def carryOut (s : ResponseHandler F) (r : ClientRequest F) : ResponseHandler F :=
  match r with
  | .startProcessStream => { s with recordingStart := true }
  | .stopProcessStream => { s with recordingStart := false }
  | .destroy => s.destroy_siren
  | r => { s with pushed := s.pushed ++ r.package.toList }

theorem floatAt_append [LawfulCFloat F] (before after : List UInt8) (x : F) :
    floatAt (before ++ (Bytes.toLE 4 (CFloat.bits x).toNat ++ after)) before.length = x := by
  have hbytes : ((Bytes.toLE 4 (CFloat.bits x).toNat ++ after).take 4) =
      Bytes.toLE 4 (CFloat.bits x).toNat := List.take_left' (Bytes.length_toLE 4 _)
  unfold floatAt
  rw [List.drop_left, hbytes, Bytes.ofLE_toLE (CFloat.bits x).isLt, BitVec.ofNat_toNat,
    BitVec.setWidth_eq, LawfulCFloat.ofBits_bits]

/-- A request is taken out of its message as it was put in. -/
theorem onMessage_message [LawfulCFloat F] (s : ResponseHandler F) (r : ClientRequest F) :
    s.onMessage r.message = s.carryOut r := by
  cases r with
  | startProcessStream => rfl
  | stopProcessStream => rfl
  | setState state =>
    have hlength := Bytes.length_toLE32 state.value
    have hvalue : Bytes.ofLE32 ((Bytes.toLE32 state.value).take 4) = state.value := by
      rw [List.take_of_length_le (Nat.le_of_eq hlength),
        Bytes.ofLE32_toLE32 state.fits.1 state.fits.2]
    show (if (Bytes.toLE32 state.value).length = 4 then s.push (.setState ⟨_, _⟩) else s) = _
    rw [if_pos hlength]
    exact congrArg (fun state => s.push (.setState state)) (R2vSysState.ext hvalue)
  | setSteer ho var =>
    obtain ⟨data, hdata⟩ : ∃ data, data = Bytes.toLE 4 (CFloat.bits ho).toNat ++
      Bytes.toLE 4 (CFloat.bits var).toNat := ⟨_, rfl⟩
    have hlength : data.length = 4 * 2 := by
      rw [hdata, List.length_append, Bytes.length_toLE, Bytes.length_toLE]
    have hho : floatAt data 0 = ho := hdata ▸ floatAt_append [] _ ho
    have hvar : floatAt data 4 = var := by
      have hrest := floatAt_append (Bytes.toLE 4 (CFloat.bits ho).toNat) [] var
      rwa [List.append_nil, ← hdata, Bytes.length_toLE] at hrest
    show (if (ClientRequest.message (.setSteer ho var)).data.length = 4 * 2 then
      s.push (.setSteer (floatAt _ 0) (floatAt _ 4)) else s) = _
    have hmessage : (ClientRequest.message (.setSteer ho var)).data = data := hdata.symm
    rw [hmessage, if_pos hlength, hho, hvar]
    rfl
  | syncVTWordList list fits => rfl
  | destroy => rfl

/-! ### All requests -/

/-- The base with what the thread has done since. -/
def inBase (o : OnDestroy.State) (s : ResponseHandler F) (ps : List (VoicePackage F)) :
    OnDestroy.State :=
  { o with
    base := { o.base with
      response := if s.exited then .exited else .polling
      recordingStart := s.recordingStart
      recordingExit := s.recordingExit
      processQueue := o.base.processQueue ++ ps.map VoicePackage.package }
    channel := o.channel ++ if s.exited then [.onDestroy] else [] }

/-- The thread and that of the base stand at the same place. -/
structure Beside (s : ResponseHandler F) (o : OnDestroy.State) : Prop where
  exited : s.exited = false
  polling : o.base.response = .polling
  start : o.base.recordingStart = s.recordingStart
  exit : o.base.recordingExit = s.recordingExit

/-- A request, with what follows in `destroy_siren`. -/
theorem exec_request {s : ResponseHandler F} {o : OnDestroy.State} (h : Beside s o)
    (r : ClientRequest F) : ∃ os, exec OnDestroy.next o os =
      some (inBase o (s.carryOut r) r.package.toList) := by
  obtain ⟨⟨response, main, process, start, exit, queue⟩, channel, received⟩ := o
  obtain ⟨hexited, hpolling, hstart, hexit⟩ := h
  obtain rfl : response = .polling := hpolling
  obtain rfl : start = s.recordingStart := hstart
  obtain rfl : exit = s.recordingExit := hexit
  -- `destroy_siren` goes on behind the request
  refine ⟨.base (.request r.request) ::
    if r.isDestroy then List.replicate 4 (.base .response) else [], ?_⟩
  cases r with
  | destroy =>
    simp [exec, OnDestroy.next, Base.next, Base.State.handle, inBase, carryOut, destroy_siren,
      push, ClientRequest.package, ClientRequest.request, ClientRequest.isDestroy,
      VoicePackage.package, List.replicate]
  | startProcessStream | stopProcessStream | setState | setSteer | syncVTWordList =>
    simp [exec, OnDestroy.next, Base.next, Base.State.handle, inBase, carryOut, hexited,
      ClientRequest.package, ClientRequest.request, ClientRequest.isDestroy,
      VoicePackage.package]

theorem run_exited {s : ResponseHandler F} (h : s.exited = true) (os : List Outcome) :
    s.run os = some s := by
  cases os with
  | nil => rfl
  | cons o os => rw [run, if_pos h]

theorem run_request [LawfulCFloat F] {s : ResponseHandler F} (h : s.exited = false)
    (r : ClientRequest F) (os : List Outcome) :
    s.run (.ok r.message :: os) = ({ s with retry := 0 }.carryOut r).run os := by
  have hmessage : s.onOutcome (.ok r.message) = some ({ s with retry := 0 }.carryOut r) :=
    congrArg some (onMessage_message _ r)
  rw [run, if_neg (by rw [h]; exact Bool.false_ne_true), hmessage]
  rfl

theorem carryOut_pushed (s : ResponseHandler F) (r : ClientRequest F) :
    (s.carryOut r).pushed = s.pushed ++ r.package.toList := by
  cases r with
  | startProcessStream | stopProcessStream => exact (List.append_nil _).symm
  | setState | setSteer | syncVTWordList | destroy => rfl

theorem carryOut_exited {s : ResponseHandler F} (h : s.exited = false) (r : ClientRequest F) :
    (s.carryOut r).exited = r.isDestroy := by
  cases r with
  | destroy => rfl
  | startProcessStream | stopProcessStream | setState | setSteer | syncVTWordList => exact h

omit [CFloat F] in
/-- Two stretches of the thread are one. -/
theorem inBase_inBase {s s' : ResponseHandler F} {o : OnDestroy.State}
    {ps ps' : List (VoicePackage F)} (h : s.exited = false) :
    inBase (inBase o s ps) s' ps' = inBase o s' (ps ++ ps') := by
  simp [inBase, h, List.append_assoc]

/-- The messages of requests: the thread has pushed their packages, and the thread of
    the base can do the same. -/
theorem run_refines [LawfulCFloat F] {s : ResponseHandler F} {o : OnDestroy.State}
    (h : Beside s o) (rs : List (ClientRequest F)) : ∃ s',
      s.run (rs.map fun r => .ok r.message) = some s' ∧
      s'.pushed = s.pushed ++ ClientRequest.packages rs ∧
      ∃ os, exec OnDestroy.next o os = some (inBase o s' (ClientRequest.packages rs)) := by
  induction rs generalizing s o with
  | nil =>
    refine ⟨s, rfl, (List.append_nil _).symm, [], ?_⟩
    obtain ⟨hexited, hpolling, hstart, hexit⟩ := h
    simp [inBase, ClientRequest.packages, hexited, ← hstart, ← hexit, ← hpolling]
  | cons r rs ih =>
    have h₀ : Beside { s with retry := 0 } o := ⟨h.exited, h.polling, h.start, h.exit⟩
    obtain ⟨os, hos⟩ := exec_request h₀ r
    have hpushed : ({ s with retry := 0 }.carryOut r).pushed = s.pushed ++ r.package.toList :=
      carryOut_pushed _ r
    have hexited := carryOut_exited h₀.exited r
    rw [List.map_cons, run_request h.exited]
    generalize { s with retry := 0 }.carryOut r = s₁ at hos hpushed hexited
    rw [ClientRequest.packages]
    cases hdestroy : r.isDestroy with
    | true =>
      rw [hdestroy] at hexited
      rw [run_exited hexited, if_pos rfl, List.append_nil]
      exact ⟨s₁, rfl, hpushed, os, hos⟩
    | false =>
      rw [hdestroy] at hexited
      have h₁ : Beside s₁ (inBase o s₁ r.package.toList) :=
        ⟨hexited, by simp [inBase, hexited], rfl, rfl⟩
      obtain ⟨s', hs', hpushed', os', hos'⟩ := ih h₁
      rw [if_neg Bool.false_ne_true]
      refine ⟨s', hs', by rw [hpushed', hpushed, List.append_assoc], os ++ os', ?_⟩
      rw [exec_append, hos, Option.bind_some, hos', inBase_inBase hexited]

/-- Whatever the client asks for: the response thread pushes the packages of the requests
    it reads in their order, with their arguments, and the response thread of the base
    can do all that it does. -/
theorem requests_refine [LawfulCFloat F] {Pid : Type} {rs : List (ClientRequest F)}
    {os : List Outcome} (hos : ReadOf Pid (rs.map ClientRequest.message) os)
    {s : ResponseHandler F} {o : OnDestroy.State} (h : Beside s o) : ∃ s',
      s.run os = some s' ∧ s'.pushed = s.pushed ++ ClientRequest.packages rs ∧
      ∃ ls, exec OnDestroy.next o ls = some (inBase o s' (ClientRequest.packages rs)) := by
  rw [hos.eq, List.map_map]
  exact run_refines h rs

/-- Requests with the end among them. -/
def asked : List (ClientRequest Single) :=
  [.startProcessStream, .setState .r2ssp_state_awake, .setSteer (CFloat.ofBits 0x42340000)
    (CFloat.ofBits 0x3f800000), .destroy, .stopProcessStream]

/-- The body of the third message comes in pieces, and what follows `destroy` is left. -/
theorem requests_refine_asked : ∃ (w : Writers Unit) (s' : ResponseHandler Single),
    w.sent.map Sent.m = asked.map ClientRequest.message ∧
      ResponseHandler.new.run (pollAll 5 (fun _ _ => 0x80) [.chunk 31, .chunk 31, .chunk 3,
        .chunk 31, .chunk 0, .eagain, .chunk 2] w.wire) = some s' ∧
      s'.pushed = [.setState .r2ssp_state_awake, .setSteer (CFloat.ofBits 0x42340000)
        (CFloat.ofBits 0x3f800000), .destroy] ∧
      ∃ ls, exec OnDestroy.next OnDestroy.initial ls =
        some (inBase OnDestroy.initial s' (ClientRequest.packages asked)) := by
  obtain ⟨w, hw, hfree, hsent⟩ := Writers.exists_written Unit
    (asked.map fun r => ⟨r.message, fun _ => 0⟩)
  have hmessages : w.sent.map Sent.m = asked.map ClientRequest.message := by
    rw [hsent, List.map_map]
    rfl
  have hwhole : HeadersWhole (asked.map ClientRequest.message) [.chunk 31, .chunk 31, .chunk 3,
      .chunk 31, .chunk 0, .eagain, .chunk 2] := by
    simp [asked, HeadersWhole, ClientRequest.message, headerRead, read, sizeofMessage, afterBody]
  obtain ⟨s', hs', hpushed, hbase⟩ := requests_refine
    (.intro hwhole hw hfree hmessages fun _ _ => 0x80)
    (show Beside (ResponseHandler.new : ResponseHandler Single) OnDestroy.initial from
      ⟨rfl, rfl, rfl, rfl⟩)
  exact ⟨w, s', hmessages, hs', hpushed, hbase⟩

end ResponseHandler

end BlackSiren

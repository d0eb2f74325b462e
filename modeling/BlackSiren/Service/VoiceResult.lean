import BlackSiren.Channel.Message
import BlackSiren.Framework.Buffers
import BlackSiren.Legacy.Basic

/-! # `ProcessedVoiceResult`

    The base hands a result over as it lies in memory (of a 64-bit build): 72
    bytes of members and, right behind them, `size` bytes of data.

        0  size      12  hasSL     24  sl                     48  start
        4  debug     16  hasVoice  32  background_energy      52  end
        8  prop      20  hasVT     40  background_threshold   56  vt_energy
                                                              64  data

    `data` points into the memory of the base.  The proxy points it to the bytes
    behind the members again if there are any, and gives it to the callback under
    one of three flags.

    - `allocateProcessedVoiceResult` and the message of a result
    - `responseThread`: the event of a message
    - `responseThread_message`: the event of a result
-/

namespace BlackSiren

def SIREN_RESPONSE_MSG_ON_VOICE_EVENT : BitVec 32 := 15

def VOICE_MASK : BitVec 32 := 1
def SL_MASK : BitVec 32 := 2
def VT_MASK : BitVec 32 := 4

/-! ### Results -/

/-- `sizeof(ProcessedVoiceResult)` -/
def sizeofProcessedVoiceResult : Nat := 72

/-- The members of `ProcessedVoiceResult`, floating-point numbers as their
    bits. -/
@[ext] structure VoiceMembers where
  size : BitVec 32
  debug : BitVec 32
  prop : BitVec 32
  hasSL : BitVec 32
  hasVoice : BitVec 32
  hasVT : BitVec 32
  sl : BitVec 64
  background_energy : BitVec 64
  background_threshold : BitVec 64
  start : BitVec 32
  stop : BitVec 32
  vt_energy : BitVec 32
  /-- An address; zero is null. -/
  data : BitVec 64

/-- A result with the bytes behind its members. -/
structure ProcessedVoiceResult extends VoiceMembers where
  bytes : List UInt8
  sized : size.toNat = bytes.length
  fits : sizeofProcessedVoiceResult + bytes.length < 2 ^ 31

/-- A C `bool` or flag. -/
def flag (b : Bool) : BitVec 32 := if b then 1 else 0

namespace ProcessedVoiceResult

/-- `allocateProcessedVoiceResult`; `temp` is the address `new` gives. -/
def allocateProcessedVoiceResult (temp : BitVec 64) (size : Nat) (debug prop start stop : BitVec 32)
    (hasSL hasV hasVT : Bool) (sl energy threshold : BitVec 64) (vt_energy : BitVec 32) :
    Except Fault ProcessedVoiceResult :=
  if h : sizeofProcessedVoiceResult + size < 2 ^ 31 then
    .ok {
      size := BitVec.ofNat 32 size
      debug := debug
      prop := prop
      hasSL := flag hasSL
      hasVoice := flag hasV
      hasVT := flag hasVT
      sl := sl
      background_energy := energy
      background_threshold := threshold
      start := start
      stop := stop
      vt_energy := vt_energy
      data := if size = 0 then 0 else temp + BitVec.ofNat 64 sizeofProcessedVoiceResult
      -- `memset`
      bytes := List.replicate size 0
      sized := by
        rw [List.length_replicate, BitVec.toNat_ofNat]
        exact Nat.mod_eq_of_lt (by omega)
      fits := by rwa [List.length_replicate] }
  else .error .badAlloc

/-- `memcpy(p->data, src, n)` with all `n` bytes of `src`. -/
def memcpy (r : ProcessedVoiceResult) (src : List UInt8) : Except Fault ProcessedVoiceResult :=
  if h : 0 + src.length ≤ r.bytes.length then
    .ok { r with
      bytes := Buffers.store r.bytes 0 src
      sized := by rw [Buffers.length_store h, r.sized]
      fits := by rw [Buffers.length_store h]; exact r.fits }
  else .error .outOfBounds

theorem allocate_eq_ok {temp : BitVec 64} {size : Nat} {debug prop start stop : BitVec 32}
    {hasSL hasV hasVT : Bool} {sl energy threshold : BitVec 64} {vt_energy : BitVec 32}
    {r : ProcessedVoiceResult} (h : allocateProcessedVoiceResult temp size debug prop start stop
      hasSL hasV hasVT sl energy threshold vt_energy = .ok r) :
    r.prop = prop ∧ r.hasSL = flag hasSL ∧ r.hasVoice = flag hasV ∧ r.hasVT = flag hasVT ∧
      r.bytes.length = size := by
  unfold allocateProcessedVoiceResult at h
  split at h
  · cases h
    exact ⟨rfl, rfl, rfl, rfl, List.length_replicate⟩
  · cases h

theorem allocate_ok (temp : BitVec 64) {size : Nat} (debug prop start stop : BitVec 32)
    (hasSL hasV hasVT : Bool) (sl energy threshold : BitVec 64) (vt_energy : BitVec 32)
    (h : sizeofProcessedVoiceResult + size < 2 ^ 31) :
    ∃ r, allocateProcessedVoiceResult temp size debug prop start stop hasSL hasV hasVT sl energy
      threshold vt_energy = .ok r ∧ r.bytes.length = size := by
  unfold allocateProcessedVoiceResult
  rw [dif_pos h]
  exact ⟨_, rfl, List.length_replicate⟩

theorem memcpy_ok {r : ProcessedVoiceResult} {src : List UInt8}
    (h : src.length ≤ r.bytes.length) : ∃ r', r.memcpy src = .ok r' := by
  unfold memcpy
  rw [dif_pos (by omega)]
  exact ⟨_, rfl⟩

/-- A copy that fills the bytes leaves nothing else of them. -/
theorem memcpy_eq_ok {r r' : ProcessedVoiceResult} {src : List UInt8} (h : r.memcpy src = .ok r')
    (hsrc : r.bytes.length = src.length) :
    r'.toVoiceMembers = r.toVoiceMembers ∧ r'.bytes = src := by
  unfold memcpy at h
  split at h
  · cases h
    refine ⟨rfl, ?_⟩
    show Buffers.store r.bytes 0 src = src
    rw [Buffers.store, List.take_zero, List.nil_append, Nat.zero_add, ← hsrc, List.drop_length,
      List.append_nil]
  · cases h

end ProcessedVoiceResult

namespace VoiceMembers

/-- The members in memory; the hole behind `vt_energy` has been cleared. -/
def header (p : VoiceMembers) : List UInt8 :=
  Bytes.toLE 4 p.size.toNat ++ (Bytes.toLE 4 p.debug.toNat ++ (Bytes.toLE 4 p.prop.toNat ++
    (Bytes.toLE 4 p.hasSL.toNat ++ (Bytes.toLE 4 p.hasVoice.toNat ++
    (Bytes.toLE 4 p.hasVT.toNat ++ (Bytes.toLE 8 p.sl.toNat ++
    (Bytes.toLE 8 p.background_energy.toNat ++ (Bytes.toLE 8 p.background_threshold.toNat ++
    (Bytes.toLE 4 p.start.toNat ++ (Bytes.toLE 4 p.stop.toNat ++
    (Bytes.toLE 4 p.vt_energy.toNat ++ ([0, 0, 0, 0] ++ Bytes.toLE 8 p.data.toNat))))))))))))

/-- An integer of `n` bytes among those of a message. -/
def member (w : Nat) (bytes : List UInt8) (off n : Nat) : BitVec w :=
  BitVec.ofNat w (Bytes.ofLE ((bytes.drop off).take n))

/-- `(ProcessedVoiceResult *) msg->data` -/
def load (bytes : List UInt8) : VoiceMembers where
  size := member 32 bytes 0 4
  debug := member 32 bytes 4 4
  prop := member 32 bytes 8 4
  hasSL := member 32 bytes 12 4
  hasVoice := member 32 bytes 16 4
  hasVT := member 32 bytes 20 4
  sl := member 64 bytes 24 8
  background_energy := member 64 bytes 32 8
  background_threshold := member 64 bytes 40 8
  start := member 32 bytes 48 4
  stop := member 32 bytes 52 4
  vt_energy := member 32 bytes 56 4
  data := member 64 bytes 64 8

theorem length_header (p : VoiceMembers) : p.header.length = sizeofProcessedVoiceResult := by
  simp [header, sizeofProcessedVoiceResult]

theorem member_toLE {w n : Nat} {bytes : List UInt8} {off : Nat} {v : BitVec w}
    (hw : 256 ^ n = 2 ^ w) (h : (bytes.drop off).take n = Bytes.toLE n v.toNat) :
    member w bytes off n = v := by
  unfold member
  rw [h, Bytes.ofLE_toLE (hw ▸ v.isLt), BitVec.ofNat_toNat, BitVec.setWidth_eq]

/-- What has been stored is loaded again. -/
theorem load_header (p : VoiceMembers) (rest : List UInt8) : load (p.header ++ rest) = p := by
  have h32 : 256 ^ 4 = 2 ^ 32 := by decide
  have h64 : 256 ^ 8 = 2 ^ 64 := by decide
  unfold load
  ext1
  · exact member_toLE h32 rfl
  · exact member_toLE h32 rfl
  · exact member_toLE h32 rfl
  · exact member_toLE h32 rfl
  · exact member_toLE h32 rfl
  · exact member_toLE h32 rfl
  · exact member_toLE h64 rfl
  · exact member_toLE h64 rfl
  · exact member_toLE h64 rfl
  · exact member_toLE h32 rfl
  · exact member_toLE h32 rfl
  · exact member_toLE h32 rfl
  · exact member_toLE h64 rfl

end VoiceMembers

/-- What `processThreadHandler` writes for a result. -/
def ProcessedVoiceResult.message (r : ProcessedVoiceResult) : Message where
  msg := SIREN_RESPONSE_MSG_ON_VOICE_EVENT
  data := r.header ++ r.bytes
  fits := by
    rw [List.length_append, VoiceMembers.length_header]
    exact r.fits

/-! ### Events -/

/-- Where `buff` points. -/
inductive Buff where
  | null
  /-- To bytes of the message that is being dispatched. -/
  | here (bytes : List UInt8)
  /-- To an address of another process. -/
  | elsewhere (address : BitVec 64)
  deriving DecidableEq

def Buff.ofAddress (address : BitVec 64) : Buff :=
  if address = 0 then .null else .elsewhere address

/-- `voice_event_t`; the members of `vt` come after `background_threshold`. -/
structure VoiceEvent where
  event : BitVec 32
  length : BitVec 32
  flag : BitVec 32
  sl : BitVec 64
  background_energy : BitVec 64
  background_threshold : BitVec 64
  start : BitVec 32
  stop : BitVec 32
  energy : BitVec 32
  buff : Buff
  deriving DecidableEq

/-- The event of a result whose `data` points to `data`. -/
def VoiceMembers.event (p : VoiceMembers) (data : Buff) : VoiceEvent :=
  let voice_event : VoiceEvent := {
    event := p.prop
    length := p.size
    flag := 0
    sl := 0
    background_energy := p.background_energy
    background_threshold := p.background_threshold
    start := 0
    stop := 0
    energy := 0
    buff := .null }
  if p.hasSL = 1 then
    { voice_event with
      flag := SL_MASK
      sl := p.sl }
  else if p.hasVoice = 1 then
    { voice_event with
      flag := VOICE_MASK
      buff := data }
  else if p.hasVT = 1 then
    { voice_event with
      flag := VT_MASK
      start := p.start
      stop := p.stop
      energy := p.vt_energy
      buff := data }
  else voice_event

/-- The case of voice events in `responseThreadHandler`: the argument of
    `voice_event_callback`, or none. -/
def responseThread (msg : Message) : Except Fault (Option VoiceEvent) :=
  if msg.msg ≠ SIREN_RESPONSE_MSG_ON_VOICE_EVENT then .ok none
  -- `msg->data` is null
  else if msg.data = [] then .ok none
  else if msg.data.length < sizeofProcessedVoiceResult then .error .outOfBounds
  else
    let p := VoiceMembers.load msg.data
    let data :=
      if p.size ≠ 0 then .here (msg.data.drop sizeofProcessedVoiceResult)
      else Buff.ofAddress p.data
    .ok (some (p.event data))

/-- The event of a result: its `data` are the bytes behind the members. -/
def ProcessedVoiceResult.event (r : ProcessedVoiceResult) : VoiceEvent :=
  r.toVoiceMembers.event (if r.size ≠ 0 then .here r.bytes else Buff.ofAddress r.data)

/-- A result arrives as the event of its members and its bytes. -/
theorem responseThread_message (r : ProcessedVoiceResult) :
    responseThread r.message = .ok (some r.event) := by
  have hheader := r.length_header
  have hload : VoiceMembers.load r.message.data = r.toVoiceMembers := VoiceMembers.load_header _ _
  have hdrop : r.message.data.drop sizeofProcessedVoiceResult = r.bytes := by
    rw [← hheader]
    exact List.drop_left
  have hlength : r.message.data.length = sizeofProcessedVoiceResult + r.bytes.length := by
    rw [← hheader]
    exact List.length_append
  have hsize : 0 < sizeofProcessedVoiceResult := by decide
  have hmsg : r.message.msg = SIREN_RESPONSE_MSG_ON_VOICE_EVENT := rfl
  unfold responseThread
  rw [if_neg (not_not_intro hmsg), if_neg, if_neg (by omega), hload, hdrop]
  · rfl
  · intro hnil
    rw [hnil, List.length_nil] at hlength
    omega

namespace ProcessedVoiceResult

variable (r : ProcessedVoiceResult)

theorem size_eq_zero_iff : r.size = 0 ↔ r.bytes = [] := by
  rw [← List.length_eq_zero_iff, ← r.sized, ← BitVec.toNat_inj]
  rfl

theorem event_event : r.event.event = r.prop := by
  unfold event VoiceMembers.event
  split
  · rfl
  · split
    · rfl
    · split
      · rfl
      · rfl

theorem event_length : r.event.length = r.size := by
  unfold event VoiceMembers.event
  split
  · rfl
  · split
    · rfl
    · split
      · rfl
      · rfl

theorem event_voice (hsl : r.hasSL = 0) (hvoice : r.hasVoice = 1) (hsize : r.size ≠ 0) :
    r.event.flag = VOICE_MASK ∧ r.event.buff = .here r.bytes := by
  unfold event VoiceMembers.event
  rw [hsl, hvoice, if_neg (by decide), if_pos rfl, if_pos hsize]
  exact ⟨rfl, rfl⟩

theorem event_vt (hsl : r.hasSL = 0) (hvoice : r.hasVoice = 0) (hvt : r.hasVT = 1)
    (hsize : r.size ≠ 0) : r.event.flag = VT_MASK ∧ r.event.buff = .here r.bytes := by
  unfold event VoiceMembers.event
  rw [hsl, hvoice, hvt, if_neg (by decide), if_neg (by decide), if_pos rfl, if_pos hsize]
  exact ⟨rfl, rfl⟩

/-- Without a flag the bytes are not given to the callback. -/
theorem event_rest (hsl : r.hasSL = 0) (hvoice : r.hasVoice = 0) (hvt : r.hasVT = 0) :
    r.event.buff = .null := by
  unfold event VoiceMembers.event
  rw [hsl, hvoice, hvt, if_neg (by decide), if_neg (by decide), if_neg (by decide)]

end ProcessedVoiceResult

end BlackSiren

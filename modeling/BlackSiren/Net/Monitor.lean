import BlackSiren.Channel.Message
import BlackSiren.Framework.Memory

/-! # Events over the network

    `broadcast_siren_event` sends up to 32 bytes to every host of the network;
    the monitor thread hands what arrives to the client's callback.  Both sides
    check the length, an `int` of the message, against 32 from above only.

    - `UDPMessage`, with its bytes
    - `monitorThreadHandler`, `broadcast_siren_event`
    - `Exact`: what is wanted of both
    - `exact_iff`: when they do that
-/

namespace BlackSiren

/-! ### Messages -/

/-- `UDPMessage`: four bytes, an `int` and 32 bytes. -/
structure UDPMessage where
  magic : List UInt8
  len : Int
  data : List UInt8
  deriving DecidableEq

namespace UDPMessage

/-- `sizeof(UDPMessage)` -/
def size : Nat := 40

/-- The message as it lies in memory. -/
def bytes (msg : UDPMessage) : List UInt8 := msg.magic ++ Bytes.toLE32 msg.len ++ msg.data

def ofBytes (b : List UInt8) : UDPMessage where
  magic := b.take 4
  len := Bytes.ofLE32 ((b.drop 4).take 4)
  data := (b.drop 8).take 32

end UDPMessage

/-! ### The receiver -/

/-- `pollMessage` on a message of zeros: what `recvfrom` has got, if it has not
    failed. More than the message holds is cut off. -/
def pollMessage (received : Option (List UInt8)) : Option UDPMessage :=
  match received with
  | none => none
  | some datagram =>
      let got := datagram.take UDPMessage.size
      if got.length ≤ 0 then none
      else some (UDPMessage.ofBytes (got ++ List.replicate (UDPMessage.size - got.length) 0))

/-- A call of `net_event_callback`. -/
structure NetEvent where
  data : List UInt8
  len : Int
  deriving DecidableEq

/-- One turn of `monitorThreadHandler`. -/
def monitorTurn (received : Option (List UInt8)) : Option NetEvent :=
  match pollMessage received with
  | none => none
  | some msg =>
      if msg.magic ≠ magic ∨ msg.len > 32 then none
      else some ⟨msg.data, msg.len⟩

/-- `monitorThreadHandler`, once a callback has been set: the calls it makes. -/
def monitorThreadHandler (received : List (Option (List UInt8))) : List NetEvent :=
  received.filterMap monitorTurn

/-! ### The sender -/

/-- `sendMessage`: returns `SIREN_NET_OK` whether `sendto` has sent the datagram
    or not. -/
def sendMessage (msg : UDPMessage) (sendto : Bool) : Bool × Option (List UInt8) :=
  (true, if sendto then some msg.bytes else none)

/-- `broadcast_siren_event`: whether it returns `SIREN_STATUS_OK`, and the datagram
    it has sent. -/
def broadcast_siren_event (data : Memory.Block UInt8) (len : Int) (sendto : Bool) :
    Except Memory.Fault (Bool × Option (List UInt8)) := do
  if len > 32 then return (false, none)
  else
    let field ← Memory.memcpy ⟨32, fun _ => 0⟩ 0 data 0 len
    let (ok, sent) := sendMessage ⟨magic, len, Memory.window field.data 0 32⟩ sendto
    return (ok, sent)

/-! ### What is wanted -/

namespace Datagram

/-- A byte that is not there is zero. -/
def byte (d : List UInt8) (i : Nat) : UInt8 := d.getD i 0

/-- It starts with `aabb`. -/
def Opens (d : List UInt8) : Prop := d.take 4 = magic

instance (d : List UInt8) : Decidable (Opens d) := inferInstanceAs (Decidable (_ = _))

/-- The length it carries. -/
def len (d : List UInt8) : Int := Bytes.ofLE32 ((List.range 4).map fun i => byte d (4 + i))

/-- The data it carries. -/
def data (d : List UInt8) : List UInt8 := (List.range 32).map fun i => byte d (8 + i)

/-- The call it is to lead to. -/
def event (d : List UInt8) : Option NetEvent :=
  if Opens d ∧ 0 ≤ len d ∧ len d ≤ 32 then some ⟨data d, len d⟩ else none

end Datagram

/-- The callback is called for exactly the datagrams received that are to lead to a
    call; and a datagram that is sent has a length in range, and leads the receiver to
    a call with this length and these bytes. -/
def Exact (received : List (Option (List UInt8))) : Prop :=
  monitorThreadHandler received = received.filterMap (·.bind Datagram.event) ∧
    ∀ data len sendto ok d, broadcast_siren_event data len sendto = .ok (ok, some d) →
      0 ≤ len ∧ len ≤ 32 ∧ ∃ e, monitorThreadHandler [some d] = [e] ∧ e.len = len ∧
        e.data.take len.toNat = Memory.window data.data 0 len.toNat

/-! ### The receiver, datagram by datagram -/

open Datagram

theorem byte_of_le {d : List UInt8} {i : Nat} (h : d.length ≤ i) : byte d i = 0 :=
  List.getD_eq_default _ _ h

/-- The message as the receiver has it: bytes that are not there are zero. -/
theorem padded_eq (d : List UInt8) :
    d.take UDPMessage.size ++
        List.replicate (UDPMessage.size - (d.take UDPMessage.size).length) 0 =
      Memory.window (byte d) 0 UDPMessage.size := by
  apply List.ext_getElem
  · rw [List.length_append, List.length_replicate, Memory.length_window, List.length_take]
    omega
  · intro i _ hi
    rw [Memory.getElem_window, Nat.zero_add]
    have hsize : i < UDPMessage.size := by rwa [Memory.length_window] at hi
    by_cases hlt : i < d.length
    · have htake : i < (d.take UDPMessage.size).length := by rw [List.length_take]; omega
      rw [List.getElem_append_left htake, List.getElem_take]
      exact (List.getD_eq_getElem _ _ hlt).symm
    · have htake : (d.take UDPMessage.size).length ≤ i := by rw [List.length_take]; omega
      rw [List.getElem_append_right htake, List.getElem_replicate, byte_of_le (by omega)]

/-- What `pollMessage` has read. -/
theorem pollMessage_eq {d : List UInt8} (hd : d ≠ []) : pollMessage (some d) =
    some ⟨Memory.window (byte d) 0 4, Datagram.len d, Datagram.data d⟩ := by
  have hpos : 0 < d.length := List.length_pos_iff.mpr hd
  have hgot : ¬ (d.take UDPMessage.size).length ≤ 0 := by
    rw [List.length_take]
    have hsize : UDPMessage.size = 40 := rfl
    omega
  unfold pollMessage
  simp only [hgot, if_false]
  rw [padded_eq]
  unfold UDPMessage.ofBytes
  simp only [Memory.take_window, Memory.drop_window]
  rfl

/-- The first four bytes are compared with what is there, and zero is no letter. -/
theorem window_eq_magic_iff (d : List UInt8) : Memory.window (byte d) 0 4 = magic ↔ Opens d := by
  unfold Opens
  by_cases h : 4 ≤ d.length
  · have hwin : Memory.window (byte d) 0 4 = d.take 4 := by
      apply List.ext_getElem
      · rw [Memory.length_window, List.length_take]
        omega
      · intro i _ hi
        rw [List.length_take] at hi
        rw [Memory.getElem_window, Nat.zero_add, List.getElem_take]
        exact List.getD_eq_getElem _ _ (by omega)
    rw [hwin]
  · constructor
    · intro hw
      have hlast : (Memory.window (byte d) 0 4).getD 3 0 = magic.getD 3 0 := by rw [hw]
      have hbyte : (Memory.window (byte d) 0 4).getD 3 0 = byte d 3 := rfl
      rw [hbyte, byte_of_le (by omega)] at hlast
      exact absurd hlast (by decide)
    · intro ht
      have hlen : (d.take 4).length = magic.length := by rw [ht]
      rw [List.length_take] at hlen
      exact absurd hlen (by simp only [magic, List.length_cons, List.length_nil]; omega)

theorem not_opens_nil : ¬ Opens [] := by decide

/-- One turn: the length is checked from above. -/
theorem monitorTurn_some (d : List UInt8) : monitorTurn (some d) =
    if Opens d ∧ Datagram.len d ≤ 32 then some ⟨Datagram.data d, Datagram.len d⟩ else none := by
  by_cases hd : d = []
  · subst hd
    rw [if_neg fun h => not_opens_nil h.1]
    rfl
  · unfold monitorTurn
    rw [pollMessage_eq hd]
    simp only [ne_eq, window_eq_magic_iff]
    by_cases hgood : Opens d ∧ Datagram.len d ≤ 32
    · rw [if_pos hgood, if_neg]
      rintro (h | h)
      · exact h hgood.1
      · omega
    · rw [if_neg hgood, if_pos]
      by_contra hnot
      push Not at hnot
      exact hgood ⟨hnot.1, by omega⟩

/-- Whatever is to lead to a call does. -/
theorem event_eq_or (received : Option (List UInt8)) :
    received.bind event = monitorTurn received ∨ received.bind event = none := by
  cases received with
  | none => exact Or.inr rfl
  | some d =>
    rw [Option.bind_some, monitorTurn_some]
    unfold event
    by_cases h : Opens d ∧ 0 ≤ Datagram.len d ∧ Datagram.len d ≤ 32
    · rw [if_pos h, if_pos ⟨h.1, h.2.2⟩]
      exact Or.inl rfl
    · rw [if_neg h]
      exact Or.inr rfl

/-- The two agree on a datagram that does not open the message, or has no negative
    length. -/
theorem turn_eq_event_iff (d : List UInt8) :
    monitorTurn (some d) = event d ↔ (Opens d → 0 ≤ Datagram.len d) := by
  rw [monitorTurn_some]
  unfold event
  by_cases hopen : Opens d
  · by_cases hlen : 0 ≤ Datagram.len d
    · simp only [hopen, hlen, true_and, forall_const]
    · have hle : Datagram.len d ≤ 32 := by omega
      simp [hopen, hlen, hle]
  · simp only [hopen, false_and, if_false, false_implies]

/-! ### A run of the receiver -/

theorem length_filterMap_le {α β : Type} {f g : α → Option β} {l : List α}
    (h : ∀ a ∈ l, g a = f a ∨ g a = none) :
    (l.filterMap g).length ≤ (l.filterMap f).length := by
  induction l with
  | nil => exact le_refl _
  | cons a l ih =>
    have hrest := ih fun b hb => h b (List.mem_cons_of_mem _ hb)
    rcases h a List.mem_cons_self with hga | hga
    · rw [List.filterMap_cons, List.filterMap_cons, hga]
      cases f a with
      | none => exact hrest
      | some b => exact Nat.succ_le_succ hrest
    · rw [List.filterMap_cons_none hga, List.filterMap_cons]
      cases f a with
      | none => exact hrest
      | some b => exact Nat.le_succ_of_le hrest

/-- Two readings of a list, one of which drops some of what the other keeps, agree only
    if they agree everywhere. -/
theorem filterMap_eq_iff {α β : Type} {f g : α → Option β} {l : List α}
    (h : ∀ a ∈ l, g a = f a ∨ g a = none) :
    l.filterMap f = l.filterMap g ↔ ∀ a ∈ l, f a = g a := by
  constructor
  · intro heq
    induction l with
    | nil =>
      intro a ha
      cases ha
    | cons a l ih =>
      have htail : ∀ b ∈ l, g b = f b ∨ g b = none := fun b hb => h b (List.mem_cons_of_mem _ hb)
      have hhead : f a = g a := by
        rcases h a List.mem_cons_self with hga | hga
        · exact hga.symm
        · by_contra hne
          -- the left side would be longer
          obtain ⟨b, hb⟩ := Option.ne_none_iff_exists'.mp (hga ▸ hne : f a ≠ none)
          have hle : (l.filterMap g).length ≤ (l.filterMap f).length := length_filterMap_le htail
          rw [List.filterMap_cons_some hb, List.filterMap_cons_none hga] at heq
          have hlen := congrArg List.length heq
          rw [List.length_cons] at hlen
          omega
      have hrest : l.filterMap f = l.filterMap g := by
        rw [List.filterMap_cons, List.filterMap_cons, hhead] at heq
        cases hga : g a with
        | none => simpa only [hga] using heq
        | some b => simpa only [hga, List.cons.injEq, true_and] using heq
      intro b hb
      rcases List.mem_cons.mp hb with rfl | hb
      · exact hhead
      · exact ih htail hrest b hb
  · exact List.filterMap_congr

/-! ### The sender -/

/-- What a call that has sent a datagram has sent. -/
theorem broadcast_sent {data : Memory.Block UInt8} {len : Int} {sendto ok : Bool}
    {d : List UInt8} (h : broadcast_siren_event data len sendto = .ok (ok, some d)) :
    0 ≤ len ∧ len ≤ 32 ∧ ∃ field : List UInt8, field.length = 32 ∧
      field.take len.toNat = Memory.window data.data 0 len.toNat ∧
      d = UDPMessage.bytes ⟨magic, len, field⟩ := by
  unfold broadcast_siren_event at h
  by_cases hlen : len > 32
  · rw [if_pos hlen] at h
    cases h
  · rw [if_neg hlen] at h
    cases hcopy : Memory.memcpy ⟨32, fun _ => 0⟩ 0 data 0 len with
    | error e =>
      rw [hcopy] at h
      cases h
    | ok field =>
      rw [hcopy] at h
      obtain ⟨⟨hdst, hsrc⟩, hfield⟩ := Memory.memcpy_eq_ok_iff.mp hcopy
      obtain ⟨_, hnonneg, _⟩ := hdst
      refine ⟨hnonneg, by omega, Memory.window field.data 0 32, Memory.length_window, ?_, ?_⟩
      · rw [Memory.take_window, Nat.min_eq_left (by omega)]
        apply Memory.window_congr
        intro k hk
        subst hfield
        have hin : (0 : Int).toNat ≤ 0 + k ∧ 0 + k < (0 : Int).toNat + len.toNat := by
          rw [Int.toNat_zero]
          omega
        simp only [hin, and_self, if_true]
        rw [Int.toNat_zero, Nat.zero_add, Nat.sub_zero]
      · cases sendto with
        | false => cases h
        | true =>
          cases h
          rfl

/-- The receiver has what the sender has put into the message. -/
theorem monitorTurn_bytes {len : Int} (field : List UInt8) (hlo : 0 ≤ len) (hhi : len ≤ 32)
    (hfield : field.length = 32) :
    monitorTurn (some (UDPMessage.bytes ⟨magic, len, field⟩)) = some ⟨field, len⟩ := by
  have hsize : (UDPMessage.bytes ⟨magic, len, field⟩).length = UDPMessage.size := by
    show (magic ++ Bytes.toLE32 len ++ field).length = 40
    rw [List.length_append, List.length_append, Bytes.length_toLE32, hfield]
    rfl
  have hof : UDPMessage.ofBytes (UDPMessage.bytes ⟨magic, len, field⟩) = ⟨magic, len, field⟩ := by
    have hfirst : (Bytes.toLE32 len ++ field).take 4 = Bytes.toLE32 len :=
      List.take_left' (Bytes.length_toLE32 len)
    have hlast : (magic ++ Bytes.toLE32 len ++ field).drop 8 = field :=
      List.drop_left' (by rw [List.length_append, Bytes.length_toLE32]; rfl)
    have hmid : (magic ++ Bytes.toLE32 len ++ field).drop 4 = Bytes.toLE32 len ++ field := by
      rw [List.append_assoc]
      exact List.drop_left' rfl
    have hopen : (magic ++ Bytes.toLE32 len ++ field).take 4 = magic := by
      rw [List.append_assoc]
      exact List.take_left' rfl
    unfold UDPMessage.ofBytes UDPMessage.bytes
    simp only [hopen, hmid, hfirst, hlast]
    rw [Bytes.ofLE32_toLE32 (by omega) (by omega), ← hfield, List.take_length]
  have hpos : ¬ (UDPMessage.size ≤ 0) := by decide
  have hpoll : pollMessage (some (UDPMessage.bytes ⟨magic, len, field⟩)) =
      some ⟨magic, len, field⟩ := by
    unfold pollMessage
    simp only [List.take_of_length_le (le_of_eq hsize), hsize, hpos, if_false, Nat.sub_self,
      List.replicate_zero, List.append_nil, hof]
  unfold monitorTurn
  rw [hpoll]
  apply if_neg
  rintro (h | h)
  · exact h rfl
  · exact absurd hhi (not_le_of_gt h)

/-- What the sender does is as wanted whatever the receiver has got before. -/
theorem sender_exact {data : Memory.Block UInt8} {len : Int} {sendto ok : Bool} {d : List UInt8}
    (h : broadcast_siren_event data len sendto = .ok (ok, some d)) :
    0 ≤ len ∧ len ≤ 32 ∧ ∃ e, monitorThreadHandler [some d] = [e] ∧ e.len = len ∧
      e.data.take len.toNat = Memory.window data.data 0 len.toNat := by
  obtain ⟨hlo, hhi, field, hfield, htake, hd⟩ := broadcast_sent h
  have hturn := monitorTurn_bytes field hlo hhi hfield
  rw [← hd] at hturn
  refine ⟨hlo, hhi, ⟨field, len⟩, ?_, rfl, htake⟩
  unfold monitorThreadHandler
  rw [List.filterMap_cons_some hturn, List.filterMap_nil]

/-- The calls are as wanted exactly when no datagram that opens a message carries a
    negative length. -/
theorem exact_iff (received : List (Option (List UInt8))) :
    Exact received ↔ ∀ d, some d ∈ received → Opens d → 0 ≤ Datagram.len d := by
  have hreceiver : monitorThreadHandler received = received.filterMap (·.bind event) ↔
      ∀ d, some d ∈ received → Opens d → 0 ≤ Datagram.len d := by
    unfold monitorThreadHandler
    rw [filterMap_eq_iff fun got _ => event_eq_or got]
    constructor
    · intro h d hd
      exact (turn_eq_event_iff d).mp (h (some d) hd)
    · intro h got hgot
      cases got with
      | none => rfl
      | some d => exact (turn_eq_event_iff d).mpr (h d hgot)
  unfold Exact
  rw [hreceiver, and_iff_left]
  intro data len sendto ok d
  exact sender_exact

/-- Eight bytes that any host may send: the callback is given a length of -1. -/
theorem negative_not_exact :
    monitorThreadHandler [some (magic ++ [255, 255, 255, 255])] =
        [⟨List.replicate 32 0, -1⟩] ∧
      ¬ Exact [some (magic ++ [255, 255, 255, 255])] := by
  constructor
  · decide
  · intro h
    exact absurd h.1 (by decide)

end BlackSiren

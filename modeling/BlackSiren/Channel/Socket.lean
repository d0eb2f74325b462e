import BlackSiren.Channel.Message

/-! # `SirenSocketReader::pollMessage`

    The socket is a stream of bytes.  A read is given what is there, up to what
    it asks for, or less, or nothing for now (`EAGAIN`); `ReadEvent` is this
    choice, for all reads of a run.

    - `read`: one `read`
    - `readBody`: the loop that reads the data
    - `poll`: `pollMessage`; the header is read into a `Message` on the stack,
      of which the constructor has set the magic and nothing else
    - `pollAll`: one call after the other
-/

namespace BlackSiren

/-- What becomes of a read: nothing there for now, or at most `k + 1` bytes. -/
inductive ReadEvent where
  | eagain
  | chunk (k : Nat)
  deriving DecidableEq

/-- `read` of `n` bytes, of which `available` are there: the number of bytes
    read, none for `EAGAIN`. Without an event the read is given all it can. -/
def read (n available : Nat) : List ReadEvent → Option Nat × List ReadEvent
  | [] => (some (min n available), [])
  | .eagain :: script => (none, script)
  | .chunk k :: script => (some (min (k + 1) (min n available)), script)

/-- The loop over the reads of `need` bytes of data: the data, the events and
    the bytes left. When the stream ends first the loop does not. -/
def readBody : (need : Nat) → List ReadEvent → (avail : List UInt8) →
    Option ({b : List UInt8 // b.length = need} × List ReadEvent × List UInt8)
  -- `if (temp.len != 0)`
  | 0, script, avail => some (⟨[], rfl⟩, script, avail)
  | need + 1, [], avail =>
      if h : need + 1 ≤ avail.length then
        some (⟨avail.take (need + 1), List.length_take_of_le h⟩, [], avail.drop (need + 1))
      else none
  | need + 1, .eagain :: script, avail => readBody (need + 1) script avail
  | need + 1, .chunk k :: script, avail =>
      let t := min (k + 1) (min (need + 1) avail.length)
      if h : t = need + 1 then
        some (⟨avail.take (need + 1), List.length_take_of_le (by omega)⟩, script,
          avail.drop (need + 1))
      else
        (readBody (need + 1 - t) script (avail.drop t)).map fun r =>
          (⟨avail.take t ++ r.1.1, by
            rw [List.length_append, List.length_take_of_le (by omega), r.1.2]
            omega⟩, r.2)

/-- How a call of `pollMessage` ends, if it does. -/
inductive Outcome where
  /-- `SIREN_CHANNEL_OK` and the message. -/
  | ok (m : Message)
  /-- `SIREN_CHANNEL_MAGIC_ERROR` -/
  | magicError
  /-- The call does not return. -/
  | stuck
  /-- `len` is negative: `new` and `read` get sizes past the end of memory. -/
  | fault
  deriving DecidableEq

/-- `Message temp`: the constructor sets the magic, the rest is `junk`. -/
def fresh (junk : Nat → UInt8) : List UInt8 :=
  magic ++ (List.range 28).map fun i => junk (4 + i)

/-- `temp` after `t` bytes have been read into it. -/
def filled (junk : Nat → UInt8) (avail : List UInt8) (t : Nat) : List UInt8 :=
  avail.take t ++ (fresh junk).drop t

/-- The bytes that the read of a header gets. -/
def headerRead (script : List ReadEvent) (available : Nat) : Nat :=
  (read sizeofMessage available script).1.getD 0

/-- `pollMessage` after `epoll_wait` has found the socket readable. -/
def receive (junk : Nat → UInt8) (script : List ReadEvent) (avail : List UInt8) :
    Outcome × List ReadEvent × List UInt8 :=
  -- the result of the read is not looked at
  let t := headerRead script avail.length
  let script := (read sizeofMessage avail.length script).2
  let temp := filled junk avail t
  let avail := avail.drop t
  if !checkMagic temp then (.magicError, script, avail)
  else if hlen : (headerLen temp).msb then (.fault, script, avail)
  else
    match readBody (headerLen temp).toNat script avail with
    | none => (.stuck, script, avail)
    | some (data, script, avail) =>
        have hfits : data.1.length < 2 ^ 31 := by
          rw [data.2]
          exact BitVec.toNat_lt_of_msb_false (by simpa using hlen)
        (.ok ⟨headerMsg temp, data.1, hfits⟩, script, avail)

/-- `pollMessage`. With nothing to read `epoll_wait` waits, unless the peer has
    closed its end. -/
def poll (closed : Bool) (junk : Nat → UInt8) (script : List ReadEvent) (avail : List UInt8) :
    Outcome × List ReadEvent × List UInt8 :=
  if avail = [] ∧ closed = false then (.stuck, script, avail) else receive junk script avail

/-- The outcomes of `n` calls, the `i`-th with `junk i` on its stack; a call that
    does not return is the last. -/
def pollAll : Nat → (junk : Nat → Nat → UInt8) → List ReadEvent → List UInt8 → List Outcome
  | 0, _, _, _ => []
  | n + 1, junk, script, avail =>
      match poll false (junk 0) script avail with
      | (.stuck, _, _) => [.stuck]
      | (.fault, _, _) => [.fault]
      | (o, script, avail) => o :: pollAll n (fun i => junk (i + 1)) script avail

/-! ### The body -/

/-- The events left after `need` bytes of data. -/
def afterBody : Nat → List ReadEvent → List ReadEvent
  | 0, script => script
  | _ + 1, [] => []
  | need + 1, .eagain :: script => afterBody (need + 1) script
  | need + 1, .chunk k :: script =>
      if need ≤ k then script else afterBody (need - k) script

/-- The loop copes with every split: it reads its bytes if they are there. -/
theorem readBody_eq {need : Nat} {script : List ReadEvent} {avail : List UInt8}
    (h : need ≤ avail.length) :
    readBody need script avail =
      some (⟨avail.take need, List.length_take_of_le h⟩, afterBody need script,
        avail.drop need) := by
  induction script generalizing need avail with
  | nil =>
    cases need with
    | zero => rfl
    | succ need => simp [readBody, afterBody, h]
  | cons e script ih =>
    cases need with
    | zero => rfl
    | succ need =>
      cases e with
      | eagain => exact ih h
      | chunk k =>
        by_cases hk : need ≤ k
        · have ht : min (k + 1) (min (need + 1) avail.length) = need + 1 := by omega
          simp only [readBody, ht, dite_true, afterBody, hk, if_true]
        · have hrest : need + 1 - (k + 1) ≤ (avail.drop (k + 1)).length := by
            rw [List.length_drop]
            omega
          have hsplit : avail.take (k + 1) ++ (avail.drop (k + 1)).take (need - k) =
              avail.take (need + 1) := by
            rw [← List.take_add]
            congr 1
            omega
          have hdrop : (avail.drop (k + 1)).drop (need - k) = avail.drop (need + 1) := by
            rw [List.drop_drop]
            congr 1
            omega
          -- the subtype of the rest depends on what was read: generalise it
          have hloop : ∀ (t : Nat), t = k + 1 →
              ∀ hlen : ∀ b : {b : List UInt8 // b.length = need + 1 - t},
                (avail.take t ++ b.1).length = need + 1,
              (readBody (need + 1 - t) script (avail.drop t)).map
                  (fun r => (⟨avail.take t ++ r.1.1, hlen r.1⟩, r.2)) =
                some ((⟨avail.take (need + 1), List.length_take_of_le h⟩ :
                  {b : List UInt8 // b.length = need + 1}), afterBody (need - k) script,
                  avail.drop (need + 1)) := by
            rintro _ rfl hlen
            simp only [ih hrest, Option.map_some, Nat.add_sub_add_right, hsplit, hdrop]
          have ht : min (k + 1) (min (need + 1) avail.length) = k + 1 := by omega
          have hne : ¬ min (k + 1) (min (need + 1) avail.length) = need + 1 := by omega
          simp only [readBody, afterBody, hk, if_false]
          rw [dif_neg hne]
          refine hloop _ ht fun b => ?_
          rw [List.length_append, List.length_take_of_le (by omega), b.2]
          omega

/-- Without its bytes the loop never ends. -/
theorem readBody_eq_none {need : Nat} {script : List ReadEvent} {avail : List UInt8}
    (h : avail.length < need) : readBody need script avail = none := by
  induction script generalizing need avail with
  | nil =>
    obtain ⟨need, rfl⟩ : ∃ n, need = n + 1 := ⟨need - 1, by omega⟩
    have hnot : ¬ need + 1 ≤ avail.length := by omega
    simp only [readBody, hnot, dite_false]
  | cons e script ih =>
    obtain ⟨need, rfl⟩ : ∃ n, need = n + 1 := ⟨need - 1, by omega⟩
    cases e with
    | eagain => exact ih h
    | chunk k =>
      have hne : ¬ min (k + 1) (min (need + 1) avail.length) = need + 1 := by omega
      have hrest : (avail.drop (min (k + 1) (min (need + 1) avail.length))).length <
          need + 1 - min (k + 1) (min (need + 1) avail.length) := by
        rw [List.length_drop]
        omega
      simp only [readBody, hne, dite_false, ih hrest, Option.map_none]

/-! ### One call -/

theorem read_snd (n available : Nat) (script : List ReadEvent) :
    (read n available script).2 = script.tail := by
  cases script with
  | nil => rfl
  | cons e script => cases e <;> rfl

theorem headerRead_le (script : List ReadEvent) (available : Nat) :
    headerRead script available ≤ sizeofMessage ∧ headerRead script available ≤ available := by
  unfold headerRead
  cases script with
  | nil => exact ⟨Nat.min_le_left _ _, Nat.min_le_right _ _⟩
  | cons e script =>
    cases e with
    | eagain => exact ⟨Nat.zero_le _, Nat.zero_le _⟩
    | chunk k =>
      show min (k + 1) (min sizeofMessage available) ≤ _ ∧
        min (k + 1) (min sizeofMessage available) ≤ _
      omega

section

variable (junk : Nat → UInt8) {script : List ReadEvent} {avail : List UInt8} {t : Nat}

theorem receive_magicError (ht : headerRead script avail.length = t)
    (h : checkMagic (filled junk avail t) = false) :
    receive junk script avail = (.magicError, script.tail, avail.drop t) := by
  subst ht
  simp [receive, read_snd, h]

theorem receive_fault (ht : headerRead script avail.length = t)
    (h : checkMagic (filled junk avail t) = true)
    (hlen : (headerLen (filled junk avail t)).msb = true) :
    receive junk script avail = (.fault, script.tail, avail.drop t) := by
  subst ht
  simp [receive, read_snd, h, hlen]

theorem receive_stuck (ht : headerRead script avail.length = t)
    (h : checkMagic (filled junk avail t) = true)
    (hlen : (headerLen (filled junk avail t)).msb = false)
    (hbody : (avail.drop t).length < (headerLen (filled junk avail t)).toNat) :
    receive junk script avail = (.stuck, script.tail, avail.drop t) := by
  subst ht
  simp only [receive, read_snd, h, hlen, Bool.not_true, Bool.false_eq_true, if_false, dite_false,
    readBody_eq_none hbody]

/-- With its bytes there, the data is what follows the header. -/
theorem receive_ok (ht : headerRead script avail.length = t)
    (h : checkMagic (filled junk avail t) = true) (m : Message)
    (hmsg : headerMsg (filled junk avail t) = m.msg)
    (hlen : headerLen (filled junk avail t) = BitVec.ofNat 32 m.data.length)
    (hbody : m.data.length ≤ (avail.drop t).length)
    (hdata : (avail.drop t).take m.data.length = m.data) :
    receive junk script avail = (.ok m, afterBody m.data.length script.tail,
      (avail.drop t).drop m.data.length) := by
  subst ht
  have hneed : (headerLen (filled junk avail (headerRead script avail.length))).toNat =
      m.data.length := by
    have hfits := m.fits
    rw [hlen, BitVec.toNat_ofNat, Nat.mod_eq_of_lt (by omega)]
  have hmsb : (headerLen (filled junk avail (headerRead script avail.length))).msb = false := by
    have hfits := m.fits
    rw [BitVec.msb_eq_decide, decide_eq_false_iff_not, hneed]
    omega
  simp only [receive, read_snd, h, hmsb, Bool.not_true, Bool.false_eq_true, if_false, dite_false,
    readBody_eq (hneed.trans_le hbody)]
  refine Prod.ext (congrArg Outcome.ok (Message.ext hmsg ?_)) (Prod.ext ?_ ?_)
  · show (avail.drop _).take (headerLen _).toNat = m.data
    rw [hneed]
    exact hdata
  · show afterBody (headerLen _).toNat script.tail = _
    rw [hneed]
  · show (avail.drop _).drop (headerLen _).toNat = _
    rw [hneed]

end

/-! ### The temporary -/

theorem take4_filled {avail : List UInt8} {t : Nat} (ht : t ≤ avail.length)
    (junk : Nat → UInt8) :
    (filled junk avail t).take 4 = avail.take (min t 4) ++ magic.drop (min t 4) := by
  have hfresh : (fresh junk).take 4 = magic := rfl
  have htake : (avail.take t).length = t := List.length_take_of_le ht
  unfold filled
  by_cases h4 : 4 ≤ t
  · rw [List.take_append_of_le_length (by omega), List.take_take, Nat.min_comm 4 t,
      Nat.min_eq_right h4]
    show _ = avail.take 4 ++ []
    rw [List.append_nil]
  · rw [Nat.min_eq_left (by omega), List.take_append, htake, List.take_of_length_le (by omega),
      ← List.drop_take, hfresh]

/-- A read that gets few bytes or none leaves the constructor's magic: the check
    is of the bytes that were read. -/
theorem checkMagic_filled_iff {avail : List UInt8} {t : Nat} (ht : t ≤ avail.length)
    (junk : Nat → UInt8) :
    checkMagic (filled junk avail t) = true ↔ avail.take (min t 4) = magic.take (min t 4) := by
  unfold checkMagic
  rw [beq_iff_eq, take4_filled ht]
  constructor
  · intro h
    have hsplit := h.trans (List.take_append_drop (min t 4) magic).symm
    exact List.append_cancel_right hsplit
  · intro h
    rw [h, List.take_append_drop]

theorem checkMagic_filled {avail : List UInt8} (h : avail.take 4 = magic) (junk : Nat → UInt8)
    {t : Nat} (ht : t ≤ avail.length) : checkMagic (filled junk avail t) = true := by
  rw [checkMagic_filled_iff ht, ← h, List.take_take]
  congr 1
  omega

/-- A read that stops before the end of `len` leaves its last byte to chance. -/
theorem filled_len (junk : Nat → UInt8) {avail : List UInt8} {t : Nat} (ht : t ≤ 15)
    (havail : t ≤ avail.length) : (filled junk avail t)[15]? = some (junk 15) := by
  have htake : (avail.take t).length = t := List.length_take_of_le havail
  unfold filled
  rw [List.getElem?_append_right (by omega), htake, List.getElem?_drop, Nat.add_sub_cancel' ht]
  rfl

/-- A read that gets the first half gets all that matters. -/
theorem filled_prefix {t : Nat} (ht : 16 ≤ t) (junk : Nat → UInt8) (avail : List UInt8) :
    ∃ b, filled junk avail t = avail.take 16 ++ b := by
  refine ⟨(avail.drop 16).take (t - 16) ++ (fresh junk).drop t, ?_⟩
  unfold filled
  rw [← List.append_assoc, ← List.take_add, Nat.add_sub_cancel' ht]

end BlackSiren

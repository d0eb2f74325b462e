import BlackSiren.Channel.Socket

/-! # The end of the stream

    Once the peer has closed its end a read gets 0 bytes.  The read of a header
    does not notice, and the constructor's magic passes the check; the loop over
    the data does not end.
-/

namespace BlackSiren

/-- A call at the stream `buf`, whose end is closed, returns, and with a message
    only if it has read the whole header, with its magic, and the whole data. -/
def WholeOrError (script : List ReadEvent) (buf : List UInt8) : Prop :=
  ∀ junk, (poll true junk script buf).1 ≠ .stuck ∧ (poll true junk script buf).1 ≠ .fault ∧
    ∀ m, (poll true junk script buf).1 = .ok m →
      headerRead script buf.length = sizeofMessage ∧ buf.take 4 = magic ∧
        m.msg = headerMsg buf ∧ BitVec.ofNat 32 m.data.length = headerLen buf ∧
        m.data <+: buf.drop sizeofMessage

/-- Either what the read of the header gets is not the beginning of the magic, or
    it gets the header, with a length that is not negative and all its data on
    the stream. -/
def EndsClean (script : List ReadEvent) (buf : List UInt8) : Prop :=
  buf.take (min (headerRead script buf.length) 4) ≠
      magic.take (min (headerRead script buf.length) 4) ∨
    headerRead script buf.length = sizeofMessage ∧ (headerLen buf).msb = false ∧
      sizeofMessage + (headerLen buf).toNat ≤ buf.length

/-- The first half of the header, if it is there, is what is looked at. -/
theorem fields_filled {buf : List UInt8} {t : Nat} (h16 : 16 ≤ t) (ht : t ≤ buf.length)
    (junk : Nat → UInt8) :
    headerMsg (filled junk buf t) = headerMsg buf ∧
      headerLen (filled junk buf t) = headerLen buf := by
  obtain ⟨b, hb⟩ := filled_prefix h16 junk buf
  have hlen : (buf.take 16).length = 16 := List.length_take_of_le (by omega)
  have hmsg := headerMsg_append (a := buf.take 16) (b := buf.drop 16) (by omega)
  have hlen' := headerLen_append (a := buf.take 16) (b := buf.drop 16) (by omega)
  rw [List.take_append_drop] at hmsg hlen'
  rw [hb, headerMsg_append (by omega), headerLen_append (by omega)]
  exact ⟨hmsg.symm, hlen'.symm⟩

/-- With the first half of a header read and the data there, the call gets a
    message. -/
theorem receive_message {junk : Nat → UInt8} {script : List ReadEvent} {buf : List UInt8} {t : Nat}
    (ht : headerRead script buf.length = t) (h16 : 16 ≤ t)
    (hcheck : checkMagic (filled junk buf t) = true) (hmsb : (headerLen buf).msb = false)
    (hroom : (headerLen buf).toNat ≤ (buf.drop t).length) :
    ∃ m : Message, (receive junk script buf).1 = .ok m ∧ m.msg = headerMsg buf ∧
      m.data = (buf.drop t).take (headerLen buf).toNat ∧
      m.data.length = (headerLen buf).toNat := by
  have hle : t ≤ buf.length := by
    rw [← ht]
    exact (headerRead_le script buf.length).2
  obtain ⟨hmsg, hlen⟩ := fields_filled h16 hle junk
  have hcount : ((buf.drop t).take (headerLen buf).toNat).length = (headerLen buf).toNat :=
    List.length_take_of_le hroom
  let m : Message := ⟨headerMsg buf, (buf.drop t).take (headerLen buf).toNat, by
    rw [hcount]
    exact BitVec.toNat_lt_of_msb_false hmsb⟩
  have hmlen : m.data.length = (headerLen buf).toNat := hcount
  have hok := receive_ok junk ht hcheck m hmsg
    (by rw [hlen, hmlen, BitVec.ofNat_toNat, BitVec.setWidth_eq])
    (by rw [hmlen]; exact hroom) (by rw [hmlen])
  refine ⟨m, ?_, rfl, rfl, hmlen⟩
  rw [hok]

theorem poll_closed (junk : Nat → UInt8) (script : List ReadEvent) (buf : List UInt8) :
    poll true junk script buf = receive junk script buf := by
  unfold poll
  rw [if_neg (by simp)]

/-- Junk whose bytes make a cut length negative shows what has not been read. -/
theorem endsClean_of_wholeOrError {script : List ReadEvent} {buf : List UInt8}
    (h : WholeOrError script buf) : EndsClean script buf := by
  obtain ⟨_, hle⟩ := headerRead_le script buf.length
  by_cases hmagic : buf.take (min (headerRead script buf.length) 4) =
      magic.take (min (headerRead script buf.length) 4)
  · right
    have hcheck : ∀ junk, checkMagic (filled junk buf (headerRead script buf.length)) = true :=
      fun junk => (checkMagic_filled_iff hle junk).mpr hmagic
    obtain ⟨hstuck, hfault, hok⟩ := h fun _ => 0x80
    rw [poll_closed] at hstuck hfault hok
    -- a header cut before the length would be a fault
    have h16 : 16 ≤ headerRead script buf.length := by
      by_contra hlt
      have hbyte := filled_len (fun _ => 0x80) (by omega) hle
      rw [receive_fault _ rfl (hcheck _) (headerLen_negative hbyte)] at hfault
      exact hfault rfl
    obtain ⟨_, hlen⟩ := fields_filled h16 hle fun _ => 0x80
    -- and so would a negative length
    have hmsb : (headerLen buf).msb = false := by
      by_contra hneg
      rw [Bool.not_eq_false] at hneg
      rw [receive_fault _ rfl (hcheck _) (by rw [hlen]; exact hneg)] at hfault
      exact hfault rfl
    by_cases hroom : (headerLen buf).toNat ≤
        (buf.drop (headerRead script buf.length)).length
    · obtain ⟨m, hm, _⟩ := receive_message rfl h16 (hcheck fun _ => 0x80) hmsb hroom
      obtain ⟨hread, _⟩ := hok m hm
      rw [List.length_drop, hread] at hroom
      exact ⟨hread, hmsb, by omega⟩
    · -- the body never comes
      have hstuck' := receive_stuck _ rfl (hcheck _) (by rw [hlen]; exact hmsb)
        (by rw [hlen]; omega)
      rw [hstuck'] at hstuck
      exact absurd rfl hstuck
  · exact .inl hmagic

theorem wholeOrError_of_endsClean {script : List ReadEvent} {buf : List UInt8}
    (hclean : EndsClean script buf) : WholeOrError script buf := by
  intro junk
  obtain ⟨_, hle⟩ := headerRead_le script buf.length
  rw [poll_closed]
  cases hcheck : checkMagic (filled junk buf (headerRead script buf.length)) with
  | false =>
    rw [receive_magicError _ rfl hcheck]
    refine ⟨?_, ?_, ?_⟩
    · intro hstuck
      cases hstuck
    · intro hfault
      cases hfault
    · intro m hm
      cases hm
  | true =>
    have hagrees := (checkMagic_filled_iff hle junk).mp hcheck
    rcases hclean with hmagic | ⟨hread, hmsb, hroom⟩
    · exact absurd hagrees hmagic
    · rw [hread] at hagrees
      have hroom' : (headerLen buf).toNat ≤
          (buf.drop (headerRead script buf.length)).length := by
        rw [List.length_drop, hread]
        omega
      obtain ⟨m, hm, hmsg, hdata, hlen⟩ :=
        receive_message rfl (by rw [hread]; decide) hcheck hmsb hroom'
      rw [hm]
      refine ⟨?_, ?_, ?_⟩
      · intro hstuck
        cases hstuck
      · intro hfault
        cases hfault
      · intro m' hm'
        cases hm'
        refine ⟨hread, hagrees, hmsg, ?_, ?_⟩
        · rw [hlen, BitVec.ofNat_toNat, BitVec.setWidth_eq]
        · rw [hdata, hread]
          exact List.take_prefix _ _

/-- A call at the end of a stream does what it should exactly if the stream ends
    clean for it. -/
theorem wholeOrError_iff (script : List ReadEvent) (buf : List UInt8) :
    WholeOrError script buf ↔ EndsClean script buf := by
  constructor
  · exact endsClean_of_wholeOrError
  · exact wholeOrError_of_endsClean

/-- At the very end a call returns a message that nobody sent, if the stack holds
    zeros. -/
theorem end_not_wholeOrError : ¬ ∀ script buf, WholeOrError script buf := by
  intro hall
  obtain ⟨_, _, hok⟩ := hall [] [] fun _ => 0
  obtain ⟨hread, _⟩ := hok ⟨0, [], by decide⟩ (by decide)
  exact absurd hread (by decide)

end BlackSiren

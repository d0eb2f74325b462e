import BlackSiren.Channel.Socket
import BlackSiren.Channel.Writers

/-! # Delivery over the socket

    The loop over the data puts together whatever the socket gives, but the
    header is read once and taken for whole.  So a sequence of messages arrives
    as it was sent exactly if each header comes in one read (`HeadersWhole`).
    Otherwise what is left of the header is read as data, or `len` is what the
    stack held.
-/

namespace BlackSiren

/-- The reads of all headers are whole. Nobody reads on after the last message,
    so the second half of its header may stay behind if it has no data. -/
def HeadersWhole : List Message → List ReadEvent → Prop
  | [], _ => True
  | m :: ms, script =>
      headerRead script sizeofMessage = sizeofMessage ∧
          HeadersWhole ms (afterBody m.data.length script.tail) ∨
        16 ≤ headerRead script sizeofMessage ∧ m.data = [] ∧ ms = []

/-! ### The call at the beginning of a message -/

theorem headerRead_of_le {available : Nat} (h : sizeofMessage ≤ available)
    (script : List ReadEvent) :
    headerRead script available = headerRead script sizeofMessage := by
  unfold headerRead
  cases script with
  | nil => simp [read, h]
  | cons e script =>
    cases e with
    | eagain => rfl
    | chunk k => simp [read, h]

namespace Message

variable (m : Message) (spare : Nat → UInt8) (rest : List UInt8)

theorem length_bytes : (m.bytes spare).length = sizeofMessage + m.data.length := by
  simp [bytes]

theorem bytes_append : m.bytes spare ++ rest =
    m.prefix16 spare ++ ((List.range 16).map (fun i => spare (16 + i)) ++ (m.data ++ rest)) := by
  simp [bytes, header]

theorem take4_bytes : (m.bytes spare ++ rest).take 4 = magic := rfl

theorem take16_bytes : (m.bytes spare ++ rest).take 16 = m.prefix16 spare := by
  rw [bytes_append, List.take_append_of_le_length (by simp), List.take_of_length_le (by simp)]

theorem drop_bytes : (m.bytes spare ++ rest).drop sizeofMessage = m.data ++ rest := by
  unfold bytes
  rw [List.append_assoc, List.drop_left' (m.length_header spare)]

/-- In the second half of a header no field is set. -/
theorem getElem?_bytes {k : Nat} (hlo : 16 ≤ k) (hhi : k < sizeofMessage) :
    (m.bytes spare ++ rest)[k]? = some (spare k) := by
  have hhi' : k < 32 := hhi
  rw [bytes_append, List.getElem?_append_right (by simpa using hlo), length_prefix16,
    List.getElem?_append_left (by simp; omega), List.getElem?_map, List.getElem?_range (by omega),
    Option.map_some, Nat.add_sub_cancel' hlo]

end Message

section

variable (m : Message) (spare junk : Nat → UInt8) {script : List ReadEvent} (rest : List UInt8)

theorem headerRead_bytes :
    headerRead script (m.bytes spare ++ rest).length = headerRead script sizeofMessage := by
  apply headerRead_of_le
  rw [List.length_append, m.length_bytes]
  omega

/-- A header read up to somewhere inside `len`, and a stack that makes the length
    negative. -/
theorem receive_len_cut (ht : headerRead script sizeofMessage ≤ 15) (hjunk : junk 15 = 0x80) :
    (receive junk script (m.bytes spare ++ rest)).1 = .fault := by
  have hread : headerRead script (m.bytes spare ++ rest).length = headerRead script sizeofMessage :=
    headerRead_bytes m spare rest
  have hlen := (headerRead_le script (m.bytes spare ++ rest).length).2
  rw [hread] at hlen
  have hbyte := filled_len junk ht hlen
  rw [hjunk] at hbyte
  rw [receive_fault junk hread (checkMagic_filled (m.take4_bytes spare rest) junk hlen)
    (headerLen_negative hbyte)]

/-- A header read at least to the end of `len`: the message comes with the data
    that follows what has been read. -/
theorem receive_len_read {t : Nat} (ht : headerRead script sizeofMessage = t) (h16 : 16 ≤ t) :
    ∃ m' : Message, m'.msg = m.msg ∧
      m'.data = ((m.bytes spare ++ rest).drop t).take m.data.length ∧
      receive junk script (m.bytes spare ++ rest) = (.ok m', afterBody m.data.length script.tail,
        ((m.bytes spare ++ rest).drop t).drop m.data.length) := by
  have ht32 : t ≤ sizeofMessage := by
    rw [← ht]
    exact (headerRead_le script sizeofMessage).1
  have hread : headerRead script (m.bytes spare ++ rest).length = t := by
    rw [headerRead_bytes, ht]
  have hle : t ≤ (m.bytes spare ++ rest).length := by
    rw [← hread]
    exact (headerRead_le script _).2
  have hroom : m.data.length ≤ ((m.bytes spare ++ rest).drop t).length := by
    rw [List.length_drop, List.length_append, m.length_bytes]
    omega
  have hdata : (((m.bytes spare ++ rest).drop t).take m.data.length).length = m.data.length :=
    List.length_take_of_le hroom
  have hfits := m.fits
  -- the body begins where the header stopped
  let m' : Message := ⟨m.msg, ((m.bytes spare ++ rest).drop t).take m.data.length, by
    rw [hdata]
    exact hfits⟩
  have hlen' : m'.data.length = m.data.length := hdata
  obtain ⟨b, hb⟩ := filled_prefix h16 junk (m.bytes spare ++ rest)
  rw [m.take16_bytes] at hb
  refine ⟨m', rfl, rfl, ?_⟩
  have hok := receive_ok junk hread
    (checkMagic_filled (m.take4_bytes spare rest) junk hle) m' ?_ ?_ ?_ ?_
  · rw [hlen'] at hok
    exact hok
  · rw [hb, headerMsg_append (by simp), m.headerMsg_prefix16]
  · rw [hb, headerLen_append (by simp), m.headerLen_prefix16, hlen']
  · rw [hlen']
    exact hroom
  · rw [hlen']

/-- A whole header: the message comes as it was sent, and the next one is next. -/
theorem receive_whole (h : headerRead script sizeofMessage = sizeofMessage) :
    receive junk script (m.bytes spare ++ rest) =
      (.ok m, afterBody m.data.length script.tail, rest) := by
  obtain ⟨m', hmsg, hdata, hrec⟩ := receive_len_read m spare junk rest h (by decide)
  rw [m.drop_bytes, List.take_left' rfl] at hdata
  rw [m.drop_bytes, List.drop_left' rfl] at hrec
  rw [hrec, Message.ext hmsg hdata]

/-- With something to read the call does not wait. -/
theorem poll_bytes (closed : Bool) : poll closed junk script (m.bytes spare ++ rest) =
    receive junk script (m.bytes spare ++ rest) := by
  have hne : m.bytes spare ++ rest ≠ [] := by
    intro hnil
    have hlen := congrArg List.length hnil
    rw [List.length_append, m.length_bytes] at hlen
    have hsize : sizeofMessage = 32 := rfl
    simp only [List.length_nil] at hlen
    omega
  unfold poll
  rw [if_neg fun h => hne h.1]

end

/-! ### All calls -/

theorem pollAll_head (n : Nat) (junk : Nat → Nat → UInt8) (script : List ReadEvent)
    (avail : List UInt8) :
    (pollAll (n + 1) junk script avail).head? = some (poll false (junk 0) script avail).1 := by
  unfold pollAll
  split
  · next h => rw [h]; rfl
  · next h => rw [h]; rfl
  · next h => rw [h]; rfl

theorem pollAll_ok (n : Nat) (junk : Nat → Nat → UInt8) {script script' : List ReadEvent}
    {avail avail' : List UInt8} {m : Message}
    (h : poll false (junk 0) script avail = (.ok m, script', avail')) :
    pollAll (n + 1) junk script avail =
      .ok m :: pollAll n (fun i => junk (i + 1)) script' avail' := by
  rw [pollAll, h]

theorem ne_succ (b : UInt8) : b ≠ b + 1 := by
  intro h
  have hnat := congrArg UInt8.toNat h
  rw [UInt8.toNat_add] at hnat
  have hone : (1 : UInt8).toNat = 1 := rfl
  have hlt := b.toNat_lt
  omega

/-- A call that finds a zero byte, and the sign of a negative `len` on its stack,
    gets no message. -/
theorem poll_left {script : List ReadEvent} {avail : List UInt8} (h : avail[0]? = some 0)
    (m : Message) : (poll false (fun _ => 0x80) script avail).1 ≠ .ok m := by
  obtain ⟨rest, rfl⟩ : ∃ rest, avail = 0 :: rest := by
    cases avail with
    | nil => cases h
    | cons b rest => exact ⟨rest, congrArg (· :: rest) (Option.some.inj h)⟩
  unfold poll
  rw [if_neg fun hnil => List.cons_ne_nil _ _ hnil.1]
  by_cases hnone : headerRead script (0 :: rest).length = 0
  · -- nothing is read, and the constructor's magic passes
    have hfault := receive_fault (fun _ => 0x80) hnone rfl (headerLen_negative rfl)
    rw [hfault]
    intro hm
    cases hm
  · obtain ⟨t, ht⟩ : ∃ t, headerRead script (0 :: rest).length = t + 1 :=
      ⟨headerRead script (0 :: rest).length - 1, by omega⟩
    have hmagic := receive_magicError (fun _ => 0x80) ht rfl
    rw [hmagic]
    intro hm
    cases hm

/-- The calls return the messages `ms` from any stream on which they have been
    written, whatever their headers hold besides and whatever is on the stack. -/
def Delivers (ms : List Message) (script : List ReadEvent) : Prop :=
  ∀ (l : List Sent) (junk : Nat → Nat → UInt8), l.map Sent.m = ms →
    pollAll ms.length junk script (l.flatMap Sent.bytes) = ms.map .ok

section CutHeader

variable {m : Message} {ms : List Message} {script : List ReadEvent}

/-- Each byte that no field sets is `b`, and a `len` on the stack is negative. -/
theorem Delivers.filled (h : Delivers (m :: ms) script) (b : UInt8) :
    pollAll (m :: ms).length (fun _ _ => 0x80) script
      (m.bytes (fun _ => b) ++ ms.flatMap fun m => m.bytes fun _ => b) = (m :: ms).map .ok := by
  have hb := h ((m :: ms).map fun m => ⟨m, fun _ => b⟩) (fun _ _ => 0x80)
    (by rw [List.map_map]; exact List.map_id _)
  rw [List.flatMap_map] at hb
  exact hb

theorem Delivers.first (h : Delivers (m :: ms) script) (b : UInt8) :
    (receive (fun _ => 0x80) script
      (m.bytes (fun _ => b) ++ ms.flatMap fun m => m.bytes fun _ => b)).1 = .ok m := by
  have hhead := congrArg List.head? (h.filled b)
  rw [List.length_cons, pollAll_head, poll_bytes] at hhead
  exact Option.some.inj hhead

/-- Without its `len` a header does not give the message. -/
theorem Delivers.len_read (h : Delivers (m :: ms) script) :
    16 ≤ headerRead script sizeofMessage := by
  by_contra hlt
  have hbad := h.first 0
  rw [receive_len_cut m _ _ _ (by omega) rfl] at hbad
  cases hbad

/-- The data would begin with what is left of the header. -/
theorem Delivers.no_data (hcut : headerRead script sizeofMessage < sizeofMessage)
    (h : Delivers (m :: ms) script) : m.data = [] := by
  have h16 := h.len_read
  cases hdata : m.data with
  | nil => rfl
  | cons b bs =>
    have hok := h.first (b + 1)
    obtain ⟨m', _, hdata', hrec⟩ := receive_len_read m (fun _ => b + 1) (fun _ => 0x80)
      (ms.flatMap fun m => m.bytes fun _ => b + 1) rfl h16
    have hm : m' = m := by
      rw [hrec] at hok
      exact Outcome.ok.inj hok
    have hbyte := m.getElem?_bytes (fun _ => b + 1)
      (ms.flatMap fun m => m.bytes fun _ => b + 1) h16 hcut
    rw [hm, hdata, List.length_cons] at hdata'
    have hhead := congrArg List.head? hdata'
    rw [List.head?_cons, List.head?_take, if_neg (by omega), List.head?_drop, hbyte] at hhead
    exact absurd (Option.some.inj hhead) (ne_succ b)

/-- The next call would find what is left of the header. -/
theorem Delivers.last (hcut : headerRead script sizeofMessage < sizeofMessage)
    (h : Delivers (m :: ms) script) : ms = [] := by
  have h16 := h.len_read
  have hdata := h.no_data hcut
  cases ms with
  | nil => rfl
  | cons m₂ ms =>
    obtain ⟨m', hmsg, hdata', hrec⟩ := receive_len_read m (fun _ => 0) (fun _ => 0x80)
      ((m₂ :: ms).flatMap fun m => m.bytes fun _ => 0) rfl h16
    rw [hdata, List.length_nil, List.take_zero] at hdata'
    have hm : m' = m := Message.ext hmsg (by rw [hdata', hdata])
    rw [hm, hdata, List.length_nil, List.drop_zero] at hrec
    have hpoll : poll false (fun _ => 0x80) script
        (m.bytes (fun _ => 0) ++ (m₂ :: ms).flatMap fun m => m.bytes fun _ => 0) = _ :=
      (poll_bytes m _ _ _ false).trans hrec
    have hzero := h.filled 0
    rw [List.length_cons, pollAll_ok _ (fun _ _ => 0x80) hpoll, List.map_cons] at hzero
    have hnext := congrArg List.head? (List.cons.inj hzero).2
    rw [List.length_cons, pollAll_head] at hnext
    have hleft : ((m.bytes (fun _ => 0) ++ (m₂ :: ms).flatMap fun m => m.bytes fun _ => 0).drop
        (headerRead script sizeofMessage))[0]? = some 0 := by
      rw [List.getElem?_drop, Nat.add_zero]
      exact m.getElem?_bytes (fun _ => 0) _ h16 hcut
    exact absurd (Option.some.inj hnext) (poll_left hleft m₂)

/-- A header cut short goes wrong on some garbage, unless nobody reads on. -/
theorem cut_header (hcut : headerRead script sizeofMessage < sizeofMessage)
    (h : Delivers (m :: ms) script) :
    16 ≤ headerRead script sizeofMessage ∧ m.data = [] ∧ ms = [] :=
  ⟨h.len_read, h.no_data hcut, h.last hcut⟩

end CutHeader

theorem delivers_iff (ms : List Message) (script : List ReadEvent) :
    Delivers ms script ↔ HeadersWhole ms script := by
  induction ms generalizing script with
  | nil => exact iff_of_true (fun _ _ _ => rfl) trivial
  | cons m ms ih =>
    constructor
    · intro h
      by_cases hwhole : headerRead script sizeofMessage = sizeofMessage
      · refine .inl ⟨hwhole, (ih _).mp fun l junk hl => ?_⟩
        have hall := h (⟨m, fun _ => 0⟩ :: l) (fun i => junk (i - 1)) (by rw [List.map_cons, hl])
        rw [List.length_cons, List.flatMap_cons, List.map_cons] at hall
        have hcall := pollAll_ok ms.length (fun i => junk (i - 1))
          ((poll_bytes m (fun _ => 0) _ (l.flatMap Sent.bytes) false).trans
            (receive_whole m _ _ _ hwhole))
        exact (List.cons.inj (hcall.symm.trans hall)).2
      · -- a cut header may only be the last thing sent
        have hle := (headerRead_le script sizeofMessage).1
        exact .inr (cut_header (by omega) h)
    · rintro hwhole l junk hl
      obtain ⟨⟨m', spare⟩, l, rfl⟩ := List.exists_cons_of_ne_nil (l := l) (by rintro rfl; cases hl)
      obtain ⟨rfl, hrest'⟩ : m' = m ∧ l.map Sent.m = ms := List.cons.inj hl
      rw [List.length_cons, List.flatMap_cons, List.map_cons]
      rcases hwhole with ⟨hwhole, hrest⟩ | ⟨h16, hdata, rfl⟩
      · have hcall := pollAll_ok ms.length junk
          ((poll_bytes m' spare _ (l.flatMap Sent.bytes) false).trans
            (receive_whole m' _ _ _ hwhole))
        exact hcall.trans (congrArg (_ :: ·) ((ih _).mpr hrest l _ hrest'))
      · -- the last message, without a body
        obtain ⟨m'', hmsg, hdata', hrec⟩ := receive_len_read m' spare (junk 0)
          (l.flatMap Sent.bytes) rfl h16
        rw [hdata, List.length_nil, List.take_zero] at hdata'
        have hm : m'' = m' := Message.ext hmsg (by rw [hdata', hdata])
        rw [hm] at hrec
        exact pollAll_ok 0 _ ((poll_bytes m' _ _ _ false).trans hrec)

/-- Whatever threads write the messages, and whatever is on the reader's stack,
    successive calls return them as they were sent: exactly if the reads of their
    headers are whole. -/
theorem delivered_iff (Pid : Type) [Inhabited Pid] (ms : List Message)
    (script : List ReadEvent) :
    (∀ (w : Writers Pid) (junk : Nat → Nat → UInt8),
        LTS.Reachable (Writers.system Pid) w → w.holder = none → w.sent.map Sent.m = ms →
        pollAll ms.length junk script w.wire = ms.map .ok) ↔
      HeadersWhole ms script := by
  rw [← delivers_iff]
  constructor
  · intro h l junk hl
    obtain ⟨w, hw, hfree, hsent⟩ := Writers.exists_written Pid l
    have hall := h w junk hw hfree (by rw [hsent, hl])
    rwa [Writers.stream_eq hw hfree, hsent] at hall
  · intro h w junk hw hfree hsent
    rw [Writers.stream_eq hw hfree]
    exact h w.sent junk hsent

/-- One byte of a header and then the rest: the length is what the stack held. -/
theorem cut_header_not_delivered :
    ¬ ∀ (ms : List Message) (script : List ReadEvent) (w : Writers Unit)
      (junk : Nat → Nat → UInt8), LTS.Reachable (Writers.system Unit) w → w.holder = none →
      w.sent.map Sent.m = ms → pollAll ms.length junk script w.wire = ms.map .ok := by
  intro hall
  obtain ⟨w, hw, hfree, hsent⟩ := Writers.exists_written Unit
    [⟨⟨1, [7, 8], by decide⟩, fun _ => 0⟩]
  have hbad := hall [⟨1, [7, 8], by decide⟩] [.chunk 0] w (fun _ _ => 0x80) hw hfree
    (by rw [hsent]; rfl)
  rw [Writers.stream_eq hw hfree, hsent] at hbad
  revert hbad
  decide

end BlackSiren

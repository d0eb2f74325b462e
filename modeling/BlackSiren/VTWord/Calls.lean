import BlackSiren.Framework.Keyed
import BlackSiren.VTWord.Sync

/-! # The calls of a client, one after the other

    A thread adds, removes and lists words in any order.  Every call that succeeds
    has made a message of all words and pushed it to the request thread's queue, from
    which that thread pops at its own pace.

    - `allocateMessage`: the message, also for lengths that are no `int`
    - `Proxy`, `Proxy.next`: the calls and the two threads' accesses of the queue
    - `Proxy.Sound`: what is wanted of the words, the calls and the queue
    - `sound`: runs in which no push overflows and the strings are no longer than
      an `int`
-/

namespace BlackSiren

variable {F : Type}

/-! ### The message -/

/-- A size as an `int`. -/
def intOf (n : Nat) : Int := (BitVec.ofNat 32 n).toInt

/-- The word as `allocateMessageFromVTWord` copies it: as many characters of each
    string as its length is as an `int`. A negative one goes to `memcpy`. -/
def SirenVTWord.copied (w : SirenVTWord F) : Option (SirenVTWord F) :=
  if 0 ≤ intOf w.vt_word.length ∧ 0 ≤ intOf w.vt_phone.length ∧
      0 ≤ intOf w.alg_config.nnet_path.length then
    some { w with
      vt_word := w.vt_word.take (intOf w.vt_word.length).toNat
      vt_phone := w.vt_phone.take (intOf w.vt_phone.length).toNat
      alg_config := { w.alg_config with
        nnet_path := w.alg_config.nnet_path.take (intOf w.alg_config.nnet_path.length).toNat } }
  else none

section

variable [CFloat F]

/-- `allocateMessageFromVTWord`: none if there is no memory, or if the sums of the
    lengths run over. -/
def allocateMessage (vt_words : List (SirenVTWord F)) : Option Message :=
  (vt_words.mapM SirenVTWord.copied).bind allocateMessageFromVTWord

/-- The message carries these words. -/
structure Encodes (vt_words : List (SirenVTWord F)) (req : Message) : Prop where
  msg : req.msg = SIREN_REQUEST_MSG_SYNC_VT_WORD_LIST
  data : req.data = if vt_words.isEmpty then [] else encodeWords vt_words

end

/-! ### The calls -/

/-- What a call returns. -/
inductive Result where
  | status (result : SirenVT)
  | size (n : Int)
  deriving DecidableEq

/-- The client's side. `results` and `synced` are records: what the calls have
    returned, and the words after each that has succeeded. -/
structure Proxy (F : Type) where
  vt_words : List (SirenVTWord F)
  stored_words : List (SirenVTWord F)
  requestQueue : LFQueue.State LFQueue.Side Message
  results : List Result
  synced : List (List (SirenVTWord F))

namespace Proxy

/-- Calls of the client, and the accesses of the two threads. -/
inductive Label (F : Type) where
  | add (word : Option (SirenVTWord F)) (use_default_settings : Bool)
  | remove (word : Option (List UInt8))
  | get (words : Bool)
  | client (errno : Nat)
  | pop
  | request (errno : Nat)

/-- Nothing has been called. -/
def new : Proxy F where
  vt_words := []
  stored_words := []
  requestQueue := LFQueue.State.new
  results := []
  synced := []

/-- A call with this result and these words: if it succeeds, it goes on to push
    them. -/
def call [CFloat F] (s : Proxy F) (result : SirenVT) (vt_words : List (SirenVTWord F)) :
    Option (Proxy F) :=
  match s.requestQueue.pc .producer with
  | .idle _ =>
      if result = .SIREN_VT_OK then
        (allocateMessage vt_words).bind fun req =>
          (s.requestQueue.next Pipeline.requestParams (.push .producer req)).map fun q =>
            { s with
              vt_words := vt_words
              requestQueue := q
              results := s.results ++ [.status result]
              synced := s.synced ++ [vt_words] }
      else
        some { s with
          vt_words := vt_words
          results := s.results ++ [.status result] }
  | _ => none

/-- `get_vt_word`: `words` tells whether there is a place for the result. `new[]`
    refuses a negative size. -/
def get_vt_word (s : Proxy F) (words : Bool) : Option (Proxy F) :=
  match s.requestQueue.pc .producer with
  | .idle _ =>
      if !words then some { s with results := s.results ++ [.size (-1)] }
      else
        let size := intOf s.vt_words.length
        if size < 0 then none
        else some { s with
          stored_words := s.vt_words.take size.toNat
          results := s.results ++ [.size size] }
  | _ => none

def next [CFloat F] (gen : SirenPhonemeGen) (s : Proxy F) : Label F → Option (Proxy F)
  | .add word d =>
      let r := add_vt_word gen s.vt_words word d
      s.call r.1 r.2.2
  | .remove word =>
      let r := remove_vt_word s.vt_words word
      s.call r.1 r.2
  | .get words => s.get_vt_word words
  | .client errno =>
      (s.requestQueue.next Pipeline.requestParams (.step .producer errno)).map fun q =>
        { s with requestQueue := q }
  | .pop =>
      (s.requestQueue.next Pipeline.requestParams (.pop .consumer)).map fun q =>
        { s with requestQueue := q }
  | .request errno =>
      (s.requestQueue.next Pipeline.requestParams (.step .consumer errno)).map fun q =>
        { s with requestQueue := q }

def system [CFloat F] (gen : SirenPhonemeGen) : LTS.System (Proxy F) (Label F) :=
  .ofFn (· = new) (next gen)

/-! ### What is wanted -/

/-- Different as C strings, none empty, of one of the four types. -/
structure WellFormed (vt_words : List (SirenVTWord F)) : Prop where
  distinct : Keyed.Distinct (fun w : SirenVTWord F => cstr w.vt_word) vt_words
  nonempty : ∀ w ∈ vt_words, w.vt_word ≠ []
  legal : ∀ w ∈ vt_words, Legal w.vt_type

/-- A call that fails has changed nothing and pushed nothing; the other one has
    recorded its words, which `changed` says more about. -/
structure Answers (s s' : Proxy F) (result : SirenVT) (changed : Prop) : Prop where
  results : s'.results = s.results ++ [.status result]
  failed : result ≠ .SIREN_VT_OK →
    s'.vt_words = s.vt_words ∧ s'.requestQueue = s.requestQueue ∧ s'.synced = s.synced
  succeeded : result = .SIREN_VT_OK → s'.synced = s.synced ++ [s'.vt_words] ∧ changed

/-- `add` appends the word, with its phonemes. -/
def Appends (gen : SirenPhonemeGen) [CFloat F] (ws ws' : List (SirenVTWord F))
    (word : Option (SirenVTWord F)) (d : Bool) : Prop :=
  ∃ w w', word = some w ∧ stored gen w d = some w' ∧ ws' = ws ++ [w']

/-- `remove` takes out the one word of this name, and keeps the order. -/
def TakesOut (ws ws' : List (SirenVTWord F)) (word : Option (List UInt8)) : Prop :=
  ∃ name front w back, word = some name ∧ ws = front ++ w :: back ∧ ws' = front ++ back ∧
    cstr w.vt_word = cstr name ∧ ∀ v ∈ ws', cstr v.vt_word ≠ cstr name

/-- What a step does. -/
def Does [CFloat F] (gen : SirenPhonemeGen) (s s' : Proxy F) : Label F → Prop
  | .add word d => ∃ result, s.Answers s' result (Appends gen s.vt_words s'.vt_words word d)
  | .remove word => ∃ result, s.Answers s' result (TakesOut s.vt_words s'.vt_words word)
  | .get words =>
      s'.vt_words = s.vt_words ∧ s'.requestQueue = s.requestQueue ∧ s'.synced = s.synced ∧
        if words then s'.stored_words = s.vt_words ∧
          s'.results = s.results ++ [.size s.vt_words.length]
        else s'.stored_words = s.stored_words ∧ s'.results = s.results ++ [.size (-1)]
  | _ => s'.vt_words = s.vt_words ∧ s'.results = s.results ∧ s'.synced = s.synced

/-- The messages that have got into the queue. -/
def enqueued (s : Proxy F) : List Message :=
  (LFQueue.Trace.fills s.requestQueue.trace).map Prod.snd

/-- The words are well-formed, every step does what it is to do, and between calls
    there has been one message for each success, with the words as they were then. -/
structure Sound [CFloat F] (gen : SirenPhonemeGen) (s : Proxy F) : Prop where
  words : WellFormed s.vt_words
  steps : ∀ l s', s.next gen l = some s' → s.Does gen s' l
  queue : (∃ last, s.requestQueue.pc .producer = .idle last) →
    List.Forall₂ Encodes s.synced s.enqueued

/-! ### Which runs -/

/-- The lengths of the strings are `int`s. -/
structure Short (w : SirenVTWord F) : Prop where
  vt_word : w.vt_word.length < 2 ^ 31
  vt_phone : w.vt_phone.length < 2 ^ 31
  nnet_path : w.alg_config.nnet_path.length < 2 ^ 31

/-- The client's push, if it is about to add to a counter, finds none above 0. -/
def Room (s : Proxy F) : Prop :=
  ∀ x n, s.requestQueue.pc .producer = .incAdd x n →
    s.requestQueue.queue.val (Pipeline.requestParams.slot n) ≤ 0

/-- The word that is to be stored has short strings, and no push overflows. -/
def Label.Fits [CFloat F] (gen : SirenPhonemeGen) (s : Proxy F) : Label F → Prop
  | .add (some w) d => ∀ w', stored gen w d = some w' → Short w'
  | .client _ => s.Room
  | _ => True

/-- The message of a call that succeeds has a length that is an `int`. -/
def Label.LengthFits [CFloat F] (gen : SirenPhonemeGen) (vt_words : List (SirenVTWord F)) :
    Label F → Prop
  | .add word d =>
      let r := add_vt_word gen vt_words word d
      Pipeline.LengthFits r.1 r.2.2
  | .remove word =>
      let r := remove_vt_word vt_words word
      Pipeline.LengthFits r.1 r.2
  | _ => True

def fitting [CFloat F] (gen : SirenPhonemeGen) : LTS.System (Proxy F) (Label F) :=
  (system gen).restrict fun s l => l.Fits gen s ∧ l.LengthFits gen s.vt_words

end Proxy

/-! ### Messages of short strings -/

theorem intOf_of_lt {n : Nat} (h : n < 2 ^ 31) : intOf n = n := by
  unfold intOf
  rw [BitVec.toInt_eq_toNat_cond, BitVec.toNat_ofNat, Nat.mod_eq_of_lt (by omega)]
  rw [if_pos (by omega)]

theorem Proxy.Short.copied {w : SirenVTWord F} (h : Proxy.Short w) : w.copied = some w := by
  unfold SirenVTWord.copied
  rw [intOf_of_lt h.vt_word, intOf_of_lt h.vt_phone, intOf_of_lt h.nnet_path,
    if_pos ⟨Int.natCast_nonneg _, Int.natCast_nonneg _, Int.natCast_nonneg _⟩]
  simp only [Int.toNat_natCast, List.take_length]

theorem mapM_eq_self {α : Type} {f : α → Option α} {l : List α} (h : ∀ a ∈ l, f a = some a) :
    l.mapM f = some l := by
  induction l with
  | nil => rfl
  | cons a l ih =>
    rw [List.forall_mem_cons] at h
    rw [List.mapM_cons, h.1, ih h.2]
    rfl

section

variable [CFloat F] {gen : SirenPhonemeGen}

theorem allocateMessage_of_short {ws : List (SirenVTWord F)} (h : ∀ w ∈ ws, Proxy.Short w) :
    allocateMessage ws = allocateMessageFromVTWord ws := by
  unfold allocateMessage
  rw [mapM_eq_self fun w hw => (h w hw).copied]
  rfl

/-- The message, if there is one. -/
theorem allocateMessageFromVTWord_cases {ws : List (SirenVTWord F)} {req : Message}
    (h : allocateMessageFromVTWord ws = some req) : Encodes ws req ∧ ws.length < 2 ^ 31 := by
  unfold allocateMessageFromVTWord at h
  split at h
  · next hempty =>
    obtain rfl := Option.some.inj h
    refine ⟨⟨rfl, by rw [if_pos hempty]⟩, ?_⟩
    rw [List.isEmpty_iff.mp hempty, List.length_nil]
    exact Nat.two_pow_pos 31
  · next hne =>
    split at h
    · next hfits =>
      obtain rfl := Option.some.inj h
      refine ⟨⟨rfl, by rw [if_neg hne]⟩, ?_⟩
      rw [length_encodeWords] at hfits
      have hsum : ws.length ≤ (ws.map roundUpLen).sum := by
        have hall : ∀ n ∈ ws.map roundUpLen, 1 ≤ n := by
          intro n hn
          obtain ⟨w, _, rfl⟩ := List.mem_map.mp hn
          exact le_trans (by decide) (le_roundUpLen w)
        have hle := List.length_le_sum_of_one_le _ hall
        rwa [List.length_map] at hle
      unfold totalLen at hfits
      omega
    · cases h

/-! ### What the calls do -/

namespace Proxy

variable {s s' : Proxy F}

/-- A call begins when the one before has ended. -/
theorem call_cases {result : SirenVT} {ws : List (SirenVTWord F)}
    (h : s.call result ws = some s') :
    result ≠ .SIREN_VT_OK ∧
        s' = { s with vt_words := ws, results := s.results ++ [.status result] } ∨
      result = .SIREN_VT_OK ∧ ∃ req q, allocateMessage ws = some req ∧
        s.requestQueue.next Pipeline.requestParams (.push .producer req) = some q ∧
        s' = { s with
          vt_words := ws
          requestQueue := q
          results := s.results ++ [.status result]
          synced := s.synced ++ [ws] } := by
  unfold call at h
  split at h
  · split at h
    · next hok =>
      obtain ⟨req, hreq, h⟩ := Option.bind_eq_some_iff.mp h
      obtain ⟨q, hpush, rfl⟩ := Option.map_eq_some_iff.mp h
      exact .inr ⟨hok, req, q, hreq, hpush, rfl⟩
    · next hnot =>
      exact .inl ⟨hnot, (Option.some.inj h).symm⟩
  · cases h

/-- If a call that fails has left the words alone, and one that succeeds has done what
    it is to do, the client is answered. -/
theorem answers_of_call {result : SirenVT} {ws : List (SirenVTWord F)} {changed : Prop}
    (hfailed : result ≠ .SIREN_VT_OK → ws = s.vt_words)
    (hchanged : result = .SIREN_VT_OK → s'.vt_words = ws → changed)
    (h : s.call result ws = some s') : s.Answers s' result changed := by
  rcases call_cases h with ⟨hnot, rfl⟩ | ⟨hok, req, q, _, _, rfl⟩
  · exact ⟨rfl, fun _ => ⟨hfailed hnot, rfl, rfl⟩, fun hok => absurd hok hnot⟩
  · exact ⟨rfl, fun hnot => absurd hok hnot, fun _ => ⟨rfl, hchanged hok rfl⟩⟩

omit [CFloat F] in
theorem takesOut_of_ok {ws : List (SirenVTWord F)} {word : Option (List UInt8)}
    (hdistinct : Keyed.Distinct (fun w : SirenVTWord F => cstr w.vt_word) ws)
    (h : (remove_vt_word ws word).1 = .SIREN_VT_OK) :
    TakesOut ws (remove_vt_word ws word).2 word := by
  obtain ⟨name, it, rfl, hhas, hremove⟩ := remove_vt_word_ok h
  obtain ⟨front, w, back, rfl, rfl, hname, _⟩ := Keyed.find?_eq_some hhas
  have hothers := hdistinct.others
  rw [hremove]
  refine ⟨name, front, w, back, rfl, rfl, Keyed.eraseIdx_length_append front w back, hname, ?_⟩
  rw [Keyed.eraseIdx_length_append]
  intro v hv
  rw [← hname]
  exact hothers v hv

/-- `get_vt_word` in a state with as many words as an `int` can count. -/
theorem get_does (hcount : s.vt_words.length < 2 ^ 31) {words : Bool}
    (h : s.next gen (.get words) = some s') : s.Does gen s' (.get words) := by
  change s.get_vt_word words = some s' at h
  unfold get_vt_word at h
  split at h
  · cases words with
    | false =>
      obtain rfl := Option.some.inj h
      exact ⟨rfl, rfl, rfl, rfl, rfl⟩
    | true =>
      simp only [Bool.not_true, Bool.false_eq_true, if_false, intOf_of_lt hcount] at h
      rw [if_neg (by omega)] at h
      obtain rfl := Option.some.inj h
      refine ⟨rfl, rfl, rfl, ?_, rfl⟩
      show s.vt_words.take ((s.vt_words.length : Int)).toNat = s.vt_words
      rw [Int.toNat_natCast, List.take_length]
  · cases h

/-- Every step does what it is to do. -/
theorem does_of_next (hwords : WellFormed s.vt_words) (hcount : s.vt_words.length < 2 ^ 31)
    {l : Label F} (h : s.next gen l = some s') : s.Does gen s' l := by
  cases l with
  | add word d =>
    refine ⟨_, answers_of_call ?_ ?_ h⟩
    · intro hnot
      rcases add_vt_word_cases gen s.vt_words word d with ⟨_, hsame⟩ |
        ⟨_, _, _, _, _, _, _, hadd⟩
      · exact hsame
      · rw [hadd] at hnot
        exact absurd rfl hnot
    · intro hok hws
      obtain ⟨w, w', hw, _, _, _, hstored, hadd⟩ := add_vt_word_ok hok
      refine ⟨w, w', hw, hstored, ?_⟩
      rw [hws, hadd]
  | remove word =>
    refine ⟨_, answers_of_call ?_ ?_ h⟩
    · intro hnot
      rcases remove_vt_word_cases s.vt_words word with ⟨_, hsame⟩ | ⟨hok, _⟩
      · exact hsame
      · exact absurd hok hnot
    · intro hok hws
      rw [hws]
      exact takesOut_of_ok hwords.distinct hok
  | get words => exact get_does hcount h
  | client errno =>
    obtain ⟨q, _, rfl⟩ := Option.map_eq_some_iff.mp h
    exact ⟨rfl, rfl, rfl⟩
  | pop =>
    obtain ⟨q, _, rfl⟩ := Option.map_eq_some_iff.mp h
    exact ⟨rfl, rfl, rfl⟩
  | request errno =>
    obtain ⟨q, _, rfl⟩ := Option.map_eq_some_iff.mp h
    exact ⟨rfl, rfl, rfl⟩

/-! ### Runs -/

/-- What is kept: the words, the lengths of their strings and their number, the queue's
    own run without overflow, and the messages pushed. -/
structure Holds (s : Proxy F) : Prop where
  words : WellFormed s.vt_words
  short : ∀ w ∈ s.vt_words, Short w
  count : s.vt_words.length < 2 ^ 31
  queue : LTS.Reachable (LFQueue.State.spsc Message Pipeline.requestParams) s.requestQueue
  overflowed : LFQueue.Trace.overflowed s.requestQueue.trace = []
  called : List.Forall₂ Encodes s.synced (LFQueue.Trace.called s.requestQueue.trace)

theorem holds_new : Holds (new : Proxy F) where
  words := ⟨List.Pairwise.nil, List.forall_mem_nil _, List.forall_mem_nil _⟩
  short := List.forall_mem_nil _
  count := Nat.two_pow_pos 31
  queue := .init rfl
  overflowed := rfl
  called := .nil

/-- Words after a call that succeeds: short ones, well-formed. -/
theorem Holds.push (hs : s.Holds) {ws : List (SirenVTWord F)} {req : Message}
    {q : LFQueue.State LFQueue.Side Message} {results : List Result} (hwords : WellFormed ws)
    (hshort : ∀ w ∈ ws, Short w) (hreq : allocateMessage ws = some req)
    (hpush : s.requestQueue.next Pipeline.requestParams (.push .producer req) = some q) :
    Holds { s with
      vt_words := ws
      requestQueue := q
      results := results
      synced := s.synced ++ [ws] } := by
  rw [allocateMessage_of_short hshort] at hreq
  obtain ⟨hencodes, hcount⟩ := allocateMessageFromVTWord_cases hreq
  refine ⟨hwords, hshort, hcount, .step (.push .producer req) hs.queue ⟨rfl, hpush⟩, ?_, ?_⟩
  · show LFQueue.Trace.overflowed q.trace = []
    rw [LFQueue.State.next_push hpush, LFQueue.Trace.overflowed_append, hs.overflowed]
    rfl
  · show List.Forall₂ Encodes (s.synced ++ [ws]) (LFQueue.Trace.called q.trace)
    rw [(LFQueue.State.push_begins hpush).1]
    exact List.rel_append hs.called (.cons hencodes .nil)

/-- A step of a thread inside a call. -/
theorem Holds.access (hs : s.Holds) (l : LFQueue.Label LFQueue.Side Message)
    {q : LFQueue.State LFQueue.Side Message} (hown : l.Own)
    (h : s.requestQueue.next Pipeline.requestParams l = some q)
    (hoverflowed : LFQueue.Trace.overflowed q.trace = [])
    (hcalled : LFQueue.Trace.called q.trace = LFQueue.Trace.called s.requestQueue.trace) :
    Holds { s with requestQueue := q } where
  words := hs.words
  short := hs.short
  count := hs.count
  queue := .step l hs.queue ⟨hown, h⟩
  overflowed := hoverflowed
  called := by
    show List.Forall₂ Encodes s.synced (LFQueue.Trace.called q.trace)
    rw [hcalled]
    exact hs.called

theorem wellFormed_add {ws : List (SirenVTWord F)} (hs : WellFormed ws) {w w' : SirenVTWord F}
    {d : Bool} (hne : w.vt_word ≠ []) (hhas : hasVTWord w.vt_word ws = none)
    (hlegal : Legal w.vt_type) (hstored : stored gen w d = some w') :
    WellFormed (ws ++ [w']) := by
  have hword := stored_vt_word hstored
  have hnew : ∀ v ∈ ws, cstr v.vt_word ≠ cstr w'.vt_word := by
    rw [hword]
    exact Keyed.find?_eq_none.mp hhas
  refine ⟨hs.distinct.concat hnew, ?_, ?_⟩
  · intro v hv
    rcases List.mem_append.mp hv with hv | hv
    · exact hs.nonempty v hv
    · rw [List.mem_singleton.mp hv, hword]
      exact hne
  · intro v hv
    rcases List.mem_append.mp hv with hv | hv
    · exact hs.legal v hv
    · rw [List.mem_singleton.mp hv, stored_vt_type hstored]
      exact hlegal

omit [CFloat F] in
theorem wellFormed_eraseIdx {ws : List (SirenVTWord F)} (hs : WellFormed ws) (it : Nat) :
    WellFormed (ws.eraseIdx it) where
  distinct := hs.distinct.eraseIdx it
  nonempty := fun w hw => hs.nonempty w (List.mem_of_mem_eraseIdx hw)
  legal := fun w hw => hs.legal w (List.mem_of_mem_eraseIdx hw)

/-- One step. -/
theorem Holds.step (hs : s.Holds) {l : Label F} (hfits : l.Fits gen s)
    (h : s.next gen l = some s') : s'.Holds := by
  cases l with
  | add word d =>
    rcases call_cases h with ⟨hnot, rfl⟩ | ⟨hok, req, q, hreq, hpush, rfl⟩
    · rcases add_vt_word_cases gen s.vt_words word d with ⟨_, hsame⟩ |
        ⟨_, _, _, _, _, _, _, hadd⟩
      · rw [hsame]
        exact ⟨hs.words, hs.short, hs.count, hs.queue, hs.overflowed, hs.called⟩
      · rw [hadd] at hnot
        exact absurd rfl hnot
    · obtain ⟨w, w', rfl, hlegal, hne, hhas, hstored, hadd⟩ := add_vt_word_ok hok
      rw [hadd] at hreq ⊢
      refine hs.push (wellFormed_add hs.words hne hhas hlegal hstored) ?_ hreq hpush
      intro v hv
      rcases List.mem_append.mp hv with hv | hv
      · exact hs.short v hv
      · rw [List.mem_singleton.mp hv]
        exact hfits w' hstored
  | remove word =>
    rcases call_cases h with ⟨hnot, rfl⟩ | ⟨hok, req, q, hreq, hpush, rfl⟩
    · rcases remove_vt_word_cases s.vt_words word with ⟨_, hsame⟩ | ⟨hok, _⟩
      · rw [hsame]
        exact ⟨hs.words, hs.short, hs.count, hs.queue, hs.overflowed, hs.called⟩
      · exact absurd hok hnot
    · obtain ⟨name, it, rfl, _, hremove⟩ := remove_vt_word_ok hok
      rw [hremove] at hreq ⊢
      exact hs.push (wellFormed_eraseIdx hs.words it)
        (fun w hw => hs.short w (List.mem_of_mem_eraseIdx hw)) hreq hpush
  | get words =>
    obtain ⟨hwords, hqueue, hsynced, _⟩ := get_does hs.count h
    obtain ⟨hw, hsh, hc, hq, ho, hcalled⟩ := hs
    refine ⟨?_, ?_, ?_, ?_, ?_, ?_⟩
    · rwa [hwords]
    · rwa [hwords]
    · rwa [hwords]
    · rwa [hqueue]
    · rwa [hqueue]
    · rwa [hsynced, hqueue]
  | client errno =>
    obtain ⟨q, hstep, rfl⟩ := Option.map_eq_some_iff.mp h
    exact hs.access (.step .producer errno) trivial hstep
      (LFQueue.State.overflowed_step hs.queue hs.overflowed (fun _ => hfits) hstep)
      (LFQueue.State.step_called hs.queue hstep)
  | pop =>
    obtain ⟨q, hpop, rfl⟩ := Option.map_eq_some_iff.mp h
    refine hs.access (.pop .consumer) rfl hpop ?_ (LFQueue.State.pop_begins hpop).1
    rw [LFQueue.State.next_pop hpop, LFQueue.Trace.overflowed_append, hs.overflowed]
    rfl
  | request errno =>
    obtain ⟨q, hstep, rfl⟩ := Option.map_eq_some_iff.mp h
    exact hs.access (.step .consumer errno) trivial hstep
      (LFQueue.State.overflowed_step hs.queue hs.overflowed (fun hp => by cases hp) hstep)
      (LFQueue.State.step_called hs.queue hstep)

/-- Between two calls everything pushed is in the queue. -/
theorem Holds.enqueued (hs : s.Holds)
    (hidle : ∃ last, s.requestQueue.pc .producer = .idle last) :
    List.Forall₂ Encodes s.synced s.enqueued := by
  obtain ⟨last, hidle⟩ := hidle
  have hcalled := (LFQueue.State.spsc_piped hs.queue hs.overflowed).called
  have hitem : (s.requestQueue.slots.phase .producer).item = none := by
    show (s.requestQueue.pc .producer).phase.item = none
    rw [hidle]
    rfl
  rw [hitem, Option.toList_none, List.append_nil] at hcalled
  unfold Proxy.enqueued
  rw [show (LFQueue.Trace.fills s.requestQueue.trace).map Prod.snd =
    LFQueue.Trace.called s.requestQueue.trace from hcalled.symm]
  exact hs.called

/-- In every run in which no push overflows and the strings stored are no longer than
    an `int`, everything is as it should be. -/
theorem sound (h : LTS.Reachable (fitting gen) s) : s.Sound gen := by
  have hs : s.Holds := by
    refine LTS.invariant (fitting gen) Holds ?_ ?_ h
    · intro s hs
      rw [show s = new from hs]
      exact holds_new
    · intro s l s' hs hstep
      exact hs.step hstep.1.1 hstep.2
  exact ⟨hs.words, fun l s' hnext => does_of_next hs.words hs.count hnext, hs.enqueued⟩

/-! ### Runs that can be checked -/

/-- `Short`, `Room` and `Label.Fits`, computed. -/
def shortCheck (w : SirenVTWord F) : Bool :=
  decide (w.vt_word.length < 2 ^ 31) && decide (w.vt_phone.length < 2 ^ 31) &&
    decide (w.alg_config.nnet_path.length < 2 ^ 31)

def roomCheck (s : Proxy F) : Bool :=
  match s.requestQueue.pc .producer with
  | .incAdd _ n => decide (s.requestQueue.queue.val (Pipeline.requestParams.slot n) ≤ 0)
  | _ => true

def fitsCheck (gen : SirenPhonemeGen) (s : Proxy F) : Label F → Bool
  | .add (some w) d => (stored gen w d).all shortCheck
  | .client _ => s.roomCheck
  | _ => true

omit [CFloat F] in
theorem shortCheck_iff (w : SirenVTWord F) : shortCheck w = true ↔ Short w := by
  unfold shortCheck
  rw [Bool.and_eq_true, Bool.and_eq_true, decide_eq_true_iff, decide_eq_true_iff,
    decide_eq_true_iff]
  exact ⟨fun h => ⟨h.1.1, h.1.2, h.2⟩, fun h => ⟨⟨h.vt_word, h.vt_phone⟩, h.nnet_path⟩⟩

omit [CFloat F] in
theorem roomCheck_iff (s : Proxy F) : s.roomCheck = true ↔ s.Room := by
  unfold roomCheck Room
  constructor
  · intro h x n hpc
    rw [hpc] at h
    exact of_decide_eq_true h
  · intro h
    split
    · next x n hpc => exact decide_eq_true (h x n hpc)
    · rfl

theorem fitsCheck_iff (s : Proxy F) (l : Label F) :
    fitsCheck gen s l = true ↔ l.Fits gen s := by
  cases l with
  | add word d =>
    cases word with
    | none => exact iff_of_true rfl trivial
    | some w =>
      show (stored gen w d).all shortCheck = true ↔ ∀ w', stored gen w d = some w' → Short w'
      rw [Option.all_eq_true]
      exact forall_congr' fun w' => imp_congr_right fun _ => shortCheck_iff w'
  | client errno => exact roomCheck_iff s
  | _ => exact iff_of_true rfl trivial

instance (s : Proxy F) (l : Label F) : Decidable (l.Fits gen s) :=
  decidable_of_iff _ (fitsCheck_iff s l)

instance (vt_words : List (SirenVTWord F)) : (l : Label F) → Decidable (l.LengthFits gen vt_words)
  | .add _ _ => inferInstanceAs (Decidable (Pipeline.LengthFits _ _))
  | .remove _ => inferInstanceAs (Decidable (Pipeline.LengthFits _ _))
  | .get _ | .client _ | .pop | .request _ => .isTrue trivial

end Proxy

end

namespace Proxy

open Pipeline (oneSyllable wordOf)

/-- A word is added, another one, and the first is removed; the request thread takes
    what it can get. -/
def threeCalls : List (Label Single) :=
  .add (some (wordOf [98])) false :: List.replicate 5 (.client 0) ++
    .add (some (wordOf [99])) true :: List.replicate 5 (.client 0) ++
    .pop :: List.replicate 5 (.request 0) ++
    .remove (some [98]) :: List.replicate 5 (.client 0) ++ [.get true]

theorem sound_threeCalls : ∃ s : Proxy Single,
    LTS.exec (LTS.guarded (fun s l => Label.Fits oneSyllable s l ∧
      l.LengthFits oneSyllable s.vt_words) (next oneSyllable)) new threeCalls = some s ∧
      s.Sound oneSyllable := by
  have hrun : (LTS.exec (LTS.guarded (fun (s : Proxy Single) l => Label.Fits oneSyllable s l ∧
      l.LengthFits oneSyllable s.vt_words) (next oneSyllable)) new threeCalls).isSome = true := by
    decide +kernel
  obtain ⟨s, hs⟩ := Option.isSome_iff_exists.mp hrun
  exact ⟨s, hs, sound (LTS.reachable_restrict_of_guarded rfl hs)⟩

/-- A word is added and removed, again and again, and nothing is taken. -/
def noPops : List (Label Single) :=
  (List.replicate 16 (.add (some (wordOf [98])) false :: List.replicate 5 (.client 0) ++
    .remove (some [98]) :: List.replicate 5 (.client 0))).flatten ++
      .add (some (wordOf [98])) false :: List.replicate 4 (.client 0)

/-- The push of the thirty-third call finds the queue full: the call succeeds, and the
    message is lost. -/
theorem full_queue_not_sound : ¬ ∀ s : Proxy Single,
    LTS.Reachable (system oneSyllable) s → s.Sound oneSyllable := by
  intro h
  have hrun : ((LTS.exec (next oneSyllable) new noPops).any fun (s : Proxy Single) => decide (
      s.requestQueue.pc .producer = .idle (some (.push 0)) ∧ s.synced.length = 33 ∧
        s.enqueued.length = 32 ∧ s.results.getLast? = some (.status .SIREN_VT_OK))) = true := by
    decide +kernel
  obtain ⟨s, hs, hrun⟩ := (Option.any_eq_true _ _).mp hrun
  obtain ⟨hidle, hsynced, henqueued, _⟩ := of_decide_eq_true hrun
  have hqueue := (h s (LTS.reachable_of_exec rfl hs)).queue ⟨_, hidle⟩
  have hlen := hqueue.length_eq
  omega

end Proxy

end BlackSiren

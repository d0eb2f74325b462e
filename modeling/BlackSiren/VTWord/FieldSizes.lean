import BlackSiren.VTWord.Pinyin
import BlackSiren.VTWord.Sync

/-! # The words that reach the engine's fields

    `syncVTWord` copies the strings of every word into `WordInfo`, whose fields
    have 256, 25600 and 256 characters.  Nothing on the way looks at the lengths:
    not the message, not the queues, also when their counters lap.  So they are
    those of the words that `add_vt_word` has accepted.

    - `Accepted` and `Brief`: what `add_vt_word` looks at, and the strings of a
      word as they will be copied
    - `Carried`: every list on its way is one of brief words
    - `synced_lists_fit`: what reaches `syncVTWord`
-/

namespace BlackSiren

variable {F : Type}

/-! ### Calls -/

/-- The length of the phonemes: those of the pieces of the phone, and a blank
    behind each but the last. -/
def SirenPhonemeGen.phonemeLength (gen : SirenPhonemeGen) (vt_phone : List UInt8) : Nat :=
  ((Pieces.cut isdigit (cstr vt_phone)).1.map fun head =>
    ((gen.phonemeMaps head).getD []).length + 1).sum - 1

/-- The checks of `add_vt_word`. -/
structure Accepted (gen : SirenPhonemeGen) (vt_words : List (SirenVTWord F))
    (w : SirenVTWord F) : Prop where
  vt_type : Legal w.vt_type
  vt_word : w.vt_word ≠ []
  new : hasVTWord w.vt_word vt_words = none
  vt_phone : (gen.pinyin2Phoneme (cstr w.vt_phone)).isSome = true

/-- The word, the phonemes and the path that is kept are shorter than the fields
    of `WordInfo`. -/
structure SirenVTWord.Short (w : SirenVTWord F) (gen : SirenPhonemeGen)
    (use_default_settings : Bool) : Prop where
  vt_word : (cstr w.vt_word).length < 256
  vt_phone : gen.phonemeLength w.vt_phone < 25600
  nnet_path : use_default_settings = false → (cstr w.alg_config.nnet_path).length < 256

/-- A stored word whose strings, up to their first NULs, have room. -/
structure SirenVTWord.Brief (w : SirenVTWord F) : Prop where
  vt_type : Legal w.vt_type
  vt_word : (cstr w.vt_word).length < 256
  vt_phone : (cstr w.vt_phone).length < 25600
  nnet_path : (cstr w.alg_config.nnet_path).length < 256

theorem SirenVTWord.Brief.fits {w : SirenVTWord F} (h : w.Brief) : w.shown.Fits :=
  ⟨⟨not_mem_cstr _, h.vt_word⟩, ⟨not_mem_cstr _, h.vt_phone⟩, ⟨not_mem_cstr _, h.nnet_path⟩⟩

/-! ### The phonemes -/

theorem length_intercalate_blank {results : List (List UInt8)} (h : results ≠ []) :
    ([32].intercalate results).length = (results.map fun r => r.length + 1).sum - 1 := by
  have hlen := congrArg List.length (SirenPhonemeGen.flatMap_blank h)
  simp only [List.length_flatMap, List.length_append, List.length_singleton] at hlen
  rw [hlen, Nat.add_sub_cancel]

/-- Heads that are found, and what is found. -/
theorem SirenPhonemeGen.lengths_of_found {gen : SirenPhonemeGen} {heads : List (List UInt8)}
    (hfound : ∀ head ∈ heads, (gen.phonemeMaps head).isSome = true) :
    (heads.filterMap gen.phonemeMaps).map (fun r => r.length + 1) =
      heads.map fun head => ((gen.phonemeMaps head).getD []).length + 1 := by
  induction heads with
  | nil => rfl
  | cons head heads ih =>
    rw [List.forall_mem_cons] at hfound
    obtain ⟨r, hr⟩ := Option.isSome_iff_exists.mp hfound.1
    rw [List.filterMap_cons_some hr, List.map_cons, List.map_cons, ih hfound.2, hr]
    rfl

/-- A phone that can be read has phonemes of that length. -/
theorem SirenPhonemeGen.length_pinyin2Phoneme {gen : SirenPhonemeGen} {vt_phone pinyin : List UInt8}
    (h : gen.pinyin2Phoneme (cstr vt_phone) = some pinyin) :
    pinyin.length = gen.phonemeLength vt_phone := by
  obtain ⟨-, hne, results, hmap, rfl⟩ := pinyin2Phoneme_eq_some_iff.mp h
  unfold phonemeLength
  generalize (Pieces.cut isdigit (cstr vt_phone)).1 = heads at hne hmap
  obtain ⟨hfound, rfl⟩ := mapM_phonemeMaps_iff.mp hmap
  have hlengths := lengths_of_found hfound
  have hresults : heads.filterMap gen.phonemeMaps ≠ [] := by
    intro hnil
    rw [hnil] at hlengths
    exact hne (List.map_eq_nil_iff.mp hlengths.symm)
  rw [length_intercalate_blank hresults, hlengths]

variable [CFloat F]

/-- What `add_vt_word` stores of a short word. -/
theorem SirenVTWord.Short.brief {gen : SirenPhonemeGen} {w w' : SirenVTWord F} {d : Bool}
    (h : w.Short gen d) (hlegal : Legal w.vt_type) (hstored : stored gen w d = some w') :
    w'.Brief := by
  obtain ⟨pinyin, hpinyin, rfl⟩ := Option.map_eq_some_iff.mp hstored
  refine ⟨hlegal, h.vt_word, ?_, ?_⟩
  · have hphone := h.vt_phone
    rw [← SirenPhonemeGen.length_pinyin2Phoneme hpinyin] at hphone
    exact lt_of_le_of_lt (List.takeWhile_sublist _).length_le hphone
  · cases d with
    | false => exact h.nnet_path rfl
    | true =>
      show (cstr []).length < 256
      decide

/-- A word that is not refused has passed the checks. -/
theorem accepted_of_ok {gen : SirenPhonemeGen} {vt_words : List (SirenVTWord F)}
    {w : SirenVTWord F} {d : Bool}
    (h : (add_vt_word gen vt_words (some w) d).1 = .SIREN_VT_OK) : Accepted gen vt_words w := by
  obtain ⟨v, w', hv, hlegal, hne, hnew, hstored, -⟩ := add_vt_word_ok h
  obtain rfl := Option.some.inj hv
  obtain ⟨pinyin, hpinyin, -⟩ := Option.map_eq_some_iff.mp hstored
  refine ⟨hlegal, hne, hnew, ?_⟩
  rw [hpinyin]
  rfl

namespace Pipeline

open LFQueue.Trace (called)

variable {E : Engines F} {gen : SirenPhonemeGen} {processor : SirenProcessorImpl F E.recorded}
  {l : Label F} {s s' : State F E}

/-! ### On the way -/

/-- A word that is added and not refused is short. -/
def Label.Short (gen : SirenPhonemeGen) (s : State F E) : Label F → Prop
  | .add (some w) d => Accepted gen s.vt_words w → w.Short gen d
  | _ => True

/-- The runs of such calls. -/
def State.short (gen : SirenPhonemeGen) (processor : SirenProcessorImpl F E.recorded) :
    LTS.System (State F E) (Label F) :=
  (State.system gen processor).restrict fun s l =>
    l.Short gen s ∧ l.LengthFits gen s.vt_words

/-- The message for a list of brief words. -/
def OfBrief (m : Message) : Prop :=
  ∃ ws : List (SirenVTWord F), (∀ w ∈ ws, w.Brief) ∧ allocateMessageFromVTWord ws = some m

/-- The client's words are brief, and so are those of every list on its way. -/
structure Carried (s : State F E) : Prop where
  words : ∀ w ∈ s.vt_words, w.Brief
  requests : ∀ m ∈ called s.requestQueue.trace, OfBrief (F := F) m
  writing : ∀ m, s.request = .writing m → OfBrief (F := F) m
  channel : ∀ m ∈ s.channel, OfBrief (F := F) m
  messages : ∀ m ∈ called s.processQueue.trace, OfBrief (F := F) m
  handling : ∀ m, s.process = .handling m → OfBrief (F := F) m

theorem words_of_call {result : SirenVT} {vt_words : List (SirenVTWord F)}
    (h : s.call result vt_words = some s') : s'.vt_words = vt_words := by
  unfold State.call at h
  split at h
  · split at h
    · obtain ⟨req, -, h⟩ := Option.bind_eq_some_iff.mp h
      obtain ⟨q, -, rfl⟩ := Option.map_eq_some_iff.mp h
      rfl
    · rw [← Option.some.inj h]
  · cases h

theorem Effect.words (h : Effect gen l s s') {w : SirenVTWord F} (hw : w ∈ s'.vt_words) :
    w ∈ s.vt_words ∨ ∃ w₀ d, l = .add (some w₀) d := by
  cases h with
  | sent vt_words req q hwords hreq hpush =>
    obtain hold | ⟨w₀, d, hl, -, -⟩ := hwords w hw
    · exact .inl hold
    · exact .inr ⟨w₀, d, hl⟩
  | _ => exact .inl hw

/-- A call brings in no word but one that it accepts. -/
theorem words_of_next (h : s.next gen l = some s') {w : SirenVTWord F} (hw : w ∈ s'.vt_words) :
    w ∈ s.vt_words ∨ ∃ w₀ d, l = .add (some w₀) d ∧ Accepted gen s.vt_words w₀ ∧
      stored gen w₀ d = some w := by
  obtain hold | ⟨w₀, d, rfl⟩ := (State.next_effect h).words hw
  · exact .inl hold
  have hwords : s'.vt_words = (add_vt_word gen s.vt_words (some w₀) d).2.2 := words_of_call h
  rw [hwords] at hw
  obtain ⟨-, hsame⟩ | ⟨v, w', hv, -, -, -, hstored, hadd⟩ :=
    add_vt_word_cases gen s.vt_words (some w₀) d
  · rw [hsame] at hw
    exact .inl hw
  · obtain rfl := Option.some.inj hv
    rw [hadd] at hw
    rcases List.mem_append.mp hw with hw | hw
    · exact .inl hw
    · rw [List.mem_singleton.mp hw]
      exact .inr ⟨w₀, d, rfl, accepted_of_ok (by rw [hadd]), hstored⟩

/-- What a pop hands over has been pushed. -/
theorem popped_called {P : LFParams} {q : LFQueue.State LFQueue.Side Message}
    (h : LTS.Reachable (LFQueue.State.spsc Message P) q) {last : Option (LFQueue.Ret Message)}
    (hpc : q.pc .consumer = .idle last) {m : Message} (hm : popped last = some m) :
    m ∈ called q.trace := by
  apply LFQueue.State.mem_called_of_inHand h
  rw [inHand_popped h hpc, hm]
  exact List.mem_cons_self

theorem Carried.step (hr : LTS.Reachable (State.system gen processor) s) (hs : Carried s)
    (h : s.next gen l = some s') (hshort : l.Short gen s) : Carried s' := by
  have hrequest := reachable_requestQueue hr
  have hprocess := reachable_processQueue hr
  have hwords : ∀ w ∈ s'.vt_words, w.Brief := by
    intro w hw
    obtain hold | ⟨w₀, d, rfl, haccepted, hstored⟩ := words_of_next h hw
    · exact hs.words w hold
    · exact (hshort haccepted).brief haccepted.vt_type hstored
  cases State.next_effect h with
  | refused result hresult =>
    exact ⟨hwords, hs.requests, hs.writing, hs.channel, hs.messages, hs.handling⟩
  | sent vt_words req q hnew hreq hpush =>
    refine ⟨hwords, ?_, hs.writing, hs.channel, hs.messages, hs.handling⟩
    rw [(LFQueue.State.push_begins hpush).1, List.forall_mem_append, List.forall_mem_singleton]
    exact ⟨hs.requests, vt_words, hwords, hreq⟩
  | client errno q hstep =>
    refine ⟨hwords, ?_, hs.writing, hs.channel, hs.messages, hs.handling⟩
    rw [LFQueue.State.step_called hrequest hstep]
    exact hs.requests
  | requestPop hloop q hpop =>
    refine ⟨hwords, ?_, ?_, hs.channel, hs.messages, hs.handling⟩
    · rw [(LFQueue.State.pop_begins hpop).1]
      exact hs.requests
    · intro m hm
      cases hm
  | requestPopping hpopping errno q hstep =>
    refine ⟨hwords, ?_, hs.writing, hs.channel, hs.messages, hs.handling⟩
    rw [LFQueue.State.step_called hrequest hstep]
    exact hs.requests
  | requestPopped hpopping last hpc next hnext =>
    refine ⟨hwords, hs.requests, ?_, hs.channel, hs.messages, hs.handling⟩
    intro m hm
    obtain ⟨-, rfl⟩ | ⟨req, hreq, rfl⟩ := hnext
    · cases hm
    · dsimp only at hm
      split at hm
      · cases hm
      · cases hm
        exact hs.requests _ (popped_called hrequest hpc hreq)
  | write req hwriting =>
    refine ⟨hwords, hs.requests, ?_, ?_, hs.messages, hs.handling⟩
    · intro m hm
      dsimp only at hm
      split at hm
      · cases hm
      · cases hm
    · rw [List.forall_mem_append, List.forall_mem_singleton]
      exact ⟨hs.channel, hs.writing req hwriting⟩
  | poll message channel hchannel q hpush =>
    have hall := hs.channel
    rw [hchannel, List.forall_mem_cons] at hall
    refine ⟨hwords, hs.requests, hs.writing, hall.2, ?_, hs.handling⟩
    rw [(LFQueue.State.push_begins hpush).1, List.forall_mem_append, List.forall_mem_singleton]
    exact ⟨hs.messages, hall.1⟩
  | response errno q hstep =>
    refine ⟨hwords, hs.requests, hs.writing, hs.channel, ?_, hs.handling⟩
    rw [LFQueue.State.step_called hprocess hstep]
    exact hs.messages
  | processPop hloop q hpop =>
    refine ⟨hwords, hs.requests, hs.writing, hs.channel, ?_, ?_⟩
    · rw [(LFQueue.State.pop_begins hpop).1]
      exact hs.messages
    · intro m hm
      cases hm
  | processPopping hpopping errno q hstep =>
    refine ⟨hwords, hs.requests, hs.writing, hs.channel, ?_, hs.handling⟩
    rw [LFQueue.State.step_called hprocess hstep]
    exact hs.messages
  | processPopped hpopping last hpc =>
    refine ⟨hwords, hs.requests, hs.writing, hs.channel, hs.messages, ?_⟩
    intro m hm
    cases hlast : popped last with
    | none =>
      simp only [hlast] at hm
      cases hm
    | some msg =>
      simp only [hlast] at hm
      cases hm
      exact hs.messages _ (popped_called hprocess hpc hlast)
  | synced msg hhandling ret vt_words p hget hsync =>
    refine ⟨hwords, hs.requests, hs.writing, hs.channel, hs.messages, ?_⟩
    intro m hm
    cases hm
  | failed msg hhandling ret vt_words hget hret =>
    refine ⟨hwords, hs.requests, hs.writing, hs.channel, hs.messages, ?_⟩
    intro m hm
    cases hm

theorem carried (h : LTS.Reachable (State.short gen processor) s) : Carried s := by
  refine LTS.invariant_of_reachable (State.short gen processor) Carried ?_ ?_ h
  · intro s hs
    rw [show s = .new processor from hs]
    refine ⟨?_, ?_, ?_, ?_, ?_, ?_⟩
    all_goals
      intro m hm
      cases hm
  · intro s l s' hr hs hstep
    exact hs.step hr.of_restrict hstep.2 hstep.1.1

/-! ### What arrives -/

/-- The list that the message at hand carries fits the fields of `WordInfo`. -/
def State.ListFits (s : State F E) : Prop :=
  ∀ msg ret vt_words, s.process = .handling msg →
    getVTWordFromMessage (some msg) [] = some (ret, vt_words) → ret = 0 ∨ ret = -2 →
      (∀ w ∈ vt_words, (w : SirenVTWord F).Fits) ∧
        ∃ infos, vt_words.mapM wordInfoOfVTWord = .ok infos

/-- If each word that is accepted is short, no list overruns a field. -/
theorem synced_lists_fit [LawfulCFloat F] (h : LTS.Reachable (State.short gen processor) s) :
    s.ListFits := by
  intro msg ret vt_words hhandling hget hret
  obtain ⟨ws, hbrief, hm⟩ := (carried h).handling msg hhandling
  obtain ⟨m', hm', -, hdecoded⟩ := exists_message_shown
    (fun w hw => legal_int (hbrief w hw).vt_type) (totalLen_lt hm)
  obtain rfl : m' = msg := Option.some.inj (hm'.symm.trans hm)
  -- the empty list is decoded to no words as well
  obtain rfl : vt_words = ws.map SirenVTWord.shown := by
    rw [hdecoded] at hget
    cases ws with
    | nil => exact (Prod.mk.inj (Option.some.inj hget)).2.symm
    | cons w ws => exact (Prod.mk.inj (Option.some.inj hget)).2.symm
  have hfits : ∀ w ∈ ws.map SirenVTWord.shown, w.Fits := by
    intro w hw
    obtain ⟨v, hv, rfl⟩ := List.mem_map.mp hw
    exact (hbrief v hv).fits
  exact ⟨hfits, _, mapM_eq_ok fun w hw => wordInfoOfVTWord_eq_ok (hfits w hw)⟩

/-! ### One word -/

/-- A word is added, and its list is taken to the process thread. -/
def oneWord (text : List UInt8) : List (Label Single) :=
  .add (some (wordOf text)) false :: List.replicate 5 (.client 0) ++
    List.replicate 9 (.request 0) ++ List.replicate 6 (.response 0) ++
    List.replicate 8 (.process 0)

theorem synced_lists_fit_one :
    ∃ s, LTS.exec (State.next oneSyllable) (State.new started : State Single silent)
      (oneWord [98]) = some s ∧ s.ListFits := by
  have hrun : (LTS.exec (State.next oneSyllable) (State.new started : State Single silent)
      (oneWord [98])).isSome = true := by
    decide +kernel
  obtain ⟨s, hs⟩ := Option.isSome_iff_exists.mp hrun
  have hshort : LTS.Reachable ((State.system oneSyllable started).restrict
      fun s l => l.Short oneSyllable s) s := LTS.reachable_restrict_of_exec rfl hs ?_
  · exact ⟨s, hs, synced_lists_fit (hshort.guarded_by fun _ _ _ hshort hstep =>
      ⟨hshort, State.next_length hstep⟩)⟩
  intro l hl s
  simp only [oneWord, List.mem_append, List.mem_cons, List.mem_replicate] at hl
  rcases hl with (((rfl | ⟨-, rfl⟩) | ⟨-, rfl⟩) | ⟨-, rfl⟩) | ⟨-, rfl⟩
  · exact fun _ => ⟨by decide, by decide, fun _ => by decide⟩
  all_goals trivial

/-- A word of 256 bytes is accepted, and reaches `syncVTWord`. -/
theorem long_word_synced : ¬ ∀ s : State Single silent,
    LTS.Reachable (State.system oneSyllable started) s → s.ListFits := by
  intro h
  have hrun : ((LTS.exec (State.next oneSyllable) (State.new started : State Single silent)
      (oneWord (List.replicate 256 98))).any fun (s : State Single silent) => decide (
        ∃ msg ∈ s.process.held [], ∃ r ∈ getVTWordFromMessage (F := Single) (some msg) [],
          r.1 = 0 ∧ ∃ w ∈ r.2, 256 ≤ w.vt_word.length)) = true := by
    decide +kernel
  obtain ⟨s, hs, hrun⟩ := (Option.any_eq_true _ _).mp hrun
  obtain ⟨msg, hmsg, ⟨ret, ws⟩, hget, hret, w, hw, hlong⟩ := of_decide_eq_true hrun
  have hhandling : s.process = .handling msg := by
    cases hprocess : s.process with
    | handling msg' =>
      rw [hprocess] at hmsg
      rw [List.mem_singleton.mp hmsg]
    | loop =>
      rw [hprocess] at hmsg
      cases hmsg
    | popping =>
      rw [hprocess] at hmsg
      cases hmsg
  have hfits := h s (LTS.reachable_of_exec rfl hs) msg ret ws hhandling hget (.inl hret)
  exact absurd (hfits.1 w hw).vt_word.2 (not_lt.mpr hlong)

end Pipeline

end BlackSiren

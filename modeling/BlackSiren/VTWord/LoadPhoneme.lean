import BlackSiren.Framework.Scan
import BlackSiren.VTWord.Pinyin

/-! # The table of phonemes

    `loadPhoneme` reads the table from the text `PHONEME`, line by line, each into an
    array of 1024 characters; the first word of a line is a head, the others are its
    contents.  All loops run until they meet a blank, a newline or a NUL.

    - `PhonemeEle`, with `genResult`
    - `getline`, `loadPhoneme`
    - `TableLine`, `table`: a text as it should be
    - `loadPhoneme_eq`: what is read from it
    - `loadPhoneme_noNuls`: the texts read from any text that can be read
-/

namespace BlackSiren

/-! ### One head -/

/-- `PhonemeEle` -/
structure PhonemeEle where
  num : Nat
  head : List UInt8
  contents : List (List UInt8)
  initials : List UInt8
  finals : List UInt8
  result : List UInt8
  deriving DecidableEq

namespace PhonemeEle

/-- `spliteHead`: what stands before the first underscore, if there is one before the
    NUL; `q` is what has been passed. -/
def spliteHead (q : List UInt8) : (line : List UInt8) → Option (List UInt8)
  | [] => none
  | p :: line =>
      if p = 0 then none
      else if p = 95 then some q
      else spliteHead (q ++ [p]) line

/-- One content with its head in front, as `genResult` puts it. -/
def withHead (content : List UInt8) : List UInt8 :=
  match spliteHead [] content with
  | some head => head ++ [124] ++ content
  | none => content

/-- `genResult` -/
def genResult (e : PhonemeEle) : PhonemeEle :=
  match e.contents with
  | [] => e
  | content :: rest =>
      let initials := withHead content
      if rest.isEmpty then { e with initials := initials, result := initials }
      else
        let finals := e.finals ++ rest.flatMap (withHead · ++ [32])
        let finals := finals.take (finals.length - 1)
        { e with
          initials := initials
          finals := finals
          result := e.result ++ initials ++ [124, 35, 32] ++ finals ++ [124, 35, 35] }

end PhonemeEle

/-! ### Reading -/

namespace SirenPhonemeGen

/-- `getline`: whether this is the last line, `offset`, and `line`. -/
def getline (PHONEME : List UInt8) :
    (fuel offset i : Nat) → (line : List UInt8) → Except Scan.Stop (Bool × Nat × List UInt8)
  | 0, _, _, _ => .error .running
  | fuel + 1, offset, i, line => do
      let c ← Scan.read PHONEME offset
      if c = 10 then
        let c' ← Scan.read PHONEME (offset + 1)
        if c' = 0 then return (true, offset, line) else return (false, offset + 1, line)
      else
        let line ← Scan.write line i c
        getline PHONEME fuel (offset + 1) (i + 1) line

/-- The loop over the contents of a line: `contents` and `num`. -/
def splitContents (line : List UInt8) (fuel : Nat) :
    (turns i : Nat) → (contents : List (List UInt8)) → (num : Nat) →
      Except Scan.Stop (List (List UInt8) × Nat)
  | 0, _, _, _ => .error .running
  | turns + 1, i, contents, num => do
      let j ← Scan.find (fun c => c = 32 || c = 0) line fuel i
      let c ← Scan.read line j
      let contents := contents ++ [(line.drop i).take (j - i)]
      if c = 0 then return (contents, num + 1)
      else splitContents line fuel turns (j + 1) contents (num + 1)

/-- `std::map::insert`: the first entry for a head stays. -/
def insert (phonemeMaps : List UInt8 → Option PhonemeEle) (e : PhonemeEle) :
    List UInt8 → Option PhonemeEle :=
  fun head => if head = e.head then (phonemeMaps head).or (some e) else phonemeMaps head

/-- The loop over the lines: `phonemeMaps`. -/
def loadLines (PHONEME : List UInt8) (fuel : Nat) :
    (turns offset : Nat) → (phonemeMaps : List UInt8 → Option PhonemeEle) →
      Except Scan.Stop (List UInt8 → Option PhonemeEle)
  | 0, _, _ => .error .running
  | turns + 1, offset, phonemeMaps => do
      let (eof, offset, line) ← getline PHONEME fuel offset 0 (List.replicate 1024 0)
      let first ← Scan.read line 0
      if first = 32 ∨ first = 0 then return phonemeMaps
      else
        let i ← Scan.find (· = 32) line fuel 0
        let (contents, num) ← splitContents line fuel fuel (i + 1) [] 0
        let line_index := PhonemeEle.genResult ⟨num, line.take i, contents, [], [], []⟩
        let phonemeMaps := insert phonemeMaps line_index
        if eof then return phonemeMaps
        else loadLines PHONEME fuel turns offset phonemeMaps

/-- `loadPhoneme`: `offset` and `phonemeMaps` afterwards. -/
def loadPhoneme (PHONEME : List UInt8) (fuel : Nat) :
    Except Scan.Stop (Nat × (List UInt8 → Option PhonemeEle)) := do
  let phonemeMaps ← loadLines PHONEME fuel fuel 0 fun _ => none
  return (0, phonemeMaps)

/-- The table as `pinyin2Phoneme` uses it. -/
def ofMaps (phonemeMaps : List UInt8 → Option PhonemeEle) : SirenPhonemeGen where
  phonemeMaps := fun head => (phonemeMaps head).map PhonemeEle.result

/-! ### Texts -/

/-- A word of a line. -/
structure Token (t : List UInt8) : Prop where
  nonempty : t ≠ []
  plain : ∀ c ∈ t, c ≠ 32 ∧ c ≠ 10 ∧ c ≠ 0

/-- A line: a head and its contents. -/
structure TableLine where
  head : List UInt8
  contents : List (List UInt8)

namespace TableLine

/-- The line with single blanks between its words. -/
def text (l : TableLine) : List UInt8 := l.head ++ 32 :: [32].intercalate l.contents

/-- It has words only, at least two, and fits the array. -/
structure Good (l : TableLine) : Prop where
  head : Token l.head
  contents : ∀ t ∈ l.contents, Token t
  nonempty : l.contents ≠ []
  short : l.text.length < 1024

end TableLine

/-- The lines, each with its newline, and the NUL at the end. -/
def table (lines : List TableLine) : List UInt8 := lines.flatMap (fun l => l.text ++ [10]) ++ [0]

/-- `x'`: what stands before the first underscore, a bar, and `x`. -/
def marked (x : List UInt8) : List UInt8 :=
  if 95 ∈ x then x.takeWhile (· ≠ 95) ++ 124 :: x else x

/-- The first content; if there are others, these behind it with blanks between them,
    each part with its end. -/
def phonemeText : List (List UInt8) → List UInt8
  | [] => []
  | [content] => marked content
  | content :: rest =>
      marked content ++ [124, 35, 32] ++ [32].intercalate (rest.map marked) ++ [124, 35, 35]

/-! ### What `genResult` gives -/

theorem spliteHead_of_mem {x : List UInt8} (hmem : 95 ∈ x) (hnul : (0 : UInt8) ∉ x)
    (q : List UInt8) : PhonemeEle.spliteHead q x = some (q ++ x.takeWhile (· ≠ 95)) := by
  induction x generalizing q with
  | nil => cases hmem
  | cons c x ih =>
    rw [List.mem_cons, not_or] at hnul
    unfold PhonemeEle.spliteHead
    rw [if_neg (Ne.symm hnul.1)]
    by_cases hc : c = 95
    · rw [if_pos hc, hc, List.takeWhile_cons_of_neg (by decide), List.append_nil]
    · have hrest : 95 ∈ x := (List.mem_cons.mp hmem).resolve_left (Ne.symm hc)
      rw [if_neg hc, ih hrest hnul.2, List.takeWhile_cons_of_pos (by simpa using hc),
        List.append_assoc]
      rfl

theorem spliteHead_of_not_mem {x : List UInt8} (hmem : 95 ∉ x) (q : List UInt8) :
    PhonemeEle.spliteHead q x = none := by
  induction x generalizing q with
  | nil => rfl
  | cons c x ih =>
    rw [List.mem_cons, not_or] at hmem
    unfold PhonemeEle.spliteHead
    split
    · rfl
    · rw [if_neg (Ne.symm hmem.1), ih hmem.2]

theorem withHead_eq {x : List UInt8} (hnul : (0 : UInt8) ∉ x) :
    PhonemeEle.withHead x = marked x := by
  unfold PhonemeEle.withHead marked
  by_cases hmem : 95 ∈ x
  · rw [spliteHead_of_mem hmem hnul, if_pos hmem, List.nil_append]
    simp only [List.append_assoc, List.singleton_append]
  · rw [spliteHead_of_not_mem hmem, if_neg hmem]

/-- The result for the contents of a line. -/
theorem genResult_result {contents : List (List UInt8)} (hne : contents ≠ [])
    (hnul : ∀ t ∈ contents, (0 : UInt8) ∉ t) (num : Nat) (head : List UInt8) :
    (PhonemeEle.genResult ⟨num, head, contents, [], [], []⟩).head = head ∧
      (PhonemeEle.genResult ⟨num, head, contents, [], [], []⟩).result = phonemeText contents := by
  cases contents with
  | nil => exact absurd rfl hne
  | cons content rest =>
    rw [List.forall_mem_cons] at hnul
    unfold PhonemeEle.genResult
    dsimp only
    rw [withHead_eq hnul.1]
    cases rest with
    | nil => exact ⟨rfl, rfl⟩
    | cons c rest =>
      have hmap : (c :: rest).flatMap (PhonemeEle.withHead · ++ [32]) =
          ((c :: rest).map marked).flatMap (· ++ [32]) := by
        rw [List.flatMap_map]
        apply List.flatMap_congr
        intro t ht
        rw [withHead_eq (hnul.2 t ht)]
      have hjoin : (c :: rest).map marked ≠ [] := List.cons_ne_nil _ _
      rw [List.isEmpty_cons, if_neg Bool.false_ne_true]
      refine ⟨rfl, ?_⟩
      show [] ++ marked content ++ [124, 35, 32] ++ _ ++ _ = _
      rw [List.nil_append, List.nil_append, hmap, SirenPhonemeGen.flatMap_blank hjoin,
        List.length_append, List.length_singleton, Nat.add_sub_cancel, List.take_left' rfl]
      rfl

/-! ### One line -/

theorem ok_bind {ε α β : Type} (a : α) (f : α → Except ε β) : (Except.ok a >>= f) = f a := rfl

/-- A line is copied to the front of the array; behind the last one a NUL is seen. -/
theorem getline_eq {body : List UInt8} (hbody : (10 : UInt8) ∉ body) (next : UInt8)
    (front rest done : List UInt8) {pad fuel : Nat} (hpad : body.length ≤ pad)
    (hfuel : body.length < fuel) :
    getline (front ++ body ++ 10 :: next :: rest) fuel front.length done.length
        (done ++ List.replicate pad 0) =
      .ok (decide (next = 0), front.length + body.length + (if next = 0 then 0 else 1),
        done ++ body ++ List.replicate (pad - body.length) 0) := by
  induction body generalizing front done pad fuel with
  | nil =>
    obtain ⟨fuel, rfl⟩ := Nat.exists_eq_succ_of_ne_zero (Nat.ne_of_gt hfuel)
    have hnext : Scan.read (front ++ 10 :: next :: rest) (front.length + 1) = .ok next := by
      have hread := Scan.read_append (front ++ [10]) next rest
      rwa [List.append_assoc, List.singleton_append, List.length_append,
        List.length_singleton] at hread
    rw [List.append_nil, List.append_nil, getline, Scan.read_append, ok_bind, if_pos rfl, hnext,
      ok_bind]
    by_cases hzero : next = 0
    · rw [if_pos hzero, if_pos hzero, decide_eq_true hzero]
      rfl
    · rw [if_neg hzero, if_neg hzero, decide_eq_false hzero]
      rfl
  | cons c body ih =>
    obtain ⟨fuel, rfl⟩ := Nat.exists_eq_succ_of_ne_zero (Nat.ne_of_gt (Nat.zero_lt_of_lt hfuel))
    obtain ⟨pad, rfl⟩ := Nat.exists_eq_succ_of_ne_zero (Nat.ne_of_gt (Nat.zero_lt_of_lt hpad))
    rw [List.mem_cons, not_or] at hbody
    have hread : Scan.read (front ++ c :: body ++ 10 :: next :: rest) front.length = .ok c := by
      rw [List.append_assoc, List.cons_append, Scan.read_append]
    have hwrite : Scan.write (done ++ List.replicate (pad + 1) 0) done.length c =
        .ok (done ++ [c] ++ List.replicate pad 0) := by
      rw [List.replicate_succ, Scan.write_append, List.append_assoc]
      rfl
    have hrest := ih hbody.2 (front ++ [c]) (done ++ [c]) (Nat.le_of_succ_le_succ hpad)
      (Nat.lt_of_succ_lt_succ hfuel)
    rw [List.length_append, List.length_singleton, List.length_append, List.length_singleton,
      List.append_assoc front, List.singleton_append] at hrest
    rw [getline, hread, ok_bind, if_neg (Ne.symm hbody.1), hwrite, ok_bind, hrest]
    simp only [List.length_cons, List.append_assoc, List.singleton_append, Nat.succ_eq_add_one,
      Nat.add_sub_add_right]
    rw [Nat.add_assoc front.length, Nat.add_comm 1]

/-- The contents of a line are cut out, one by one. -/
theorem splitContents_eq {cs : List (List UInt8)} (hne : cs ≠ []) (hcs : ∀ t ∈ cs, Token t)
    (front back : List UInt8) (acc : List (List UInt8)) (num : Nat) {turns fuel : Nat}
    (hturns : cs.length ≤ turns) (hfuel : ∀ t ∈ cs, t.length < fuel) :
    splitContents (front ++ [32].intercalate cs ++ 0 :: back) fuel turns front.length acc num =
      .ok (acc ++ cs, num + cs.length) := by
  induction cs generalizing front acc num turns with
  | nil => exact absurd rfl hne
  | cons t cs ih =>
    obtain ⟨turns, rfl⟩ := Nat.exists_eq_succ_of_ne_zero
      (Nat.ne_of_gt (Nat.lt_of_lt_of_le (Nat.zero_lt_succ _) hturns))
    rw [List.forall_mem_cons] at hcs hfuel
    have hstop : ∀ c ∈ t, (c = 32 || c = 0 : Bool) = false := by
      intro c hc
      obtain ⟨h32, _, h0⟩ := hcs.1.plain c hc
      simp [h32, h0]
    -- what the loop finds behind the content
    have hcut : ∀ (x : UInt8) (back : List UInt8),
        ((front ++ t ++ x :: back).drop front.length).take
          (front.length + t.length - front.length) = t := by
      intro x back
      rw [List.append_assoc, List.drop_left' rfl, Nat.add_sub_cancel_left, List.take_left' rfl]
    cases cs with
    | nil =>
      have hjoin : [32].intercalate [t] = t := by simp [List.intercalate]
      have hread : Scan.read (front ++ t ++ 0 :: back) (front.length + t.length) = .ok 0 := by
        have hread := Scan.read_append (front ++ t) 0 back
        rwa [List.length_append] at hread
      rw [hjoin, splitContents, Scan.find_eq hstop (by decide) front back hfuel.1, ok_bind, hread,
        ok_bind, hcut, if_pos rfl]
      rfl
    | cons t' cs =>
      have hsplit : front ++ [32].intercalate (t :: t' :: cs) ++ 0 :: back =
          front ++ t ++ 32 :: ([32].intercalate (t' :: cs) ++ 0 :: back) := by
        rw [List.intercalate_cons_cons]
        simp only [List.append_assoc, List.cons_append, List.nil_append]
      have hread : Scan.read (front ++ t ++ 32 :: ([32].intercalate (t' :: cs) ++ 0 :: back))
          (front.length + t.length) = .ok 32 := by
        have hread := Scan.read_append (front ++ t) 32 ([32].intercalate (t' :: cs) ++ 0 :: back)
        rwa [List.length_append] at hread
      have hrest := ih (List.cons_ne_nil _ _) hcs.2 (front ++ t ++ [32]) (acc ++ [t]) (num + 1)
        (Nat.le_of_succ_le_succ hturns) hfuel.2
      rw [List.length_append, List.length_append, List.length_singleton,
        List.append_assoc (front ++ t ++ [32]), List.append_assoc (front ++ t),
        List.singleton_append] at hrest
      rw [hsplit, splitContents, Scan.find_eq hstop (by decide) front _ hfuel.1, ok_bind, hread,
        ok_bind, hcut, if_neg (by decide), hrest, List.append_assoc, List.singleton_append,
        List.length_cons (a := t), Nat.add_assoc num, Nat.add_comm 1]

/-! ### The table -/

theorem Token.not_mem {t : List UInt8} (h : Token t) :
    (32 : UInt8) ∉ t ∧ 10 ∉ t ∧ (0 : UInt8) ∉ t :=
  ⟨fun hc => (h.plain 32 hc).1 rfl, fun hc => (h.plain 10 hc).2.1 rfl,
    fun hc => (h.plain 0 hc).2.2 rfl⟩

/-- The words of a line have no newline. -/
theorem TableLine.Good.not_mem_text {l : TableLine} (h : l.Good) : (10 : UInt8) ∉ l.text := by
  unfold TableLine.text
  rw [List.mem_append, List.mem_cons]
  rintro (hmem | hmem | hmem)
  · exact h.head.not_mem.2.1 hmem
  · cases hmem
  · rcases mem_of_mem_intercalate hmem with hblank | ⟨t, ht, hmem⟩
    · cases hblank
    · exact (h.contents t ht).not_mem.2.1 hmem

theorem length_le_intercalate (cs : List (List UInt8)) :
    (∀ t ∈ cs, t.length ≤ ([32].intercalate cs).length) ∧
      cs.length ≤ ([32].intercalate cs).length + 1 := by
  induction cs with
  | nil => exact ⟨List.forall_mem_nil _, Nat.zero_le _⟩
  | cons t cs ih =>
    cases cs with
    | nil =>
      have hjoin : [32].intercalate [t] = t := by simp [List.intercalate]
      rw [hjoin]
      exact ⟨List.forall_mem_singleton.mpr (le_refl _), Nat.le_add_left _ _⟩
    | cons t' cs =>
      obtain ⟨hall, hcount⟩ := ih
      have hlen : ([32].intercalate (t :: t' :: cs)).length =
          t.length + 1 + ([32].intercalate (t' :: cs)).length := by
        rw [List.intercalate_cons_cons, List.length_append, List.length_append,
          List.length_singleton]
      rw [hlen]
      constructor
      · intro u hu
        rcases List.mem_cons.mp hu with rfl | hu
        · omega
        · have hle := hall u hu
          omega
      · rw [List.length_cons]
        omega

/-- A line as it lies in the array is taken apart into its words. -/
theorem split_line {l : TableLine} (h : l.Good) {fuel : Nat} (hfuel : l.text.length < fuel)
    (back : List UInt8) :
    Scan.find (fun c => decide (c = 32)) (l.text ++ 0 :: back) fuel 0 = .ok l.head.length ∧
      (l.text ++ 0 :: back).take l.head.length = l.head ∧
      splitContents (l.text ++ 0 :: back) fuel fuel (l.head.length + 1) [] 0 =
        .ok (l.contents, l.contents.length) := by
  have htext : l.text.length = l.head.length + 1 + ([32].intercalate l.contents).length := by
    unfold TableLine.text
    rw [List.length_append, List.length_cons]
    omega
  obtain ⟨hall, hcount⟩ := length_le_intercalate l.contents
  have hhead : l.text ++ 0 :: back =
      [] ++ l.head ++ 32 :: ([32].intercalate l.contents ++ 0 :: back) := by
    unfold TableLine.text
    simp only [List.nil_append, List.append_assoc, List.cons_append]
  refine ⟨?_, ?_, ?_⟩
  · have hstop : ∀ c ∈ l.head, decide (c = 32) = false := by
      intro c hc
      rw [decide_eq_false_iff_not]
      exact (h.head.plain c hc).1
    have hpos : l.head.length < fuel := by omega
    have hfind := Scan.find_eq hstop (decide_eq_true rfl) []
      ([32].intercalate l.contents ++ 0 :: back) hpos
    rw [List.length_nil, Nat.zero_add] at hfind
    rw [hhead]
    exact hfind
  · rw [hhead, List.nil_append, List.take_left' rfl]
  · have hline : l.text ++ 0 :: back =
        l.head ++ [32] ++ [32].intercalate l.contents ++ 0 :: back := by
      rw [hhead]
      simp only [List.nil_append, List.append_assoc, List.cons_append]
    have hturns : l.contents.length ≤ fuel := by omega
    have hlengths : ∀ t ∈ l.contents, t.length < fuel := by
      intro t ht
      have hle := hall t ht
      omega
    have hsplit := splitContents_eq h.nonempty h.contents (l.head ++ [32]) back [] 0 hturns hlengths
    rw [List.length_append, List.length_singleton, List.nil_append, Nat.zero_add] at hsplit
    rw [hline, hsplit]

/-- The entry of a line. -/
def TableLine.entry (l : TableLine) : PhonemeEle :=
  PhonemeEle.genResult ⟨l.contents.length, l.head, l.contents, [], [], []⟩

theorem TableLine.Good.entry {l : TableLine} (h : l.Good) :
    l.entry.head = l.head ∧ l.entry.result = phonemeText l.contents :=
  genResult_result h.nonempty (fun t ht => (h.contents t ht).not_mem.2.2) _ _

/-- One turn on a line: the entry for its head, and on to the next line or the end. -/
theorem loadLines_cons {l : TableLine} (h : l.Good) (next : UInt8) (front rest : List UInt8)
    (turns : Nat) {fuel : Nat} (hfuel : l.text.length < fuel)
    (phonemeMaps : List UInt8 → Option PhonemeEle) :
    loadLines (front ++ l.text ++ 10 :: next :: rest) fuel (turns + 1) front.length phonemeMaps =
      if next = 0 then .ok (insert phonemeMaps l.entry)
      else loadLines (front ++ l.text ++ 10 :: next :: rest) fuel turns
        (front.length + l.text.length + 1) (insert phonemeMaps l.entry) := by
  have hshort := h.short
  obtain ⟨pad, hpad⟩ := Nat.exists_eq_add_of_lt hshort
  have hline := getline_eq h.not_mem_text next front rest [] (le_of_lt hshort) hfuel
  have hzeros : List.replicate (1024 - l.text.length) (0 : UInt8) = 0 :: List.replicate pad 0 := by
    rw [show 1024 - l.text.length = pad + 1 by omega, List.replicate_succ]
  rw [List.nil_append, List.nil_append, List.length_nil, hzeros] at hline
  obtain ⟨hfind, htake, hsplit⟩ := split_line h hfuel (List.replicate pad 0)
  -- the first character is one of the head
  obtain ⟨c, head, hhead⟩ := List.exists_cons_of_ne_nil h.head.nonempty
  have hfirst : Scan.read (l.text ++ 0 :: List.replicate pad 0) 0 = .ok c := by
    unfold TableLine.text
    rw [hhead]
    rfl
  have hplain := h.head.plain c (by rw [hhead]; exact List.mem_cons_self)
  have hstop : ¬ (c = 32 ∨ c = 0) := by
    rintro (hc | hc)
    · exact hplain.1 hc
    · exact hplain.2.2 hc
  rw [loadLines, hline, ok_bind]
  dsimp only
  rw [hfirst, ok_bind, if_neg hstop, hfind, ok_bind, hsplit, ok_bind]
  dsimp only
  rw [htake]
  by_cases hnext : next = 0
  · simp only [hnext, decide_true, if_true]
    rfl
  · simp only [hnext, decide_false, Bool.false_eq_true, if_false]
    rfl

theorem table_cons (l : TableLine) (lines : List TableLine) :
    table (l :: lines) = l.text ++ 10 :: table lines := by
  unfold table
  rw [List.flatMap_cons]
  simp only [List.append_assoc, List.cons_append, List.nil_append]

/-- The lines are read in turn. -/
theorem loadLines_eq {lines : List TableLine} (hne : lines ≠ []) (hgood : ∀ l ∈ lines, l.Good)
    (front : List UInt8) {turns fuel : Nat} (hturns : lines.length ≤ turns)
    (hfuel : ∀ l ∈ lines, l.text.length < fuel)
    (phonemeMaps : List UInt8 → Option PhonemeEle) :
    loadLines (front ++ table lines) fuel turns front.length phonemeMaps =
      .ok (lines.foldl (fun maps l => insert maps l.entry) phonemeMaps) := by
  induction lines generalizing front turns phonemeMaps with
  | nil => exact absurd rfl hne
  | cons l lines ih =>
    obtain ⟨turns, rfl⟩ := Nat.exists_eq_succ_of_ne_zero
      (Nat.ne_of_gt (Nat.lt_of_lt_of_le (Nat.zero_lt_succ _) hturns))
    rw [List.forall_mem_cons] at hgood hfuel
    rw [List.foldl_cons, table_cons, ← List.append_assoc]
    cases lines with
    | nil =>
      have hlast : table [] = [0] := rfl
      rw [hlast, loadLines_cons hgood.1 0 front [] turns hfuel.1, if_pos rfl]
      rfl
    | cons l' lines =>
      -- the next line begins with its head, which is no NUL
      have hgood' := (List.forall_mem_cons.mp hgood.2).1
      obtain ⟨c, head, hhead⟩ := List.exists_cons_of_ne_nil hgood'.head.nonempty
      have hnext : table (l' :: lines) =
          c :: (head ++ 32 :: [32].intercalate l'.contents ++ 10 :: table lines) := by
        rw [table_cons]
        unfold TableLine.text
        rw [hhead]
        rfl
      have hc : c ≠ 0 := (hgood'.head.plain c (by rw [hhead]; exact List.mem_cons_self)).2.2
      have hrest := ih (List.cons_ne_nil _ _) hgood.2 (front ++ l.text ++ [10])
        (Nat.le_of_succ_le_succ hturns) hfuel.2 (insert phonemeMaps l.entry)
      rw [List.length_append, List.length_append, List.length_singleton,
        List.append_assoc (front ++ l.text), List.singleton_append] at hrest
      rw [← hrest, hnext, loadLines_cons hgood.1 c front _ turns hfuel.1, if_neg hc]

/-- What is looked up afterwards: the entry there was, or that of the first line with this
    head. -/
theorem foldl_insert {lines : List TableLine} (hgood : ∀ l ∈ lines, l.Good)
    (phonemeMaps : List UInt8 → Option PhonemeEle) (head : List UInt8) :
    (lines.foldl (fun maps l => insert maps l.entry) phonemeMaps head) =
      (phonemeMaps head).or ((lines.find? fun l => l.head = head).map TableLine.entry) := by
  induction lines generalizing phonemeMaps with
  | nil => exact (Option.or_none).symm
  | cons l lines ih =>
    rw [List.forall_mem_cons] at hgood
    rw [List.foldl_cons, ih hgood.2]
    unfold insert
    rw [hgood.1.entry.1]
    by_cases hhead : l.head = head
    · have hfind : (l :: lines).find? (fun l => l.head = head) = some l :=
        List.find?_cons_of_pos (decide_eq_true hhead)
      rw [if_pos hhead.symm, hfind, Option.map_some]
      cases phonemeMaps head <;> rfl
    · have hfind : (l :: lines).find? (fun l => l.head = head) =
          lines.find? fun l => l.head = head :=
        List.find?_cons_of_neg (by simpa using hhead)
      rw [if_neg (Ne.symm hhead), hfind]

theorem length_le_table (lines : List TableLine) :
    lines.length ≤ (table lines).length ∧ ∀ l ∈ lines, l.text.length < (table lines).length := by
  induction lines with
  | nil => exact ⟨Nat.zero_le _, List.forall_mem_nil _⟩
  | cons l lines ih =>
    obtain ⟨hcount, hall⟩ := ih
    rw [table_cons, List.length_append, List.length_cons, List.length_cons]
    refine ⟨by omega, ?_⟩
    intro l' hl'
    rcases List.mem_cons.mp hl' with rfl | hl'
    · omega
    · have hlt := hall l' hl'
      omega

theorem loadPhoneme_of_good {lines : List TableLine} (hne : lines ≠ [])
    (hgood : ∀ l ∈ lines, l.Good) {fuel : Nat} (hfuel : (table lines).length ≤ fuel) :
    loadPhoneme (table lines) fuel =
      .ok (0, lines.foldl (fun maps l => insert maps l.entry) fun _ => none) := by
  obtain ⟨hcount, hall⟩ := length_le_table lines
  have hload := loadLines_eq hne hgood [] (le_trans hcount hfuel)
    (fun l hl => Nat.lt_of_lt_of_le (hall l hl) hfuel) fun _ => none
  rw [List.nil_append, List.length_nil] at hload
  unfold loadPhoneme
  rw [hload, ok_bind]
  rfl

/-- The table is read to its end and no further, `offset` is 0 again, and every head, and
    nothing else, has the phonemes of its first line. -/
theorem loadPhoneme_eq {lines : List TableLine} (hne : lines ≠ []) (hgood : ∀ l ∈ lines, l.Good) :
    ∃ phonemeMaps, (∀ fuel ≥ (table lines).length,
        loadPhoneme (table lines) fuel = .ok (0, phonemeMaps)) ∧
      ∀ head, (phonemeMaps head).map PhonemeEle.result =
        (lines.find? fun l => l.head = head).map fun l => phonemeText l.contents := by
  refine ⟨_, fun fuel hfuel => loadPhoneme_of_good hne hgood hfuel, ?_⟩
  intro head
  rw [foldl_insert hgood, Option.none_or, Option.map_map]
  cases hfind : lines.find? fun l => l.head = head with
  | none => rfl
  | some l => exact congrArg some (hgood l (List.mem_of_find?_eq_some hfind)).entry.2

/-! ### Marks -/

theorem mem_marked {x : List UInt8} {c : UInt8} (hmem : c ∈ marked x) : c ∈ x ∨ c = 124 := by
  unfold marked at hmem
  split at hmem
  · rcases List.mem_append.mp hmem with hfront | hback
    · exact .inl ((List.takeWhile_prefix _).subset hfront)
    · exact (List.mem_cons.mp hback).symm
  · exact .inl hmem

/-- The text of a line without NULs has none. -/
theorem not_mem_phonemeText {contents : List (List UInt8)}
    (hnul : ∀ t ∈ contents, (0 : UInt8) ∉ t) : (0 : UInt8) ∉ phonemeText contents := by
  have hmarked : ∀ t ∈ contents, (0 : UInt8) ∉ marked t := by
    intro t ht hmem
    rcases mem_marked hmem with hmem | hmem
    · exact hnul t ht hmem
    · cases hmem
  match contents with
  | [] => exact List.not_mem_nil
  | [content] => exact hmarked content List.mem_cons_self
  | content :: c :: rest =>
    intro hmem
    unfold phonemeText at hmem
    simp only [List.mem_append] at hmem
    rcases hmem with ((hmem | hmem) | hmem) | hmem
    · exact hmarked content List.mem_cons_self hmem
    · revert hmem
      decide
    · rcases mem_of_mem_intercalate hmem with hblank | ⟨t, ht, hmem⟩
      · cases hblank
      · obtain ⟨u, hu, rfl⟩ := List.mem_map.mp ht
        exact hmarked u (List.mem_cons_of_mem _ hu) hmem
    · revert hmem
      decide

/-- The texts of the table are without NULs. -/
def NoNuls (gen : SirenPhonemeGen) : Prop :=
  ∀ key text, gen.phonemeMaps key = some text → (0 : UInt8) ∉ text

/-- The contents cut out of a line end before its NUL, whatever the line. -/
theorem splitContents_noNuls {line : List UInt8} {fuel turns i : Nat}
    {contents contents' : List (List UInt8)} {num num' : Nat}
    (hnul : ∀ t ∈ contents, (0 : UInt8) ∉ t)
    (h : splitContents line fuel turns i contents num = .ok (contents', num')) :
    contents' ≠ [] ∧ ∀ t ∈ contents', (0 : UInt8) ∉ t := by
  induction turns generalizing i contents num with
  | zero => cases h
  | succ turns ih =>
    unfold splitContents at h
    obtain ⟨j, hfind, h⟩ := Access.bind_eq_ok.mp h
    obtain ⟨c, _, h⟩ := Access.bind_eq_ok.mp h
    -- the loop has passed no blank and no NUL
    have hplain : (0 : UInt8) ∉ (line.drop i).take (j - i) := by
      intro hmem
      have hstop := (Scan.find_passes hfind).2 0 hmem
      simp at hstop
    have hnul' : ∀ t ∈ contents ++ [(line.drop i).take (j - i)], (0 : UInt8) ∉ t := by
      intro t ht
      rcases List.mem_append.mp ht with ht | ht
      · exact hnul t ht
      · rw [List.mem_singleton.mp ht]
        exact hplain
    by_cases hc : c = 0
    · rw [if_pos hc] at h
      cases h
      exact ⟨List.append_ne_nil_of_right_ne_nil _ (List.cons_ne_nil _ _), hnul'⟩
    · rw [if_neg hc] at h
      exact ih hnul' h

theorem insert_noNuls {phonemeMaps : List UInt8 → Option PhonemeEle} {e : PhonemeEle}
    (hmaps : (ofMaps phonemeMaps).NoNuls) (he : (0 : UInt8) ∉ e.result) :
    (ofMaps (insert phonemeMaps e)).NoNuls := by
  intro key text htext
  obtain ⟨e', he', rfl⟩ := Option.map_eq_some_iff.mp htext
  unfold insert at he'
  split at he'
  · rcases Option.or_eq_some_iff.mp he' with hold | ⟨_, hnew⟩
    · exact hmaps key _ (Option.map_eq_some_iff.mpr ⟨e', hold, rfl⟩)
    · cases hnew
      exact he
  · exact hmaps key _ (Option.map_eq_some_iff.mpr ⟨e', he', rfl⟩)

theorem loadLines_noNuls {PHONEME : List UInt8} {fuel turns offset : Nat}
    {phonemeMaps phonemeMaps' : List UInt8 → Option PhonemeEle}
    (hmaps : (ofMaps phonemeMaps).NoNuls)
    (h : loadLines PHONEME fuel turns offset phonemeMaps = .ok phonemeMaps') :
    (ofMaps phonemeMaps').NoNuls := by
  induction turns generalizing offset phonemeMaps with
  | zero => cases h
  | succ turns ih =>
    unfold loadLines at h
    obtain ⟨⟨eof, offset, line⟩, _, h⟩ := Access.bind_eq_ok.mp h
    obtain ⟨first, _, h⟩ := Access.bind_eq_ok.mp h
    by_cases hfirst : first = 32 ∨ first = 0
    · rw [if_pos hfirst] at h
      cases h
      exact hmaps
    · rw [if_neg hfirst] at h
      obtain ⟨i, _, h⟩ := Access.bind_eq_ok.mp h
      obtain ⟨⟨contents, num⟩, hsplit, h⟩ := Access.bind_eq_ok.mp h
      -- the entry of the line is made of its contents
      obtain ⟨hne, hnul⟩ := splitContents_noNuls (List.forall_mem_nil _) hsplit
      have hresult := (genResult_result hne hnul num (line.take i)).2
      have hmaps' := insert_noNuls hmaps (hresult ▸ not_mem_phonemeText hnul)
      cases eof with
      | true =>
        cases h
        exact hmaps'
      | false => exact ih hmaps' h

/-- Whatever text is read, the texts of the table are without NULs. -/
theorem loadPhoneme_noNuls {PHONEME : List UInt8} {fuel offset : Nat}
    {phonemeMaps : List UInt8 → Option PhonemeEle}
    (h : loadPhoneme PHONEME fuel = .ok (offset, phonemeMaps)) : (ofMaps phonemeMaps).NoNuls := by
  obtain ⟨maps, hmaps, h⟩ := Access.bind_eq_ok.mp h
  cases h
  refine loadLines_noNuls ?_ hmaps
  intro key text htext
  cases htext

/-- Where the first content has an underscore, the text has a bar. -/
theorem bar_mem_phonemeText {content : List UInt8} (hmem : 95 ∈ content)
    (rest : List (List UInt8)) : 124 ∈ phonemeText (content :: rest) := by
  have hbar : 124 ∈ marked content := by
    unfold marked
    rw [if_pos hmem]
    exact List.mem_append_right _ List.mem_cons_self
  cases rest with
  | nil => exact hbar
  | cons c rest =>
    unfold phonemeText
    simp only [List.mem_append]
    exact .inl (.inl (.inl hbar))

/-! ### Two lines -/

/-- Two lines of the shipped table, `a1 a1_S` and `ai1 A1_B Y_E`. -/
def shippedLines : List TableLine :=
  [⟨[97, 49], [[97, 49, 95, 83]]⟩, ⟨[97, 105, 49], [[65, 49, 95, 66], [89, 95, 69]]⟩]

theorem good_shippedLines : ∀ l ∈ shippedLines, l.Good := by
  have htoken : ∀ t ∈ shippedLines.flatMap (fun l => l.head :: l.contents), Token t := by
    intro t ht
    have hall : ∀ t ∈ shippedLines.flatMap (fun l => l.head :: l.contents),
        t ≠ [] ∧ ∀ c ∈ t, c ≠ 32 ∧ c ≠ 10 ∧ c ≠ 0 := by decide +kernel
    exact ⟨(hall t ht).1, (hall t ht).2⟩
  have hrest : ∀ l ∈ shippedLines, l.contents ≠ [] ∧ l.text.length < 1024 := by
    decide +kernel
  intro l hl
  refine ⟨?_, ?_, (hrest l hl).1, (hrest l hl).2⟩
  · exact htoken _ (List.mem_flatMap.mpr ⟨l, hl, List.mem_cons_self⟩)
  · intro t ht
    exact htoken t (List.mem_flatMap.mpr ⟨l, hl, List.mem_cons_of_mem _ ht⟩)

theorem loadPhoneme_shippedLines : ∃ phonemeMaps,
    (∀ fuel ≥ (table shippedLines).length,
      loadPhoneme (table shippedLines) fuel = .ok (0, phonemeMaps)) ∧
    ∀ head, (phonemeMaps head).map PhonemeEle.result =
      (shippedLines.find? fun l => l.head = head).map fun l => phonemeText l.contents :=
  loadPhoneme_eq (by decide) good_shippedLines

/-- What stands for `ai1`: `A1|A1_B|# Y|Y_E|##`. -/
example : (shippedLines.find? fun l => l.head = [97, 105, 49]).map (phonemeText ·.contents) =
    some [65, 49, 124, 65, 49, 95, 66, 124, 35, 32, 89, 124, 89, 95, 69, 124, 35, 35] := by
  decide

end SirenPhonemeGen

end BlackSiren

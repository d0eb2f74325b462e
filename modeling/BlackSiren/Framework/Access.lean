import Mathlib.Data.List.Basic
import Mathlib.Data.List.GetD

/-! # Checked accesses

    Computations that stop at the first access outside an array:

    - `read` and `write`: an access by a signed index
    - `Returns`: every access is inside, with a rule for each way to put accesses
      together
    - `Only`: the computation fails in one way at most
-/

namespace Access

variable {ε α β σ : Type}

/-- The element at a signed index. -/
def read (outside : ε) (l : List α) (i : Int) : Except ε α :=
  if 0 ≤ i then
    match l[i.toNat]? with
    | some a => .ok a
    | none => .error outside
  else .error outside

/-- The array with the element at a signed index replaced. -/
def write (outside : ε) (l : List α) (i : Int) (a : α) : Except ε (List α) :=
  if 0 ≤ i ∧ i < l.length then .ok (l.set i.toNat a) else .error outside

/-! ### Returning -/

/-- The computation returns. -/
def Returns (x : Except ε α) : Prop := ∃ a, x = .ok a

theorem returns_ok (a : α) : Returns (.ok a : Except ε α) := ⟨a, rfl⟩

theorem not_returns_error (e : ε) : ¬ Returns (.error e : Except ε α) := by
  rintro ⟨a, h⟩
  cases h

/-- Peel the first computation off a sequence that has returned. -/
theorem bind_eq_ok {x : Except ε α} {f : α → Except ε β} {b : β} :
    (x >>= f) = .ok b ↔ ∃ a, x = .ok a ∧ f a = .ok b := by
  cases x with
  | error e =>
    constructor
    · intro h
      cases h
    · rintro ⟨a, h, _⟩
      cases h
  | ok a =>
    constructor
    · intro h
      exact ⟨a, rfl, h⟩
    · rintro ⟨a', h, hf⟩
      cases h
      exact hf

/-- The failure of a sequence is the failure of one of its computations. -/
theorem bind_eq_error {x : Except ε α} {f : α → Except ε β} {e : ε} :
    (x >>= f) = .error e ↔ x = .error e ∨ ∃ a, x = .ok a ∧ f a = .error e := by
  cases x with
  | error e' =>
    constructor
    · intro h
      cases h
      exact .inl rfl
    · rintro (h | ⟨a, h, _⟩)
      · cases h
        rfl
      · cases h
  | ok a =>
    constructor
    · intro h
      exact .inr ⟨a, rfl, h⟩
    · rintro (h | ⟨a', h, hf⟩)
      · cases h
      · cases h
        exact hf

theorem returns_bind_iff {x : Except ε α} {f : α → Except ε β} :
    Returns (x >>= f) ↔ ∃ a, x = .ok a ∧ Returns (f a) := by
  constructor
  · rintro ⟨b, h⟩
    obtain ⟨a, hx, hf⟩ := bind_eq_ok.mp h
    exact ⟨a, hx, b, hf⟩
  · rintro ⟨a, hx, b, hf⟩
    exact ⟨b, bind_eq_ok.mpr ⟨a, hx, hf⟩⟩

theorem returns_bind_pure_iff {x : Except ε α} {g : α → β} :
    Returns (x >>= fun a => pure (g a)) ↔ Returns x := by
  rw [returns_bind_iff]
  constructor
  · rintro ⟨a, hx, _⟩
    exact ⟨a, hx⟩
  · rintro ⟨a, hx⟩
    exact ⟨a, hx, returns_ok (g a)⟩

/-- The second computation does not depend on what the first has found. -/
theorem returns_bind_and {x : Except ε α} {f : α → Except ε β} {P : Prop}
    (h : ∀ a, x = .ok a → (Returns (f a) ↔ P)) : Returns (x >>= f) ↔ Returns x ∧ P := by
  rw [returns_bind_iff]
  constructor
  · rintro ⟨a, hx, hf⟩
    exact ⟨⟨a, hx⟩, (h a hx).mp hf⟩
  · rintro ⟨⟨a, hx⟩, hp⟩
    exact ⟨a, hx, (h a hx).mpr hp⟩

theorem returns_read_iff (outside : ε) {l : List α} {i : Int} :
    Returns (read outside l i) ↔ 0 ≤ i ∧ i < l.length := by
  unfold read
  by_cases hi : 0 ≤ i
  · rw [if_pos hi]
    by_cases hlt : i.toNat < l.length
    · rw [List.getElem?_eq_getElem hlt]
      exact ⟨fun _ => ⟨hi, by omega⟩, fun _ => returns_ok _⟩
    · rw [List.getElem?_eq_none (by omega)]
      constructor
      · intro h
        exact absurd h (not_returns_error outside)
      · rintro ⟨_, h⟩
        omega
  · rw [if_neg hi]
    constructor
    · intro h
      exact absurd h (not_returns_error outside)
    · rintro ⟨h, _⟩
      exact absurd h hi

theorem read_eq_ok {outside : ε} {l : List α} {i : Int} {a : α} (h : read outside l i = .ok a) :
    l[i.toNat]? = some a := by
  unfold read at h
  split at h
  · split at h
    · next hget =>
      cases h
      exact hget
    · cases h
  · cases h

theorem returns_write_iff {outside : ε} {l : List α} {i : Int} {a : α} :
    Returns (write outside l i a) ↔ 0 ≤ i ∧ i < l.length := by
  unfold write
  split
  · next h => exact ⟨fun _ => h, fun _ => returns_ok _⟩
  · next h =>
    constructor
    · intro hr
      exact absurd hr (not_returns_error outside)
    · intro hi
      exact absurd hi h

theorem write_eq_ok {outside : ε} {l l' : List α} {i : Int} {a : α}
    (h : write outside l i a = .ok l') : l' = l.set i.toNat a := by
  unfold write at h
  split at h
  · exact (Except.ok.inj h).symm
  · cases h

/-- A loop that collects. -/
theorem returns_mapM_iff {f : α → Except ε β} {l : List α} :
    Returns (l.mapM f) ↔ ∀ a ∈ l, Returns (f a) := by
  induction l with
  | nil => exact ⟨fun _ => by simp, fun _ => returns_ok []⟩
  | cons a l ih =>
    rw [List.mapM_cons, List.forall_mem_cons, ← ih]
    apply returns_bind_and
    intro b _
    exact returns_bind_pure_iff

/-- A loop of which every turn returns. -/
theorem mapM_eq_ok {f : α → Except ε β} {g : α → β} {l : List α}
    (h : ∀ a ∈ l, f a = .ok (g a)) : l.mapM f = .ok (l.map g) := by
  induction l with
  | nil => rfl
  | cons a l ih =>
    rw [List.mapM_cons, h a List.mem_cons_self, ih fun a ha => h a (List.mem_cons_of_mem _ ha)]
    rfl

/-- A loop of checks that all succeed. -/
theorem forM_eq_ok {f : α → Except ε PUnit} {l : List α} (h : ∀ a ∈ l, f a = .ok ⟨⟩) :
    l.forM f = .ok ⟨⟩ := by
  induction l with
  | nil => rfl
  | cons a l ih =>
    show (f a >>= fun _ => l.forM f) = _
    rw [h a List.mem_cons_self]
    exact ih fun a ha => h a (List.mem_cons_of_mem _ ha)

/-- A loop over the indices of an array. -/
theorem mapM_read {outside : ε} {l : List α} {f : Nat → α → Except ε β} {g : Nat → α → β}
    (h : ∀ i a, l[i]? = some a → f i a = .ok (g i a)) :
    (List.range l.length).mapM (fun (i : Nat) => read outside l i >>= f i) =
      .ok (l.mapIdx g) := by
  cases l with
  | nil => rfl
  | cons a₀ l =>
    have hturn : ∀ i ∈ List.range (a₀ :: l).length, (read outside (a₀ :: l) (i : Nat) >>= f i) =
        .ok (g i ((a₀ :: l).getD i a₀)) := by
      intro i hi
      have hlt := List.mem_range.mp hi
      have hget : (a₀ :: l)[i]? = some ((a₀ :: l).getD i a₀) := by
        rw [List.getD_eq_getElem _ _ hlt]
        exact List.getElem?_eq_getElem hlt
      unfold read
      rw [if_pos (by omega), Int.toNat_natCast, hget]
      exact h i _ hget
    rw [mapM_eq_ok hturn]
    congr 1
    apply List.ext_getElem
    · simp
    · intro i _ hi
      rw [List.length_mapIdx] at hi
      rw [List.getElem_map, List.getElem_range, List.getElem_mapIdx,
        List.getD_eq_getElem _ _ hi]

/-- The failure of a loop is the failure of one of its turns. -/
theorem mapM_eq_error {f : α → Except ε β} {l : List α} {e : ε} (h : l.mapM f = .error e) :
    ∃ a ∈ l, f a = .error e := by
  induction l with
  | nil => cases h
  | cons a l ih =>
    rw [List.mapM_cons] at h
    -- the first turn fails, or the rest does; collecting the results cannot
    rcases bind_eq_error.mp h with h | ⟨_, _, h⟩
    · exact ⟨a, List.mem_cons_self, h⟩
    · rcases bind_eq_error.mp h with h | ⟨_, _, h⟩
      · obtain ⟨a', ha', hf⟩ := ih h
        exact ⟨a', List.mem_cons_of_mem _ ha', hf⟩
      · cases h

theorem length_of_mapM {f : α → Except ε β} {l : List α} {bs : List β} (h : l.mapM f = .ok bs) :
    bs.length = l.length := by
  induction l generalizing bs with
  | nil =>
    cases h
    rfl
  | cons a l ih =>
    rw [List.mapM_cons] at h
    obtain ⟨b, _, h⟩ := bind_eq_ok.mp h
    obtain ⟨bs', hbs, h⟩ := bind_eq_ok.mp h
    cases h
    rw [List.length_cons, List.length_cons, ih hbs]

/-- Turn `i` gives entry `i`. -/
theorem getElem?_of_mapM {f : α → Except ε β} {l : List α} {bs : List β} (h : l.mapM f = .ok bs)
    {i : Nat} {a : α} (ha : l[i]? = some a) : ∃ b, bs[i]? = some b ∧ f a = .ok b := by
  induction l generalizing bs i with
  | nil => cases ha
  | cons a' l ih =>
    rw [List.mapM_cons] at h
    obtain ⟨b, hb, h⟩ := bind_eq_ok.mp h
    obtain ⟨bs', hbs, h⟩ := bind_eq_ok.mp h
    cases h
    cases i with
    | zero =>
      cases ha
      exact ⟨b, rfl, hb⟩
    | succ i => exact ih hbs ha

/-- A view of the results that a view of the entries gives as well. -/
theorem map_eq_of_mapM {γ : Type} {f : α → Except ε β} {g : β → γ} {k : α → γ}
    (hf : ∀ a b, f a = .ok b → g b = k a) {l : List α} {bs : List β} (h : l.mapM f = .ok bs) :
    bs.map g = l.map k := by
  induction l generalizing bs with
  | nil =>
    cases h
    rfl
  | cons a l ih =>
    rw [List.mapM_cons] at h
    obtain ⟨b, hb, h⟩ := bind_eq_ok.mp h
    obtain ⟨bs', hbs, h⟩ := bind_eq_ok.mp h
    cases h
    rw [List.map_cons, List.map_cons, hf a b hb, ih hbs]

/-- What holds of every result of a turn holds of what the loop collects. -/
theorem forall_of_mapM {f : α → Except ε β} {P : β → Prop} (hf : ∀ a b, f a = .ok b → P b)
    {l : List α} {bs : List β} (h : l.mapM f = .ok bs) : ∀ b ∈ bs, P b := by
  induction l generalizing bs with
  | nil =>
    cases h
    simp
  | cons a l ih =>
    rw [List.mapM_cons] at h
    obtain ⟨b, hb, h⟩ := bind_eq_ok.mp h
    obtain ⟨bs', hbs, h⟩ := bind_eq_ok.mp h
    cases h
    exact List.forall_mem_cons.mpr ⟨hf a b hb, ih hbs⟩

/-- A loop that changes a state and of which every turn returns. -/
theorem foldlM_eq_ok {f : σ → α → Except ε σ} {g : σ → α → σ} {l : List α}
    (h : ∀ s, ∀ a ∈ l, f s a = .ok (g s a)) (s : σ) : l.foldlM f s = .ok (l.foldl g s) := by
  induction l generalizing s with
  | nil => rfl
  | cons a l ih =>
    rw [List.foldlM_cons, h s a List.mem_cons_self, List.foldl_cons]
    exact ih (fun s a ha => h s a (List.mem_cons_of_mem _ ha)) (g s a)

theorem invariant_of_foldlM {f : σ → α → Except ε σ} {P : σ → Prop}
    (hinv : ∀ s a s', P s → f s a = .ok s' → P s') {l : List α} {s s' : σ} (hs : P s)
    (h : l.foldlM f s = .ok s') : P s' := by
  induction l generalizing s with
  | nil =>
    cases h
    exact hs
  | cons a l ih =>
    rw [List.foldlM_cons] at h
    obtain ⟨s₁, h₁, h⟩ := bind_eq_ok.mp h
    exact ih (hinv s a s₁ hs h₁) h

/-- A loop that changes a state, of which only an invariant matters to the
    accesses. -/
theorem returns_foldlM_iff {f : σ → α → Except ε σ} {P : σ → Prop} {Q : α → Prop} {l : List α}
    (hstep : ∀ s a, P s → (Returns (f s a) ↔ Q a))
    (hinv : ∀ s a s', P s → f s a = .ok s' → P s') {s : σ} (hs : P s) :
    Returns (l.foldlM f s) ↔ ∀ a ∈ l, Q a := by
  induction l generalizing s with
  | nil => exact ⟨fun _ => by simp, fun _ => returns_ok s⟩
  | cons a l ih =>
    rw [List.foldlM_cons, List.forall_mem_cons, ← hstep s a hs]
    apply returns_bind_and
    intro s' hs'
    exact ih (hinv s a s' hs hs')

/-! ### Failing -/

/-- Every failure is `e`. -/
def Only (e : ε) (x : Except ε α) : Prop := ∀ e', x = .error e' → e' = e

theorem only_ok (e : ε) (a : α) : Only e (.ok a) := by
  intro e' h
  cases h

theorem only_bind {e : ε} {x : Except ε α} {f : α → Except ε β} (hx : Only e x)
    (hf : ∀ a, Only e (f a)) : Only e (x >>= f) := by
  cases x with
  | error e₁ => exact fun e' h => hx e' (by cases h; rfl)
  | ok a => exact hf a

theorem only_read (e : ε) (l : List α) (i : Int) : Only e (read e l i) := by
  intro e' h
  unfold read at h
  split at h
  · split at h
    · cases h
    · cases h
      rfl
  · cases h
    rfl

theorem only_write (e : ε) (l : List α) (i : Int) (a : α) : Only e (write e l i a) := by
  intro e' h
  unfold write at h
  split at h
  · cases h
  · cases h
    rfl

theorem only_mapM {e : ε} {f : α → Except ε β} (hf : ∀ a, Only e (f a)) (l : List α) :
    Only e (l.mapM f) := by
  induction l with
  | nil => exact only_ok e []
  | cons a l ih =>
    rw [List.mapM_cons]
    exact only_bind (hf a) fun b => only_bind ih fun bs => only_ok e _

theorem only_foldlM {e : ε} {f : σ → α → Except ε σ} (hf : ∀ s a, Only e (f s a)) (l : List α)
    (s : σ) : Only e (l.foldlM f s) := by
  induction l generalizing s with
  | nil => exact only_ok e s
  | cons a l ih =>
    rw [List.foldlM_cons]
    exact only_bind (hf s a) fun s' => ih s'

/-- A computation that fails in one way only returns, or fails that way. -/
theorem not_returns_iff {e : ε} {x : Except ε α} (h : Only e x) : ¬ Returns x ↔ x = .error e := by
  cases x with
  | error e' =>
    rw [h e' rfl]
    exact ⟨fun _ => rfl, fun _ => not_returns_error e⟩
  | ok a =>
    constructor
    · intro hr
      exact absurd (returns_ok a) hr
    · intro hx
      cases hx

end Access

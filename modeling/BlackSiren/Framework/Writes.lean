import Mathlib.Data.List.ProdSigma
import Mathlib.Logic.Function.Basic

/-! # Loops of writes

    A loop that stores one value in each turn, at a place and with a value that
    depend on the turn only:

    - `fill`, and `foldl_fill` for two nested loops
    - `fill_of_forall_ne`: what no turn writes is kept
    - `fill_apply`: what the turns that share a place agree on is there after
      the loop
    - `fill_apply_of_pairwise`: otherwise the last of them decides
-/

namespace Writes

variable {α β ι κ : Type} [DecidableEq ι]

/-- `for a in l: m[pos a] = val a`. -/
def fill (pos : α → ι) (val : α → β) (m : ι → β) (l : List α) : ι → β :=
  l.foldl (fun m a => Function.update m (pos a) (val a)) m

variable {pos : α → ι} {val : α → β} {l : List α}

theorem fill_cons (m : ι → β) (a : α) :
    fill pos val m (a :: l) = fill pos val (Function.update m (pos a) (val a)) l := rfl

theorem fill_append (m : ι → β) (l₁ l₂ : List α) :
    fill pos val m (l₁ ++ l₂) = fill pos val (fill pos val m l₁) l₂ :=
  List.foldl_append

theorem fill_map (f : κ → α) (m : ι → β) (ks : List κ) :
    fill pos val m (ks.map f) = fill (fun k => pos (f k)) (fun k => val (f k)) m ks :=
  List.foldl_map

theorem fill_of_forall_ne {i : ι} (h : ∀ a ∈ l, pos a ≠ i) (m : ι → β) :
    fill pos val m l i = m i := by
  induction l generalizing m with
  | nil => rfl
  | cons a l ih =>
    obtain ⟨ha, hl⟩ := List.forall_mem_cons.mp h
    rw [fill_cons, ih hl, Function.update_of_ne ha.symm]

theorem fill_apply {a : α} (ha : a ∈ l) (hval : ∀ b ∈ l, pos b = pos a → val b = val a)
    (m : ι → β) : fill pos val m l (pos a) = val a := by
  induction l generalizing m a with
  | nil => cases ha
  | cons b l ih =>
    obtain ⟨hb, hl⟩ := List.forall_mem_cons.mp hval
    rw [fill_cons]
    by_cases hmem : ∃ c ∈ l, pos c = pos a
    · -- a later turn writes the place again
      obtain ⟨c, hc, hpos⟩ := hmem
      rw [← hpos, ← hl c hc hpos]
      refine ih hc ?_ _
      intro d hd hdc
      rw [hl d hd (hdc.trans hpos), hl c hc hpos]
    · have hlast : ∀ c ∈ l, pos c ≠ pos a := fun c hc hpos => hmem ⟨c, hc, hpos⟩
      have hab : a = b := by
        rcases List.mem_cons.mp ha with h | h
        · exact h
        · exact absurd rfl (hlast a h)
      rw [fill_of_forall_ne hlast, hab, Function.update_self]

/-- The last of the turns that share a place decides. -/
theorem fill_apply_of_pairwise {r : α → α → Prop} (hr : ∀ a b, r a b → ¬ r b a)
    (hl : l.Pairwise r) {a : α} (ha : a ∈ l)
    (hlast : ∀ b ∈ l, pos b = pos a → b = a ∨ r b a) (m : ι → β) :
    fill pos val m l (pos a) = val a := by
  obtain ⟨l₁, l₂, rfl⟩ := List.append_of_mem ha
  have hafter : ∀ b ∈ l₂, r a b := (List.pairwise_cons.mp (List.pairwise_append.mp hl).2.1).1
  rw [fill_append, fill_cons, fill_of_forall_ne, Function.update_self]
  intro b hb hpos
  have hmem : b ∈ l₁ ++ a :: l₂ := List.mem_append_right _ (List.mem_cons_of_mem _ hb)
  rcases hlast b hmem hpos with rfl | hba
  · exact hr b b (hafter b hb) (hafter b hb)
  · exact hr a b (hafter b hb) hba

/-- Two nested loops are one loop over the pairs. -/
theorem foldl_fill (pos : κ → α → ι) (val : κ → α → β) (m : ι → β) (ks : List κ) (l : List α) :
    ks.foldl (fun m k => fill (pos k) (val k) m l) m =
      fill (fun p : κ × α => pos p.1 p.2) (fun p => val p.1 p.2) m (ks ×ˢ l) := by
  induction ks generalizing m with
  | nil => rfl
  | cons k ks ih =>
    rw [List.foldl_cons, ih, List.product_cons, fill_append, fill_map]

/-- The order of the turns of two nested loops over ranges. -/
def Before (p q : Nat × Nat) : Prop := p.1 < q.1 ∨ p.1 = q.1 ∧ p.2 < q.2

theorem Before.asymm (p q : Nat × Nat) (h : Before p q) : ¬ Before q p := by
  unfold Before at h ⊢
  omega

theorem pairwise_before (m n : Nat) : (List.range m ×ˢ List.range n).Pairwise Before := by
  apply List.pairwise_flatMap.mpr
  constructor
  · intro j _
    rw [List.pairwise_map]
    exact List.pairwise_lt_range.imp fun h => .inr ⟨rfl, h⟩
  · refine List.pairwise_lt_range.imp ?_
    intro j j' hlt p hp q hq
    obtain ⟨_, _, rfl⟩ := List.mem_map.mp hp
    obtain ⟨_, _, rfl⟩ := List.mem_map.mp hq
    exact .inl hlt

end Writes

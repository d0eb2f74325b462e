import Mathlib.Data.List.Nodup

/-! # Lists of elements with different keys

    - `Distinct`: no key twice
    - `find?`: where a key stands first
    - `find?_eq_some`: the list around this place
    - `Distinct.concat` and `Distinct.eraseIdx`: what is added and removed
    - `find?_concat`: an element that has just been added
    - `foldl_field`: what members with different keys set, in any order
-/

namespace Keyed

variable {α κ : Type} (key : α → κ)

/-- No two elements have the same key. -/
def Distinct (l : List α) : Prop := l.Pairwise fun a b => key a ≠ key b

/-- The first place of a key. -/
def find? [DecidableEq κ] (k : κ) (l : List α) : Option Nat := l.findIdx? fun a => k = key a

variable {key} [DecidableEq κ] {k : κ} {l : List α}

theorem find?_eq_none : find? key k l = none ↔ ∀ a ∈ l, key a ≠ k := by
  unfold find?
  rw [List.findIdx?_eq_none_iff]
  constructor
  · intro h a ha heq
    have hfalse := h a ha
    rw [decide_eq_false_iff_not] at hfalse
    exact hfalse heq.symm
  · intro h a ha
    rw [decide_eq_false_iff_not]
    exact fun heq => h a ha heq.symm

/-- What is in front of the place, at it and behind it. -/
theorem find?_eq_some {i : Nat} (h : find? key k l = some i) :
    ∃ front a back, l = front ++ a :: back ∧ front.length = i ∧ key a = k ∧
      ∀ b ∈ front, key b ≠ k := by
  unfold find? at h
  obtain ⟨hi, hkey, hbefore⟩ := List.findIdx?_eq_some_iff_getElem.mp h
  refine ⟨l.take i, l[i], l.drop (i + 1), ?_, ?_, (of_decide_eq_true hkey).symm, ?_⟩
  · rw [← List.drop_eq_getElem_cons hi, List.take_append_drop]
  · rw [List.length_take]
    omega
  · intro b hb
    obtain ⟨j, hj, rfl⟩ := List.getElem_of_mem hb
    rw [List.length_take] at hj
    have hne := hbefore j (by omega)
    rw [List.getElem_take]
    intro heq
    exact absurd (decide_eq_true heq.symm) hne

theorem eraseIdx_length_append (front : List α) (a : α) (back : List α) :
    (front ++ a :: back).eraseIdx front.length = front ++ back := by
  rw [List.eraseIdx_append_of_length_le (Nat.le_refl _), Nat.sub_self, List.eraseIdx_cons_zero]

omit [DecidableEq κ] in
theorem Distinct.concat {a : α} (h : Distinct key l) (ha : ∀ b ∈ l, key b ≠ key a) :
    Distinct key (l ++ [a]) := by
  unfold Distinct
  rw [List.pairwise_append]
  refine ⟨h, List.pairwise_singleton _ _, ?_⟩
  intro b hb c hc
  rw [List.mem_singleton.mp hc]
  exact ha b hb

omit [DecidableEq κ] in
theorem Distinct.eraseIdx (h : Distinct key l) (i : Nat) : Distinct key (l.eraseIdx i) :=
  List.Pairwise.sublist (List.eraseIdx_sublist l i) h

omit [DecidableEq κ] in
/-- Around an element of the list no other one has its key. -/
theorem Distinct.others {front back : List α} {a : α} (h : Distinct key (front ++ a :: back)) :
    ∀ b ∈ front ++ back, key b ≠ key a := by
  obtain ⟨_, hback, hfront⟩ := List.pairwise_append.mp h
  intro b hb
  rcases List.mem_append.mp hb with hb | hb
  · exact hfront b hb a List.mem_cons_self
  · exact Ne.symm ((List.pairwise_cons.mp hback).1 b hb)

/-- An element that has just been added is found at the end. -/
theorem find?_concat {a : α} (h : find? key (key a) l = none) :
    find? key (key a) (l ++ [a]) = some l.length := by
  unfold find? at h ⊢
  rw [List.findIdx?_append, h]
  simp

/-! ### Members -/

variable {β σ γ : Type} {members : List (κ × β)} {v : β}

omit [DecidableEq κ] in
theorem distinct_iff_nodup : Distinct key l ↔ (l.map key).Nodup := List.pairwise_map.symm

theorem lookup_of_mem (h : Distinct Prod.fst members) (hm : (k, v) ∈ members) :
    members.lookup k = some v := by
  obtain ⟨front, back, rfl⟩ := List.append_of_mem hm
  refine List.lookup_eq_some_iff.mpr ⟨front, back, rfl, fun m hfront => ?_⟩
  exact bne_iff_ne.mpr (Ne.symm (h.others m (List.mem_append_left _ hfront)))

omit [DecidableEq κ] in
/-- A field that one key sets, and no other, is what the member with this key makes it. -/
theorem foldl_field {step : σ → κ × β → σ} (field : σ → γ) {x : γ}
    (hset : ∀ c, field (step c (k, v)) = x)
    (hother : ∀ c m, m.1 ≠ k → field (step c m) = field c)
    (h : Distinct Prod.fst members) (hm : (k, v) ∈ members) (c : σ) :
    field (members.foldl step c) = x := by
  have hothers : ∀ (l : List (κ × β)) (c : σ), (∀ m ∈ l, m.1 ≠ k) →
      field (l.foldl step c) = field c := by
    intro l
    induction l with
    | nil => exact fun _ _ => rfl
    | cons m l ih =>
      intro c hl
      rw [List.foldl_cons, ih _ fun m' hm' => hl m' (List.mem_cons_of_mem _ hm')]
      exact hother c m (hl m List.mem_cons_self)
  obtain ⟨front, back, rfl⟩ := List.append_of_mem hm
  rw [List.foldl_append, List.foldl_cons,
    hothers back _ fun m hback => h.others m (List.mem_append_right _ hback)]
  exact hset _

end Keyed

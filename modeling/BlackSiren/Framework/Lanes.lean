import Mathlib.Data.Int.CardIntervalMod
import Mathlib.Data.List.Sort

/-! # Streams over lanes

    A stream is spread over `cap` lanes, each of which keeps its order, and read
    back from the lanes in turn.  What goes in as the `k`-th of lane `i` comes
    out as number `i + cap * k`: its place.

    - `places`: the places of a stream
    - `lane_places`: one lane
    - `places_in_turn`: reading in turn
    - `prefix_of_lanes`, `ascend_of_prefix`: what is read in turn keeps an order
      that the places respect, and no other
-/

namespace Lanes

variable {α : Type*}

/-- The elements of a stream of (lane, element) pairs with their places. -/
def places (cap : Nat) (l : List (Nat × α)) : List (Nat × α) :=
  l.foldl (fun acc e => acc ++ [(e.1 + cap * acc.countP (fun a => a.1 % cap = e.1), e.2)]) []

theorem places_concat (cap : Nat) (l : List (Nat × α)) (e : Nat × α) :
    places cap (l ++ [e]) = places cap l ++
      [(e.1 + cap * (places cap l).countP (fun a => a.1 % cap = e.1), e.2)] := by
  simp [places, List.foldl_append]

theorem map_snd_places (cap : Nat) (l : List (Nat × α)) :
    (places cap l).map Prod.snd = l.map Prod.snd := by
  induction l using List.reverseRecOn with
  | nil => rfl
  | append_singleton l e ih => rw [places_concat, List.map_append, List.map_append, ih]; rfl

/-- In one lane, places go up by `cap`. -/
theorem lane_places {cap : Nat} {l : List (Nat × α)} (hl : ∀ e ∈ l, e.1 < cap) (i : Nat) :
    (places cap l).filter (fun a => a.1 % cap = i) =
      ((l.filter (fun e => e.1 = i)).zipIdx).map (fun e => (i + cap * e.2, e.1.2)) := by
  induction l using List.reverseRecOn with
  | nil => rfl
  | append_singleton l e ih =>
    have hlt : e.1 < cap := hl e (by simp)
    have ih' := ih fun e he => hl e (by simp [he])
    have hmod : ∀ k, (e.1 + cap * k) % cap = e.1 := by
      intro k
      rw [Nat.add_mul_mod_self_left, Nat.mod_eq_of_lt hlt]
    rw [places_concat, List.filter_append, List.filter_append, ih']
    by_cases hi : e.1 = i
    · have hcount : (places cap l).countP (fun a => a.1 % cap = i) =
          (l.filter (fun e => e.1 = i)).length := by
        rw [List.countP_eq_length_filter, ih', List.length_map, List.length_zipIdx]
      rw [hi] at hmod ⊢
      simp [hmod, hcount, hi, List.zipIdx_append]
    · have hsnd : [e].filter (fun e => e.1 = i) = [] := by simp [hi]
      simp [hmod, hi]

/-- The element at place `n` is the `n / cap`-th of its lane. -/
theorem mem_places {cap : Nat} {l : List (Nat × α)} (hcap : 0 < cap) (hl : ∀ e ∈ l, e.1 < cap)
    {n : Nat} {x : α} :
    (n, x) ∈ places cap l ↔
      ((l.filter (fun e => e.1 = n % cap))[n / cap]?).map Prod.snd = some x := by
  have hlane : (n, x) ∈ places cap l ↔
      (n, x) ∈ ((l.filter (fun e => e.1 = n % cap)).zipIdx).map
        (fun e => (n % cap + cap * e.2, e.1.2)) := by
    rw [← lane_places hl, List.mem_filter]
    simp
  rw [hlane, List.mem_map]
  constructor
  · rintro ⟨⟨e, k⟩, hk, heq⟩
    obtain ⟨hn, hx⟩ := Prod.mk.inj heq
    -- the place tells the lane and the position in it
    have hdiv : k = n / cap := by
      apply Nat.eq_of_mul_eq_mul_left hcap
      have hsplit := Nat.mod_add_div n cap
      have hn' : n % cap + cap * k = n := hn
      omega
    have hget : (l.filter (fun e => e.1 = n % cap))[k]? = some e :=
      List.mem_zipIdx_iff_getElem?.mp hk
    rw [← hdiv, hget, ← hx]
    rfl
  · intro h
    obtain ⟨e, hget, hx⟩ := Option.map_eq_some_iff.mp h
    refine ⟨(e, n / cap), List.mem_zipIdx_iff_getElem?.mpr hget, ?_⟩
    rw [← hx]
    show (n % cap + cap * (n / cap), e.2) = (n, e.2)
    rw [Nat.mod_add_div]

/-- What has come out of each lane first has the same place in both streams. -/
theorem places_subset {cap : Nat} {l l' : List (Nat × α)} (hcap : 0 < cap)
    (hl : ∀ e ∈ l, e.1 < cap) (hl' : ∀ e ∈ l', e.1 < cap)
    (h : ∀ i, l.filter (fun e => e.1 = i) <+: l'.filter (fun e => e.1 = i)) {a : Nat × α}
    (ha : a ∈ places cap l) : a ∈ places cap l' := by
  obtain ⟨n, x⟩ := a
  rw [mem_places hcap hl] at ha
  rw [mem_places hcap hl']
  obtain ⟨rest, hrest⟩ := h (n % cap)
  obtain ⟨e, hget, hx⟩ := Option.map_eq_some_iff.mp ha
  obtain ⟨hlt, _⟩ := List.getElem?_eq_some_iff.mp hget
  rw [← hrest, List.getElem?_append_left hlt, hget]
  exact congrArg some hx

/-- A stream that goes through the lanes in turn is numbered in order. -/
theorem places_in_turn {cap : Nat} {l : List (Nat × α)} (hcap : 0 < cap)
    (h : l.map Prod.fst = (List.range l.length).map (· % cap)) :
    (places cap l).map Prod.fst = List.range l.length := by
  induction l using List.reverseRecOn with
  | nil => rfl
  | append_singleton l e ih =>
    rw [List.map_append, List.length_append, List.length_singleton, List.range_succ,
      List.map_append] at h
    obtain ⟨hl, he⟩ := List.append_inj' h rfl
    have he' : e.1 = l.length % cap := by simpa using he
    have hcount : (places cap l).countP (fun a => a.1 % cap = e.1) = l.length / cap := by
      have hrange := Nat.count_modEq_card l.length hcap l.length
      rw [if_neg (lt_irrefl _), Nat.add_zero] at hrange
      calc (places cap l).countP (fun a => a.1 % cap = e.1)
          = ((places cap l).map Prod.fst).countP (fun t => t % cap = e.1) := by
            rw [List.countP_map]
            rfl
        _ = (List.range l.length).countP (fun t => t % cap = l.length % cap) := by
            rw [ih hl, he']
        _ = l.length / cap := hrange
    rw [places_concat, List.map_append, ih hl, List.length_append, List.length_singleton,
      List.range_succ, hcount, he']
    simp [Nat.mod_add_div]

/-- In a list sorted by number, those below a bound come first. -/
theorem filter_lt_prefix {l : List (Nat × α)} (h : l.Pairwise fun a b => a.1 < b.1) (n : Nat) :
    l.filter (fun a => a.1 < n) <+: l := by
  induction l with
  | nil => exact List.prefix_rfl
  | cons a l ih =>
    obtain ⟨ha, hl⟩ := List.pairwise_cons.mp h
    by_cases hlt : a.1 < n
    · rw [List.filter_cons_of_pos (by simpa using hlt)]
      exact List.cons_prefix_cons.mpr ⟨rfl, ih hl⟩
    · have hnone : (a :: l).filter (fun a => a.1 < n) = [] := by
        rw [List.filter_eq_nil_iff]
        intro b hb
        rcases List.mem_cons.mp hb with rfl | hb
        · simpa using hlt
        · have := ha b hb
          simp only [decide_eq_true_eq]
          omega
      rw [hnone]
      exact List.nil_prefix

/-- Let `put` have gone into the lanes and `got` have come out of them in turn.
    The elements of a kind whose places go up come out in the order in which they
    went in. -/
theorem prefix_of_lanes {cap : Nat} {put got : List (Nat × α)} (hcap : 0 < cap)
    (hput : ∀ e ∈ put, e.1 < cap) (hgot : ∀ e ∈ got, e.1 < cap)
    (hlanes : ∀ i, got.filter (fun e => e.1 = i) <+: put.filter (fun e => e.1 = i))
    (hturn : got.map Prod.fst = (List.range got.length).map (· % cap)) (kind : α → Bool)
    (hsorted : ((places cap put).filter (kind ·.2)).Pairwise fun a b => a.1 < b.1) :
    (got.map Prod.snd).filter kind <+: (put.map Prod.snd).filter kind := by
  have hfst := places_in_turn hcap hturn
  have hsub : ∀ a ∈ places cap got, a ∈ places cap put :=
    fun a ha => places_subset hcap hgot hput hlanes ha
  have : Std.Irrefl fun a b : Nat × α => a.1 < b.1 := ⟨fun a => lt_irrefl a.1⟩
  have : Std.Antisymm fun a b : Nat × α => a.1 < b.1 := ⟨fun a b hab hba => by omega⟩
  have hgotSorted : (places cap got).Pairwise fun a b => a.1 < b.1 := by
    rw [← List.pairwise_map, hfst]
    exact List.pairwise_lt_range
  -- what has come out is what was put at the places so far
  have heq : (places cap got).filter (kind ·.2) =
      ((places cap put).filter (kind ·.2)).filter (fun a => a.1 < got.length) := by
    apply List.Pairwise.eq_of_mem_iff (hgotSorted.filter _) (hsorted.filter _)
    rintro ⟨n, x⟩
    simp only [List.mem_filter, decide_eq_true_eq]
    constructor
    · rintro ⟨hmem, hk⟩
      have hn : n ∈ (places cap got).map Prod.fst := List.mem_map_of_mem hmem
      rw [hfst, List.mem_range] at hn
      exact ⟨⟨hsub _ hmem, hk⟩, hn⟩
    · rintro ⟨⟨hmem, hk⟩, hn⟩
      have hn' : n ∈ (places cap got).map Prod.fst := by
        rw [hfst, List.mem_range]
        exact hn
      obtain ⟨⟨n', y⟩, hy, rfl⟩ := List.mem_map.mp hn'
      have hxy : some x = some y :=
        ((mem_places hcap hput).mp hmem).symm.trans ((mem_places hcap hput).mp (hsub _ hy))
      rw [Option.some.inj hxy] at hk ⊢
      exact ⟨hy, hk⟩
  rw [← map_snd_places cap got, ← map_snd_places cap put, List.filter_map, List.filter_map]
  apply List.IsPrefix.map Prod.snd
  show (places cap got).filter (kind ·.2) <+: (places cap put).filter (kind ·.2)
  rw [heq]
  exact filter_lt_prefix hsorted _

/-- The converse, once everything has come out: if distinct elements came out in
    the order in which they went in, their places go up. -/
theorem ascend_of_prefix {cap : Nat} {put got : List (Nat × α)} (hcap : 0 < cap)
    (hput : ∀ e ∈ put, e.1 < cap) (hgot : ∀ e ∈ got, e.1 < cap)
    (hlanes : ∀ i, got.filter (fun e => e.1 = i) = put.filter (fun e => e.1 = i))
    (hturn : got.map Prod.fst = (List.range got.length).map (· % cap)) (kind : α → Bool)
    (hdistinct : ((put.map Prod.snd).filter kind).Nodup)
    (horder : (got.map Prod.snd).filter kind <+: (put.map Prod.snd).filter kind) :
    ((places cap put).filter (kind ·.2)).Pairwise fun a b => a.1 < b.1 := by
  have hsnd : ∀ l : List (Nat × α),
      ((places cap l).filter (kind ·.2)).map Prod.snd = (l.map Prod.snd).filter kind := by
    intro l
    rw [← map_snd_places cap l, List.filter_map]
    rfl
  have hgotSorted : ((places cap got).filter (kind ·.2)).Pairwise fun a b => a.1 < b.1 := by
    apply List.Pairwise.filter
    rw [← List.pairwise_map, places_in_turn hcap hturn]
    exact List.pairwise_lt_range
  -- both streams have the same elements at the same places
  have hperm : ((places cap got).filter (kind ·.2)).Perm ((places cap put).filter (kind ·.2)) := by
    have hgotNodup : ((places cap got).filter (kind ·.2)).Nodup := by
      apply hgotSorted.imp
      intro a b hab heq
      rw [heq] at hab
      exact lt_irrefl _ hab
    have hputNodup : ((places cap put).filter (kind ·.2)).Nodup := by
      apply List.Nodup.of_map Prod.snd
      rw [hsnd]
      exact hdistinct
    rw [List.perm_ext_iff_of_nodup hgotNodup hputNodup]
    rintro ⟨n, x⟩
    rw [List.mem_filter, List.mem_filter, mem_places hcap hgot, mem_places hcap hput, hlanes]
  have hseq : ((places cap got).filter (kind ·.2)).map Prod.snd =
      ((places cap put).filter (kind ·.2)).map Prod.snd := by
    rw [← hsnd, ← hsnd] at horder
    apply horder.eq_of_length
    rw [List.length_map, List.length_map, hperm.length_eq]
  -- and an element has only one place
  have heq : (places cap put).filter (kind ·.2) = (places cap got).filter (kind ·.2) := by
    apply List.ext_getElem hperm.length_eq.symm
    intro j hj hj'
    have hdistinct' : (((places cap put).filter (kind ·.2)).map Prod.snd).Nodup := by
      rw [hsnd]
      exact hdistinct
    apply List.inj_on_of_nodup_map hdistinct' (List.getElem_mem hj)
      (hperm.mem_iff.mp (List.getElem_mem hj'))
    have hget := congrArg (fun l => l[j]?) hseq
    simp only [List.getElem?_map, List.getElem?_eq_getElem hj, List.getElem?_eq_getElem hj',
      Option.map_some, Option.some.injEq] at hget
    exact hget.symm
  rw [heq]
  exact hgotSorted

end Lanes

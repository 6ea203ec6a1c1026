import Mathlib

/-!
# Selecting from a list

Ways of selecting.  `positions` lists where a test holds.  `itemsAt` is what an
element at a position stands for, and nothing past the end.
`find?_pairwise_iff` says what the first element that passes a test is in a list
kept in order: the one that comes before all others that pass it.
`mem_takeWhile_pairwise_iff` says the same of all that come before the first one that
fails.
`map_filter_eq_iff` compares two selections of which one is part of the other: the
two are the same exactly when the wider test passes nothing more.
-/

namespace FcGpui

section Selection

variable {α β : Type}

/-- The positions at which `p` holds. -/
def positions (p : α → Bool) (l : List α) : List Nat :=
  (l.zipIdx.filter fun e => p e.1).map Prod.snd

theorem positions_append_singleton (p : α → Bool) (l : List α) (a : α) :
    positions p (l ++ [a]) = positions p l ++ if p a = true then [l.length] else [] := by
  rw [positions, List.zipIdx_append, List.filter_append, List.map_append]
  congr 1
  by_cases h : p a = true
  · simp [h]
  · simp [h]

variable {i : Nat} {l : List α} {p : α → Bool} {a : α}

theorem mem_positions : i ∈ positions p l ↔ ∃ a, l[i]? = some a ∧ p a = true := by
  rw [positions, List.mem_map]
  refine ⟨fun ⟨e, he, hi⟩ => ?_, fun ⟨a, ha, hp⟩ => ⟨(a, i), ?_, rfl⟩⟩
  · obtain ⟨hmem, hp⟩ := List.mem_filter.mp he
    exact ⟨e.1, hi ▸ List.mem_zipIdx_iff_getElem?.mp hmem, hp⟩
  · exact List.mem_filter.mpr ⟨List.mem_zipIdx_iff_getElem?.mpr ha, hp⟩

/-- A selection, with the positions at hand. -/
theorem filter_eq_map_zipIdx (p : α → Bool) (l : List α) :
    l.filter p = (l.zipIdx.filter fun e => p e.1).map Prod.fst := by
  have hfst := List.filter_map (p := p) (f := Prod.fst) (l := l.zipIdx)
  rw [List.zipIdx_map_fst] at hfst
  exact hfst

/-- **The first element that passes a test comes before all others that do.** -/
theorem find?_pairwise_iff {r : α → α → Prop}
    (hl : l.Pairwise r) (hanti : ∀ b ∈ l, r a b → r b a → a = b) :
    l.find? p = some a ↔ a ∈ l ∧ p a = true ∧ ∀ b ∈ l, p b = true → a = b ∨ r a b := by
  induction l with
  | nil => exact ⟨fun h => absurd h (by simp), fun h => absurd h.1 List.not_mem_nil⟩
  | cons x l ih =>
    obtain ⟨hx, hl⟩ := List.pairwise_cons.mp hl
    rw [List.find?_cons]
    cases hpx : p x with
    | true =>
      dsimp only
      refine ⟨fun h => ?_, fun ⟨ha, hpa, hfirst⟩ => ?_⟩
      · obtain rfl := Option.some.inj h
        refine ⟨List.mem_cons_self, hpx, fun b hb _ => ?_⟩
        rcases List.mem_cons.mp hb with rfl | hb
        · exact Or.inl rfl
        · exact Or.inr (hx b hb)
      · rcases List.mem_cons.mp ha with rfl | ha
        · rfl
        · rcases hfirst x List.mem_cons_self hpx with rfl | hr
          · rfl
          · rw [hanti x List.mem_cons_self hr (hx a ha)]
    | false =>
      dsimp only
      rw [ih hl fun b hb => hanti b (List.mem_cons_of_mem x hb)]
      refine ⟨fun ⟨ha, hpa, hfirst⟩ => ⟨List.mem_cons_of_mem x ha, hpa, fun b hb hpb => ?_⟩,
        fun ⟨ha, hpa, hfirst⟩ => ⟨?_, hpa, fun b hb => hfirst b (List.mem_cons_of_mem x hb)⟩⟩
      · rcases List.mem_cons.mp hb with rfl | hb
        · exact absurd hpb (by rw [hpx]; decide)
        · exact hfirst b hb hpb
      · rcases List.mem_cons.mp ha with rfl | ha
        · exact absurd hpa (by rw [hpx]; decide)
        · exact ha

/-- **In a list kept in order, an element comes before the first that fails a test
exactly when it passes and comes before all that fail.** -/
theorem mem_takeWhile_pairwise_iff {r : α → α → Prop}
    (hl : l.Pairwise r) (hanti : ∀ b ∈ l, ∀ c ∈ l, r b c → r c b → b = c) :
    a ∈ l.takeWhile p ↔ a ∈ l ∧ p a = true ∧ ∀ b ∈ l, p b = false → r a b := by
  induction l with
  | nil => exact ⟨fun h => absurd h List.not_mem_nil, fun h => absurd h.1 List.not_mem_nil⟩
  | cons x l ih =>
    obtain ⟨hx, hl⟩ := List.pairwise_cons.mp hl
    have hne : ∀ {b}, p x = true → p b = false → b ∈ x :: l → b ∈ l := by
      intro b hpx hpb hb
      rcases List.mem_cons.mp hb with rfl | hb
      · rw [hpx] at hpb
        cases hpb
      · exact hb
    cases hpx : p x with
    | true =>
      rw [List.takeWhile_cons_of_pos hpx, List.mem_cons,
        ih hl fun b hb c hc => hanti b (List.mem_cons_of_mem x hb) c (List.mem_cons_of_mem x hc)]
      refine ⟨fun h => ?_, fun ⟨ha, hpa, hbefore⟩ => ?_⟩
      · rcases h with rfl | ⟨ha, hpa, hbefore⟩
        · exact ⟨List.mem_cons_self, hpx, fun b hb hpb => hx b (hne hpx hpb hb)⟩
        · exact ⟨List.mem_cons_of_mem x ha, hpa, fun b hb hpb => hbefore b (hne hpx hpb hb) hpb⟩
      · rcases List.mem_cons.mp ha with rfl | ha
        · exact Or.inl rfl
        · exact Or.inr ⟨ha, hpa, fun b hb => hbefore b (List.mem_cons_of_mem x hb)⟩
    | false =>
      rw [List.takeWhile_cons_of_neg (by rw [hpx]; decide)]
      refine ⟨fun h => absurd h List.not_mem_nil, fun ⟨ha, hpa, hbefore⟩ => ?_⟩
      rcases List.mem_cons.mp ha with rfl | ha'
      · rw [hpx] at hpa
        cases hpa
      · have heq := hanti a ha x List.mem_cons_self (hbefore x List.mem_cons_self hpx) (hx a ha')
        rw [heq, hpx] at hpa
        cases hpa

/-- **A narrower selection is the wider one exactly when nothing is missing.** -/
theorem map_filter_eq_iff {q : α → Bool} {f : α → β}
    (himp : ∀ a ∈ l, p a = true → q a = true) :
    (l.filter p).map f = (l.filter q).map f ↔ ∀ a ∈ l, q a = true → p a = true := by
  refine ⟨fun h => ?_, fun h => ?_⟩
  · have hnarrow : l.filter p = (l.filter q).filter p := by
      rw [List.filter_filter]
      refine List.filter_congr fun a ha => ?_
      cases hp : p a with
      | false => rfl
      | true => rw [himp a ha hp]; rfl
    have hlen := congrArg List.length h
    rw [List.length_map, List.length_map, hnarrow] at hlen
    intro a ha hq
    exact List.length_filter_eq_length_iff.mp hlen a (List.mem_filter.mpr ⟨ha, hq⟩)
  · rw [List.filter_congr fun a ha => Bool.eq_iff_iff.mpr ⟨himp a ha, h a ha⟩]

/-- What the element at a position stands for. -/
def itemsAt (f : α → List β) (l : List α) (i : Nat) : List β := (l[i]?).elim [] f

theorem itemsAt_of_getElem? {f : α → List β} (h : l[i]? = some a) : itemsAt f l i = f a := by
  rw [itemsAt, h]
  rfl

theorem itemsAt_set_ne {j : Nat} (h : i ≠ j) (f : α → List β) (l : List α) (a : α) :
    itemsAt f (l.set i a) j = itemsAt f l j := by
  rw [itemsAt, itemsAt, List.getElem?_set_ne h]

/-- An element is replaced by one that stands for the same. -/
theorem itemsAt_set_same {f : α → List β} {a' : α} (h : l[i]? = some a)
    (hf : f a' = f a) : itemsAt f (l.set i a') = itemsAt f l := by
  funext j
  by_cases hj : i = j
  · subst hj
    have hlt := (List.getElem?_eq_some_iff.mp h).1
    rw [itemsAt_of_getElem? (List.getElem?_set_self hlt), itemsAt_of_getElem? h, hf]
  · exact itemsAt_set_ne hj f l a'

/-- The positions of an appended list stand for what its elements stand for. -/
theorem flatMap_itemsAt_append (f : α → List β) (l m : List α) :
    (List.range' l.length m.length).flatMap (itemsAt f (l ++ m)) = m.flatMap f := by
  induction m generalizing l with
  | nil => rfl
  | cons a m ih =>
    have hrest := ih (l ++ [a])
    rw [List.length_append, List.length_singleton, List.append_assoc] at hrest
    rw [List.length_cons, List.range'_succ, List.flatMap_cons, List.flatMap_cons]
    congr 1
    exact itemsAt_of_getElem? (by rw [List.getElem?_append_right le_rfl, Nat.sub_self]; rfl)

end Selection

end FcGpui

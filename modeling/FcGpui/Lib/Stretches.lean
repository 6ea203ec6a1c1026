import Mathlib

/-!
# Merging neighbours of equal key

A list of pieces, each a length and a value, stands for the list of values it
spells out (`expand`).  Merging joins neighbouring pieces of equal key into one
that keeps the value of the first of them.  `stretches` is the merge as a loop
over the pieces does it, and `groups` are the maximal stretches of neighbours
themselves.

What is spelled out stays the same under a function `f` exactly when every piece
of positive length agrees under `f` with the first of its group
(`expand_stretches_iff`), and stays the same when the lengths are kept modulo
`m` only if no stretch reaches `m` (`expand_stretches_mod_iff`).  A piece of
positive length merges as the elements it spells out do, one by one
(`foldl_pushPiece_replicate`).
-/

namespace FcGpui

section Stretches

variable {α β κ : Type}

/-- What a list of pieces spells out. -/
def expand (l : List (Nat × α)) : List α := l.flatMap fun p => List.replicate p.1 p.2

@[simp] theorem expand_nil : expand ([] : List (Nat × α)) = [] := rfl

@[simp] theorem expand_cons (p : Nat × α) (l : List (Nat × α)) :
    expand (p :: l) = List.replicate p.1 p.2 ++ expand l := rfl

@[simp] theorem expand_append (l m : List (Nat × α)) : expand (l ++ m) = expand l ++ expand m :=
  List.flatMap_append

theorem length_expand (l : List (Nat × α)) : (expand l).length = (l.map Prod.fst).sum := by
  induction l with
  | nil => rfl
  | cons p l ih => rw [expand_cons, List.length_append, List.length_replicate, ih]; rfl

/-- The pieces of length one that spell out a list. -/
def ones (l : List α) : List (Nat × α) := l.map fun a => (1, a)

theorem ones_append (l m : List α) : ones (l ++ m) = ones l ++ ones m := List.map_append

theorem expand_ones (l : List α) : expand (ones l) = l := by
  induction l with
  | nil => rfl
  | cons a l ih => exact congrArg (a :: ·) ih

theorem expand_map (f : α → β) (l : List (Nat × α)) :
    expand (l.map fun p => (p.1, f p.2)) = (expand l).map f := by
  induction l with
  | nil => rfl
  | cons p l ih => rw [List.map_cons, expand_cons, ih, expand_cons, List.map_append,
      List.map_replicate]

/-- Spelling out one value only. -/
theorem expand_eq_replicate_iff {l : List (Nat × α)} {x : α} :
    expand l = List.replicate (l.map Prod.fst).sum x ↔ ∀ p ∈ l, 0 < p.1 → p.2 = x := by
  rw [← length_expand, List.eq_replicate_iff]
  constructor
  · intro h p hp hpos
    refine h.2 p.2 (List.mem_flatMap.mpr ⟨p, hp, ?_⟩)
    exact List.mem_replicate.mpr ⟨hpos.ne', rfl⟩
  · intro h
    refine ⟨rfl, fun b hb => ?_⟩
    obtain ⟨p, hp, hb⟩ := List.mem_flatMap.mp hb
    obtain ⟨hne, rfl⟩ := List.mem_replicate.mp hb
    exact h p hp (Nat.pos_of_ne_zero hne)

variable [DecidableEq κ]

/-! ### The merge -/

/-- One step of the merge; the last stretch is at the head. -/
def pushPiece (key : α → κ) : List (Nat × α) → Nat × α → List (Nat × α)
  | [], p => [p]
  | (m, lead) :: done, (n, a) =>
    if key lead = key a then (m + n, lead) :: done else (n, a) :: (m, lead) :: done

def stretches (key : α → κ) (l : List (Nat × α)) : List (Nat × α) :=
  (l.foldl (pushPiece key) []).reverse

/-- The maximal stretches of neighbours of equal key. -/
def groups (key : α → κ) (l : List α) : List (List α) := l.splitBy fun a b => key a == key b

variable {key : α → κ} {lead : α}

theorem pushPiece_of_eq {a : α} (h : key lead = key a) (m n : Nat) (done : List (Nat × α)) :
    pushPiece key ((m, lead) :: done) (n, a) = (m + n, lead) :: done := if_pos h

theorem pushPiece_of_ne {a : α} (h : key lead ≠ key a) (m n : Nat) (done : List (Nat × α)) :
    pushPiece key ((m, lead) :: done) (n, a) = (n, a) :: (m, lead) :: done := if_neg h

theorem foldl_pushPiece_group {done : List (Nat × α)} :
    ∀ (g : List (Nat × α)) (m : Nat), (∀ p ∈ g, key p.2 = key lead) →
      g.foldl (pushPiece key) ((m, lead) :: done) = (m + (g.map Prod.fst).sum, lead) :: done := by
  intro g
  induction g with
  | nil => intro m _; rfl
  | cons p g ih =>
    intro m h
    rw [List.foldl_cons, pushPiece_of_eq (h p List.mem_cons_self).symm,
      ih (m + p.1) fun q hq => h q (List.mem_cons_of_mem _ hq), List.map_cons, List.sum_cons,
      Nat.add_assoc]

/-- Whatever came before a stretch stays. -/
theorem foldl_pushPiece_append (key : α → κ) (done : List (Nat × α)) :
    ∀ (l : List (Nat × α)) (last : Nat × α) (acc : List (Nat × α)),
      l.foldl (pushPiece key) (last :: acc ++ done)
        = l.foldl (pushPiece key) (last :: acc) ++ done := by
  intro l
  induction l with
  | nil => intro last acc; rfl
  | cons p l ih =>
    intro last acc
    obtain ⟨m, lead⟩ := last
    obtain ⟨n, a⟩ := p
    rw [List.cons_append, List.foldl_cons, List.foldl_cons]
    by_cases h : key lead = key a
    · rw [pushPiece_of_eq h, pushPiece_of_eq h]
      exact ih (m + n, lead) acc
    · rw [pushPiece_of_ne h, pushPiece_of_ne h]
      exact ih (n, a) ((m, lead) :: acc)

theorem stretches_group_append {p : Nat × α} {g rest : List (Nat × α)}
    (hg : ∀ q ∈ g, key q.2 = key p.2) (hrest : ∀ q ∈ rest.head?, key p.2 ≠ key q.2) :
    stretches key (p :: g ++ rest) = (p.1 + (g.map Prod.fst).sum, p.2) :: stretches key rest := by
  rw [stretches, List.cons_append, List.foldl_cons, List.foldl_append,
    show pushPiece key [] p = [(p.1, p.2)] from rfl, foldl_pushPiece_group g p.1 hg]
  cases rest with
  | nil => rfl
  | cons q rest =>
    have hne := hrest q rfl
    rw [List.foldl_cons, pushPiece_of_ne hne, stretches, List.foldl_cons]
    have := foldl_pushPiece_append key [(p.1 + (g.map Prod.fst).sum, p.2)] rest q []
    rw [List.singleton_append] at this
    rw [this, List.reverse_append]
    rfl

theorem groups_group_append {p : α} {g rest : List α}
    (hg : ∀ q ∈ g, key q = key p) (hrest : ∀ q ∈ rest.head?, key p ≠ key q) :
    groups key (p :: g ++ rest) = (p :: g) :: groups key rest := by
  have hchain : (p :: g).IsChain fun a b => (key a == key b) = true := by
    refine List.Pairwise.isChain (List.Pairwise.imp (R := fun a b => key a = key b) ?_ ?_)
    · intro a b h
      exact beq_iff_eq.mpr h
    · have hall : ∀ q ∈ p :: g, key q = key p := by
        intro q hq
        rcases List.mem_cons.mp hq with rfl | hq
        · rfl
        · exact hg q hq
      exact List.pairwise_of_forall_mem_list fun a ha b hb => (hall a ha).trans (hall b hb).symm
  have hlast : ∀ x ∈ (p :: g).getLast?, ∀ y ∈ rest.head?, (key x == key y) = false := by
    intro x hx y hy
    have hxp : key x = key p := by
      rcases List.mem_cons.mp (List.mem_of_mem_getLast? hx) with rfl | hx
      · rfl
      · exact hg x hx
    rw [hxp]
    exact beq_eq_false_iff_ne.mpr (hrest y hy)
  rw [groups, List.splitBy_append hlast, List.splitBy_of_isChain (List.cons_ne_nil _ _) hchain]
  rfl

/-- A list begins with a group. -/
theorem exists_group (key : α → κ) (p : α) (l : List α) : ∃ g rest, l = g ++ rest ∧
    (∀ q ∈ g, key q = key p) ∧ ∀ q ∈ rest.head?, key p ≠ key q := by
  induction l with
  | nil => exact ⟨[], [], rfl, by simp, by simp⟩
  | cons a l ih =>
    by_cases h : key a = key p
    · obtain ⟨g, rest, rfl, hg, hrest⟩ := ih
      refine ⟨a :: g, rest, rfl, fun q hq => ?_, hrest⟩
      rcases List.mem_cons.mp hq with rfl | hq
      · exact h
      · exact hg q hq
    · refine ⟨[], a :: l, rfl, by simp, fun q hq => ?_⟩
      obtain rfl : a = q := by simpa using hq
      exact fun he => h he.symm

/-- **Induction over the groups of a list.** -/
theorem groups_induction {P : List α → Prop} (key : α → κ) (hnil : P [])
    (hgroup : ∀ p g rest, (∀ q ∈ g, key q = key p) → (∀ q ∈ rest.head?, key p ≠ key q) → P rest →
      P (p :: g ++ rest)) : ∀ l, P l := by
  intro l
  induction hn : l.length using Nat.strong_induction_on generalizing l with
  | _ n ih =>
    cases l with
    | nil => exact hnil
    | cons p l =>
      obtain ⟨g, rest, rfl, hg, hrest⟩ := exists_group key p l
      refine hgroup p g rest hg hrest (ih rest.length ?_ rest rfl)
      rw [← hn, List.length_cons, List.length_append]
      omega

theorem groups_map {γ : Type} {key' : γ → κ} {h : α → γ}
    (hk : ∀ a, key' (h a) = key a) (l : List α) : groups key' (l.map h) = (groups key l).map (List.map h) := by
  induction l using groups_induction key with
  | hnil => rfl
  | hgroup p g rest hg hrest ih =>
    rw [groups_group_append hg hrest, List.map_append, List.map_cons, groups_group_append, ih]
    · rfl
    · intro q hq
      obtain ⟨a, ha, rfl⟩ := List.mem_map.mp hq
      rw [hk, hk, hg a ha]
    · intro q hq
      rw [List.head?_map] at hq
      obtain ⟨a, ha, rfl⟩ := Option.map_eq_some_iff.mp hq
      rw [hk, hk]
      exact hrest a ha

/-! ### What the merge keeps -/

theorem append_eq_append_iff_of_length {a b c d : List β} (h : a.length = c.length) :
    a ++ b = c ++ d ↔ a = c ∧ b = d := by
  constructor
  · intro he
    exact List.append_inj he h
  · intro he
    rw [he.1, he.2]

/-- **The merge keeps what `f` sees exactly when every piece of positive length
agrees under `f` with the first of its group.** -/
theorem expand_stretches_iff (key : α → κ) (f : α → β) (l : List (Nat × α)) :
    expand ((stretches key l).map fun r => (r.1, f r.2)) = expand (l.map fun p => (p.1, f p.2)) ↔
      ∀ g ∈ groups (fun p => key p.2) l, ∀ lead ∈ g.head?, ∀ p ∈ g, 0 < p.1 → f p.2 = f lead.2 := by
  induction l using groups_induction (fun p : Nat × α => key p.2) with
  | hnil => exact ⟨fun _ g hg => absurd hg List.not_mem_nil, fun _ => rfl⟩
  | hgroup p g rest hg hrest ih =>
    have hsum : ((p :: g).map fun q => (q.1, f q.2)).map Prod.fst = p.1 :: g.map Prod.fst := by
      rw [List.map_map]
      rfl
    have hhead : List.replicate (p.1 + (g.map Prod.fst).sum) (f p.2)
          = expand ((p :: g).map fun q => (q.1, f q.2)) ↔
        ∀ q ∈ p :: g, 0 < q.1 → f q.2 = f p.2 := by
      have := expand_eq_replicate_iff (l := (p :: g).map fun q => (q.1, f q.2)) (x := f p.2)
      rw [hsum, List.sum_cons, List.forall_mem_map] at this
      rw [eq_comm, this]
    rw [stretches_group_append hg hrest, groups_group_append hg hrest, List.map_cons, expand_cons,
      List.map_append, expand_append, append_eq_append_iff_of_length, hhead, ih]
    · refine Iff.trans (and_congr_left fun _ => ?_) List.forall_mem_cons.symm
      constructor
      · intro h lead hl
        obtain rfl : p = lead := by simpa using hl
        exact h
      · intro h
        exact h p rfl
    · rw [List.length_replicate, length_expand, hsum, List.sum_cons]

/-- The lengths of the stretches are those of the groups. -/
theorem stretches_lengths (key : α → κ) (l : List (Nat × α)) :
    (stretches key l).map Prod.fst
      = (groups (fun p => key p.2) l).map fun g => (g.map Prod.fst).sum := by
  induction l using groups_induction (fun p : Nat × α => key p.2) with
  | hnil => rfl
  | hgroup p g rest hg hrest ih =>
    rw [stretches_group_append hg hrest, groups_group_append hg hrest, List.map_cons, List.map_cons,
      ih]
    rfl

/-- Reducing every length keeps their sum only if it changes none. -/
theorem sum_mod_eq_iff {m : Nat} (hm : 0 < m) (l : List Nat) :
    (l.map (· % m)).sum = l.sum ↔ ∀ n ∈ l, n < m := by
  induction l with
  | nil => exact ⟨fun _ n hn => absurd hn List.not_mem_nil, fun _ => rfl⟩
  | cons a l ih =>
    rw [List.map_cons, List.sum_cons, List.sum_cons, List.forall_mem_cons, ← ih]
    have hle : (l.map (· % m)).sum ≤ (l.map fun n => n).sum :=
      List.sum_le_sum fun n _ => Nat.mod_le n m
    rw [List.map_id'] at hle
    have ha := Nat.mod_le a m
    constructor
    · intro h
      refine ⟨?_, by omega⟩
      have : a % m = a := by omega
      rw [← this]
      exact Nat.mod_lt a hm
    · intro h
      rw [Nat.mod_eq_of_lt h.1, h.2]

/-- **Kept modulo `m`, the merge of a function of the key keeps what it sees
exactly when no stretch reaches `m`.** -/
theorem expand_stretches_mod_iff (key : α → κ) {f : α → β} (hf : ∀ a b, key a = key b → f a = f b)
    {m : Nat} (hm : 0 < m) (l : List (Nat × α)) :
    expand ((stretches key l).map fun r => (r.1 % m, f r.2))
        = expand (l.map fun p => (p.1, f p.2)) ↔
      ∀ g ∈ groups (fun p => key p.2) l, (g.map Prod.fst).sum < m := by
  have hfull : expand ((stretches key l).map fun r => (r.1, f r.2))
      = expand (l.map fun p => (p.1, f p.2)) := by
    refine (expand_stretches_iff key f l).mpr fun g hg lead hlead p hp _ => hf _ _ ?_
    have hchain := List.isChain_of_mem_splitBy hg
    have htrans : g.Pairwise fun a b => key a.2 = key b.2 := by
      have : IsTrans (Nat × α) fun a b => key a.2 = key b.2 := ⟨fun _ _ _ h k => h.trans k⟩
      exact (hchain.imp fun {a b} h => beq_iff_eq.mp h).pairwise
    cases g with
    | nil => exact absurd hp List.not_mem_nil
    | cons q g =>
      obtain rfl : q = lead := by simpa using hlead
      rcases List.mem_cons.mp hp with rfl | hp
      · rfl
      · exact ((List.pairwise_cons.mp htrans).1 p hp).symm
  have hbound : (∀ g ∈ groups (fun p => key p.2) l, (g.map Prod.fst).sum < m) ↔
      ∀ n ∈ (stretches key l).map Prod.fst, n < m := by
    rw [stretches_lengths, List.forall_mem_map]
  rw [← hfull, hbound]
  constructor
  · intro h
    have hlen := congrArg List.length h
    rw [length_expand, length_expand, List.map_map, List.map_map] at hlen
    refine (sum_mod_eq_iff hm _).mp ?_
    rw [List.map_map]
    exact hlen
  · intro h
    congr 1
    refine List.map_congr_left fun r hr => ?_
    rw [Nat.mod_eq_of_lt (h r.1 (List.mem_map_of_mem hr))]

theorem pushPiece_one (acc : List (Nat × α)) (n : Nat) (a : α) :
    pushPiece key (pushPiece key acc (n, a)) (1, a) = pushPiece key acc (n + 1, a) := by
  cases acc with
  | nil => exact pushPiece_of_eq rfl n 1 []
  | cons last done =>
    obtain ⟨m, lead⟩ := last
    by_cases h : key lead = key a
    · rw [pushPiece_of_eq h, pushPiece_of_eq h, pushPiece_of_eq h, Nat.add_assoc]
    · rw [pushPiece_of_ne h, pushPiece_of_ne h, pushPiece_of_eq rfl]

/-- **A piece of positive length merges as what it spells out.** -/
theorem foldl_pushPiece_replicate (key : α → κ) (acc : List (Nat × α)) {n : Nat} (hn : 0 < n)
    (a : α) : (ones (List.replicate n a)).foldl (pushPiece key) acc = pushPiece key acc (n, a) := by
  induction n with
  | zero => exact absurd hn (lt_irrefl 0)
  | succ n ih =>
    rcases Nat.eq_zero_or_pos n with rfl | hpos
    · rfl
    · rw [List.replicate_succ', ones_append, List.foldl_append, ih hpos]
      exact pushPiece_one acc n a

end Stretches

end FcGpui

import Mathlib

/-!
# Maps kept in key order

A map with ordered keys as the list of its entries in ascending order of keys.
`insert` overwrites the entry of its key, `extend` inserts the entries of
another map one by one.  The lemmas say which keys the operations leave.
-/

namespace FcGpui

/-- The entries of a map, in ascending order of keys. -/
abbrev OrdMap (κ β : Type) := List (κ × β)

namespace OrdMap

variable {κ β : Type} [LinearOrder κ]

def keys (m : OrdMap κ β) : List κ := m.map Prod.fst

def insert (k : κ) (v : β) : OrdMap κ β → OrdMap κ β
  | [] => [(k, v)]
  | e :: m => if k < e.1 then (k, v) :: e :: m else if k = e.1 then (k, v) :: m else e :: insert k v m

def erase (k : κ) (m : OrdMap κ β) : OrdMap κ β := m.filter fun e => e.1 ≠ k

def extend (m new : OrdMap κ β) : OrdMap κ β := new.foldl (fun m e => m.insert e.1 e.2) m

theorem mem_keys_insert (k : κ) (v : β) (m : OrdMap κ β) (j : κ) :
    j ∈ (m.insert k v).keys ↔ j = k ∨ j ∈ m.keys := by
  induction m with
  | nil => simp [insert, keys]
  | cons e m ih =>
    rw [insert]
    split
    · simp [keys]
    · split
      · rename_i h
        simp [keys, h]
      · have hk : ∀ l : OrdMap κ β, j ∈ keys (e :: l) ↔ j = e.1 ∨ j ∈ keys l := by
          intro l; simp [keys]
        rw [hk, hk, ih]
        tauto

theorem mem_keys_extend (new : OrdMap κ β) : ∀ (m : OrdMap κ β) (j : κ),
    j ∈ (m.extend new).keys ↔ j ∈ m.keys ∨ j ∈ new.keys := by
  induction new with
  | nil => intro m j; simp [extend, keys]
  | cons e new ih =>
    intro m j
    have hcons : m.extend (e :: new) = (m.insert e.1 e.2).extend new := rfl
    have hk : j ∈ keys (e :: new) ↔ j = e.1 ∨ j ∈ keys new := by simp [keys]
    rw [hcons, ih, mem_keys_insert, hk]
    tauto

theorem mem_keys_erase (k : κ) (m : OrdMap κ β) (j : κ) :
    j ∈ (m.erase k).keys ↔ j ∈ m.keys ∧ j ≠ k := by
  rw [keys, erase, keys, List.mem_map, List.mem_map]
  constructor
  · intro h
    obtain ⟨e, he, rfl⟩ := h
    obtain ⟨he, hne⟩ := List.mem_filter.mp he
    exact ⟨⟨e, he, rfl⟩, by simpa using hne⟩
  · intro h
    obtain ⟨⟨e, he, rfl⟩, hne⟩ := h
    exact ⟨e, List.mem_filter.mpr ⟨he, by simpa using hne⟩, rfl⟩

/-! ### Key order -/

/-- The keys are in strictly ascending order. -/
def Ordered (m : OrdMap κ β) : Prop := m.keys.Pairwise (· < ·)

theorem Ordered.insert {m : OrdMap κ β} (h : m.Ordered) (k : κ) (v : β) : (m.insert k v).Ordered := by
  induction m with
  | nil => exact List.pairwise_singleton _ _
  | cons e m ih =>
    obtain ⟨hhead, htail⟩ := List.pairwise_cons.mp h
    rw [OrdMap.insert]
    split
    · rename_i hlt
      refine List.pairwise_cons.mpr ⟨fun j hj => ?_, h⟩
      rcases List.mem_cons.mp hj with rfl | hj
      · exact hlt
      · exact hlt.trans (hhead j hj)
    · split
      · rename_i heq
        subst heq
        exact List.pairwise_cons.mpr ⟨hhead, htail⟩
      · rename_i hlt heq
        refine List.pairwise_cons.mpr ⟨fun j hj => ?_, ih htail⟩
        rcases (mem_keys_insert k v m j).mp hj with rfl | hj
        · exact lt_of_le_of_ne (not_lt.mp hlt) (Ne.symm heq)
        · exact hhead j hj

theorem Ordered.extend {m : OrdMap κ β} (h : m.Ordered) (new : OrdMap κ β) :
    (m.extend new).Ordered := by
  induction new generalizing m with
  | nil => exact h
  | cons e new ih => exact ih (h.insert e.1 e.2)

theorem Ordered.filter {m : OrdMap κ β} (h : m.Ordered) (f : κ × β → Bool) :
    Ordered (m.filter f) :=
  h.sublist (List.filter_sublist.map _)

end OrdMap

/-!
### Finite maps

A finite map is a function to options that some list of entries represents: the list is in
the order of the keys and has just the entries of the function.  There is only one such
list (`Represents.unique`), so what is read off it is read off the map.

A map is changed at a key by changing what its list has between the entries below the key
and those above it (`Around.set`).
-/

namespace OrdMap

variable {κ β σ : Type} [LinearOrder κ] {m m' : OrdMap κ β} {f : κ → Option β} {k : κ}

/-- The map as the list of its entries. -/
structure Represents (m : OrdMap κ β) (f : κ → Option β) : Prop where
  ordered : m.Ordered
  mem : ∀ j v, (j, v) ∈ m ↔ f j = some v

theorem Ordered.pairwise (h : m.Ordered) : m.Pairwise fun e e' => e.1 < e'.1 := List.pairwise_map.mp h

/-- Two lists of one map are the same. -/
theorem Represents.unique (h : m.Represents f) (h' : m'.Represents f) : m = m' := by
  refine h.ordered.pairwise.eq_of_mem_iff h'.ordered.pairwise fun e => ?_
  obtain ⟨j, v⟩ := e
  rw [h.mem, h'.mem]

/-! ### Reading off the list -/

/-- The value of a key. -/
def valueOf (m : OrdMap κ β) (k : κ) : Option β := (m.find? fun e => e.1 = k).map Prod.snd

theorem Ordered.represents (h : m.Ordered) : m.Represents m.valueOf := by
  refine ⟨h, fun j v => ?_⟩
  induction m with
  | nil => simp [valueOf]
  | cons e m ih =>
    obtain ⟨hhead, htail⟩ := List.pairwise_cons.mp h
    obtain ⟨i, w⟩ := e
    rw [valueOf, List.find?_cons, List.mem_cons]
    by_cases heq : i = j
    · subst heq
      have hnot : (i, v) ∉ m := fun hmem => lt_irrefl i (hhead i (List.mem_map_of_mem hmem))
      simp [hnot, eq_comm]
    · have hih : (j, v) ∈ m ↔ valueOf m j = some v := ih htail
      rw [hih]
      simp [heq, valueOf, Ne.symm heq]

/-- The list of a map. -/
noncomputable def entries (f : κ → Option β) : OrdMap κ β :=
  open Classical in if h : ∃ m : OrdMap κ β, m.Represents f then h.choose else []

theorem Represents.entries_eq (h : m.Represents f) : entries f = m := by
  have hex : ∃ m : OrdMap κ β, m.Represents f := ⟨m, h⟩
  rw [entries, dif_pos hex]
  exact hex.choose_spec.unique h

/-- The entry with the least key, if there is one. -/
def Least (f : κ → Option β) : Option (κ × β) → Prop
  | none => ∀ j, f j = none
  | some (k, v) => f k = some v ∧ ∀ j, (f j).isSome → k ≤ j

/-- The entry with the greatest key, if there is one. -/
def Greatest (f : κ → Option β) : Option (κ × β) → Prop
  | none => ∀ j, f j = none
  | some (k, v) => f k = some v ∧ ∀ j, (f j).isSome → j ≤ k

theorem Represents.eq_none (h : Represents ([] : OrdMap κ β) f) (j : κ) : f j = none := by
  refine Option.eq_none_iff_forall_ne_some.mpr fun v hv => ?_
  exact List.not_mem_nil ((h.mem j v).mpr hv)

theorem Represents.least (h : m.Represents f) : Least f m.head? := by
  cases m with
  | nil => exact h.eq_none
  | cons e m =>
    refine ⟨(h.mem e.1 e.2).mp List.mem_cons_self, fun j hj => ?_⟩
    obtain ⟨v, hv⟩ := Option.isSome_iff_exists.mp hj
    rcases List.mem_cons.mp ((h.mem j v).mpr hv) with heq | hmem
    · exact (congrArg Prod.fst heq).ge
    · exact ((List.pairwise_cons.mp h.ordered).1 j (List.mem_map_of_mem hmem)).le

theorem Represents.greatest (h : m.Represents f) : Greatest f m.getLast? := by
  induction m using List.reverseRecOn with
  | nil => exact h.eq_none
  | append_singleton m e _ =>
    rw [List.getLast?_append, List.getLast?_singleton, Option.some_or]
    refine ⟨(h.mem e.1 e.2).mp (List.mem_append_right _ (List.mem_singleton_self _)), fun j hj => ?_⟩
    obtain ⟨v, hv⟩ := Option.isSome_iff_exists.mp hj
    rcases List.mem_append.mp ((h.mem j v).mpr hv) with hmem | hmem
    · exact ((List.pairwise_append.mp h.ordered.pairwise).2.2 _ hmem _ (List.mem_singleton_self _)).le
    · exact (congrArg Prod.fst (List.mem_singleton.mp hmem)).le

/-! ### Parts of a map -/

/-- The entries with a property. -/
def restrict (p : κ → Prop) [DecidablePred p] (f : κ → Option β) : κ → Option β :=
  fun j => if p j then f j else none

theorem Represents.restrict (h : m.Represents f) (p : κ → Prop) [DecidablePred p] (hsub : m'.Sublist m)
    (hmem : ∀ e ∈ m, e ∈ m' ↔ p e.1) : m'.Represents (OrdMap.restrict p f) := by
  refine ⟨h.ordered.sublist (hsub.map _), fun j v => ?_⟩
  rw [OrdMap.restrict]
  constructor
  · intro hj
    have hm := hsub.subset hj
    rw [if_pos ((hmem _ hm).mp hj)]
    exact (h.mem j v).mp hm
  · intro hj
    split at hj
    · rename_i hp
      have hm := (h.mem j v).mpr hj
      exact (hmem _ hm).mpr hp
    · cases hj

/-- The entries that a predicate with a state keeps when it is asked for one after the other, and the
state that it is left in. -/
def retained (predicate : σ → κ → β → Bool × σ) (state : σ) : OrdMap κ β → OrdMap κ β × σ
  | [] => ([], state)
  | e :: m =>
    let (keep, state) := predicate state e.1 e.2
    let (m, state) := retained predicate state m
    (if keep then e :: m else m, state)

omit [LinearOrder κ] in
theorem retained_sublist (predicate : σ → κ → β → Bool × σ) (state : σ) (m : OrdMap κ β) :
    (retained predicate state m).1.Sublist m := by
  induction m generalizing state with
  | nil => exact List.Sublist.refl _
  | cons e m ih =>
    rw [retained]
    dsimp only
    split
    · exact (ih _).cons_cons e
    · exact (ih _).cons e

/-- The map that such a predicate leaves of a map. -/
noncomputable def retain (predicate : σ → κ → β → Bool × σ) (state : σ) (f : κ → Option β) : κ → Option β :=
  valueOf (retained predicate state (entries f)).1

theorem Represents.retain (h : m.Represents f) (predicate : σ → κ → β → Bool × σ) (state : σ) :
    (retained predicate state m).1.Represents (OrdMap.retain predicate state f) := by
  rw [OrdMap.retain, h.entries_eq]
  exact Ordered.represents (h.ordered.sublist ((retained_sublist predicate state m).map _))

/-! ### Around a key -/

/-- The entry of a key, if it has a value. -/
def entry (k : κ) (value : Option β) : OrdMap κ β := (value.map fun v => (k, v)).toList

omit [LinearOrder κ] in
theorem mem_entry {value : Option β} {j : κ} {v : β} : (j, v) ∈ entry k value ↔ j = k ∧ value = some v := by
  cases value with
  | none => simp [entry]
  | some w => simp [entry, eq_comm]

/-- A list around a key: the entries below it, the value at it and the entries above. -/
structure Around (k : κ) (m lo : OrdMap κ β) (value : Option β) (hi : OrdMap κ β) : Prop where
  eq : m = lo ++ (entry k value ++ hi)
  below : ∀ e ∈ lo, e.1 < k
  above : ∀ e ∈ hi, k < e.1

variable {lo hi : OrdMap κ β} {value : Option β}

theorem Around.valueOf (h : Around k m lo value hi) (hm : m.Represents f) : f k = value := by
  refine Option.ext fun v => ?_
  rw [← hm.mem, h.eq, List.mem_append, List.mem_append, mem_entry]
  constructor
  · rintro (hmem | ⟨-, hv⟩ | hmem)
    · exact absurd (h.below _ hmem) (lt_irrefl k)
    · exact hv
    · exact absurd (h.above _ hmem) (lt_irrefl k)
  · exact fun hv => Or.inr (Or.inl ⟨rfl, hv⟩)

/-- The value of the key is set. -/
theorem Around.set (h : Around k m lo value hi) (hm : m.Represents f) (value' : Option β) :
    (lo ++ (entry k value' ++ hi) : OrdMap κ β).Represents (Function.update f k value') := by
  have hpairwise := hm.ordered.pairwise
  rw [h.eq, List.pairwise_append, List.pairwise_append] at hpairwise
  obtain ⟨hlo, ⟨-, hhi, -⟩, hcross⟩ := hpairwise
  constructor
  · refine List.pairwise_map.mpr (List.pairwise_append.mpr ⟨hlo, List.pairwise_append.mpr ⟨?_, hhi, ?_⟩, ?_⟩)
    · cases value' with
      | none => exact List.Pairwise.nil
      | some v => exact List.pairwise_singleton _ _
    · rintro ⟨j, v⟩ hj e he
      rw [(mem_entry.mp hj).1]
      exact h.above e he
    · intro e he e' he'
      rcases List.mem_append.mp he' with hmem | hmem
      · rw [(mem_entry.mp hmem).1]
        exact h.below e he
      · exact hcross e he e' (List.mem_append_right _ hmem)
  · intro j v
    rw [List.mem_append, List.mem_append, mem_entry]
    by_cases hj : j = k
    · subst hj
      rw [Function.update_self]
      constructor
      · rintro (hmem | ⟨-, hv⟩ | hmem)
        · exact absurd (h.below _ hmem) (lt_irrefl j)
        · exact hv
        · exact absurd (h.above _ hmem) (lt_irrefl j)
      · exact fun hv => Or.inr (Or.inl ⟨rfl, hv⟩)
    · rw [Function.update_of_ne hj, ← hm.mem, h.eq, List.mem_append, List.mem_append, mem_entry]
      simp only [hj, false_and, false_or]

end OrdMap

end FcGpui

import FcGpui.SumTree.Build
import FcGpui.SumTree.Cursor

/-!
# Slices are valid trees

A cursor is `Sound` if its tree and the trees on its stack are valid.  Every move of a
cursor keeps that, since it goes to children of nodes on the stack only, and what a slice
collects, subtrees and the items of parts of leaves, is appended to a valid tree:
`seekInternal_spec`, for any aggregate, and `slice_spec`.  With it the operations on keyed
items keep the invariant: `insertOrReplace_valid`, `remove_valid`, `editSorted_valid`.
-/

namespace FcGpui

namespace SumTree

theorem zip_map_self {α β : Type} (f : α → β) (l : List α) : l.zip (l.map f) = l.map fun a => (a, f a) := by
  induction l with
  | nil => rfl
  | cons a l ih => rw [List.map_cons, List.zip_cons_cons, ih, List.map_cons]

variable {T S D A : Type} [Summary S] [Item T S] [Dimension D S] {P : Prop}

open Summary

theorem Valid.children {height : Nat} {summary : S} {childSummaries : List S}
    {childTrees : List (SumTree T S)} (h : (internal height summary childSummaries childTrees).Valid P) :
    ∀ t ∈ childTrees, t.WellFormed P := by
  rcases h with h | h
  · exact absurd h (by simp [new])
  · cases h with
    | internal _ _ _ _ _ hchildren => exact hchildren

theorem Valid.leaf {summary : S} {items : List T} {itemSummaries : List S}
    (h : (leaf summary items itemSummaries).Valid P) :
    items.length ≤ 2 * treeBase ∧ itemSummaries = items.map Item.summary := by
  rcases h with h | h
  · obtain ⟨-, rfl, rfl⟩ := SumTree.leaf.inj h
    exact ⟨Nat.zero_le _, rfl⟩
  · cases h with
    | leaf _ hlength hsummaries _ => exact ⟨hlength, hsummaries⟩

/-! ### Aggregates -/

/-- The aggregate after the items of a part of a leaf. -/
def SeekAggregate.pushItems (aggregate : SeekAggregate A T S) (a : A) (items : List T) : A :=
  items.foldl (fun a item => aggregate.pushItem a item (Item.summary item)) a

/-- What is told of subtrees and of parts of leaves keeps a property. -/
structure SeekAggregate.Keeps (P : Prop) (aggregate : SeekAggregate A T S) (Q : A → Prop) : Prop where
  pushTree : ∀ {a a' : A} {t : SumTree T S} {s : S}, Q a → t.WellFormed P →
    aggregate.pushTree a t s = some a' → Q a'
  leaf : ∀ {a a' : A} {items : List T}, Q a → items.length ≤ 2 * treeBase →
    aggregate.endLeaf (aggregate.pushItems (aggregate.beginLeaf a) items) = some a' → Q a'

theorem unit_keeps : (SeekAggregate.unit T S).Keeps P fun _ => True :=
  ⟨fun _ _ _ => trivial, fun _ _ _ => trivial⟩

theorem summary_keeps {E : Type} [Dimension E S] : (SeekAggregate.summary E T S).Keeps P fun _ => True :=
  ⟨fun _ _ _ => trivial, fun _ _ _ => trivial⟩

/-- What an aggregate is told of adds up to a list of items. -/
structure SeekAggregate.Collects (P : Prop) (aggregate : SeekAggregate A T S) (Q : A → List T → Prop) :
    Prop where
  pushTree : ∀ {a : A} {items : List T} {t : SumTree T S}, Q a items → t.WellFormed P →
    ∃ a', aggregate.pushTree a t t.summary = some a' ∧ Q a' (items ++ t.toList)
  leaf : ∀ {a : A} {items leafItems : List T}, Q a items → leafItems.length ≤ 2 * treeBase →
    ∃ a', aggregate.endLeaf (aggregate.pushItems (aggregate.beginLeaf a) leafItems) = some a' ∧
      Q a' (items ++ leafItems)

theorem unit_collects : (SeekAggregate.unit T S).Collects P fun _ _ => True where
  pushTree := fun _ _ => ⟨(), rfl, trivial⟩
  leaf := fun _ _ => ⟨(), rfl, trivial⟩

/-- The slice so far is valid and no leaf has been begun. -/
structure SliceSeekAggregate.Sound (P : Prop) (a : SliceSeekAggregate T S) : Prop where
  tree : a.tree.Valid P
  leafItems : a.leafItems = []
  leafItemSummaries : a.leafItemSummaries = []
  leafSummary : a.leafSummary = zero

theorem slice_pushItems (a : SliceSeekAggregate T S) (items : List T)
    (hsummaries : a.leafItemSummaries = a.leafItems.map Item.summary)
    (hsummary : a.leafSummary = itemSum a.leafItems) :
    (SeekAggregate.slice T S).pushItems a items
      = ⟨a.tree, a.leafItems ++ items, (a.leafItems ++ items).map Item.summary,
        itemSum (a.leafItems ++ items)⟩ := by
  induction items generalizing a with
  | nil =>
    rw [List.append_nil, ← hsummaries, ← hsummary]
    rfl
  | cons item items ih =>
    show (SeekAggregate.slice T S).pushItems _ items = _
    rw [ih]
    · simp [SeekAggregate.slice]
    · simp [SeekAggregate.slice, hsummaries]
    · show add a.leafSummary (Item.summary item) = itemSum (a.leafItems ++ [item])
      rw [itemSum, List.map_append, List.map_singleton, sum_concat, hsummary]
      rfl

theorem slice_collects (hlawful : P → LawfulSummary S) :
    (SeekAggregate.slice T S).Collects P fun a items =>
      SliceSeekAggregate.Sound P a ∧ a.tree.toList = items where
  pushTree := by
    rintro a items t ⟨ha, rfl⟩ ht
    obtain ⟨tree, happend, hvalid, hlist⟩ := append_spec hlawful ha.tree (Or.inr ht)
    refine ⟨{ a with tree := tree }, ?_, ⟨hvalid, ha.leafItems, ha.leafItemSummaries, ha.leafSummary⟩, hlist⟩
    show (a.tree.append t).map _ = _
    rw [happend]
    rfl
  leaf := by
    rintro a items leafItems ⟨ha, rfl⟩ hlength
    have hpush : (SeekAggregate.slice T S).pushItems a leafItems
        = ⟨a.tree, leafItems, leafItems.map Item.summary, itemSum leafItems⟩ := by
      rw [slice_pushItems a leafItems (by rw [ha.leafItems, ha.leafItemSummaries]; rfl)
        (by rw [ha.leafItems, ha.leafSummary]; rfl), ha.leafItems, List.nil_append]
    have hleaf : (SumTree.leaf (itemSum leafItems) leafItems (leafItems.map Item.summary) : SumTree T S).Valid P := by
      by_cases hnil : leafItems = []
      · left
        rw [hnil]
        rfl
      · exact Or.inr (.leaf hnil hlength rfl fun _ => rfl)
    obtain ⟨tree, happend, hvalid, hlist⟩ := append_spec hlawful ha.tree hleaf
    refine ⟨⟨tree, [], [], zero⟩, ?_, ⟨hvalid, rfl, rfl, rfl⟩, hlist⟩
    show (SeekAggregate.slice T S).endLeaf ((SeekAggregate.slice T S).pushItems a leafItems) = _
    rw [hpush]
    show (a.tree.append _).map _ = _
    rw [happend]
    rfl

theorem slice_keeps (hlawful : P → LawfulSummary S) :
    (SeekAggregate.slice T S).Keeps P (SliceSeekAggregate.Sound P : SliceSeekAggregate T S → Prop) where
  pushTree := by
    intro a a' t s ha ht hpush
    obtain ⟨a₁, hpush₁, hsound, -⟩ := (slice_collects hlawful).pushTree ⟨ha, rfl⟩ ht
    exact Option.some.inj (hpush₁.symm.trans hpush) ▸ hsound
  leaf := by
    intro a a' items ha hlength hend
    obtain ⟨a₁, hend₁, hsound, -⟩ := (slice_collects hlawful).leaf ⟨ha, rfl⟩ hlength
    exact Option.some.inj (hend₁.symm.trans hend) ▸ hsound

/-! ### Seeking -/

namespace Cursor

/-- The trees on a stack are valid. -/
def StackValid (P : Prop) (stack : List (StackEntry T S D)) : Prop := ∀ e ∈ stack, e.tree.Valid P

omit [Dimension D S] in
theorem StackValid.cons {e : StackEntry T S D} {stack : List (StackEntry T S D)} (he : e.tree.Valid P)
    (h : StackValid P stack) : StackValid P (e :: stack) := by
  intro e' he'
  rcases List.mem_cons.mp he' with rfl | he'
  · exact he
  · exact h e' he'

structure Sound (P : Prop) (c : Cursor T S D) : Prop where
  tree : c.tree.Valid P
  stack : StackValid P c.stack

theorem sound_new {tree : SumTree T S} (h : tree.Valid P) : (new tree : Cursor T S D).Sound P :=
  ⟨h, fun _ he => absurd he List.not_mem_nil⟩

variable {Q : A → Prop} {aggregate : SeekAggregate A T S} {bias : Bias} {c c' : Cursor T S D}
  {filterNode : S → Bool}

variable {target : SeekTarget D}

theorem seekChildren_spec (hkeeps : aggregate.Keeps P Q) (children : List (SumTree T S × S))
    (hchildren : ∀ c ∈ children, c.1.WellFormed P) {entry entry' : StackEntry T S D}
    {position position' : D} {a a' : A} {child : Option (SumTree T S)} (ha : Q a)
    (h : seekChildren target bias aggregate children entry position a
    = some (entry', position', a', child)) : entry'.tree = entry.tree ∧ Q a' ∧ ∀ t ∈ child, t.WellFormed P := by
  induction children generalizing entry position a with
  | nil =>
    obtain ⟨rfl, -, rfl, rfl⟩ : entry = entry' ∧ position = position' ∧ a = a' ∧ none = child := by
      simpa [seekChildren] using h
    exact ⟨rfl, ha, fun t ht => absurd ht (by simp)⟩
  | cons c children ih =>
    obtain ⟨childTree, childSummary⟩ := c
    unfold seekChildren at h
    simp only at h
    split at h
    · obtain ⟨a₁, ha₁, h⟩ := Option.bind_eq_some_iff.mp h
      have hQ := hkeeps.pushTree ha (hchildren _ List.mem_cons_self) ha₁
      have hrest := ih (fun c hc => hchildren c (List.mem_cons_of_mem _ hc)) hQ h
      exact hrest
    · obtain ⟨rfl, -, rfl, rfl⟩ : entry = entry' ∧ position = position' ∧ a = a' ∧
          some childTree = child := by simpa using h
      refine ⟨rfl, ha, fun t ht => ?_⟩
      rw [← Option.some.inj ht]
      exact hchildren _ List.mem_cons_self

omit [Summary S] in
theorem seekItems_spec (target : SeekTarget D) (bias : Bias) (aggregate : SeekAggregate A T S)
    (items : List T) (entry : StackEntry T S D) (position : D) (a : A) :
    ∃ entry' position' n stopped, seekItems target bias aggregate
        (items.map fun item => (item, Item.summary item)) entry position a
      = (entry', position', aggregate.pushItems a (items.take n), stopped) ∧
      entry'.tree = entry.tree := by
  induction items generalizing entry position a with
  | nil => exact ⟨entry, position, 0, false, rfl, rfl⟩
  | cons item items ih =>
    rw [List.map_cons, seekItems]
    split
    · obtain ⟨entry', position', n, stopped, heq, htree⟩ := ih
        { entry with index := entry.index + 1 } (Dimension.addSummary position (Item.summary item))
        (aggregate.pushItem a item (Item.summary item))
      exact ⟨entry', position', n + 1, stopped, heq, htree⟩
    · exact ⟨entry, position, 0, true, rfl, rfl⟩

omit [Summary S] [Item T S] [Dimension D S] in
theorem resumed_tree (ascending : Bool) (entry : StackEntry T S D) (position : D) :
    (resumed ascending entry position).tree = entry.tree := by
  unfold resumed
  split <;> rfl

/-- **The loop of a seek**: the stack stays valid, and what the aggregate is told keeps its
property. -/
theorem seekLoop_spec (hkeeps : aggregate.Keeps P Q) (fuel : Nat) :
    ∀ {ascending : Bool} {stack stack' : List (StackEntry T S D)} {position position' : D} {a a' : A},
      StackValid P stack → Q a →
      seekLoop target bias aggregate fuel ascending stack position a = some (stack', position', a') →
      StackValid P stack' ∧ Q a' := by
  induction fuel with
  | zero =>
    intro ascending stack stack' position position' a a' _ _ h
    exact absurd h (by simp [seekLoop])
  | succ fuel ih =>
    intro ascending stack stack' position position' a a' hstack ha h
    cases stack with
    | nil =>
      obtain ⟨rfl, -, rfl⟩ : [] = stack' ∧ position = position' ∧ a = a' := by simpa [seekLoop] using h
      exact ⟨hstack, ha⟩
    | cons entry stack =>
      have hentry := hstack entry List.mem_cons_self
      have hrest : StackValid P stack := fun e he => hstack e (List.mem_cons_of_mem _ he)
      unfold seekLoop at h
      split at h
      · rename_i height summary childSummaries childTrees htree
        rw [htree] at hentry
        simp only at h
        split at h
        · exact absurd h (by simp)
        · obtain ⟨⟨entry₂, position₂, a₂, child⟩, hseek, h⟩ := Option.bind_eq_some_iff.mp h
          have hwf : ∀ c ∈ List.zip (childTrees.drop (resumed ascending entry position).index)
              (childSummaries.drop (resumed ascending entry position).index), c.1.WellFormed P := by
            intro c hc
            exact hentry.children c.1 (List.mem_of_mem_drop (List.of_mem_zip hc).1)
          obtain ⟨htree₂, ha₂, hchild⟩ := seekChildren_spec hkeeps _ hwf ha hseek
          cases child with
          | none => exact ih hrest ha₂ h
          | some childTree =>
            have hentry₂ : entry₂.tree.Valid P := by
              rw [htree₂, resumed_tree, htree]
              exact hentry
            refine ih (StackValid.cons ?_ (hrest.cons hentry₂)) ha₂ h
            exact Or.inr (hchild childTree rfl)
      · rename_i summary items itemSummaries htree
        rw [htree] at hentry
        obtain ⟨hlength, hsummaries⟩ := hentry.leaf
        subst hsummaries
        split at h
        · exact absurd h (by simp)
        · have hzip : List.zip (items.drop entry.index) ((items.map Item.summary).drop entry.index)
              = (items.drop entry.index).map fun item => (item, Item.summary item) := by
            rw [← List.map_drop, zip_map_self]
          obtain ⟨entry₂, position₂, n, stopped, hseek, htree₂⟩ := seekItems_spec target bias aggregate
            (items.drop entry.index) entry position (aggregate.beginLeaf a)
          rw [hzip, hseek] at h
          simp only at h
          obtain ⟨a₂, hend, h⟩ := Option.bind_eq_some_iff.mp h
          have ha₂ : Q a₂ := by
            refine hkeeps.leaf ha ?_ hend
            rw [List.length_take, List.length_drop]
            omega
          split at h
          · obtain ⟨rfl, -, rfl⟩ : entry₂ :: stack = stack' ∧ position₂ = position' ∧ a₂ = a' := by
              simpa using h
            refine ⟨hrest.cons ?_, ha₂⟩
            rw [htree₂, htree]
            exact hentry
          · exact ih hrest ha₂ h

theorem seekInternal_spec (hkeeps : aggregate.Keeps P Q) {a a' : A} {found : Bool}
    (hc : c.Sound P) (ha : Q a) (h : seekInternal target bias aggregate c a = some (found, c', a')) :
    c'.Sound P ∧ Q a' := by
  unfold seekInternal at h
  split at h
  · exact absurd h (by simp)
  · have hsound : c.started.Sound P := by
      unfold started
      split
      · exact hc
      · exact ⟨hc.tree, hc.stack.cons hc.tree⟩
    obtain ⟨⟨stack, position, a₂⟩, hloop, h⟩ := Option.bind_eq_some_iff.mp h
    obtain ⟨found₂, -, heq⟩ := Option.map_eq_some_iff.mp h
    obtain ⟨-, heq⟩ := Prod.mk.inj heq
    obtain ⟨rfl, rfl⟩ := Prod.mk.inj heq
    obtain ⟨hstack, ha₂⟩ := seekLoop_spec hkeeps _ hsound.stack ha hloop
    exact ⟨⟨hsound.tree, hstack⟩, ha₂⟩

theorem seek_sound {found : Bool}
    (hc : c.Sound P) (h : c.seek target bias = some (found, c')) : c'.Sound P := by
  obtain ⟨⟨found₂, c₂, a⟩, hseek, heq⟩ := Option.map_eq_some_iff.mp h
  obtain ⟨-, rfl⟩ := Prod.mk.inj heq
  have hreset : c.reset.Sound P := ⟨hc.tree, fun _ he => absurd he List.not_mem_nil⟩
  exact (seekInternal_spec unit_keeps hreset trivial hseek).1

theorem seekForward_sound {found : Bool}
    (hc : c.Sound P) (h : c.seekForward target bias = some (found, c')) : c'.Sound P := by
  obtain ⟨⟨found₂, c₂, a⟩, hseek, heq⟩ := Option.map_eq_some_iff.mp h
  obtain ⟨-, rfl⟩ := Prod.mk.inj heq
  exact (seekInternal_spec unit_keeps hc trivial hseek).1

theorem summary_sound {E : Type} [Dimension E S]
    {output : E} (hc : c.Sound P) (h : c.summary target bias = some (output, c')) : c'.Sound P := by
  obtain ⟨⟨found₂, c₂, a⟩, hseek, heq⟩ := Option.map_eq_some_iff.mp h
  obtain ⟨-, rfl⟩ := Prod.mk.inj heq
  exact (seekInternal_spec summary_keeps hc trivial hseek).1

/-- **A slice is a valid tree.** -/
theorem slice_spec (hlawful : P → LawfulSummary S)
    {tree : SumTree T S} (hc : c.Sound P) (h : c.slice target bias = some (tree, c')) :
    tree.Valid P ∧ c'.Sound P := by
  obtain ⟨⟨found₂, c₂, a⟩, hseek, heq⟩ := Option.map_eq_some_iff.mp h
  obtain ⟨rfl, rfl⟩ := Prod.mk.inj heq
  obtain ⟨hsound, ha⟩ := seekInternal_spec (slice_keeps hlawful) hc ⟨Or.inl rfl, rfl, rfl, rfl⟩ hseek
  exact ⟨ha.tree, hsound⟩

/-! ### Moving by one item -/

omit [Summary S] [Item T S] in
theorem skip_tree (filterNode : S → Bool) (summaries : List S) (entry : StackEntry T S D)
    (position : D) : (skip filterNode summaries entry position).1.tree = entry.tree := by
  induction summaries generalizing entry position with
  | nil => rfl
  | cons summary summaries ih =>
    unfold skip
    split
    · rfl
    · exact ih _ _

omit [Summary S] [Item T S] in
theorem leaveItem_tree {descend : Bool} {itemSummaries : List S} {entry entry' : StackEntry T S D}
    {position position' : D}
    (h : leaveItem descend itemSummaries entry position = some (entry', position')) :
    entry'.tree = entry.tree := by
  unfold leaveItem at h
  split at h
  · rw [← (Prod.mk.inj (Option.some.inj h)).1]
  · obtain ⟨itemSummary, -, heq⟩ := Option.map_eq_some_iff.mp h
    rw [← (Prod.mk.inj heq).1]

theorem searchForwardLoop_spec (fuel : Nat) :
    ∀ {descend found : Bool} {stack stack' : List (StackEntry T S D)} {position position' : D},
      StackValid P stack →
      searchForwardLoop filterNode fuel descend stack position = some (stack', position', found) →
      StackValid P stack' := by
  induction fuel with
  | zero =>
    intro descend found stack stack' position position' _ h
    exact absurd h (by simp [searchForwardLoop])
  | succ fuel ih =>
    intro descend found stack stack' position position' hstack h
    cases stack with
    | nil =>
      obtain ⟨rfl, -, -⟩ : [] = stack' ∧ position = position' ∧ false = found := by
        simpa [searchForwardLoop] using h
      exact hstack
    | cons entry stack =>
      have hentry := hstack entry List.mem_cons_self
      have hrest : StackValid P stack := fun e he => hstack e (List.mem_cons_of_mem _ he)
      unfold searchForwardLoop at h
      split at h
      · rename_i height summary childSummaries childTrees htree
        simp only at h
        split at h
        · rename_i subtree hsubtree
          refine ih (StackValid.cons ?_ (hrest.cons ?_)) h
          swap
          · rw [skip_tree, resumed_tree]
            exact hentry
          rw [htree] at hentry
          exact Or.inr (hentry.children subtree (List.mem_of_getElem? hsubtree))
        · exact ih hrest h
      · obtain ⟨⟨entry₁, position₁⟩, hmoved, h⟩ := Option.bind_eq_some_iff.mp h
        simp only at h
        split at h
        · obtain ⟨rfl, -, -⟩ : _ :: stack = stack' ∧ _ = position' ∧ true = found := by simpa using h
          refine hrest.cons ?_
          rw [skip_tree, leaveItem_tree hmoved]
          exact hentry
        · exact ih hrest h

theorem searchForward_sound (hc : c.Sound P) (h : c.searchForward filterNode = some c') : c'.Sound P := by
  obtain ⟨⟨stack, position, found⟩, hloop, rfl⟩ := Option.map_eq_some_iff.mp h
  refine ⟨hc.tree, searchForwardLoop_spec _ ?_ hloop⟩
  split
  · exact StackValid.cons hc.tree fun _ he => absurd he List.not_mem_nil
  · exact hc.stack

theorem searchBackwardLoop_spec (fuel : Nat) :
    ∀ {descending : Bool} {stack stack' : List (StackEntry T S D)} {position position' : D},
      StackValid P stack →
      searchBackwardLoop filterNode fuel descending stack position = some (stack', position') →
      StackValid P stack' := by
  induction fuel with
  | zero =>
    intro descending stack stack' position position' _ h
    exact absurd h (by simp [searchBackwardLoop])
  | succ fuel ih =>
    intro descending stack stack' position position' hstack h
    cases stack with
    | nil =>
      obtain ⟨rfl, -⟩ : [] = stack' ∧ position = position' := by simpa [searchBackwardLoop] using h
      exact hstack
    | cons entry stack =>
      have hentry := hstack entry List.mem_cons_self
      have hrest : StackValid P stack := fun e he => hstack e (List.mem_cons_of_mem _ he)
      unfold searchBackwardLoop at h
      simp only at h
      split at h
      · exact ih hrest h
      · split at h
        · exact absurd h (by simp)
        · split at h
          · split at h
            · rename_i height summary childSummaries childTrees htree
              split at h
              · exact absurd h (by simp)
              · rename_i tree hchild
                split at h
                · exact absurd h (by simp)
                · refine ih ?_ h
                  have hvalid : (internal height summary childSummaries childTrees).Valid P := htree ▸ hentry
                  have htree' := hvalid.children tree (List.mem_of_getElem? hchild)
                  exact StackValid.cons (Or.inr htree') (StackValid.cons hentry hrest)
            · obtain ⟨rfl, -⟩ : _ :: stack = stack' ∧ _ = position' := by simpa using h
              exact hrest.cons hentry
          · refine ih ?_ h
            exact StackValid.cons hentry hrest

theorem searchBackward_sound (hc : c.Sound P) (h : c.searchBackward filterNode = some c') : c'.Sound P := by
  have hstarted : c.startedBackward.Sound P := by
    unfold startedBackward
    split
    · exact hc
    · refine ⟨hc.tree, ?_⟩
      show StackValid P (if c.tree.isEmpty then c.stack else _ :: c.stack)
      split
      · exact hc.stack
      · exact StackValid.cons hc.tree hc.stack
  obtain ⟨⟨stack, position⟩, hloop, rfl⟩ := Option.map_eq_some_iff.mp h
  exact ⟨hstarted.tree, searchBackwardLoop_spec _ hstarted.stack hloop⟩

theorem nextIf_sound {cond : Bool} (hc : c.Sound P) (h : c.nextIf cond = some c') : c'.Sound P := by
  unfold nextIf at h
  split at h
  · exact searchForward_sound hc h
  · exact Option.some.inj h ▸ hc

end Cursor

/-! ### Keyed items -/

section Keyed

variable {K : Type} [Ord K] [DecidableEq K] [KeyedItem T K] [Dimension K S] (hlawful : P → LawfulSummary S)

include hlawful

variable {t t' : SumTree T S}

theorem append_valid {other : SumTree T S} (h : t.Valid P) (hother : other.Valid P)
    (heq : t.append other = some t') : t'.Valid P := by
  obtain ⟨t₂, happend, hvalid, -⟩ := append_spec hlawful h hother
  exact Option.some.inj (happend.symm.trans heq) ▸ hvalid

theorem push_valid {item : T} (h : t.Valid P) (heq : t.push item = some t') : t'.Valid P := by
  obtain ⟨t₂, hpush, hvalid, -⟩ := push_spec hlawful h item
  exact Option.some.inj (hpush.symm.trans heq) ▸ hvalid

theorem extend_valid {items : List T} (h : t.Valid P) (heq : t.extend items = some t') : t'.Valid P := by
  obtain ⟨t₂, hextend, hvalid, -⟩ := extend_spec hlawful h items
  exact Option.some.inj (hextend.symm.trans heq) ▸ hvalid

theorem insertOrReplace_valid {item : T} {replaced : Option T} (h : t.Valid P)
    (heq : t.insertOrReplace item = some (t', replaced)) : t'.Valid P := by
  unfold insertOrReplace at heq
  obtain ⟨⟨newTree, cursor⟩, hslice, heq⟩ := Option.bind_eq_some_iff.mp heq
  obtain ⟨cursorItem, -, heq⟩ := Option.bind_eq_some_iff.mp heq
  obtain ⟨cursor₂, hnext, heq⟩ := Option.bind_eq_some_iff.mp heq
  obtain ⟨newTree₂, hpush, heq⟩ := Option.bind_eq_some_iff.mp heq
  obtain ⟨⟨suffix, cursor₃⟩, hsuffix, heq⟩ := Option.bind_eq_some_iff.mp heq
  obtain ⟨newTree₃, happend, heq⟩ := Option.bind_eq_some_iff.mp heq
  obtain ⟨rfl, -⟩ := Prod.mk.inj (Option.some.inj heq)
  obtain ⟨hnew, hcursor⟩ := Cursor.slice_spec hlawful (Cursor.sound_new h) hslice
  obtain ⟨hsuf, -⟩ := Cursor.slice_spec hlawful (Cursor.nextIf_sound hcursor hnext) hsuffix
  exact append_valid hlawful (push_valid hlawful hnew hpush) hsuf happend

theorem remove_valid {key : K} {removed : Option T} (h : t.Valid P)
    (heq : t.remove key = some (t', removed)) : t'.Valid P := by
  unfold remove at heq
  obtain ⟨⟨newTree, cursor⟩, hslice, heq⟩ := Option.bind_eq_some_iff.mp heq
  obtain ⟨cursorItem, -, heq⟩ := Option.bind_eq_some_iff.mp heq
  obtain ⟨cursor₂, hnext, heq⟩ := Option.bind_eq_some_iff.mp heq
  obtain ⟨⟨suffix, cursor₃⟩, hsuffix, heq⟩ := Option.bind_eq_some_iff.mp heq
  obtain ⟨newTree₂, happend, heq⟩ := Option.bind_eq_some_iff.mp heq
  obtain ⟨rfl, -⟩ := Prod.mk.inj (Option.some.inj heq)
  obtain ⟨hnew, hcursor⟩ := Cursor.slice_spec hlawful (Cursor.sound_new h) hslice
  obtain ⟨hsuf, -⟩ := Cursor.slice_spec hlawful (Cursor.nextIf_sound hcursor hnext) hsuffix
  exact append_valid hlawful hnew hsuf happend

end Keyed

section Edits

variable {K : Type} [LinearOrder K] [KeyedItem T K] [Dimension K S] (hlawful : P → LawfulSummary S)

include hlawful

/-- What every round of `edit` keeps. -/
structure EditState.Sound (P : Prop) (s : EditState T S K) : Prop where
  cursor : s.cursor.Sound P
  newTree : s.newTree.Valid P

theorem editAdvance_sound {s s' : EditState T S K} {newKey : K} {oldItem : Option T} (h : s.Sound P)
    (heq : editAdvance s newKey = some (s', oldItem)) : s'.Sound P := by
  unfold editAdvance at heq
  obtain ⟨oldItem₁, -, heq⟩ := Option.bind_eq_some_iff.mp heq
  split at heq
  · obtain ⟨newTree, hextend, heq⟩ := Option.bind_eq_some_iff.mp heq
    obtain ⟨⟨slice, cursor⟩, hslice, heq⟩ := Option.bind_eq_some_iff.mp heq
    obtain ⟨newTree₂, happend, heq⟩ := Option.bind_eq_some_iff.mp heq
    obtain ⟨oldItem₂, -, heq⟩ := Option.bind_eq_some_iff.mp heq
    obtain ⟨rfl, -⟩ := Prod.mk.inj (Option.some.inj heq)
    obtain ⟨hvalid, hcursor⟩ := Cursor.slice_spec hlawful h.cursor hslice
    exact ⟨hcursor, append_valid hlawful (extend_valid hlawful h.newTree hextend) hvalid happend⟩
  · obtain ⟨rfl, -⟩ := Prod.mk.inj (Option.some.inj heq)
    exact h

theorem editStep_sound {s s' : EditState T S K} {edit : Edit T K} (h : s.Sound P)
    (heq : editStep s edit = some s') : s'.Sound P := by
  unfold editStep at heq
  obtain ⟨⟨s₁, oldItem⟩, hadvance, heq⟩ := Option.bind_eq_some_iff.mp heq
  obtain ⟨cursor, hnext, heq⟩ := Option.bind_eq_some_iff.mp heq
  obtain rfl := Option.some.inj heq
  have h₁ := editAdvance_sound hlawful h hadvance
  exact ⟨Cursor.nextIf_sound h₁.cursor hnext, h₁.newTree⟩

theorem foldlM_editStep_sound (edits : List (Edit T K)) {s s' : EditState T S K} (h : s.Sound P)
    (heq : edits.foldlM editStep s = some s') : s'.Sound P := by
  induction edits generalizing s with
  | nil => exact Option.some.inj heq ▸ h
  | cons edit edits ih =>
    obtain ⟨s₁, hstep, heq⟩ := Option.bind_eq_some_iff.mp heq
    exact ih (editStep_sound hlawful h hstep) heq

theorem editSorted_valid {t t' : SumTree T S} {edits : List (Edit T K)} {removed : List T}
    (h : t.Valid P) (heq : t.editSorted edits = some (t', removed)) : t'.Valid P := by
  unfold editSorted at heq
  split at heq
  · obtain ⟨rfl, -⟩ := Prod.mk.inj (Option.some.inj heq)
    exact h
  · obtain ⟨⟨found, cursor⟩, hseek, heq⟩ := Option.bind_eq_some_iff.mp heq
    obtain ⟨s, hfold, heq⟩ := Option.bind_eq_some_iff.mp heq
    obtain ⟨newTree, hextend, heq⟩ := Option.bind_eq_some_iff.mp heq
    obtain ⟨⟨suffix, cursor₂⟩, hsuffix, heq⟩ := Option.bind_eq_some_iff.mp heq
    obtain ⟨newTree₂, happend, heq⟩ := Option.bind_eq_some_iff.mp heq
    obtain ⟨rfl, -⟩ := Prod.mk.inj (Option.some.inj heq)
    have hcursor := Cursor.seek_sound (Cursor.sound_new h) hseek
    have hs := foldlM_editStep_sound hlawful edits ⟨hcursor, Or.inl rfl⟩ hfold
    obtain ⟨hsuf, -⟩ := Cursor.slice_spec hlawful hs.cursor hsuffix
    exact append_valid hlawful (extend_valid hlawful hs.newTree hextend) hsuf happend

end Edits

end SumTree

end FcGpui

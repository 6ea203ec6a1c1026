import FcGpui.SumTree.Places

/-!
# Reachable cursors

Any moves of a new cursor, with any filters and targets, leave it at a place or `Lost`:
without an item, where its position says nothing.  It gets lost only if it is sought
forward from before the first item; a search backward or a seek finds back.

**Main result.**  `Reachable.stands`: a reachable cursor that has an item stands before it.
-/

namespace FcGpui

namespace SumTree

variable {T S D A : Type} [Summary S] [Item T S] [Dimension D S] {P R : Prop}

open Summary

namespace Cursor

variable {root t : SumTree T S} {passed remaining : List T} {c c' : Cursor T S D} {target : SeekTarget D}
  {bias : Bias} {p : Place}

/-! ### Reachable cursors -/

/-- A cursor without an item that has been sought forward from before the first item: its position
may be anywhere. -/
structure Lost (root : SumTree T S) (c : Cursor T S D) : Prop where
  tree : c.tree = root
  stack : c.stack = []
  didSeek : c.didSeek = true
  atEnd : c.atEnd = true

/-- The cursor is at a place, or lost. -/
def Kept (R : Prop) (root : SumTree T S) (c : Cursor T S D) : Prop := (∃ p, At R root c p) ∨ Lost root c

omit [Summary S] in
theorem Retreated.kept {filterNode : S → Bool} (h : Retreated R root filterNode c' passed) : Kept R root c' := by
  rcases h with ⟨rfl, -⟩ | ⟨passed', item, skipped, remaining, hstands, -⟩
  · exact Or.inl ⟨_, .beforeStart⟩
  · exact Or.inl ⟨_, .stands hstands⟩

section Lawful

variable (hlaw : R → P ∧ LawfulSummary S ∧ LawfulDimension D S)

include hlaw

theorem searchForward_kept (hroot : root.Valid P) {filterNode : S → Bool} (hc : Kept R root c)
    (h : c.searchForward filterNode = some c') : Kept R root c' := by
  have hstart : ∀ didSeek, (beforeStart root didSeek).searchForward filterNode = some c' → Kept R root c' := by
    intro didSeek h
    obtain ⟨c₁, skipped, remaining, hsearch, hstands, -⟩ := searchForward_start hlaw hroot didSeek filterNode
    obtain rfl := Option.some.inj (hsearch.symm.trans h)
    exact Or.inl ⟨_, .stands hstands⟩
  rcases hc with ⟨p, hat⟩ | hlost
  · cases hat with
    | unmoved => exact hstart false h
    | beforeStart => exact hstart true h
    | @stands _ passed remaining hstands =>
      cases remaining with
      | nil =>
        have hend : c.atEnd = true := by rw [hstands.atEnd, hstands.stack_nil]; rfl
        rw [searchForward_end hstands.stack_nil hstands.didSeek hend] at h
        exact Option.some.inj h ▸ Or.inl ⟨_, .stands hstands⟩
      | cons item remaining =>
        obtain ⟨c₁, skipped, remaining', hsearch, hstands', -⟩ := searchForward_item hlaw hroot hstands filterNode
        obtain rfl := Option.some.inj (hsearch.symm.trans h)
        exact Or.inl ⟨_, .stands hstands'⟩
  · rw [searchForward_end hlost.stack hlost.didSeek hlost.atEnd] at h
    exact Option.some.inj h ▸ Or.inr hlost

theorem searchBackward_kept (hroot : root.Valid P) {filterNode : S → Bool} (hc : Kept R root c)
    (h : c.searchBackward filterNode = some c') : Kept R root c' := by
  have hend : c.tree = root → c.stack = [] → (c.didSeek && !c.atEnd) = false → Kept R root c' := by
    intro htree hstack hstarted
    obtain ⟨c₁, hsearch, hretreated⟩ := searchBackward_end hlaw hroot htree hstack hstarted filterNode
    obtain rfl := Option.some.inj (hsearch.symm.trans h)
    exact hretreated.kept
  rcases hc with ⟨p, hat⟩ | hlost
  · cases hat with
    | unmoved => exact hend rfl rfl rfl
    | beforeStart =>
      rw [searchBackward_start] at h
      exact Option.some.inj h ▸ Or.inl ⟨_, .beforeStart⟩
    | @stands _ passed remaining hstands =>
      cases remaining with
      | nil =>
        refine hend hstands.tree hstands.stack_nil ?_
        rw [hstands.atEnd, hstands.stack_nil, List.isEmpty_nil, Bool.not_true, Bool.and_false]
      | cons item remaining =>
        obtain ⟨c₁, hsearch, hretreated⟩ := searchBackward_item hlaw hroot hstands filterNode
        obtain rfl := Option.some.inj (hsearch.symm.trans h)
        exact hretreated.kept
  · refine hend hlost.tree hlost.stack ?_
    rw [hlost.atEnd, Bool.not_true, Bool.and_false]

omit hlaw [Summary S] [Item T S] in
theorem seekInternal_lost {aggregate : SeekAggregate A T S} {a a' : A} {found : Bool} (htree : c.tree = root)
    (hstack : c.stack = []) (hseek : c.didSeek = true)
    (h : seekInternal target bias aggregate c a = some (found, c', a')) : Lost root c' := by
  obtain ⟨tree, stack, position, didSeek, atEnd⟩ := c
  obtain rfl : stack = [] := hstack
  obtain rfl : didSeek = true := hseek
  unfold seekInternal at h
  split at h
  · exact absurd h (by simp)
  · obtain ⟨⟨stack', position', a₁⟩, hloop, h⟩ := Option.bind_eq_some_iff.mp h
    obtain ⟨found₁, -, heq⟩ := Option.map_eq_some_iff.mp h
    obtain ⟨rfl, -, -⟩ : [] = stack' ∧ position = position' ∧ a = a₁ := by
      simpa [started, fuel, seekLoop] using hloop
    cases heq
    exact ⟨htree, rfl, rfl, rfl⟩

theorem seekInternal_kept (hroot : root.Valid P) {aggregate : SeekAggregate A T S} {a a' : A} {found : Bool}
    (hc : Kept R root c) (h : seekInternal target bias aggregate c a = some (found, c', a')) : Kept R root c' := by
  have hcmp : target.cmp c.position ≠ .lt := by
    intro hlt
    rw [seekInternal, if_pos hlt] at h
    exact absurd h (by simp)
  have hready : ∀ {passed remaining : List T}, Ready R root c passed remaining → Kept R root c' := by
    intro passed remaining hready
    obtain ⟨found₁, c₁, a₁, crossed, remaining', hseek, hsought, -⟩ :=
      seekInternal_finds bias hlaw unit_collects hroot hready hcmp (a := ()) trivial
    rw [seekInternal_unit h] at hseek
    cases hseek
    exact Or.inl ⟨_, .stands hsought.stands⟩
  rcases hc with ⟨p, hat⟩ | hlost
  · cases hat with
    | unmoved => exact hready .new
    | beforeStart => exact Or.inr (seekInternal_lost rfl rfl rfl h)
    | stands hstands => exact hready (.stands hstands)
  · exact Or.inr (seekInternal_lost hlost.tree hlost.stack hlost.didSeek h)

/-- Every reachable cursor is at a place, or lost. -/
theorem Reachable.kept (hroot : root.Valid P) (hc : Reachable root c) : Kept R root c := by
  induction hc with
  | new => exact Or.inl ⟨_, .unmoved⟩
  | searchForward _ h ih => exact searchForward_kept hlaw hroot ih h
  | searchBackward _ h ih => exact searchBackward_kept hlaw hroot ih h
  | @seek c c' target bias found _ h ih =>
    obtain ⟨⟨found₁, c₁, a⟩, hseek, heq⟩ := Option.map_eq_some_iff.mp h
    cases heq
    have htree : c.tree = root := by
      rcases ih with ⟨p, hat⟩ | hlost
      · exact hat.tree
      · exact hlost.tree
    have hreset : c.reset = Cursor.new root := by
      rw [← htree]
      rfl
    exact seekInternal_kept hlaw hroot (hreset ▸ Or.inl ⟨_, .unmoved⟩) hseek
  | seekForward _ h ih =>
    obtain ⟨⟨found₁, c₁, a⟩, hseek, heq⟩ := Option.map_eq_some_iff.mp h
    cases heq
    exact seekInternal_kept hlaw hroot ih hseek
  | slice _ h ih =>
    obtain ⟨⟨found₁, c₁, a⟩, hseek, heq⟩ := Option.map_eq_some_iff.mp h
    cases heq
    exact seekInternal_kept hlaw hroot ih hseek
  | summary _ h ih =>
    obtain ⟨⟨found₁, c₁, a⟩, hseek, heq⟩ := Option.map_eq_some_iff.mp h
    cases heq
    exact seekInternal_kept hlaw hroot ih hseek

theorem Reachable.stands (hroot : root.Valid P) (hc : Reachable root c) {item : T}
    (hitem : c.item = some (some item)) :
    ∃ passed remaining, Stands R root c passed (item :: remaining) := by
  rcases hc.kept hlaw hroot with ⟨p, hat⟩ | hlost
  · cases hat with
    | unmoved => exact absurd hitem nofun
    | beforeStart => exact absurd hitem nofun
    | @stands _ passed remaining hstands =>
      rw [hstands.item] at hitem
      cases remaining with
      | nil => exact absurd hitem nofun
      | cons item' remaining =>
        obtain rfl : item' = item := Option.some.inj (Option.some.inj hitem)
        exact ⟨passed, remaining, hstands⟩
  · unfold Cursor.item at hitem
    rw [hlost.didSeek, hlost.stack] at hitem
    exact absurd hitem nofun

theorem Reachable.eq_new (hroot : root.Valid P) (hc : Reachable root c) (hseek : c.didSeek = false) :
    c = Cursor.new root := by
  rcases hc.kept hlaw hroot with ⟨p, hat⟩ | hlost
  · cases hat with
    | unmoved => rfl
    | beforeStart => exact absurd hseek nofun
    | stands hstands => exact absurd (hstands.didSeek.symm.trans hseek) nofun
  · exact absurd (hlost.didSeek.symm.trans hseek) nofun

end Lawful

end Cursor

end SumTree

end FcGpui

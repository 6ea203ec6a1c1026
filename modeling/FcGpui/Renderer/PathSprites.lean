import FcGpui.Scene.Batches

/-!
# The sprites of a batch of paths

`path_sprites` and `path_sprite_count` in
`crates/gpui-wgpu/src/wgpu_renderer.rs`; the Metal renderer has the first one
inline (`draw_paths_from_intermediate` in
`crates/gpui-macos/src/mac/metal_renderer.rs`).  The paths of a batch are first
drawn into an intermediate texture and then copied to the frame, one sprite at a
time.  A batch of one draw order gets one sprite for each path, any other batch
one sprite that spans all of its paths.

`pathSprites_covers`: whichever it is, every path lies inside a sprite.
-/

namespace FcGpui

structure PathSprite (U : Type) where
  bounds : Bounds U
deriving DecidableEq, Repr

section Sprites

variable {U ρ : Type} [AddCommGroup U] [LinearOrder U]

/-- The least rectangle around a list of paths that begins with `bounds`. -/
def spanningBounds (bounds : Bounds U) (paths : List (Primitive U ρ)) : Bounds U :=
  paths.foldl (fun bounds path => bounds.union path.clippedBounds) bounds

/-- `none` where the source panics: there is no first path. -/
def pathSprites : List (Primitive U ρ) → Option (List (PathSprite U))
  | [] => none
  | firstPath :: rest =>
    if (firstPath :: rest).getLast?.map Primitive.order = some firstPath.order then
      some ((firstPath :: rest).map fun path => ⟨path.clippedBounds⟩)
    else some [⟨spanningBounds firstPath.clippedBounds rest⟩]

def pathSpriteCount (paths : List (Primitive U ρ)) : Nat :=
  if paths.isEmpty then 0
  else if paths.getLast?.map Primitive.order = paths.head?.map Primitive.order then paths.length
  else 1

theorem pathSprites_length {paths : List (Primitive U ρ)} (h : paths ≠ []) :
    ∃ sprites, pathSprites paths = some sprites ∧ sprites.length = pathSpriteCount paths := by
  cases paths with
  | nil => exact absurd rfl h
  | cons firstPath rest =>
    have hcount : pathSpriteCount (firstPath :: rest)
        = if (firstPath :: rest).getLast?.map Primitive.order = some firstPath.order
          then (firstPath :: rest).length else 1 := rfl
    rw [pathSprites, hcount]
    by_cases ho : (firstPath :: rest).getLast?.map Primitive.order = some firstPath.order
    · refine ⟨_, if_pos ho, ?_⟩
      rw [if_pos ho, List.length_map]
    · refine ⟨_, if_neg ho, ?_⟩
      rw [if_neg ho, List.length_singleton]

theorem spanningBounds_covers (paths : List (Primitive U ρ)) :
    ∀ bounds : Bounds U, (spanningBounds bounds paths).Covers bounds ∧
      ∀ path ∈ paths, (spanningBounds bounds paths).Covers path.clippedBounds := by
  induction paths with
  | nil => exact fun bounds => ⟨Bounds.Covers.refl bounds, by simp⟩
  | cons head rest ih =>
    intro bounds
    obtain ⟨hspan, hrest⟩ := ih (bounds.union head.clippedBounds)
    refine ⟨hspan.trans (Bounds.covers_union_left _ _), fun path hp => ?_⟩
    rcases List.mem_cons.mp hp with rfl | hp
    · exact hspan.trans (Bounds.covers_union_right _ _)
    · exact hrest path hp

/-- **The sprites cover the paths.** -/
theorem pathSprites_covers {paths : List (Primitive U ρ)} {sprites : List (PathSprite U)}
    (h : pathSprites paths = some sprites) :
    ∀ path ∈ paths, ∃ sprite ∈ sprites, sprite.bounds.Covers path.clippedBounds := by
  intro path hp
  cases paths with
  | nil => exact absurd hp List.not_mem_nil
  | cons firstPath rest =>
    rw [pathSprites] at h
    split at h
    · cases h
      exact ⟨⟨path.clippedBounds⟩, List.mem_map_of_mem hp, Bounds.Covers.refl _⟩
    · cases h
      refine ⟨_, List.mem_singleton_self _, ?_⟩
      obtain ⟨hfirst, hrest⟩ := spanningBounds_covers rest firstPath.clippedBounds
      rcases List.mem_cons.mp hp with rfl | hp
      · exact hfirst
      · exact hrest path hp

end Sprites

end FcGpui

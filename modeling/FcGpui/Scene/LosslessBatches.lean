import FcGpui.Scene.PaintersOrder

/-!
# Batching loses nothing

The batches of a finished scene are a merge of its seven vectors: each vector is
the concatenation of the batches of its kind, and the concatenation of all
batches ascends by order and kind.  A batch of sprites has one texture, and a
quad that blends is alone in its batch (`Lossless`).

**Main result.**  `batches_lossless`.
-/

namespace FcGpui

variable {U ρ : Type}

/-- The key by which the primitives of a batch are drawn. -/
def PrimitiveBatch.keys (batch : PrimitiveBatch U ρ) : List (Nat ×ₗ Nat) :=
  batch.primitives.map fun p => toLex (p.order, batch.kind.rank)

/-- What the batches of a kind list. -/
def listing (batches : List (PrimitiveBatch U ρ)) (kind : PrimitiveKind) : List (Primitive U ρ) :=
  (batches.filter fun batch => batch.kind = kind).flatMap PrimitiveBatch.primitives

@[simp]
theorem listing_nil (kind : PrimitiveKind) : listing ([] : List (PrimitiveBatch U ρ)) kind = [] := rfl

theorem listing_cons_self (batch : PrimitiveBatch U ρ) (batches : List (PrimitiveBatch U ρ)) :
    listing (batch :: batches) batch.kind = batch.primitives ++ listing batches batch.kind := by
  rw [listing, List.filter_cons_of_pos (by simp), List.flatMap_cons]
  rfl

theorem listing_cons_of_ne {batch : PrimitiveBatch U ρ} {batches : List (PrimitiveBatch U ρ)} {kind : PrimitiveKind}
    (h : kind ≠ batch.kind) : listing (batch :: batches) kind = listing batches kind := by
  rw [listing, List.filter_cons_of_neg (by simpa using h.symm)]
  rfl

/-- Batches that list the primitives of seven vectors. -/
structure Lossless (items : PrimitiveKind → List (Primitive U ρ)) (batches : List (PrimitiveBatch U ρ)) : Prop where
  /-- Every primitive is in the batches of its kind, once and in its place. -/
  listed : ∀ kind, listing batches kind = items kind
  nonempty : ∀ batch ∈ batches, batch.primitives ≠ []
  contiguous : ∀ batch ∈ batches, batch.primitives <:+: items batch.kind
  sorted : (batches.flatMap PrimitiveBatch.keys).Pairwise (· ≤ ·)
  oneTexture : ∀ batch ∈ batches, batch.kind.isSprite = true →
    ∀ p ∈ batch.primitives, p.detail.textureId = batch.textureId
  alone : ∀ batch ∈ batches, batch.kind = .quad → ∀ p ∈ batch.primitives, p.detail.blendMode ≠ 0 →
    batch.primitives = [p]

namespace BatchIterator

variable {it : BatchIterator U ρ}

theorem key_le_of_order_le {m n : Nat} (h : m ≤ n) (rank : Nat) : toLex (m, rank) ≤ toLex (n, rank) := by
  rw [Prod.Lex.toLex_le_toLex]
  exact (Nat.lt_or_eq_of_le h).imp_right fun heq => ⟨heq, le_rfl⟩

theorem blendMode_of_joins {first p : Primitive U ρ} {m : Nat ×ₗ Nat} (h : joins .quad first m p = true) :
    first.detail.blendMode = 0 ∧ p.detail.blendMode = 0 := by
  simp only [joins, Bool.and_eq_true, beq_iff_eq] at h
  exact h.1

/-- Nothing of a batch has a key behind what is left in the other vectors. -/
theorem key_le_others (h : it.Ready) {kind : PrimitiveKind} {second : Option Nat × PrimitiveKind}
    (hothers : ∀ other, other ≠ kind → headKey second ≤ headKey (it.entry other)) {key : Nat ×ₗ Nat}
    (hkey : key ≤ headKey second) {other : PrimitiveKind} (hne : other ≠ kind) :
    ∀ q ∈ (it other).iter, key ≤ toLex (q.order, other.rank) := by
  intro q hq
  cases ho : (it other).iter with
  | nil =>
    rw [ho] at hq
    exact absurd hq List.not_mem_nil
  | cons head more =>
    have hhead : key ≤ toLex (head.order, other.rank) := by
      rw [← headKey_entry_cons ho]
      exact hkey.trans (hothers other hne)
    have hs := h.sorted other
    rw [ho] at hs hq
    rcases List.mem_cons.mp hq with rfl | hq
    · exact hhead
    · exact hhead.trans (key_le_of_order_le ((List.pairwise_cons.mp hs).1 q hq) _)

theorem sorted_keys {kind : PrimitiveKind} {l : List (Primitive U ρ)} (h : SortedBy Primitive.order l) :
    (l.map fun p => toLex (p.order, kind.rank)).Pairwise (· ≤ ·) := by
  rw [List.pairwise_map]
  exact h.imp fun hle => key_le_of_order_le hle _

theorem mem_keys_of_listed {items : PrimitiveKind → List (Primitive U ρ)} {batches : List (PrimitiveBatch U ρ)}
    (h : ∀ kind, listing batches kind = items kind) {key : Nat ×ₗ Nat}
    (hkey : key ∈ batches.flatMap PrimitiveBatch.keys) :
    ∃ kind, ∃ q ∈ items kind, key = toLex (q.order, kind.rank) := by
  obtain ⟨batch, hbatch, hkey⟩ := List.mem_flatMap.mp hkey
  obtain ⟨q, hq, rfl⟩ := List.mem_map.mp hkey
  refine ⟨batch.kind, q, ?_, rfl⟩
  rw [← h]
  exact List.mem_flatMap.mpr ⟨batch, List.mem_filter.mpr ⟨hbatch, by simp⟩, hq⟩

theorem Lossless.cons {kind : PrimitiveKind} {first : Primitive U ρ} {taken rest : List (Primitive U ρ)}
    {second : Option Nat × PrimitiveKind} {batches : List (PrimitiveBatch U ρ)} (h : it.Ready)
    (hi : (it kind).iter = (first :: taken) ++ rest)
    (hfirst : toLex (first.order, kind.rank) ≤ headKey second)
    (hothers : ∀ other, other ≠ kind → headKey second ≤ headKey (it.entry other))
    (hjoin : ∀ p ∈ taken, joins kind first (headKey second) p = true)
    (hrest : Lossless (Function.update (fun kind => (it kind).iter) kind rest) batches) :
    Lossless (fun kind => (it kind).iter) (⟨kind, first.detail.textureId, first :: taken⟩ :: batches) where
  listed other := by
    by_cases hne : other = kind
    · subst hne
      rw [listing_cons_self ⟨other, first.detail.textureId, first :: taken⟩, hrest.listed, Function.update_self, hi]
    · rw [listing_cons_of_ne hne, hrest.listed, Function.update_of_ne hne]
  nonempty := List.forall_mem_cons.mpr ⟨List.cons_ne_nil _ _, hrest.nonempty⟩
  contiguous := by
    refine List.forall_mem_cons.mpr ⟨⟨[], rest, ?_⟩, fun batch hbatch => ?_⟩
    · exact hi.symm
    · have hpart := hrest.contiguous batch hbatch
      by_cases hne : batch.kind = kind
      · rw [hne, Function.update_self] at hpart
        rw [hne]
        exact hpart.trans ⟨first :: taken, [], by rw [List.append_nil, hi]⟩
      · rwa [Function.update_of_ne hne] at hpart
  sorted := by
    have hsorted := h.sorted kind
    rw [hi] at hsorted
    obtain ⟨htaken, -, hbehind⟩ := List.pairwise_append.mp hsorted
    rw [List.flatMap_cons, List.pairwise_append]
    refine ⟨sorted_keys htaken, hrest.sorted, fun key hkey key' hkey' => ?_⟩
    obtain ⟨p, hp, rfl⟩ := List.mem_map.mp hkey
    obtain ⟨other, q, hq, rfl⟩ := mem_keys_of_listed hrest.listed hkey'
    by_cases hne : other = kind
    · subst hne
      rw [Function.update_self] at hq
      exact key_le_of_order_le (hbehind p hp q hq) _
    · rw [Function.update_of_ne hne] at hq
      refine key_le_others h hothers ?_ hne q hq
      rcases List.mem_cons.mp hp with rfl | hp
      · exact hfirst
      · exact (lt_of_joins (hjoin p hp)).le
  oneTexture := by
    refine List.forall_mem_cons.mpr ⟨fun hsprite p hp => ?_, hrest.oneTexture⟩
    rcases List.mem_cons.mp hp with rfl | hp
    · rfl
    · exact textureId_of_joins (hjoin p hp) hsprite
  alone := by
    refine List.forall_mem_cons.mpr ⟨fun hquad p hp hblend => ?_, hrest.alone⟩
    obtain rfl : kind = .quad := hquad
    cases taken with
    | nil => rw [List.mem_singleton.mp hp]
    | cons next taken =>
      have hzero : p.detail.blendMode = 0 := by
        rcases List.mem_cons.mp hp with rfl | hp
        · exact (blendMode_of_joins (hjoin next List.mem_cons_self)).1
        · exact (blendMode_of_joins (hjoin p hp)).2
      exact absurd hzero hblend

theorem lossless_nil {items : PrimitiveKind → List (Primitive U ρ)} (h : ∀ kind, items kind = []) :
    Lossless items [] where
  listed kind := (h kind).symm
  nonempty := by simp
  contiguous := by simp
  sorted := List.Pairwise.nil
  oneTexture := by simp
  alone := by simp

/-- **A traversal with enough steps loses nothing.** -/
theorem collect_lossless (n : Nat) (h : it.Ready) (hlen : it.remaining.length < n) :
    ∃ batches, collect n it = some batches ∧ Lossless (fun kind => (it kind).iter) batches := by
  induction n generalizing it with
  | zero => exact absurd hlen (Nat.not_lt_zero _)
  | succ n ih =>
    obtain ⟨kind, second, tail, hord, hle, hothers⟩ := it.ordersAndKinds_spec
    cases hi : (it kind).iter with
    | nil =>
      have hnone : (it.entry kind).1 = none := by
        rw [entry, hi]
        rfl
      refine ⟨[], ?_, lossless_nil (iter_eq_nil_of_first_none h hnone hle hothers)⟩
      rw [collect, next_of_first_nil hord hi]
      rfl
    | cons first more =>
      obtain ⟨taken, rest, hiter, hnext, hjoin⟩ := next_of_first_cons hord hi (h.aligned kind)
      obtain ⟨batches, hcollect, hlossless⟩ := ih (h.advance hiter) (advance_shorter hiter (List.cons_ne_nil first taken) hlen)
      refine ⟨⟨kind, first.detail.textureId, first :: taken⟩ :: batches, ?_, ?_⟩
      · rw [collect, hnext]
        simp only [Option.bind_eq_bind, Option.bind_some, hcollect, Option.map_some]
      · rw [headKey_entry_cons hi] at hle
        refine Lossless.cons h hiter hle hothers hjoin ?_
        have hleft : (fun other => ((Function.update it kind ⟨(it kind).slice,
            (it kind).start + (first :: taken).length, rest⟩) other).iter)
            = Function.update (fun kind => (it kind).iter) kind rest := by
          funext other
          by_cases hne : other = kind
          · subst hne
            rw [Function.update_self, Function.update_self]
          · rw [Function.update_of_ne hne, Function.update_of_ne hne]
        rw [← hleft]
        exact hlossless

/-- Whatever the orders are, the batches list each vector from its front on. -/
theorem collect_listing (n : Nat) (h : ∀ kind, (it kind).Aligned) (hlen : it.remaining.length < n) :
    ∃ batches, collect n it = some batches ∧ ∀ kind, listing batches kind <+: (it kind).iter := by
  induction n generalizing it with
  | zero => exact absurd hlen (Nat.not_lt_zero _)
  | succ n ih =>
    obtain ⟨kind, second, tail, hord, -, -⟩ := it.ordersAndKinds_spec
    cases hi : (it kind).iter with
    | nil =>
      refine ⟨[], ?_, fun _ => List.nil_prefix⟩
      rw [collect, next_of_first_nil hord hi]
      rfl
    | cons first more =>
      obtain ⟨taken, rest, hiter, hnext, -⟩ := next_of_first_cons hord hi (h kind)
      obtain ⟨batches, hcollect, hbatches⟩ := ih (aligned_advance h hiter) (advance_shorter hiter (List.cons_ne_nil first taken) hlen)
      refine ⟨⟨kind, first.detail.textureId, first :: taken⟩ :: batches, ?_, fun other => ?_⟩
      · rw [collect, hnext]
        simp only [Option.bind_eq_bind, Option.bind_some, hcollect, Option.map_some]
      · have hother := hbatches other
        by_cases hne : other = kind
        · subst hne
          rw [Function.update_self] at hother
          rw [listing_cons_self ⟨other, first.detail.textureId, first :: taken⟩, hiter]
          exact (List.prefix_append_right_inj _).mpr hother
        · rw [Function.update_of_ne hne] at hother
          rwa [listing_cons_of_ne hne]

end BatchIterator

namespace Scene

theorem batches_listing (s : Scene U ρ) :
    ∃ batches, s.batches = some batches ∧ ∀ kind, listing batches kind <+: s.items kind :=
  BatchIterator.collect_listing _ (fun _ => ⟨Nat.zero_le _, rfl⟩) (Nat.lt_succ_self _)

variable [AddCommGroup U] [LinearOrder U]

omit [AddCommGroup U] [LinearOrder U] in
/-- **Batching is a lossless sorted merge.** -/
theorem batches_lossless (s : Scene U ρ) (sorts : Sorts U ρ)
    (hmax : ∀ p ∈ (s.finish sorts).primitives, p.order < u32Max) :
    ∃ batches, (s.finish sorts).batches = some batches ∧ Lossless (s.finish sorts).items batches := by
  have hready : (s.finish sorts).batchIterator.Ready :=
    ⟨fun kind => ⟨Nat.zero_le _, rfl⟩, sorted_finish s sorts, fun kind p hp =>
      hmax p (mem_primitives.mpr ⟨kind, hp⟩)⟩
  exact BatchIterator.collect_lossless _ hready (Nat.lt_succ_self _)

/-- Two quads, of which one blends, with a sprite between them. -/
def blended : Scene Int Nat :=
  emptyScene.clear.insertAll [quadAt 0 0 10 10 1, spriteAt 5 5 10 10 2,
    { quadAt 5 5 10 10 3 with detail := .quad 1 }]

theorem batches_lossless_blended : ∃ batches,
    (blended.finish fun _ => UnstableSort.byInsertion _).batches = some batches ∧
      Lossless (blended.finish fun _ => UnstableSort.byInsertion _).items batches :=
  batches_lossless blended (fun _ => UnstableSort.byInsertion _) (by decide)

end Scene

end FcGpui

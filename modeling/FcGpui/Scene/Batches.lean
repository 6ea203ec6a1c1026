import FcGpui.Scene.Scene

/-!
# Batches

The traversal of a finished scene, `BatchIterator` in
`crates/gpui/src/scene.rs`.  The iterator holds one cursor for each of the seven
vectors.  A step compares the next primitive of each vector by order and kind,
takes a run from the vector that comes first, and ends the run where the
runner-up would come first, where two quads do not blend alike, or where the
texture of a sprite changes.

`next_spec` is what one step does: it takes a non-empty run off one vector, and
nothing of the run comes after anything left in the other vectors.  The whole
traversal is then a rearrangement of the seven vectors in draw order
(`batches_spec`).  Both need every order below `u32::MAX`, which the iterator
uses for a vector that is used up.  That every batch is a non-empty run of the
vector of its kind needs nothing (`batches_runs`).

A range or a head that is not there is a panic of the source, `none` here.
-/

namespace FcGpui

/-- `u32::MAX`. -/
def u32Max : Nat := BoundsTree.u32Size - 1

def PrimitiveKind.all : List PrimitiveKind :=
  [.shadow, .quad, .path, .underline, .monochromeSprite, .polychromeSprite, .surface]

theorem PrimitiveKind.mem_all (kind : PrimitiveKind) : kind ∈ PrimitiveKind.all := by
  cases kind <;> decide

def PrimitiveKind.isSprite : PrimitiveKind → Bool
  | monochromeSprite => true
  | polychromeSprite => true
  | _ => false

namespace PrimitiveDetail

def blendMode : PrimitiveDetail → Nat
  | quad b => b
  | _ => 0

def textureId : PrimitiveDetail → Option AtlasTextureId
  | monochromeSprite tile => some tile.textureId
  | polychromeSprite tile => some tile.textureId
  | _ => none

end PrimitiveDetail

structure PrimitiveBatch (U ρ : Type) where
  kind : PrimitiveKind
  textureId : Option AtlasTextureId
  primitives : List (Primitive U ρ)
deriving DecidableEq, Repr

/-- One vector of the iterator: the vector, where the next batch starts, and
what the peekable iterator has left. -/
structure Cursor (U ρ : Type) where
  slice : List (Primitive U ρ)
  start : Nat
  iter : List (Primitive U ρ)

/-- The iterator stands where the next batch starts. -/
def Cursor.Aligned {U ρ : Type} (c : Cursor U ρ) : Prop :=
  c.start ≤ c.slice.length ∧ c.iter = c.slice.drop c.start

abbrev BatchIterator (U ρ : Type) := PrimitiveKind → Cursor U ρ

namespace BatchIterator

variable {U ρ : Type}

/-- The key the seven heads are compared by; a vector that is used up comes
last. -/
def headKey (entry : Option Nat × PrimitiveKind) : Nat ×ₗ Nat :=
  toLex (entry.1.getD u32Max, entry.2.rank)

/-- The head of one vector. -/
def entry (it : BatchIterator U ρ) (kind : PrimitiveKind) : Option Nat × PrimitiveKind :=
  ((it kind).iter.head?.map Primitive.order, kind)

def ordersAndKinds (it : BatchIterator U ρ) : List (Option Nat × PrimitiveKind) :=
  (PrimitiveKind.all.map it.entry).insertionSort fun a b => headKey a ≤ headKey b

/-- Whether a primitive goes on with the batch that `first` opened. -/
def joins (kind : PrimitiveKind) (first : Primitive U ρ) (maxOrderAndKind : Nat ×ₗ Nat)
    (p : Primitive U ρ) : Bool :=
  match kind with
  | .quad => first.detail.blendMode == 0 && p.detail.blendMode == 0
      && decide (toLex (p.order, kind.rank) < maxOrderAndKind)
  | .monochromeSprite | .polychromeSprite =>
      decide (toLex (p.order, kind.rank) < maxOrderAndKind)
      && p.detail.textureId == first.detail.textureId
  | _ => decide (toLex (p.order, kind.rank) < maxOrderAndKind)

/-- The `next_if` loop: it counts the primitives it takes. -/
def advance (join : Primitive U ρ → Bool) :
    List (Primitive U ρ) → Nat → Nat × List (Primitive U ρ)
  | [], stop => (stop, [])
  | p :: rest, stop => if join p then advance join rest (stop + 1) else (stop, p :: rest)

/-- One step: `some none` at the end of the traversal. -/
def next (it : BatchIterator U ρ) : Option (Option (PrimitiveBatch U ρ × BatchIterator U ρ)) :=
  match it.ordersAndKinds with
  | (some _, kind) :: second :: _ => do
    let cursor := it kind
    let first ← cursor.iter.head?
    let (stop, iter) :=
      advance (joins kind first (headKey second)) cursor.iter.tail (cursor.start + 1)
    let primitives ← slice cursor.slice cursor.start stop
    some (some (⟨kind, first.detail.textureId, primitives⟩,
      Function.update it kind ⟨cursor.slice, stop, iter⟩))
  | _ => some none

/-- The traversal, in at most `n` steps. -/
def collect : Nat → BatchIterator U ρ → Option (List (PrimitiveBatch U ρ))
  | 0, _ => none
  | n + 1, it => do
    match ← it.next with
    | none => some []
    | some (batch, it) => (collect n it).map (batch :: ·)

/-- How many primitives are left. -/
def remaining (it : BatchIterator U ρ) : List (Primitive U ρ) :=
  PrimitiveKind.all.flatMap fun kind => (it kind).iter

end BatchIterator

namespace Scene

variable {U ρ : Type}

def batchIterator (s : Scene U ρ) : BatchIterator U ρ :=
  fun kind => ⟨s.items kind, 0, s.items kind⟩

/-- All primitives, kind by kind. -/
def primitives (s : Scene U ρ) : List (Primitive U ρ) := PrimitiveKind.all.flatMap s.items

/-- The full traversal.  Every step takes a primitive, so one step more than
there are primitives reaches the end. -/
def batches (s : Scene U ρ) : Option (List (PrimitiveBatch U ρ)) :=
  BatchIterator.collect (s.primitives.length + 1) s.batchIterator

end Scene

namespace BatchIterator

variable {U ρ : Type}

/-! ### One step -/

theorem advance_spec (join : Primitive U ρ → Bool) :
    ∀ (l : List (Primitive U ρ)) (stop : Nat), ∃ taken rest, l = taken ++ rest ∧
      advance join l stop = (stop + taken.length, rest) ∧ ∀ p ∈ taken, join p = true := by
  intro l
  induction l with
  | nil => intro stop; exact ⟨[], [], rfl, rfl, by simp⟩
  | cons p l ih =>
    intro stop
    by_cases hp : join p = true
    · obtain ⟨taken, rest, hl, hadv, hall⟩ := ih (stop + 1)
      refine ⟨p :: taken, rest, by rw [hl, List.cons_append], ?_, ?_⟩
      · rw [advance, if_pos hp, hadv, List.length_cons]
        congr 1
        omega
      · intro q hq
        rcases List.mem_cons.mp hq with rfl | hq
        · exact hp
        · exact hall q hq
    · exact ⟨[], p :: l, rfl, by rw [advance, if_neg hp]; rfl, by simp⟩

variable {p : Primitive U ρ} {it : BatchIterator U ρ} {rest : List (Primitive U ρ)}
  {second : Option Nat × PrimitiveKind}

theorem lt_of_joins {kind : PrimitiveKind} {first : Primitive U ρ} {m : Nat ×ₗ Nat}
    (h : joins kind first m p = true) : toLex (p.order, kind.rank) < m := by
  cases kind <;> simp only [joins, Bool.and_eq_true, decide_eq_true_eq] at h <;> tauto

theorem sortedHeads (it : BatchIterator U ρ) :
    it.ordersAndKinds.Pairwise (fun a b => headKey a ≤ headKey b) := by
  have : IsTrans (Option Nat × PrimitiveKind) fun a b => headKey a ≤ headKey b :=
    ⟨fun _ _ _ h g => le_trans h g⟩
  have : Std.Total fun a b : Option Nat × PrimitiveKind => headKey a ≤ headKey b :=
    ⟨fun a b => le_total (headKey a) (headKey b)⟩
  exact List.pairwise_insertionSort _ _

theorem perm_ordersAndKinds (it : BatchIterator U ρ) :
    it.ordersAndKinds.Perm (PrimitiveKind.all.map it.entry) := List.perm_insertionSort _ _

/-- The seven heads come sorted: a first one, a second one, and every other
vector not before the second. -/
theorem ordersAndKinds_spec (it : BatchIterator U ρ) :
    ∃ kind second rest, it.ordersAndKinds = it.entry kind :: second :: rest ∧
      headKey (it.entry kind) ≤ headKey second ∧
      ∀ other, other ≠ kind → headKey second ≤ headKey (it.entry other) := by
  have hp := it.perm_ordersAndKinds
  have hs := it.sortedHeads
  have hlen : it.ordersAndKinds.length = 7 := by rw [hp.length_eq]; rfl
  match ho : it.ordersAndKinds with
  | [] => rw [ho] at hlen; exact absurd hlen (by decide)
  | [_] => rw [ho] at hlen; exact absurd hlen (by simp)
  | first :: second :: rest =>
    rw [ho] at hp hs
    obtain ⟨kind, -, rfl⟩ := List.mem_map.mp (hp.mem_iff.mp List.mem_cons_self)
    rw [List.pairwise_cons, List.pairwise_cons] at hs
    refine ⟨kind, second, rest, rfl, hs.1 second List.mem_cons_self, fun other hne => ?_⟩
    have hmem : it.entry other ∈ it.entry kind :: second :: rest :=
      hp.mem_iff.mpr (List.mem_map_of_mem (PrimitiveKind.mem_all other))
    rcases List.mem_cons.mp hmem with heq | hmem
    · exact absurd (congrArg Prod.snd heq) hne
    · rcases List.mem_cons.mp hmem with heq | hmem
      · rw [heq]
      · exact hs.2.1 _ hmem

/-- What the traversal keeps: cursors aligned, orders ascending, and every order
below the one that stands for a vector that is used up. -/
structure Ready (it : BatchIterator U ρ) : Prop where
  aligned : ∀ kind, (it kind).Aligned
  sorted : ∀ kind, SortedBy Primitive.order (it kind).iter
  below : ∀ kind, ∀ p ∈ (it kind).iter, p.order < u32Max

theorem headKey_entry_cons {kind : PrimitiveKind}
    (h : (it kind).iter = p :: rest) : headKey (it.entry kind) = toLex (p.order, kind.rank) := by
  rw [headKey, entry, h]
  rfl

theorem order_le_of_key_le {a b c d : Nat} (h : toLex (a, b) ≤ toLex (c, d)) : a ≤ c := by
  rcases (Prod.Lex.toLex_le_toLex).mp h with h | h
  · exact h.le
  · exact h.1.le

/-- The traversal ends only when every vector is used up. -/
theorem iter_eq_nil_of_first_none (h : it.Ready) {kind : PrimitiveKind} (hnone : (it.entry kind).1 = none)
    (hle : headKey (it.entry kind) ≤ headKey second)
    (hothers : ∀ other, other ≠ kind → headKey second ≤ headKey (it.entry other)) :
    ∀ other, (it other).iter = [] := by
  have hkind : (it kind).iter = [] := by
    cases hi : (it kind).iter with
    | nil => rfl
    | cons p rest => simp [entry, hi] at hnone
  intro other
  by_cases hne : other = kind
  · rw [hne, hkind]
  · cases hi : (it other).iter with
    | nil => rfl
    | cons p rest =>
      have hlow := hle.trans (hothers other hne)
      rw [headKey_entry_cons hi, headKey, hnone] at hlow
      have := order_le_of_key_le hlow
      have := h.below other p (by rw [hi]; exact List.mem_cons_self)
      simp only [Option.getD_none] at *
      omega

theorem next_of_first_nil {kind : PrimitiveKind} {tail : List (Option Nat × PrimitiveKind)}
    (hord : it.ordersAndKinds = it.entry kind :: second :: tail) (hi : (it kind).iter = []) :
    it.next = some none := by
  have hentry : it.entry kind = (none, kind) := by rw [entry, hi]; rfl
  rw [next, hord, hentry]

/-- The step where the first vector has a head: the run it takes. -/
theorem next_of_first_cons {kind : PrimitiveKind} {tail : List (Option Nat × PrimitiveKind)}
    {first : Primitive U ρ} {more : List (Primitive U ρ)}
    (hord : it.ordersAndKinds = it.entry kind :: second :: tail)
    (hi : (it kind).iter = first :: more) (ha : (it kind).Aligned) :
    ∃ taken rest, (it kind).iter = (first :: taken) ++ rest ∧
      it.next = some (some (⟨kind, first.detail.textureId, first :: taken⟩, Function.update it kind
        ⟨(it kind).slice, (it kind).start + (first :: taken).length, rest⟩)) ∧
      ∀ p ∈ taken, joins kind first (headKey second) p = true := by
  obtain ⟨taken, rest, hmore, hadv, hjoin⟩ :=
    advance_spec (joins kind first (headKey second)) more ((it kind).start + 1)
  have hiter : (it kind).iter = (first :: taken) ++ rest := by rw [hi, hmore, List.cons_append]
  obtain ⟨hstart, hdrop⟩ := ha
  have hslice : slice (it kind).slice (it kind).start ((it kind).start + 1 + taken.length)
      = some (first :: taken) := by
    have hlen : (first :: taken).length + rest.length
        = (it kind).slice.length - (it kind).start := by
      rw [← List.length_drop, ← hdrop, hiter, List.length_append]
    rw [List.length_cons] at hlen
    rw [slice_eq_some (by omega) (by omega), ← hdrop, hiter,
      show (it kind).start + 1 + taken.length - (it kind).start = (first :: taken).length by
        rw [List.length_cons]; omega, List.take_left]
  refine ⟨taken, rest, hiter, ?_, hjoin⟩
  have hentry : it.entry kind = (some first.order, kind) := by rw [entry, hi]; rfl
  rw [next, hord, hentry]
  simp only [hi, List.head?_cons, List.tail_cons, Option.bind_eq_bind, Option.bind_some, hadv,
    hslice, List.length_cons]
  rw [Nat.add_right_comm, Nat.add_assoc]

/-- **One step of the traversal.**  It ends with every vector used up, or takes
a non-empty run off one vector, and nothing of the run is drawn after anything
left in another vector. -/
theorem next_spec (h : it.Ready) :
    (it.next = some none ∧ ∀ kind, (it kind).iter = []) ∨
    ∃ kind textureId taken rest, (it kind).iter = taken ++ rest ∧ taken ≠ [] ∧
      it.next = some (some (⟨kind, textureId, taken⟩, Function.update it kind
        ⟨(it kind).slice, (it kind).start + taken.length, rest⟩)) ∧
      ∀ p ∈ taken, ∀ other, other ≠ kind → ∀ q ∈ (it other).iter, p.order ≤ q.order := by
  obtain ⟨kind, second, tail, hord, hle, hothers⟩ := it.ordersAndKinds_spec
  cases hi : (it kind).iter with
  | nil =>
    have hnone : (it.entry kind).1 = none := by rw [entry, hi]; rfl
    exact Or.inl ⟨next_of_first_nil hord hi, iter_eq_nil_of_first_none h hnone hle hothers⟩
  | cons first more =>
    obtain ⟨taken, rest, hiter, hnext, hjoin⟩ := next_of_first_cons hord hi (h.aligned kind)
    refine Or.inr ⟨kind, first.detail.textureId, first :: taken, rest, hi ▸ hiter,
      List.cons_ne_nil _ _, hnext, ?_⟩
    intro p hp other hne q hq
    have hkey : toLex (p.order, kind.rank) ≤ headKey second := by
      rcases List.mem_cons.mp hp with rfl | hp
      · rw [headKey_entry_cons hi] at hle
        exact hle
      · exact (lt_of_joins (hjoin p hp)).le
    cases ho : (it other).iter with
    | nil => rw [ho] at hq; exact absurd hq (List.not_mem_nil)
    | cons head more' =>
      have hhead : p.order ≤ head.order := by
        have := hkey.trans (hothers other hne)
        rw [headKey_entry_cons ho] at this
        exact order_le_of_key_le this
      have hs := h.sorted other
      rw [ho] at hs hq
      rcases List.mem_cons.mp hq with rfl | hq
      · exact hhead
      · exact hhead.trans ((List.pairwise_cons.mp hs).1 q hq)

theorem aligned_advance (h : ∀ kind, (it kind).Aligned) {kind : PrimitiveKind} {taken : List (Primitive U ρ)}
    (hi : (it kind).iter = taken ++ rest) (other : PrimitiveKind) :
    (Function.update it kind ⟨(it kind).slice, (it kind).start + taken.length, rest⟩
      other).Aligned := by
  obtain ⟨hstart, hdrop⟩ := h kind
  by_cases hne : other = kind
  · subst hne
    rw [Function.update_self]
    have hlen : taken.length + rest.length = (it other).slice.length - (it other).start := by
      rw [← List.length_drop, ← hdrop, hi, List.length_append]
    refine ⟨show (it other).start + taken.length ≤ (it other).slice.length by omega,
      show rest = _ from ?_⟩
    rw [← List.drop_drop, ← hdrop, hi, List.drop_left]
  · rw [Function.update_of_ne hne]
    exact h other

theorem Ready.advance (h : it.Ready) {kind : PrimitiveKind}
    {taken : List (Primitive U ρ)} (hi : (it kind).iter = taken ++ rest) :
    Ready (Function.update it kind
      ⟨(it kind).slice, (it kind).start + taken.length, rest⟩) := by
  refine ⟨aligned_advance h.aligned hi, fun other => ?_, fun other => ?_⟩
  · by_cases hne : other = kind
    · subst hne
      rw [Function.update_self]
      have := h.sorted other
      rw [hi] at this
      exact (List.pairwise_append.mp this).2.1
    · rw [Function.update_of_ne hne]; exact h.sorted other
  · by_cases hne : other = kind
    · subst hne
      rw [Function.update_self]
      intro p hp
      refine h.below other p ?_
      rw [hi]
      exact List.mem_append_right _ hp
    · rw [Function.update_of_ne hne]; exact h.below other

/-! ### The whole traversal -/

/-- A run taken off one vector leaves the other primitives. -/
theorem remaining_perm {kind : PrimitiveKind}
    {taken : List (Primitive U ρ)} (hi : (it kind).iter = taken ++ rest)
    (slice : List (Primitive U ρ)) (start : Nat) :
    it.remaining.Perm (taken ++ remaining (Function.update it kind ⟨slice, start, rest⟩)) := by
  have hnd : PrimitiveKind.all.Nodup := by decide
  obtain ⟨pre, post, hall⟩ := List.append_of_mem (PrimitiveKind.mem_all kind)
  rw [hall, List.nodup_append, List.nodup_cons] at hnd
  obtain ⟨-, ⟨hpost, -⟩, hpre⟩ := hnd
  have hsame : ∀ l : List PrimitiveKind, kind ∉ l →
      l.flatMap (fun k => (Function.update it kind ⟨slice, start, rest⟩ k).iter)
        = l.flatMap fun k => (it k).iter := by
    intro l hl
    refine List.flatMap_congr fun k hk => ?_
    have hk : k ≠ kind := by intro h; subst h; exact hl hk
    rw [Function.update_of_ne hk]
  have hpre' : kind ∉ pre := fun h => hpre kind h kind List.mem_cons_self rfl
  rw [remaining, remaining, hall, List.flatMap_append, List.flatMap_append, List.flatMap_cons,
    List.flatMap_cons, Function.update_self, hi, hsame pre hpre', hsame post hpost]
  rw [List.append_assoc taken rest]
  exact List.perm_append_comm_assoc _ _ _

theorem mem_remaining : p ∈ it.remaining ↔ ∃ kind, p ∈ (it kind).iter := by
  rw [remaining, List.mem_flatMap]
  exact ⟨fun ⟨kind, _, h⟩ => ⟨kind, h⟩, fun ⟨kind, h⟩ => ⟨kind, PrimitiveKind.mem_all kind, h⟩⟩

theorem advance_shorter {kind : PrimitiveKind} {taken : List (Primitive U ρ)} {n : Nat}
    (hi : (it kind).iter = taken ++ rest) (hne : taken ≠ []) (hlen : it.remaining.length < n + 1) :
    (remaining (Function.update it kind
      ⟨(it kind).slice, (it kind).start + taken.length, rest⟩)).length < n := by
  have hparts := (remaining_perm hi (it kind).slice ((it kind).start + taken.length)).length_eq
  have hpos := List.length_pos_iff.mpr hne
  rw [List.length_append] at hparts
  omega

/-- **A traversal with enough steps ends, and lists what was left in draw
order.** -/
theorem collect_spec : ∀ (n : Nat) {it : BatchIterator U ρ}, it.Ready → it.remaining.length < n →
    ∃ batches, collect n it = some batches ∧
      (batches.flatMap PrimitiveBatch.primitives).Perm it.remaining ∧
      SortedBy Primitive.order (batches.flatMap PrimitiveBatch.primitives) := by
  intro n
  induction n with
  | zero => intro it _ hlen; exact absurd hlen (Nat.not_lt_zero _)
  | succ n ih =>
    intro it h hlen
    rcases next_spec h with ⟨hnext, hnil⟩ | ⟨kind, textureId, taken, rest, hi, hne, hnext, hle⟩
    · have hrem : it.remaining = [] := by
        refine List.eq_nil_iff_forall_not_mem.mpr fun p hp => ?_
        obtain ⟨kind, hp⟩ := mem_remaining.mp hp
        rw [hnil kind] at hp
        exact List.not_mem_nil hp
      refine ⟨[], by rw [collect, hnext]; rfl, ?_, List.Pairwise.nil⟩
      rw [hrem, List.flatMap_nil]
    · have hperm := remaining_perm hi (it kind).slice ((it kind).start + taken.length)
      obtain ⟨batches, hcol, hp, hs⟩ := ih (h.advance hi) (advance_shorter hi hne hlen)
      refine ⟨⟨kind, textureId, taken⟩ :: batches, ?_, ?_, ?_⟩
      · rw [collect, hnext]
        simp only [Option.bind_eq_bind, Option.bind_some, hcol, Option.map_some]
      · rw [List.flatMap_cons]
        exact (hp.append_left taken).trans hperm.symm
      · have hsorted := h.sorted kind
        rw [hi] at hsorted
        obtain ⟨htaken, -, hrest⟩ := List.pairwise_append.mp hsorted
        rw [List.flatMap_cons, SortedBy, List.pairwise_append]
        refine ⟨htaken, hs, fun p hp' q hq => ?_⟩
        obtain ⟨other, hq⟩ := mem_remaining.mp (hp.mem_iff.mp hq)
        by_cases hother : other = kind
        · subst hother
          rw [Function.update_self] at hq
          exact hrest p hp' q hq
        · rw [Function.update_of_ne hother] at hq
          exact hle p hp' other hother q hq

theorem textureId_of_joins {kind : PrimitiveKind} {first : Primitive U ρ} {m : Nat ×ₗ Nat}
    (h : joins kind first m p = true) (hk : kind.isSprite = true) :
    p.detail.textureId = first.detail.textureId := by
  cases kind <;> first
    | exact absurd hk (by decide)
    | exact beq_iff_eq.mp (Bool.and_eq_true_iff.mp h).2

/-- **Whatever the orders are, a traversal with enough steps ends, and every
batch is a non-empty run of the vector of its kind.**  A batch of sprites has one
texture. -/
theorem collect_runs : ∀ (n : Nat) {it : BatchIterator U ρ}, (∀ kind, (it kind).Aligned) →
    it.remaining.length < n →
    ∃ batches, collect n it = some batches ∧
      ∀ batch ∈ batches, batch.primitives ≠ [] ∧
        batch.primitives.Sublist (it batch.kind).iter ∧
        (batch.kind.isSprite = true →
          ∀ p ∈ batch.primitives, p.detail.textureId = batch.textureId) := by
  intro n
  induction n with
  | zero => intro it _ hlen; exact absurd hlen (Nat.not_lt_zero _)
  | succ n ih =>
    intro it h hlen
    obtain ⟨kind, second, tail, hord, -, -⟩ := it.ordersAndKinds_spec
    cases hi : (it kind).iter with
    | nil =>
      refine ⟨[], ?_, by simp⟩
      rw [collect, next_of_first_nil hord hi]
      rfl
    | cons first more =>
      obtain ⟨taken, rest, hiter, hnext, hjoin⟩ := next_of_first_cons hord hi (h kind)
      obtain ⟨batches, hcol, hruns⟩ := ih (aligned_advance h hiter)
        (advance_shorter hiter (List.cons_ne_nil first taken) hlen)
      refine ⟨⟨kind, first.detail.textureId, first :: taken⟩ :: batches, ?_, ?_⟩
      · rw [collect, hnext]
        simp only [Option.bind_eq_bind, Option.bind_some, hcol, Option.map_some]
      · intro batch hb
        rcases List.mem_cons.mp hb with rfl | hb
        · refine ⟨List.cons_ne_nil _ _, ?_, fun hk p hp => ?_⟩
          · rw [hiter]
            exact List.sublist_append_left _ _
          · rcases List.mem_cons.mp hp with rfl | hp
            · rfl
            · exact textureId_of_joins (hjoin p hp) hk
        · obtain ⟨hne, hsub, htexture⟩ := hruns batch hb
          refine ⟨hne, hsub.trans ?_, htexture⟩
          by_cases hk : batch.kind = kind
          · rw [hk, Function.update_self, hiter]
            exact List.sublist_append_right _ _
          · rw [Function.update_of_ne hk]

end BatchIterator

namespace Scene

variable {U ρ : Type}

/-- **Every scene has batches**, and each is a non-empty run of one vector, with
one texture if they are sprites. -/
theorem batches_runs (s : Scene U ρ) :
    ∃ batches, s.batches = some batches ∧
      ∀ batch ∈ batches, batch.primitives ≠ [] ∧
        batch.primitives.Sublist (s.items batch.kind) ∧
        (batch.kind.isSprite = true →
          ∀ p ∈ batch.primitives, p.detail.textureId = batch.textureId) :=
  BatchIterator.collect_runs (s.primitives.length + 1) (fun _ => ⟨Nat.zero_le _, rfl⟩)
    (Nat.lt_succ_self _)

theorem mem_primitives {s : Scene U ρ} {p : Primitive U ρ} :
    p ∈ s.primitives ↔ ∃ kind, p ∈ s.items kind := by
  rw [primitives, List.mem_flatMap]
  exact ⟨fun ⟨kind, _, h⟩ => ⟨kind, h⟩, fun ⟨kind, h⟩ => ⟨kind, PrimitiveKind.mem_all kind, h⟩⟩

/-- **The batches of a sorted scene are its primitives in draw order.** -/
theorem batches_spec {s : Scene U ρ} (hs : ∀ kind, SortedBy Primitive.order (s.items kind))
    (hmax : ∀ p ∈ s.primitives, p.order < u32Max) :
    ∃ batches, s.batches = some batches ∧
      (batches.flatMap PrimitiveBatch.primitives).Perm s.primitives ∧
      SortedBy Primitive.order (batches.flatMap PrimitiveBatch.primitives) := by
  have hready : s.batchIterator.Ready :=
    ⟨fun kind => ⟨Nat.zero_le _, rfl⟩, hs, fun kind p hp => hmax p (mem_primitives.mpr ⟨kind, hp⟩)⟩
  exact BatchIterator.collect_spec _ hready (Nat.lt_succ_self _)

end Scene

end FcGpui

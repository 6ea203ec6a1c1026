import Mathlib

/-!
# Allocators of regions

An allocator hands out regions, each with an id, and takes them back by their ids.
Ids need not be unique: an allocator may give one id to several regions, and make
room again only when all of them are back.

`Serves` is what a client may do with an allocator: give back what it holds.
`Apart` is what the client relies on: a region that is handed out overlaps no
region the client holds.  `Bounded` says that regions are within the size the allocator
was made with.  What the client holds is then pairwise apart and within that size
(`Serves.pairwise_apart`, `Serves.inside`).
-/

namespace FcGpui

/-- Of a request `σ`, the answer is an id `ι` and a place `π`. -/
structure Allocator (α σ ι π : Type) where
  new : σ → α
  allocate : α → σ → Option (ι × π) × α
  deallocate : α → ι → α

namespace Allocator

variable {α σ ι π ρ : Type}

/-- The allocator has come to the state and the client holds the regions of the
list.  A refused request may change the state too. -/
inductive Serves (alloc : Allocator α σ ι π) (region : σ → π → ρ) : α → List (ι × ρ) → Prop
  | new (size : σ) : Serves alloc region (alloc.new size) []
  | allocate {a : α} {held : List (ι × ρ)} {size : σ} {id : ι} {place : π} {a' : α} :
      Serves alloc region a held → alloc.allocate a size = (some (id, place), a') →
      Serves alloc region a' ((id, region size place) :: held)
  | refuse {a : α} {held : List (ι × ρ)} {size : σ} {a' : α} :
      Serves alloc region a held → alloc.allocate a size = (none, a') → Serves alloc region a' held
  | deallocate {a : α} {held held' : List (ι × ρ)} {id : ι} {r : ρ} :
      Serves alloc region a held → held.Perm ((id, r) :: held') →
      Serves alloc region (alloc.deallocate a id) held'

/-- **What is handed out is apart from what is held.** -/
def Apart (alloc : Allocator α σ ι π) (region : σ → π → ρ) (apart : ρ → ρ → Prop) : Prop :=
  ∀ {a : α} {held : List (ι × ρ)} {size : σ} {id : ι} {place : π} {a' : α},
    alloc.Serves region a held → alloc.allocate a size = (some (id, place), a') →
    ∀ r ∈ held, apart r.2 (region size place)

variable {a : α} {region : σ → π → ρ}

/-- The regions of what is held are pairwise apart. -/
theorem Serves.pairwise_apart {alloc : Allocator α σ ι π} {apart : ρ → ρ → Prop}
    (hapart : alloc.Apart region apart) (hsymm : ∀ r r', apart r r' → apart r' r)
    {held : List (ι × ρ)} (h : alloc.Serves region a held) : held.Pairwise fun r r' => apart r.2 r'.2 := by
  induction h with
  | new size => exact List.Pairwise.nil
  | allocate hs ha ih => exact List.pairwise_cons.mpr ⟨fun r hr => hsymm _ _ (hapart hs ha r hr), ih⟩
  | refuse hs ha ih => exact ih
  | deallocate hs hperm ih =>
    have hheld := hperm.pairwise_iff (fun {r r'} hr => hsymm r.2 r'.2 hr) |>.mp ih
    exact (List.pairwise_cons.mp hheld).2

/-- **An allocator keeps its size**, and regions are within it. -/
structure Bounded (alloc : Allocator α σ ι π) (region : σ → π → ρ) (capacity : α → σ)
    (inside : ρ → σ → Prop) : Prop where
  new : ∀ size, capacity (alloc.new size) = size
  allocate : ∀ a size, capacity (alloc.allocate a size).2 = capacity a
  deallocate : ∀ a id, capacity (alloc.deallocate a id) = capacity a
  inside : ∀ {a : α} {held : List (ι × ρ)} {size : σ} {id : ι} {place : π} {a' : α},
    alloc.Serves region a held → alloc.allocate a size = (some (id, place), a') →
    inside (region size place) (capacity a)

theorem Bounded.capacity_of_allocate {alloc : Allocator α σ ι π} {capacity : α → σ}
    {inside : ρ → σ → Prop} (h : alloc.Bounded region capacity inside) {a' : α} {size : σ}
    {answer : Option (ι × π)} (ha : alloc.allocate a size = (answer, a')) : capacity a' = capacity a := by
  rw [← h.allocate a size, ha]

theorem Serves.inside {alloc : Allocator α σ ι π} {capacity : α → σ}
    {inside : ρ → σ → Prop} (hbounded : alloc.Bounded region capacity inside)
    {held : List (ι × ρ)} (h : alloc.Serves region a held) : ∀ r ∈ held, inside r.2 (capacity a) := by
  induction h with
  | new size => exact fun r hr => absurd hr List.not_mem_nil
  | allocate hs ha ih =>
    intro r hr
    rw [hbounded.capacity_of_allocate ha]
    rcases List.mem_cons.mp hr with rfl | hr
    · exact hbounded.inside hs ha
    · exact ih r hr
  | refuse hs ha ih =>
    intro r hr
    rw [hbounded.capacity_of_allocate ha]
    exact ih r hr
  | deallocate hs hperm ih =>
    intro r hr
    rw [hbounded.deallocate]
    exact ih r (hperm.mem_iff.mpr (List.mem_cons_of_mem _ hr))

end Allocator

/-!
### Bump allocation

A buffer that is filled from the front.  Every allocation starts at the next
multiple of an alignment and takes at least a least size; the offset then stands
at its end.  `reserve` moves the offset only, `Packed` is what the allocations
made so far look like.

* `reserve_mono` and `le_reserve`: an offset that starts lower, or skips an
  allocation, stays lower.  So a dry run that reserves more than what is really
  allocated bounds it.
* `Packed.push`: one more allocation keeps the allocations aligned, disjoint and
  below the offset.
-/

/-- The least multiple of `a` from `n` on. -/
def nextMultipleOf (n a : Nat) : Nat := if n % a = 0 then n else n + (a - n % a)

theorem le_nextMultipleOf (n a : Nat) : n ≤ nextMultipleOf n a := by
  rw [nextMultipleOf]
  split
  · exact le_rfl
  · exact Nat.le_add_right _ _

theorem dvd_nextMultipleOf {a : Nat} (ha : 0 < a) (n : Nat) : a ∣ nextMultipleOf n a := by
  rw [nextMultipleOf]
  split
  · rename_i h
    exact Nat.dvd_of_mod_eq_zero h
  · have hlt := Nat.mod_lt n ha
    have hsplit := Nat.div_add_mod n a
    refine ⟨n / a + 1, ?_⟩
    rw [Nat.mul_add, Nat.mul_one]
    omega

/-- It is the least one. -/
theorem nextMultipleOf_le {n m a : Nat} (h : n ≤ m) (hm : a ∣ m) : nextMultipleOf n a ≤ m := by
  rw [nextMultipleOf]
  split
  · exact h
  · rename_i hn
    by_contra hlt
    obtain ⟨k, rfl⟩ := hm
    have hpos : 0 < a := by
      rcases Nat.eq_zero_or_pos a with rfl | hpos
      · simp only [Nat.mod_zero] at hn
        omega
      · exact hpos
    have hmod := Nat.mod_lt n hpos
    have hsplit := Nat.div_add_mod n a
    have hlow : n / a < k := by
      by_contra hge
      have := Nat.mul_le_mul_left a (Nat.le_of_not_lt hge)
      omega
    have := Nat.mul_le_mul_left a hlow
    rw [Nat.mul_succ] at this
    omega

theorem nextMultipleOf_mono {n m a : Nat} (ha : 0 < a) (h : n ≤ m) :
    nextMultipleOf n a ≤ nextMultipleOf m a :=
  nextMultipleOf_le (h.trans (le_nextMultipleOf m a)) (dvd_nextMultipleOf ha m)

/-- Where the offset stands after an allocation of `len` bytes. -/
def reserve (align least offset len : Nat) : Nat := nextMultipleOf offset align + max len least

theorem le_reserve (align least offset len : Nat) : offset ≤ reserve align least offset len :=
  (le_nextMultipleOf offset align).trans (Nat.le_add_right _ _)

theorem reserve_mono {align least : Nat} (ha : 0 < align) {offset offset' : Nat}
    (h : offset ≤ offset') (len : Nat) :
    reserve align least offset len ≤ reserve align least offset' len :=
  Nat.add_le_add_right (nextMultipleOf_mono ha h) _

/-- The bytes from `start` on. -/
structure Span where
  start : Nat
  size : Nat
deriving DecidableEq, Repr

def Span.stop (s : Span) : Nat := s.start + s.size

/-- No byte is in both. -/
def Span.Disjoint (s t : Span) : Prop := s.stop ≤ t.start ∨ t.stop ≤ s.start

/-- The allocations made so far, first one first, with the offset at `offset`. -/
structure Packed (align offset : Nat) (spans : List Span) : Prop where
  aligned : ∀ s ∈ spans, align ∣ s.start
  disjoint : spans.Pairwise Span.Disjoint
  below : ∀ s ∈ spans, s.stop ≤ offset

theorem Packed.nil (align : Nat) : Packed align 0 [] := by
  constructor <;> simp

/-- **One more allocation.** -/
theorem Packed.push {align least offset : Nat} {spans : List Span} (ha : 0 < align)
    (h : Packed align offset spans) (len : Nat) :
    Packed align (reserve align least offset len)
      (spans ++ [⟨nextMultipleOf offset align, max len least⟩]) := by
  refine ⟨fun s hs => ?_, ?_, fun s hs => ?_⟩
  · rcases List.mem_append.mp hs with hs | hs
    · exact h.aligned s hs
    · rw [List.mem_singleton.mp hs]
      exact dvd_nextMultipleOf ha offset
  · refine List.pairwise_append.mpr ⟨h.disjoint, List.pairwise_singleton _ _, ?_⟩
    intro s hs t ht
    rw [List.mem_singleton.mp ht]
    exact Or.inl ((h.below s hs).trans (le_nextMultipleOf offset align))
  · rcases List.mem_append.mp hs with hs | hs
    · exact (h.below s hs).trans (le_reserve _ _ _ _)
    · rw [List.mem_singleton.mp hs]
      exact le_rfl

end FcGpui

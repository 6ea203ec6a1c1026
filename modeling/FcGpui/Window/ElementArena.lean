import FcGpui.Lib.Allocator
import FcGpui.Lib.Machine

/-!
# The element arena

`crates/gpui/src/arena.rs`.  Elements of a frame are allocated one behind the other in chunks of one
size; where a chunk is full the next one is used, a new one if there is none.  `clear` drops all
values and begins again in the first chunk, but not while a draw is in progress (`begin_scope`,
`end_scope`).  An `ArenaBox` shares a flag with the arena, which a clear takes down and replaces.

Addresses are numbers.  The address of a new chunk comes from the system allocator: it is part of
the action that may need one.  The flags are a list, and a flag is its index there; a value is the
number of its allocation.  `boxes` and `dropped` of `ArenaRun` are not in the source: what was handed
out so far, and which values were dropped.

`ElementArena.Sound` is what allocation keeps of the chunks, and `Bumped` what it answers: an address
that is aligned and apart from all that the arena holds (`Sound.place`).
-/

namespace FcGpui

/-- The alignment is a power of two. -/
structure AllocLayout where
  size : Nat
  alignLog : Nat
deriving DecidableEq, Repr

def AllocLayout.align (layout : AllocLayout) : Nat := 2 ^ layout.alignLog

theorem AllocLayout.align_pos (layout : AllocLayout) : 0 < layout.align := Nat.two_pow_pos _

/-- The largest address. -/
def usizeMax : Nat := 2 ^ 64 - 1

structure ArenaChunk where
  start : Nat
  stop : Nat
  offset : Nat
deriving DecidableEq, Repr

namespace ArenaChunk

def new (chunkSize start : Nat) : ArenaChunk := ⟨start, start + chunkSize, start⟩

def allocate (chunk : ArenaChunk) (layout : AllocLayout) : Option Nat × ArenaChunk :=
  let aligned := nextMultipleOf chunk.offset layout.align
  let next := aligned + layout.size
  if aligned ≤ usizeMax ∧ next ≤ usizeMax ∧ next ≤ chunk.stop then
    (if aligned = 0 then none else some aligned, { chunk with offset := next })
  else (none, chunk)

def reset (chunk : ArenaChunk) : ArenaChunk := { chunk with offset := chunk.start }

/-- The bytes of a chunk. -/
def span (chunk : ArenaChunk) : Span := ⟨chunk.start, chunk.stop - chunk.start⟩

end ArenaChunk

structure ElementArena where
  chunks : List ArenaChunk
  elements : List Nat
  valid : Nat
  currentChunkIndex : Nat
  chunkSize : Nat
  scopeDepth : Nat
deriving DecidableEq, Repr

structure ArenaBox where
  ptr : Nat
  layout : AllocLayout
  valid : Nat
deriving DecidableEq, Repr

/-- The bytes of a box. -/
def ArenaBox.span (box : ArenaBox) : Span := ⟨box.ptr, box.layout.size⟩

namespace ElementArena

def new (chunkSize start : Nat) : ElementArena :=
  ⟨[.new chunkSize start], [], 0, 0, chunkSize, 0⟩

/-- Allocation in the current chunk; `none` where the index is out of bounds. -/
def bump (arena : ElementArena) (layout : AllocLayout) : Option (Option Nat × ElementArena) :=
  (arena.chunks[arena.currentChunkIndex]?).map fun chunk =>
    ((chunk.allocate layout).1, { arena with
      chunks := arena.chunks.set arena.currentChunkIndex (chunk.allocate layout).2 })

/-- The next chunk becomes the current one. -/
def advance (arena : ElementArena) (start : Nat) : ElementArena :=
  { arena with
    chunks :=
      if arena.chunks.length ≤ arena.currentChunkIndex + 1 then
        arena.chunks ++ [.new arena.chunkSize start]
      else arena.chunks
    currentChunkIndex := arena.currentChunkIndex + 1 }

/-- The address for a new value; `none` where a whole chunk is too small. -/
def place (arena : ElementArena) (layout : AllocLayout) (start : Nat) :
    Option (Nat × ElementArena) :=
  (arena.bump layout).bind fun bumped =>
    match bumped.1 with
    | some ptr => some (ptr, bumped.2)
    | none =>
      ((bumped.2.advance start).bump layout).bind fun bumped =>
        bumped.1.map fun ptr => (ptr, bumped.2)

end ElementArena

structure ArenaRun where
  arena : ElementArena
  /-- Whether the arena was dropped. -/
  closed : Bool
  flags : List Bool
  boxes : List ArenaBox
  dropped : List Nat
deriving DecidableEq, Repr

inductive ArenaAct
  | beginScope
  | endScope
  | clear
  /-- A new chunk, if there is one, is at `start`. -/
  | alloc (layout : AllocLayout) (start : Nat)
  | drop
deriving DecidableEq, Repr

namespace ArenaRun

def new (chunkSize start : Nat) : ArenaRun := ⟨.new chunkSize start, false, [true], [], []⟩

def forceClear (w : ArenaRun) : ArenaRun :=
  { w with
    flags := w.flags.set w.arena.valid false ++ [true]
    dropped := w.dropped ++ w.arena.elements
    arena := { w.arena with
      valid := w.flags.length
      elements := []
      chunks := w.arena.chunks.mapIdx fun ix chunk =>
        if ix ≤ w.arena.currentChunkIndex then chunk.reset else chunk
      currentChunkIndex := 0 } }

def clear (w : ArenaRun) : ArenaRun := if w.arena.scopeDepth = 0 then w.forceClear else w

def alloc (w : ArenaRun) (layout : AllocLayout) (start : Nat) : Option ArenaRun :=
  (w.arena.place layout start).map fun placed =>
    { w with
      arena := { placed.2 with elements := placed.2.elements ++ [w.boxes.length] }
      boxes := w.boxes ++ [⟨placed.1, layout, placed.2.valid⟩] }

/-- `none` where the source panics, and when there is no arena any more. -/
def step (w : ArenaRun) (act : ArenaAct) : Option ArenaRun :=
  if w.closed then none
  else
    match act with
    | .beginScope =>
      if w.arena.scopeDepth + 1 ≤ usizeMax then
        some { w with arena := { w.arena with scopeDepth := w.arena.scopeDepth + 1 } }
      else none
    | .endScope =>
      if 1 ≤ w.arena.scopeDepth then
        some { w with arena := { w.arena with scopeDepth := w.arena.scopeDepth - 1 } }
      else none
    | .clear => some w.clear
    | .alloc layout start => w.alloc layout start
    | .drop => some { w.forceClear with closed := true }

/-- Whether `validate` lets a box be dereferenced. -/
def valid (w : ArenaRun) (box : ArenaBox) : Bool := w.flags[box.valid]?.getD false

end ArenaRun

/-! ### Chunks -/

/-- The chunks are disjoint pieces of memory that are filled up to their offsets; those behind the
current one are empty. -/
structure ElementArena.Sound (arena : ElementArena) : Prop where
  current : arena.currentChunkIndex < arena.chunks.length
  bounds : ∀ chunk ∈ arena.chunks, 0 < chunk.start ∧ chunk.start ≤ chunk.offset ∧
    chunk.offset ≤ chunk.stop ∧ chunk.stop ≤ usizeMax
  disjoint : (arena.chunks.map ArenaChunk.span).Pairwise Span.Disjoint
  ahead : ∀ ix chunk, arena.chunks[ix]? = some chunk → arena.currentChunkIndex < ix →
    chunk.offset = chunk.start

/-- The bytes are in the filled part of a chunk that is in use. -/
def ElementArena.Holds (arena : ElementArena) (span : Span) : Prop :=
  ∃ ix chunk, arena.chunks[ix]? = some chunk ∧ ix ≤ arena.currentChunkIndex ∧
    chunk.start ≤ span.start ∧ span.stop ≤ chunk.offset

/-- The system allocator's part: memory of its own for a chunk. -/
def ElementArena.FreshChunk (arena : ElementArena) (start : Nat) : Prop :=
  0 < start ∧ start + arena.chunkSize ≤ usizeMax ∧
    ∀ chunk ∈ arena.chunks, chunk.span.Disjoint (ArenaChunk.new arena.chunkSize start).span

theorem ArenaChunk.allocate_cases {chunk : ArenaChunk} (hstart : 0 < chunk.offset)
    (layout : AllocLayout) :
    chunk.allocate layout = (none, chunk) ∨
    ∃ ptr, chunk.allocate layout = (some ptr, { chunk with offset := ptr + layout.size }) ∧
      chunk.offset ≤ ptr ∧ layout.align ∣ ptr ∧ ptr + layout.size ≤ chunk.stop := by
  have hle := le_nextMultipleOf chunk.offset layout.align
  rw [allocate]
  split
  · rename_i hfits
    right
    refine ⟨_, ?_, hle, dvd_nextMultipleOf layout.align_pos _, hfits.2.2⟩
    rw [if_neg (by omega)]
  · exact Or.inl rfl

namespace ElementArena

variable {arena arena' : ElementArena}

/-- What an allocation in the current chunk does. -/
structure Bumped (arena arena' : ElementArena) (layout : AllocLayout) (ptr : Nat) : Prop where
  sound : arena'.Sound
  align : layout.align ∣ ptr
  holds : arena'.Holds ⟨ptr, layout.size⟩
  kept : ∀ span, arena.Holds span → arena'.Holds span ∧ span.Disjoint ⟨ptr, layout.size⟩
  rest : arena' = { arena with chunks := arena'.chunks, currentChunkIndex := arena'.currentChunkIndex }

theorem Sound.disjoint_of_ne (h : arena.Sound) {ix ix' : Nat} {chunk chunk' : ArenaChunk}
    (hix : arena.chunks[ix]? = some chunk) (hix' : arena.chunks[ix']? = some chunk') (hne : ix ≠ ix') :
    chunk.stop ≤ chunk'.start ∨ chunk'.stop ≤ chunk.start := by
  have hspan := List.pairwise_iff_getElem.mp h.disjoint
  obtain ⟨hlt, rfl⟩ := List.getElem?_eq_some_iff.mp hix
  obtain ⟨hlt', rfl⟩ := List.getElem?_eq_some_iff.mp hix'
  have hb := h.bounds _ (List.getElem_mem hlt)
  have hb' := h.bounds _ (List.getElem_mem hlt')
  rcases Nat.lt_or_gt_of_ne hne with hlt'' | hlt''
  · have := hspan ix ix' (by simpa using hlt) (by simpa using hlt') hlt''
    simp only [List.getElem_map, Span.Disjoint, Span.stop, ArenaChunk.span] at this
    omega
  · have := hspan ix' ix (by simpa using hlt') (by simpa using hlt) hlt''
    simp only [List.getElem_map, Span.Disjoint, Span.stop, ArenaChunk.span] at this
    omega

theorem Sound.setOffset (h : arena.Sound) {chunk : ArenaChunk} {offset : Nat}
    (hchunk : arena.chunks[arena.currentChunkIndex]? = some chunk) (hle : chunk.offset ≤ offset)
    (hstop : offset ≤ chunk.stop) :
    Sound { arena with
      chunks := arena.chunks.set arena.currentChunkIndex { chunk with offset := offset } } := by
  have hmem := List.mem_of_getElem? hchunk
  obtain ⟨hpos, hstart, -, hmax⟩ := h.bounds chunk hmem
  refine ⟨?_, fun chunk' hchunk' => ?_, ?_, fun ix chunk' hix hlt => ?_⟩
  · show _ < (arena.chunks.set _ _).length
    rw [List.length_set]
    exact h.current
  · rcases List.mem_or_eq_of_mem_set hchunk' with hchunk' | rfl
    · exact h.bounds chunk' hchunk'
    · exact ⟨hpos, hstart.trans hle, hstop, hmax⟩
  · obtain ⟨hlt, rfl⟩ := List.getElem?_eq_some_iff.mp hchunk
    show ((arena.chunks.set _ _).map _).Pairwise _
    have hself : (arena.chunks.set arena.currentChunkIndex
        { arena.chunks[arena.currentChunkIndex] with offset := offset }).map ArenaChunk.span =
          arena.chunks.map ArenaChunk.span := by
      rw [List.map_set, show ∀ chunk : ArenaChunk,
        ArenaChunk.span { chunk with offset := offset } = chunk.span from fun _ => rfl, ← List.map_set,
        List.set_getElem_self]
    rw [hself]
    exact h.disjoint
  · replace hix : (arena.chunks.set _ _)[ix]? = some chunk' := hix
    replace hlt : arena.currentChunkIndex < ix := hlt
    rw [List.getElem?_set_ne (by omega)] at hix
    exact h.ahead ix chunk' hix hlt

/-- **An allocation in the current chunk** fails and changes nothing, or is apart from everything
the arena holds. -/
theorem Sound.bump (h : arena.Sound) (layout : AllocLayout) :
    arena.bump layout = some (none, arena) ∨
    ∃ ptr arena', arena.bump layout = some (some ptr, arena') ∧ Bumped arena arena' layout ptr := by
  have hlt := h.current
  obtain ⟨chunk, hchunk⟩ : ∃ chunk, arena.chunks[arena.currentChunkIndex]? = some chunk :=
    ⟨_, List.getElem?_eq_getElem hlt⟩
  obtain ⟨hpos, hstart, hoffset, -⟩ := h.bounds chunk (List.mem_of_getElem? hchunk)
  rw [ElementArena.bump, hchunk, Option.map_some]
  rcases chunk.allocate_cases (by omega) layout with hnone | ⟨ptr, hsome, hle, halign, hstop⟩
  · left
    rw [hnone]
    obtain ⟨-, rfl⟩ := List.getElem?_eq_some_iff.mp hchunk
    rw [List.set_getElem_self]
  · right
    rw [hsome]
    have hself : (arena.chunks.set arena.currentChunkIndex
        { chunk with offset := ptr + layout.size })[arena.currentChunkIndex]? =
          some { chunk with offset := ptr + layout.size } := List.getElem?_set_self hlt
    refine ⟨ptr, _, rfl, h.setOffset hchunk (by omega) hstop, halign,
      ⟨_, _, hself, le_rfl, by show chunk.start ≤ ptr; omega, le_rfl⟩, ?_, rfl⟩
    rintro span ⟨ix, chunk', hix, hcurrent, hlow, hhigh⟩
    by_cases hne : ix = arena.currentChunkIndex
    · subst hne
      rw [hchunk] at hix
      obtain rfl := Option.some.inj hix
      refine ⟨⟨_, _, hself, le_rfl, hlow, ?_⟩, Or.inl (hhigh.trans hle)⟩
      show span.stop ≤ ptr + layout.size
      omega
    · refine ⟨⟨ix, chunk', ?_, hcurrent, hlow, hhigh⟩, ?_⟩
      · show (arena.chunks.set _ _)[ix]? = some chunk'
        rw [List.getElem?_set_ne (fun heq => hne heq.symm)]
        exact hix
      · have hb := h.bounds chunk' (List.mem_of_getElem? hix)
        show span.stop ≤ ptr ∨ ptr + layout.size ≤ span.start
        rcases h.disjoint_of_ne hix hchunk hne with hapart | hapart
        · left
          omega
        · right
          omega

/-- **The next chunk.** -/
theorem Sound.advance (h : arena.Sound) {start : Nat}
    (hfresh : arena.chunks.length ≤ arena.currentChunkIndex + 1 → arena.FreshChunk start) :
    (arena.advance start).Sound ∧ ∀ span, arena.Holds span → (arena.advance start).Holds span := by
  have hcurrent := h.current
  by_cases hlast : arena.chunks.length ≤ arena.currentChunkIndex + 1
  · obtain ⟨hpos, hmax, hapart⟩ := hfresh hlast
    have hadvance : arena.advance start = { arena with
        chunks := arena.chunks ++ [.new arena.chunkSize start]
        currentChunkIndex := arena.currentChunkIndex + 1 } := by
      rw [ElementArena.advance, if_pos hlast]
    rw [hadvance]
    refine ⟨⟨?_, fun chunk hchunk => ?_, ?_, fun ix chunk hix hlt => ?_⟩, ?_⟩
    · show _ < (arena.chunks ++ _).length
      rw [List.length_append, List.length_singleton]
      exact Nat.succ_lt_succ hcurrent
    · rcases List.mem_append.mp hchunk with hchunk | hchunk
      · exact h.bounds chunk hchunk
      · obtain rfl := List.mem_singleton.mp hchunk
        exact ⟨hpos, le_rfl, Nat.le_add_right _ _, hmax⟩
    · show ((arena.chunks ++ _).map _).Pairwise _
      rw [List.map_append]
      refine List.pairwise_append.mpr ⟨h.disjoint, List.pairwise_singleton _ _, ?_⟩
      intro span hspan span' hspan'
      obtain ⟨chunk, hchunk, rfl⟩ := List.mem_map.mp hspan
      obtain rfl := List.mem_singleton.mp hspan'
      exact hapart chunk hchunk
    · have hbound := (List.getElem?_eq_some_iff.mp hix).1
      replace hlt : arena.currentChunkIndex + 1 < ix := hlt
      simp only [List.length_append, List.length_singleton] at hbound
      omega
    · rintro span ⟨ix, chunk, hix, hle, hlow, hhigh⟩
      refine ⟨ix, chunk, ?_, hle.trans (Nat.le_succ _), hlow, hhigh⟩
      show (arena.chunks ++ _)[ix]? = some chunk
      rw [List.getElem?_append_left (List.getElem?_eq_some_iff.mp hix).1]
      exact hix
  · have hadvance : arena.advance start =
        { arena with currentChunkIndex := arena.currentChunkIndex + 1 } := by
      rw [ElementArena.advance, if_neg hlast]
    rw [hadvance]
    refine ⟨⟨?_, h.bounds, h.disjoint, fun ix chunk hix hlt => ?_⟩, ?_⟩
    · show arena.currentChunkIndex + 1 < arena.chunks.length
      omega
    · replace hlt : arena.currentChunkIndex + 1 < ix := hlt
      exact h.ahead ix chunk hix (by omega)
    · rintro span ⟨ix, chunk, hix, hle, hlow, hhigh⟩
      exact ⟨ix, chunk, hix, hle.trans (Nat.le_succ _), hlow, hhigh⟩

/-- **An allocation.** -/
theorem Sound.place (h : arena.Sound) {layout : AllocLayout} {start ptr : Nat}
    (hfresh : arena.bump layout = some (none, arena) →
      arena.chunks.length ≤ arena.currentChunkIndex + 1 → arena.FreshChunk start)
    (hplace : arena.place layout start = some (ptr, arena')) : Bumped arena arena' layout ptr := by
  rcases h.bump layout with hnone | ⟨ptr', arena₁, hsome, hbumped⟩
  · rw [ElementArena.place, hnone, Option.bind_some] at hplace
    obtain ⟨hsound, hkept⟩ := h.advance (hfresh hnone)
    rcases hsound.bump layout with hnone' | ⟨ptr', arena₂, hsome', hbumped⟩
    · simp only [hnone', Option.bind_some, Option.map_none] at hplace
      cases hplace
    · simp only [hsome', Option.bind_some, Option.map_some] at hplace
      cases hplace
      refine ⟨hbumped.sound, hbumped.align, hbumped.holds,
        fun span hspan => hbumped.kept span (hkept span hspan), ?_⟩
      rw [hbumped.rest]
      rfl
  · rw [ElementArena.place, hsome, Option.bind_some] at hplace
    cases hplace
    exact hbumped

end ElementArena

end FcGpui

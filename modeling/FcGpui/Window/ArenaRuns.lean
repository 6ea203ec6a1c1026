import FcGpui.Window.ElementArena

/-!
# What the element arena is for

`Ledger` counts the scopes that are open, the clears that came with none open, and for every
allocation the clears before it.  A value is current until the first such clear after it.

`Obeys` compares a run of the arena with its ledger, and `Tells` is what every action keeps.

**Main result.**  `arena_sound`.
-/

namespace FcGpui

/-- Open scopes, effective clears, and for every allocation the effective clears before it. -/
structure Ledger where
  scopes : Nat
  clears : Nat
  made : List Nat
deriving DecidableEq, Repr

namespace Ledger

def record (ledger : Ledger) : ArenaAct → Ledger
  | .beginScope => { ledger with scopes := ledger.scopes + 1 }
  | .endScope => { ledger with scopes := ledger.scopes - 1 }
  | .clear => if ledger.scopes = 0 then { ledger with clears := ledger.clears + 1 } else ledger
  | .alloc _ _ => { ledger with made := ledger.made ++ [ledger.clears] }
  | .drop => { ledger with clears := ledger.clears + 1 }

/-- The ledger of a run; dropping the arena counts as an effective clear. -/
def of (acts : List ArenaAct) : Ledger := acts.foldl record ⟨0, 0, []⟩

/-- No effective clear came after the allocation. -/
def Current (ledger : Ledger) (ix : Nat) : Prop := ledger.made[ix]? = some ledger.clears

end Ledger

/-! ### Runs -/

namespace ArenaRun

/-- A new chunk, where one is needed, is memory of its own. -/
def Granted (w : ArenaRun) : ArenaAct → Prop
  | .alloc layout start => w.arena.bump layout = some (none, w.arena) →
      w.arena.chunks.length ≤ w.arena.currentChunkIndex + 1 → w.arena.FreshChunk start
  | _ => True

/-- What the ledger tells of a run. -/
structure Obeys (w : ArenaRun) (ledger : Ledger) : Prop where
  count : w.boxes.length = ledger.made.length
  inside : ∀ (ix : Nat) (box : ArenaBox), w.boxes[ix]? = some box → ledger.Current ix →
    ∃ chunk ∈ w.arena.chunks, chunk.start ≤ box.span.start ∧ box.span.stop ≤ chunk.stop
  aligned : ∀ (ix : Nat) (box : ArenaBox), w.boxes[ix]? = some box → ledger.Current ix →
    box.layout.align ∣ box.ptr
  disjoint : ∀ (ix ix' : Nat) (box box' : ArenaBox), ix < ix' → w.boxes[ix]? = some box →
    w.boxes[ix']? = some box' → ledger.Current ix → ledger.Current ix' → box.span.Disjoint box'.span
  valid : ∀ (ix : Nat) (box : ArenaBox), w.boxes[ix]? = some box →
    (w.valid box = true ↔ ledger.Current ix)
  dropped : ∀ ix < w.boxes.length, (ledger.Current ix → w.dropped.count ix = 0) ∧
    (¬ ledger.Current ix → w.dropped.count ix = 1)
  inScope : 0 < ledger.scopes → w.clear = w

/-- What every action keeps.  A flag is the number of the clear that takes it down. -/
structure Tells (w : ArenaRun) (ledger : Ledger) : Prop where
  sound : w.arena.Sound
  scopes : w.arena.scopeDepth = ledger.scopes
  count : w.boxes.length = ledger.made.length
  length : w.flags.length = ledger.clears + 1
  flags : ∀ flag ≤ ledger.clears, w.flags[flag]? = some (decide (flag = ledger.clears))
  current : w.arena.valid = ledger.clears
  made : ∀ (ix : Nat) (box : ArenaBox), w.boxes[ix]? = some box →
    ledger.made[ix]? = some box.valid ∧ box.valid ≤ ledger.clears
  held : ∀ (ix : Nat) (box : ArenaBox), w.boxes[ix]? = some box → ledger.Current ix →
    w.arena.Holds box.span ∧ box.layout.align ∣ box.ptr
  disjoint : ∀ (ix ix' : Nat) (box box' : ArenaBox), ix < ix' → w.boxes[ix]? = some box →
    w.boxes[ix']? = some box' → ledger.Current ix → ledger.Current ix' → box.span.Disjoint box'.span
  values : w.dropped ++ w.arena.elements = List.range w.boxes.length
  elements : ∀ ix, ix ∈ w.arena.elements ↔ ledger.Current ix

theorem tells_new {chunkSize start : Nat} (hpos : 0 < start) (hmax : start + chunkSize ≤ usizeMax) :
    Tells (new chunkSize start) ⟨0, 0, []⟩ where
  sound := by
    refine ⟨Nat.one_pos, fun chunk hchunk => ?_, List.pairwise_singleton _ _, fun ix chunk hix hlt => ?_⟩
    · obtain rfl := List.mem_singleton.mp hchunk
      exact ⟨hpos, le_rfl, Nat.le_add_right _ _, hmax⟩
    · have hbound := (List.getElem?_eq_some_iff.mp hix).1
      replace hlt : 0 < ix := hlt
      simp only [new, ElementArena.new, List.length_singleton] at hbound
      omega
  scopes := rfl
  count := rfl
  length := rfl
  flags flag hflag := by
    obtain rfl : flag = 0 := Nat.le_zero.mp hflag
    rfl
  current := rfl
  made ix box hbox := absurd hbox nofun
  held ix box hbox := absurd hbox nofun
  disjoint ix ix' box box' _ hbox := absurd hbox nofun
  values := rfl
  elements ix := ⟨fun h => absurd h List.not_mem_nil, fun h => absurd h nofun⟩

variable {w w' : ArenaRun} {ledger : Ledger}

theorem Tells.setScopes (h : w.Tells ledger) {depth : Nat} :
    Tells { w with arena := { w.arena with scopeDepth := depth } } { ledger with scopes := depth } where
  sound := ⟨h.sound.current, h.sound.bounds, h.sound.disjoint, h.sound.ahead⟩
  scopes := rfl
  count := h.count
  length := h.length
  flags := h.flags
  current := h.current
  made := h.made
  held := h.held
  disjoint := h.disjoint
  values := h.values
  elements := h.elements

theorem sound_forceClear (h : w.arena.Sound) : w.forceClear.arena.Sound := by
  have hget : ∀ (ix : Nat) (chunk : ArenaChunk), w.forceClear.arena.chunks[ix]? = some chunk →
      ∃ chunk', w.arena.chunks[ix]? = some chunk' ∧ chunk = chunk'.reset := by
    intro ix chunk hix
    replace hix : (w.arena.chunks.mapIdx _)[ix]? = some chunk := hix
    rw [List.getElem?_mapIdx, Option.map_eq_some_iff] at hix
    obtain ⟨chunk', hix', rfl⟩ := hix
    refine ⟨chunk', hix', ?_⟩
    split
    · rfl
    · -- it has not been used since it was reset
      rename_i hahead
      have hoffset := h.ahead ix chunk' hix' (by omega)
      obtain ⟨start, stop, offset⟩ := chunk'
      obtain rfl : offset = start := hoffset
      rfl
  refine ⟨?_, fun chunk hchunk => ?_, ?_, fun ix chunk hix _ => ?_⟩
  · show 0 < (w.arena.chunks.mapIdx _).length
    rw [List.length_mapIdx]
    exact (Nat.zero_le _).trans_lt h.current
  · obtain ⟨ix, hix⟩ := List.getElem?_of_mem hchunk
    obtain ⟨chunk', hix', rfl⟩ := hget ix chunk hix
    obtain ⟨hpos, hstart, hoffset, hmax⟩ := h.bounds chunk' (List.mem_of_getElem? hix')
    exact ⟨hpos, le_rfl, hstart.trans hoffset, hmax⟩
  · have hspans : w.forceClear.arena.chunks.map ArenaChunk.span = w.arena.chunks.map ArenaChunk.span := by
      refine List.ext_getElem? fun ix => ?_
      show ((w.arena.chunks.mapIdx _).map _)[ix]? = _
      rw [List.getElem?_map, List.getElem?_mapIdx, List.getElem?_map, Option.map_map]
      refine congrArg (fun f => (w.arena.chunks[ix]?).map f) (funext fun chunk => ?_)
      show ArenaChunk.span (if _ then _ else _) = _
      split <;> rfl
    rw [hspans]
    exact h.disjoint
  · obtain ⟨chunk', -, rfl⟩ := hget ix chunk hix
    rfl

/-- **A clear that is effective.** -/
theorem Tells.forceClear (h : w.Tells ledger) :
    w.forceClear.Tells { ledger with clears := ledger.clears + 1 } := by
  have hnone : ∀ ix, ¬ Ledger.Current { ledger with clears := ledger.clears + 1 } ix := by
    intro ix hix
    replace hix : ledger.made[ix]? = some (ledger.clears + 1) := hix
    have hlt := (List.getElem?_eq_some_iff.mp hix).1
    rw [← h.count] at hlt
    obtain ⟨hmade, hle⟩ := h.made ix _ (List.getElem?_eq_getElem hlt)
    rw [hix] at hmade
    have := Option.some.inj hmade
    omega
  have hlength : w.forceClear.flags.length = ledger.clears + 2 := by
    show (w.flags.set _ _ ++ [true]).length = _
    rw [List.length_append, List.length_set, h.length]
    rfl
  refine ⟨sound_forceClear h.sound, h.scopes, h.count, hlength, fun flag hflag => ?_, h.length,
    fun ix box hbox => ?_, fun ix box _ hix => absurd hix (hnone ix),
    fun ix ix' box box' _ _ _ hix => absurd hix (hnone ix), ?_,
    fun ix => ⟨fun hix => absurd hix List.not_mem_nil, fun hix => absurd hix (hnone ix)⟩⟩
  · show (w.flags.set w.arena.valid false ++ [true])[flag]? = _
    replace hflag : flag ≤ ledger.clears + 1 := hflag
    rw [h.current]
    by_cases hlast : flag = ledger.clears + 1
    · subst hlast
      rw [List.getElem?_append_right (by rw [List.length_set, h.length]), List.length_set, h.length,
        Nat.sub_self]
      simp
    · rw [List.getElem?_append_left (by rw [List.length_set, h.length]; omega)]
      by_cases hflag' : flag = ledger.clears
      · subst hflag'
        rw [List.getElem?_set_self (by rw [h.length]; omega)]
        simp
      · rw [List.getElem?_set_ne (fun heq => hflag' heq.symm), h.flags flag (by omega)]
        simp [hflag', hlast]
  · obtain ⟨hmade, hle⟩ := h.made ix box hbox
    exact ⟨hmade, hle.trans (Nat.le_succ _)⟩
  · show w.dropped ++ w.arena.elements ++ [] = _
    rw [List.append_nil]
    exact h.values

theorem current_push (ledger : Ledger) (ix : Nat) :
    Ledger.Current { ledger with made := ledger.made ++ [ledger.clears] } ix ↔
      ledger.Current ix ∨ ix = ledger.made.length := by
  show (ledger.made ++ [ledger.clears])[ix]? = some ledger.clears ↔
    ledger.made[ix]? = some ledger.clears ∨ _
  rcases Nat.lt_trichotomy ix ledger.made.length with hlt | heq | hgt
  · rw [List.getElem?_append_left hlt]
    exact ⟨Or.inl, fun h => h.resolve_right (by omega)⟩
  · subst heq
    rw [List.getElem?_append_right le_rfl, Nat.sub_self]
    exact ⟨fun _ => Or.inr rfl, fun _ => rfl⟩
  · rw [List.getElem?_eq_none (by rw [List.length_append, List.length_singleton]; omega),
      List.getElem?_eq_none hgt.le]
    refine ⟨nofun, ?_⟩
    rintro (h | h)
    · cases h
    · omega

theorem getElem?_push {boxes : List ArenaBox} {new box : ArenaBox} {ix : Nat}
    (h : (boxes ++ [new])[ix]? = some box) : boxes[ix]? = some box ∨ (ix = boxes.length ∧ box = new) := by
  rcases Nat.lt_or_ge ix boxes.length with hlt | hge
  · rw [List.getElem?_append_left hlt] at h
    exact Or.inl h
  · rw [List.getElem?_append_right hge, List.getElem?_singleton] at h
    split at h
    · exact Or.inr ⟨by omega, (Option.some.inj h).symm⟩
    · cases h

/-- **An allocation.** -/
theorem Tells.alloc (h : w.Tells ledger) {layout : AllocLayout} {start : Nat}
    (hgranted : w.Granted (.alloc layout start)) (halloc : w.alloc layout start = some w') :
    w'.Tells { ledger with made := ledger.made ++ [ledger.clears] } := by
  rw [ArenaRun.alloc, Option.map_eq_some_iff] at halloc
  obtain ⟨⟨ptr, arena⟩, hplace, rfl⟩ := halloc
  obtain ⟨hsound, halign, hholds, hkept, hrest⟩ := h.sound.place hgranted hplace
  have hvalid : arena.valid = ledger.clears := by
    rw [hrest]
    exact h.current
  have helements : arena.elements = w.arena.elements := by rw [hrest]
  -- a box that was current before is a box of then
  have hold : ∀ ix box, w.boxes[ix]? = some box →
      Ledger.Current { ledger with made := ledger.made ++ [ledger.clears] } ix → ledger.Current ix := by
    intro ix box hbox hix
    have hlt := (List.getElem?_eq_some_iff.mp hbox).1
    rw [h.count] at hlt
    exact ((current_push ledger ix).mp hix).resolve_right (by omega)
  refine ⟨⟨hsound.current, hsound.bounds, hsound.disjoint, hsound.ahead⟩, ?_, ?_, h.length, h.flags,
    hvalid, fun ix box hbox => ?_, fun ix box hbox hix => ?_, fun ix ix' box box' hlt hbox hbox' hix hix' => ?_,
    ?_, fun ix => ?_⟩
  · show arena.scopeDepth = _
    rw [hrest]
    exact h.scopes
  · show (w.boxes ++ [_]).length = (ledger.made ++ [_]).length
    rw [List.length_append, List.length_append, h.count]
    rfl
  · show (ledger.made ++ [ledger.clears])[ix]? = some box.valid ∧ _
    rcases getElem?_push hbox with hbox | ⟨rfl, rfl⟩
    · obtain ⟨hmade, hle⟩ := h.made ix box hbox
      rw [List.getElem?_append_left (List.getElem?_eq_some_iff.mp hmade).1]
      exact ⟨hmade, hle⟩
    · rw [h.count, List.getElem?_append_right le_rfl, Nat.sub_self]
      exact ⟨congrArg some hvalid.symm, hvalid.le⟩
  · rcases getElem?_push hbox with hbox | ⟨rfl, rfl⟩
    · obtain ⟨hspan, hbox'⟩ := h.held ix box hbox (hold ix box hbox hix)
      exact ⟨(hkept box.span hspan).1, hbox'⟩
    · exact ⟨hholds, halign⟩
  · rcases getElem?_push hbox with hbox | ⟨rfl, rfl⟩
    · have hcurrent := hold ix box hbox hix
      rcases getElem?_push hbox' with hbox' | ⟨rfl, rfl⟩
      · exact h.disjoint ix ix' box box' hlt hbox hbox' hcurrent (hold ix' box' hbox' hix')
      · exact (hkept box.span (h.held ix box hbox hcurrent).1).2
    · have hbound := (List.getElem?_eq_some_iff.mp hbox').1
      rw [List.length_append, List.length_singleton] at hbound
      omega
  · show w.dropped ++ (arena.elements ++ [w.boxes.length]) = List.range (w.boxes ++ [_]).length
    rw [helements, ← List.append_assoc, h.values, List.length_append, List.length_singleton,
      List.range_succ]
  · show ix ∈ arena.elements ++ [w.boxes.length] ↔ _
    rw [helements, List.mem_append, List.mem_singleton, current_push, h.elements, h.count]

/-- **One action.** -/
theorem Tells.step (h : w.Tells ledger) {act : ArenaAct} (hgranted : w.Granted act)
    (hs : w.step act = some w') : w'.Tells (ledger.record act) := by
  simp only [ArenaRun.step] at hs
  split at hs
  · cases hs
  · cases act with
    | beginScope =>
      obtain ⟨-, hs⟩ := Option.ite_none_right_eq_some.mp hs
      obtain rfl := Option.some.inj hs
      rw [h.scopes]
      exact h.setScopes
    | endScope =>
      obtain ⟨-, hs⟩ := Option.ite_none_right_eq_some.mp hs
      obtain rfl := Option.some.inj hs
      rw [h.scopes]
      exact h.setScopes
    | clear =>
      obtain rfl := Option.some.inj hs
      rw [ArenaRun.clear, Ledger.record, h.scopes]
      split
      · exact h.forceClear
      · exact h
    | alloc layout start => exact h.alloc hgranted hs
    | drop =>
      obtain rfl := Option.some.inj hs
      have hcleared := h.forceClear
      exact ⟨hcleared.sound, hcleared.scopes, hcleared.count, hcleared.length, hcleared.flags,
        hcleared.current, hcleared.made, hcleared.held, hcleared.disjoint, hcleared.values,
        hcleared.elements⟩

/-- **A run.** -/
theorem Tells.run : ∀ (acts : List ArenaAct) {w w' : ArenaRun} {ledger : Ledger}, w.Tells ledger →
    RunMeets ArenaRun.step Granted w acts → FcGpui.run ArenaRun.step w acts = some w' →
      w'.Tells (acts.foldl Ledger.record ledger) := by
  intro acts
  induction acts with
  | nil =>
    intro w w' ledger h _ hrun
    obtain rfl := Option.some.inj hrun
    exact h
  | cons act acts ih =>
    intro w w' ledger h hmeets hrun
    obtain ⟨mid, hmid, hrest⟩ := Option.bind_eq_some_iff.mp hrun
    obtain ⟨hgranted, hmeets⟩ := hmeets
    rw [hmid] at hmeets
    exact ih (h.step hgranted hmid) hmeets hrest

theorem Tells.obeys (h : w.Tells ledger) : w.Obeys ledger where
  count := h.count
  inside ix box hbox hix := by
    obtain ⟨chunkIx, chunk, hchunk, -, hlow, hhigh⟩ := (h.held ix box hbox hix).1
    have hmem := List.mem_of_getElem? hchunk
    exact ⟨chunk, hmem, hlow, hhigh.trans (h.sound.bounds chunk hmem).2.2.1⟩
  aligned ix box hbox hix := (h.held ix box hbox hix).2
  disjoint := h.disjoint
  valid ix box hbox := by
    obtain ⟨hmade, hle⟩ := h.made ix box hbox
    rw [ArenaRun.valid, h.flags box.valid hle, Option.getD_some, decide_eq_true_iff, Ledger.Current, hmade,
      Option.some_inj]
  dropped ix hix := by
    have hcount := congrArg (List.count ix) h.values
    rw [List.count_append, List.count_eq_one_of_mem List.nodup_range (List.mem_range.mpr hix)] at hcount
    constructor
    · intro hcurrent
      have := List.count_pos_iff.mpr ((h.elements ix).mpr hcurrent)
      omega
    · intro hcurrent
      have := List.count_eq_zero.mpr fun hmem => hcurrent ((h.elements ix).mp hmem)
      omega
  inScope hscopes := by
    rw [clear, h.scopes, if_neg (by omega)]

/-- **The arena keeps to its ledger.**  In every run of a new arena, with memory of its own for
every chunk: what was allocated since the last effective clear is aligned, in a chunk, and apart;
a box can be dereferenced exactly until the first effective clear after it, and its value is dropped
once, by that clear or with the arena; a clear in a scope changes nothing. -/
theorem arena_sound {chunkSize start : Nat} (hpos : 0 < start) (hmax : start + chunkSize ≤ usizeMax)
    (acts : List ArenaAct) (w : ArenaRun)
    (hgranted : RunMeets step Granted (new chunkSize start) acts)
    (hrun : FcGpui.run step (new chunkSize start) acts = some w) : w.Obeys (Ledger.of acts) :=
  (Tells.run acts (tells_new hpos hmax) hgranted hrun).obeys

/-- Three values, the last of which needs a second chunk, a clear that has to wait for the end of the
scope, and a value behind it in the first chunk. -/
def scopedClear : List ArenaAct :=
  [.alloc ⟨8, 3⟩ 0, .beginScope, .alloc ⟨8, 3⟩ 0, .alloc ⟨4, 2⟩ 2048, .clear, .endScope, .clear,
    .alloc ⟨2, 1⟩ 0]

instance (w : ArenaRun) : ∀ act, Decidable (w.Granted act)
  | .alloc layout start => inferInstanceAs (Decidable (w.arena.bump layout = some (none, w.arena) →
      w.arena.chunks.length ≤ w.arena.currentChunkIndex + 1 →
        0 < start ∧ start + w.arena.chunkSize ≤ usizeMax ∧ ∀ chunk ∈ w.arena.chunks,
          chunk.span.stop ≤ (ArenaChunk.new w.arena.chunkSize start).span.start ∨
            (ArenaChunk.new w.arena.chunkSize start).span.stop ≤ chunk.span.start))
  | .beginScope | .endScope | .clear | .drop => isTrue trivial

theorem arena_sound_scopedClear :
    ∃ w, FcGpui.run step (new 16 1024) scopedClear = some w ∧ w.Obeys (Ledger.of scopedClear) ∧
      w.boxes.map ArenaBox.ptr = [1024, 1032, 2048, 1024] ∧ w.dropped = [0, 1, 2] := by
  refine ⟨_, rfl, @arena_sound 16 1024 (by decide) (by decide) scopedClear _ (by decide) rfl, ?_⟩
  decide

end ArenaRun

end FcGpui

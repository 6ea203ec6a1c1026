import FcGpui.App.FlushExclusion

/-!
# Flushes and the windows they expect

A flush updates windows in two places, and expects to find them in their slots: for the
observers of an entity that was created in the update of a window, and for a focus
handle that nobody holds any more.

That the slot is not empty is always so (`Ready.present`): below a flush no window is out
of its slot unless a shutdown has dropped it (`Placed`), since the end of an update
flushes only outside of all others.  That there is a slot is not.  The window may have
been closed after the entity was created, in the same update or by an earlier observer,
or dropped by a shutdown.

**Main result.**  `flush_finds_windows`: in a run that closes no window as long as an
effect remembers it or a flush is going to update it, no flush misses a window.
-/

namespace FcGpui

/-- The windows that a frame is going to update, and expects to find. -/
def WindowFrame.expects : WindowFrame → Finset WindowId
  | created (some id) _ _ => {id}
  | releaseFocus _ remaining _ => remaining
  | _ => ∅

/-- The window that an effect remembers. -/
def Effect.remembers : Effect → Option WindowId
  | entityCreated _ _ window => window
  | _ => none

namespace WindowFrame

/-- The last window that the frame has visited was found. -/
def found : WindowFrame → Bool
  | created _ _ found | releaseFocus _ _ found => found
  | _ => true

/-- A flush visits observers or windows. -/
def visits : WindowFrame → Bool
  | created _ _ _ | releaseFocus _ _ _ => true
  | _ => false

/-- What may stand on what: visits on a flush, and on the visit of an observer the
update of its window, and the flush at the end of that. -/
structure Sits (above : WindowFrame) (below : Option WindowFrame) : Prop where
  visits : above.visits = true → ∃ frame, below = some frame ∧ frame.isFlush = true
  updates : ∀ id retaining found, below = some (.created (some id) retaining found) →
    above = .window id ∨ above = .closed ∨ above = .ended ∨ above = .flush

def Stacked : List WindowFrame → Prop
  | [] => True
  | frame :: rest => frame.Sits rest.head? ∧ Stacked rest

/-- The windows that frames have taken out of their slots. -/
def taken (frames : List WindowFrame) : List WindowId := frames.filterMap WindowFrame.onStack

/-- The frames and the slots of windows agree.  Below a flush there is no window that
is not dropped already. -/
structure Placed (frames : List WindowFrame) (windows : WindowId → Option WindowSlot)
    (next : WindowId) : Prop where
  nodup : (taken frames).Nodup
  empty : ∀ id, windows id = some .onStack → id ∈ taken frames
  filled : ∀ id, windows id = some .present → id ∉ taken frames
  windows_lt : ∀ id, (windows id).isSome → id < next
  taken_lt : ∀ id ∈ taken frames, id < next
  dropped : frames.Pairwise fun above below =>
    above.isFlush = true → ∀ id, below.onStack = some id → windows id = none

variable {frame : WindowFrame} {frames : List WindowFrame} {windows : WindowId → Option WindowSlot}
  {next id : WindowId}

theorem taken_cons_none (h : frame.onStack = none) : taken (frame :: frames) = taken frames := by
  rw [taken, List.filterMap_cons, h]
  rfl

theorem taken_cons_some (h : frame.onStack = some id) :
    taken (frame :: frames) = id :: taken frames := by
  rw [taken, List.filterMap_cons, h]
  rfl

theorem mem_taken : id ∈ taken frames ↔ ∃ frame ∈ frames, frame.onStack = some id :=
  List.mem_filterMap

theorem placed_nil : Placed [] (fun _ => none) 0 where
  nodup := List.nodup_nil
  empty _ h := by cases h
  filled _ h := by cases h
  windows_lt _ h := by cases h
  taken_lt _ h := by cases h
  dropped := List.Pairwise.nil

/-- A frame without a window is entered.  A flush is entered over no window that is
still there. -/
theorem Placed.push (h : Placed frames windows next) (hframe : frame.onStack = none)
    (hflush : frame.isFlush = true → ∀ id ∈ taken frames, windows id = none) :
    Placed (frame :: frames) windows next := by
  refine ⟨?_, ?_, ?_, h.windows_lt, ?_, ?_⟩
  · rw [taken_cons_none hframe]
    exact h.nodup
  · rw [taken_cons_none hframe]
    exact h.empty
  · rw [taken_cons_none hframe]
    exact h.filled
  · rw [taken_cons_none hframe]
    exact h.taken_lt
  · refine List.pairwise_cons.mpr ⟨fun below hbelow habove id hid => ?_, h.dropped⟩
    exact hflush habove id (mem_taken.mpr ⟨below, hbelow, hid⟩)

theorem Placed.pop (h : Placed (frame :: frames) windows next) (hframe : frame.onStack = none) :
    Placed frames windows next := by
  obtain ⟨hnodup, hempty, hfilled, hwindows, htaken, hdropped⟩ := h
  rw [taken_cons_none hframe] at hnodup hempty hfilled htaken
  exact ⟨hnodup, hempty, hfilled, hwindows, htaken, (List.pairwise_cons.mp hdropped).2⟩

/-- What is dropped below a flush does not depend on the slot of a window in no frame. -/
theorem dropped_update {slot : Option WindowSlot} (hid : id ∉ taken frames)
    (h : frames.Pairwise fun above below =>
      above.isFlush = true → ∀ id, below.onStack = some id → windows id = none) :
    frames.Pairwise fun above below =>
      above.isFlush = true → ∀ other, below.onStack = some other →
        Function.update windows id slot other = none := by
  refine h.imp_of_mem ?_
  intro above below _ hbelow hdropped habove other hother
  have hne : other ≠ id := fun heq => hid (heq ▸ mem_taken.mpr ⟨below, hbelow, hother⟩)
  rw [Function.update_of_ne hne]
  exact hdropped habove other hother

theorem Placed.take {next' : WindowId} (h : Placed frames windows next)
    (hframe : frame.onStack = some id) (hflush : frame.isFlush = false) (hid : id ∉ taken frames)
    (hnext : next ≤ next') (hlt : id < next') :
    Placed (frame :: frames) (Function.update windows id (some .onStack)) next' := by
  refine ⟨?_, ?_, ?_, ?_, ?_, ?_⟩
  · rw [taken_cons_some hframe]
    exact List.nodup_cons.mpr ⟨hid, h.nodup⟩
  · intro other hother
    rw [taken_cons_some hframe]
    by_cases heq : other = id
    · exact heq ▸ List.mem_cons_self
    · rw [Function.update_of_ne heq] at hother
      exact List.mem_cons_of_mem _ (h.empty other hother)
  · intro other hother
    rw [taken_cons_some hframe]
    by_cases heq : other = id
    · rw [heq, Function.update_self] at hother
      cases hother
    · rw [Function.update_of_ne heq] at hother
      rintro (_ | ⟨_, hmem⟩)
      · exact heq rfl
      · exact h.filled other hother hmem
  · intro other hother
    by_cases heq : other = id
    · exact heq ▸ hlt
    · rw [Function.update_of_ne heq] at hother
      exact (h.windows_lt other hother).trans_le hnext
  · rw [taken_cons_some hframe]
    rintro other (_ | ⟨_, hmem⟩)
    · exact hlt
    · exact (h.taken_lt other hmem).trans_le hnext
  · refine List.pairwise_cons.mpr ⟨fun _ _ habove => ?_, dropped_update hid h.dropped⟩
    rw [hflush] at habove
    cases habove

theorem Placed.setSlot {slot : Option WindowSlot} (h : Placed frames windows next)
    (hid : id ∉ taken frames) (hlt : id < next) (hslot : slot ≠ some .onStack) :
    Placed frames (Function.update windows id slot) next := by
  refine ⟨h.nodup, ?_, ?_, ?_, h.taken_lt, dropped_update hid h.dropped⟩
  · intro other hother
    by_cases heq : other = id
    · rw [heq, Function.update_self] at hother
      exact absurd hother hslot
    · rw [Function.update_of_ne heq] at hother
      exact h.empty other hother
  · intro other hother
    by_cases heq : other = id
    · exact heq ▸ hid
    · rw [Function.update_of_ne heq] at hother
      exact h.filled other hother
  · intro other hother
    by_cases heq : other = id
    · exact heq ▸ hlt
    · rw [Function.update_of_ne heq] at hother
      exact h.windows_lt other hother

theorem Placed.leave {slot : Option WindowSlot} (h : Placed (frame :: frames) windows next)
    (hframe : frame.onStack = some id) (hslot : slot ≠ some .onStack) :
    Placed frames (Function.update windows id slot) next := by
  obtain ⟨hnodup, hempty, hfilled, hwindows, htaken, hdropped⟩ := h
  rw [taken_cons_some hframe] at hnodup hempty hfilled htaken
  obtain ⟨hid, hnodup⟩ := List.nodup_cons.mp hnodup
  refine ⟨hnodup, ?_, ?_, ?_, fun other hmem => htaken other (List.mem_cons_of_mem _ hmem),
    dropped_update hid (List.pairwise_cons.mp hdropped).2⟩
  · intro other hother
    by_cases heq : other = id
    · rw [heq, Function.update_self] at hother
      exact absurd hother hslot
    · rw [Function.update_of_ne heq] at hother
      exact (List.mem_cons.mp (hempty other hother)).resolve_left heq
  · intro other hother
    by_cases heq : other = id
    · exact heq ▸ hid
    · rw [Function.update_of_ne heq] at hother
      exact fun hmem => hfilled other hother (List.mem_cons_of_mem _ hmem)
  · intro other hother
    by_cases heq : other = id
    · exact heq ▸ htaken id List.mem_cons_self
    · rw [Function.update_of_ne heq] at hother
      exact hwindows other hother

/-- The frame of a window that is dropped already is left. -/
theorem Placed.leave_dropped (h : Placed (frame :: frames) windows next)
    (hframe : frame.onStack = some id) (hid : windows id = none) : Placed frames windows next := by
  have hself : Function.update windows id none = windows := by
    rw [← hid]
    exact Function.update_eq_self id windows
  have hleft : Placed frames (Function.update windows id none) next := h.leave hframe nofun
  rwa [hself] at hleft

theorem Placed.exchange {frame' : WindowFrame} (h : Placed (frame :: frames) windows next)
    (hframe : frame'.onStack = frame.onStack) (hflush : frame'.isFlush = false) :
    Placed (frame' :: frames) windows next := by
  have htaken : taken (frame' :: frames) = taken (frame :: frames) := by
    rw [taken, taken, List.filterMap_cons, List.filterMap_cons, hframe]
  obtain ⟨hnodup, hempty, hfilled, hwindows, htaken_lt, hdropped⟩ := h
  rw [← htaken] at hnodup hempty hfilled htaken_lt
  refine ⟨hnodup, hempty, hfilled, hwindows, htaken_lt, ?_⟩
  refine List.pairwise_cons.mpr ⟨fun _ _ habove => ?_, (List.pairwise_cons.mp hdropped).2⟩
  rw [hflush] at habove
  cases habove

theorem Placed.clear (h : Placed frames windows next) : Placed frames (fun _ => none) next where
  nodup := h.nodup
  empty _ hid := by cases hid
  filled _ hid := by cases hid
  windows_lt _ hid := by cases hid
  taken_lt := h.taken_lt
  dropped := h.dropped.imp fun _ _ _ _ => rfl

/-- An update that was no visit's stands on no visit, and neither does what follows on it. -/
theorem Sits.exchange {above above' : WindowFrame} {below : Option WindowFrame}
    (h : above.Sits below)
    (hplain : ∀ id, above ≠ .window id ∧ above ≠ .closed ∧ above ≠ .ended ∧ above ≠ .flush)
    (hvisits : above'.visits = false) : above'.Sits below where
  visits hv := by
    rw [hvisits] at hv
    cases hv
  updates id retaining found hbelow := by
    obtain ⟨hwindow, hclosed, hended, hflush⟩ := hplain id
    rcases h.updates id retaining found hbelow with h | h | h | h
    · exact absurd h hwindow
    · exact absurd h hclosed
    · exact absurd h hended
    · exact absurd h hflush

theorem Sits.of_flush (above : WindowFrame) (h : frame.isFlush = true) : above.Sits (some frame) where
  visits _ := ⟨frame, rfl, h⟩
  updates id retaining found hframe := by
    cases hframe
    cases h

/-- What visits stands on a flush, so it may be exchanged for anything. -/
theorem Sits.visit {above : WindowFrame} {below : Option WindowFrame} (h : above.Sits below)
    (hvisits : above.visits = true) (above' : WindowFrame) : above'.Sits below := by
  obtain ⟨frame, rfl, hflush⟩ := h.visits hvisits
  exact Sits.of_flush above' hflush

theorem sits_ended (below : Option WindowFrame) : ended.Sits below :=
  ⟨fun h => (by cases h), fun _ _ _ _ => Or.inr (Or.inr (Or.inl rfl))⟩

theorem sits_closed (below : Option WindowFrame) : closed.Sits below :=
  ⟨fun h => (by cases h), fun _ _ _ _ => Or.inr (Or.inl rfl)⟩

theorem sits_flush (below : Option WindowFrame) : flush.Sits below :=
  ⟨fun h => (by cases h), fun _ _ _ _ => Or.inr (Or.inr (Or.inr rfl))⟩

/-- Where code of the application runs, anything may be entered. -/
theorem sits_of_runsCode {s : WindowedApp} (h : s.runsCode = true) (hvisits : frame.visits = false) :
    frame.Sits s.frames.head? where
  visits hv := by
    rw [hvisits] at hv
    cases hv
  updates id retaining found hbelow := by
    unfold WindowedApp.runsCode at h
    cases hframes : s.frames with
    | nil =>
      rw [hframes] at hbelow
      cases hbelow
    | cons top rest =>
      rw [hframes] at hbelow h
      cases hbelow
      cases h

/-- A window that an effect of the queue remembers, or that a flush is going to
update. -/
def Expected (effects : List Effect) (frames : List WindowFrame) (id : WindowId) : Prop :=
  (∃ effect ∈ effects, effect.remembers = some id) ∨ ∃ frame ∈ frames, id ∈ frame.expects

/-- The flushes find the windows they expect. -/
structure Ready (effects : List Effect) (frames : List WindowFrame)
    (windows : WindowId → Option WindowSlot) (next : WindowId) : Prop where
  placed : Placed frames windows next
  stacked : Stacked frames
  found : ∀ frame ∈ frames, frame.found = true
  expected : ∀ id, Expected effects frames id → (windows id).isSome

variable {effects : List Effect}

theorem ready_nil : Ready [] [] (fun _ => none) 0 where
  placed := placed_nil
  stacked := trivial
  found _ h := absurd h List.not_mem_nil
  expected id h := by
    rcases h with ⟨effect, h, -⟩ | ⟨frame, h, -⟩
    · exact absurd h List.not_mem_nil
    · exact absurd h List.not_mem_nil

theorem expected_cons (h : frame.expects = ∅) :
    Expected effects (frame :: frames) id ↔ Expected effects frames id := by
  refine or_congr_right ⟨?_, ?_⟩
  · rintro ⟨other, hother, hid⟩
    rcases List.mem_cons.mp hother with rfl | hother
    · rw [h] at hid
      exact absurd hid (Finset.notMem_empty id)
    · exact ⟨other, hother, hid⟩
  · rintro ⟨other, hother, hid⟩
    exact ⟨other, List.mem_cons_of_mem _ hother, hid⟩

theorem Expected.cons (h : Expected effects frames id) : Expected effects (frame :: frames) id :=
  h.imp_right fun ⟨other, hother, hid⟩ => ⟨other, List.mem_cons_of_mem _ hother, hid⟩

theorem Ready.fewer {effects' : List Effect} (h : Ready effects frames windows next)
    (hsub : ∀ effect ∈ effects', ∀ id, effect.remembers = some id →
      ∃ effect ∈ effects, effect.remembers = some id) :
    Ready effects' frames windows next := by
  refine ⟨h.placed, h.stacked, h.found, fun id hid => h.expected id ?_⟩
  rcases hid with ⟨effect, heffect, hremembers⟩ | hframe
  · exact Or.inl (hsub effect heffect id hremembers)
  · exact Or.inr hframe

theorem Ready.pop (h : Ready effects (frame :: frames) windows next) (hframe : frame.onStack = none) :
    Ready effects frames windows next where
  placed := h.placed.pop hframe
  stacked := h.stacked.2
  found other hother := h.found other (List.mem_cons_of_mem _ hother)
  expected id hid := h.expected id hid.cons

theorem Ready.push (h : Ready effects frames windows next) (hframe : frame.onStack = none)
    (hexpects : frame.expects = ∅) (hfound : frame.found = true) (hsits : frame.Sits frames.head?)
    (hflush : frame.isFlush = true → ∀ id ∈ taken frames, windows id = none) :
    Ready effects (frame :: frames) windows next where
  placed := h.placed.push hframe hflush
  stacked := ⟨hsits, h.stacked⟩
  found other hother := by
    rcases List.mem_cons.mp hother with rfl | hother
    · exact hfound
    · exact h.found other hother
  expected id hid := h.expected id ((expected_cons hexpects).mp hid)

theorem Ready.take {next' : WindowId} (h : Ready effects frames windows next)
    (hframe : frame.onStack = some id) (hexpects : frame.expects = ∅) (hfound : frame.found = true)
    (hsits : frame.Sits frames.head?) (hflush : frame.isFlush = false) (hid : id ∉ taken frames)
    (hnext : next ≤ next') (hlt : id < next') :
    Ready effects (frame :: frames) (Function.update windows id (some .onStack)) next' where
  placed := h.placed.take hframe hflush hid hnext hlt
  stacked := ⟨hsits, h.stacked⟩
  found other hother := by
    rcases List.mem_cons.mp hother with rfl | hother
    · exact hfound
    · exact h.found other hother
  expected other hother := by
    by_cases heq : other = id
    · rw [heq, Function.update_self]
      rfl
    · rw [Function.update_of_ne heq]
      exact h.expected other ((expected_cons hexpects).mp hother)

/-- An update leaves its window, which goes back to the slot, or is dropped if no flush
expects it. -/
theorem Ready.leave {slot : Option WindowSlot} (h : Ready effects (frame :: frames) windows next)
    (hframe : frame.onStack = some id) (hslot : slot ≠ some .onStack)
    (hdrop : slot = none → ¬ Expected effects frames id) :
    Ready effects frames (Function.update windows id slot) next where
  placed := h.placed.leave hframe hslot
  stacked := h.stacked.2
  found other hother := h.found other (List.mem_cons_of_mem _ hother)
  expected other hother := by
    by_cases heq : other = id
    · rw [heq] at hother
      rw [heq, Function.update_self]
      cases slot with
      | none => exact absurd hother (hdrop rfl)
      | some slot => rfl
    · rw [Function.update_of_ne heq]
      exact h.expected other hother.cons

theorem Ready.drop (h : Ready effects frames windows next) (hid : id ∉ taken frames)
    (hlt : id < next) (hdrop : ¬ Expected effects frames id) :
    Ready effects frames (Function.update windows id none) next where
  placed := h.placed.setSlot hid hlt (by simp)
  stacked := h.stacked
  found := h.found
  expected other hother := by
    have hne : other ≠ id := fun heq => hdrop (heq ▸ hother)
    rw [Function.update_of_ne hne]
    exact h.expected other hother

theorem Ready.leave_dropped (h : Ready effects (frame :: frames) windows next)
    (hframe : frame.onStack = some id) (hid : windows id = none) :
    Ready effects frames windows next where
  placed := h.placed.leave_dropped hframe hid
  stacked := h.stacked.2
  found other hother := h.found other (List.mem_cons_of_mem _ hother)
  expected other hother := h.expected other hother.cons

/-- What is on top goes on, and expects no more than it did. -/
theorem Ready.exchange {frame' : WindowFrame} (h : Ready effects (frame :: frames) windows next)
    (hframe : frame'.onStack = frame.onStack) (hexpects : frame'.expects ⊆ frame.expects)
    (hfound : frame'.found = true) (hsits : frame'.Sits frames.head?)
    (hflush : frame'.isFlush = false) :
    Ready effects (frame' :: frames) windows next where
  placed := h.placed.exchange hframe hflush
  stacked := ⟨hsits, h.stacked.2⟩
  found other hother := by
    rcases List.mem_cons.mp hother with rfl | hother
    · exact hfound
    · exact h.found other (List.mem_cons_of_mem _ hother)
  expected id hid := by
    rcases hid with heffect | ⟨other, hother, hid⟩
    · exact h.expected id (Or.inl heffect)
    · rcases List.mem_cons.mp hother with rfl | hother
      · exact h.expected id (Or.inr ⟨frame, List.mem_cons_self, hexpects hid⟩)
      · exact h.expected id (Or.inr ⟨other, List.mem_cons_of_mem _ hother, hid⟩)

/-- **A flush that visits a window finds it.**  It is expected, so it is still there; and
what is under way below the flush has no window that is still there. -/
theorem Ready.present (h : Ready effects (frame :: frames) windows next)
    (hvisits : frame.visits = true) (hid : id ∈ frame.expects) : windows id = some .present := by
  have hsome := h.expected id (Or.inr ⟨frame, List.mem_cons_self, hid⟩)
  cases hslot : windows id with
  | none =>
    rw [hslot] at hsome
    cases hsome
  | some slot =>
    cases slot with
    | present => rfl
    | onStack =>
      obtain ⟨top, hhead, hflush⟩ := h.stacked.1.visits hvisits
      cases frames with
      | nil => cases hhead
      | cons other rest =>
        obtain rfl : other = top := Option.some.inj hhead
        have hframe : frame.onStack = none := by
          cases frame <;> first | rfl | cases hvisits
        have htop : other.onStack = none := by
          cases other <;> first | rfl | cases hflush
        have hmem := h.placed.empty id hslot
        rw [taken_cons_none hframe, taken_cons_none htop] at hmem
        obtain ⟨below, hbelow, hstack⟩ := mem_taken.mp hmem
        have hdropped := (List.pairwise_cons.mp (List.pairwise_cons.mp h.placed.dropped).2).1
          below hbelow hflush id hstack
        rw [hslot] at hdropped
        cases hdropped

end WindowFrame

namespace WindowedApp

open WindowFrame

variable {s s' : WindowedApp} {act : WindowAct}

/-- The window that is closed when the update on top ends. -/
def closing (s : WindowedApp) : Option WindowId :=
  match s.frames with
  | .window id :: _ => if (s.window id).removed then some id else none
  | .opening id .creating :: _ => some id
  | _ => none

variable {id : WindowId} {rest : List WindowFrame}

theorem closing_window (h : s.frames = .window id :: rest) :
    s.closing = if (s.window id).removed then some id else none := by
  rw [closing, h]

theorem closing_creating (h : s.frames = .opening id .creating :: rest) : s.closing = some id := by
  rw [closing, h]

/-- Windows are closed only if nobody expects them any more: no effect in the queue
remembers them, and no flush is going to update them.  An entity is not created in the
update of a window that a shutdown has dropped. -/
def KeepsExpected (s : WindowedApp) : WindowAct → Prop
  | .endWindow | .windowFailed => ∀ id ∈ s.closing, ¬ Expected s.pendingEffects s.frames id
  | .blurWindow id =>
    (s.window id).removed = true → ¬ Expected s.pendingEffects s.frames.tail id
  | .clearWindows =>
    (∀ effect ∈ s.pendingEffects, effect.remembers = none) ∧ ∀ frame ∈ s.frames, frame.expects = ∅
  | .endNewEntity => ∀ id ∈ s.windowUpdateStack.head?, (s.windows id).isSome
  | _ => True

instance KeepsExpected.decidable (s : WindowedApp) : ∀ act : WindowAct, Decidable (s.KeepsExpected act)
  | .endWindow | .windowFailed =>
    inferInstanceAs (Decidable (∀ id ∈ s.closing, ¬ ((∃ effect ∈ s.pendingEffects,
      effect.remembers = some id) ∨ ∃ frame ∈ s.frames, id ∈ frame.expects)))
  | .blurWindow id =>
    inferInstanceAs (Decidable ((s.window id).removed = true → ¬ ((∃ effect ∈ s.pendingEffects,
      effect.remembers = some id) ∨ ∃ frame ∈ s.frames.tail, id ∈ frame.expects)))
  | .clearWindows =>
    inferInstanceAs (Decidable ((∀ effect ∈ s.pendingEffects, effect.remembers = none) ∧
      ∀ frame ∈ s.frames, frame.expects = ∅))
  | .endNewEntity => inferInstanceAs (Decidable (∀ id ∈ s.windowUpdateStack.head?, (s.windows id).isSome))
  | .pushEffect _ | .newEntityObserver _ | .newFocusHandle | .cloneFocusHandle _ | .dropFocusHandle _
  | .removeWindow _ | .setFocus _ _ _ _ | .startUpdate | .finishUpdate | .newEntity _ _ | .updateWindow _
  | .openWindow | .windowCreated | .rootBuilt | .windowOpened | .shutdown | .popEffect | .endHandler
  | .visitObserver | .returnObserver | .endCreated | .releaseFocus _ | .endReleaseFocus | .unwrap | .endFlush =>
    isTrue trivial

/-- The flushes have found the windows they expected. -/
def Found (s : WindowedApp) : Prop :=
  s.panicked ≠ some .windowsOnTheStack ∧ s.panicked ≠ some .focusWindowNotFound

/-- What every step under the condition keeps. -/
structure Expecting (s : WindowedApp) : Prop where
  counted : s.Counted
  ready : Ready s.pendingEffects s.frames s.windows s.nextWindowId
  found : s.Found

theorem expecting_new : new.Expecting where
  counted := counted_new
  ready := ready_nil
  found := ⟨by decide, by decide⟩

theorem Quiet.remembers (hq : s.Quiet s') : ∀ effect ∈ s'.pendingEffects, ∀ id,
    effect.remembers = some id → ∃ effect ∈ s.pendingEffects, effect.remembers = some id := by
  intro effect heffect id hid
  cases effect with
  | entityCreated entity tid window => exact ⟨_, hq.created entity tid window heffect, hid⟩
  | _ => cases hid

theorem ready_quiet (h : Ready s.pendingEffects s.frames s.windows s.nextWindowId) (hq : s.Quiet s') :
    Ready s'.pendingEffects s'.frames s'.windows s'.nextWindowId := by
  rw [hq.frames, hq.windows, hq.next]
  exact h.fewer hq.remembers

theorem ready_enter (h : Ready s.pendingEffects s.frames s.windows s.nextWindowId)
    (hcode : s.runsCode = true) (hs : s.enter act = some s') :
    Ready s'.pendingEffects s'.frames s'.windows s'.nextWindowId := by
  have hplain : ∀ frame : WindowFrame, frame.onStack = none → frame.expects = ∅ → frame.found = true →
      frame.visits = false → frame.isFlush = false →
      Ready s.pendingEffects (frame :: s.frames) s.windows s.nextWindowId := by
    intro frame hframe hexpects hfound hvisits hflush
    exact h.push hframe hexpects hfound (sits_of_runsCode hcode hvisits) (by simp [hflush])
  unfold enter at hs
  split at hs
  · cases hs
    exact hplain _ rfl rfl rfl rfl rfl
  · cases hs
    exact hplain _ rfl rfl rfl rfl rfl
  · rename_i id
    cases hs
    unfold updateWindowId
    split
    · rename_i hpresent
      exact h.take rfl rfl rfl (sits_of_runsCode hcode rfl) rfl (h.placed.filled id hpresent) le_rfl
        (h.placed.windows_lt id (by rw [hpresent]; rfl))
    · exact hplain _ rfl rfl rfl rfl rfl
  · cases hs
    exact h.take rfl rfl rfl (sits_of_runsCode hcode rfl) rfl
      (fun hmem => lt_irrefl _ (h.placed.taken_lt _ hmem)) (Nat.le_succ _) (Nat.lt_succ_self _)
  · cases hs
    exact hplain _ rfl rfl rfl rfl rfl
  · cases hs

theorem isUpdate_of_onStack {frame : WindowFrame} (h : frame.onStack = some id) : frame.isUpdate = true := by
  cases frame <;> first | rfl | cases h

theorem Counted.taken_of_outermost (hs : s.Counted) {frame : WindowFrame}
    (hframes : s.frames = frame :: rest) (hframe : frame.control = some .update)
    (houtermost : s.flushingEffects = false ∧ s.pendingUpdates = 1) : taken rest = [] := by
  obtain ⟨hoff, hone⟩ := houtermost
  have hcontrols : s.controls = .update :: rest.filterMap WindowFrame.control := by
    rw [controls, hframes, List.filterMap_cons, hframe]
  obtain ⟨hupdates, hflushing, -⟩ := hs
  rw [hcontrols, List.count_cons_of_ne (by decide), hoff] at hflushing
  rw [hcontrols, List.count_cons_self, List.count_cons_of_ne (by decide), hone] at hupdates
  have hnoflush : (rest.filterMap WindowFrame.control).count .flush = 0 := hflushing
  have hnoupdate : (rest.filterMap WindowFrame.control).count .update = 0 := by omega
  refine List.filterMap_eq_nil_iff.mpr fun below hbelow => ?_
  cases hid : below.onStack with
  | none => rfl
  | some id =>
    rcases isUpdate_iff.mp (isUpdate_of_onStack hid) with hcontrol | hcontrol
    · exact absurd (List.mem_filterMap.mpr ⟨below, hbelow, hcontrol⟩) (List.count_eq_zero.mp hnoupdate)
    · exact absurd (List.mem_filterMap.mpr ⟨below, hbelow, hcontrol⟩) (List.count_eq_zero.mp hnoflush)

theorem ready_finishUpdate (hs : s.Counted)
    (h : Ready s.pendingEffects s.frames s.windows s.nextWindowId) {frame : WindowFrame}
    (hframes : s.frames = frame :: rest)
    (hframe : frame.control = some .update) (honStack : frame.onStack = none) :
    Ready (s.finishUpdate rest).pendingEffects (s.finishUpdate rest).frames
      (s.finishUpdate rest).windows (s.finishUpdate rest).nextWindowId := by
  have hrest : Ready s.pendingEffects rest s.windows s.nextWindowId := by
    rw [hframes] at h
    exact h.pop honStack
  unfold finishUpdate
  split
  · rename_i houtermost
    refine hrest.push rfl rfl rfl (sits_flush _) fun _ id hid => ?_
    rw [hs.taken_of_outermost hframes hframe houtermost] at hid
    exact absurd hid List.not_mem_nil
  · exact hrest

/-- A window that a shutdown has dropped is not expected by the visit below. -/
theorem ready_notFound (hid : s.windows id = none)
    (h : Ready s.pendingEffects (.window id :: rest) s.windows s.nextWindowId) : notFound rest = rest := by
  unfold notFound
  split
  · rename_i other retaining found rest
    exfalso
    have hother : other = id := by
      rcases h.stacked.1.updates other retaining found rfl with h | h | h | h
      · exact (WindowFrame.window.inj h).symm
      · cases h
      · cases h
      · cases h
    have hsome := h.expected other (Or.inr ⟨.created (some other) retaining found,
      List.mem_cons_of_mem _ List.mem_cons_self, Finset.mem_singleton_self other⟩)
    rw [hother, hid] at hsome
    cases hsome
  · rfl

theorem ready_endWindow (h : Ready s.pendingEffects (.window id :: rest) s.windows s.nextWindowId)
    (hcond : (s.window id).removed = true → ¬ Expected s.pendingEffects rest id) :
    Ready (s.endWindow id rest).pendingEffects (s.endWindow id rest).frames
      (s.endWindow id rest).windows (s.endWindow id rest).nextWindowId := by
  unfold endWindow
  split
  · rename_i hremoved
    exact (h.leave rfl (by simp) fun _ => hcond hremoved).push rfl rfl rfl (sits_closed _)
      (fun hflush => by cases hflush)
  · unfold putBack
    split
    · exact (h.leave rfl (by simp) (fun hslot => by cases hslot)).push rfl rfl rfl (sits_ended _)
        (fun hflush => by cases hflush)
    · rename_i hid
      show Ready s.pendingEffects (.ended :: notFound rest) s.windows s.nextWindowId
      rw [ready_notFound hid h]
      exact (h.leave_dropped rfl hid).push rfl rfl rfl (sits_ended _) (fun hflush => by cases hflush)

theorem ready_proceed (hs : s.Counted)
    (h : Ready s.pendingEffects s.frames s.windows s.nextWindowId) {frame : WindowFrame}
    (hframes : s.frames = frame :: rest) (hcond : s.KeepsExpected act)
    (hp : s.proceed rest frame act = some s') :
    Ready s'.pendingEffects s'.frames s'.windows s'.nextWindowId := by
  have htop := h
  rw [hframes] at htop
  unfold proceed at hp
  split at hp
  iterate 3
    cases hp
    exact ready_finishUpdate hs h hframes rfl rfl
  · rename_i entity tid
    cases hp
    have hended : Ready s.pendingEffects (.ended :: rest) s.windows s.nextWindowId :=
      (htop.pop rfl).push rfl rfl rfl (sits_ended _) (fun hflush => by cases hflush)
    refine ⟨hended.placed, hended.stacked, hended.found, fun id hid => ?_⟩
    rcases hid with ⟨effect, heffect, hid⟩ | hid
    · rcases List.mem_append.mp heffect with heffect | heffect
      · exact hended.expected id (Or.inl ⟨effect, heffect, hid⟩)
      · rw [List.mem_singleton.mp heffect] at hid
        exact hcond id hid
    · exact hended.expected id (Or.inr hid)
  · rename_i id
    cases hp
    refine ready_endWindow htop fun hremoved hid => ?_
    have hclosing : s.closing = some id := (closing_window hframes).trans (if_pos hremoved)
    exact hcond id hclosing (hframes ▸ hid.cons)
  · rename_i id
    cases hp
    have hclosing : s.closing = some id := closing_creating hframes
    exact (htop.leave rfl (by simp) fun _ hid => hcond id hclosing (hframes ▸ hid.cons)).push rfl rfl
      rfl (sits_ended _) (fun hflush => by cases hflush)
  · rename_i id
    cases hp
    exact htop.exchange rfl (Finset.Subset.refl _) rfl (htop.stacked.1.exchange (by simp) rfl) rfl
  · rename_i id
    cases hp
    have hdrawing : Ready s.pendingEffects (.opening id .drawing :: rest) s.windows s.nextWindowId :=
      htop.exchange rfl (Finset.Subset.refl _) rfl (htop.stacked.1.exchange (by simp) rfl) rfl
    refine hdrawing.fewer ?_
    intro effect heffect other hother
    rcases List.mem_append.mp heffect with heffect | heffect
    · exact ⟨effect, heffect, hother⟩
    · rw [List.mem_singleton.mp heffect] at hother
      cases hother
  · rename_i id
    cases hp
    unfold windowOpened
    split
    · exact (htop.leave rfl (by simp) (fun hslot => by cases hslot)).push rfl rfl rfl (sits_ended _)
        (fun hflush => by cases hflush)
    · exact h
  · cases hp
    obtain ⟨hqueue, hexpects⟩ := hcond
    have hrest := htop.pop rfl
    refine ⟨hrest.placed.clear.push rfl fun _ _ _ => rfl,
      ⟨htop.stacked.1.exchange (by simp) rfl, hrest.stacked⟩, ?_, fun id hid => ?_⟩
    · rintro other (_ | ⟨_, hother⟩)
      · rfl
      · exact hrest.found other hother
    · rcases hid with ⟨effect, heffect, hid⟩ | ⟨other, hother, hid⟩
      · rw [hqueue effect heffect] at hid
        cases hid
      · rcases List.mem_cons.mp hother with rfl | hother
        · exact absurd hid (Finset.notMem_empty id)
        · rw [hexpects other (hframes ▸ List.mem_cons_of_mem _ hother)] at hid
          exact absurd hid (Finset.notMem_empty id)
  · cases hp

theorem ready_blurWindow {focus : FocusId} {remaining : Finset WindowId} (hid : id ∈ remaining)
    (h : Ready s.pendingEffects (.releaseFocus focus remaining true :: rest) s.windows s.nextWindowId)
    (hcond : (s.window id).removed = true → ¬ Expected s.pendingEffects rest id) :
    Ready (s.blurWindow focus remaining id rest).pendingEffects
      (s.blurWindow focus remaining id rest).frames (s.blurWindow focus remaining id rest).windows
      (s.blurWindow focus remaining id rest).nextWindowId := by
  have hpresent := h.present rfl hid
  have hquiet := s.quiet_blurFocused focus id
  have herased : Ready s.pendingEffects (.releaseFocus focus (remaining.erase id) true :: rest)
      s.windows s.nextWindowId :=
    h.exchange rfl (Finset.erase_subset id remaining) rfl (h.stacked.1.visit rfl _) rfl
  have hvisited := herased.fewer hquiet.remembers
  unfold blurWindow
  rw [hpresent]
  show Ready (ite _ _ _ : WindowedApp).pendingEffects _ _ _
  split
  · rename_i hremoved
    show Ready (s.blurFocused focus id).pendingEffects
      (.closed :: .releaseFocus focus (remaining.erase id) true :: rest)
      (Function.update (s.blurFocused focus id).windows id none) (s.blurFocused focus id).nextWindowId
    rw [hquiet.windows, hquiet.next]
    have hdrop : ¬ Expected (s.blurFocused focus id).pendingEffects
        (.releaseFocus focus (remaining.erase id) true :: rest) id := by
      rintro (⟨effect, heffect, hremembers⟩ | ⟨other, hother, hexpects⟩)
      · exact hcond hremoved (Or.inl (hquiet.remembers effect heffect id hremembers))
      · rcases List.mem_cons.mp hother with rfl | hother
        · exact Finset.notMem_erase id remaining hexpects
        · exact hcond hremoved (Or.inr ⟨other, hother, hexpects⟩)
    exact (hvisited.drop (herased.placed.filled id hpresent)
      (h.placed.windows_lt id (by rw [hpresent]; rfl)) hdrop).push rfl rfl rfl (sits_closed _)
      (fun hflush => by cases hflush)
  · show Ready (s.blurFocused focus id).pendingEffects
      (.ended :: .releaseFocus focus (remaining.erase id) true :: rest)
      (s.blurFocused focus id).windows (s.blurFocused focus id).nextWindowId
    rw [hquiet.windows, hquiet.next]
    exact hvisited.push rfl rfl rfl (sits_ended _) (fun hflush => by cases hflush)

theorem ready_callObserver {window : Option WindowId} (hframes : s.frames = .created window true true :: rest)
    (h : Ready s.pendingEffects (.created window true true :: rest) s.windows s.nextWindowId) :
    Ready (s.callObserver window rest).pendingEffects (s.callObserver window rest).frames
      (s.callObserver window rest).windows (s.callObserver window rest).nextWindowId := by
  unfold callObserver
  split
  · rename_i id _
    have hpresent : s.windows id = some .present := h.present rfl (Finset.mem_singleton_self id)
    have hid : id ∉ taken (.created (some id) true true :: rest) := h.placed.filled id hpresent
    rw [hpresent]
    simp only [updateWindowId, hpresent]
    have hsits : (WindowFrame.window id).Sits (some (.created (some id) true true)) := by
      refine ⟨fun hvisits => (by cases hvisits), fun other retaining found hbelow => ?_⟩
      cases hbelow
      exact Or.inl rfl
    exact h.take rfl rfl rfl hsits rfl hid le_rfl
      (h.placed.windows_lt id (by rw [hpresent]; rfl))
  · rw [hframes]
    exact h

theorem ready_applyEffect {frame : WindowFrame} {effect : Effect}
    (hframes : s.frames = frame :: rest) (hflush : frame.isFlush = true)
    (h : Ready (effect :: s.pendingEffects) s.frames s.windows s.nextWindowId)
    (ha : s.applyEffect effect = some s') : Ready s'.pendingEffects s'.frames s'.windows s'.nextWindowId := by
  have hrest : Ready s.pendingEffects s.frames s.windows s.nextWindowId :=
    h.fewer fun effect heffect id hid => ⟨effect, List.mem_cons_of_mem _ heffect, hid⟩
  have hsits : ∀ above : WindowFrame, above.Sits s.frames.head? := by
    intro above
    rw [hframes]
    exact Sits.of_flush above hflush
  unfold applyEffect at ha
  split at ha
  · rename_i entity tid window
    obtain ⟨observers, -, rfl⟩ := Option.map_eq_some_iff.mp ha
    refine ⟨hrest.placed.push rfl (fun hflush => by cases hflush), ⟨hsits _, hrest.stacked⟩, ?_, ?_⟩
    · rintro other (_ | ⟨_, hother⟩)
      · rfl
      · exact hrest.found other hother
    · intro id hid
      rcases hid with heffect | ⟨other, hother, hid⟩
      · exact hrest.expected id (Or.inl heffect)
      · rcases List.mem_cons.mp hother with rfl | hother
        · cases window with
          | none => exact absurd hid (Finset.notMem_empty id)
          | some window =>
            rw [Finset.mem_singleton.mp hid]
            exact h.expected window (Or.inl ⟨_, List.mem_cons_self, rfl⟩)
        · exact hrest.expected id (Or.inr ⟨other, hother, hid⟩)
  · cases ha
    have hpush := hrest.push rfl rfl rfl (hsits .handler) (fun hflush => by cases hflush)
    unfold unpend
    split
    · exact hpush
    · exact hpush

theorem ready_flush (h : Ready s.pendingEffects s.frames s.windows s.nextWindowId) {frame : WindowFrame}
    (hframes : s.frames = frame :: rest) (hcond : s.KeepsExpected act)
    (hf : s.flush rest frame act = some s') : Ready s'.pendingEffects s'.frames s'.windows s'.nextWindowId := by
  have htop := h
  rw [hframes] at htop
  unfold flush at hf
  split at hf
  · cases hf
    exact htop.pop rfl
  · obtain ⟨observers, -, rfl⟩ := Option.map_eq_some_iff.mp hf
    exact ready_callObserver hframes htop
  · obtain ⟨observers, -, rfl⟩ := Option.map_eq_some_iff.mp hf
    exact h
  · unfold endCreated at hf
    split at hf
    · obtain ⟨observers, -, rfl⟩ := Option.map_eq_some_iff.mp hf
      exact htop.pop rfl
    · cases hf
      exact htop.pop rfl
  · cases htop.found _ List.mem_cons_self
  · split at hf
    · rename_i hid
      cases hf
      refine ready_blurWindow hid htop fun hremoved hexpected => hcond hremoved ?_
      rw [hframes]
      exact hexpected
    · cases hf
  · split at hf
    · cases hf
      exact htop.pop rfl
    · cases hf
  · cases htop.found _ List.mem_cons_self
  · split at hf
    · cases hf
      exact htop.pop rfl
    · cases hf
  · split at hf
    · cases hf
      exact htop.pop rfl
    · cases hf
  · split at hf
    · rename_i effect effects hflush heffects
      refine ready_applyEffect (s := { s with pendingEffects := effects }) hframes hflush ?_ hf
      show Ready (effect :: effects) s.frames s.windows s.nextWindowId
      rw [← heffects]
      exact h
    · cases hf
  · split at hf
    · rename_i hflush
      cases hf
      rw [← hframes]
      refine ⟨h.placed.push rfl (fun hflush => by cases hflush), ⟨?_, h.stacked⟩, ?_, ?_⟩
      · rw [hframes]
        exact Sits.of_flush _ hflush.1
      · rintro other (_ | ⟨_, hother⟩)
        · rfl
        · exact h.found other hother
      · intro id hid
        rcases hid with heffect | ⟨other, hother, hid⟩
        · exact h.expected id (Or.inl heffect)
        · rcases List.mem_cons.mp hother with rfl | hother
          · exact (Finset.mem_filter.mp hid).2
          · exact h.expected id (Or.inr ⟨other, hother, hid⟩)
    · cases hf
  · cases hf

theorem found_of_panicked (h : s.panicked = none) : s.Found := by
  rw [Found, h]
  exact ⟨by decide, by decide⟩

theorem panicked_enter (hs : s.enter act = some s') : s'.panicked = s.panicked := by
  unfold enter at hs
  split at hs
  · cases hs
    rfl
  · cases hs
    rfl
  · cases hs
    unfold updateWindowId
    split <;> rfl
  · cases hs
    rfl
  · cases hs
    rfl
  · cases hs

theorem found_proceed (hpanicked : s.panicked = none) {frame : WindowFrame}
    (hp : s.proceed rest frame act = some s') : s'.Found := by
  unfold proceed at hp
  split at hp
  iterate 3
    cases hp
    unfold finishUpdate
    split
    · exact found_of_panicked hpanicked
    · exact found_of_panicked hpanicked
  · cases hp
    exact found_of_panicked hpanicked
  · cases hp
    unfold endWindow
    split
    · exact found_of_panicked hpanicked
    · unfold putBack
      split
      · exact found_of_panicked hpanicked
      · exact found_of_panicked hpanicked
  · cases hp
    exact found_of_panicked hpanicked
  · cases hp
    exact found_of_panicked hpanicked
  · cases hp
    exact found_of_panicked hpanicked
  · cases hp
    unfold windowOpened
    split
    · exact found_of_panicked hpanicked
    · exact ⟨by simp, by simp⟩
  · cases hp
    exact found_of_panicked hpanicked
  · cases hp

theorem found_flush (hpanicked : s.panicked = none) {frame : WindowFrame}
    (hframe : frame.found = true) (hf : s.flush rest frame act = some s') : s'.Found := by
  unfold flush at hf
  split at hf
  · cases hf
    exact found_of_panicked hpanicked
  · obtain ⟨observers, -, rfl⟩ := Option.map_eq_some_iff.mp hf
    unfold callObserver
    split
    · unfold updateWindowId
      split
      · exact found_of_panicked hpanicked
      · exact found_of_panicked hpanicked
    · exact found_of_panicked hpanicked
  · obtain ⟨observers, -, rfl⟩ := Option.map_eq_some_iff.mp hf
    exact found_of_panicked hpanicked
  · unfold endCreated at hf
    split at hf
    · obtain ⟨observers, -, rfl⟩ := Option.map_eq_some_iff.mp hf
      exact found_of_panicked hpanicked
    · cases hf
      exact found_of_panicked hpanicked
  · cases hframe
  · rename_i focus remaining id
    have hblurred : (s.blurFocused focus id).panicked = none :=
      (s.quiet_blurFocused focus id).panicked.trans hpanicked
    split at hf
    · cases hf
      unfold blurWindow
      split
      · split
        · exact found_of_panicked hblurred
        · exact found_of_panicked hblurred
      · exact found_of_panicked hpanicked
    · cases hf
  · split at hf
    · cases hf
      exact found_of_panicked hpanicked
    · cases hf
  · cases hframe
  · split at hf
    · cases hf
      exact found_of_panicked hpanicked
    · cases hf
  · split at hf
    · cases hf
      exact found_of_panicked hpanicked
    · cases hf
  · split at hf
    · unfold applyEffect at hf
      split at hf
      · obtain ⟨observers, -, rfl⟩ := Option.map_eq_some_iff.mp hf
        exact found_of_panicked hpanicked
      · cases hf
        unfold unpend
        split
        · exact found_of_panicked hpanicked
        · exact found_of_panicked hpanicked
    · cases hf
  · split at hf
    · cases hf
      exact found_of_panicked hpanicked
    · cases hf
  · cases hf

theorem Expecting.step (h : s.Expecting) (hcond : s.KeepsExpected act) (hs : s.step act = some s') :
    s'.Expecting := by
  obtain ⟨hpanicked, ⟨-, hclient⟩ | ⟨hcode, henter⟩ | ⟨frame, rest, hframes, hproceed | hflush⟩⟩ :=
    step_cases hs
  · have hquiet := quiet_client hclient
    exact ⟨h.counted.step hs, ready_quiet h.ready hquiet,
      found_of_panicked (hquiet.panicked.trans hpanicked)⟩
  · exact ⟨h.counted.step hs, ready_enter h.ready hcode henter,
      found_of_panicked ((panicked_enter henter).trans hpanicked)⟩
  · exact ⟨h.counted.step hs, ready_proceed h.counted h.ready hframes hcond hproceed,
      found_proceed hpanicked hproceed⟩
  · exact ⟨h.counted.step hs, ready_flush h.ready hframes hcond hflush,
      found_flush hpanicked (h.ready.found frame (hframes ▸ List.mem_cons_self)) hflush⟩

/-- **No flush misses a window** in a run that closes windows only when nobody expects
them any more. -/
theorem flush_finds_windows (as : List WindowAct) (h : RunMeets step KeepsExpected new as) :
    Throughout step Found new as :=
  run_throughout (fun _ _ _ h hcond hs => Expecting.step h hcond hs) (fun _ h => h.found) as
    expecting_new h

/-- A window is opened, and an entity is created in it. -/
def createInWindow : List WindowAct :=
  [.newEntityObserver (.insert 7 ()), .newEntityObserver (.activate 0), .openWindow, .windowCreated,
    .rootBuilt, .windowOpened, .finishUpdate, .popEffect, .endHandler, .endFlush, .updateWindow 0,
    .newEntity 5 7, .endNewEntity, .finishUpdate]

/-- Its observer is called, and the window is closed in a later update. -/
def closeLater : List WindowAct :=
  createInWindow ++ [.endWindow, .finishUpdate, .popEffect, .visitObserver, .endWindow,
    .finishUpdate, .returnObserver, .endCreated, .endFlush, .updateWindow 0, .removeWindow 0,
    .endWindow, .finishUpdate, .endFlush]

theorem flush_finds_windows_closeLater :
    (run step new closeLater).isSome ∧ Throughout step Found new closeLater :=
  ⟨by decide, flush_finds_windows _ (by decide)⟩

/-- The window is closed in the same update. -/
theorem flush_misses_closed_window : ¬ ∀ as, Throughout step Found new as := by
  intro h
  have hpanicked : (run step new (createInWindow ++ [.removeWindow 0, .endWindow, .finishUpdate,
      .popEffect, .visitObserver, .finishUpdate, .unwrap])).map WindowedApp.panicked =
      some (some .windowsOnTheStack) := by decide
  obtain ⟨s, hs, hpanic⟩ := Option.map_eq_some_iff.mp hpanicked
  exact ((h _).last _ hs).1 hpanic

end WindowedApp

end FcGpui

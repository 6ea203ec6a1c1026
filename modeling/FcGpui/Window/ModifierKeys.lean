import FcGpui.Keymap.Binding

/-!
# Standalone modifiers

`Window::dispatch_key_event` in `crates/gpui/src/window.rs` makes a keystroke of a modifier that is
pressed and released with nothing else in between.  It is told the modifiers that are held
whenever they change, and remembers the last ones together with a flag.

`StandaloneRun` is what the flag stands for: the events so far end with modifiers changed events,
each of one modifier, and before these no modifier was held.

**Main result.**  `dispatchKeyEvent_standalone_iff`: a keystroke is made exactly where the modifiers
are all released directly after such a run, and it is that of the last modifier.
-/

namespace FcGpui

/-- `Modifiers::number_of_modifiers`. -/
def Modifiers.numberOfModifiers (m : Modifiers) : Nat :=
  m.control.toNat + m.alt.toNat + m.shift.toNat + m.platform.toNat + m.function.toNat

/-- Of the events of the keyboard, those `dispatch_key_event` looks into. -/
inductive KeyboardEvent
  | modifiersChanged (modifiers : Modifiers)
  | keyDown (keystroke : Keystroke)
deriving DecidableEq

structure ModifierState where
  modifiers : Modifiers := {}
  sawOtherInput : Bool := false
deriving DecidableEq

namespace ModifierState

/-- The name of the modifier that is held. -/
def key (modifiers : Modifiers) : Option SharedString :=
  if modifiers.shift then some "shift".toList
  else if modifiers.control then some "control".toList
  else if modifiers.alt then some "alt".toList
  else if modifiers.platform then some "platform".toList
  else if modifiers.function then some "function".toList
  else none

/-- The keystroke of an event, as far as `dispatch_key_event` finds one, and what it remembers. -/
def dispatchKeyEvent (pending : ModifierState) : KeyboardEvent → Option Keystroke × ModifierState
  | .modifiersChanged modifiers =>
    let keystroke :=
      if modifiers.numberOfModifiers = 0 ∧ pending.modifiers.numberOfModifiers = 1
          ∧ pending.sawOtherInput = false then
        (key pending.modifiers).map fun key => ⟨{}, key, none⟩
      else none
    let sawOtherInput :=
      if pending.modifiers.numberOfModifiers = 0 ∧ modifiers.numberOfModifiers = 1 then false
      else if 1 < modifiers.numberOfModifiers then true
      else pending.sawOtherInput
    (keystroke, ⟨modifiers, sawOtherInput⟩)
  | .keyDown keystroke => (some keystroke, { pending with sawOtherInput := true })

/-- What is remembered after some events; a window begins with the default. -/
def after (events : List KeyboardEvent) : ModifierState :=
  events.foldl (fun pending event => (pending.dispatchKeyEvent event).2) {}

/-! ### What the events say -/

/-- The modifiers that were reported last; none is held at the beginning. -/
def held : List KeyboardEvent → Modifiers :=
  List.foldl (fun held event =>
    match event with
    | .modifiersChanged modifiers => modifiers
    | .keyDown _ => held) {}

/-- The modifier that is held alone, by its name. -/
inductive IsKey : Modifiers → SharedString → Prop
  | control : IsKey { control := true } "control".toList
  | alt : IsKey { alt := true } "alt".toList
  | shift : IsKey { shift := true } "shift".toList
  | platform : IsKey { platform := true } "platform".toList
  | function : IsKey { function := true } "function".toList

/-- The events end with a run of single modifiers, that began with none held; `last` is the last
of the run. -/
def StandaloneRun (events : List KeyboardEvent) (last : Modifiers) : Prop :=
  ∃ front run, events = front ++ (run ++ [last]).map .modifiersChanged ∧
    (∀ m ∈ run ++ [last], m.numberOfModifiers = 1) ∧ (held front).numberOfModifiers = 0

theorem isKey_iff {m : Modifiers} (h : m.numberOfModifiers = 1) (name : SharedString) :
    key m = some name ↔ IsKey m name := by
  obtain ⟨control, alt, shift, platform, function⟩ := m
  constructor
  · intro hname
    revert h hname
    cases control <;> cases alt <;> cases shift <;> cases platform <;> cases function <;>
      intro h hname <;> first | (exact absurd h (by decide)) | (cases hname; constructor)
  · intro hkey
    cases hkey <;> rfl

theorem after_concat (events : List KeyboardEvent) (event : KeyboardEvent) :
    after (events ++ [event]) = ((after events).dispatchKeyEvent event).2 := by
  rw [after, after, List.foldl_append]
  rfl

theorem held_changed (events : List KeyboardEvent) (m : Modifiers) :
    held (events ++ [.modifiersChanged m]) = m := by
  rw [held, List.foldl_append]
  rfl

theorem held_keyDown (events : List KeyboardEvent) (keystroke : Keystroke) :
    held (events ++ [.keyDown keystroke]) = held events := by
  rw [held, List.foldl_append]
  rfl

theorem StandaloneRun.held_eq {events : List KeyboardEvent} {last : Modifiers}
    (h : StandaloneRun events last) : held events = last := by
  obtain ⟨front, run, rfl, -, -⟩ := h
  rw [List.map_append, ← List.append_assoc]
  exact held_changed _ last

theorem not_standaloneRun_keyDown (events : List KeyboardEvent) (keystroke : Keystroke)
    (last : Modifiers) : ¬ StandaloneRun (events ++ [.keyDown keystroke]) last := by
  rintro ⟨front, run, heq, -, -⟩
  rw [List.map_append, ← List.append_assoc] at heq
  obtain ⟨-, heq⟩ := List.append_inj' heq rfl
  cases heq

/-- **A run goes on with single modifiers**, and begins where none is held. -/
theorem standaloneRun_changed_iff (events : List KeyboardEvent) (m : Modifiers) :
    StandaloneRun (events ++ [.modifiersChanged m]) m ↔ m.numberOfModifiers = 1 ∧
      ((held events).numberOfModifiers = 0 ∨ StandaloneRun events (held events)) := by
  constructor
  · rintro ⟨front, run, heq, hsingle, hheld⟩
    rw [List.map_append, ← List.append_assoc] at heq
    obtain ⟨rfl, -⟩ := List.append_inj' heq rfl
    refine ⟨hsingle m (by simp), ?_⟩
    rcases List.eq_nil_or_concat' run with rfl | ⟨run, last, rfl⟩
    · left
      rw [List.map_nil, List.append_nil]
      exact hheld
    · right
      have hrun : StandaloneRun (front ++ (run ++ [last]).map .modifiersChanged) last :=
        ⟨front, run, rfl, fun m' hm' => hsingle m' (List.mem_append_left _ hm'), hheld⟩
      rw [hrun.held_eq]
      exact hrun
  · rintro ⟨hm, hheld | ⟨front, run, heq, hsingle, hheld⟩⟩
    · refine ⟨events, [], rfl, fun m' hm' => ?_, hheld⟩
      obtain rfl : m' = m := List.mem_singleton.mp hm'
      exact hm
    · refine ⟨front, run ++ [held events], ?_, fun m' hm' => ?_, hheld⟩
      · rw [List.map_append, ← List.append_assoc, ← heq]
        rfl
      · rcases List.mem_append.mp hm' with hm' | hm'
        · exact hsingle m' hm'
        · obtain rfl : m' = m := List.mem_singleton.mp hm'
          exact hm

/-- What is remembered, against the events: the modifiers are those held; more than one is other
input; and for one, the flag tells whether it stands in a run. -/
structure Remembers (events : List KeyboardEvent) (pending : ModifierState) : Prop where
  modifiers : pending.modifiers = held events
  several : 1 < (held events).numberOfModifiers → pending.sawOtherInput = true
  single : (held events).numberOfModifiers = 1 →
    (pending.sawOtherInput = false ↔ StandaloneRun events (held events))

/-- **One event.** -/
theorem Remembers.step {events : List KeyboardEvent} {pending : ModifierState}
    (h : Remembers events pending) (event : KeyboardEvent) :
    Remembers (events ++ [event]) (pending.dispatchKeyEvent event).2 := by
  cases event with
  | keyDown keystroke =>
    refine ⟨?_, fun _ => rfl, fun _ => ⟨nofun, fun hrun => ?_⟩⟩
    · rw [held_keyDown]
      exact h.modifiers
    · exact absurd hrun (not_standaloneRun_keyDown events keystroke _)
  | modifiersChanged m =>
    have hpending := h.modifiers
    refine ⟨?_, fun hm => ?_, fun hm => ?_⟩ <;> rw [held_changed] at *
    · rfl
    · show (if _ then false else if 1 < m.numberOfModifiers then true else _) = true
      rw [if_neg (fun h => absurd h.2 (by omega)), if_pos hm]
    · rw [standaloneRun_changed_iff]
      show (if pending.modifiers.numberOfModifiers = 0 ∧ m.numberOfModifiers = 1 then false
        else if 1 < m.numberOfModifiers then true else pending.sawOtherInput) = false ↔ _
      rw [hpending]
      rcases Nat.lt_trichotomy (held events).numberOfModifiers 1 with hlt | hone | hmany
      · have hzero : (held events).numberOfModifiers = 0 := by omega
        rw [if_pos ⟨hzero, hm⟩]
        exact ⟨fun _ => ⟨hm, Or.inl hzero⟩, fun _ => rfl⟩
      · rw [if_neg (fun h => absurd h.1 (by omega)), if_neg (by omega), h.single hone]
        exact ⟨fun hrun => ⟨hm, Or.inr hrun⟩, fun hrun => hrun.2.resolve_left (by omega)⟩
      · rw [if_neg (fun h => absurd h.1 (by omega)), if_neg (by omega), h.several hmany]
        refine ⟨nofun, fun hrun => ?_⟩
        rcases hrun.2 with hzero | ⟨front, run, -, hsingle, -⟩
        · omega
        · have := hsingle (held events) (by simp)
          omega

/-- **Any number of events.** -/
theorem remembers_after (events : List KeyboardEvent) : Remembers events (after events) := by
  induction events using List.reverseRecOn with
  | nil => exact ⟨rfl, fun h => absurd h (by decide), fun h => absurd h (by decide)⟩
  | append_singleton events event ih =>
    rw [after_concat]
    exact ih.step event

/-- **A modifier makes a keystroke of its own exactly if it stands alone**: all modifiers are
released, directly after a run of single modifiers that began with none held.  The keystroke is
that of the modifier reported last. -/
theorem dispatchKeyEvent_standalone_iff (events : List KeyboardEvent) (modifiers : Modifiers)
    (keystroke : Keystroke) :
    ((after events).dispatchKeyEvent (.modifiersChanged modifiers)).1 = some keystroke ↔
      modifiers.numberOfModifiers = 0 ∧ ∃ last name, StandaloneRun events last ∧ IsKey last name ∧
        keystroke = ⟨{}, name, none⟩ := by
  have hremembers := remembers_after events
  have hheld := hremembers.modifiers
  rw [show ((after events).dispatchKeyEvent (.modifiersChanged modifiers)).1 =
    if modifiers.numberOfModifiers = 0 ∧ (after events).modifiers.numberOfModifiers = 1
      ∧ (after events).sawOtherInput = false then
      (key (after events).modifiers).map fun key => ⟨{}, key, none⟩
    else none from rfl, hheld, Option.ite_none_right_eq_some, Option.map_eq_some_iff]
  constructor
  · rintro ⟨⟨hreleased, hone, hsaw⟩, name, hname, rfl⟩
    exact ⟨hreleased, held events, name, (hremembers.single hone).mp hsaw,
      (isKey_iff hone name).mp hname, rfl⟩
  · rintro ⟨hreleased, last, name, hrun, hname, rfl⟩
    obtain rfl := hrun.held_eq
    obtain ⟨front, run, -, hsingle, -⟩ := id hrun
    have hone := hsingle (held events) (by simp)
    exact ⟨⟨hreleased, hone, (hremembers.single hone).mpr hrun⟩, name,
      (isKey_iff hone name).mpr hname, rfl⟩

/-- Control is pressed while shift is held and shift released first: the keystroke is control. -/
example : ((after [.modifiersChanged { shift := true }, .modifiersChanged { control := true }]).dispatchKeyEvent
    (.modifiersChanged {})).1 = some ⟨{}, "control".toList, none⟩ := by decide

end ModifierState

end FcGpui

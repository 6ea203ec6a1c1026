import FcGpui.Window.PendingInput

/-!
# Pending keystrokes and the focus

Every change of the focus clears the pending input of the window, but not the
keystrokes that a key event has taken out of it.  They are put back under
whatever focus there is then.

`Steady` is the condition on a step: a keystroke joins or becomes pending input
only while the focus is the one it was typed under.  `Clean` is what steady steps
keep: the pending input, and what each event will put back, was typed under one
focus, and the pending input under that of the window.

**Main result.**  `pending_one_focus`: in a run of steady steps, every input of
`dispatch_key` and `flush_dispatch` was typed under one focus.  `focus_mixed` is a
run where a replayed action moves the focus before the rest is put back.
-/

namespace FcGpui

/-- All of it was typed under one focus. -/
def OneFocus (input : List TypedKeystroke) : Prop :=
  ∀ a ∈ input, ∀ b ∈ input, a.typedUnder = b.typedUnder

instance (input : List TypedKeystroke) : Decidable (OneFocus input) :=
  inferInstanceAs (Decidable (∀ a ∈ input, ∀ b ∈ input, a.typedUnder = b.typedUnder))

namespace WindowInput

variable {P : Type}

/-- A keystroke joins pending input, or becomes pending input, only while the
focus is the one it was typed under. -/
def Steady (s : WindowInput P) : InputAct P → Prop
  | .dispatchKey =>
    match s.handling with
    | [] => True
    | event :: _ => s.pendingInput.isSome → s.focus = event.keystroke.typedUnder
  | .storePending =>
    match s.handling with
    | ⟨keystroke, _, .resolved result⟩ :: _ => result.pending ≠ [] → s.focus = keystroke.typedUnder
    | _ => True
  | _ => True

/-- The pending input was typed under the focus of the window. -/
def PendingClean (s : WindowInput P) : Prop :=
  ∀ pending, s.pendingInput = some pending → pending.keystrokes ≠ [] ∧ pending.focus = s.focus ∧
    ∀ keystroke ∈ pending.keystrokes, keystroke.typedUnder = s.focus

/-- What an event will put back was typed under the focus of the event. -/
def EventClean (event : KeyEvent P) : Prop :=
  ∀ result, event.phase = .resolved result →
    ∀ keystroke ∈ result.pending, keystroke.typedUnder = event.keystroke.typedUnder

/-- What every steady step keeps. -/
structure Clean (s : WindowInput P) : Prop where
  pending : s.PendingClean
  events : ∀ event ∈ s.handling, EventClean event
  inputs : ∀ input ∈ s.inputs, OneFocus input

theorem clean_new (focus : Option FocusId) (focusEnabled : Bool) (keymap : Keymap P) :
    (new focus focusEnabled keymap).Clean := by
  refine ⟨fun pending h => ?_, fun event h => ?_, fun input h => ?_⟩
  · cases h
  · exact absurd h List.not_mem_nil
  · exact absurd h List.not_mem_nil

theorem oneFocus_of_forall {input : List TypedKeystroke} {focus : Option FocusId}
    (h : ∀ keystroke ∈ input, keystroke.typedUnder = focus) : OneFocus input := by
  intro a ha b hb
  rw [h a ha, h b hb]

variable {s s' : WindowInput P}

/-- Without pending input, the focus is free to change. -/
theorem Clean.dropPending (h : s.Clean) (focus : Option FocusId) (focusEnabled : Bool) :
    Clean { s with focus := focus, focusEnabled := focusEnabled, pendingInput := none } := by
  refine ⟨fun pending hp => ?_, h.events, h.inputs⟩
  cases hp

theorem Clean.setFocus (h : s.Clean) (id : FocusId) : (s.setFocus id).Clean := by
  rw [WindowInput.setFocus]
  split
  · exact h
  · exact h.dropPending (some id) s.focusEnabled

theorem Clean.blur (h : s.Clean) : s.blur.Clean := by
  rw [WindowInput.blur]
  split
  · exact h.dropPending none s.focusEnabled
  · exact h.dropPending s.focus s.focusEnabled

theorem Clean.disableFocus (h : s.Clean) : s.disableFocus.Clean :=
  ⟨h.blur.pending, h.blur.events, h.blur.inputs⟩

theorem Clean.setHandling (h : s.Clean) {handling : List (KeyEvent P)}
    (hevents : ∀ event ∈ handling, EventClean event) : Clean { s with handling := handling } :=
  ⟨h.pending, hevents, h.inputs⟩

theorem eventClean_of_phase {keystroke : TypedKeystroke} {contextStack : List KeyContext}
    {phase : KeyEventPhase P} (h : ∀ result, phase ≠ .resolved result) :
    EventClean ⟨keystroke, contextStack, phase⟩ := fun result hr => absurd hr (h result)

/-- The keystrokes a new one is added to are the pending ones or none. -/
theorem Clean.currentlyPending (h : s.Clean) {focus : Option FocusId}
    (hsteady : s.pendingInput.isSome → s.focus = focus) :
    ∀ keystroke ∈ s.currentlyPending.keystrokes, keystroke.typedUnder = focus := by
  intro keystroke hk
  rw [WindowInput.currentlyPending] at hk
  cases hp : s.pendingInput with
  | none =>
    rw [hp] at hk
    simp only [Option.getD_none, PendingInput.default] at hk
    exact absurd hk List.not_mem_nil
  | some pending =>
    obtain ⟨-, hfocus, htyped⟩ := h.pending pending hp
    rw [hp, Option.getD_some] at hk
    simp only [hfocus, ne_eq, not_true_eq_false, and_false, if_false] at hk
    rw [htyped keystroke hk]
    apply hsteady
    rw [hp]
    rfl

/-- **The call of `dispatch_key`.** -/
theorem Clean.dispatchKey (h : s.Clean) {os : TargetOs} {event : KeyEvent P}
    {rest : List (KeyEvent P)} (hevents : ∀ event ∈ rest, EventClean event)
    (hsteady : s.pendingInput.isSome → s.focus = event.keystroke.typedUnder)
    (hs : s.dispatchKey os event rest = some s') : s'.Clean := by
  obtain ⟨result, hresult, hpending, hinputs⟩ := DispatchTree.dispatchKey_spec
    (s.bindingsForInput os event.contextStack) s.currentlyPending.keystrokes event.keystroke
  have hall : ∀ keystroke ∈ s.currentlyPending.keystrokes ++ [event.keystroke],
      keystroke.typedUnder = event.keystroke.typedUnder := by
    intro keystroke hk
    rcases List.mem_append.mp hk with hk | hk
    · exact h.currentlyPending hsteady keystroke hk
    · rw [List.mem_singleton.mp hk]
  rw [WindowInput.dispatchKey, hresult, Option.map_some] at hs
  cases hs
  refine ⟨fun pending hp => ?_, fun event' he => ?_, fun input hi => ?_⟩
  · cases hp
  · rcases List.mem_cons.mp he with rfl | he
    · intro result' hr keystroke hk
      cases hr
      exact hall keystroke (hpending.subset hk)
    · exact hevents event' he
  · rcases List.mem_append.mp hi with hi | hi
    · exact h.inputs input hi
    · exact oneFocus_of_forall fun keystroke hk => hall keystroke ((hinputs input hi).subset hk)

/-- **What is still pending is put back.** -/
theorem Clean.storePending (h : s.Clean) {event : KeyEvent P} {rest : List (KeyEvent P)}
    {result : DispatchResult TypedKeystroke (KeyBinding P)} (hphase : event.phase = .resolved result)
    (hhandling : s.handling = event :: rest)
    (hsteady : result.pending ≠ [] → s.focus = event.keystroke.typedUnder) :
    (s.storePending event rest result).Clean := by
  have hevents := h.events
  rw [hhandling] at hevents
  refine ⟨fun pending hp => ?_, fun event' he => ?_, h.inputs⟩
  · change (if result.pending.isEmpty then s.pendingInput else some ⟨result.pending, s.focus⟩)
      = some pending at hp
    split at hp
    · exact h.pending pending hp
    · rename_i hne
      have hne : result.pending ≠ [] := by simpa using hne
      cases hp
      refine ⟨hne, rfl, fun keystroke hk => ?_⟩
      rw [hevents event List.mem_cons_self result hphase keystroke hk]
      exact (hsteady hne).symm
  · rcases List.mem_cons.mp he with rfl | he
    · exact eventClean_of_phase nofun
    · exact hevents event' (List.mem_cons_of_mem _ he)

/-- **The timeout.** -/
theorem Clean.flushPending (h : s.Clean) {os : TargetOs} {contextStack : List KeyContext}
    (hs : s.flushPending os contextStack = some s') : s'.Clean := by
  rw [WindowInput.flushPending] at hs
  split at hs
  · cases hs
    exact h.dropPending s.focus s.focusEnabled
  · rename_i pending hp
    obtain ⟨hp, -⟩ := Option.filter_eq_some_iff.mp hp
    obtain ⟨hne, -, htyped⟩ := h.pending pending hp
    obtain ⟨replays, inputs, hflush, hinputs⟩ :=
      DispatchTree.flushDispatch_spec (s.bindingsForInput os contextStack) hne
    rw [hflush, Option.map_some] at hs
    cases hs
    refine ⟨(h.dropPending s.focus s.focusEnabled).pending, h.events, fun input hi => ?_⟩
    rcases List.mem_append.mp hi with hi | hi
    · exact h.inputs input hi
    · exact oneFocus_of_forall fun keystroke hk => htyped keystroke ((hinputs input hi).subset hk)

/-- **One step.** -/
theorem Clean.step (os : TargetOs) (s : WindowInput P) (act : InputAct P) (s' : WindowInput P)
    (h : s.Clean) (hsteady : s.Steady act) (hs : WindowInput.step os s act = some s') :
    s'.Clean := by
  have hevents := h.events
  cases act with
  | focus id =>
    obtain ⟨-, hs⟩ := Option.ite_none_right_eq_some.mp hs
    cases hs
    exact h.setFocus id
  | blur =>
    obtain ⟨-, hs⟩ := Option.ite_none_right_eq_some.mp hs
    cases hs
    exact h.blur
  | disableFocus =>
    obtain ⟨-, hs⟩ := Option.ite_none_right_eq_some.mp hs
    cases hs
    exact h.disableFocus
  | clearPendingKeystrokes =>
    obtain ⟨-, hs⟩ := Option.ite_none_right_eq_some.mp hs
    cases hs
    exact h.dropPending s.focus s.focusEnabled
  | setKeymap keymap =>
    obtain ⟨-, hs⟩ := Option.ite_none_right_eq_some.mp hs
    cases hs
    exact ⟨h.pending, h.events, h.inputs⟩
  | keyDown keystroke contextStack =>
    obtain ⟨-, hs⟩ := Option.ite_none_right_eq_some.mp hs
    cases hs
    refine h.setHandling fun event he => ?_
    rcases List.mem_cons.mp he with rfl | he
    · exact eventClean_of_phase nofun
    · exact hevents event he
  | stopPropagation =>
    rw [WindowInput.step] at hs
    split at hs
    · rename_i rest hhandling
      rw [hhandling] at hevents
      cases hs
      refine h.setHandling fun event he => ?_
      rcases List.mem_cons.mp he with rfl | he
      · exact eventClean_of_phase nofun
      · exact hevents event (List.mem_cons_of_mem _ he)
    · cases hs
  | dispatchKey =>
    rw [WindowInput.step] at hs
    split at hs
    · rename_i rest hhandling
      rw [hhandling] at hevents
      rw [Steady, hhandling] at hsteady
      exact h.dispatchKey (fun event he => hevents event (List.mem_cons_of_mem _ he)) hsteady hs
    · cases hs
  | storePending =>
    rw [WindowInput.step] at hs
    split at hs
    · rename_i rest hhandling
      rw [Steady, hhandling] at hsteady
      cases hs
      exact h.storePending rfl hhandling hsteady
    · cases hs
  | finish =>
    rw [WindowInput.step] at hs
    split at hs
    · rename_i rest hhandling
      rw [hhandling] at hevents
      cases hs
      exact h.setHandling fun event he => hevents event (List.mem_cons_of_mem _ he)
    · cases hs
  | timeout contextStack =>
    obtain ⟨-, hs⟩ := Option.ite_none_right_eq_some.mp hs
    exact h.flushPending hs

/-- **Pending keystrokes never mix focuses, in a run of steady steps.**  Every
input that `dispatch_key` or `flush_dispatch` is called with, the new keystroke
included, was typed under one focus. -/
theorem pending_one_focus (os : TargetOs) (focus : Option FocusId) (focusEnabled : Bool)
    (keymap : Keymap P) (acts : List (InputAct P)) (s : WindowInput P)
    (hsteady : RunMeets (step os) Steady (new focus focusEnabled keymap) acts)
    (hrun : run (step os) (new focus focusEnabled keymap) acts = some s) :
    ∀ input ∈ s.inputs, OneFocus input :=
  (run_invariant (Clean.step os) acts (clean_new focus focusEnabled keymap) hsteady hrun).inputs

/-! ### A replayed action that moves the focus -/

/-- A key without modifiers. -/
def plainKey (key : Char) : Keystroke := ⟨{}, [key], none⟩

/-- A binding of the keys for the action `id`. -/
def chordBinding (keys : List Char) (id : Nat) : KeyBinding Unit :=
  ⟨.other id (), keys.map fun key => ⟨plainKey key, none⟩, none, none, none⟩

/-- `a`, and two chords. -/
def chordKeymap : Keymap Unit :=
  Keymap.new [chordBinding ['a'] 0, chordBinding ['a', 'b'] 1, chordBinding ['c', 'd'] 2]

/-- A key event that nothing intercepts; `replayed` is what the replayed actions
do. -/
def typeKey (key : Char) (replayed : List (InputAct Unit)) : List (InputAct Unit) :=
  [.keyDown (plainKey key) [], .dispatchKey] ++ replayed ++ [.storePending, .finish]

/-- A chord is typed, then one is begun and times out, then the focus moves. -/
def steadyTyping : List (InputAct Unit) :=
  typeKey 'a' [] ++ typeKey 'c' [] ++ typeKey 'd' [] ++ typeKey 'a' [] ++ [.timeout [], .focus 2]
    ++ typeKey 'c' []

instance Steady.decidable (s : WindowInput P) : ∀ act, Decidable (s.Steady act)
  | .dispatchKey =>
    match h : s.handling with
    | [] => isTrue (by rw [Steady, h]; trivial)
    | event :: rest =>
      decidable_of_iff (s.pendingInput.isSome → s.focus = event.keystroke.typedUnder)
        (by rw [Steady, h])
  | .storePending =>
    match h : s.handling with
    | [] => isTrue (by rw [Steady, h]; trivial)
    | ⟨keystroke, contextStack, .resolved result⟩ :: rest =>
      decidable_of_iff (result.pending ≠ [] → s.focus = keystroke.typedUnder)
        (by rw [Steady, h])
    | ⟨keystroke, contextStack, .intercepting⟩ :: rest => isTrue (by rw [Steady, h]; trivial)
    | ⟨keystroke, contextStack, .finishing⟩ :: rest => isTrue (by rw [Steady, h]; trivial)
  | .focus _ | .blur | .disableFocus | .clearPendingKeystrokes | .setKeymap _ | .keyDown _ _
  | .stopPropagation | .finish | .timeout _ => isTrue trivial

theorem pending_one_focus_typing :
    ∃ s, run (step .linux) (new (some 1) true chordKeymap) steadyTyping = some s ∧
      s.inputs.length = 7 ∧ ∀ input ∈ s.inputs, OneFocus input := by
  have hrun : (run (step .linux) (new (some 1) true chordKeymap) steadyTyping).any
      (fun s => s.inputs.length == 7) = true := by
    decide +kernel
  obtain ⟨s, hs, hlen⟩ := (Option.any_eq_true _ _).mp hrun
  refine ⟨s, hs, beq_iff_eq.mp hlen, ?_⟩
  exact pending_one_focus .linux (some 1) true chordKeymap steadyTyping s (by decide +kernel) hs

/-- `c` gives up `a`, which is replayed, and begins a chord.  The replayed action
moves the focus, and `c` is put back as typed under the new focus.  Then `d` is
typed. -/
def mixedTyping : List (InputAct Unit) :=
  typeKey 'a' [] ++ typeKey 'c' [.focus 2] ++ typeKey 'd' []

/-- The chord that is resolved was typed under two focuses. -/
theorem focus_mixed :
    ∃ s, run (step .linux) (new (some 1) true chordKeymap) mixedTyping = some s ∧
      ¬ ∀ input ∈ s.inputs, OneFocus input := by
  have hrun : (run (step .linux) (new (some 1) true chordKeymap) mixedTyping).any
      (fun s => decide (¬ ∀ input ∈ s.inputs, OneFocus input)) = true := by
    decide +kernel
  obtain ⟨s, hs, hmixed⟩ := (Option.any_eq_true _ _).mp hrun
  exact ⟨s, hs, of_decide_eq_true hmixed⟩

end WindowInput

end FcGpui

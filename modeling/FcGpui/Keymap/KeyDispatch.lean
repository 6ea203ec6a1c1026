import FcGpui.Keymap.Keymap

/-!
# Resolving chords

`dispatch_key`, `flush_dispatch` and `replay_prefix` of `DispatchTree` in
`crates/gpui/src/key_dispatch.rs`.  Keystrokes that may begin a longer chord are
kept pending.  With the next keystroke the pending ones either go on with a
chord, or the longest beginning of them that is bound is given up to be
replayed, and the rest is tried again.

All of it looks at the keymap through `bindings_for_input` only, which is a
parameter here; `DispatchTree.bindingsForInput` is what the tree passes.  The
keystrokes are of any type, so that a caller can keep with each of them what it
knows about it.

Both functions recurse with what is left of the input, so both carry a bound;
`dispatchKey_spec` and `flushDispatch_spec` show that the length of the input is
bound enough, and that what they keep or pass on is the rest of the input.
-/

namespace FcGpui

structure DispatchTree.Replay (κ β : Type) where
  keystroke : κ
  bindings : List β
deriving DecidableEq, Repr

structure DispatchResult (κ β : Type) where
  pending : List κ
  bindings : List β
  toReplay : List (DispatchTree.Replay κ β)
  contextStack : List KeyContext
  /-- The inputs of all calls of `dispatch_key` that led to the result, each with
  its new keystroke at the end.  The source does not have this field. -/
  inputs : List (List κ)

namespace DispatchTree

/-- The context stack is what the nodes of the dispatch path have as contexts. -/
def bindingsForInput {P : Type} (os : TargetOs) (keymap : Keymap P) (contextStack : List KeyContext)
    (input : List Keystroke) : List (KeyBinding P) × Bool × List KeyContext :=
  let (bindings, pending) := keymap.bindingsForInput os input contextStack
  (bindings, pending, contextStack)

section Dispatch

variable {κ β : Type} (bindingsForInput : List κ → List β × Bool × List KeyContext)

/-- The longest beginning of the input that is bound, of the beginnings that end
before `stop`: the position of its last keystroke, and its bindings. -/
def boundPrefix (input : List κ) : Nat → Option (Nat × List β)
  | 0 => none
  | last + 1 =>
    let bindings := (bindingsForInput (input.take (last + 1))).1
    if bindings.isEmpty then boundPrefix input last else some (last, bindings)

/-- The rest of the input, and the one replay of what comes before.  `none` where
the source panics: there is no first keystroke. -/
def replayPrefix (input : List κ) : Option (List κ × Replay κ β) :=
  match boundPrefix bindingsForInput input input.length with
  | some (last, bindings) =>
    (input[last]?).map fun keystroke => (input.drop (last + 1), ⟨keystroke, bindings⟩)
  | none =>
    match input with
    | [] => none
    | keystroke :: rest => some (rest, ⟨keystroke, []⟩)

def dispatchKeyFrom : Nat → List κ → κ → Option (DispatchResult κ β)
  | 0, _, _ => none
  | fuel + 1, input, keystroke =>
    let found := bindingsForInput (input ++ [keystroke])
    if found.2.1 then
      some ⟨input ++ [keystroke], [], [], found.2.2, [input ++ [keystroke]]⟩
    else if !found.1.isEmpty then
      some ⟨[], found.1, [], found.2.2, [input ++ [keystroke]]⟩
    else if (input ++ [keystroke]).length = 1 then
      some ⟨[], [], [], found.2.2, [input ++ [keystroke]]⟩
    else
      (replayPrefix bindingsForInput input).bind fun (suffix, replay) =>
        (dispatchKeyFrom fuel suffix keystroke).map fun result =>
          { result with
            toReplay := replay :: result.toReplay
            inputs := (input ++ [keystroke]) :: result.inputs }

def dispatchKey (input : List κ) (keystroke : κ) : Option (DispatchResult κ β) :=
  dispatchKeyFrom bindingsForInput (input.length + 1) input keystroke

/-- The replays, and the inputs of all calls that led to them. -/
def flushDispatchFrom : Nat → List κ → Option (List (Replay κ β) × List (List κ))
  | 0, _ => none
  | fuel + 1, input =>
    (replayPrefix bindingsForInput input).bind fun (suffix, replay) =>
      if suffix.isEmpty then some ([replay], [input])
      else
        (flushDispatchFrom fuel suffix).map fun (replays, inputs) =>
          (replay :: replays, input :: inputs)

def flushDispatch (input : List κ) : Option (List (Replay κ β) × List (List κ)) :=
  flushDispatchFrom bindingsForInput (input.length + 1) input

/-! ### What they pass on -/

theorem boundPrefix_lt {input : List κ} : ∀ (stop : Nat) {last : Nat} {bindings : List β},
    boundPrefix bindingsForInput input stop = some (last, bindings) → last < stop := by
  intro stop
  induction stop with
  | zero => intro last bindings h; cases h
  | succ stop ih =>
    intro last bindings h
    rw [boundPrefix] at h
    split at h
    · exact (ih h).trans (Nat.lt_succ_self _)
    · cases h
      exact Nat.lt_succ_self _

/-- **One replay gives up a beginning of the input**, at least one keystroke. -/
theorem replayPrefix_spec {input : List κ} (h : input ≠ []) :
    ∃ suffix replay, replayPrefix bindingsForInput input = some (suffix, replay) ∧
      suffix.Sublist input ∧ suffix.length < input.length := by
  rw [replayPrefix.eq_def]
  cases hb : boundPrefix bindingsForInput input input.length with
  | some found =>
    obtain ⟨last, bindings⟩ := found
    have hlt := boundPrefix_lt bindingsForInput input.length hb
    refine ⟨input.drop (last + 1), ⟨input[last], bindings⟩, ?_, List.drop_sublist _ _, ?_⟩
    · simp only [List.getElem?_eq_getElem hlt, Option.map_some]
    · rw [List.length_drop]
      omega
  | none =>
    cases input with
    | nil => exact absurd rfl h
    | cons keystroke rest =>
      exact ⟨rest, ⟨keystroke, []⟩, rfl, List.sublist_cons_self _ _, Nat.lt_succ_self _⟩

theorem dispatchKeyFrom_spec (keystroke : κ) : ∀ (fuel : Nat) (input : List κ),
    input.length < fuel → ∃ result,
      dispatchKeyFrom bindingsForInput fuel input keystroke = some result ∧
      result.pending.Sublist (input ++ [keystroke]) ∧
      ∀ called ∈ result.inputs, called.Sublist (input ++ [keystroke]) := by
  intro fuel
  induction fuel with
  | zero => intro input h; exact absurd h (Nat.not_lt_zero _)
  | succ fuel ih =>
    intro input h
    have hself : ∀ called ∈ [input ++ [keystroke]], called.Sublist (input ++ [keystroke]) := by
      intro called hc
      rw [List.mem_singleton.mp hc]
    rw [dispatchKeyFrom]
    split
    · exact ⟨_, rfl, List.Sublist.refl _, hself⟩
    · split
      · exact ⟨_, rfl, List.nil_sublist _, hself⟩
      · split
        · exact ⟨_, rfl, List.nil_sublist _, hself⟩
        · rename_i hlen
          have hne : input ≠ [] := by
            rintro rfl
            exact hlen rfl
          obtain ⟨suffix, replay, hreplay, hsub, hlt⟩ := replayPrefix_spec bindingsForInput hne
          obtain ⟨result, hresult, hpending, hinputs⟩ := ih suffix (by omega)
          have hgrow : (suffix ++ [keystroke]).Sublist (input ++ [keystroke]) :=
            hsub.append (List.Sublist.refl _)
          simp only [hreplay, Option.bind_some, hresult, Option.map_some]
          refine ⟨_, rfl, hpending.trans hgrow, fun called hc => ?_⟩
          rcases List.mem_cons.mp hc with rfl | hc
          · exact List.Sublist.refl _
          · exact (hinputs called hc).trans hgrow

/-- **`dispatch_key` ends.**  What stays pending, and the input of every call on
the way, is part of the input with the new keystroke. -/
theorem dispatchKey_spec (input : List κ) (keystroke : κ) : ∃ result,
    dispatchKey bindingsForInput input keystroke = some result ∧
    result.pending.Sublist (input ++ [keystroke]) ∧
    ∀ called ∈ result.inputs, called.Sublist (input ++ [keystroke]) :=
  dispatchKeyFrom_spec bindingsForInput keystroke (input.length + 1) input (Nat.lt_succ_self _)

theorem flushDispatchFrom_spec : ∀ (fuel : Nat) (input : List κ), input ≠ [] →
    input.length < fuel → ∃ replays inputs,
      flushDispatchFrom bindingsForInput fuel input = some (replays, inputs) ∧
      ∀ called ∈ inputs, called.Sublist input := by
  intro fuel
  induction fuel with
  | zero => intro input _ h; exact absurd h (Nat.not_lt_zero _)
  | succ fuel ih =>
    intro input hne h
    obtain ⟨suffix, replay, hreplay, hsub, hlt⟩ := replayPrefix_spec bindingsForInput hne
    rw [flushDispatchFrom, hreplay, Option.bind_some]
    by_cases hs : suffix = []
    · refine ⟨[replay], [input], ?_, fun called hc => ?_⟩
      · rw [hs]
        rfl
      · rw [List.mem_singleton.mp hc]
    · obtain ⟨replays, inputs, hflush, hinputs⟩ := ih suffix hs (by omega)
      refine ⟨replay :: replays, input :: inputs, ?_, fun called hc => ?_⟩
      · simp only [List.isEmpty_iff, hs, if_false, hflush, Option.map_some]
      · rcases List.mem_cons.mp hc with rfl | hc
        · exact List.Sublist.refl _
        · exact (hinputs called hc).trans hsub

/-- **`flush_dispatch` ends** on every input that is not empty. -/
theorem flushDispatch_spec {input : List κ} (h : input ≠ []) : ∃ replays inputs,
    flushDispatch bindingsForInput input = some (replays, inputs) ∧
    ∀ called ∈ inputs, called.Sublist input :=
  flushDispatchFrom_spec bindingsForInput (input.length + 1) input h (Nat.lt_succ_self _)

end Dispatch

end DispatchTree

end FcGpui

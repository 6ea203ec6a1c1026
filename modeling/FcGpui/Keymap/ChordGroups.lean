import FcGpui.Keymap.KeyDispatch

/-!
# No keystroke is lost in a chord

`dispatch_key` and `flush_dispatch` cut what was typed into groups.  A group that
is given up goes to one replay (`Consumes`): it is bound and the replay has its
last keystroke, or it is one keystroke that nothing is bound to.  What is left
ends in the new keystroke (`Settled`).

**Main result.**  `keystrokes_conserved`: the groups and what is left make up what
was typed, in order.
-/

namespace FcGpui

namespace DispatchTree

section Dispatch

variable {κ β : Type} (bindingsForInput : List κ → List β × Bool × List KeyContext)

/-- The keystrokes that one replay stands for. -/
inductive Consumes : List κ → Replay κ β → Prop
  | bound {group : List κ} {keystroke : κ} {bindings : List β} :
      group.getLast? = some keystroke → (bindingsForInput group).1 = bindings → bindings ≠ [] →
      Consumes group ⟨keystroke, bindings⟩
  | unbound {keystroke : κ} :
      (bindingsForInput [keystroke]).1 = [] → Consumes [keystroke] ⟨keystroke, []⟩

/-- What becomes of the group that ends in the new keystroke: it stays pending, or
it is bound, or it is the keystroke alone. -/
inductive Settled (keystroke : κ) : List κ → List κ → List β → Prop
  | pending {final : List κ} : (bindingsForInput final).2.1 = true → Settled keystroke final final []
  | bound {final : List κ} {bindings : List β} :
      (bindingsForInput final).1 = bindings → bindings ≠ [] → Settled keystroke final [] bindings
  | unmatched : (bindingsForInput [keystroke]).1 = [] → Settled keystroke [keystroke] [] []

theorem boundPrefix_some {input : List κ} : ∀ (stop : Nat) {last : Nat} {bindings : List β},
    boundPrefix bindingsForInput input stop = some (last, bindings) →
    (bindingsForInput (input.take (last + 1))).1 = bindings ∧ bindings ≠ [] := by
  intro stop
  induction stop with
  | zero => intro last bindings h; cases h
  | succ stop ih =>
    intro last bindings h
    rw [boundPrefix] at h
    split at h
    · exact ih h
    · rename_i hne
      cases h
      exact ⟨rfl, fun hnil => hne (List.isEmpty_iff.mpr hnil)⟩

theorem boundPrefix_none {input : List κ} : ∀ (stop : Nat),
    boundPrefix bindingsForInput input stop = none →
    ∀ last < stop, (bindingsForInput (input.take (last + 1))).1 = [] := by
  intro stop
  induction stop with
  | zero => intro _ last hlt; exact absurd hlt (Nat.not_lt_zero _)
  | succ stop ih =>
    intro h last hlt
    rw [boundPrefix] at h
    split at h
    · rename_i hempty
      rcases Nat.lt_succ_iff_lt_or_eq.mp hlt with hlt | rfl
      · exact ih h last hlt
      · exact List.isEmpty_iff.mp hempty
    · cases h

/-- **One replay stands for a beginning of the input.** -/
theorem replayPrefix_consumes {input : List κ} (h : input ≠ []) :
    ∃ group suffix replay, replayPrefix bindingsForInput input = some (suffix, replay) ∧
      input = group ++ suffix ∧ Consumes bindingsForInput group replay ∧
      suffix.length < input.length := by
  rw [replayPrefix.eq_def]
  cases hb : boundPrefix bindingsForInput input input.length with
  | some found =>
    obtain ⟨last, bindings⟩ := found
    have hlt := boundPrefix_lt bindingsForInput input.length hb
    obtain ⟨hbindings, hne⟩ := boundPrefix_some bindingsForInput input.length hb
    refine ⟨input.take (last + 1), input.drop (last + 1), ⟨input[last], bindings⟩, ?_,
      (List.take_append_drop _ _).symm, .bound ?_ hbindings hne, ?_⟩
    · simp only [List.getElem?_eq_getElem hlt, Option.map_some]
    · rw [List.getLast?_take, if_neg (Nat.succ_ne_zero last)]
      simp [List.getElem?_eq_getElem hlt]
    · rw [List.length_drop]
      omega
  | none =>
    cases input with
    | nil => exact absurd rfl h
    | cons keystroke rest =>
      have hunbound := boundPrefix_none bindingsForInput _ hb 0 (Nat.succ_pos _)
      exact ⟨[keystroke], rest, ⟨keystroke, []⟩, rfl, rfl, .unbound hunbound, Nat.lt_succ_self _⟩

theorem dispatchKeyFrom_groups (keystroke : κ) : ∀ (fuel : Nat) (input : List κ),
    input.length < fuel → ∃ result groups final,
      dispatchKeyFrom bindingsForInput fuel input keystroke = some result ∧
      input ++ [keystroke] = groups.flatten ++ final ∧
      List.Forall₂ (Consumes bindingsForInput) groups result.toReplay ∧
      final.getLast? = some keystroke ∧
      Settled bindingsForInput keystroke final result.pending result.bindings := by
  intro fuel
  induction fuel with
  | zero => intro input h; exact absurd h (Nat.not_lt_zero _)
  | succ fuel ih =>
    intro input h
    have hlast : (input ++ [keystroke]).getLast? = some keystroke := List.getLast?_concat
    rw [dispatchKeyFrom]
    split
    · rename_i hpending
      exact ⟨_, [], input ++ [keystroke], rfl, rfl, .nil, hlast, .pending hpending⟩
    · split
      · rename_i hbound
        refine ⟨_, [], input ++ [keystroke], rfl, rfl, .nil, hlast, .bound rfl fun hnil => ?_⟩
        have hnil : (bindingsForInput (input ++ [keystroke])).1 = [] := hnil
        rw [hnil] at hbound
        cases hbound
      · rename_i hunbound
        split
        · rename_i hlen
          have hnil : input = [] := by
            rw [List.length_append, List.length_singleton] at hlen
            exact List.length_eq_zero_iff.mp (by omega)
          subst hnil
          refine ⟨_, [], [keystroke], rfl, rfl, .nil, rfl, .unmatched ?_⟩
          simpa using hunbound
        · rename_i hlen
          have hne : input ≠ [] := by
            rintro rfl
            exact hlen rfl
          obtain ⟨group, suffix, replay, hreplay, hinput, hconsumes, hlt⟩ :=
            replayPrefix_consumes bindingsForInput hne
          obtain ⟨result, groups, final, hresult, hsuffix, hgroups, hfinal, hsettled⟩ :=
            ih suffix (by omega)
          simp only [hreplay, Option.bind_some, hresult, Option.map_some]
          refine ⟨_, group :: groups, final, rfl, ?_, .cons hconsumes hgroups, hfinal, hsettled⟩
          rw [hinput, List.append_assoc, hsuffix, List.flatten_cons, List.append_assoc]

theorem flushDispatchFrom_groups : ∀ (fuel : Nat) (input : List κ), input ≠ [] →
    input.length < fuel → ∃ replays inputs groups,
      flushDispatchFrom bindingsForInput fuel input = some (replays, inputs) ∧
      input = groups.flatten ∧ List.Forall₂ (Consumes bindingsForInput) groups replays := by
  intro fuel
  induction fuel with
  | zero => intro input _ h; exact absurd h (Nat.not_lt_zero _)
  | succ fuel ih =>
    intro input hne h
    obtain ⟨group, suffix, replay, hreplay, hinput, hconsumes, hlt⟩ :=
      replayPrefix_consumes bindingsForInput hne
    rw [flushDispatchFrom, hreplay, Option.bind_some]
    by_cases hs : suffix = []
    · refine ⟨[replay], [input], [group], ?_, ?_, .cons hconsumes .nil⟩
      · rw [hs]
        rfl
      · rw [hinput, hs, List.append_nil, List.flatten_singleton]
    · obtain ⟨replays, inputs, groups, hflush, hsuffix, hgroups⟩ := ih suffix hs (by omega)
      refine ⟨replay :: replays, input :: inputs, group :: groups, ?_, ?_, .cons hconsumes hgroups⟩
      · simp only [List.isEmpty_iff, hs, if_false, hflush, Option.map_some]
      · rw [List.flatten_cons, ← hsuffix]
        exact hinput

end Dispatch

/-- **Chords keep every keystroke**, in order: with a new keystroke, and when
pending input that is not empty is flushed. -/
theorem keystrokes_conserved {P : Type} (os : TargetOs) (keymap : Keymap P)
    (contextStack : List KeyContext) :
    (∀ (input : List Keystroke) (keystroke : Keystroke), ∃ result groups final,
      dispatchKey (bindingsForInput os keymap contextStack) input keystroke = some result ∧
      input ++ [keystroke] = groups.flatten ++ final ∧
      List.Forall₂ (Consumes (bindingsForInput os keymap contextStack)) groups result.toReplay ∧
      final.getLast? = some keystroke ∧
      Settled (bindingsForInput os keymap contextStack) keystroke final result.pending
        result.bindings) ∧
    ∀ (first : Keystroke) (rest : List Keystroke), ∃ replays inputs groups,
      flushDispatch (bindingsForInput os keymap contextStack) (first :: rest) =
        some (replays, inputs) ∧
      first :: rest = groups.flatten ∧
      List.Forall₂ (Consumes (bindingsForInput os keymap contextStack)) groups replays := by
  refine ⟨fun input keystroke => ?_, fun first rest => ?_⟩
  · exact dispatchKeyFrom_groups _ keystroke (input.length + 1) input (Nat.lt_succ_self _)
  · exact flushDispatchFrom_groups _ ((first :: rest).length + 1) (first :: rest)
      (List.cons_ne_nil _ _) (Nat.lt_succ_self _)

end DispatchTree

end FcGpui

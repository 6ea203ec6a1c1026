import Mathlib.Data.List.Basic

/-!
# Handlers until one stops

An event goes to the handlers of a list one after another, until one of them stops it.  The state that
they share says whether it still propagates, and a handler may fail.

`called` is the part of the list that is reached, where it is known which handlers stop;
`untilStopped_called` is the rule for what the handlers do there.
-/

namespace FcGpui

section Propagation

variable {ℓ W : Type}

def untilStopped (handle : ℓ → W → Option W) (propagates : W → Bool) : List ℓ → W → Option W
  | [], w => some w
  | l :: ls, w => (handle l w).bind fun w => if propagates w then untilStopped handle propagates ls w else some w

/-- The handlers up to the first that stops, and this one. -/
def called (stops : ℓ → Bool) : List ℓ → List ℓ
  | [] => []
  | l :: ls => l :: if stops l then [] else called stops ls

variable {handle : ℓ → W → Option W} {propagates : W → Bool} {stops : ℓ → Bool}

/-- **The rule of the loop**: `inv` is about the handlers called so far, none of which has stopped, and
the state they have left. -/
theorem untilStopped_called {inv : List ℓ → W → Prop}
    (hcall : ∀ done l w, inv done w → propagates w = true → (∀ l' ∈ done, stops l' = false) →
      ∃ w', handle l w = some w' ∧ inv (done ++ [l]) w' ∧ propagates w' = !stops l) :
    ∀ (ls done : List ℓ) {w : W}, inv done w → propagates w = true → (∀ l' ∈ done, stops l' = false) →
      ∃ w', untilStopped handle propagates ls w = some w' ∧ inv (done ++ called stops ls) w' ∧
        propagates w' = !ls.any stops := by
  intro ls
  induction ls with
  | nil =>
    intro done w hinv hprop _
    refine ⟨w, rfl, ?_, hprop⟩
    rw [called, List.append_nil]
    exact hinv
  | cons l ls ih =>
    intro done w hinv hprop hdone
    obtain ⟨w', hw', hinv', hprop'⟩ := hcall done l w hinv hprop hdone
    rw [untilStopped, hw', Option.bind_some, hprop', called]
    cases hl : stops l with
    | true =>
      refine ⟨w', rfl, hinv', ?_⟩
      rw [hprop', hl, List.any_cons, hl]
      rfl
    | false =>
      have hdone' : ∀ l' ∈ done ++ [l], stops l' = false := by
        intro l' hl'
        rcases List.mem_append.mp hl' with hmem | hmem
        · exact hdone l' hmem
        · exact List.mem_singleton.mp hmem ▸ hl
      obtain ⟨w'', hrun, hlast, hstop⟩ := ih (done ++ [l]) hinv' (hprop'.trans (by rw [hl]; rfl)) hdone'
      refine ⟨w'', hrun, ?_, ?_⟩
      · rw [List.append_assoc] at hlast
        exact hlast
      · rw [hstop, List.any_cons, hl]
        rfl

/-- What every handler keeps. -/
theorem untilStopped_invariant {inv : W → Prop}
    (hcall : ∀ l w w', inv w → handle l w = some w' → inv w') :
    ∀ (ls : List ℓ) {w w' : W}, inv w → untilStopped handle propagates ls w = some w' → inv w' := by
  intro ls
  induction ls with
  | nil =>
    intro w w' hinv h
    cases h
    exact hinv
  | cons l ls ih =>
    intro w w' hinv h
    obtain ⟨mid, hmid, h⟩ := Option.bind_eq_some_iff.mp h
    have hinv' := hcall l w mid hinv hmid
    split at h
    · exact ih hinv' h
    · cases h
      exact hinv'

/-- Handlers that do nothing are passed by. -/
theorem untilStopped_append_of_idle {front : List ℓ} {w : W} (hprop : propagates w = true)
    (hidle : ∀ l ∈ front, handle l w = some w) (ls : List ℓ) :
    untilStopped handle propagates (front ++ ls) w = untilStopped handle propagates ls w := by
  induction front with
  | nil => rfl
  | cons l front ih =>
    obtain ⟨hl, hfront⟩ := List.forall_mem_cons.mp hidle
    rw [List.cons_append, untilStopped, hl, Option.bind_some, if_pos hprop]
    exact ih hfront

theorem untilStopped_of_idle {ls : List ℓ} {w : W} (hprop : propagates w = true)
    (hidle : ∀ l ∈ ls, handle l w = some w) : untilStopped handle propagates ls w = some w := by
  have h := untilStopped_append_of_idle hprop hidle []
  rwa [List.append_nil] at h

end Propagation

end FcGpui

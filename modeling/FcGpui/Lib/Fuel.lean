/-!
# Functions with fuel

A function that calls itself as often as it likes gets fuel, and gives nothing when the fuel
is used up.  What it computes is what it gives with enough fuel (`EndsWith`).  The result is
one (`EndsWith.unique`), and a call is put together from the calls that it makes with less
fuel (`EndsWith.call`, `EndsWith.calls`).
-/

namespace FcGpui

variable {α β γ : Type} {f : Nat → Option α} {g : Nat → Option β} {h : Nat → Option γ} {a a' : α} {b : β} {c : γ}

/-- With enough fuel the result is `a`. -/
def EndsWith (f : Nat → Option α) (a : α) : Prop := ∃ enough, ∀ fuel, enough ≤ fuel → f fuel = some a

theorem EndsWith.unique (ha : EndsWith f a) (ha' : EndsWith f a') : a = a' := by
  obtain ⟨m, hm⟩ := ha
  obtain ⟨n, hn⟩ := ha'
  have hboth := (hm (max m n) (Nat.le_max_left m n)).symm.trans (hn (max m n) (Nat.le_max_right m n))
  exact Option.some.inj hboth

/-- A call that makes no other one. -/
theorem EndsWith.here (hstep : ∀ fuel, f (fuel + 1) = some a) : EndsWith f a := by
  refine ⟨1, fun fuel hfuel => ?_⟩
  obtain ⟨fuel, rfl⟩ := Nat.exists_eq_add_of_le' hfuel
  exact hstep fuel

/-- A call that makes one. -/
theorem EndsWith.call (ha : EndsWith f a) (hstep : ∀ fuel, f fuel = some a → g (fuel + 1) = some b) : EndsWith g b := by
  obtain ⟨n, hn⟩ := ha
  refine ⟨n + 1, fun fuel hfuel => ?_⟩
  obtain ⟨fuel, rfl⟩ := Nat.exists_eq_add_of_le' (Nat.le_of_add_left_le hfuel)
  exact hstep fuel (hn fuel (Nat.le_of_succ_le_succ hfuel))

/-- A call that makes two. -/
theorem EndsWith.calls (ha : EndsWith f a) (hb : EndsWith g b)
    (hstep : ∀ fuel, f fuel = some a → g fuel = some b → h (fuel + 1) = some c) : EndsWith h c := by
  obtain ⟨m, hm⟩ := ha
  obtain ⟨n, hn⟩ := hb
  refine ⟨max m n + 1, fun fuel hfuel => ?_⟩
  obtain ⟨fuel, rfl⟩ := Nat.exists_eq_add_of_le' (Nat.le_of_add_left_le hfuel)
  have hle : max m n ≤ fuel := Nat.le_of_succ_le_succ hfuel
  exact hstep fuel (hm fuel (Nat.le_trans (Nat.le_max_left m n) hle)) (hn fuel (Nat.le_trans (Nat.le_max_right m n) hle))

end FcGpui

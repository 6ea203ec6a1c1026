import Mathlib

/-!
# Residues of runs of integers

The residues modulo `w` of the integers from `lo` up to `hi`, and those of what is reached from an
integer by steps to both sides in turn.

* `between_all`, `between_near`: the residues of a run, where it is as long as `w`, and where it does not
  go far from `0..w`.
* `Outward.nodup_residues`, `Outward.mem_residues`: of the integers that are reached first, `w` at most, no two have the
  same residue, and they have the residues of all.
-/

namespace Residues

variable {w v : ℕ} {k lo hi : ℤ}

def residue (w : ℕ) (k : ℤ) : ℕ := (k % w).toNat

theorem cast_residue (hw : 0 < w) (k : ℤ) : (residue w k : ℤ) = k % w :=
  Int.toNat_of_nonneg (Int.emod_nonneg k (by omega))

theorem residue_lt (hw : 0 < w) (k : ℤ) : residue w k < w := by
  have hlt : k % w < w := Int.emod_lt_of_pos k (by omega)
  rw [← cast_residue hw k] at hlt
  exact_mod_cast hlt

theorem residue_natCast (n : ℕ) : residue w n = n % w := by
  rw [residue, ← Int.natCast_emod, Int.toNat_natCast]

theorem residue_eq_iff (hw : 0 < w) : residue w k = v ↔ v < w ∧ ∃ q : ℤ, k = v + w * q := by
  constructor
  · rintro rfl
    refine ⟨residue_lt hw k, k / w, ?_⟩
    rw [cast_residue hw, Int.emod_add_mul_ediv]
  · rintro ⟨hv, q, rfl⟩
    rw [residue, Int.add_mul_emod_self_left, ← Int.natCast_emod, Int.toNat_natCast, Nat.mod_eq_of_lt hv]

theorem residue_eq_residue (hw : 0 < w) {l : ℤ} (h : residue w k = residue w l) : (w : ℤ) ∣ l - k := by
  have hcast : k % w = l % w := by rw [← cast_residue hw, ← cast_residue hw, h]
  exact Int.ModEq.dvd hcast

/-! ### Runs -/

/-- A residue of an integer from `lo` up to `hi`. -/
def Between (w : ℕ) (lo hi : ℤ) (v : ℕ) : Prop := ∃ k : ℤ, lo ≤ k ∧ k < hi ∧ residue w k = v

theorem between_all (hw : 0 < w) (h : lo + w ≤ hi) : Between w lo hi v ↔ v < w := by
  constructor
  · rintro ⟨k, -, -, rfl⟩
    exact residue_lt hw k
  · intro hv
    have hoffset := cast_residue hw (v - lo)
    have hlt := residue_lt hw (v - lo)
    refine ⟨lo + residue w (v - lo), by omega, by omega, (residue_eq_iff hw).mpr ⟨hv, -((v - lo) / w), ?_⟩⟩
    have hdiv := Int.emod_add_mul_ediv (v - lo) w
    rw [hoffset, mul_neg]
    omega

theorem between_near (hw : 0 < w) (hlo : -(w : ℤ) ≤ lo) (hhi : hi ≤ 2 * w) : Between w lo hi v ↔
    v < w ∧ (lo ≤ v - w ∧ (v - w : ℤ) < hi ∨ lo ≤ v ∧ (v : ℤ) < hi ∨ lo ≤ v + w ∧ (v + w : ℤ) < hi) := by
  constructor
  · rintro ⟨k, hk, hk', hv⟩
    obtain ⟨hlt, q, rfl⟩ := (residue_eq_iff hw).mp hv
    have hbelow : -2 < q := by
      by_contra hq
      have hmul : (w : ℤ) * q ≤ w * -2 := Int.mul_le_mul_of_nonneg_left (by omega) (by omega)
      omega
    have habove : q < 2 := by
      by_contra hq
      have hmul : (w : ℤ) * 2 ≤ w * q := Int.mul_le_mul_of_nonneg_left (by omega) (by omega)
      omega
    obtain rfl | rfl | rfl : q = -1 ∨ q = 0 ∨ q = 1 := by omega
    · exact ⟨hlt, Or.inl (by omega)⟩
    · exact ⟨hlt, Or.inr (Or.inl (by omega))⟩
    · exact ⟨hlt, Or.inr (Or.inr (by omega))⟩
  · rintro ⟨hv, ⟨hk, hk'⟩ | ⟨hk, hk'⟩ | ⟨hk, hk'⟩⟩
    · exact ⟨_, hk, hk', (residue_eq_iff hw).mpr ⟨hv, -1, by omega⟩⟩
    · exact ⟨_, hk, hk', (residue_eq_iff hw).mpr ⟨hv, 0, by omega⟩⟩
    · exact ⟨_, hk, hk', (residue_eq_iff hw).mpr ⟨hv, 1, by omega⟩⟩

/-! ### Outward -/

/-- The place of a step in `0, 1, -1, 2, -2, ..`. -/
def rank (d : ℤ) : ℕ := if 0 < d then (2 * d - 1).toNat else (-2 * d).toNat

/-- The steps from `-before` to `after`, those that are nearer first. -/
structure Outward (before after : ℕ) (steps : List ℤ) : Prop where
  sorted : steps.Pairwise fun d e => rank d < rank e
  mem : ∀ d, d ∈ steps ↔ -(before : ℤ) ≤ d ∧ d ≤ after

section Outward

variable {before after : ℕ} {steps : List ℤ} {d e : ℤ}

theorem rank_le (hd : d ≤ k) (he : k ≤ e) : rank k ≤ max (rank d) (rank e) := by
  simp only [rank]
  split_ifs <;> omega

/-- What is nearer is reached before. -/
theorem Outward.mem_take (h : Outward before after steps) (hk : k ∈ steps) (he : e ∈ steps.take w)
    (hrank : rank k ≤ rank e) : k ∈ steps.take w := by
  have hsorted := h.sorted
  rw [← List.take_append_drop w steps] at hk hsorted
  rcases List.mem_append.mp hk with hk | hk
  · exact hk
  · have := (List.pairwise_append.mp hsorted).2.2 e he k hk
    omega

/-- Between two steps that are reached there is no other. -/
theorem Outward.mem_take_between (h : Outward before after steps) (hd : d ∈ steps.take w)
    (he : e ∈ steps.take w) (hdk : d ≤ k) (hke : k ≤ e) : k ∈ steps.take w := by
  have hlow := (h.mem d).mp (List.mem_of_mem_take hd)
  have hhigh := (h.mem e).mp (List.mem_of_mem_take he)
  have hk : k ∈ steps := (h.mem k).mpr ⟨by omega, by omega⟩
  rcases le_max_iff.mp (rank_le hdk hke) with hrank | hrank
  · exact h.mem_take hk hd hrank
  · exact h.mem_take hk he hrank

theorem Outward.nodup (h : Outward before after steps) : steps.Nodup :=
  h.sorted.imp fun hlt heq => absurd hlt (by rw [heq]; exact lt_irrefl _)

theorem Outward.sub_lt (h : Outward before after steps) (hd : d ∈ steps.take w) (he : e ∈ steps.take w) :
    e - d < w := by
  have hsub : (List.range (e - d + 1).toNat).map (fun i : ℕ => d + i) ⊆ steps.take w := by
    intro k hk
    obtain ⟨i, hi, rfl⟩ := List.mem_map.mp hk
    rw [List.mem_range] at hi
    exact h.mem_take_between hd he (by omega) (by omega)
  have hnodup : ((List.range (e - d + 1).toNat).map (fun i : ℕ => d + i)).Nodup :=
    List.Nodup.map (fun i j hij => by simpa using hij) List.nodup_range
  have hlength := (hnodup.subperm hsub).length_le
  rw [List.length_map, List.length_range, List.length_take] at hlength
  omega

/-- **No residue twice** among the first `w`. -/
theorem Outward.nodup_residues (hw : 0 < w) (start : ℤ) (h : Outward before after steps) :
    ((steps.take w).map fun d => residue w (start + d)).Nodup := by
  refine List.Nodup.map_on ?_ (h.nodup.sublist (List.take_sublist w steps))
  intro d hd e he heq
  have hdvd := residue_eq_residue hw heq
  rw [add_sub_add_left_eq_sub] at hdvd
  have hzero := Int.eq_zero_of_abs_lt_dvd hdvd
    (abs_lt.mpr ⟨by linarith [h.sub_lt he hd], h.sub_lt hd he⟩)
  omega

/-- **The first `w` steps** reach the residues of all. -/
theorem Outward.mem_residues (hw : 0 < w) (start : ℤ) (h : Outward before after steps) :
    v ∈ (steps.take w).map (fun d => residue w (start + d)) ↔
      Between w (start - before) (start + after + 1) v := by
  constructor
  · intro hv
    obtain ⟨d, hd, rfl⟩ := List.mem_map.mp hv
    have hbounds := (h.mem d).mp (List.mem_of_mem_take hd)
    exact ⟨start + d, by omega, by omega, rfl⟩
  · rintro ⟨k, hlo, hhi, rfl⟩
    by_cases hlength : steps.length ≤ w
    · have hk : k - start ∈ steps := (h.mem _).mpr ⟨by omega, by omega⟩
      rw [List.take_of_length_le hlength]
      exact List.mem_map.mpr ⟨k - start, hk, by rw [add_sub_cancel]⟩
    · -- There are `w` different residues.
      have hnodup := h.nodup_residues hw start
      have hsub : (steps.take w).map (fun d => residue w (start + d)) ⊆ List.range w := by
        intro v hv
        obtain ⟨d, -, rfl⟩ := List.mem_map.mp hv
        exact List.mem_range.mpr (residue_lt hw _)
      have hperm := (hnodup.subperm hsub).perm_of_length_le (by
        rw [List.length_range, List.length_map, List.length_take]
        omega)
      exact hperm.mem_iff.mpr (List.mem_range.mpr (residue_lt hw k))

end Outward

end Residues

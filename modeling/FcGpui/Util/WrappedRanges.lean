import FcGpui.Lib.Residues

/-!
# Ranges that wrap

`expanded_and_wrapped_usize_range` makes a range longer on both sides and takes it modulo
`wrap_length`; `wrapped_usize_outward_from` goes from a place to both sides in turn.

Where only one side wraps, the first looks whether what comes round meets the range itself, and not
whether it meets what the range has become on the other side.

* `expanded_iff`: it lists every residue once except there.
* `collect_outward`: the iterator gives the residues of the steps, `wrap_length` of them at most.

**Main results.**  `wrapsOnce_iff` and `not_wrapsOnce`.
-/

namespace FcGpui

open Residues

/-- `lo..hi`. -/
def usizeRange (lo hi : Nat) : List Nat := List.range' lo (hi - lo)

/-- The sums are taken to fit in a `usize`. -/
def expandedAndWrappedUsizeRange (rangeStart rangeEnd additionalBefore additionalAfter wrapLength : Nat) :
    List Nat :=
  let startWraps := decide (rangeStart < additionalBefore)
  let endWraps := decide (wrapLength < rangeEnd + additionalAfter)
  if startWraps && endWraps then usizeRange 0 wrapLength
  else if startWraps then
    let wrappedStart := rangeStart + wrapLength - additionalBefore
    if wrappedStart ≤ rangeEnd then usizeRange 0 wrapLength
    else usizeRange 0 (rangeEnd + additionalAfter) ++ usizeRange wrappedStart wrapLength
  else if endWraps then
    let wrappedEnd := rangeEnd + additionalAfter - wrapLength
    if rangeStart ≤ wrappedEnd then usizeRange 0 wrapLength
    else usizeRange 0 wrappedEnd ++ usizeRange (rangeStart - additionalBefore) wrapLength
  else usizeRange (rangeStart - additionalBefore) (rangeEnd + additionalAfter)

/-- What the closure of `wrapped_usize_outward_from` keeps between two calls. -/
structure OutwardIter where
  count : Nat := 0
  afterOffset : Nat := 1
  beforeOffset : Nat := 1

/-- `a - b` of `usize`, which panics below zero. -/
def checkedSub (a b : Nat) : Option Nat := if b ≤ a then some (a - b) else none

/-- The closure, `none` where it panics. -/
def OutwardIter.next (start additionalBefore additionalAfter wrapLength : Nat) (iter : OutwardIter) :
    Option (Option Nat × OutwardIter) :=
  let iter := { iter with count := iter.count + 1 }
  if iter.count > wrapLength then some (none, iter)
  else if iter.count = 1 then some (some (start % wrapLength), iter)
  else if iter.afterOffset ≤ additionalAfter ∧ iter.afterOffset ≤ iter.beforeOffset then
    some (some ((start + iter.afterOffset) % wrapLength),
      { iter with afterOffset := iter.afterOffset + 1 })
  else if iter.beforeOffset ≤ additionalBefore then
    (checkedSub (start + wrapLength) iter.beforeOffset).map fun place =>
      (some (place % wrapLength), { iter with beforeOffset := iter.beforeOffset + 1 })
  else if iter.afterOffset ≤ additionalAfter then
    some (some ((start + iter.afterOffset) % wrapLength),
      { iter with afterOffset := iter.afterOffset + 1 })
  else some (none, iter)

/-- Calling the closure until it has no more: `none` where it panics, and where `fuel` calls do not get
there. -/
def OutwardIter.collect (start additionalBefore additionalAfter wrapLength : Nat) :
    Nat → OutwardIter → Option (List Nat)
  | 0, _ => none
  | fuel + 1, iter =>
    (iter.next start additionalBefore additionalAfter wrapLength).bind fun (value, iter) =>
      match value with
      | none => some []
      | some value => (collect start additionalBefore additionalAfter wrapLength fuel iter).map (value :: ·)

def wrappedUsizeOutwardFrom (start additionalBefore additionalAfter wrapLength : Nat) :
    Option (List Nat) :=
  OutwardIter.collect start additionalBefore additionalAfter wrapLength (wrapLength + 1) {}

example : wrappedUsizeOutwardFrom 5 10 10 8 = some [5, 6, 4, 7, 3, 0, 2, 1] := by decide

/-! ### Expanding -/

/-- The residues of a run in order, each of them once. -/
structure ListsBetween (w : Nat) (lo hi : ℤ) (values : List Nat) : Prop where
  increasing : values.Pairwise (· < ·)
  mem : ∀ v, v ∈ values ↔ Between w lo hi v

/-- Just one side wraps, and what comes round does not meet the range, but what the range has become on
the other side. -/
def MeetsOtherSide (rangeStart rangeEnd additionalBefore additionalAfter wrapLength : Nat) : Prop :=
  (rangeStart < additionalBefore ∧ rangeEnd + additionalAfter ≤ wrapLength ∧
      rangeEnd + additionalBefore < rangeStart + wrapLength ∨
    additionalBefore ≤ rangeStart ∧ wrapLength < rangeEnd + additionalAfter ∧
      rangeEnd + additionalAfter < rangeStart + wrapLength) ∧
    rangeStart + wrapLength < rangeEnd + additionalAfter + additionalBefore

instance (rangeStart rangeEnd additionalBefore additionalAfter wrapLength : Nat) :
    Decidable (MeetsOtherSide rangeStart rangeEnd additionalBefore additionalAfter wrapLength) := by
  unfold MeetsOtherSide
  infer_instance

section Expanded

variable {s e b a w v : Nat} {lo hi : ℤ}

theorem mem_usizeRange {l h : Nat} : v ∈ usizeRange l h ↔ l ≤ v ∧ v < h := by
  rw [usizeRange, List.mem_range'_1]
  omega

theorem increasing_usizeRange (l h : Nat) : (usizeRange l h).Pairwise (· < ·) := List.pairwise_lt_range'

theorem increasing_chain {l m h : Nat} :
    (usizeRange 0 l ++ usizeRange m h).Pairwise (· < ·) ↔ (m < h → l ≤ m) := by
  rw [List.pairwise_append]
  constructor
  · rintro ⟨-, -, hlt⟩ hmh
    by_contra hml
    exact lt_irrefl _ (hlt m (mem_usizeRange.mpr ⟨by omega, by omega⟩) m (mem_usizeRange.mpr ⟨le_rfl, hmh⟩))
  · intro h
    refine ⟨increasing_usizeRange _ _, increasing_usizeRange _ _, fun x hx y hy => ?_⟩
    rw [mem_usizeRange] at hx hy
    omega

/-- The whole of `0..wrap_length` is right where the run is that long. -/
theorem listsBetween_all (hw : 0 < w) (h : lo + w ≤ hi) : ListsBetween w lo hi (usizeRange 0 w) where
  increasing := increasing_usizeRange 0 w
  mem v := by
    rw [between_all hw h, mem_usizeRange]
    omega

theorem expanded_iff (hw : 0 < w) (hse : s ≤ e) (hew : e ≤ w) :
    ListsBetween w (s - b) (e + a) (expandedAndWrappedUsizeRange s e b a w) ↔
      ¬MeetsOtherSide s e b a w := by
  simp only [expandedAndWrappedUsizeRange, Bool.and_eq_true, decide_eq_true_eq]
  split_ifs with hboth hstart hall hend hall
  · refine iff_of_true (listsBetween_all hw (by omega)) ?_
    rw [MeetsOtherSide]
    omega
  · refine iff_of_true (listsBetween_all hw (by omega)) ?_
    rw [MeetsOtherSide]
    omega
  · have hmeets : ¬MeetsOtherSide s e b a w ↔ e + a ≤ s + w - b := by
      rw [MeetsOtherSide]
      omega
    rw [hmeets]
    refine ⟨fun h => increasing_chain.mp h.increasing (by omega), fun h => ⟨?_, fun v => ?_⟩⟩
    · exact increasing_chain.mpr fun _ => h
    · rw [between_near hw (by omega) (by omega), List.mem_append, mem_usizeRange, mem_usizeRange]
      omega
  · refine iff_of_true (listsBetween_all hw (by omega)) ?_
    rw [MeetsOtherSide]
    omega
  · have hmeets : ¬MeetsOtherSide s e b a w ↔ e + a - w ≤ s - b := by
      rw [MeetsOtherSide]
      omega
    rw [hmeets]
    refine ⟨fun h => ?_, fun h => ⟨?_, fun v => ?_⟩⟩
    · by_contra hlt
      exact hlt (increasing_chain.mp h.increasing (by omega))
    · exact increasing_chain.mpr fun _ => h
    · rw [between_near hw (by omega) (by omega), List.mem_append, mem_usizeRange, mem_usizeRange]
      omega
  · refine iff_of_true ⟨increasing_usizeRange _ _, fun v => ?_⟩ ?_
    · rw [between_near hw (by omega) (by omega), mem_usizeRange]
      omega
    · rw [MeetsOtherSide]
      omega

end Expanded

/-! ### Going outward -/

/-- What is listed from a place outward: the steps in their order, `wrap_length` of them at most, and so
every residue once. -/
structure ListsOutward (start before after w : Nat) (values : List Nat) : Prop where
  starts : values.head? = some (start % w)
  outward : ∃ steps, Outward before after steps ∧
    values = (steps.take w).map fun d => residue w (start + d)
  nodup : values.Nodup
  mem : ∀ v, v ∈ values ↔ Between w (start - before) (start + after + 1) v

/-- The steps that are left once all nearer than `a` after and `b` before are made. -/
def outwardSteps (before after a b : Nat) : List ℤ :=
  if a ≤ after ∧ a ≤ b then a :: outwardSteps before after (a + 1) b
  else if b ≤ before then -b :: outwardSteps before after a (b + 1)
  else if a ≤ after then a :: outwardSteps before after (a + 1) b
  else []
termination_by (after + 1 - a) + (before + 1 - b)

section Outward

variable {start before after w a b : Nat}

theorem mem_outwardSteps {d : ℤ} (h : 1 ≤ a) : d ∈ outwardSteps before after a b ↔
    (-(before : ℤ) ≤ d ∧ d ≤ after) ∧ ¬(-(b : ℤ) < d ∧ d < a) := by
  fun_induction outwardSteps before after a b with
  | case1 a b hafter ih =>
    rw [List.mem_cons, ih (by omega)]
    omega
  | case2 a b hafter hbefore ih =>
    rw [List.mem_cons, ih h]
    omega
  | case3 a b hnot hbefore hafter ih =>
    rw [List.mem_cons, ih (by omega)]
    omega
  | case4 a b hnot hbefore hafter =>
    refine iff_of_false List.not_mem_nil ?_
    omega

theorem sorted_outwardSteps (h : 1 ≤ a) :
    (outwardSteps before after a b).Pairwise fun d e => rank d < rank e := by
  fun_induction outwardSteps before after a b with
  | case1 a b hafter ih =>
    refine List.pairwise_cons.mpr ⟨fun e he => ?_, ih (by omega)⟩
    rw [mem_outwardSteps (by omega)] at he
    simp only [rank]
    split_ifs <;> omega
  | case2 a b hafter hbefore ih =>
    refine List.pairwise_cons.mpr ⟨fun e he => ?_, ih h⟩
    rw [mem_outwardSteps h] at he
    simp only [rank]
    split_ifs <;> omega
  | case3 a b hnot hbefore hafter ih =>
    refine List.pairwise_cons.mpr ⟨fun e he => ?_, ih (by omega)⟩
    rw [mem_outwardSteps (by omega)] at he
    simp only [rank]
    split_ifs <;> omega
  | case4 => exact List.Pairwise.nil

theorem outward_steps : Outward before after (0 :: outwardSteps before after 1 1) where
  sorted := by
    refine List.pairwise_cons.mpr ⟨fun e he => ?_, sorted_outwardSteps le_rfl⟩
    rw [mem_outwardSteps le_rfl] at he
    simp only [rank]
    split_ifs <;> omega
  mem d := by
    rw [List.mem_cons, mem_outwardSteps le_rfl]
    omega

theorem collect_of_none {iter iter' : OutwardIter} (fuel : Nat)
    (h : iter.next start before after w = some (none, iter')) :
    iter.collect start before after w (fuel + 1) = some [] := by
  rw [OutwardIter.collect, h]
  rfl

theorem collect_of_some {iter iter' : OutwardIter} {value : Nat} (fuel : Nat)
    (h : iter.next start before after w = some (some value, iter')) :
    iter.collect start before after w (fuel + 1) =
      (iter'.collect start before after w fuel).map (value :: ·) := by
  rw [OutwardIter.collect, h]
  rfl

/-- **The iterator** goes on with the steps that are left.  No step before is longer than the number of
values there were, so that no subtraction gets below zero. -/
theorem collect_outward (fuel : Nat) : ∀ {count a b : Nat}, 1 ≤ count → 1 ≤ a → a + b = count + 1 →
    w - count < fuel → OutwardIter.collect start before after w fuel ⟨count, a, b⟩ =
      some (((outwardSteps before after a b).take (w - count)).map fun d => residue w (start + d)) := by
  induction fuel with
  | zero => exact fun _ _ _ hfuel => absurd hfuel (Nat.not_lt_zero _)
  | succ fuel ih =>
    intro count a b hcount ha hoffsets hfuel
    by_cases hdone : w < count + 1
    · have hnext : OutwardIter.next start before after w ⟨count, a, b⟩ = some (none, ⟨count + 1, a, b⟩) := by
        simp [OutwardIter.next, hdone]
      rw [collect_of_none fuel hnext, Nat.sub_eq_zero_of_le (by omega), List.take_zero, List.map_nil]
    · have hfirst : count ≠ 0 := by omega
      have htake : w - count = w - (count + 1) + 1 := by omega
      have go {d : ℤ} {a' b' : Nat} (hnext : OutwardIter.next start before after w ⟨count, a, b⟩ =
            some (some (residue w (start + d)), ⟨count + 1, a', b'⟩))
          (hsteps : outwardSteps before after a b = d :: outwardSteps before after a' b') (ha' : 1 ≤ a')
          (hoffsets' : a' + b' = count + 2) :
          OutwardIter.collect start before after w (fuel + 1) ⟨count, a, b⟩ =
            some (((outwardSteps before after a b).take (w - count)).map fun d => residue w (start + d)) := by
        rw [collect_of_some fuel hnext, ih (by omega) ha' (by omega) (by omega), hsteps, htake,
          List.take_succ_cons, List.map_cons, Option.map_some]
      have hplus : residue w (start + a) = (start + a) % w := by
        rw [← residue_natCast, Nat.cast_add]
      by_cases hturn : a ≤ after ∧ a ≤ b
      · have hsteps : outwardSteps before after a b = (a : ℤ) :: outwardSteps before after (a + 1) b := by
          rw [outwardSteps, if_pos hturn]
        refine go ?_ hsteps (by omega) (by omega)
        simp [OutwardIter.next, hdone, hfirst, hturn, hplus]
      · by_cases hbefore : b ≤ before
        · have hsteps : outwardSteps before after a b = -(b : ℤ) :: outwardSteps before after a (b + 1) := by
            rw [outwardSteps, if_neg hturn, if_pos hbefore]
          have hsub : checkedSub (start + w) b = some (start + w - b) := if_pos (by omega)
          have hminus : residue w (start + -b) = (start + w - b) % w := by
            rw [← residue_natCast, Nat.cast_sub (by omega), Nat.cast_add, residue, residue,
              show ((start : ℤ) + w - b) = start + -b + w by ring, Int.add_emod_right]
          refine go ?_ hsteps ha (by omega)
          simp [OutwardIter.next, hdone, hfirst, hturn, hbefore, hsub, hminus]
        · by_cases hafter : a ≤ after
          · have hsteps : outwardSteps before after a b = (a : ℤ) :: outwardSteps before after (a + 1) b := by
              rw [outwardSteps, if_neg hturn, if_neg hbefore, if_pos hafter]
            refine go ?_ hsteps (by omega) (by omega)
            simp [OutwardIter.next, hdone, hfirst, hbefore, hafter, hplus]
          · have hnext : OutwardIter.next start before after w ⟨count, a, b⟩ =
                some (none, ⟨count + 1, a, b⟩) := by
              simp [OutwardIter.next, hdone, hfirst, hbefore, hafter]
            rw [collect_of_none fuel hnext, outwardSteps, if_neg hturn, if_neg hbefore, if_neg hafter,
              List.take_nil, List.map_nil]

/-- **Every residue once**, outward. -/
theorem wrappedUsizeOutwardFrom_spec (hw : 0 < w) (start before after : Nat) :
    ∃ values, wrappedUsizeOutwardFrom start before after w = some values ∧
      ListsOutward start before after w values := by
  have hsteps : Outward before after (0 :: outwardSteps before after 1 1) := outward_steps
  obtain ⟨n, rfl⟩ : ∃ n, w = n + 1 := ⟨w - 1, by omega⟩
  have hzero : residue (n + 1) (start + 0) = start % (n + 1) := by rw [add_zero, residue_natCast]
  refine ⟨((0 :: outwardSteps before after 1 1).take (n + 1)).map fun d => residue (n + 1) (start + d), ?_,
    ⟨?_, ⟨_, hsteps, rfl⟩, hsteps.nodup_residues hw start, fun v => hsteps.mem_residues hw start⟩⟩
  · have hnext : OutwardIter.next start before after (n + 1) {} =
        some (some (start % (n + 1)), ⟨1, 1, 1⟩) := by
      simp [OutwardIter.next]
    rw [wrappedUsizeOutwardFrom, collect_of_some _ hnext, collect_outward _ le_rfl le_rfl rfl (by omega),
      List.take_succ_cons, List.map_cons, Option.map_some, hzero, Nat.add_sub_cancel]
  · rw [List.take_succ_cons, List.map_cons, List.head?_cons, hzero]

end Outward

/-- What there is to say of the two. -/
structure WrapsOnce (rangeStart rangeEnd additionalBefore additionalAfter wrapLength : Nat) : Prop where
  expanded : ListsBetween wrapLength (rangeStart - additionalBefore) (rangeEnd + additionalAfter)
    (expandedAndWrappedUsizeRange rangeStart rangeEnd additionalBefore additionalAfter wrapLength)
  outward : ∀ start, ∃ values,
    wrappedUsizeOutwardFrom start additionalBefore additionalAfter wrapLength = some values ∧
      ListsOutward start additionalBefore additionalAfter wrapLength values

/-- **A residue comes twice** just where one side wraps and meets what the other has added. -/
theorem wrapsOnce_iff (rangeStart rangeEnd additionalBefore additionalAfter wrapLength : Nat)
    (hw : 0 < wrapLength) (hle : rangeStart ≤ rangeEnd) (hend : rangeEnd ≤ wrapLength) :
    WrapsOnce rangeStart rangeEnd additionalBefore additionalAfter wrapLength ↔
      ¬MeetsOtherSide rangeStart rangeEnd additionalBefore additionalAfter wrapLength := by
  constructor
  · exact fun h => (expanded_iff hw hle hend).mp h.expanded
  · intro h
    exact ⟨(expanded_iff hw hle hend).mpr h, fun start => wrappedUsizeOutwardFrom_spec hw start _ _⟩

theorem wrapsOnce_iff_startWraps : WrapsOnce 2 4 3 1 8 :=
  (wrapsOnce_iff 2 4 3 1 8 (by decide) (by decide) (by decide)).mpr (by decide)

theorem not_wrapsOnce : ¬∀ rangeStart rangeEnd additionalBefore additionalAfter wrapLength : Nat,
    0 < wrapLength → rangeStart ≤ rangeEnd → rangeEnd ≤ wrapLength →
      WrapsOnce rangeStart rangeEnd additionalBefore additionalAfter wrapLength := by
  intro h
  have hincreasing := (h 2 4 3 4 8 (by decide) (by decide) (by decide)).expanded.increasing
  revert hincreasing
  decide

end FcGpui

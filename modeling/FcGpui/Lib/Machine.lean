import Mathlib

/-!
# Runs of a machine

A machine is a step function that may refuse an action.  `run` makes a list of
actions one after another; `RunMeets` says that a condition holds of every state
and action met on the way.  `run_invariant` is the rule the developments over a
machine use: what every step under the condition keeps, every run under the
condition keeps, and `throughout_iff` the one for a condition that is needed as
well.  `run_refines` is the one for an abstract machine that is a
relation: what it allows for every step, it allows for every run (`RunsTo`).
-/

namespace FcGpui

section Machine

variable {σ α : Type}

def run (step : σ → α → Option σ) : σ → List α → Option σ
  | s, [] => some s
  | s, a :: as => (step s a).bind fun s => run step s as

variable {as bs : List α} {s : σ} {cond : σ → α → Prop} {good : σ → Prop}

variable {step : σ → α → Option σ} {inv : σ → Prop}

theorem run_append {s' s'' : σ} (h : run step s as = some s')
    (h' : run step s' bs = some s'') : run step s (as ++ bs) = some s'' := by
  induction as generalizing s with
  | nil =>
    obtain rfl := Option.some.inj h
    exact h'
  | cons a as ih =>
    obtain ⟨mid, hmid, hrest⟩ := Option.bind_eq_some_iff.mp h
    rw [List.cons_append, run, hmid]
    exact ih hrest

/-- What is left to run after a first part. -/
theorem run_rest {s' : σ} (h : run step s as = some s')
    (bs : List α) : run step s (as ++ bs) = run step s' bs := by
  induction as generalizing s with
  | nil =>
    obtain rfl := Option.some.inj h
    rfl
  | cons a as ih =>
    obtain ⟨mid, hmid, hrest⟩ := Option.bind_eq_some_iff.mp h
    rw [List.cons_append, run, hmid]
    exact ih hrest

/-- A machine that refuses nothing runs a fold. -/
theorem run_total (f : σ → α → σ) (as : List α) (s : σ) :
    run (fun s a => some (f s a)) s as = some (as.foldl f s) := by
  induction as generalizing s with
  | nil => rfl
  | cons a as ih => exact ih (f s a)

/-- Every action of the run meets `cond` where it is made. -/
def RunMeets (step : σ → α → Option σ) (cond : σ → α → Prop) : σ → List α → Prop
  | _, [] => True
  | s, a :: as => cond s a ∧ ((step s a).elim True fun s => RunMeets step cond s as)

/-- Whether a run meets a decidable condition can be run. -/
instance RunMeets.decidable (step : σ → α → Option σ) (cond : σ → α → Prop)
    [∀ s a, Decidable (cond s a)] : ∀ (as : List α) (s : σ), Decidable (RunMeets step cond s as)
  | [], _ => isTrue trivial
  | a :: as, s =>
    have : Decidable ((step s a).elim True fun s => RunMeets step cond s as) :=
      match step s a with
      | none => isTrue trivial
      | some s => RunMeets.decidable step cond as s
    inferInstanceAs (Decidable (cond s a ∧ ((step s a).elim True fun s => RunMeets step cond s as)))

theorem RunMeets.append :
    ∀ (as : List α) {s s' : σ}, RunMeets step cond s (as ++ bs) → run step s as = some s' →
      RunMeets step cond s as ∧ RunMeets step cond s' bs := by
  intro as
  induction as with
  | nil =>
    intro s s' hm hr
    cases hr
    exact ⟨trivial, hm⟩
  | cons a as ih =>
    intro s s' hm hr
    obtain ⟨mid, hmid, hr⟩ := Option.bind_eq_some_iff.mp hr
    obtain ⟨hc, hm⟩ := hm
    rw [hmid] at hm
    obtain ⟨has, hbs⟩ := ih hm hr
    refine ⟨⟨hc, ?_⟩, hbs⟩
    rw [hmid]
    exact has

theorem RunMeets.concat
    (has : RunMeets step cond s as) (hbs : ∀ s', run step s as = some s' → RunMeets step cond s' bs) :
    RunMeets step cond s (as ++ bs) := by
  induction as generalizing s with
  | nil => exact hbs s rfl
  | cons a as ih =>
    obtain ⟨hc, hm⟩ := has
    refine ⟨hc, ?_⟩
    cases hmid : step s a with
    | none => trivial
    | some mid =>
      rw [hmid] at hm
      refine ih hm fun s' hr => hbs s' ?_
      rw [run, hmid]
      exact hr

/-- A condition on actions alone. -/
theorem RunMeets.of_forall_mem {cond : α → Prop} :
    ∀ {as : List α}, (∀ a ∈ as, cond a) → ∀ s, RunMeets step (fun _ a => cond a) s as := by
  intro as
  induction as with
  | nil => exact fun _ _ => trivial
  | cons a as ih =>
    intro h s
    obtain ⟨ha, has⟩ := List.forall_mem_cons.mp h
    refine ⟨ha, ?_⟩
    cases step s a with
    | none => trivial
    | some s' => exact ih has s'

/-- A condition that every action meets. -/
theorem RunMeets.of_forall (h : ∀ s a, cond s a) : ∀ (as : List α) (s : σ), RunMeets step cond s as := by
  intro as
  induction as with
  | nil => exact fun _ => trivial
  | cons a as ih =>
    intro s
    refine ⟨h s a, ?_⟩
    cases step s a with
    | none => trivial
    | some s' => exact ih s'

/-- **What every step keeps, every run keeps.** -/
theorem run_invariant (hstep : ∀ s a s', inv s → cond s a → step s a = some s' → inv s') :
    ∀ (as : List α) {s s' : σ}, inv s → RunMeets step cond s as → run step s as = some s' →
      inv s' := by
  intro as
  induction as with
  | nil =>
    intro s s' hs _ hr
    cases hr
    exact hs
  | cons a as ih =>
    intro s s' hs hm hr
    obtain ⟨mid, hmid, hr⟩ := Option.bind_eq_some_iff.mp hr
    obtain ⟨hc, hm⟩ := hm
    rw [hmid] at hm
    exact ih (hstep s a mid hs hc hmid) hm hr

/-- An invariant of the state and of all actions made so far. -/
theorem run_history {inv : List α → σ → Prop}
    (hstep : ∀ done s a s', inv done s → cond s a → step s a = some s' → inv (done ++ [a]) s') :
    ∀ (as done : List α) {s s' : σ}, inv done s → RunMeets step cond s as → run step s as = some s' →
      inv (done ++ as) s' := by
  intro as
  induction as with
  | nil =>
    intro done s s' hs _ hr
    obtain rfl := Option.some.inj hr
    rw [List.append_nil]
    exact hs
  | cons a as ih =>
    intro done s s' hs hm hr
    obtain ⟨mid, hmid, hr⟩ := Option.bind_eq_some_iff.mp hr
    obtain ⟨hc, hm⟩ := hm
    rw [hmid] at hm
    have hrest := ih (done ++ [a]) (hstep done s a mid hs hc hmid) hm hr
    rwa [List.append_assoc] at hrest

/-- `good` holds of every state of the run. -/
def Throughout (step : σ → α → Option σ) (good : σ → Prop) : σ → List α → Prop
  | s, [] => good s
  | s, a :: as => good s ∧ ((step s a).elim True fun s => Throughout step good s as)

theorem Throughout.last :
    ∀ (as : List α) {s s' : σ}, Throughout step good s as → run step s as = some s' → good s' := by
  intro as
  induction as with
  | nil =>
    intro s s' h hr
    cases hr
    exact h
  | cons a as ih =>
    intro s s' h hr
    obtain ⟨mid, hmid, hr⟩ := Option.bind_eq_some_iff.mp hr
    obtain ⟨-, h⟩ := h
    rw [hmid] at h
    exact ih h hr

/-- A run in which something does not hold throughout comes to a state where it fails. -/
theorem exists_of_not_throughout :
    ∀ (as : List α) {s s' : σ}, run step s as = some s' → ¬ Throughout step good s as →
      ∃ before after t, as = before ++ after ∧ run step s before = some t ∧ ¬ good t := by
  intro as
  induction as with
  | nil => exact fun _ h => ⟨[], [], _, rfl, rfl, h⟩
  | cons a as ih =>
    intro s s' hr h
    by_cases hs : good s
    · obtain ⟨mid, hmid, hrest⟩ := Option.bind_eq_some_iff.mp hr
      obtain ⟨before, after, t, rfl, ht, hfails⟩ := ih hrest fun hall => h ⟨hs, by rw [hmid]; exact hall⟩
      refine ⟨a :: before, after, t, rfl, ?_, hfails⟩
      rw [run, hmid]
      exact ht
    · exact ⟨[], a :: as, s, rfl, rfl, hs⟩

theorem Throughout.meets
    (hcond : ∀ s a, good s → cond s a) :
    ∀ (as : List α) {s : σ}, Throughout step good s as → RunMeets step cond s as := by
  intro as
  induction as with
  | nil => exact fun _ => trivial
  | cons a as ih =>
    intro s h
    obtain ⟨hs, h⟩ := h
    refine ⟨hcond s a hs, ?_⟩
    cases hmid : step s a with
    | none => trivial
    | some mid =>
      rw [hmid] at h
      exact ih h

/-- What no step brings about holds throughout the runs that end with it. -/
theorem throughout_of_last
    (hstep : ∀ s a s', step s a = some s' → good s' → good s) :
    ∀ (as : List α) {s s' : σ}, run step s as = some s' → good s' → Throughout step good s as := by
  intro as
  induction as with
  | nil =>
    intro s s' hr hs
    cases hr
    exact hs
  | cons a as ih =>
    intro s s' hr hs
    obtain ⟨mid, hmid, hr⟩ := Option.bind_eq_some_iff.mp hr
    have hrest := ih hr hs
    have hgood : good mid := by
      cases as with
      | nil => exact hrest
      | cons b bs => exact hrest.1
    refine ⟨hstep s a mid hmid hgood, ?_⟩
    rw [hmid]
    exact hrest

/-- **What every step keeps holds throughout** the runs under the condition. -/
theorem run_throughout (hstep : ∀ s a s', inv s → cond s a → step s a = some s' → inv s')
    (hgood : ∀ s, inv s → good s) :
    ∀ (as : List α) {s : σ}, inv s → RunMeets step cond s as → Throughout step good s as := by
  intro as
  induction as with
  | nil => exact fun hs _ => hgood _ hs
  | cons a as ih =>
    intro s hs hm
    obtain ⟨hc, hm⟩ := hm
    refine ⟨hgood s hs, ?_⟩
    cases hmid : step s a with
    | none => trivial
    | some mid =>
      rw [hmid] at hm
      exact ih (hstep s a mid hs hc hmid) hm

/-- **What a step keeps exactly under the condition** holds throughout the runs whose
steps all meet the condition, and no others. -/
theorem throughout_iff (hinv : ∀ s a s', inv s → step s a = some s' → inv s')
    (hgood : ∀ s a s', inv s → good s → step s a = some s' → (good s' ↔ cond s a)) :
    ∀ (as : List α) {s s' : σ}, inv s → good s → run step s as = some s' →
      (Throughout step good s as ↔ RunMeets step cond s as) := by
  intro as
  induction as with
  | nil => exact fun _ hs _ => ⟨fun _ => trivial, fun _ => hs⟩
  | cons a as ih =>
    intro s s' hi hs hr
    obtain ⟨mid, hmid, hr⟩ := Option.bind_eq_some_iff.mp hr
    have hiff := hgood s a mid hi hs hmid
    rw [Throughout, RunMeets, hmid]
    constructor
    · rintro ⟨-, hall⟩
      have hmidgood : good mid := by
        cases as with
        | nil => exact hall
        | cons b bs => exact hall.1
      exact ⟨hiff.mp hmidgood, (ih (hinv s a mid hi hmid) hmidgood hr).mp hall⟩
    · rintro ⟨hcond, hall⟩
      exact ⟨hs, (ih (hinv s a mid hi hmid) (hiff.mpr hcond) hr).mpr hall⟩

/-- What a relation allows for a list of actions, one after another. -/
inductive RunsTo {β : Type} (spec : β → α → β → Prop) : β → List α → β → Prop
  | nil {p : β} : RunsTo spec p [] p
  | cons {p q r : β} {a : α} {as : List α} (h : spec p a q) (hs : RunsTo spec q as r) :
      RunsTo spec p (a :: as) r

/-- **A machine refines a relation**, if from related states it makes every action that `cond` admits
and does what the relation allows. -/
theorem run_refines {β : Type} {spec : β → α → β → Prop} {rel : σ → β → Prop} {cond : α → Prop}
    (hstep : ∀ s p a, rel s p → cond a → ∃ s' q, step s a = some s' ∧ spec p a q ∧ rel s' q) :
    ∀ (as : List α) {s : σ} {p : β}, rel s p → (∀ a ∈ as, cond a) →
      ∃ s' q, run step s as = some s' ∧ RunsTo spec p as q ∧ rel s' q := by
  intro as
  induction as with
  | nil => exact fun hrel _ => ⟨_, _, rfl, .nil, hrel⟩
  | cons a as ih =>
    intro s p hrel hcond
    obtain ⟨mid, q, hmid, hspec, hrel⟩ := hstep s p a hrel (hcond a List.mem_cons_self)
    obtain ⟨s', r, hrun, hruns, hrel'⟩ := ih hrel fun a ha => hcond a (List.mem_cons_of_mem _ ha)
    refine ⟨s', r, ?_, .cons hspec hruns, hrel'⟩
    rw [run, hmid]
    exact hrun

end Machine

end FcGpui

import FcGpui.Keymap.Keymap

/-!
# Predicates and outer contexts

A predicate is `Stable` if it matches a stack of contexts wherever it matches an inner part
of the stack.  Identifiers and comparisons look at the innermost context only, and a
`Descendant` whose child is stable may commit to the first match of its parent: what is
left to the child then only gets longer (`descendant_iff_exists`).  So predicates without
`Not` are stable, while `Not` looks at all contexts there are.

`is_superset` goes from a `Descendant` to its child, which is evaluated without the outer
contexts, so it is sound for just the stable predicates.

**Main results.**  `negationFree_outer`, `isSuperset_sound_iff`.
-/

namespace FcGpui

namespace KeyBindingContextPredicate

def NegationFree : KeyBindingContextPredicate → Prop
  | descendant parent child => parent.NegationFree ∧ child.NegationFree
  | and left right => left.NegationFree ∧ right.NegationFree
  | or left right => left.NegationFree ∧ right.NegationFree
  | not _ => False
  | _ => True

/-- What matches still matches when contexts are put outside. -/
def Stable (p : KeyBindingContextPredicate) : Prop :=
  ∀ x c : List KeyContext, p.eval c = true → p.eval (x ++ c) = true

variable {p q a b d : KeyBindingContextPredicate} {c all : List KeyContext}

/-- Without `Not`, the other contexts are not looked at. -/
theorem NegationFree.evalInner_eq (hp : p.NegationFree) (c all : List KeyContext) : p.evalInner c all = p.eval c := by
  induction p generalizing c all with
  | identifier name => rfl
  | equal left right => rfl
  | notEqual left right => rfl
  | not pred ih => exact hp.elim
  | descendant parent child ihparent ihchild =>
    simp only [eval, evalInner, ihparent hp.1 _ all, ihparent hp.1 _ c]
  | and left right ihleft ihright =>
    simp only [eval, evalInner, ihleft hp.1 c all, ihright hp.2 c all]
  | or left right ihleft ihright =>
    simp only [eval, evalInner, ihleft hp.1 c all, ihright hp.2 c all]

/-- `Descendant` commits to the first match of the parent. -/
theorem descendant_iff_first : (descendant p q).eval c = true ↔
    ∃ i, i + 1 < c.length ∧ p.evalInner (c.take (i + 1)) c = true ∧
      (∀ j < i, p.evalInner (c.take (j + 1)) c = false) ∧ q.eval (c.drop (i + 1)) = true := by
  rw [eval, evalInner]
  constructor
  · intro h
    cases hfind : (List.range (c.length - 1)).find? fun i => p.evalInner (c.take (i + 1)) c with
    | none =>
      rw [hfind] at h
      exact absurd h Bool.false_ne_true
    | some i =>
      rw [hfind] at h
      obtain ⟨hmatch, hmem, hfirst⟩ := List.find?_range_eq_some.mp hfind
      refine ⟨i, by have := List.mem_range.mp hmem; omega, hmatch, fun j hj => ?_, h⟩
      exact Bool.not_eq_true' _ ▸ hfirst j hj
  · rintro ⟨i, hi, hmatch, hfirst, h⟩
    have hfind : (List.range (c.length - 1)).find? (fun i => p.evalInner (c.take (i + 1)) c) = some i := by
      refine List.find?_range_eq_some.mpr ⟨hmatch, List.mem_range.mpr (by omega), fun j hj => ?_⟩
      rw [hfirst j hj]
      rfl
    rw [hfind]
    exact h

/-- **Any match of the parent will do**, if the child is stable. -/
theorem descendant_iff_exists (hp : p.NegationFree) (hq : q.Stable) : (descendant p q).eval c = true ↔
    ∃ i, i + 1 < c.length ∧ p.eval (c.take (i + 1)) = true ∧ q.eval (c.drop (i + 1)) = true := by
  rw [descendant_iff_first]
  constructor
  · rintro ⟨i, hi, hmatch, -, hchild⟩
    exact ⟨i, hi, hp.evalInner_eq _ c ▸ hmatch, hchild⟩
  · rintro ⟨i, hi, hmatch, hchild⟩
    have hsome : ∃ i, p.eval (c.take (i + 1)) = true := ⟨i, hmatch⟩
    have hle : Nat.find hsome ≤ i := Nat.find_min' hsome hmatch
    refine ⟨Nat.find hsome, by omega, ?_, fun j hj => ?_, ?_⟩
    · rw [hp.evalInner_eq]
      exact Nat.find_spec hsome
    · rw [hp.evalInner_eq]
      exact Bool.not_eq_true _ ▸ Nat.find_min hsome hj
    · -- the first match leaves the child a longer stack
      have hdrop : c.drop (Nat.find hsome + 1)
          = (c.drop (Nat.find hsome + 1)).take (i - Nat.find hsome) ++ c.drop (i + 1) := by
        have hboth := List.take_append_drop (i - Nat.find hsome) (c.drop (Nat.find hsome + 1))
        rw [List.drop_drop, (by omega : Nat.find hsome + 1 + (i - Nat.find hsome) = i + 1)] at hboth
        exact hboth.symm
      rw [hdrop]
      exact hq _ _ hchild

theorem NegationFree.stable (hp : p.NegationFree) : p.Stable := by
  induction p with
  | identifier name =>
    intro x c h
    rwa [eval, evalInner, List.getLast?_append_of_ne_nil _ (ne_nil_of_eval h)]
  | equal left right =>
    intro x c h
    rwa [eval, evalInner, List.getLast?_append_of_ne_nil _ (ne_nil_of_eval h)]
  | notEqual left right =>
    intro x c h
    rwa [eval, evalInner, List.getLast?_append_of_ne_nil _ (ne_nil_of_eval h)]
  | not pred ih => exact hp.elim
  | descendant parent child ihparent ihchild =>
    intro x c h
    obtain ⟨i, hi, hmatch, hchild⟩ := (descendant_iff_exists hp.1 (ihchild hp.2)).mp h
    refine (descendant_iff_exists hp.1 (ihchild hp.2)).mpr ⟨x.length + i, ?_, ?_, ?_⟩
    · rw [List.length_append]
      omega
    · rw [Nat.add_assoc, List.take_length_add_append]
      exact ihparent hp.1 _ _ hmatch
    · rw [Nat.add_assoc, List.drop_length_add_append]
      exact hchild
  | and left right ihleft ihright =>
    intro x c h
    obtain ⟨hl, hr⟩ := eval_and.mp h
    exact eval_and.mpr ⟨ihleft hp.1 x c hl, ihright hp.2 x c hr⟩
  | or left right ihleft ihright =>
    intro x c h
    exact eval_or.mpr ((eval_or.mp h).imp (ihleft hp.1 x c) (ihright hp.2 x c))

/-- **Predicates without `Not` are stable under outer contexts**, so for them the search of a
`Descendant` for the first match finds whatever split there is. -/
theorem negationFree_outer (p : KeyBindingContextPredicate) (hp : p.NegationFree) :
    (∀ x c : List KeyContext, p.eval c = true → p.eval (x ++ c) = true) ∧
    ∀ q : KeyBindingContextPredicate, q.NegationFree → ∀ c : List KeyContext,
      ((descendant p q).eval c = true ↔
        ∃ i, i + 1 < c.length ∧ p.eval (c.take (i + 1)) = true ∧ q.eval (c.drop (i + 1)) = true) :=
  ⟨hp.stable, fun _ hq _ => descendant_iff_exists hp hq.stable⟩

/-- `(p > p) > e` below another `p`. -/
theorem negationFree_outer_nested :
    (descendant (descendant (identifier ['p']) (identifier ['p'])) (identifier ['e'])).eval
      ([KeyContext.empty.add ['p']] ++
        [KeyContext.empty.add ['p'], KeyContext.empty.add ['p'], KeyContext.empty.add ['e']]) = true :=
  (negationFree_outer (descendant (descendant (identifier ['p']) (identifier ['p'])) (identifier ['e']))
    ⟨⟨trivial, trivial⟩, trivial⟩).1 _ _ (by decide)

/-! ### Supersets -/

/-- `a` matches whatever `b` does. -/
def Covers (a b : KeyBindingContextPredicate) : Prop := ∀ c : List KeyContext, b.eval c = true → a.eval c = true

theorem isSupersetInto_self (a : KeyBindingContextPredicate) : a.isSupersetInto a = true := by
  cases a <;> simp [isSupersetInto]

theorem Stable.isSupersetInto (ha : a.Stable) (hd : a.Covers d) (h : d.isSupersetInto b = true) : a.Covers b := by
  induction b with
  | descendant parent child ihparent ihchild =>
    rw [KeyBindingContextPredicate.isSupersetInto, Bool.or_eq_true, beq_iff_eq] at h
    rcases h with rfl | h
    · exact hd
    · intro c hc
      obtain ⟨i, -, -, -, hchild⟩ := descendant_iff_first.mp hc
      have heval := ha (c.take (i + 1)) _ (ihchild h _ hchild)
      rwa [List.take_append_drop] at heval
  | and left right ihleft ihright =>
    rw [KeyBindingContextPredicate.isSupersetInto, Bool.or_eq_true, Bool.or_eq_true, beq_iff_eq] at h
    rcases h with rfl | h | h
    · exact hd
    · exact fun c hc => ihleft h c (eval_and.mp hc).1
    · exact fun c hc => ihright h c (eval_and.mp hc).2
  | identifier name => exact beq_iff_eq.mp h ▸ hd
  | equal left right => exact beq_iff_eq.mp h ▸ hd
  | notEqual left right => exact beq_iff_eq.mp h ▸ hd
  | not pred ih => exact beq_iff_eq.mp h ▸ hd
  | or left right ihleft ihright => exact beq_iff_eq.mp h ▸ hd

theorem Stable.isSuperset (ha : a.Stable) (hd : a.Covers d) (h : d.isSuperset b = true) : a.Covers b := by
  induction d with
  | or left right ihleft ihright =>
    rw [KeyBindingContextPredicate.isSuperset, Bool.or_eq_true, Bool.or_eq_true, beq_iff_eq] at h
    rcases h with rfl | h | h
    · exact hd
    · exact ihleft (fun c hc => hd c (eval_or.mpr (Or.inl hc))) h
    · exact ihright (fun c hc => hd c (eval_or.mpr (Or.inr hc))) h
  | identifier name => exact ha.isSupersetInto hd h
  | equal left right => exact ha.isSupersetInto hd h
  | notEqual left right => exact ha.isSupersetInto hd h
  | descendant parent child => exact ha.isSupersetInto hd h
  | not pred => exact ha.isSupersetInto hd h
  | and left right => exact ha.isSupersetInto hd h

/-- One of the parts of a disjunction is what matches. -/
theorem exists_disjunct (h : a.eval c = true) :
    ∃ d : KeyBindingContextPredicate, d.eval c = true ∧ ∀ b : KeyBindingContextPredicate, d.isSupersetInto b = true → a.isSuperset b = true := by
  induction a with
  | or left right ihleft ihright =>
    have hsuperset : ∀ b : KeyBindingContextPredicate, (left.isSuperset b = true ∨ right.isSuperset b = true) →
        (or left right).isSuperset b = true := by
      intro b hb
      rw [isSuperset, Bool.or_eq_true, Bool.or_eq_true]
      exact Or.inr hb
    rcases eval_or.mp h with h | h
    · obtain ⟨d, hd, hinto⟩ := ihleft h
      exact ⟨d, hd, fun b hb => hsuperset b (Or.inl (hinto b hb))⟩
    · obtain ⟨d, hd, hinto⟩ := ihright h
      exact ⟨d, hd, fun b hb => hsuperset b (Or.inr (hinto b hb))⟩
  | identifier name => exact ⟨_, h, fun _ hb => hb⟩
  | equal left right => exact ⟨_, h, fun _ hb => hb⟩
  | notEqual left right => exact ⟨_, h, fun _ hb => hb⟩
  | descendant parent child => exact ⟨_, h, fun _ hb => hb⟩
  | not pred => exact ⟨_, h, fun _ hb => hb⟩
  | and left right => exact ⟨_, h, fun _ hb => hb⟩

/-- A predicate that matches any context. -/
def anywhere : KeyBindingContextPredicate := or (notEqual [] []) (equal [] [])

theorem evalInner_anywhere (context : KeyContext) (all : List KeyContext) : anywhere.evalInner [context] all = true := by
  cases hget : context.get [] with
  | none => simp [anywhere, evalInner, hget]
  | some value => by_cases hvalue : value = [] <;> simp [anywhere, evalInner, hget, hvalue]

/-- Below another predicate `d` matches without the outermost context. -/
theorem eval_descendant_anywhere (context : KeyContext) (h : d.eval c = true) :
    (descendant anywhere d).eval (context :: c) = true := by
  refine descendant_iff_first.mpr ⟨0, ?_, evalInner_anywhere context _, nofun, h⟩
  have hlength := List.length_pos_iff.mpr (ne_nil_of_eval h)
  rw [List.length_cons]
  omega

/-- **`is_superset` is sound just for the stable predicates.** -/
theorem isSuperset_sound_iff (a : KeyBindingContextPredicate) :
    (∀ b c, a.isSuperset b = true → b.eval c = true → a.eval c = true) ↔ a.Stable := by
  constructor
  · intro hsound x c h
    induction x with
    | nil => exact h
    | cons context x ih =>
      obtain ⟨d, hd, hinto⟩ := exists_disjunct ih
      refine hsound (descendant anywhere d) _ (hinto _ ?_) (eval_descendant_anywhere context hd)
      rw [isSupersetInto, isSupersetInto_self, Bool.or_true]
  · exact fun ha b c h hb => ha.isSuperset (fun _ hc => hc) h c hb

/-- `!x` is found below `p`, but it does not match there: the context that `p` matches has `x`. -/
theorem not_sound_not :
    ¬ ∀ (a b : KeyBindingContextPredicate) (c : List KeyContext),
      a.isSuperset b = true → b.eval c = true → a.eval c = true := by
  intro hsound
  have h := hsound (not (identifier ['x'])) (descendant (identifier ['p']) (not (identifier ['x'])))
    [(KeyContext.empty.add ['p']).add ['x'], KeyContext.empty.add ['e']] (by decide) (by decide)
  exact absurd h (by decide)

end KeyBindingContextPredicate

end FcGpui

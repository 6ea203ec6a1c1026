import FcGpui.Keymap.Keymap

/-!
# Shown shortcuts and dispatch

The bindings shown for an action should be those whose keystrokes run it.
`Wins` says when an input runs an action, over the enabled bindings it matches: one
of them carries the action and outranks every match that carries another action
and every `NoAction` of the user (`firstResult_iff`).

Display first drops the bindings that a `NoAction` added later removes
(`Removed`), whatever its metadata and whether it is enabled in the stack or not.
So the shown bindings are those that dispatch would run exactly when no binding
removed that way belongs to keystrokes that the action wins all the same
(`shown_eq_iff`).  `shownAgree_iff` adds the other inputs a user may type; when no
keystroke of the keymap carries a typed character they bring nothing new
(`Wins.chord`).
-/

namespace FcGpui

namespace Keymap

variable {P : Type}

/-! ### What an input runs -/

/-- A binding that is enabled in the stack and that the input matches fully. -/
def Matches (os : TargetOs) (keymap : Keymap P) (contextStack : List KeyContext)
    (input : List Keystroke) (m : Matched P) : Prop :=
  keymap.bindings[m.2.1]? = some m.2.2 ∧ bindingEnabled m.2.2 contextStack = some m.1 ∧
    m.2.2.matchKeystrokes os input = some false

/-- Deeper, or added later at the same depth. -/
def Outranks (a b : Matched P) : Prop := b.1 < a.1 ∨ (b.1 = a.1 ∧ b.2.1 < a.2.1)

/-- The action wins the input: a match that carries it outranks every match with
another action and every `NoAction` of the user. -/
def Wins [BEq P] (os : TargetOs) (keymap : Keymap P) (contextStack : List KeyContext)
    (action : Action P) (input : List Keystroke) : Prop :=
  ∃ m, Matches os keymap contextStack input m ∧ m.2.2.action.isNoAction = false ∧
    m.2.2.action.partialEq action = true ∧
    ∀ m', Matches os keymap contextStack input m' →
      (isUserNoAction m'.2.2 = true ∨
        (m'.2.2.action.isNoAction = false ∧ m'.2.2.action.partialEq action = false)) →
      Outranks m m'

variable {keymap : Keymap P} {contextStack : List KeyContext} {input : List Keystroke} {m : Matched P}
  {os : TargetOs}

theorem mem_indexed {ix : Nat} {binding : KeyBinding P} :
    (ix, binding) ∈ keymap.indexed ↔ keymap.bindings[ix]? = some binding := by
  rw [indexed, List.mem_reverse, List.mem_map]
  refine ⟨fun ⟨e, he, heq⟩ => ?_, fun h => ⟨(binding, ix), List.mem_zipIdx_iff_getElem?.mpr h, rfl⟩⟩
  obtain ⟨rfl, rfl⟩ := Prod.mk.inj heq
  exact List.mem_zipIdx_iff_getElem?.mp he

theorem mem_matchedBindings_iff {pending : Bool} {l : List (Nat × KeyBinding P)} :
    m ∈ matchedBindings os input contextStack l pending ↔
      m.2 ∈ l ∧ bindingEnabled m.2.2 contextStack = some m.1 ∧
        m.2.2.matchKeystrokes os input = some pending := by
  obtain ⟨depth, ix, binding⟩ := m
  rw [matchedBindings, List.mem_filterMap]
  refine ⟨fun ⟨e, he, heq⟩ => ?_, fun ⟨hmem, hdepth, hmatch⟩ => ?_⟩
  · obtain ⟨ix', binding'⟩ := e
    obtain ⟨depth', hdepth, heq⟩ := Option.bind_eq_some_iff.mp heq
    obtain ⟨isPending, hmatch, heq⟩ := Option.bind_eq_some_iff.mp heq
    obtain ⟨rfl, hsome⟩ := Option.ite_none_right_eq_some.mp heq
    obtain ⟨rfl, hrest⟩ := Prod.mk.inj (Option.some.inj hsome)
    obtain ⟨rfl, rfl⟩ := Prod.mk.inj hrest
    exact ⟨he, hdepth, hmatch⟩
  · refine ⟨(ix, binding), hmem, ?_⟩
    simp only at hdepth hmatch
    simp [hdepth, hmatch]

theorem mem_matchedBindings :
    m ∈ matchedBindings os input contextStack keymap.indexed false ↔
      Matches os keymap contextStack input m :=
  mem_matchedBindings_iff.trans (and_congr_left' mem_indexed)

theorem Matches.eq_of_ix {a b : Matched P} (ha : Matches os keymap contextStack input a)
    (hb : Matches os keymap contextStack input b) (h : a.2.1 = b.2.1) : a = b := by
  obtain ⟨depth, ix, binding⟩ := a
  obtain ⟨depth', ix', binding'⟩ := b
  obtain rfl : ix = ix' := h
  obtain rfl : binding = binding' := Option.some.inj (ha.1.symm.trans hb.1)
  obtain rfl : depth = depth' := Option.some.inj (ha.2.1.symm.trans hb.2.1)
  rfl

instance : IsTrans (Matched P) fun a b => a.precedes b = true := by
  refine ⟨fun a b c hab hbc => ?_⟩
  rw [Matched.precedes, decide_eq_true_iff] at *
  omega

instance : Std.Total fun a b : Matched P => a.precedes b = true := by
  refine ⟨fun a b => ?_⟩
  rw [Matched.precedes, Matched.precedes, decide_eq_true_iff, decide_eq_true_iff]
  omega

/-- A match at which the search ends. -/
def endsSearch (m : Matched P) : Bool := !m.2.2.action.isNoAction || isUserNoAction m.2.2

theorem head?_takeMatched (l : List (Matched P)) :
    (takeMatched l).head? = (l.find? endsSearch).bind fun m =>
      if m.2.2.action.isNoAction then none else some m.2 := by
  induction l with
  | nil => rfl
  | cons m l ih =>
    obtain ⟨depth, ix, binding⟩ := m
    rw [takeMatched, List.find?_cons, endsSearch]
    cases hno : binding.action.isNoAction with
    | false => simp [hno]
    | true => cases huser : isUserNoAction binding with
      | false => simpa using ih
      | true => simp [hno]

theorem Outranks.asymm {a b : Matched P} (h : Outranks a b) : ¬ Outranks b a := by
  rw [Outranks] at *
  omega

theorem find?_endsSearch_iff :
    ((matchedBindings os input contextStack keymap.indexed false).insertionSort
        fun a b => a.precedes b = true).find? endsSearch = some m ↔
      Matches os keymap contextStack input m ∧ endsSearch m = true ∧
        ∀ m', Matches os keymap contextStack input m' → endsSearch m' = true →
          m = m' ∨ Outranks m m' := by
  have hmem : ∀ m', m' ∈ (matchedBindings os input contextStack keymap.indexed false).insertionSort
      (fun a b => a.precedes b = true) ↔ Matches os keymap contextStack input m' :=
    fun m' => (List.perm_insertionSort _ _).mem_iff.trans mem_matchedBindings
  by_cases hm : Matches os keymap contextStack input m
  · have hrank : ∀ m', Matches os keymap contextStack input m' →
        (m = m' ∨ m.precedes m' = true ↔ m = m' ∨ Outranks m m') := by
      intro m' hm'
      rw [Matched.precedes, decide_eq_true_iff, Outranks]
      by_cases hix : m.2.1 = m'.2.1
      · exact iff_of_true (Or.inl (hm.eq_of_ix hm' hix)) (Or.inl (hm.eq_of_ix hm' hix))
      · exact or_congr_right (by omega)
    rw [find?_pairwise_iff (List.pairwise_insertionSort _ _)
      fun b hb hab hba => hm.eq_of_ix ((hmem b).mp hb) (by
        rw [Matched.precedes, decide_eq_true_iff] at hab hba
        omega)]
    refine and_congr (hmem m) (and_congr_right fun _ => ?_)
    exact forall_congr' fun m' => ⟨fun h hm' he => (hrank m' hm').mp (h ((hmem m').mpr hm') he),
      fun h hm' he => (hrank m' ((hmem m').mp hm')).mpr (h ((hmem m').mp hm') he)⟩
  · exact iff_of_false (fun h => hm ((hmem m).mp (List.mem_of_find?_eq_some h))) fun h => hm h.1

/-- **What an input runs first.** -/
theorem firstResult_iff [BEq P] {action : Action P} :
    (keymap.bindingsForInput os input contextStack).1.head?.any
        (fun found => found.action.partialEq action) = true ↔
      Wins os keymap contextStack action input := by
  rw [bindingsForInput, resolveBindingsForInput]
  dsimp only
  rw [List.head?_map, head?_takeMatched]
  refine ⟨fun h => ?_, fun ⟨m, hm, hno, haction, hfirst⟩ => ?_⟩
  · obtain ⟨found, hfound, haction⟩ := (Option.any_eq_true _ _).mp h
    obtain ⟨e, he, rfl⟩ := Option.map_eq_some_iff.mp hfound
    obtain ⟨m, hm, hsome⟩ := Option.bind_eq_some_iff.mp he
    obtain ⟨hmatch, -, hfirst⟩ := find?_endsSearch_iff.mp hm
    split at hsome
    · exact absurd hsome (by simp)
    · rename_i hno
      obtain rfl := Option.some.inj hsome
      rw [Bool.not_eq_true] at hno
      refine ⟨m, hmatch, hno, haction, fun m' hm' hstop => ?_⟩
      have hends : endsSearch m' = true := by
        rcases hstop with huser | ⟨hno', -⟩
        · rw [endsSearch, huser, Bool.or_true]
        · rw [endsSearch, hno']
          rfl
      rcases hfirst m' hm' hends with rfl | hrank
      · rcases hstop with huser | ⟨-, hother⟩
        · rw [isUserNoAction, hno] at huser
          exact absurd huser Bool.false_ne_true
        · rw [haction] at hother
          exact absurd hother Bool.true_eq_false_eq_False
      · exact hrank
  · -- the search ends somewhere, and nowhere that the match carrying the action outranks
    have hends : endsSearch m = true := by
      rw [endsSearch, hno]
      rfl
    obtain ⟨f, hf⟩ := Option.isSome_iff_exists.mp (List.find?_isSome.mpr
      ⟨m, (List.perm_insertionSort (fun a b : Matched P => a.precedes b = true) _).mem_iff.mpr
        (mem_matchedBindings.mpr hm), hends⟩)
    obtain ⟨hmatch, hfends, hffirst⟩ := find?_endsSearch_iff.mp hf
    have hnot : ¬ Outranks m f := by
      rcases hffirst m hm hends with rfl | hrank
      · intro h
        exact h.asymm h
      · exact hrank.asymm
    have huser : isUserNoAction f.2.2 = false :=
      Bool.not_eq_true _ ▸ fun h => hnot (hfirst f hmatch (Or.inl h))
    have hfno : f.2.2.action.isNoAction = false := by
      rw [endsSearch, huser, Bool.or_false, Bool.not_eq_true'] at hfends
      exact hfends
    have hfaction : f.2.2.action.partialEq action = true := by
      cases hp : f.2.2.action.partialEq action with
      | true => rfl
      | false => exact absurd (hfirst f hmatch (Or.inr ⟨hfno, hp⟩)) hnot
    rw [hf]
    simp [hfno, hfaction]

/-! ### What is shown -/

/-- A binding that a `NoAction` added later removes. -/
def Removed (keymap : Keymap P) (ix : Nat) (binding : KeyBinding P) : Prop :=
  ∃ nullIx nullBinding, ix < nullIx ∧ keymap.bindings[nullIx]? = some nullBinding ∧
    nullBinding.action.isNoAction = true ∧ removes nullBinding binding = true

/-- The test of the loop over the `NoAction` bindings. -/
def removedTest (keymap : Keymap P) (ix : Nat) (binding : KeyBinding P) : Bool :=
  keymap.noActionBindingIndices.any fun nullIx =>
    decide (ix < nullIx) && (keymap.bindings[nullIx]?).any fun nullBinding =>
      removes nullBinding binding

theorem removedTest_iff {ix : Nat} {binding : KeyBinding P} :
    keymap.removedTest ix binding = true ↔ keymap.Removed ix binding := by
  rw [removedTest, keymap.noAction_eq, List.any_eq_true]
  refine ⟨fun ⟨nullIx, hmem, h⟩ => ?_, fun ⟨nullIx, null, hlt, hget, hno, hr⟩ => ?_⟩
  · obtain ⟨null, hget, hno⟩ := mem_positions.mp hmem
    rw [hget, Option.any_some, Bool.and_eq_true_iff, decide_eq_true_iff] at h
    exact ⟨nullIx, null, h.1, hget, hno, h.2⟩
  · refine ⟨nullIx, mem_positions.mpr ⟨null, hget, hno⟩, ?_⟩
    rw [hget, Option.any_some, hr, decide_eq_true hlt]
    rfl

section Shown

variable [BEq P]

theorem bindingsForAction_eq (keymap : Keymap P) (action : Action P) :
    keymap.bindingsForAction action =
      (keymap.bindings.zipIdx.filter fun e => !e.1.action.isNoAction &&
        e.1.action.partialEq action && !keymap.removedTest e.2 e.1).map Prod.fst := by
  rw [bindingsForAction, keymap.indices_eq, positions, List.filterMap_map, List.filterMap_filter,
    ← List.filterMap_eq_map, List.filterMap_filter]
  refine List.filterMap_congr fun e he => ?_
  obtain ⟨binding, ix⟩ := e
  have hget : keymap.bindings[ix]? = some binding := List.mem_zipIdx_iff_getElem?.mp he
  have htype : binding.action.partialEq action = true →
      (binding.action.typeId == action.typeId) = true :=
    fun h => beq_iff_eq.mpr (Action.partialEq_typeId h)
  simp only [Function.comp_apply, hget, Option.bind_some]
  rw [show (keymap.noActionBindingIndices.any fun nullIx =>
    decide (ix < nullIx) && (keymap.bindings[nullIx]?).any fun nullBinding =>
      removes nullBinding binding) = keymap.removedTest ix binding from rfl]
  cases hp : binding.action.partialEq action with
  | false => simp
  | true =>
    rw [htype hp]
    cases hno : binding.action.isNoAction with
    | true => rfl
    | false => cases hr : keymap.removedTest ix binding with
      | true => rfl
      | false => rfl

theorem Wins.isNoAction {os : TargetOs} {keymap : Keymap P} {action : Action P}
    {contextStack : List KeyContext} {input : List Keystroke}
    (h : Wins os keymap contextStack action input) : action.isNoAction = false := by
  obtain ⟨m, -, hno, heq, -⟩ := h
  rw [Action.isNoAction_eq, ← Action.partialEq_typeId heq, ← Action.isNoAction_eq]
  exact hno

/-- The bindings that dispatch would run, in keymap order: their action equals the
given one and is the first result of their keystrokes. -/
def dispatched (os : TargetOs) (keymap : Keymap P) (action : Action P)
    (contextStack : List KeyContext) : List (KeyBinding P) :=
  keymap.bindings.filter fun binding => binding.action.partialEq action &&
    (keymap.bindingsForInput os binding.chord contextStack).1.head?.any
      fun found => found.action.partialEq action

theorem dispatched_ne_nil_iff {os : TargetOs} {keymap : Keymap P} {action : Action P}
    {contextStack : List KeyContext} :
    keymap.dispatched os action contextStack ≠ [] ↔
      ∃ binding ∈ keymap.bindings, binding.action.partialEq action = true ∧
        Wins os keymap contextStack action binding.chord := by
  rw [← List.isEmpty_eq_false_iff, List.isEmpty_eq_false_iff_exists_mem]
  refine exists_congr fun binding => ?_
  rw [dispatched, List.mem_filter, Bool.and_eq_true_iff, firstResult_iff]

theorem highestPrecedence_eq_getLast? (os : TargetOs) (keymap : Keymap P) (action : Action P)
    (contextStack : List KeyContext) :
    DispatchTree.highestPrecedenceBindingForAction os keymap action contextStack
      = (DispatchTree.bindingsForAction os keymap action contextStack).getLast? := by
  rw [DispatchTree.highestPrecedenceBindingForAction, DispatchTree.bindingsForAction,
    ← List.head?_filter, List.filter_reverse, List.head?_reverse]

/-- What is shown agrees with dispatch: the shown bindings are those that dispatch
would run, an action that some chord runs is shown, and the binding of highest
precedence is the last one shown. -/
def ShownAgree (os : TargetOs) (keymap : Keymap P) (action : Action P)
    (contextStack : List KeyContext) : Prop :=
  DispatchTree.bindingsForAction os keymap action contextStack
      = keymap.dispatched os action contextStack ∧
    (∀ input : List Keystroke, (keymap.bindingsForInput os input contextStack).1.head?.any
        (fun found => found.action.partialEq action) = true →
      DispatchTree.bindingsForAction os keymap action contextStack ≠ []) ∧
    DispatchTree.highestPrecedenceBindingForAction os keymap action contextStack
      = (DispatchTree.bindingsForAction os keymap action contextStack).getLast?

variable [PartialEquivBEq P]

/-- The first result is compared with the binding, whose action equals the given
one. -/
theorem notShadowed_iff {os : TargetOs} {keymap : Keymap P} {action : Action P}
    {contextStack : List KeyContext} {binding : KeyBinding P}
    (h : binding.action.partialEq action = true) :
    DispatchTree.bindingMatchesPredicateAndNotShadowed os keymap binding contextStack = true ↔
      Wins os keymap contextStack action binding.chord := by
  rw [DispatchTree.bindingMatchesPredicateAndNotShadowed, ← firstResult_iff, Option.any_eq_true,
    Option.any_eq_true]
  refine exists_congr fun found => and_congr_right fun _ => ?_
  exact ⟨fun hf => Action.partialEq_trans hf h,
    fun hf => Action.partialEq_trans hf (Action.partialEq_symm h)⟩

/-- **Shown and dispatched bindings are the same exactly when nothing that
dispatch would run is removed.** -/
theorem shown_eq_iff (os : TargetOs) (keymap : Keymap P) (action : Action P)
    (contextStack : List KeyContext) :
    DispatchTree.bindingsForAction os keymap action contextStack
        = keymap.dispatched os action contextStack ↔
      ∀ ix binding, keymap.bindings[ix]? = some binding →
        binding.action.partialEq action = true → keymap.Removed ix binding →
        ¬ Wins os keymap contextStack action binding.chord := by
  rw [DispatchTree.bindingsForAction, bindingsForAction_eq, List.filter_map, List.filter_filter,
    dispatched, filter_eq_map_zipIdx _ keymap.bindings, map_filter_eq_iff]
  · refine ⟨fun h ix binding hget heq hr hw => ?_, fun h e he hq => ?_⟩
    · have hp := h (binding, ix) (List.mem_zipIdx_iff_getElem?.mpr hget)
        (Bool.and_eq_true_iff.mpr ⟨heq, firstResult_iff.mpr hw⟩)
      simp only [Bool.and_eq_true, Bool.not_eq_true'] at hp
      rw [removedTest_iff.mpr hr] at hp
      exact absurd hp.2.2 Bool.true_eq_false_eq_False
    · obtain ⟨heq, hfirst⟩ := Bool.and_eq_true_iff.mp hq
      have hw := firstResult_iff.mp hfirst
      have hremoved : keymap.removedTest e.2 e.1 = false :=
        Bool.not_eq_true _ ▸ fun hr =>
          h e.2 e.1 (List.mem_zipIdx_iff_getElem?.mp he) heq (removedTest_iff.mp hr) hw
      have hno : e.1.action.isNoAction = false := by
        rw [Action.isNoAction_eq, Action.partialEq_typeId heq, ← Action.isNoAction_eq]
        exact hw.isNoAction
      simp [Function.comp_apply, (notShadowed_iff heq).mpr hw, hno, heq, hremoved]
  · intro e he hp
    simp only [Function.comp_apply, Bool.and_eq_true] at hp
    obtain ⟨hshadow, ⟨-, heq⟩, -⟩ := hp
    exact Bool.and_eq_true_iff.mpr ⟨heq, firstResult_iff.mpr ((notShadowed_iff heq).mp hshadow)⟩

/-- **Shown shortcuts agree with dispatch** exactly when no binding that a later
`NoAction` removes has keystrokes that the action wins, and the action wins some
input only if it wins the keystrokes of one of its bindings. -/
theorem shownAgree_iff (os : TargetOs) (keymap : Keymap P) (action : Action P)
    (contextStack : List KeyContext) :
    ShownAgree os keymap action contextStack ↔
      (∀ ix binding, keymap.bindings[ix]? = some binding →
        binding.action.partialEq action = true → keymap.Removed ix binding →
        ¬ Wins os keymap contextStack action binding.chord) ∧
      ∀ input, Wins os keymap contextStack action input →
        ∃ binding ∈ keymap.bindings, binding.action.partialEq action = true ∧
          Wins os keymap contextStack action binding.chord := by
  rw [ShownAgree, shown_eq_iff]
  refine and_congr_right fun h => ?_
  rw [(shown_eq_iff os keymap action contextStack).mpr h]
  refine ⟨fun hinput input hw => ?_, fun hinput => ⟨fun input hfirst => ?_, ?_⟩⟩
  · exact dispatched_ne_nil_iff.mp (hinput.1 input (firstResult_iff.mpr hw))
  · exact dispatched_ne_nil_iff.mpr (hinput input (firstResult_iff.mp hfirst))
  · rw [← (shown_eq_iff os keymap action contextStack).mpr h]
    exact highestPrecedence_eq_getLast? os keymap action contextStack

end Shown

/-! ### Plain keymaps -/

/-- No keystroke of the keymap carries a typed character of its own. -/
def Plain (keymap : Keymap P) : Prop :=
  ∀ binding ∈ keymap.bindings, ∀ keystroke ∈ binding.keystrokes, keystroke.inner.Plain

/-- **In a plain keymap an action that wins some input wins the keystrokes of one
of its bindings.** -/
theorem Wins.chord [BEq P] {os : TargetOs} {keymap : Keymap P} {action : Action P}
    {contextStack : List KeyContext} {input : List Keystroke} (hplain : keymap.Plain)
    (h : Wins os keymap contextStack action input) :
    ∃ binding ∈ keymap.bindings, binding.action.partialEq action = true ∧
      Wins os keymap contextStack action binding.chord := by
  obtain ⟨m, hm, hno, haction, hfirst⟩ := h
  have hmem : m.2.2 ∈ keymap.bindings := List.mem_of_getElem? hm.1
  refine ⟨m.2.2, hmem, haction, m, ⟨hm.1, hm.2.1, m.2.2.matchKeystrokes_chord os⟩, hno, haction, ?_⟩
  intro m' hm' hstop
  have hmatch := KeyBinding.matchKeystrokes_of_chord (hplain m.2.2 hmem) hm.2.2 hm'.2.2
  exact hfirst m' ⟨hm'.1, hm'.2.1, hmatch⟩ hstop

/-! ### Two keymaps -/

/-- A key pressed with control. -/
def ctrl (key : SharedString) : KeybindingKeystroke := ⟨⟨{ control := true }, key, none⟩, none⟩

/-- An action bound to two keys, one of which the user removes. -/
def removedByUser : Keymap Unit :=
  new [⟨.other 0 (), [ctrl ['a']], none, none, none⟩, ⟨.other 0 (), [ctrl ['b']], none, none, none⟩,
    ⟨.noAction, [ctrl ['a']], none, some 0, none⟩]

/-- An action bound to a key, and a `NoAction` of a base keymap for that key. -/
def removedByBase : Keymap Unit :=
  new [⟨.other 0 (), [ctrl ['a']], none, none, none⟩, ⟨.noAction, [ctrl ['a']], none, some 1, none⟩]

theorem shownAgree_removedByUser : ShownAgree .linux removedByUser (.other 0 ()) [] := by
  refine (shownAgree_iff .linux removedByUser (.other 0 ()) []).mpr ⟨fun ix binding hget _ hr => ?_,
    fun input hw => hw.chord ?_⟩
  · have hall : ∀ e ∈ removedByUser.bindings.zipIdx, removedByUser.removedTest e.2 e.1 = true →
        (removedByUser.bindingsForInput .linux e.1.chord []).1.head?.any
          (fun found => found.action.partialEq (.other 0 ())) ≠ true := by decide
    exact fun hw => hall (binding, ix) (List.mem_zipIdx_iff_getElem?.mpr hget)
      (removedTest_iff.mpr hr) (firstResult_iff.mpr hw)
  · unfold Plain
    decide

theorem not_shownAgree_removedByBase : ¬ ShownAgree .linux removedByBase (.other 0 ()) [] := by
  intro h
  have hlen := congrArg List.length h.1
  exact absurd hlen (by decide)

end Keymap

end FcGpui

import FcGpui.Keymap.ShownShortcuts

/-!
# Next keys and dispatch

`possible_next_bindings_for_input` of `Keymap` in `crates/gpui/src/keymap.rs`.  It
keeps the bindings that go on from the typed input and resolves, among those only,
what each of them would run: the typed input and the rest of its own keystrokes.

`Dispatches` says which matches of an input are run: those that carry an action and
outrank every `NoAction` of the user.  A binding that matches a longer input goes on
from the shorter one, so nothing that matters is dropped
(`resolveBindingsForInput_extending`).

**Main result.**  `possibleNextBindings_eq_dispatch`: the next keys are those whose
whole chord dispatch would run, in the order of precedence.
-/

namespace FcGpui

namespace Keymap

variable {P : Type}

/-- The bindings that go on from the input, the last first. -/
def bindingsExtendingInput (os : TargetOs) (keymap : Keymap P) (input : List Keystroke) :
    List (Nat × KeyBinding P) :=
  keymap.indexed.filter fun (_, binding) => (binding.matchKeystrokes os input).any id

/-- What is typed when the keystrokes of a binding go on from the input. -/
def fullInput (input : List Keystroke) (binding : KeyBinding P) : List Keystroke :=
  input ++ (binding.keystrokes.drop input.length).map KeybindingKeystroke.inner

/-- The bindings that may follow, with their depths and positions. -/
def nextCandidates (os : TargetOs) (keymap : Keymap P) (input : List Keystroke)
    (contextStack : List KeyContext) : List (Matched P) :=
  let extending := keymap.bindingsExtendingInput os input
  let candidates := (extending.filter fun (_, binding) => !binding.action.isNoAction).filterMap
    fun (ix, binding) => do
      let depth ← bindingEnabled binding contextStack
      let dispatched :=
        (resolveBindingsForInput os (fullInput input binding) contextStack extending).1
      if dispatched.any fun (dispatchedIx, _) => dispatchedIx == ix then some (depth, ix, binding)
      else none
  candidates.insertionSort fun a b => a.precedes b = true

def possibleNextBindingsForInput (os : TargetOs) (keymap : Keymap P) (input : List Keystroke)
    (contextStack : List KeyContext) : List (KeyBinding P) :=
  (keymap.nextCandidates os input contextStack).map fun (_, _, binding) => binding

/-! ### What an input runs -/

/-- A match that is run: it carries an action and outranks every `NoAction` of the
user. -/
def Dispatches (os : TargetOs) (keymap : Keymap P) (contextStack : List KeyContext)
    (input : List Keystroke) (m : Matched P) : Prop :=
  Matches os keymap contextStack input m ∧ m.2.2.action.isNoAction = false ∧
    ∀ m', Matches os keymap contextStack input m' → isUserNoAction m'.2.2 = true → Outranks m m'

theorem takeMatched_eq (l : List (Matched P)) :
    takeMatched l = ((l.takeWhile fun m => !isUserNoAction m.2.2).filter
      fun m => !m.2.2.action.isNoAction).map Prod.snd := by
  induction l with
  | nil => rfl
  | cons m l ih =>
    obtain ⟨depth, ix, binding⟩ := m
    rw [takeMatched, List.takeWhile_cons]
    cases hno : binding.action.isNoAction with
    | false => simp [isUserNoAction, hno, ih]
    | true => cases huser : isUserNoAction binding with
      | false => simpa [hno] using ih
      | true => rfl

theorem Outranks.precedes {a b : Matched P} (h : Outranks a b) : a.precedes b = true := by
  rw [Outranks] at h
  rw [Matched.precedes, decide_eq_true_iff]
  omega

theorem outranks_of_precedes {a b : Matched P} (h : a.precedes b = true) (hne : a.2.1 ≠ b.2.1) :
    Outranks a b := by
  rw [Matched.precedes, decide_eq_true_iff] at h
  rw [Outranks]
  omega

variable {binding : KeyBinding P} {input : List Keystroke} {keymap : Keymap P} {os : TargetOs}

/-- **What an input runs**, by position. -/
theorem mem_resolveBindingsForInput {contextStack : List KeyContext} {ix : Nat} :
    (ix, binding) ∈ (resolveBindingsForInput os input contextStack keymap.indexed).1 ↔
      ∃ depth, Dispatches os keymap contextStack input (depth, ix, binding) := by
  rw [resolveBindingsForInput]
  dsimp only
  have hmem : ∀ m, m ∈ (matchedBindings os input contextStack keymap.indexed false).insertionSort
      (fun a b => a.precedes b = true) ↔ Matches os keymap contextStack input m :=
    fun m => (List.perm_insertionSort _ _).mem_iff.trans mem_matchedBindings
  have hanti : ∀ b ∈ (matchedBindings os input contextStack keymap.indexed false).insertionSort
        (fun a b => a.precedes b = true),
      ∀ c ∈ (matchedBindings os input contextStack keymap.indexed false).insertionSort
        (fun a b => a.precedes b = true), b.precedes c = true → c.precedes b = true → b = c := by
    intro b hb c hc hbc hcb
    refine ((hmem b).mp hb).eq_of_ix ((hmem c).mp hc) ?_
    rw [Matched.precedes, decide_eq_true_iff] at hbc hcb
    omega
  rw [takeMatched_eq, List.mem_map]
  constructor
  · rintro ⟨⟨depth, ix', binding'⟩, hm, heq⟩
    obtain ⟨rfl, rfl⟩ := Prod.mk.inj heq
    obtain ⟨htake, hno⟩ := List.mem_filter.mp hm
    obtain ⟨hsorted, -, hbefore⟩ :=
      (mem_takeWhile_pairwise_iff (List.pairwise_insertionSort _ _) hanti).mp htake
    rw [Bool.not_eq_true'] at hno
    refine ⟨depth, (hmem _).mp hsorted, hno, fun m' hm' huser => ?_⟩
    have hprec := hbefore m' ((hmem m').mpr hm') (by rw [huser]; rfl)
    refine outranks_of_precedes hprec fun hix => ?_
    obtain rfl := ((hmem _).mp hsorted).eq_of_ix hm' hix
    rw [isUserNoAction, hno] at huser
    cases huser
  · rintro ⟨depth, hmatch, hno, hrank⟩
    refine ⟨(depth, ix, binding), List.mem_filter.mpr ⟨?_, by rw [hno]; rfl⟩, rfl⟩
    refine (mem_takeWhile_pairwise_iff (List.pairwise_insertionSort _ _) hanti).mpr
      ⟨(hmem _).mpr hmatch, ?_, fun m' hm' huser => ?_⟩
    · rw [isUserNoAction, hno]
      rfl
    · rw [Bool.not_eq_false'] at huser
      exact (hrank m' ((hmem m').mp hm') huser).precedes

/-! ### The next keys -/

theorem matchKeystrokes_fullInput
    (h : binding.matchKeystrokes os input = some true) :
    binding.matchKeystrokes os (fullInput input binding) = some false := by
  obtain ⟨hlen, hall, -⟩ := KeyBinding.matchKeystrokes_eq_some_iff.mp h
  have hfull : (fullInput input binding).length = binding.keystrokes.length := by
    rw [fullInput, List.length_append, List.length_map, List.length_drop]
    omega
  refine KeyBinding.matchKeystrokes_eq_some_iff.mpr
    ⟨hfull.le, fun i target keystroke htarget hkey => ?_, (decide_eq_false (by omega)).symm⟩
  by_cases hi : i < input.length
  · rw [fullInput, List.getElem?_append_left hi] at hkey
    exact hall i target keystroke htarget hkey
  · rw [fullInput, List.getElem?_append_right (Nat.not_lt.mp hi), List.getElem?_map,
      List.getElem?_drop, Nat.add_sub_cancel' (Nat.not_lt.mp hi), htarget, Option.map_some] at hkey
    cases hkey
    exact Keystroke.shouldMatch_self os target

/-- **Nothing that matters is dropped**: a longer input is resolved alike among all
bindings and among those that go on from the input. -/
theorem resolveBindingsForInput_extending (os : TargetOs) (keymap : Keymap P)
    {rest : List Keystroke} (hrest : rest ≠ []) (contextStack : List KeyContext) :
    resolveBindingsForInput os (input ++ rest) contextStack (keymap.bindingsExtendingInput os input) =
      resolveBindingsForInput os (input ++ rest) contextStack keymap.indexed := by
  have hmatched : ∀ pending, matchedBindings os (input ++ rest) contextStack
      (keymap.bindingsExtendingInput os input) pending =
        matchedBindings os (input ++ rest) contextStack keymap.indexed pending := by
    intro pending
    rw [matchedBindings, matchedBindings, bindingsExtendingInput, List.filterMap_filter]
    refine List.filterMap_congr fun e _ => ?_
    obtain ⟨ix, binding⟩ := e
    cases hm : binding.matchKeystrokes os (input ++ rest) with
    | none =>
      dsimp only
      rw [hm]
      cases bindingEnabled binding contextStack with
      | none => exact ite_self none
      | some depth => exact ite_self none
    | some p =>
      rw [if_pos]
      simp [KeyBinding.matchKeystrokes_of_append hrest hm]
  rw [resolveBindingsForInput, hmatched, hmatched]
  rfl

theorem mem_bindingsExtendingInput {ix : Nat} :
    (ix, binding) ∈ keymap.bindingsExtendingInput os input ↔
      keymap.bindings[ix]? = some binding ∧ binding.matchKeystrokes os input = some true := by
  rw [bindingsExtendingInput, List.mem_filter, mem_indexed]
  refine and_congr_right fun _ => ?_
  dsimp only
  cases binding.matchKeystrokes os input with
  | none => simp
  | some p => simp

theorem rest_ne_nil
    (h : binding.matchKeystrokes os input = some true) :
    (binding.keystrokes.drop input.length).map KeybindingKeystroke.inner ≠ [] := by
  obtain ⟨-, -, hp⟩ := KeyBinding.matchKeystrokes_eq_some_iff.mp h
  have hlt := of_decide_eq_true hp.symm
  refine List.ne_nil_of_length_pos ?_
  rw [List.length_map, List.length_drop]
  omega

theorem mem_nextCandidates {contextStack : List KeyContext} {m : Matched P} :
    m ∈ keymap.nextCandidates os input contextStack ↔
      keymap.bindings[m.2.1]? = some m.2.2 ∧ m.2.2.action.isNoAction = false ∧
        bindingEnabled m.2.2 contextStack = some m.1 ∧
        m.2.2.matchKeystrokes os input = some true ∧
        m.2 ∈ (resolveBindingsForInput os (fullInput input m.2.2) contextStack keymap.indexed).1 := by
  rw [nextCandidates]
  dsimp only
  rw [(List.perm_insertionSort _ _).mem_iff, List.mem_filterMap]
  refine ⟨fun ⟨e, he, heq⟩ => ?_, fun h => ?_⟩
  · obtain ⟨ix, binding⟩ := e
    obtain ⟨hmem, hno⟩ := List.mem_filter.mp he
    obtain ⟨hget, hmatch⟩ := mem_bindingsExtendingInput.mp hmem
    obtain ⟨depth, hdepth, heq⟩ := Option.bind_eq_some_iff.mp heq
    obtain ⟨hany, hsome⟩ := Option.ite_none_right_eq_some.mp heq
    cases hsome
    rw [Bool.not_eq_true'] at hno
    rw [fullInput, resolveBindingsForInput_extending os keymap (rest_ne_nil hmatch)] at hany
    obtain ⟨⟨ix', found⟩, hfound, hix⟩ := List.any_eq_true.mp hany
    obtain rfl : ix' = ix := beq_iff_eq.mp hix
    obtain ⟨_, hdispatch⟩ := mem_resolveBindingsForInput.mp hfound
    obtain rfl : binding = found := Option.some.inj (hget.symm.trans hdispatch.1.1)
    exact ⟨hget, hno, hdepth, hmatch, hfound⟩
  · obtain ⟨depth, ix, binding⟩ := m
    obtain ⟨hget, hno, hdepth, hmatch, hfound⟩ := h
    dsimp only at hno hdepth hmatch hfound
    refine ⟨(ix, binding), List.mem_filter.mpr ⟨mem_bindingsExtendingInput.mpr ⟨hget, hmatch⟩,
      by rw [hno]; rfl⟩, ?_⟩
    have hany : ((resolveBindingsForInput os (fullInput input binding) contextStack
        (keymap.bindingsExtendingInput os input)).1.any fun e => e.1 == ix) = true := by
      rw [fullInput, resolveBindingsForInput_extending os keymap (rest_ne_nil hmatch)]
      exact List.any_eq_true.mpr ⟨(ix, binding), hfound, beq_self_eq_true ix⟩
    simp only [hdepth, Option.bind_eq_bind, Option.bind_some]
    exact if_pos hany

theorem nodup_indexed (keymap : Keymap P) : keymap.indexed.Nodup := by
  rw [indexed, List.nodup_reverse]
  exact (List.Nodup.of_map _ (List.nodup_zipIdx_map_snd keymap.bindings)).map Prod.swap_injective

theorem nodup_nextCandidates (os : TargetOs) (keymap : Keymap P) (input : List Keystroke)
    (contextStack : List KeyContext) : (keymap.nextCandidates os input contextStack).Nodup := by
  rw [nextCandidates]
  dsimp only
  rw [(List.perm_insertionSort _ _).nodup_iff]
  refine (((nodup_indexed keymap).filter _).filter _).filterMap fun a b m ha hb => ?_
  obtain ⟨_, -, ha⟩ := Option.bind_eq_some_iff.mp ha
  obtain ⟨_, -, hb⟩ := Option.bind_eq_some_iff.mp hb
  obtain ⟨-, hsome⟩ := Option.ite_none_right_eq_some.mp ha
  obtain ⟨-, hsome'⟩ := Option.ite_none_right_eq_some.mp hb
  have heq := Option.some.inj (hsome.trans hsome'.symm)
  exact congrArg Prod.snd heq

theorem pairwise_precedes_nextCandidates (os : TargetOs) (keymap : Keymap P)
    (input : List Keystroke) (contextStack : List KeyContext) :
    (keymap.nextCandidates os input contextStack).Pairwise fun a b => a.precedes b = true :=
  List.pairwise_insertionSort _ _

/-- **The next keys are those whose whole chord dispatch would run**, each once and
in the order of precedence.  What `bindings_for_input` finds is given here with
the positions in the keymap. -/
theorem possibleNextBindings_eq_dispatch (os : TargetOs) (keymap : Keymap P)
    (input : List Keystroke) (contextStack : List KeyContext) :
    keymap.possibleNextBindingsForInput os input contextStack =
        (keymap.nextCandidates os input contextStack).map (fun m => m.2.2) ∧
      (keymap.nextCandidates os input contextStack).Pairwise Outranks ∧
      (∀ depth ix binding, (depth, ix, binding) ∈ keymap.nextCandidates os input contextStack ↔
        keymap.bindings[ix]? = some binding ∧ binding.action.isNoAction = false ∧
          bindingEnabled binding contextStack = some depth ∧
          binding.matchKeystrokes os input = some true ∧
          (ix, binding) ∈ (resolveBindingsForInput os (fullInput input binding) contextStack
            keymap.indexed).1) ∧
      ∀ binding ∈ keymap.bindings, binding.matchKeystrokes os input = some true →
        resolveBindingsForInput os (fullInput input binding) contextStack
            (keymap.bindingsExtendingInput os input) =
          resolveBindingsForInput os (fullInput input binding) contextStack keymap.indexed := by
  refine ⟨rfl, ?_, fun depth ix binding => mem_nextCandidates, fun binding _ hmatch => ?_⟩
  · refine List.Pairwise.imp_of_mem ?_
      ((pairwise_precedes_nextCandidates os keymap input contextStack).and
        (nodup_nextCandidates os keymap input contextStack))
    intro a b ha hb hab
    refine outranks_of_precedes hab.1 fun hix => hab.2 ?_
    obtain ⟨hget, -, hdepth, -⟩ := mem_nextCandidates.mp ha
    obtain ⟨hget', -, hdepth', -⟩ := mem_nextCandidates.mp hb
    rw [hix] at hget
    have hbinding : a.2.2 = b.2.2 := Option.some.inj (hget.symm.trans hget')
    rw [hbinding] at hdepth
    exact Prod.ext (Option.some.inj (hdepth.symm.trans hdepth')) (Prod.ext hix hbinding)
  · exact resolveBindingsForInput_extending os keymap (rest_ne_nil hmatch) contextStack

end Keymap

end FcGpui

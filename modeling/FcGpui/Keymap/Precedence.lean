import FcGpui.Keymap.PendingPrefix

/-!
# The order of precedence

What `bindings_for_input` of `Keymap` returns, told without its sort and its loop: a
binding ranks at the deepest depth at which its predicate matches, or at the depth of the
whole stack if it has none (`Ranks`).  The bindings returned are those that match, carry an
action and come before every `NoAction` of the user that matches, in the order of their
ranks and, at one rank, of their positions from the last.

**Main result.**  `bindingsForInput_precedence`.
-/

namespace FcGpui

namespace Keymap

variable {P : Type} {os : TargetOs} {keymap : Keymap P} {contextStack : List KeyContext} {input : List Keystroke}
  {binding : KeyBinding P} {depth : Nat}

/-- The depth at which a binding ranks. -/
structure Ranks (binding : KeyBinding P) (contextStack : List KeyContext) (depth : Nat) : Prop where
  le : depth ≤ contextStack.length
  none : binding.contextPredicate = none → depth = contextStack.length
  eval : ∀ predicate ∈ binding.contextPredicate,
    predicate.evalInner (contextStack.take depth) contextStack = true
  deepest : ∀ predicate ∈ binding.contextPredicate, ∀ deeper, depth < deeper → deeper ≤ contextStack.length →
    predicate.evalInner (contextStack.take deeper) contextStack = false

theorem depthOf_eq_some_iff {predicate : KeyBindingContextPredicate} :
    predicate.depthOf contextStack = some depth ↔ depth ≤ contextStack.length ∧
      predicate.evalInner (contextStack.take depth) contextStack = true ∧
      ∀ deeper, depth < deeper → deeper ≤ contextStack.length →
        predicate.evalInner (contextStack.take deeper) contextStack = false := by
  generalize hn : contextStack.length = n
  have hrange : predicate.depthOf contextStack = ((List.range (n + 1)).reverse.find? fun depth =>
      predicate.evalInner (contextStack.take depth) contextStack) := by rw [KeyBindingContextPredicate.depthOf, hn]
  rw [hrange]
  clear hrange hn
  induction n with
  | zero =>
    rw [List.range_one, List.reverse_singleton, List.find?_cons]
    split
    · rename_i hmatch
      constructor
      · rintro ⟨⟩
        exact ⟨le_rfl, hmatch, fun deeper hlt hle => absurd hlt (by omega)⟩
      · rintro ⟨hle, -, -⟩
        rw [Nat.le_zero.mp hle]
    · rename_i hmatch
      refine iff_of_false nofun ?_
      rintro ⟨hle, heval, -⟩
      rw [Nat.le_zero.mp hle, hmatch] at heval
      cases heval
  | succ n ih =>
    rw [List.range_succ, List.reverse_append, List.reverse_singleton, List.singleton_append, List.find?_cons]
    split
    · rename_i hmatch
      constructor
      · rintro ⟨⟩
        exact ⟨le_rfl, hmatch, fun deeper hlt hle => absurd hlt (by omega)⟩
      · rintro ⟨hle, heval, hdeepest⟩
        rcases Nat.lt_or_ge depth (n + 1) with hlt | hge
        · rw [hdeepest (n + 1) hlt le_rfl] at hmatch
          cases hmatch
        · rw [Nat.le_antisymm hle hge]
    · rename_i hmatch
      refine ih.trans ?_
      constructor
      · rintro ⟨hle, heval, hdeepest⟩
        refine ⟨by omega, heval, fun deeper hlt hle' => ?_⟩
        rcases Nat.lt_or_ge deeper (n + 1) with hlt' | hge
        · exact hdeepest deeper hlt (by omega)
        · rw [Nat.le_antisymm hle' hge, hmatch]
      · rintro ⟨hle, heval, hdeepest⟩
        refine ⟨?_, heval, fun deeper hlt hle' => hdeepest deeper hlt (by omega)⟩
        rcases Nat.lt_or_ge depth (n + 1) with hlt | hge
        · omega
        · rw [Nat.le_antisymm hle hge, hmatch] at heval
          cases heval

theorem bindingEnabled_eq_some_iff : bindingEnabled binding contextStack = some depth ↔
    Ranks binding contextStack depth := by
  rw [bindingEnabled]
  cases hpredicate : binding.contextPredicate with
  | none =>
    constructor
    · rintro ⟨⟩
      refine ⟨le_rfl, fun _ => rfl, ?_, ?_⟩ <;> simp [hpredicate]
    · exact fun h => congrArg some (h.none hpredicate).symm
  | some predicate =>
    constructor
    · intro h
      obtain ⟨hle, heval, hdeepest⟩ := depthOf_eq_some_iff.mp h
      refine ⟨hle, by simp [hpredicate], ?_, ?_⟩ <;>
      · intro p hp
        obtain rfl : predicate = p := by simpa [hpredicate] using hp
        assumption
    · exact fun h => depthOf_eq_some_iff.mpr ⟨h.le, h.eval predicate hpredicate, h.deepest predicate hpredicate⟩

/-- A binding at its position that is enabled and that every keystroke of the input matches. -/
structure Candidate (os : TargetOs) (keymap : Keymap P) (input : List Keystroke) (contextStack : List KeyContext)
    (m : Matched P) : Prop where
  position : keymap.bindings[m.2.1]? = some m.2.2
  ranks : Ranks m.2.2 contextStack m.1
  keystrokes : List.Forall₂ (fun target typed => Keystroke.shouldMatch os typed target = true)
    m.2.2.keystrokes input

theorem matches_iff {m : Matched P} :
    Matches os keymap contextStack input m ↔ Candidate os keymap input contextStack m := by
  rw [Matches, bindingEnabled_eq_some_iff, KeyBinding.matchKeystrokes_eq_some_false_iff]
  exact ⟨fun h => ⟨h.1, h.2.1, h.2.2⟩, fun h => ⟨h.position, h.ranks, h.keystrokes⟩⟩

theorem isUserNoAction_iff : isUserNoAction binding = true ↔
    binding.action.isNoAction = true ∧ (binding.metaIndex = none ∨ binding.metaIndex = some 0) := by
  rw [isUserNoAction, Bool.and_eq_true]
  cases binding.metaIndex <;> simp

/-- The matched bindings that are returned. -/
def resolved (os : TargetOs) (keymap : Keymap P) (input : List Keystroke) (contextStack : List KeyContext) :
    List (Matched P) :=
  (((matchedBindings os input contextStack keymap.indexed false).insertionSort
      fun a b => a.precedes b = true).takeWhile fun m => !isUserNoAction m.2.2).filter
    fun m => !m.2.2.action.isNoAction

theorem resolve_eq_resolved : (resolveBindingsForInput os input contextStack keymap.indexed).1
    = (resolved os keymap input contextStack).map Prod.snd := takeMatched_eq _

theorem mem_sorted {m : Matched P} : m ∈ (matchedBindings os input contextStack keymap.indexed false).insertionSort
    (fun a b => a.precedes b = true) ↔ Matches os keymap contextStack input m :=
  (List.perm_insertionSort _ _).mem_iff.trans mem_matchedBindings

theorem pairwise_resolved : (resolved os keymap input contextStack).Pairwise Outranks := by
  have hnodup : (matchedBindings os input contextStack keymap.indexed false).Nodup := by
    have hpairwise := pairwise_matchedBindings os keymap input contextStack false
    exact List.nodup_reverse.mp (hpairwise.imp fun hlt heq => hlt.ne (congrArg (fun m => m.2.1) heq))
  have hsorted : ((matchedBindings os input contextStack keymap.indexed false).insertionSort
      fun a b => a.precedes b = true).Pairwise Outranks := by
    refine List.Pairwise.imp_of_mem ?_ ((List.pairwise_insertionSort _ _).and
      ((List.perm_insertionSort _ _).nodup_iff.mpr hnodup))
    intro a b ha hb hab
    exact outranks_of_precedes hab.1 fun hix => hab.2 ((mem_sorted.mp ha).eq_of_ix (mem_sorted.mp hb) hix)
  exact (hsorted.sublist (List.takeWhile_sublist _)).filter _

theorem mem_resolved {m : Matched P} :
    m ∈ resolved os keymap input contextStack ↔ Dispatches os keymap contextStack input m := by
  have hmem : m ∈ resolved os keymap input contextStack →
      Matches os keymap contextStack input m := by
    intro h
    exact mem_sorted.mp ((List.takeWhile_sublist _).subset (List.mem_filter.mp h).1)
  have hmap : m.2 ∈ (resolved os keymap input contextStack).map Prod.snd ↔
      ∃ depth, Dispatches os keymap contextStack input (depth, m.2.1, m.2.2) := by
    rw [← resolve_eq_resolved]
    exact mem_resolveBindingsForInput
  constructor
  · intro h
    obtain ⟨depth, hdispatches⟩ := hmap.mp (List.mem_map_of_mem h)
    rwa [(hmem h).eq_of_ix hdispatches.1 rfl]
  · intro h
    obtain ⟨m', hm', heq⟩ := List.mem_map.mp (hmap.mpr ⟨m.1, h⟩)
    have hmatch : Matches os keymap contextStack input m' :=
      mem_sorted.mp ((List.takeWhile_sublist _).subset (List.mem_filter.mp hm').1)
    rwa [h.1.eq_of_ix hmatch (congrArg Prod.fst heq.symm)]

/-- **Precedence.**  The bindings for an input are the candidates with an action that come before every
candidate which is `NoAction` without metadata or with metadata 0, each once, the deepest first and at one
depth the last one first. -/
theorem bindingsForInput_precedence (os : TargetOs) (keymap : Keymap P) (input : List Keystroke)
    (contextStack : List KeyContext) :
    ∃ ranked : List (Matched P),
      (keymap.bindingsForInput os input contextStack).1 = ranked.map (fun m => m.2.2) ∧
      ranked.Pairwise (fun a b => b.1 < a.1 ∨ (b.1 = a.1 ∧ b.2.1 < a.2.1)) ∧
      ∀ m, m ∈ ranked ↔ Candidate os keymap input contextStack m ∧ m.2.2.action.isNoAction = false ∧
        ∀ m', Candidate os keymap input contextStack m' → m'.2.2.action.isNoAction = true →
          (m'.2.2.metaIndex = none ∨ m'.2.2.metaIndex = some 0) →
          m'.1 < m.1 ∨ (m'.1 = m.1 ∧ m'.2.1 < m.2.1) := by
  refine ⟨resolved os keymap input contextStack, ?_, pairwise_resolved, fun m => ?_⟩
  · show (resolveBindingsForInput os input contextStack keymap.indexed).1.map Prod.snd = _
    rw [resolve_eq_resolved, List.map_map]
    rfl
  · rw [mem_resolved, Dispatches, matches_iff]
    refine and_congr_right' (and_congr_right' ⟨fun h m' hm' hno hmeta => ?_, fun h m' hm' huser => ?_⟩)
    · exact h m' (matches_iff.mpr hm') (isUserNoAction_iff.mpr ⟨hno, hmeta⟩)
    · obtain ⟨hno, hmeta⟩ := isUserNoAction_iff.mp huser
      exact h m' (matches_iff.mp hm') hno hmeta

end Keymap

end FcGpui

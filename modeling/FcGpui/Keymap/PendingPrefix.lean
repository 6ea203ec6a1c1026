import FcGpui.Keymap.PossibleNext

/-!
# Which beginnings of a chord are held back

An input that runs nothing stays pending when a longer chord may follow.
`resolve_bindings_for_input` decides this in keymap order: a `NoAction` drops the
chords with its keystrokes that were added before it, whatever its depth and its
metadata (`DroppedLater`).  What dispatch runs for the longer chord is decided by
precedence: a `NoAction` of the user disables the chords that it matches and that do
not outrank it (`Disabled`).

**Main result.**  `pending_iff_possibleNext`: the pending flag tells whether a next
key would run something exactly when the two rules agree on whether no chord is left.
-/

namespace FcGpui

namespace Keymap

variable {P : Type}

/-- An enabled binding that goes on from the input. -/
def Extends (os : TargetOs) (keymap : Keymap P) (contextStack : List KeyContext)
    (input : List Keystroke) (m : Matched P) : Prop :=
  keymap.bindings[m.2.1]? = some m.2.2 ∧ bindingEnabled m.2.2 contextStack = some m.1 ∧
    m.2.2.matchKeystrokes os input = some true

/-- A `NoAction` with the same keystrokes comes later in the keymap. -/
def DroppedLater (os : TargetOs) (keymap : Keymap P) (contextStack : List KeyContext)
    (input : List Keystroke) (m : Matched P) : Prop :=
  ∃ m', Extends os keymap contextStack input m' ∧ m'.2.2.action.isNoAction = true ∧
    m'.2.2.keystrokes = m.2.2.keystrokes ∧ m.2.1 < m'.2.1

/-- A `NoAction` of the user matches what would be typed, and is not outranked. -/
def Disabled (os : TargetOs) (keymap : Keymap P) (contextStack : List KeyContext)
    (input : List Keystroke) (m : Matched P) : Prop :=
  ∃ m', Matches os keymap contextStack (fullInput input m.2.2) m' ∧
    isUserNoAction m'.2.2 = true ∧ ¬ Outranks m m'

/-- The two rules agree on whether no chord is left. -/
def RulesAgree (os : TargetOs) (keymap : Keymap P) (contextStack : List KeyContext)
    (input : List Keystroke) : Prop :=
  (∀ m, Extends os keymap contextStack input m → m.2.2.action.isNoAction = false →
      DroppedLater os keymap contextStack input m) ↔
    ∀ m, Extends os keymap contextStack input m → m.2.2.action.isNoAction = false →
      Disabled os keymap contextStack input m

variable {contextStack : List KeyContext} {input : List Keystroke} {keymap : Keymap P} {os : TargetOs}

theorem mem_matchedBindings_pending {m : Matched P} :
    m ∈ matchedBindings os input contextStack keymap.indexed true ↔
      Extends os keymap contextStack input m :=
  mem_matchedBindings_iff.trans (and_congr_left' mem_indexed)

theorem pairwise_indexed (keymap : Keymap P) :
    keymap.indexed.reverse.Pairwise fun a b => a.1 < b.1 := by
  rw [indexed, List.reverse_reverse, List.pairwise_map]
  have hrange : (keymap.bindings.zipIdx.map Prod.snd).Pairwise (· < ·) := by
    rw [List.zipIdx_map_snd]
    exact List.pairwise_lt_range'
  exact List.pairwise_map.mp hrange

theorem pairwise_matchedBindings (os : TargetOs) (keymap : Keymap P) (input : List Keystroke)
    (contextStack : List KeyContext) (pending : Bool) :
    (matchedBindings os input contextStack keymap.indexed pending).reverse.Pairwise
      fun a b => a.2.1 < b.2.1 := by
  rw [matchedBindings, ← List.filterMap_reverse]
  refine (pairwise_indexed keymap).filterMap _ fun a b hab m hm m' hm' => ?_
  obtain ⟨_, -, hm⟩ := Option.bind_eq_some_iff.mp hm
  obtain ⟨_, -, hm⟩ := Option.bind_eq_some_iff.mp hm
  obtain ⟨_, -, hm'⟩ := Option.bind_eq_some_iff.mp hm'
  obtain ⟨_, -, hm'⟩ := Option.bind_eq_some_iff.mp hm'
  obtain ⟨-, hsome⟩ := Option.ite_none_right_eq_some.mp hm
  obtain ⟨-, hsome'⟩ := Option.ite_none_right_eq_some.mp hm'
  cases hsome
  cases hsome'
  exact hab

/-- **What the loop over the pending bindings keeps**: the keystrokes of an action
that no later `NoAction` has. -/
theorem mem_pendingKeystrokes {l : List (Matched P)} {keystrokes : List KeybindingKeystroke} :
    l.Pairwise (fun a b => a.2.1 < b.2.1) →
    (keystrokes ∈ pendingKeystrokes none l ↔
      ∃ m ∈ l, m.2.2.action.isNoAction = false ∧ m.2.2.keystrokes = keystrokes ∧
        ∀ m' ∈ l, m'.2.2.action.isNoAction = true → m'.2.2.keystrokes = keystrokes →
          ¬ m.2.1 < m'.2.1) := by
  induction l using List.reverseRecOn with
  | nil => intro _; simp [pendingKeystrokes]
  | append_singleton l last ih =>
    intro hl
    obtain ⟨hl, -, hlast⟩ := List.pairwise_append.mp hl
    have hlast : ∀ m ∈ l, m.2.1 < last.2.1 := fun m hm => hlast m hm last List.mem_cons_self
    have hfold : pendingKeystrokes none (l ++ [last]) =
        if last.2.2.action.isNoAction then (pendingKeystrokes none l).erase last.2.2.keystrokes
        else insert last.2.2.keystrokes (pendingKeystrokes none l) := by
      rw [pendingKeystrokes, List.foldl_append]
      rfl
    rw [hfold]
    by_cases hno : last.2.2.action.isNoAction = true
    · rw [if_pos hno, Finset.mem_erase, ih hl]
      refine ⟨fun ⟨hne, m, hm, haction, hkeys, hnone⟩ => ?_, fun ⟨m, hm, haction, hkeys, hnone⟩ => ?_⟩
      · refine ⟨m, List.mem_append_left _ hm, haction, hkeys, fun m' hm' hno' hkeys' => ?_⟩
        rcases List.mem_append.mp hm' with hm' | hm'
        · exact hnone m' hm' hno' hkeys'
        · rw [List.mem_singleton.mp hm'] at hkeys'
          exact absurd hkeys'.symm hne
      · have hml : m ∈ l := by
          rcases List.mem_append.mp hm with hm | hm
          · exact hm
          · rw [List.mem_singleton.mp hm, hno] at haction
            cases haction
        refine ⟨fun heq => ?_, m, hml, haction, hkeys, fun m' hm' => hnone m' (List.mem_append_left _ hm')⟩
        exact hnone last (List.mem_append_right _ List.mem_cons_self) hno heq.symm (hlast m hml)
    · rw [if_neg hno, Finset.mem_insert, ih hl]
      have hearlier : ∀ m' ∈ l ++ [last], m'.2.2.action.isNoAction = true → m' ∈ l := by
        intro m' hm' hno'
        rcases List.mem_append.mp hm' with hm' | hm'
        · exact hm'
        · rw [List.mem_singleton.mp hm'] at hno'
          exact absurd hno' hno
      constructor
      · rintro (heq | ⟨m, hm, haction, hkeys, hnone⟩)
        · refine ⟨last, List.mem_append_right _ List.mem_cons_self, Bool.not_eq_true _ ▸ hno,
            heq.symm, fun m' hm' hno' _ => ?_⟩
          exact (hlast m' (hearlier m' hm' hno')).not_gt
        · exact ⟨m, List.mem_append_left _ hm, haction, hkeys,
            fun m' hm' hno' => hnone m' (hearlier m' hm' hno') hno'⟩
      · rintro ⟨m, hm, haction, hkeys, hnone⟩
        rcases List.mem_append.mp hm with hm | hm
        · exact Or.inr ⟨m, hm, haction, hkeys, fun m' hm' => hnone m' (List.mem_append_left _ hm')⟩
        · rw [List.mem_singleton.mp hm] at hkeys
          exact Or.inl hkeys.symm

/-- **An input that runs nothing is pending** when some chord is not dropped. -/
theorem pending_iff (h : (keymap.bindingsForInput os input contextStack).1 = []) :
    (keymap.bindingsForInput os input contextStack).2 = true ↔
      ∃ m, Extends os keymap contextStack input m ∧ m.2.2.action.isNoAction = false ∧
        ¬ DroppedLater os keymap contextStack input m := by
  have hmem : ∀ m, m ∈ (matchedBindings os input contextStack keymap.indexed true).reverse ↔
      Extends os keymap contextStack input m :=
    fun m => List.mem_reverse.trans mem_matchedBindings_pending
  have hnil : (resolveBindingsForInput os input contextStack keymap.indexed).1 = [] :=
    List.map_eq_nil_iff.mp h
  have hpending : (keymap.bindingsForInput os input contextStack).2 = true ↔
      pendingKeystrokes none
        (matchedBindings os input contextStack keymap.indexed true).reverse ≠ ∅ := by
    rw [bindingsForInput, resolveBindingsForInput] at *
    dsimp only at hnil ⊢
    rw [hnil, decide_eq_true_iff]
    rfl
  rw [hpending, ← Finset.nonempty_iff_ne_empty]
  constructor
  · rintro ⟨keystrokes, hk⟩
    obtain ⟨m, hm, haction, rfl, hnone⟩ :=
      (mem_pendingKeystrokes (pairwise_matchedBindings os keymap input contextStack true)).mp hk
    refine ⟨m, (hmem m).mp hm, haction, ?_⟩
    rintro ⟨m', hm', hno, hkeys, hlt⟩
    exact hnone m' ((hmem m').mpr hm') hno hkeys hlt
  · rintro ⟨m, hm, haction, hnone⟩
    refine ⟨m.2.2.keystrokes, ?_⟩
    refine (mem_pendingKeystrokes (pairwise_matchedBindings os keymap input contextStack true)).mpr
      ⟨m, (hmem m).mpr hm, haction, rfl, fun m' hm' hno hkeys hlt => ?_⟩
    exact hnone ⟨m', (hmem m').mp hm', hno, hkeys, hlt⟩

/-- **A next key runs something** when some chord is not disabled. -/
theorem possibleNext_iff :
    keymap.possibleNextBindingsForInput os input contextStack ≠ [] ↔
      ∃ m, Extends os keymap contextStack input m ∧ m.2.2.action.isNoAction = false ∧
        ¬ Disabled os keymap contextStack input m := by
  rw [possibleNextBindingsForInput, Ne, List.map_eq_nil_iff, ← Ne, ← List.isEmpty_eq_false_iff,
    List.isEmpty_eq_false_iff_exists_mem]
  refine exists_congr fun m => ?_
  rw [mem_nextCandidates]
  constructor
  · rintro ⟨hget, hno, hdepth, hmatch, hfound⟩
    obtain ⟨depth, hdispatch⟩ := mem_resolveBindingsForInput.mp hfound
    obtain rfl : m.1 = depth := Option.some.inj (hdepth.symm.trans hdispatch.1.2.1)
    exact ⟨⟨hget, hdepth, hmatch⟩, hno, fun ⟨m', hm', huser, hnot⟩ =>
      hnot (hdispatch.2.2 m' hm' huser)⟩
  · rintro ⟨⟨hget, hdepth, hmatch⟩, hno, hnot⟩
    refine ⟨hget, hno, hdepth, hmatch, mem_resolveBindingsForInput.mpr ⟨m.1, ?_⟩⟩
    refine ⟨⟨hget, hdepth, matchKeystrokes_fullInput hmatch⟩, hno, fun m' hm' huser => ?_⟩
    by_contra hrank
    exact hnot ⟨m', hm', huser, hrank⟩

/-- **Held back is what can still run, exactly when the two rules agree.** -/
theorem pending_iff_possibleNext (os : TargetOs) (keymap : Keymap P) (input : List Keystroke)
    (contextStack : List KeyContext)
    (h : (keymap.bindingsForInput os input contextStack).1 = []) :
    ((keymap.bindingsForInput os input contextStack).2 = true ↔
        keymap.possibleNextBindingsForInput os input contextStack ≠ []) ↔
      RulesAgree os keymap contextStack input := by
  have hdropped : (∃ m, Extends os keymap contextStack input m ∧
      m.2.2.action.isNoAction = false ∧ ¬ DroppedLater os keymap contextStack input m) ↔
      ¬ ∀ m, Extends os keymap contextStack input m → m.2.2.action.isNoAction = false →
        DroppedLater os keymap contextStack input m := by
    push Not
    rfl
  have hdisabled : (∃ m, Extends os keymap contextStack input m ∧
      m.2.2.action.isNoAction = false ∧ ¬ Disabled os keymap contextStack input m) ↔
      ¬ ∀ m, Extends os keymap contextStack input m → m.2.2.action.isNoAction = false →
        Disabled os keymap contextStack input m := by
    push Not
    rfl
  rw [pending_iff h, possibleNext_iff, hdropped, hdisabled, not_iff_not, RulesAgree]

/-! ### Two keymaps -/

def workspaceThenEditor : List KeyContext :=
  [KeyContext.empty.add ['w'], KeyContext.empty.add ['e']]

/-- A chord of the workspace, and a `NoAction` for it in the editor. -/
def nulledInside : Keymap Unit :=
  new [⟨.other 0 (), [ctrl ['a'], ctrl ['b']], some (.identifier ['w']), none, none⟩,
    ⟨.noAction, [ctrl ['a'], ctrl ['b']], some (.identifier ['e']), none, none⟩]

/-- A chord of the editor, and a `NoAction` for it in the workspace. -/
def nulledOutside : Keymap Unit :=
  new [⟨.other 0 (), [ctrl ['a'], ctrl ['b']], some (.identifier ['e']), none, none⟩,
    ⟨.noAction, [ctrl ['a'], ctrl ['b']], some (.identifier ['w']), none, none⟩]

/-- The `NoAction` of the editor counts under both rules. -/
theorem rulesAgree_nulledInside :
    RulesAgree .linux nulledInside workspaceThenEditor [(ctrl ['a']).inner] :=
  (pending_iff_possibleNext .linux nulledInside [(ctrl ['a']).inner] workspaceThenEditor
    (by decide)).mp (by decide)

/-- The chord of the editor would run, but its beginning is not held back. -/
theorem not_pending_nulledOutside :
    (nulledOutside.bindingsForInput .linux [(ctrl ['a']).inner] workspaceThenEditor).1 = [] ∧
    ¬ ((nulledOutside.bindingsForInput .linux [(ctrl ['a']).inner] workspaceThenEditor).2 = true ↔
      nulledOutside.possibleNextBindingsForInput .linux [(ctrl ['a']).inner]
        workspaceThenEditor ≠ []) := by
  decide

end Keymap

end FcGpui

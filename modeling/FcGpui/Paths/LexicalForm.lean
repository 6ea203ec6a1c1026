import FcGpui.Paths.NormalForm

/-!
# The lexical normal form of a path

What `RelPath.new` should make of a path is said by its components alone: the empty ones and `.`
are dropped, and `..` takes back the component that was kept last.  There is none to take back
where more `..` than names have been met (`Climbs`).

* `walk_eq`: taking the components one by one fails just then, and else leaves `lexicalForm`.
* `normalize_eq_walk`: this is what the loop of `new` does to its buffer.
-/

namespace FcGpui

open RelPath

def isSeparator (pathStyle : PathStyle) (c : Char) : Bool := c = '/' || pathStyle = .windows && c = '\\'

/-- What is between the separators. -/
def pathComponents (pathStyle : PathStyle) (path : List Char) : List (List Char) :=
  path.splitOnP (isSeparator pathStyle)

/-- Some beginning has more `..` than names, if `depth` names are in front. -/
def Climbs (depth : Nat) (components : List (List Char)) : Prop :=
  ∃ front, front <+: components ∧ depth + front.countP IsComponent < front.count ['.', '.']

/-- What is kept of the components in front and of `component`. -/
def keep (kept : List (List Char)) (component : List Char) : List (List Char) :=
  if component = [] ∨ component = ['.'] then kept
  else if component = ['.', '.'] then kept.dropLast
  else kept ++ [component]

def lexicalForm (pathStyle : PathStyle) (path : List Char) : List (List Char) :=
  (pathComponents pathStyle path).foldl keep []

/-! ### Walking over the components -/

/-- One component; there may be none for `..` to take back. -/
def step (kept : List (List Char)) (component : List Char) : Option (List (List Char)) :=
  if component = ['.', '.'] ∧ kept = [] then none else some (keep kept component)

def walk (kept : List (List Char)) (components : List (List Char)) : Option (List (List Char)) :=
  components.foldlM step kept

theorem walk_nil (kept : List (List Char)) : walk kept [] = some kept := rfl

theorem walk_cons (kept : List (List Char)) (c : List Char) (components : List (List Char)) :
    walk kept (c :: components) = (step kept c).bind fun kept => walk kept components := by
  rw [walk, List.foldlM_cons]
  rfl

theorem walk_append (kept : List (List Char)) (front rest : List (List Char)) :
    walk kept (front ++ rest) = (walk kept front).bind fun kept => walk kept rest := by
  rw [walk, List.foldlM_append]
  rfl

theorem step_dot (kept : List (List Char)) : step kept ['.'] = some kept := rfl

theorem step_dots (kept : List (List Char)) :
    step kept ['.', '.'] = if kept = [] then none else some kept.dropLast := by
  by_cases h : kept = []
  · rw [step, if_pos ⟨rfl, h⟩, if_pos h]
  · rw [step, if_neg (fun hand => h hand.2), if_neg h]
    rfl

variable {c : List Char}

theorem step_of_isComponent (h : IsComponent c) (kept : List (List Char)) :
    step kept c = some (kept ++ [c]) := by
  rw [step, if_neg (fun hand => h.2.2 hand.1), keep, if_neg (fun hor => hor.elim h.1 h.2.1),
    if_neg h.2.2]

/-- Nothing, `.`, `..` or a name. -/
theorem component_cases (c : List Char) : (c = [] ∨ c = ['.']) ∨ c = ['.', '.'] ∨ IsComponent c := by
  by_cases hnil : c = []
  · exact Or.inl (Or.inl hnil)
  · by_cases hdot : c = ['.']
    · exact Or.inl (Or.inr hdot)
    · by_cases hdots : c = ['.', '.']
      · exact Or.inr (Or.inl hdots)
      · exact Or.inr (Or.inr ⟨hnil, hdot, hdots⟩)

theorem climbs_cons (depth : Nat) (c : List Char) (components : List (List Char)) :
    Climbs depth (c :: components) ↔ ∃ front, front <+: components ∧
      depth + (c :: front).countP IsComponent < (c :: front).count ['.', '.'] := by
  constructor
  · rintro ⟨front, hfront, hlt⟩
    cases front with
    | nil => exact absurd hlt (Nat.not_lt_zero _)
    | cons d front =>
      obtain ⟨rfl, hrest⟩ := List.cons_prefix_cons.mp hfront
      exact ⟨front, hrest, hlt⟩
  · rintro ⟨front, hfront, hlt⟩
    exact ⟨c :: front, List.cons_prefix_cons.mpr ⟨rfl, hfront⟩, hlt⟩

theorem not_climbs_nil (depth : Nat) : ¬ Climbs depth [] := by
  rintro ⟨front, hfront, hlt⟩
  rw [List.prefix_nil.mp hfront] at hlt
  exact absurd hlt (Nat.not_lt_zero _)

theorem climbs_of_dropped (h : c = [] ∨ c = ['.']) (depth : Nat)
    (components : List (List Char)) : Climbs depth (c :: components) ↔ Climbs depth components := by
  rw [climbs_cons]
  rcases h with rfl | rfl <;> exact Iff.rfl

theorem climbs_of_isComponent (h : IsComponent c) (depth : Nat)
    (components : List (List Char)) : Climbs depth (c :: components) ↔ Climbs (depth + 1) components := by
  rw [climbs_cons]
  refine exists_congr fun front => and_congr_right fun _ => ?_
  rw [List.countP_cons_of_pos (by simpa using h), List.count_cons_of_ne h.2.2]
  omega

theorem climbs_dots (depth : Nat) (components : List (List Char)) :
    Climbs depth (['.', '.'] :: components) ↔ depth = 0 ∨ Climbs (depth - 1) components := by
  rw [climbs_cons]
  constructor
  · rintro ⟨front, hfront, hlt⟩
    rw [List.count_cons_self, List.countP_cons_of_neg (by decide)] at hlt
    by_cases hzero : depth = 0
    · exact Or.inl hzero
    · exact Or.inr ⟨front, hfront, by omega⟩
  · rintro (rfl | ⟨front, hfront, hlt⟩)
    · exact ⟨[], List.nil_prefix, by decide⟩
    · refine ⟨front, hfront, ?_⟩
      rw [List.count_cons_self, List.countP_cons_of_neg (by decide)]
      omega

/-- **The walk fails just where the components climb**, and else keeps what is to be kept. -/
theorem walk_eq (components : List (List Char)) : ∀ kept : List (List Char),
    (walk kept components = none ↔ Climbs kept.length components) ∧
      ∀ kept', walk kept components = some kept' → kept' = components.foldl keep kept := by
  induction components with
  | nil =>
    intro kept
    rw [walk_nil]
    refine ⟨iff_of_false (fun h => by cases h) (not_climbs_nil _), fun kept' h => ?_⟩
    cases h
    rfl
  | cons c components ih =>
    intro kept
    have hthen : ∀ next, step kept c = some next → walk kept (c :: components) = walk next components := by
      intro next h
      rw [walk_cons, h, Option.bind_some]
    have hform : ∀ next, step kept c = some next →
        ∀ kept', walk kept (c :: components) = some kept' →
          kept' = (c :: components).foldl keep kept := by
      intro next h kept' hkept'
      have hnext : next = keep kept c := by
        rw [step] at h
        split_ifs at h
        exact (Option.some.inj h).symm
      rw [hthen next h] at hkept'
      rw [List.foldl_cons, ← hnext]
      exact (ih next).2 kept' hkept'
    rcases component_cases c with hdrop | rfl | hc
    · have hstep : step kept c = some kept := by
        rcases hdrop with rfl | rfl <;> rfl
      refine ⟨?_, hform kept hstep⟩
      rw [hthen kept hstep, climbs_of_dropped hdrop]
      exact (ih kept).1
    · by_cases hnil : kept = []
      · have hnone : walk kept (['.', '.'] :: components) = none := by
          rw [walk_cons, step_dots, if_pos hnil, Option.bind_none]
        refine ⟨iff_of_true hnone ((climbs_dots _ _).mpr (Or.inl ?_)), fun kept' h => ?_⟩
        · rw [hnil, List.length_nil]
        · rw [hnone] at h
          cases h
      · have hstep : step kept ['.', '.'] = some kept.dropLast := by rw [step_dots, if_neg hnil]
        have hpos : kept.length ≠ 0 := fun h => hnil (List.length_eq_zero_iff.mp h)
        refine ⟨?_, hform _ hstep⟩
        rw [hthen _ hstep, climbs_dots, or_iff_right hpos, ← List.length_dropLast]
        exact (ih _).1
    · have hstep := step_of_isComponent hc kept
      refine ⟨?_, hform _ hstep⟩
      rw [hthen _ hstep, climbs_of_isComponent hc, (ih _).1, List.length_append, List.length_singleton]

/-! ### The buffer -/

theorem Normal.pieces_nextBack {s rest : List Char} (h : Normal s)
    (hnext : componentsNextBack s = some (c, rest)) : pieces s = pieces rest ++ [c] := by
  obtain ⟨hc, rfl | ⟨rfl, rfl, hne⟩⟩ := componentsNextBack_eq_some hnext
  · have hrest : rest ≠ [] := (normal_append_cons.mp h).1.1
    rw [pieces, if_neg (List.append_ne_nil_of_right_ne_nil rest (List.cons_ne_nil _ _)),
      List.splitOn_append_cons_self, List.splitOn_eq_singleton hc, pieces, if_neg hrest]
  · exact pieces_of_not_mem hc hne

theorem pieces_push (b : RelPathBuf) (hc : '/' ∉ c) (hne : c ≠ []) :
    pieces (b.push ⟨c⟩).str = pieces b.str ++ [c] := by
  rw [RelPathBuf.push]
  by_cases hempty : b.str = []
  · rw [if_neg (not_not_intro hempty), hempty]
    exact pieces_of_not_mem hc hne
  · rw [if_pos hempty, List.append_assoc, List.singleton_append, pieces,
      if_neg (List.append_ne_nil_of_right_ne_nil b.str (List.cons_ne_nil _ _)),
      List.splitOn_append_cons_self, List.splitOn_eq_singleton hc, pieces, if_neg hempty]

/-- The buffer holds what is kept. -/
def Holds (result : Except RelPathError RelPathBuf) : Option (List (List Char)) → Prop
  | none => ∃ e, result = .error e
  | some kept => ∃ b, result = .ok b ∧ Normal b.str ∧ pieces b.str = kept

/-- **One component**: the buffer does what is to be done with what is kept. -/
theorem holds_pushComponent (result : RelPath) {b : RelPathBuf} (hb : Normal b.str)
    (hc : '/' ∉ c) : Holds (pushComponent result b c) (step (pieces b.str) c) := by
  rcases component_cases c with hdrop | rfl | hcomp
  · rcases hdrop with rfl | rfl
    · exact ⟨b, rfl, hb, rfl⟩
    · exact ⟨b, rfl, hb, rfl⟩
  · rw [step_dots]
    unfold pushComponent
    rw [if_neg (List.cons_ne_nil _ _), if_neg (by decide), if_pos rfl, b.pop_eq]
    cases hback : componentsNextBack b.str with
    | none =>
      rw [if_pos (pieces_eq_nil_iff.mpr (componentsNextBack_eq_none.mp hback))]
      exact ⟨_, rfl⟩
    | some back =>
      have hpieces := hb.pieces_nextBack hback
      rw [hpieces, if_neg (List.append_ne_nil_of_right_ne_nil _ (List.cons_ne_nil _ _)),
        List.dropLast_concat]
      exact ⟨_, rfl, (hb.nextBack hback).2, rfl⟩
  · have hpush : pushComponent result b c = .ok (b.push ⟨c⟩) := by
      rw [pushComponent, if_neg hcomp.1, if_neg hcomp.2.1, if_neg hcomp.2.2]
    rw [hpush, step_of_isComponent hcomp]
    exact ⟨_, rfl, normal_pushComponent hb hc hpush, pieces_push b hc hcomp.1⟩

/-- **All components.** -/
theorem holds_foldlM (result : RelPath) (components : List (List Char)) :
    ∀ {b : RelPathBuf}, Normal b.str → (∀ c ∈ components, '/' ∉ c) →
      Holds (components.foldlM (pushComponent result) b) (walk (pieces b.str) components) := by
  induction components with
  | nil => exact fun {b} hb _ => ⟨b, rfl, hb, rfl⟩
  | cons c components ih =>
    intro b hb hall
    obtain ⟨hc, hall⟩ := List.forall_mem_cons.mp hall
    have hone := holds_pushComponent result hb hc
    rw [List.foldlM_cons, walk_cons]
    cases hstep : step (pieces b.str) c with
    | none =>
      rw [hstep] at hone
      obtain ⟨e, he⟩ := hone
      rw [he]
      exact ⟨e, rfl⟩
    | some kept =>
      rw [hstep] at hone
      obtain ⟨b', hb', hnormal, rfl⟩ := hone
      rw [hb']
      exact ih hnormal hall

/-! ### `normalize` -/

/-- The text with `/` for every separator. -/
def unixText (pathStyle : PathStyle) (path : List Char) : List Char :=
  path.map fun c => if isSeparator pathStyle c then '/' else c

theorem splitOn_unixText (pathStyle : PathStyle) (path : List Char) :
    (unixText pathStyle path).splitOn '/' = pathComponents pathStyle path := by
  induction path with
  | nil => rfl
  | cons c path ih =>
    rw [unixText, List.map_cons, ← unixText, List.splitOn_cons_eq_if_modifyHead, ih, pathComponents,
      pathComponents, List.splitOnP_cons_eq_if_modifyHead]
    by_cases hc : isSeparator pathStyle c = true
    · rw [if_pos hc, if_pos (beq_self_eq_true '/'), if_pos hc]
    · have hslash : c ≠ '/' := by
        rintro rfl
        exact hc (by simp [isSeparator])
      rw [if_neg hc, if_neg (by simpa using hslash), if_neg hc]

/-- What `normalize` goes over is the text with `/`. -/
theorem replaced_eq (pathStyle : PathStyle) (path : List Char) :
    (if pathStyle = .windows ∧ '\\' ∈ path then
        Cow.owned ⟨path.map fun c => if c = '\\' then '/' else c⟩
      else Cow.borrowed ⟨path⟩).asRef.str = unixText pathStyle path := by
  split_ifs with h
  · obtain ⟨rfl, -⟩ := h
    refine List.map_congr_left fun c _ => ?_
    by_cases hslash : c = '/'
    · rw [hslash]
      rfl
    · simp [isSeparator, hslash]
  · symm
    refine (List.map_congr_left fun c hc => ?_).trans (List.map_id path)
    by_cases hslash : c = '/'
    · rw [hslash]
      rfl
    · have hnot : isSeparator pathStyle c = false := by
        have hback : ¬ (pathStyle = .windows ∧ c = '\\') := fun hand => h ⟨hand.1, hand.2 ▸ hc⟩
        simp [isSeparator, hslash] at hback ⊢
        exact hback
      rw [hnot]
      rfl

theorem walk_of_isComponent {components : List (List Char)} (h : ∀ c ∈ components, IsComponent c) :
    ∀ kept, walk kept components = some (kept ++ components) := by
  induction components with
  | nil => exact fun kept => by rw [walk_nil, List.append_nil]
  | cons c components ih =>
    intro kept
    obtain ⟨hc, hrest⟩ := List.forall_mem_cons.mp h
    rw [walk_cons, step_of_isComponent hc, Option.bind_some, ih hrest, List.append_assoc]
    rfl

/-- The empty path has one component for `splitOn` and none for the iterator. -/
theorem walk_components {s : List Char} (hend : s.getLast? ≠ some '/') (kept : List (List Char)) :
    walk kept (RelPath.mk s).components = walk kept (s.splitOn '/') := by
  by_cases hs : s = []
  · rw [hs]
    rfl
  · rw [RelPath.components, collectComponents_eq _ hs le_rfl hend]

/-- **`normalize` is the walk**, where no separator is at the end. -/
theorem normalize_eq_walk {pathStyle : PathStyle} {path : List Char}
    (hend : (unixText pathStyle path).getLast? ≠ some '/') :
    match walk [] (pathComponents pathStyle path) with
    | none => ∃ e, normalize path pathStyle = .error e
    | some kept => ∃ r, normalize path pathStyle = .ok r ∧ pieces r.asRef.str = kept := by
  obtain ⟨borrowed, hborrowed⟩ : ∃ borrowed : Cow, borrowed =
      if pathStyle = .windows ∧ '\\' ∈ path then
        .owned ⟨path.map fun c => if c = '\\' then '/' else c⟩
      else .borrowed ⟨path⟩ := ⟨_, rfl⟩
  have hstr : borrowed.asRef.str = unixText pathStyle path := hborrowed ▸ replaced_eq pathStyle path
  have hwalk : walk [] borrowed.asRef.components = walk [] (pathComponents pathStyle path) := by
    rw [← splitOn_unixText, ← walk_components hend, ← hstr]
  rw [RelPath.normalize, ← hborrowed, ← hwalk]
  split_ifs with hbad
  · have hholds := holds_foldlM borrowed.asRef borrowed.asRef.components (b := RelPathBuf.new)
      normal_nil (fun c => not_mem_of_mem_collectComponents _)
    have hempty : pieces RelPathBuf.new.str = [] := rfl
    rw [hempty] at hholds
    cases hw : walk [] borrowed.asRef.components with
    | none =>
      rw [hw] at hholds
      obtain ⟨e, he⟩ := hholds
      rw [he]
      exact ⟨e, rfl⟩
    | some kept =>
      rw [hw] at hholds
      obtain ⟨b, hb, -, hpieces⟩ := hholds
      rw [hb]
      exact ⟨.owned b, rfl, hpieces⟩
  · -- nothing is to be done, and the text is borrowed
    have hall : ∀ c ∈ borrowed.asRef.components, IsComponent c := by
      intro c hc
      by_contra hnot
      exact hbad ⟨c, hc, hnot⟩
    rw [walk_of_isComponent hall]
    refine ⟨borrowed, rfl, ?_⟩
    rw [List.nil_append, pieces, RelPath.components]
    split_ifs with hs
    · rw [hs]
      rfl
    · exact (collectComponents_eq _ hs le_rfl (hstr ▸ hend)).symm

end FcGpui

import FcGpui.Paths.LexicalForm

/-!
# Relative paths as lists of components

A path in normal form stands for the list of its components, and every list of components is that
of one path (`exists_normal`).  The operations work on the text; read on the lists, they glue, cut
and compare lists.

* `pieces_join`, `eq_join_of_stripPrefix`, `eq_join_of_endsWith`: the text is cut where lists are.
* `map_ancestors`, `map_restAfter`, `cmpComponents_eq`, `collectEnds_spec`: the loops.
* `readsAsList_iff`: all of it holds unless a path is empty.  The empty path has the length one,
  and no other path ends with it.
-/

namespace FcGpui

open RelPath

/-! ### Texts and lists -/

/-- **Joining** glues the lists. -/
theorem pieces_join (a b : RelPath) : pieces (a.join b).str = pieces a.str ++ pieces b.str := by
  rw [RelPath.join]
  split_ifs with ha hb
  · rw [ha]
    rfl
  · rw [hb]
    exact (List.append_nil _).symm
  · exact pieces_glue ha hb

theorem exists_normal {cs : List (List Char)} (h : ∀ c ∈ cs, IsComponent c ∧ '/' ∉ c) :
    ∃ p : RelPath, Normal p.str ∧ pieces p.str = cs := by
  induction cs with
  | nil => exact ⟨⟨[]⟩, normal_nil, rfl⟩
  | cons c cs ih =>
    obtain ⟨⟨hc, hslash⟩, hcs⟩ := List.forall_mem_cons.mp h
    obtain ⟨p, hp, hpieces⟩ := ih hcs
    have hnormal : Normal c := (normal_of_not_mem hslash hc.1).mpr hc
    refine ⟨RelPath.join ⟨c⟩ p, Normal.join hnormal hp, ?_⟩
    rw [pieces_join, hpieces]
    exact congrArg (· ++ cs) (pieces_of_not_mem hslash hc.1)

theorem eq_of_pieces {p q : RelPath} (h : pieces p.str = pieces q.str) : p = q :=
  congrArg RelPath.mk (pieces_injective h)

theorem join_assoc (a b c : RelPath) : (a.join b).join c = a.join (b.join c) := by
  apply eq_of_pieces
  simp only [pieces_join, List.append_assoc]

theorem join_empty (a : RelPath) : a.join RelPath.empty = a := by
  apply eq_of_pieces
  rw [pieces_join]
  exact List.append_nil _

theorem empty_join (a : RelPath) : RelPath.empty.join a = a := by
  apply eq_of_pieces
  rw [pieces_join]
  rfl

variable {a b : RelPath}

theorem prefix_iff (ha : Normal a.str) : pieces b.str <+: pieces a.str ↔ ∃ c : RelPath, a = b.join c := by
  constructor
  · rintro ⟨cs, hcs⟩
    have hcomponents : ∀ c ∈ cs, IsComponent c ∧ '/' ∉ c := fun c hc =>
      ha.isComponent_of_mem (hcs ▸ List.mem_append_right _ hc)
    obtain ⟨c, -, hc⟩ := exists_normal hcomponents
    refine ⟨c, eq_of_pieces ?_⟩
    rw [pieces_join, hc, hcs]
  · rintro ⟨c, rfl⟩
    rw [pieces_join]
    exact List.prefix_append _ _

theorem suffix_iff (ha : Normal a.str) : pieces b.str <:+ pieces a.str ↔ ∃ c : RelPath, a = c.join b := by
  constructor
  · rintro ⟨cs, hcs⟩
    have hcomponents : ∀ c ∈ cs, IsComponent c ∧ '/' ∉ c := fun c hc =>
      ha.isComponent_of_mem (hcs ▸ List.mem_append_left _ hc)
    obtain ⟨c, -, hc⟩ := exists_normal hcomponents
    refine ⟨c, eq_of_pieces ?_⟩
    rw [pieces_join, hc, hcs]
  · rintro ⟨c, rfl⟩
    rw [pieces_join]
    exact List.suffix_append _ _

/-! ### The beginning and the end -/

theorem stripPrefix_join (a b : RelPath) : (a.join b).stripPrefix a = .ok b := by
  obtain ⟨a⟩ := a
  obtain ⟨b⟩ := b
  rw [RelPath.stripPrefix, RelPath.join]
  by_cases ha : a = []
  · simp [ha]
  · by_cases hb : b = []
    · simp [ha, hb, RelPath.empty]
    · simp [ha, hb]

theorem eq_join_of_stripPrefix {c : RelPath} (ha : Normal a.str) (h : a.stripPrefix b = .ok c) :
    a = b.join c := by
  obtain ⟨a⟩ := a
  obtain ⟨b⟩ := b
  rw [RelPath.stripPrefix] at h
  split_ifs at h with hempty hstart
  · obtain rfl : b = [] := hempty
    cases h
    exact (empty_join _).symm
  · obtain ⟨rest, rfl⟩ := List.isPrefixOf_iff_prefix.mp hstart
    simp only [List.drop_left] at h
    split at h
    · rename_i tail
      cases h
      have htail : tail ≠ [] := (normal_append_cons.mp ha).2.1
      have hb : b ≠ [] := hempty
      rw [RelPath.join, if_neg hb, if_neg htail]
    · cases h
      simp [RelPath.join, RelPath.empty]
    · cases h

theorem startsWith_iff (ha : Normal a.str) : a.startsWith b = true ↔ pieces b.str <+: pieces a.str := by
  rw [prefix_iff ha, RelPath.startsWith]
  constructor
  · intro h
    cases hstrip : a.stripPrefix b with
    | error e =>
      rw [hstrip] at h
      cases h
    | ok c => exact ⟨c, eq_join_of_stripPrefix ha hstrip⟩
  · rintro ⟨c, rfl⟩
    rw [stripPrefix_join]
    rfl

theorem endsWith_append (front b : List Char) : (RelPath.mk (front ++ b)).endsWith ⟨b⟩ = true ↔
    front.getLast? = some '/' ∨ front = [] := by
  have hend : b.isSuffixOf (front ++ b) = true :=
    List.isSuffixOf_iff_suffix.mpr (List.suffix_append front b)
  have hfront : (front ++ b).take ((front ++ b).length - b.length) = front := by simp
  simp only [RelPath.endsWith, hend, hfront, if_true, Bool.or_eq_true, decide_eq_true_eq,
    List.isEmpty_iff]

theorem eq_join_of_endsWith (ha : Normal a.str) (h : a.endsWith b = true) : ∃ c : RelPath, a = c.join b := by
  obtain ⟨a⟩ := a
  obtain ⟨b⟩ := b
  have hend : b.isSuffixOf a = true := by
    rw [RelPath.endsWith] at h
    split_ifs at h with hend
    exact hend
  obtain ⟨front, rfl⟩ := List.isSuffixOf_iff_suffix.mp hend
  rw [endsWith_append] at h
  rcases h with hslash | rfl
  · obtain ⟨rest, rfl⟩ := List.getLast?_eq_some_iff.mp hslash
    have hcut : rest ++ ['/'] ++ b = rest ++ '/' :: b := by simp
    simp only [hcut] at ha ⊢
    obtain ⟨⟨hrest, -⟩, hb, -⟩ := normal_append_cons.mp ha
    exact ⟨⟨rest⟩, by rw [RelPath.join, if_neg hrest, if_neg hb]⟩
  · exact ⟨⟨[]⟩, (empty_join _).symm⟩

theorem endsWith_join (c : RelPath) (hb : b.str ≠ []) : (c.join b).endsWith b = true := by
  obtain ⟨b⟩ := b
  obtain ⟨c⟩ := c
  have hb : b ≠ [] := hb
  rw [RelPath.join]
  split_ifs with hc
  · exact (endsWith_append [] b).mpr (Or.inr rfl)
  · have hcut : c ++ '/' :: b = (c ++ ['/']) ++ b := by simp
    rw [hcut, endsWith_append]
    exact Or.inl (by simp)

theorem endsWith_iff (ha : Normal a.str) (hb : b.str ≠ []) :
    a.endsWith b = true ↔ pieces b.str <:+ pieces a.str := by
  rw [suffix_iff ha]
  constructor
  · exact eq_join_of_endsWith ha
  · rintro ⟨c, rfl⟩
    exact endsWith_join c hb

/-- **No other path ends with the empty one.** -/
theorem not_endsWith_empty (ha : Normal a.str) (hne : a.str ≠ []) : a.endsWith RelPath.empty = false := by
  rw [Bool.eq_false_iff]
  intro h
  have hend : a.str.getLast? = some '/' ∨ a.str = [] := by
    rw [← endsWith_append a.str [], List.append_nil]
    exact h
  exact hend.elim ha.getLast? hne

/-! ### Counting -/

theorem length_splitOn (s : List Char) : (s.splitOn '/').length = s.count '/' + 1 := by
  induction s with
  | nil => rfl
  | cons c s ih =>
    rw [List.splitOn_cons_eq_if_modifyHead]
    by_cases hc : c = '/'
    · simp [hc, ih]
    · simp [hc, ih]

/-- **The length** is right but for the empty path, where it is one. -/
theorem len_eq (a : RelPath) : a.len = if a.str = [] then 1 else (pieces a.str).length := by
  rw [RelPath.len]
  split_ifs with ha
  · rw [ha]
    rfl
  · rw [pieces, if_neg ha, length_splitOn]

theorem map_restAfter (n : Nat) : ∀ {s : List Char}, Normal s →
    (restAfter n s).map (fun p => pieces p.str) =
      if n ≤ (pieces s).length then some ((pieces s).drop n) else none := by
  induction n with
  | zero => exact fun {s} _ => rfl
  | succ n ih =>
    intro s hs
    rw [restAfter]
    cases hnext : componentsNext s with
    | none =>
      obtain rfl := componentsNext_eq_none.mp hnext
      rfl
    | some next =>
      rw [Option.bind_some, ih (hs.next hnext).2, hs.pieces_next hnext, List.length_cons,
        List.drop_succ_cons]
      simp only [Nat.add_le_add_iff_right]

theorem map_lastNComponents (ha : Normal a.str) (hne : a.str ≠ []) (n : Nat) :
    (a.lastNComponents n).map (fun p => pieces p.str) =
      if n ≤ (pieces a.str).length then some ((pieces a.str).drop ((pieces a.str).length - n))
      else none := by
  rw [RelPath.lastNComponents, len_eq, if_neg hne]
  split_ifs with hn
  · rw [map_restAfter _ ha, if_pos (Nat.sub_le _ _)]
  · rfl

/-! ### The parents -/

theorem map_parent (ha : Normal a.str) : a.parent.map (fun p => pieces p.str) =
    if pieces a.str = [] then none else some (pieces a.str).dropLast := by
  rw [RelPath.parent]
  cases hback : componentsNextBack a.str with
  | none =>
    rw [if_pos (pieces_eq_nil_iff.mpr (componentsNextBack_eq_none.mp hback))]
    rfl
  | some back =>
    rw [ha.pieces_nextBack hback, if_neg (List.append_ne_nil_of_right_ne_nil _ (List.cons_ne_nil _ _)),
      List.dropLast_concat]
    rfl

theorem reverse_inits_concat (cs : List (List Char)) (c : List Char) :
    (cs ++ [c]).inits.reverse = (cs ++ [c]) :: cs.inits.reverse := by
  rw [List.inits_append]
  simp

/-- **The ancestors** are the beginnings, the longest first. -/
theorem map_ancestors (ha : Normal a.str) :
    a.ancestors.map (fun p => pieces p.str) = (pieces a.str).inits.reverse := by
  induction hlen : a.str.length using Nat.strong_induction_on generalizing a with
  | _ n ih =>
    rw [ancestors_eq, List.map_cons]
    cases hback : componentsNextBack a.str with
    | none =>
      have hparent : a.parent = none := by rw [RelPath.parent, hback]; rfl
      rw [hparent, componentsNextBack_eq_none.mp hback]
      rfl
    | some back =>
      have hparent : a.parent = some ⟨back.2⟩ := by rw [RelPath.parent, hback]; rfl
      have hshort := length_parent (s := a.str) hparent
      rw [hparent, ha.pieces_nextBack hback, reverse_inits_concat]
      exact congrArg _ (ih _ (hlen ▸ hshort) (ha.parent hparent) rfl)

/-! ### The iterator -/

theorem cmpComponents_eq (fuel : Nat) : ∀ {s t : List Char}, Normal s → Normal t → s.length < fuel →
    cmpComponents fuel s t = compare (pieces s) (pieces t) := by
  induction fuel with
  | zero => exact fun _ _ h => absurd h (Nat.not_lt_zero _)
  | succ fuel ih =>
    intro s t hs ht hfuel
    rw [cmpComponents]
    cases hnextS : componentsNext s with
    | none =>
      obtain rfl := componentsNext_eq_none.mp hnextS
      cases hnextT : componentsNext t with
      | none =>
        obtain rfl := componentsNext_eq_none.mp hnextT
        rfl
      | some nextT =>
        rw [ht.pieces_next hnextT]
        rfl
    | some nextS =>
      rw [hs.pieces_next hnextS]
      cases hnextT : componentsNext t with
      | none =>
        obtain rfl := componentsNext_eq_none.mp hnextT
        rfl
      | some nextT =>
        have hshort := length_rest hnextS
        have hrest := ih (hs.next hnextS).2 (ht.next hnextT).2 (by omega)
        rw [ht.pieces_next hnextT]
        show (compare nextS.1 nextT.1).then _ = List.compareLex compare _ _
        rw [hrest, List.compareLex_cons_cons]
        rfl

/-- **Every component once**, at whichever ends they are asked for. -/
theorem collectEnds_spec (ends : List IterEnd) : ∀ {s : List Char}, Normal s →
    (collectEnds ends s).1 ++ pieces (collectEnds ends s).2.1 ++ (collectEnds ends s).2.2 = pieces s ∧
      (collectEnds ends s).1.length + (collectEnds ends s).2.2.length =
        min ends.length (pieces s).length ∧ Normal (collectEnds ends s).2.1 := by
  induction ends with
  | nil =>
    intro s hs
    simp [collectEnds, hs]
  | cons fromEnd ends ih =>
    intro s hs
    have hempty := ih normal_nil
    cases fromEnd with
    | front =>
      rw [collectEnds]
      cases hnext : componentsNext s with
      | none =>
        obtain rfl := componentsNext_eq_none.mp hnext
        exact ⟨hempty.1, by simpa [pieces] using hempty.2.1, hempty.2.2⟩
      | some next =>
        obtain ⟨hlist, hlen, hnormal⟩ := ih (hs.next hnext).2
        rw [hs.pieces_next hnext]
        refine ⟨?_, ?_, hnormal⟩
        · rw [← hlist]
          simp
        · simp only [List.length_cons]
          omega
    | back =>
      rw [collectEnds]
      cases hback : componentsNextBack s with
      | none =>
        obtain rfl := componentsNextBack_eq_none.mp hback
        exact ⟨hempty.1, by simpa [pieces] using hempty.2.1, hempty.2.2⟩
      | some back =>
        obtain ⟨hlist, hlen, hnormal⟩ := ih (hs.nextBack hback).2
        rw [hs.pieces_nextBack hback]
        refine ⟨?_, ?_, hnormal⟩
        · rw [← hlist]
          simp
        · simp only [List.length_cons, List.length_append, List.length_nil]
          omega

/-! ### All of them -/

/-- The operations read on the lists of components. -/
structure ReadsAsList (a b : RelPath) : Prop where
  join_assoc : ∀ c : RelPath, Normal c.str → (a.join b).join c = a.join (b.join c)
  join_empty : a.join RelPath.empty = a ∧ RelPath.empty.join a = a
  join : (a.join b).components = a.components ++ b.components
  strip_join : (a.join b).stripPrefix a = .ok b
  starts : a.startsWith b = true ↔ b.components <+: a.components
  ends : a.endsWith b = true ↔ b.components <:+ a.components
  len : a.len = a.components.length
  last : ∀ n : Nat, (a.lastNComponents n).map RelPath.components =
    if n ≤ a.components.length then some (a.components.drop (a.components.length - n)) else none
  ancestors : a.ancestors.map RelPath.components = a.components.inits.reverse
  parent : a.parent.map RelPath.components =
    if a.components = [] then none else some a.components.dropLast
  cmp : a.cmp b = compare a.components b.components
  yields : ∀ ends : List IterEnd,
    (collectEnds ends a.str).1 ++ (RelPath.mk (collectEnds ends a.str).2.1).components ++
        (collectEnds ends a.str).2.2 = a.components ∧
      (collectEnds ends a.str).1.length + (collectEnds ends a.str).2.2.length =
        min ends.length a.components.length

theorem map_components {paths : List RelPath} (h : ∀ p ∈ paths, Normal p.str) :
    paths.map RelPath.components = paths.map fun p => pieces p.str :=
  List.map_congr_left fun p hp => Normal.components_eq (h p hp)

theorem option_map_components {path : Option RelPath} (h : ∀ p ∈ path, Normal p.str) :
    path.map RelPath.components = path.map fun p => pieces p.str :=
  Option.map_congr fun p hp => Normal.components_eq (h p hp)

/-- **The operations are those of lists**, unless a path is empty. -/
theorem readsAsList_iff {a b : RelPath} (ha : Normal a.str) (hb : Normal b.str) :
    ReadsAsList a b ↔ a.str ≠ [] ∧ b.str ≠ [] := by
  have hcomponentsA := Normal.components_eq ha
  have hcomponentsB := Normal.components_eq hb
  constructor
  · intro h
    have hane : a.str ≠ [] := by
      intro hempty
      have hlen := h.len
      rw [len_eq, if_pos hempty, hcomponentsA, hempty] at hlen
      exact absurd hlen (by decide)
    refine ⟨hane, fun hempty => ?_⟩
    obtain rfl : b = RelPath.empty := congrArg RelPath.mk hempty
    have hends := h.ends.mpr (by rw [hcomponentsB]; exact List.nil_suffix)
    rw [not_endsWith_empty ha hane] at hends
    exact Bool.false_ne_true hends
  · rintro ⟨hane, hbne⟩
    constructor
    · exact fun c _ => FcGpui.join_assoc a b c
    · exact ⟨FcGpui.join_empty a, empty_join a⟩
    · rw [Normal.components_eq (ha.join hb), pieces_join, hcomponentsA, hcomponentsB]
    · exact stripPrefix_join a b
    · rw [hcomponentsA, hcomponentsB]
      exact startsWith_iff ha
    · rw [hcomponentsA, hcomponentsB]
      exact endsWith_iff ha hbne
    · rw [len_eq, if_neg hane, hcomponentsA]
    · intro n
      rw [option_map_components fun p hp => ha.lastNComponents hp, hcomponentsA]
      exact map_lastNComponents ha hane n
    · rw [map_components fun p hp => ha.ancestors hp, hcomponentsA]
      exact map_ancestors ha
    · rw [option_map_components fun p hp => ha.parent hp, hcomponentsA]
      exact map_parent ha
    · rw [hcomponentsA, hcomponentsB]
      exact cmpComponents_eq _ ha hb (Nat.lt_succ_self _)
    · intro ends
      obtain ⟨hlist, hlen, hnormal⟩ := collectEnds_spec ends ha
      rw [Normal.components_eq (p := ⟨(collectEnds ends a.str).2.1⟩) hnormal, hcomponentsA]
      exact ⟨hlist, hlen⟩

theorem readsAsList_iff_foo : ReadsAsList ⟨"foo/bar".toList⟩ ⟨"bar".toList⟩ ↔
    "foo/bar".toList ≠ [] ∧ "bar".toList ≠ [] :=
  readsAsList_iff (a := ⟨"foo/bar".toList⟩) (b := ⟨"bar".toList⟩) (by decide) (by decide)

/-- The empty path is one component long, and has none. -/
theorem not_readsAsList : ¬ ∀ a b : RelPath, Normal a.str → Normal b.str → ReadsAsList a b := by
  intro h
  have hlen := (h RelPath.empty RelPath.empty normal_nil normal_nil).len
  exact absurd hlen (by decide)

end FcGpui

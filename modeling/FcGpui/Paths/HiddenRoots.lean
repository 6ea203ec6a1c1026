import FcGpui.Paths.LexicalForm

/-!
# When `RelPath.new` makes the lexical normal form

`new` strips `./` in front and separators behind before it asks whether the path is absolute.  This
may show a root that was none (`.//foo`, or `./C:/x` on Windows), and it hides that of a drive with
nothing but separators behind it (`C:/`).  And the components may leave a drive in front of others
(`a/../C:/b`), so that the path, displayed for Windows, is absolute.

* `new_eq_walk`: but for that, `new` is the walk over the components.
* `newIsLexical_iff`: **when it makes the lexical normal form.**
-/

namespace FcGpui

open RelPath

/-- What is behind all `./` in front. -/
def afterDots (pathStyle : PathStyle) : List Char → List Char
  | '.' :: c :: path => if isSeparator pathStyle c then afterDots pathStyle path else '.' :: c :: path
  | path => path

/-- A drive, and nothing but separators. -/
def IsDriveRoot (pathStyle : PathStyle) (path : List Char) : Prop :=
  pathStyle = .windows ∧ ∃ letter seps, letter.isAlpha = true ∧ seps ≠ [] ∧
    (∀ c ∈ seps, isSeparator pathStyle c = true) ∧ path = letter :: ':' :: seps

/-- Absolute, and not just the root of a drive. -/
def IsRooted (pathStyle : PathStyle) (path : List Char) : Prop :=
  isAbsolute path pathStyle = true ∧ ¬ IsDriveRoot pathStyle path

/-- The components that are left begin with a drive, on Windows, and there are more. -/
def DriveFirst (pathStyle : PathStyle) (path : List Char) : Prop :=
  pathStyle = .windows ∧ ∃ letter second rest, letter.isAlpha = true ∧
    lexicalForm pathStyle path = [letter, ':'] :: second :: rest

/-- **What is expected of `new`**, at one path. -/
structure NewIsLexical (path : List Char) (pathStyle : PathStyle) : Prop where
  ok_iff : (∃ r, RelPath.new ⟨some path⟩ pathStyle = .ok r) ↔
    isAbsolute path pathStyle = false ∧ ¬ Climbs 0 (pathComponents pathStyle path)
  components : ∀ r, RelPath.new ⟨some path⟩ pathStyle = .ok r →
    r.asRef.components = lexicalForm pathStyle path
  display : ∀ r, RelPath.new ⟨some path⟩ pathStyle = .ok r →
    ∃ r', RelPath.new ⟨some (r.asRef.display pathStyle)⟩ pathStyle = .ok r' ∧ r'.asRef = r.asRef

/-! ### Trimming -/

theorem mem_suffixes (pathStyle : PathStyle) (c : Char) :
    c ∈ suffixes pathStyle ↔ isSeparator pathStyle c = true := by
  cases pathStyle <;> simp [suffixes, isSeparator]

theorem dropPrefix_dot (pathStyle : PathStyle) (c : Char) (path : List Char) :
    dropPrefix pathStyle ('.' :: c :: path) =
      if isSeparator pathStyle c then some path else none := by
  cases pathStyle with
  | posix =>
    by_cases hc : c = '/'
    · rw [hc]
      rfl
    · simp [dropPrefix, prefixes, isSeparator, hc, eq_comm (a := '/')]
  | windows =>
    by_cases hc : c = '/'
    · rw [hc]
      rfl
    · by_cases hback : c = '\\'
      · rw [hback]
        rfl
      · simp [dropPrefix, prefixes, isSeparator, hc, hback, eq_comm (a := '/'), eq_comm (a := '\\')]

variable {path : List Char} {pathStyle : PathStyle} {c : Char} {r : Cow} {p : RelPath}

theorem dropPrefix_of_head (h : path.head? ≠ some '.') : dropPrefix pathStyle path = none := by
  rw [dropPrefix, if_neg]
  intro hany
  obtain ⟨start, hmem, hprefix⟩ := List.any_eq_true.mp hany
  obtain ⟨rest, rfl⟩ := List.isPrefixOf_iff_prefix.mp hprefix
  refine h ?_
  cases pathStyle with
  | posix =>
    obtain rfl := List.mem_singleton.mp hmem
    rfl
  | windows =>
    obtain rfl | rfl : start = ['.', '/'] ∨ start = ['.', '\\'] := by simpa [prefixes] using hmem
    · rfl
    · rfl

theorem afterDots_of_head (h : path.head? ≠ some '.') : afterDots pathStyle path = path := by
  unfold afterDots
  split
  · exact absurd rfl h
  · rfl

theorem whileSome_dropPrefix_eq (pathStyle : PathStyle) : ∀ (fuel : Nat) {path : List Char},
    path.length ≤ fuel → whileSome (dropPrefix pathStyle) fuel path = afterDots pathStyle path := by
  intro fuel
  induction fuel with
  | zero =>
    intro path hlen
    rw [List.length_eq_zero_iff.mp (Nat.le_zero.mp hlen)]
    rfl
  | succ fuel ih =>
    intro path hlen
    by_cases hhead : path.head? = some '.'
    · obtain ⟨path, rfl⟩ := List.head?_eq_some_iff.mp hhead
      cases path with
      | nil =>
        have hnone : dropPrefix pathStyle ['.'] = none := by cases pathStyle <;> rfl
        exact whileSome_of_none hnone _
      | cons c path =>
        rw [whileSome, dropPrefix_dot, afterDots]
        by_cases hc : isSeparator pathStyle c = true
        · rw [if_pos hc, if_pos hc]
          simp only [List.length_cons] at hlen
          exact ih (by omega)
        · rw [if_neg hc, if_neg hc]
    · rw [whileSome_of_none (dropPrefix_of_head hhead), afterDots_of_head hhead]

/-- What the second loop leaves, and what it takes. -/
theorem whileSome_dropSuffix (pathStyle : PathStyle) (fuel : Nat) : ∀ path : List Char, ∃ seps,
    path = whileSome (dropSuffix pathStyle) fuel path ++ seps ∧
      (∀ c ∈ seps, isSeparator pathStyle c = true) ∧
      (path ≠ [] → whileSome (dropSuffix pathStyle) fuel path ≠ []) := by
  induction fuel with
  | zero => exact fun path => ⟨[], (List.append_nil path).symm, by simp, id⟩
  | succ fuel ih =>
    intro path
    rw [whileSome]
    cases hdrop : dropSuffix pathStyle path with
    | none => exact ⟨[], (List.append_nil path).symm, by simp, id⟩
    | some shorter =>
      rw [dropSuffix] at hdrop
      split_ifs at hdrop with hcond
      obtain rfl := Option.some.inj hdrop
      obtain ⟨hlast, hne⟩ := hcond
      obtain ⟨seps, hpath, hseps, hnil⟩ := ih path.dropLast
      obtain ⟨c, hc⟩ : ∃ c, path.getLast? = some c := by
        cases h : path.getLast? with
        | none =>
          rw [h] at hlast
          cases hlast
        | some c => exact ⟨c, rfl⟩
      rw [hc] at hlast
      have hsep : isSeparator pathStyle c = true := (mem_suffixes _ _).mp (by simpa using hlast)
      refine ⟨seps ++ [c], ?_, ?_, fun _ => hnil hne⟩
      · rw [← List.append_assoc, ← hpath, List.dropLast_append_getLast? c hc]
      · intro d hd
        rcases List.mem_append.mp hd with hd | hd
        · exact hseps d hd
        · rw [List.mem_singleton.mp hd]
          exact hsep

theorem exists_trimmed (pathStyle : PathStyle) (path : List Char) :
    ∃ seps, afterDots pathStyle path = trimmed path pathStyle ++ seps ∧
      (∀ c ∈ seps, isSeparator pathStyle c = true) ∧
      (afterDots pathStyle path ≠ [] → trimmed path pathStyle ≠ []) := by
  rw [trimmed, whileSome_dropPrefix_eq pathStyle _ le_rfl]
  exact whileSome_dropSuffix pathStyle path.length (afterDots pathStyle path)

/-! ### Roots -/

theorem isAbsolute_iff (pathStyle : PathStyle) (path : List Char) :
    isAbsolute path pathStyle = true ↔ (∃ c rest, isSeparator pathStyle c = true ∧ path = c :: rest) ∨
      pathStyle = .windows ∧ ∃ letter c rest, letter.isAlpha = true ∧
        isSeparator pathStyle c = true ∧ path = letter :: ':' :: c :: rest := by
  match path with
  | [] => simp [isAbsolute]
  | [a] => cases pathStyle <;> simp [isAbsolute, isSeparator]
  | [a, b] => cases pathStyle <;> simp [isAbsolute, isSeparator]
  | a :: b :: c :: rest =>
    cases pathStyle with
    | posix => simp [isAbsolute, isSeparator]
    | windows =>
      simp only [isAbsolute, isSeparator]
      simp
      tauto

theorem isSeparator_colon (pathStyle : PathStyle) : isSeparator pathStyle ':' = false := by
  cases pathStyle <;> rfl

theorem IsAlpha.not_separator {letter : Char} (h : letter.isAlpha = true) :
    isSeparator pathStyle letter = false := by
  cases hsep : isSeparator pathStyle letter with
  | false => rfl
  | true =>
    have hor : letter = '/' ∨ pathStyle = .windows ∧ letter = '\\' := by simpa [isSeparator] using hsep
    rcases hor with rfl | ⟨_, rfl⟩ <;> cases h

theorem dropSuffix_concat (hc : isSeparator pathStyle c = true)
    {text : List Char} (hne : text ≠ []) : dropSuffix pathStyle (text ++ [c]) = some text := by
  rw [dropSuffix, List.getLast?_concat, List.dropLast_concat, if_pos]
  exact ⟨by simpa using (mem_suffixes _ _).mpr hc, hne⟩

/-- **Trimming shows the root**, unless it is that of a drive and nothing else. -/
theorem isAbsolute_trimmed (pathStyle : PathStyle) (path : List Char) :
    isAbsolute (trimmed path pathStyle) pathStyle = true ↔ IsRooted pathStyle (afterDots pathStyle path) := by
  obtain ⟨seps, hpath, hseps, hnil⟩ := exists_trimmed pathStyle path
  have hdone := dropSuffix_trimmed path pathStyle
  generalize trimmed path pathStyle = text at *
  rw [IsRooted, isAbsolute_iff, isAbsolute_iff, hpath]
  constructor
  · rintro (⟨c, rest, hc, rfl⟩ | ⟨hstyle, letter, c, rest, hletter, hc, rfl⟩)
    · refine ⟨Or.inl ⟨c, rest ++ seps, hc, rfl⟩, ?_⟩
      rintro ⟨_, letter, seps', hletter, _, _, heq⟩
      obtain rfl := (List.cons.inj heq).1
      rw [IsAlpha.not_separator hletter] at hc
      cases hc
    · refine ⟨Or.inr ⟨hstyle, letter, c, rest ++ seps, hletter, hc, rfl⟩, ?_⟩
      rintro ⟨_, letter', seps', _, _, hall, heq⟩
      -- the last character would be a separator, and the loop would not have stopped
      have htail : c :: rest ++ seps = seps' := (List.cons.inj (List.cons.inj heq).2).2
      obtain ⟨init, last, hlast⟩ := (List.eq_nil_or_concat' (c :: rest)).resolve_left
        (List.cons_ne_nil _ _)
      have hsep : isSeparator pathStyle last = true :=
        hall last (by rw [← htail, hlast]; simp)
      have htext : letter :: ':' :: c :: rest = (letter :: ':' :: init) ++ [last] := by
        rw [hlast]
        rfl
      rw [htext, dropSuffix_concat hsep (List.cons_ne_nil _ _)] at hdone
      cases hdone
  · rintro ⟨⟨c, rest, hc, heq⟩ | ⟨hstyle, letter, c, rest, hletter, hc, heq⟩, hdrive⟩
    · cases text with
      | nil => exact absurd rfl (hnil (hpath ▸ heq ▸ List.cons_ne_nil _ _))
      | cons d text => exact Or.inl ⟨c, text, hc, congrArg (· :: text) (List.cons.inj heq).1⟩
    · cases text with
      | nil => exact absurd rfl (hnil (hpath ▸ heq ▸ List.cons_ne_nil _ _))
      | cons d text =>
        obtain ⟨rfl, hcolon⟩ := List.cons.inj heq
        cases text with
        | nil =>
          have hsep : isSeparator pathStyle ':' = true :=
            hseps ':' (hcolon ▸ List.mem_cons_self : ':' ∈ [].append seps)
          rw [isSeparator_colon] at hsep
          cases hsep
        | cons d' text =>
          obtain ⟨rfl, hrest⟩ := List.cons.inj hcolon
          cases text with
          | nil =>
            refine absurd ⟨hstyle, d, seps, hletter, ?_, hseps, rfl⟩ hdrive
            rintro rfl
            cases hrest
          | cons d'' text =>
            exact Or.inr ⟨hstyle, d, d'', text, hletter, (List.cons.inj hrest).1 ▸ hc, rfl⟩

/-! ### The components -/

theorem pathComponents_separator
    (hc : isSeparator pathStyle c = true) (path : List Char) :
    pathComponents pathStyle (c :: path) = [] :: pathComponents pathStyle path := by
  have hnone : ∀ d ∈ ([] : List Char), isSeparator pathStyle d = false := nofun
  exact List.splitOnP_append_cons_of_forall_mem hnone c hc path

theorem pathComponents_dot
    (hc : isSeparator pathStyle c = true) (path : List Char) :
    pathComponents pathStyle ('.' :: c :: path) = ['.'] :: pathComponents pathStyle path := by
  have hnot : ∀ d ∈ ['.'], isSeparator pathStyle d = false := by
    intro d hd
    rw [List.mem_singleton.mp hd]
    cases pathStyle <;> rfl
  exact List.splitOnP_append_cons_of_forall_mem hnot c hc path

theorem pathComponents_drive {letter : Char} (hletter : letter.isAlpha = true)
    (hc : isSeparator pathStyle c = true) (path : List Char) :
    pathComponents pathStyle (letter :: ':' :: c :: path) =
      [letter, ':'] :: pathComponents pathStyle path := by
  have hnot : ∀ d ∈ [letter, ':'], isSeparator pathStyle d = false := by
    intro d hd
    rcases List.mem_cons.mp hd with rfl | hd
    · exact IsAlpha.not_separator hletter
    · rw [List.mem_singleton.mp hd]
      exact isSeparator_colon pathStyle
  exact List.splitOnP_append_cons_of_forall_mem hnot c hc path

theorem nil_mem_pathComponents {seps : List Char}
    (h : ∀ c ∈ seps, isSeparator pathStyle c = true) : [] ∈ pathComponents pathStyle seps := by
  cases seps with
  | nil => exact List.mem_singleton_self _
  | cons c seps =>
    rw [pathComponents_separator (h c List.mem_cons_self)]
    exact List.mem_cons_self

theorem walk_afterDots (pathStyle : PathStyle) (path : List Char) (kept : List (List Char)) :
    walk kept (pathComponents pathStyle (afterDots pathStyle path)) =
      walk kept (pathComponents pathStyle path) := by
  fun_induction afterDots pathStyle path with
  | case1 c path hc ih =>
    rw [ih, pathComponents_dot hc, walk_cons, step_dot, Option.bind_some]
  | case2 c path hc => rfl
  | case3 path hpath => rfl

theorem walk_append_seps (pathStyle : PathStyle) (path seps : List Char)
    (h : ∀ c ∈ seps, isSeparator pathStyle c = true) (kept : List (List Char)) :
    walk kept (pathComponents pathStyle (path ++ seps)) = walk kept (pathComponents pathStyle path) := by
  induction seps generalizing path with
  | nil => rw [List.append_nil]
  | cons c seps ih =>
    obtain ⟨hc, hrest⟩ := List.forall_mem_cons.mp h
    have hend : pathComponents pathStyle (path ++ [c]) = pathComponents pathStyle path ++ [[]] :=
      List.splitOnP_append_cons path [] hc
    have hempty : ∀ kept : List (List Char), walk kept [[]] = some kept := fun _ => rfl
    rw [List.append_cons, ih (path ++ [c]) hrest, hend, walk_append]
    cases walk kept (pathComponents pathStyle path) <;> rfl

theorem getLast?_unixText
    (h : ∀ c, path.getLast? = some c → c ∉ suffixes pathStyle) :
    (unixText pathStyle path).getLast? ≠ some '/' := by
  intro hlast
  rw [unixText, List.getLast?_map, Option.map_eq_some_iff] at hlast
  obtain ⟨c, hc, heq⟩ := hlast
  have hnot := mt (mem_suffixes pathStyle c).mpr (h c hc)
  rw [if_neg hnot] at heq
  rw [heq] at hnot
  exact hnot (by simp [isSeparator])

/-- **`new` is the walk**, unless a root is shown. -/
theorem new_eq_walk (path : List Char) (pathStyle : PathStyle) :
    (IsRooted pathStyle (afterDots pathStyle path) → ∃ e, RelPath.new ⟨some path⟩ pathStyle = .error e) ∧
      (¬ IsRooted pathStyle (afterDots pathStyle path) →
        match walk [] (pathComponents pathStyle path) with
        | none => ∃ e, RelPath.new ⟨some path⟩ pathStyle = .error e
        | some kept => ∃ r, RelPath.new ⟨some path⟩ pathStyle = .ok r ∧ pieces r.asRef.str = kept) := by
  have hnew : RelPath.new ⟨some path⟩ pathStyle =
      if isAbsolute (trimmed path pathStyle) pathStyle then
        .error (.absolute (trimmed path pathStyle))
      else normalize (trimmed path pathStyle) pathStyle := rfl
  rw [← isAbsolute_trimmed, hnew]
  constructor
  · intro habs
    rw [if_pos habs]
    exact ⟨_, rfl⟩
  · intro habs
    obtain ⟨seps, hpath, hseps, -⟩ := exists_trimmed pathStyle path
    have hwalk : walk [] (pathComponents pathStyle path) =
        walk [] (pathComponents pathStyle (trimmed path pathStyle)) := by
      rw [← walk_afterDots, hpath, walk_append_seps _ _ _ hseps]
    rw [if_neg habs, hwalk]
    exact normalize_eq_walk (getLast?_unixText fun c =>
      getLast?_of_trimmed (dropSuffix_trimmed path pathStyle) (Bool.not_eq_true _ ▸ habs))

/-- **When `new` succeeds.** -/
theorem new_ok_iff (path : List Char) (pathStyle : PathStyle) :
    (∃ r, RelPath.new ⟨some path⟩ pathStyle = .ok r) ↔
      ¬ IsRooted pathStyle (afterDots pathStyle path) ∧
        ¬ Climbs 0 (pathComponents pathStyle path) := by
  obtain ⟨hrooted, hfree⟩ := new_eq_walk path pathStyle
  by_cases hroot : IsRooted pathStyle (afterDots pathStyle path)
  · refine iff_of_false ?_ (fun h => h.1 hroot)
    rintro ⟨r, hr⟩
    obtain ⟨e, he⟩ := hrooted hroot
    rw [hr] at he
    cases he
  · have hclimbs := (walk_eq (pathComponents pathStyle path) []).1
    have hwalk := hfree hroot
    rw [← List.length_nil (α := List Char), ← hclimbs, and_iff_right hroot]
    cases hw : walk [] (pathComponents pathStyle path) with
    | none =>
      rw [hw] at hwalk
      obtain ⟨e, he⟩ := hwalk
      refine iff_of_false ?_ (fun h => h rfl)
      rintro ⟨r, hr⟩
      rw [hr] at he
      cases he
    | some kept =>
      rw [hw] at hwalk
      obtain ⟨r, hr, -⟩ := hwalk
      exact iff_of_true ⟨r, hr⟩ (fun h => by cases h)

/-- **And what it makes then.** -/
theorem pieces_new
    (h : RelPath.new ⟨some path⟩ pathStyle = .ok r) : pieces r.asRef.str = lexicalForm pathStyle path := by
  obtain ⟨hroot, -⟩ := (new_ok_iff path pathStyle).mp ⟨r, h⟩
  have hwalk := (new_eq_walk path pathStyle).2 hroot
  cases hw : walk [] (pathComponents pathStyle path) with
  | none =>
    rw [hw] at hwalk
    obtain ⟨e, he⟩ := hwalk
    rw [h] at he
    cases he
  | some kept =>
    rw [hw] at hwalk
    obtain ⟨r', hr', hpieces⟩ := hwalk
    rw [h] at hr'
    cases hr'
    rw [hpieces]
    exact (walk_eq _ []).2 kept hw

/-! ### Displaying -/

theorem not_separator_of_mem :
    ∀ component ∈ pathComponents pathStyle path, ∀ c ∈ component, isSeparator pathStyle c = false := by
  induction path with
  | nil =>
    intro component hmem c hc
    rw [List.mem_singleton.mp hmem] at hc
    cases hc
  | cons d path ih =>
    intro component hmem c hc
    rw [pathComponents, List.splitOnP_cons_eq_if_modifyHead, ← pathComponents] at hmem
    split_ifs at hmem with hd
    · rcases List.mem_cons.mp hmem with rfl | hmem
      · cases hc
      · exact ih component hmem c hc
    · cases hsplit : pathComponents pathStyle path with
      | nil => exact absurd hsplit (List.splitOnP_ne_nil _ _)
      | cons first rest =>
        rw [hsplit] at ih hmem
        rcases List.mem_cons.mp hmem with rfl | hmem
        · rcases List.mem_cons.mp hc with rfl | hc
          · exact Bool.eq_false_iff.mpr hd
          · exact ih first List.mem_cons_self c hc
        · exact ih component (List.mem_cons_of_mem _ hmem) c hc

theorem mem_of_mem_foldl_keep {c : List Char} (components : List (List Char)) :
    ∀ {kept : List (List Char)}, c ∈ components.foldl keep kept → c ∈ kept ∨ c ∈ components := by
  induction components with
  | nil => exact fun h => Or.inl h
  | cons d components ih =>
    intro kept h
    rcases ih h with hkeep | hrest
    · rw [keep] at hkeep
      split_ifs at hkeep
      · exact Or.inl hkeep
      · exact Or.inl (List.mem_of_mem_dropLast hkeep)
      · rcases List.mem_append.mp hkeep with hkept | hd
        · exact Or.inl hkept
        · exact Or.inr (List.mem_singleton.mp hd ▸ List.mem_cons_self)
    · exact Or.inr (List.mem_cons_of_mem _ hrest)

theorem exists_piece (hc : c ≠ '/') {s : List Char} (h : c ∈ s) : ∃ piece ∈ s.splitOn '/', c ∈ piece := by
  induction s with
  | nil => cases h
  | cons d s ih =>
    rw [List.splitOn_cons_eq_if_modifyHead]
    split_ifs with hd
    · have hmem : c ∈ s := (List.mem_cons.mp h).resolve_left fun heq => hc (heq.trans (beq_iff_eq.mp hd))
      obtain ⟨piece, hpiece, hin⟩ := ih hmem
      exact ⟨piece, List.mem_cons_of_mem _ hpiece, hin⟩
    · cases hsplit : s.splitOn '/' with
      | nil => exact absurd hsplit (List.splitOn_ne_nil _ _)
      | cons first rest =>
        rw [hsplit] at ih
        rcases List.mem_cons.mp h with rfl | hmem
        · exact ⟨c :: first, List.mem_cons_self, List.mem_cons_self⟩
        · obtain ⟨piece, hpiece, hin⟩ := ih hmem
          rcases List.mem_cons.mp hpiece with rfl | hpiece
          · exact ⟨d :: piece, List.mem_cons_self, List.mem_cons_of_mem _ hin⟩
          · exact ⟨piece, List.mem_cons_of_mem _ hpiece, hin⟩

/-- A path whose separators are all `/`. -/
def IsUnix (pathStyle : PathStyle) (s : List Char) : Prop :=
  ∀ c ∈ s, isSeparator pathStyle c = true → c = '/'

theorem isUnix_new (h : RelPath.new ⟨some path⟩ pathStyle = .ok r) : IsUnix pathStyle r.asRef.str := by
  intro c hc hsep
  by_contra hslash
  have hne : r.asRef.str ≠ [] := List.ne_nil_of_mem hc
  obtain ⟨piece, hpiece, hin⟩ := exists_piece hslash hc
  have hpieces := pieces_new h
  rw [pieces, if_neg hne] at hpieces
  rw [hpieces, lexicalForm] at hpiece
  rcases mem_of_mem_foldl_keep _ hpiece with hnil | hmem
  · cases hnil
  · rw [not_separator_of_mem piece hmem c hin] at hsep
    cases hsep

theorem unixText_display (h : IsUnix pathStyle p.str) : unixText pathStyle (p.display pathStyle) = p.str := by
  cases pathStyle with
  | posix =>
    refine (List.map_congr_left fun c hc => ?_).trans (List.map_id _)
    split_ifs with hsep
    · exact (h c hc hsep).symm
    · rfl
  | windows =>
    rw [unixText, RelPath.display, List.map_map]
    refine (List.map_congr_left fun c hc => ?_).trans (List.map_id _)
    by_cases hslash : c = '/'
    · rw [hslash]
      rfl
    · have hnot : ¬ isSeparator .windows c = true := fun hsep => hslash (h c hc hsep)
      simp [hslash, hnot]

theorem afterDots_of_not_mem (h : ['.'] ∉ pathComponents pathStyle path) : afterDots pathStyle path = path := by
  unfold afterDots
  split
  · split_ifs with hc
    · rw [pathComponents_dot hc] at h
      exact absurd List.mem_cons_self h
    · rfl
  · rfl

theorem isRooted_display (hp : Normal p.str) (hne : p.str ≠ [])
    (hcomponents : pathComponents pathStyle (p.display pathStyle) = p.str.splitOn '/') :
    IsRooted pathStyle (p.display pathStyle) ↔
      pathStyle = .windows ∧ ∃ letter second rest, letter.isAlpha = true ∧
        pieces p.str = [letter, ':'] :: second :: rest := by
  have hall : ∀ c ∈ p.str.splitOn '/', IsComponent c := hp.resolve_left hne
  rw [pieces, if_neg hne]
  constructor
  · rintro ⟨habs, -⟩
    rcases (isAbsolute_iff _ _).mp habs with ⟨c, rest, hc, heq⟩ | ⟨hstyle, letter, c, rest, hletter, hc, heq⟩
    · rw [heq, pathComponents_separator hc] at hcomponents
      exact absurd (hall [] (hcomponents ▸ List.mem_cons_self)) not_isComponent_nil
    · rw [heq, pathComponents_drive hletter hc] at hcomponents
      obtain ⟨second, more, hmore⟩ := List.exists_cons_of_ne_nil (List.splitOnP_ne_nil (isSeparator pathStyle) rest)
      exact ⟨hstyle, letter, second, more, hletter, by rw [← hcomponents, pathComponents, hmore]⟩
  · rintro ⟨rfl, letter, second, rest, hletter, hsplit⟩
    have hstr : p.str = letter :: ':' :: '/' :: ['/'].intercalate (second :: rest) := by
      have hback : p.str = ['/'].intercalate (p.str.splitOn '/') := (List.intercalate_splitOn '/').symm
      rw [hback, hsplit, List.intercalate_cons_cons]
      rfl
    have hslash : letter ≠ '/' := by
      rintro rfl
      cases hletter
    have hdisplay : p.display .windows = letter :: ':' :: '\\' ::
        (['/'].intercalate (second :: rest)).map fun c => if c = '/' then '\\' else c := by
      rw [RelPath.display, hstr]
      simp [hslash]
    refine ⟨(isAbsolute_iff _ _).mpr (Or.inr ⟨rfl, letter, '\\', _, hletter, rfl, hdisplay⟩), ?_⟩
    rintro ⟨_, letter', seps, hletter', hnil, hseps, heq⟩
    cases seps with
    | nil => exact hnil rfl
    | cons c seps =>
      obtain ⟨hc, hseps⟩ := List.forall_mem_cons.mp hseps
      rw [heq, pathComponents_drive hletter' hc] at hcomponents
      exact absurd (hall [] (hcomponents ▸ List.mem_cons_of_mem _ (nil_mem_pathComponents hseps)))
        not_isComponent_nil

theorem walk_splitOn (hp : Normal p.str) : walk [] (p.str.splitOn '/') = some (pieces p.str) := by
  by_cases hs : p.str = []
  · rw [hs]
    rfl
  · rw [walk_of_isComponent (hp.resolve_left hs), List.nil_append, pieces, if_neg hs]

/-- **A displayed path is read back**, unless it begins with a drive. -/
theorem new_display (hp : Normal p.str) (hunix : IsUnix pathStyle p.str) :
    (∃ r, RelPath.new ⟨some (p.display pathStyle)⟩ pathStyle = .ok r ∧ r.asRef = p) ↔
      ¬ (pathStyle = .windows ∧ ∃ letter second rest, letter.isAlpha = true ∧
        pieces p.str = [letter, ':'] :: second :: rest) := by
  have hcomponents : pathComponents pathStyle (p.display pathStyle) = p.str.splitOn '/' := by
    rw [← splitOn_unixText, unixText_display hunix]
  have hdots : afterDots pathStyle (p.display pathStyle) = p.display pathStyle := by
    refine afterDots_of_not_mem ?_
    rw [hcomponents]
    intro hmem
    rcases hp with hs | hall
    · rw [hs] at hmem
      exact absurd hmem (by decide)
    · exact (hall _ hmem).2.1 rfl
  have hrooted : IsRooted pathStyle (p.display pathStyle) ↔
      pathStyle = .windows ∧ ∃ letter second rest, letter.isAlpha = true ∧
        pieces p.str = [letter, ':'] :: second :: rest := by
    by_cases hs : p.str = []
    · have hempty : p.display pathStyle = [] := by
        cases pathStyle <;> simp [RelPath.display, hs]
      refine iff_of_false ?_ ?_
      · rw [hempty]
        rintro ⟨habs, -⟩
        cases pathStyle <;> cases habs
      · rintro ⟨_, letter, second, rest, _, heq⟩
        rw [pieces, if_pos hs] at heq
        cases heq
    · exact isRooted_display hp hs hcomponents
  rw [← hrooted]
  constructor
  · rintro ⟨r, hr, _⟩
    have hok := (new_ok_iff _ _).mp ⟨r, hr⟩
    rw [hdots] at hok
    exact hok.1
  · intro hfree
    have hwalk := (new_eq_walk (p.display pathStyle) pathStyle).2 (hdots.symm ▸ hfree)
    rw [hcomponents, walk_splitOn hp] at hwalk
    obtain ⟨r, hr, hpieces⟩ := hwalk
    exact ⟨r, hr, congrArg RelPath.mk (pieces_injective hpieces)⟩

/-! ### When `new` makes the lexical normal form -/

theorem afterDots_of_isAbsolute (h : isAbsolute path pathStyle = true) : afterDots pathStyle path = path := by
  refine afterDots_of_head ?_
  rcases (isAbsolute_iff _ _).mp h with ⟨c, rest, hc, rfl⟩ | ⟨_, letter, c, rest, hletter, _, rfl⟩
  · intro hhead
    obtain rfl := Option.some.inj hhead
    cases pathStyle <;> cases hc
  · intro hhead
    obtain rfl := Option.some.inj hhead
    cases hletter

/-- What `new` makes is read back from what is displayed, unless it begins with a drive. -/
theorem display_iff (h : RelPath.new ⟨some path⟩ pathStyle = .ok r) :
    (∃ r', RelPath.new ⟨some (r.asRef.display pathStyle)⟩ pathStyle = .ok r' ∧ r'.asRef = r.asRef) ↔
      ¬ DriveFirst pathStyle path := by
  rw [new_display (normal_new h) (isUnix_new h), pieces_new h, DriveFirst]

/-- **`new` makes the lexical normal form if and only if** the components climb, or the path is
absolute and more than the root of a drive, or it is not absolute, has no root behind its `./`, and
its components leave no drive in front of others. -/
theorem newIsLexical_iff (path : List Char) (pathStyle : PathStyle) :
    NewIsLexical path pathStyle ↔
      Climbs 0 (pathComponents pathStyle path) ∨
        (isAbsolute path pathStyle = true ∧ ¬ IsDriveRoot pathStyle path) ∨
        (isAbsolute path pathStyle = false ∧ ¬ IsRooted pathStyle (afterDots pathStyle path) ∧
          ¬ DriveFirst pathStyle path) := by
  have hok := new_ok_iff path pathStyle
  have hform : ∀ r, RelPath.new ⟨some path⟩ pathStyle = .ok r →
      r.asRef.components = lexicalForm pathStyle path :=
    fun r hr => (normal_new hr).components_eq.trans (pieces_new hr)
  -- where `new` fails, nothing else is asked of it
  have hfail : (¬ ∃ r, RelPath.new ⟨some path⟩ pathStyle = .ok r) →
      ((isAbsolute path pathStyle = true ∨ Climbs 0 (pathComponents pathStyle path)) ↔
        NewIsLexical path pathStyle) := by
    intro hnone
    constructor
    · intro hor
      refine ⟨iff_of_false hnone ?_, hform, fun r hr => absurd ⟨r, hr⟩ hnone⟩
      rintro ⟨habs, hclimbs⟩
      rcases hor with habs' | hclimbs'
      · rw [habs'] at habs
        cases habs
      · exact hclimbs hclimbs'
    · intro hnew
      by_contra hor
      push Not at hor
      exact hnone (hnew.ok_iff.mpr ⟨Bool.not_eq_true _ ▸ hor.1, hor.2⟩)
  by_cases hclimbs : Climbs 0 (pathComponents pathStyle path)
  · exact iff_of_true ((hfail fun h => (hok.mp h).2 hclimbs).mp (Or.inr hclimbs)) (Or.inl hclimbs)
  · rw [or_iff_right hclimbs]
    cases habs : isAbsolute path pathStyle with
    | true =>
      have hrooted : IsRooted pathStyle (afterDots pathStyle path) ↔ ¬ IsDriveRoot pathStyle path := by
        rw [afterDots_of_isAbsolute habs, IsRooted, and_iff_right habs]
      have hcond : (true = true ∧ ¬ IsDriveRoot pathStyle path) ∨ (true = false ∧
          ¬ IsRooted pathStyle (afterDots pathStyle path) ∧ ¬ DriveFirst pathStyle path) ↔
            IsRooted pathStyle (afterDots pathStyle path) := by
        rw [hrooted]
        simp
      rw [hcond]
      constructor
      · intro hnew
        by_contra hroot
        have hfalse := (hnew.ok_iff.mp (hok.mpr ⟨hroot, hclimbs⟩)).1
        rw [habs] at hfalse
        cases hfalse
      · exact fun hroot => (hfail fun h => (hok.mp h).1 hroot).mp (Or.inl habs)
    | false =>
      have hcond : (false = true ∧ ¬ IsDriveRoot pathStyle path) ∨ (false = false ∧
          ¬ IsRooted pathStyle (afterDots pathStyle path) ∧ ¬ DriveFirst pathStyle path) ↔
            ¬ IsRooted pathStyle (afterDots pathStyle path) ∧ ¬ DriveFirst pathStyle path := by
        simp
      rw [hcond]
      constructor
      · intro hnew
        obtain ⟨r, hr⟩ := hnew.ok_iff.mpr ⟨habs, hclimbs⟩
        exact ⟨(hok.mp ⟨r, hr⟩).1, (display_iff hr).mp (hnew.display r hr)⟩
      · rintro ⟨hroot, hdrive⟩
        exact ⟨iff_of_true (hok.mpr ⟨hroot, hclimbs⟩) ⟨habs, hclimbs⟩, hform,
          fun r hr => (display_iff hr).mpr hdrive⟩

/-- `C:/` is absolute on Windows, and is taken for `C:`. -/
theorem not_newIsLexical : ¬ NewIsLexical "C:/".toList .windows := by
  intro h
  have hok : ∃ r, RelPath.new ⟨some "C:/".toList⟩ .windows = .ok r := ⟨_, rfl⟩
  exact absurd (h.ok_iff.mp hok).1 (by decide)

end FcGpui

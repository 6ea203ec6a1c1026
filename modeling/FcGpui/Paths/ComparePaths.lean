import FcGpui.Paths.NaturalSort
import FcGpui.Paths.NormalForm

/-!
# The comparators of paths

`compareRelPaths` and `comparePaths` compare paths component by component: a directory before a
file, then the names by `naturalSort`, of a file without its extension, and the extensions last.
The first cuts the text of a `RelPath` and splits the extension off on its own; the second uses
`std::path`, of which there is here what it uses, as on Unix.

* `compareRelPaths_eq_comparePaths`: on paths in normal form they agree.
* `compareRelPaths_spec`: they tell paths apart, but not a file without an extension and the one
  whose extension is empty: no extension and an empty one are compared as the same.
-/

namespace FcGpui

/-! ### `std::path` -/

inductive StdComponent
  | rootDir
  | curDir
  | parentDir
  | normal (name : List Char)
deriving DecidableEq, Repr

def StdComponent.asOsStr : StdComponent → List Char
  | .rootDir => ['/']
  | .curDir => ['.']
  | .parentDir => ['.', '.']
  | .normal name => name

/-- What is between two separators; `.` and nothing are left out. -/
def stdComponent (piece : List Char) : Option StdComponent :=
  if piece = [] ∨ piece = ['.'] then none
  else if piece = ['.', '.'] then some .parentDir
  else some (.normal piece)

/-- `Path::components`; only a `.` in front is kept. -/
def stdComponents (path : List Char) : List StdComponent :=
  (if path.head? = some '/' then [.rootDir]
    else if (path.splitOn '/').head? = some ['.'] then [.curDir]
    else []) ++ (path.splitOn '/').filterMap stdComponent

/-- `Path::file_name`. -/
def stdFileName (path : List Char) : Option (List Char) :=
  match (stdComponents path).getLast? with
  | some (.normal name) => some name
  | _ => none

/-- `str::rsplit_once`. -/
def rsplitOnce (c : Char) (s : List Char) : Option (List Char × List Char) :=
  (rfind c s).map fun ix => (s.take ix, (s.drop ix).drop 1)

/-- What is before the last dot and what is behind it; a name that has no other dot than the first
is not split. -/
def rsplitFileAtDot (file : List Char) : Option (List Char) × Option (List Char) :=
  if file = ['.', '.'] then (some file, none)
  else
    match rsplitOnce '.' file with
    | none => (none, some file)
    | some (before, after) => if before = [] then (some file, none) else (some before, some after)

/-- `Path::file_stem`. -/
def stdPathStem (path : List Char) : Option (List Char) :=
  ((stdFileName path).map rsplitFileAtDot).bind fun split => split.1.or split.2

/-- `Path::extension`. -/
def stdExtension (path : List Char) : Option (List Char) :=
  ((stdFileName path).map rsplitFileAtDot).bind fun split => split.1.bind fun _ => split.2

/-! ### The comparators -/

def stemAndExtension (filename : List Char) : Option (List Char) × Option (List Char) :=
  if filename = [] then (none, none)
  else
    match rsplitOnce '.' filename with
    | none => (some filename, none)
    | some (before, after) =>
      -- a dot in front is not that of an extension
      if before = [] then (some filename, none) else (some before, some after)

def comparePathStrings : Option (List Char) → Option (List Char) → Ordering
  | some a, some b => naturalSort a b
  | some _, none => .gt
  | none, some _ => .lt
  | none, none => .eq

/-- What the closure of `compare_rel_paths` makes of two components. -/
def compareRelComponents (aIsFile : Bool) (componentA : List Char) (bIsFile : Bool)
    (componentB : List Char) : Ordering :=
  let (aStem, aExtension) := if aIsFile then stemAndExtension componentA else (none, none)
  let pathStringA := if aIsFile then aStem else some componentA
  let (bStem, bExtension) := if bIsFile then stemAndExtension componentB else (none, none)
  let pathStringB := if bIsFile then bStem else some componentB
  (compare aIsFile bIsFile).then <|
    (comparePathStrings pathStringA pathStringB).then <|
      if aIsFile && bIsFile then strCmp (aExtension.getD []) (bExtension.getD []) else .eq

def compareRelPathsLoop (aIsFile bIsFile : Bool) : Nat → List Char → List Char → Ordering
  | 0, _, _ => .eq
  | fuel + 1, componentsA, componentsB =>
    match componentsNext componentsA, componentsNext componentsB with
    | some (componentA, restA), some (componentB, restB) =>
      match compareRelComponents (aIsFile && restA.isEmpty) componentA (bIsFile && restB.isEmpty)
          componentB with
      | .eq => compareRelPathsLoop aIsFile bIsFile fuel restA restB
      | ordering => ordering
    | some _, none => .gt
    | none, some _ => .lt
    | none, none => .eq

/-- A component is with its separator, so that there are no more than characters. -/
def compareRelPaths (a b : RelPath × Bool) : Ordering :=
  compareRelPathsLoop a.2 b.2 (a.1.str.length + 1) a.1.str b.1.str

/-- What the closure of `compare_paths` makes of two components. -/
def compareStdComponents (aIsFile : Bool) (componentA : StdComponent) (bIsFile : Bool)
    (componentB : StdComponent) : Ordering :=
  let pathA := componentA.asOsStr
  let pathStringA := if aIsFile then stdPathStem pathA else stdFileName pathA
  let pathB := componentB.asOsStr
  let pathStringB := if bIsFile then stdPathStem pathB else stdFileName pathB
  (compare aIsFile bIsFile).then <|
    (comparePathStrings pathStringA pathStringB).then <|
      if aIsFile && bIsFile then strCmp ((stdExtension pathA).getD []) ((stdExtension pathB).getD [])
      else .eq

/-- Two iterators are advanced together; only the last component is that of a file. -/
def compareComponents {α : Type} (cmp : Bool → α → Bool → α → Ordering) (aIsFile bIsFile : Bool) :
    List α → List α → Ordering
  | a :: as, b :: bs =>
    match cmp (as.isEmpty && aIsFile) a (bs.isEmpty && bIsFile) b with
    | .eq => compareComponents cmp aIsFile bIsFile as bs
    | ordering => ordering
  | _ :: _, [] => .gt
  | [], _ :: _ => .lt
  | [], [] => .eq

def comparePaths (a b : List Char × Bool) : Ordering :=
  compareComponents compareStdComponents a.2 b.2 (stdComponents a.1) (stdComponents b.1)

open RelPath

/-! ### One component -/

variable {c d : List Char} {p : RelPath}

/-- What `std` makes of the text of one component. -/
theorem stdComponents_of_isComponent (h : IsComponent c) (hslash : '/' ∉ c) :
    stdComponents c = [.normal c] := by
  have hhead : c.head? ≠ some '/' := fun hhead => hslash (List.mem_of_mem_head? hhead)
  rw [stdComponents, if_neg hhead, List.splitOn_eq_singleton hslash, if_neg]
  · rw [List.nil_append, List.filterMap_cons_some (b := .normal c)]
    · rfl
    · rw [stdComponent, if_neg (fun hor => hor.elim h.1 h.2.1), if_neg h.2.2]
  · intro hdot
    exact h.2.1 (Option.some.inj hdot)

theorem stdFileName_of_isComponent (h : IsComponent c) (hslash : '/' ∉ c) : stdFileName c = some c := by
  rw [stdFileName, stdComponents_of_isComponent h hslash]
  rfl

/-- **Both ways to split an extension off** give the same. -/
theorem std_of_isComponent (h : IsComponent c) (hslash : '/' ∉ c) :
    stdPathStem c = (stemAndExtension c).1 ∧ stdExtension c = (stemAndExtension c).2 := by
  rw [stdPathStem, stdExtension, stdFileName_of_isComponent h hslash, Option.map_some,
    Option.bind_some, Option.bind_some, rsplitFileAtDot, if_neg h.2.2, stemAndExtension, if_neg h.1]
  cases rsplitOnce '.' c with
  | none => exact ⟨rfl, rfl⟩
  | some split =>
    dsimp only
    split_ifs <;> exact ⟨rfl, rfl⟩

theorem compareStdComponents_eq (hc : IsComponent c) (hcslash : '/' ∉ c)
    (hd : IsComponent d) (hdslash : '/' ∉ d) (aIsFile bIsFile : Bool) :
    compareStdComponents aIsFile (.normal c) bIsFile (.normal d) =
      compareRelComponents aIsFile c bIsFile d := by
  obtain ⟨hstemC, hextC⟩ := std_of_isComponent hc hcslash
  obtain ⟨hstemD, hextD⟩ := std_of_isComponent hd hdslash
  simp only [compareStdComponents, compareRelComponents, StdComponent.asOsStr, hstemC, hextC, hstemD,
    hextD, stdFileName_of_isComponent hc hcslash, stdFileName_of_isComponent hd hdslash]
  cases aIsFile <;> cases bIsFile <;> rfl

theorem stemAndExtension_eq (h : c ≠ []) :
    '.' ∉ c.drop 1 ∧ stemAndExtension c = (some c, none) ∨
      ∃ stem extension, stem ≠ [] ∧ '.' ∉ extension ∧ c = stem ++ '.' :: extension ∧
        stemAndExtension c = (some stem, some extension) := by
  rw [stemAndExtension, if_neg h, rsplitOnce]
  cases hf : rfind '.' c with
  | none => exact Or.inl ⟨fun hmem => rfind_eq_none.mp hf (List.mem_of_mem_drop hmem), rfl⟩
  | some ix =>
    obtain ⟨hc, hrest⟩ := cut_of_rfind hf
    by_cases hempty : c.take ix = []
    · refine Or.inl ⟨?_, if_pos hempty⟩
      rw [hc, hempty]
      exact hrest
    · exact Or.inr ⟨_, _, hempty, hrest, hc, if_neg hempty⟩

/-- `d` is `c` with a dot behind it, and `c` has no extension. -/
def TrailingDot (c d : List Char) : Prop := '.' ∉ c.drop 1 ∧ d = c ++ ['.']

theorem TrailingDot.dot_mem (h : TrailingDot c d) (hc : c ≠ []) : '.' ∈ d.drop 1 := by
  obtain ⟨a, c, rfl⟩ := List.exists_cons_of_ne_nil hc
  rw [h.2, List.cons_append, List.drop_one, List.tail_cons]
  exact List.mem_append_right _ List.mem_cons_self

theorem dot_mem_drop {stem extension : List Char} (h : stem ≠ []) :
    '.' ∈ (stem ++ '.' :: extension).drop 1 := by
  obtain ⟨a, stem, rfl⟩ := List.exists_cons_of_ne_nil h
  rw [List.cons_append, List.drop_one, List.tail_cons]
  exact List.mem_append_right _ List.mem_cons_self

theorem comparePathStrings_eq_iff {a b : Option (List Char)} :
    comparePathStrings a b = .eq ↔ a = b := by
  cases a with
  | none => cases b <;> simp [comparePathStrings]
  | some a =>
    cases b with
    | none => simp [comparePathStrings]
    | some b =>
      rw [Option.some.injEq]
      refine ⟨eq_of_naturalSort, ?_⟩
      rintro rfl
      exact naturalSort_self a

/-- A name without an extension against one with it. -/
theorem split_eq_iff {stem extension : List Char} (hno : '.' ∉ c.drop 1) (hstem : stem ≠ [])
    (hext : '.' ∉ extension) (hd : d = stem ++ '.' :: extension) :
    (c = stem ∧ [] = extension) ↔ c = d ∨ TrailingDot c d ∨ TrailingDot d c := by
  have hdot : '.' ∈ d.drop 1 := hd ▸ dot_mem_drop hstem
  constructor
  · rintro ⟨rfl, rfl⟩
    exact Or.inr (Or.inl ⟨hno, hd⟩)
  · rintro (rfl | h | h)
    · exact absurd hdot hno
    · have hend : c ++ ['.'] = stem ++ '.' :: extension := h.2.symm.trans hd
      -- the dot at the end is the last one
      rcases List.eq_nil_or_concat' extension with rfl | ⟨init, e, rfl⟩
      · exact ⟨(List.append_inj' hend rfl).1, rfl⟩
      · have hlast := congrArg List.getLast? hend
        rw [List.getLast?_concat, List.getLast?_append, List.getLast?_cons,
          List.getLast?_concat] at hlast
        obtain rfl : '.' = e := Option.some.inj hlast
        exact absurd (List.mem_append_right _ (List.mem_singleton_self _)) hext
    · exact absurd hdot h.1

/-- **Two files that are compared as the same.** -/
theorem compareRelComponents_file (hc : c ≠ []) (hd : d ≠ []) :
    compareRelComponents true c true d = .eq ↔ c = d ∨ TrailingDot c d ∨ TrailingDot d c := by
  have hcmp : compareRelComponents true c true d =
      (comparePathStrings (stemAndExtension c).1 (stemAndExtension d).1).then
        (strCmp ((stemAndExtension c).2.getD []) ((stemAndExtension d).2.getD [])) := rfl
  rw [hcmp, Ordering.then_eq_eq, comparePathStrings_eq_iff,
    (Std.LawfulEqCmp.compare_eq_iff_eq : strCmp _ _ = .eq ↔ _)]
  rcases stemAndExtension_eq hc with ⟨hnoC, heqC⟩ | ⟨stemC, extC, hstemC, hextC, hsplitC, heqC⟩
  · rcases stemAndExtension_eq hd with ⟨hnoD, heqD⟩ | ⟨stemD, extD, hstemD, hextD, hsplitD, heqD⟩
    · rw [heqC, heqD]
      constructor
      · rintro ⟨hstem, _⟩
        exact Or.inl (Option.some.inj hstem)
      · rintro (rfl | h | h)
        · exact ⟨rfl, rfl⟩
        · exact absurd (h.dot_mem hc) hnoD
        · exact absurd (h.dot_mem hd) hnoC
    · rw [heqC, heqD, ← split_eq_iff hnoC hstemD hextD hsplitD, Option.some.injEq]
      rfl
  · rcases stemAndExtension_eq hd with ⟨hnoD, heqD⟩ | ⟨stemD, extD, hstemD, hextD, hsplitD, heqD⟩
    · rw [heqC, heqD, eq_comm (a := c), or_comm (a := TrailingDot c d),
        ← split_eq_iff hnoD hstemC hextC hsplitC, Option.some.injEq, eq_comm (a := stemC), eq_comm (a := [])]
      rfl
    · have hdotC : '.' ∈ c.drop 1 := hsplitC ▸ dot_mem_drop hstemC
      have hdotD : '.' ∈ d.drop 1 := hsplitD ▸ dot_mem_drop hstemD
      constructor
      · intro h
        rw [heqC, heqD] at h
        obtain ⟨hstem, hext⟩ := h
        left
        rw [hsplitC, hsplitD, Option.some.inj hstem]
        exact congrArg (stemD ++ '.' :: ·) hext
      · rintro (rfl | h | h)
        · exact ⟨rfl, rfl⟩
        · exact absurd hdotC h.1
        · exact absurd hdotD h.1

theorem compareRelComponents_dir : compareRelComponents false c false d = .eq ↔ c = d := by
  have hcmp : compareRelComponents false c false d = (naturalSort c d).then .eq := rfl
  rw [hcmp, Ordering.then_eq]
  refine ⟨eq_of_naturalSort, ?_⟩
  rintro rfl
  exact naturalSort_self c

theorem compareRelComponents_eq_iff (hc : c ≠ []) (hd : d ≠ []) (aIsFile bIsFile : Bool) :
    compareRelComponents aIsFile c bIsFile d = .eq ↔
      aIsFile = bIsFile ∧ (c = d ∨ aIsFile = true ∧ (TrailingDot c d ∨ TrailingDot d c)) := by
  cases aIsFile with
  | true =>
    cases bIsFile with
    | true => simp only [compareRelComponents_file hc hd, true_and]
    | false =>
      constructor
      · intro h
        cases h
      · rintro ⟨h, _⟩
        cases h
  | false =>
    cases bIsFile with
    | true =>
      constructor
      · intro h
        cases h
      · rintro ⟨h, _⟩
        cases h
    | false =>
      rw [compareRelComponents_dir]
      refine ⟨fun h => ⟨rfl, Or.inl h⟩, ?_⟩
      rintro ⟨_, h | ⟨h, _⟩⟩
      · exact h
      · cases h

/-! ### All components -/

theorem compareRelPathsLoop_eq (aIsFile bIsFile : Bool) (fuel : Nat) : ∀ {a b : List Char},
    Normal a → Normal b → a.length < fuel → compareRelPathsLoop aIsFile bIsFile fuel a b =
      compareComponents compareRelComponents aIsFile bIsFile (pieces a) (pieces b) := by
  induction fuel with
  | zero => exact fun _ _ h => absurd h (Nat.not_lt_zero _)
  | succ fuel ih =>
    intro a b ha hb hfuel
    rw [compareRelPathsLoop]
    cases hnextA : componentsNext a with
    | none =>
      obtain rfl := componentsNext_eq_none.mp hnextA
      cases hnextB : componentsNext b with
      | none =>
        obtain rfl := componentsNext_eq_none.mp hnextB
        rfl
      | some nextB =>
        rw [hb.pieces_next hnextB]
        rfl
    | some nextA =>
      rw [ha.pieces_next hnextA]
      cases hnextB : componentsNext b with
      | none =>
        obtain rfl := componentsNext_eq_none.mp hnextB
        rfl
      | some nextB =>
        have hshort := length_rest hnextA
        rw [hb.pieces_next hnextB, compareComponents, isEmpty_pieces, isEmpty_pieces, Bool.and_comm,
          Bool.and_comm nextB.2.isEmpty, ← ih (ha.next hnextA).2 (hb.next hnextB).2 (by omega)]

theorem stdComponents_of_normal {s : List Char} (h : Normal s) :
    stdComponents s = (pieces s).map .normal := by
  by_cases hs : s = []
  · rw [hs]
    rfl
  · have hmem : ∀ c ∈ s.splitOn '/', IsComponent c := h.resolve_left hs
    have hroot : s.head? ≠ some '/' := by
      intro hhead
      obtain ⟨rest, rfl⟩ := List.head?_eq_some_iff.mp hhead
      have hempty : Normal ([] ++ '/' :: rest) := h
      exact (normal_append_cons.mp hempty).1.1 rfl
    have hdot : (s.splitOn '/').head? ≠ some ['.'] :=
      fun hhead => (hmem _ (List.mem_of_mem_head? hhead)).2.1 rfl
    have hall : ∀ c ∈ s.splitOn '/', stdComponent c = some (.normal c) := by
      intro c hc
      obtain ⟨hnil, hdot, hdots⟩ := hmem c hc
      rw [stdComponent, if_neg (fun hor => hor.elim hnil hdot), if_neg hdots]
    rw [stdComponents, if_neg hroot, if_neg hdot, List.nil_append, pieces, if_neg hs,
      List.filterMap_congr hall]
    exact congrFun (List.filterMap_eq_map (f := StdComponent.normal)) _

theorem compareComponents_map {as bs : List (List Char)} (has : ∀ c ∈ as, IsComponent c ∧ '/' ∉ c)
    (hbs : ∀ c ∈ bs, IsComponent c ∧ '/' ∉ c) (aIsFile bIsFile : Bool) :
    compareComponents compareStdComponents aIsFile bIsFile (as.map .normal) (bs.map .normal) =
      compareComponents compareRelComponents aIsFile bIsFile as bs := by
  induction as generalizing bs with
  | nil => cases bs <;> rfl
  | cons a as ih =>
    cases bs with
    | nil => rfl
    | cons b bs =>
      obtain ⟨ha, has⟩ := List.forall_mem_cons.mp has
      obtain ⟨hb, hbs⟩ := List.forall_mem_cons.mp hbs
      rw [List.map_cons, List.map_cons, compareComponents, compareComponents, List.isEmpty_map,
        List.isEmpty_map, compareStdComponents_eq ha.1 ha.2 hb.1 hb.2, ih has hbs]

/-- **On paths in normal form the comparators agree.** -/
theorem compareRelPaths_eq_comparePaths {q : RelPath} (hp : Normal p.str) (hq : Normal q.str)
    (pIsFile qIsFile : Bool) :
    compareRelPaths (p, pIsFile) (q, qIsFile) = comparePaths (p.str, pIsFile) (q.str, qIsFile) := by
  rw [compareRelPaths, compareRelPathsLoop_eq _ _ _ hp hq (Nat.lt_succ_self _), comparePaths,
    stdComponents_of_normal hp, stdComponents_of_normal hq,
    compareComponents_map (fun _ => hp.isComponent_of_mem) (fun _ => hq.isComponent_of_mem)]

/-! ### Paths that are compared as the same -/

theorem compareComponents_cons_eq {α : Type} {cmp : Bool → α → Bool → α → Ordering}
    {aIsFile bIsFile : Bool} {a b : α} {as bs : List α} :
    compareComponents cmp aIsFile bIsFile (a :: as) (b :: bs) = .eq ↔
      cmp (as.isEmpty && aIsFile) a (bs.isEmpty && bIsFile) b = .eq ∧
        compareComponents cmp aIsFile bIsFile as bs = .eq := by
  rw [compareComponents]
  cases cmp (as.isEmpty && aIsFile) a (bs.isEmpty && bIsFile) b <;> simp

/-- **Only the last components may differ.** -/
theorem compareComponents_concat {as bs : List (List Char)} (aIsFile bIsFile : Bool) :
    compareComponents compareRelComponents aIsFile bIsFile (as ++ [c]) (bs ++ [d]) = .eq ↔
      as = bs ∧ compareRelComponents aIsFile c bIsFile d = .eq := by
  induction as generalizing bs with
  | nil =>
    cases bs with
    | nil =>
      rw [List.nil_append, List.nil_append, compareComponents_cons_eq]
      exact ⟨fun h => ⟨rfl, h.1⟩, fun h => ⟨h.2, rfl⟩⟩
    | cons b bs =>
      refine iff_of_false ?_ (fun h => by cases h.1)
      rw [List.nil_append, List.cons_append, compareComponents_cons_eq]
      rintro ⟨_, h⟩
      cases bs <;> cases h
  | cons a as ih =>
    cases bs with
    | nil =>
      refine iff_of_false ?_ (fun h => by cases h.1)
      rw [List.nil_append, List.cons_append, compareComponents_cons_eq]
      rintro ⟨_, h⟩
      cases as <;> cases h
    | cons b bs =>
      have hmoreA : (as ++ [c]).isEmpty = false := by cases as <;> rfl
      have hmoreB : (bs ++ [d]).isEmpty = false := by cases bs <;> rfl
      rw [List.cons_append, List.cons_append, compareComponents_cons_eq, hmoreA, hmoreB,
        Bool.false_and, Bool.false_and, compareRelComponents_dir, ih, List.cons.injEq, and_assoc]

/-- The file name is the last piece, and what is put behind the path is put behind it. -/
theorem exists_pieces (h : p.str ≠ []) : ∃ front name, p.fileName = some name ∧
    pieces p.str = front ++ [name] ∧
      ∀ more : List Char, '/' ∉ more → pieces (p.str ++ more) = front ++ [name ++ more] := by
  cases hback : componentsNextBack p.str with
  | none => exact absurd (componentsNextBack_eq_none.mp hback) h
  | some back =>
    obtain ⟨name, rest⟩ := back
    have hfile : p.fileName = some name := by rw [RelPath.fileName, hback]; rfl
    obtain ⟨hslash, hs | ⟨hs, _, _⟩⟩ := componentsNextBack_eq_some hback
    · have hpieces : ∀ name : List Char, '/' ∉ name →
          pieces (rest ++ '/' :: name) = rest.splitOn '/' ++ [name] := by
        intro name hname
        rw [pieces, if_neg (List.append_ne_nil_of_right_ne_nil rest (List.cons_ne_nil _ _)),
          List.splitOn_append_cons_self, List.splitOn_eq_singleton hname]
      refine ⟨rest.splitOn '/', name, hfile, ?_, fun more hmore => ?_⟩
      · rw [hs, hpieces name hslash]
      · rw [hs, List.append_assoc, List.cons_append, hpieces (name ++ more) (by simp [hslash, hmore])]
    · refine ⟨[], name, hfile, ?_, fun more hmore => ?_⟩
      · rw [hs, pieces_of_not_mem hslash (hs ▸ h), List.nil_append]
      · rw [hs, pieces_of_not_mem (by simp [hslash, hmore]) (List.append_ne_nil_of_left_ne_nil (hs ▸ h) _),
          List.nil_append]

/-- `q` is `p` with a dot behind it, and the name of `p` has no other dot than in front. -/
def TrailingDotPath (p q : RelPath) : Prop :=
  q.str = p.str ++ ['.'] ∧ ∃ name, p.fileName = some name ∧ '.' ∉ name.drop 1

theorem trailingDotPath_iff {q : RelPath} {front frontQ : List (List Char)} {name nameQ : List Char}
    (hname : p.fileName = some name)
    (hmore : ∀ more : List Char, '/' ∉ more → pieces (p.str ++ more) = front ++ [name ++ more])
    (hq : pieces q.str = frontQ ++ [nameQ]) :
    TrailingDotPath p q ↔ front = frontQ ∧ TrailingDot name nameQ := by
  have hdot := hmore ['.'] (by decide)
  constructor
  · rintro ⟨hstr, name', hname', hno⟩
    obtain rfl := Option.some.inj (hname.symm.trans hname')
    rw [hstr, hdot] at hq
    obtain ⟨hfront, hlast⟩ := List.append_inj' hq rfl
    exact ⟨hfront, hno, (List.cons.inj hlast).1.symm⟩
  · rintro ⟨rfl, hno, rfl⟩
    exact ⟨pieces_injective (hq.trans hdot.symm), name, hname, hno⟩

/-- **The comparators agree, and tell entries apart** but for a dot at the end. -/
theorem compareRelPaths_spec {p q : RelPath} (hp : Normal p.str) (hpne : p.str ≠ [])
    (hq : Normal q.str) (hqne : q.str ≠ []) (pIsFile qIsFile : Bool) :
    compareRelPaths (p, pIsFile) (q, qIsFile) = comparePaths (p.str, pIsFile) (q.str, qIsFile) ∧
      (compareRelPaths (p, pIsFile) (q, qIsFile) = .eq ↔
        pIsFile = qIsFile ∧
          (p = q ∨ pIsFile = true ∧ (TrailingDotPath p q ∨ TrailingDotPath q p))) := by
  refine ⟨compareRelPaths_eq_comparePaths hp hq pIsFile qIsFile, ?_⟩
  obtain ⟨frontP, nameP, hnameP, hpiecesP, hmoreP⟩ := exists_pieces hpne
  obtain ⟨frontQ, nameQ, hnameQ, hpiecesQ, hmoreQ⟩ := exists_pieces hqne
  have hcompP : IsComponent nameP := (hp.isComponent_of_mem (by rw [hpiecesP]; simp)).1
  have hcompQ : IsComponent nameQ := (hq.isComponent_of_mem (by rw [hpiecesQ]; simp)).1
  have hsame : p = q ↔ frontP = frontQ ∧ nameP = nameQ := by
    constructor
    · rintro rfl
      obtain ⟨hfront, hname⟩ := List.append_inj' (hpiecesP.symm.trans hpiecesQ) rfl
      exact ⟨hfront, (List.cons.inj hname).1⟩
    · rintro ⟨rfl, rfl⟩
      exact congrArg RelPath.mk (pieces_injective (hpiecesP.trans hpiecesQ.symm))
  rw [compareRelPaths, compareRelPathsLoop_eq _ _ _ hp hq (Nat.lt_succ_self _), hpiecesP, hpiecesQ,
    compareComponents_concat, compareRelComponents_eq_iff hcompP.1 hcompQ.1, hsame,
    trailingDotPath_iff hnameP hmoreP hpiecesQ, trailingDotPath_iff hnameQ hmoreQ hpiecesP,
    eq_comm (a := frontQ)]
  tauto

/-- `foo` and `foo.` are compared as the same. -/
theorem not_tellsApart : ¬ ∀ (p q : RelPath) (pIsFile qIsFile : Bool), Normal p.str → p.str ≠ [] →
    Normal q.str → q.str ≠ [] → compareRelPaths (p, pIsFile) (q, qIsFile) = .eq →
      p = q ∧ pIsFile = qIsFile := by
  intro h
  have hsame := h ⟨"foo".toList⟩ ⟨"foo.".toList⟩ true true (by decide) (by decide) (by decide)
    (by decide) (by decide)
  exact absurd hsame.1 (by decide)

theorem compareRelPaths_spec_foo :
    compareRelPaths (⟨"foo".toList⟩, true) (⟨"foo.".toList⟩, true) =
        comparePaths ("foo".toList, true) ("foo.".toList, true) ∧
      (compareRelPaths (⟨"foo".toList⟩, true) (⟨"foo.".toList⟩, true) = .eq ↔
        true = true ∧ ((⟨"foo".toList⟩ : RelPath) = ⟨"foo.".toList⟩ ∨
          true = true ∧ (TrailingDotPath ⟨"foo".toList⟩ ⟨"foo.".toList⟩ ∨
            TrailingDotPath ⟨"foo.".toList⟩ ⟨"foo".toList⟩))) :=
  compareRelPaths_spec (p := ⟨"foo".toList⟩) (q := ⟨"foo.".toList⟩) (by decide) (by decide)
    (by decide) (by decide) true true

end FcGpui

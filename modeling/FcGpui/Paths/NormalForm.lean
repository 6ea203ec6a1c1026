import FcGpui.Paths.RelPath

/-!
# The normal form of relative paths

`Normal`: empty, or components with `'/'` between them, none of which is empty, `.` or
`..`.  `RelPath.new` brings every path to that form (`normal_new`), and `unix` accepts just
the strings that are in it (`unix_eq_ok_iff`).  Most of the operations keep it.
-/

namespace FcGpui

/-- A relative path in normal form. -/
def Normal (s : List Char) : Prop := Separated '/' RelPath.IsComponent s

instance : DecidablePred Normal := fun s =>
  inferInstanceAs (Decidable (Separated '/' RelPath.IsComponent s))

open RelPath

theorem not_isComponent_nil : ¬ IsComponent [] := fun h => h.1 rfl

theorem normal_nil : Normal [] := separated_nil

theorem normal_append_cons {a b : List Char} :
    Normal (a ++ '/' :: b) ↔ (a ≠ [] ∧ Normal a) ∧ (b ≠ [] ∧ Normal b) :=
  separated_append_cons not_isComponent_nil

variable {s c rest path file extension : List Char} {b : RelPathBuf} {pathStyle : PathStyle} {p q : RelPath}

theorem normal_of_not_mem (hs : '/' ∉ s) (hne : s ≠ []) : Normal s ↔ IsComponent s := by
  rw [Normal, separated_of_not_mem hs, or_iff_right hne]

/-! ### Components -/

theorem componentsNext_eq_none : componentsNext s = none ↔ s = [] := by
  rw [componentsNext]
  cases hf : s.idxOf? '/' with
  | none => by_cases hs : s = [] <;> simp [hs]
  | some ix =>
    constructor
    · intro h
      cases h
    · rintro rfl
      cases hf

/-- **The first component.** -/
theorem componentsNext_eq_some (h : componentsNext s = some (c, rest)) :
    '/' ∉ c ∧ (s = c ++ '/' :: rest ∨ s = c ∧ rest = [] ∧ s ≠ []) := by
  rw [componentsNext] at h
  split at h
  · rename_i ix hix
    cases h
    obtain ⟨hs, hc⟩ := cut_of_find hix
    exact ⟨hc, .inl hs⟩
  · rename_i hnone
    split at h
    · cases h
    · rename_i hne
      cases h
      exact ⟨find_eq_none.mp hnone, .inr ⟨rfl, rfl, hne⟩⟩

theorem length_rest (h : componentsNext s = some (c, rest)) : rest.length < s.length := by
  obtain ⟨-, hs | ⟨rfl, rfl, hne⟩⟩ := componentsNext_eq_some h
  · rw [hs, List.length_append, List.length_cons]
    omega
  · exact List.length_pos_iff.mpr hne

theorem Normal.next (h : Normal s) (hnext : componentsNext s = some (c, rest)) :
    IsComponent c ∧ Normal rest := by
  obtain ⟨hc, hs | ⟨rfl, rfl, hne⟩⟩ := componentsNext_eq_some hnext
  · rw [hs] at h
    obtain ⟨⟨hne, hfirst⟩, -, hrest⟩ := normal_append_cons.mp h
    exact ⟨(normal_of_not_mem hc hne).mp hfirst, hrest⟩
  · exact ⟨(normal_of_not_mem hc hne).mp h, normal_nil⟩

theorem componentsNextBack_eq_none : componentsNextBack s = none ↔ s = [] := by
  rw [componentsNextBack]
  cases hf : rfind '/' s with
  | none => by_cases hs : s = [] <;> simp [hs]
  | some ix =>
    constructor
    · intro h
      cases h
    · rintro rfl
      cases hf

/-- **The last component.** -/
theorem componentsNextBack_eq_some (h : componentsNextBack s = some (c, rest)) :
    '/' ∉ c ∧ (s = rest ++ '/' :: c ∨ s = c ∧ rest = [] ∧ s ≠ []) := by
  rw [componentsNextBack] at h
  split at h
  · rename_i ix hix
    cases h
    obtain ⟨hs, hc⟩ := cut_of_rfind hix
    exact ⟨hc, .inl hs⟩
  · rename_i hnone
    split at h
    · cases h
    · rename_i hne
      cases h
      exact ⟨rfind_eq_none.mp hnone, .inr ⟨rfl, rfl, hne⟩⟩

theorem Normal.nextBack (h : Normal s)
    (hnext : componentsNextBack s = some (c, rest)) : IsComponent c ∧ Normal rest := by
  obtain ⟨hc, hs | ⟨rfl, rfl, hne⟩⟩ := componentsNextBack_eq_some hnext
  · rw [hs] at h
    obtain ⟨⟨-, hrest⟩, hne, hlast⟩ := normal_append_cons.mp h
    exact ⟨(normal_of_not_mem hc hne).mp hlast, hrest⟩
  · exact ⟨(normal_of_not_mem hc hne).mp h, normal_nil⟩

/-- **The components are the pieces**, where no separator is at the end. -/
theorem collectComponents_eq : ∀ (fuel : Nat) {s : List Char}, s ≠ [] → s.length ≤ fuel →
    s.getLast? ≠ some '/' → collectComponents fuel s = s.splitOn '/' := by
  intro fuel
  induction fuel with
  | zero =>
    intro s hne hlen
    exact absurd (List.length_eq_zero_iff.mp (by omega)) hne
  | succ fuel ih =>
    intro s hne hlen hlast
    cases hnext : componentsNext s with
    | none => exact absurd (componentsNext_eq_none.mp hnext) hne
    | some next =>
      obtain ⟨c, rest⟩ := next
      have hshort := length_rest hnext
      rw [collectComponents, hnext]
      obtain ⟨hc, hs | ⟨rfl, rfl, -⟩⟩ := componentsNext_eq_some hnext
      · have hrest : rest ≠ [] := by
          rintro rfl
          rw [hs, List.getLast?_append] at hlast
          exact hlast rfl
        have hlast' : rest.getLast? ≠ some '/' := by
          obtain ⟨d, rest, rfl⟩ := List.exists_cons_of_ne_nil hrest
          rw [hs, List.getLast?_append, List.getLast?_cons_cons, List.getLast?_cons,
            Option.some_or] at hlast
          rwa [List.getLast?_cons]
        rw [hs, List.splitOn_append_cons_self_of_not_mem hc]
        exact congrArg (c :: ·) (ih hrest (by omega) hlast')
      · have hnil : collectComponents fuel [] = [] := by
          cases fuel <;> rfl
        rw [List.splitOn_eq_singleton hc]
        exact congrArg (s :: ·) hnil

theorem not_mem_of_mem_collectComponents : ∀ (fuel : Nat) {s c : List Char},
    c ∈ collectComponents fuel s → '/' ∉ c := by
  intro fuel
  induction fuel with
  | zero =>
    intro s c hmem
    cases hmem
  | succ fuel ih =>
    intro s c hmem
    rw [collectComponents] at hmem
    cases hnext : componentsNext s with
    | none =>
      rw [hnext] at hmem
      cases hmem
    | some next =>
      rw [hnext] at hmem
      rcases List.mem_cons.mp hmem with rfl | hmem
      · exact (componentsNext_eq_some hnext).1
      · exact ih hmem

/-! ### Buffers -/

theorem RelPathBuf.pop_eq (b : RelPathBuf) : b.pop =
    match componentsNextBack b.str with
    | some (_, rest) => (true, ⟨rest⟩)
    | none => (false, b) := by
  rw [RelPathBuf.pop, componentsNextBack]
  cases rfind '/' b.str with
  | some ix => rfl
  | none => by_cases hb : b.str = [] <;> simp [hb]

theorem Normal.pop (h : Normal b.str) : Normal b.pop.2.str := by
  rw [b.pop_eq]
  cases hnext : componentsNextBack b.str with
  | none => exact h
  | some next => exact (h.nextBack hnext).2

/-- **Pushing** keeps the form, unless nothing is pushed on something. -/
theorem normal_push {path : RelPath} (hb : Normal b.str) (hp : Normal path.str) :
    Normal (b.push path).str ↔ (b.str ≠ [] → path.str ≠ []) := by
  rw [RelPathBuf.push]
  by_cases hempty : b.str = []
  · rw [if_neg (not_not_intro hempty), hempty, List.nil_append]
    exact ⟨fun _ h => absurd rfl h, fun _ => hp⟩
  · rw [if_pos hempty, List.append_assoc, List.singleton_append, normal_append_cons]
    constructor
    · rintro ⟨-, h, -⟩ -
      exact h
    · intro h
      exact ⟨⟨hempty, hb⟩, h hempty, hp⟩

/-! ### `RelPath::new` -/

theorem normal_pushComponent {result : RelPath} {normalized normalized' : RelPathBuf}
    {component : List Char} (hn : Normal normalized.str) (hc : '/' ∉ component)
    (h : pushComponent result normalized component = .ok normalized') : Normal normalized'.str := by
  rw [pushComponent] at h
  split_ifs at h with hnil hdot hdots
  · cases h
    exact hn
  · cases h
    exact hn
  · cases hpop : normalized.pop with
    | mk popped left =>
      rw [hpop] at h
      cases popped with
      | false => cases h
      | true =>
        cases h
        have hleft := hn.pop
        rw [hpop] at hleft
        exact hleft
  · cases h
    have hnormal : Normal component := (normal_of_not_mem hc hnil).mpr ⟨hnil, hdot, hdots⟩
    exact (normal_push hn hnormal).mpr fun _ => hnil

/-- The invariant of the loop over the components. -/
theorem normal_foldlM (result : RelPath) (components : List (List Char)) :
    ∀ {normalized normalized' : RelPathBuf}, Normal normalized.str → (∀ c ∈ components, '/' ∉ c) →
      components.foldlM (pushComponent result) normalized = .ok normalized' →
      Normal normalized'.str := by
  induction components with
  | nil =>
    intro normalized normalized' hn hc h
    cases h
    exact hn
  | cons c components ih =>
    intro normalized normalized' hn hc h
    rw [List.foldlM_cons] at h
    obtain ⟨hfirst, hrest⟩ := List.forall_mem_cons.mp hc
    cases hstep : pushComponent result normalized c with
    | error e =>
      rw [hstep] at h
      cases h
    | ok next =>
      rw [hstep] at h
      exact ih (normal_pushComponent hn hfirst hstep) hrest h

theorem whileSome_eq_none {σ : Type} {next : σ → Option σ} {size : σ → Nat}
    (hnext : ∀ s s', next s = some s' → size s' < size s) :
    ∀ (fuel : Nat) {s : σ}, size s ≤ fuel → next (whileSome next fuel s) = none := by
  intro fuel
  induction fuel with
  | zero =>
    intro s hs
    cases h : next s with
    | none => exact h
    | some s' =>
      have := hnext s s' h
      omega
  | succ fuel ih =>
    intro s hs
    rw [whileSome]
    cases h : next s with
    | none => exact h
    | some s' =>
      have := hnext s s' h
      exact ih (by omega)

theorem whileSome_of_none {σ : Type} {next : σ → Option σ} {s : σ} (h : next s = none) :
    ∀ fuel : Nat, whileSome next fuel s = s := by
  intro fuel
  cases fuel with
  | zero => rfl
  | succ fuel => rw [whileSome, h]

theorem length_dropPrefix {path' : List Char}
    (h : dropPrefix pathStyle path = some path') : path'.length < path.length := by
  rw [dropPrefix] at h
  split at h
  · rename_i hany
    obtain ⟨start, hmem, hstart⟩ := List.any_eq_true.mp hany
    have hlen := (List.isPrefixOf_iff_prefix.mp hstart).length_le
    cases pathStyle with
    | posix =>
      simp only [prefixes, List.mem_singleton] at hmem
      cases h
      rw [hmem] at hlen
      simp at hlen ⊢
      omega
    | windows =>
      simp only [prefixes, List.mem_cons, List.not_mem_nil, or_false] at hmem
      cases h
      rcases hmem with rfl | rfl <;> simp at hlen ⊢ <;> omega
  · cases h

theorem length_dropSuffix {path' : List Char}
    (h : dropSuffix pathStyle path = some path') : path'.length < path.length := by
  rw [dropSuffix] at h
  split at h
  · rename_i hdrop
    cases h
    have hpos := List.length_pos_iff.mpr hdrop.2
    rw [List.length_dropLast] at hpos ⊢
    omega
  · cases h

theorem length_whileSome_le {next : List Char → Option (List Char)}
    (hnext : ∀ s s', next s = some s' → s'.length < s.length) :
    ∀ (fuel : Nat) (s : List Char), (whileSome next fuel s).length ≤ s.length := by
  intro fuel
  induction fuel with
  | zero => exact fun s => le_rfl
  | succ fuel ih =>
    intro s
    rw [whileSome]
    cases h : next s with
    | none => exact le_rfl
    | some s' => exact (ih s').trans (hnext s s' h).le

/-- No trailing separator is left, unless it is all there is. -/
theorem dropSuffix_trimmed (path : List Char) (pathStyle : PathStyle) :
    dropSuffix pathStyle (trimmed path pathStyle) = none :=
  whileSome_eq_none (fun _ _ => length_dropSuffix) _
    (length_whileSome_le (fun _ _ => length_dropPrefix) _ _)

theorem getLast?_of_trimmed
    (h : dropSuffix pathStyle path = none) (habs : isAbsolute path pathStyle = false) {c : Char}
    (hc : path.getLast? = some c) : c ∉ suffixes pathStyle := by
  intro hmem
  have hsingle : path = [c] := by
    have hdrop : path.dropLast = [] := by
      by_contra hne
      rw [dropSuffix, if_pos ⟨by rw [hc]; exact decide_eq_true hmem, hne⟩] at h
      cases h
    rw [← List.dropLast_append_getLast? c hc, hdrop]
    rfl
  subst hsingle
  cases pathStyle with
  | posix =>
    obtain rfl : c = '/' := List.mem_singleton.mp hmem
    exact absurd habs (by decide)
  | windows =>
    obtain rfl | rfl : c = '/' ∨ c = '\\' := by simpa [suffixes] using hmem
    · exact absurd habs (by decide)
    · exact absurd habs (by decide)

theorem normal_normalize {result : Cow} (hlast : ∀ c, path.getLast? = some c → c ∉ suffixes pathStyle)
    (h : normalize path pathStyle = .ok result) : Normal result.asRef.str := by
  obtain ⟨borrowed, hborrowed⟩ : ∃ borrowed : Cow, borrowed =
      if pathStyle = .windows ∧ '\\' ∈ path then
        .owned ⟨path.map fun c => if c = '\\' then '/' else c⟩
      else .borrowed ⟨path⟩ := ⟨_, rfl⟩
  have hend : borrowed.asRef.str.getLast? ≠ some '/' := by
    rw [hborrowed]
    split
    · rename_i hwindows
      intro hslash
      have hmap : (path.map fun c => if c = '\\' then '/' else c).getLast? = some '/' := hslash
      rw [List.getLast?_map, Option.map_eq_some_iff] at hmap
      obtain ⟨c, hc, hcond⟩ := hmap
      refine hlast c hc ?_
      rw [hwindows.1]
      split at hcond
      · rename_i hback
        simp [suffixes, hback]
      · simp [suffixes, hcond]
    · intro hslash
      refine hlast '/' hslash ?_
      cases pathStyle <;> simp [suffixes]
  rw [RelPath.normalize, ← hborrowed] at h
  split at h
  · cases hfold : borrowed.asRef.components.foldlM (pushComponent borrowed.asRef) RelPathBuf.new with
    | error e =>
      rw [hfold] at h
      cases h
    | ok normalized =>
      rw [hfold] at h
      cases h
      exact normal_foldlM _ _ normal_nil (fun c => not_mem_of_mem_collectComponents _) hfold
  · rename_i hall
    obtain rfl : borrowed = result := Except.ok.inj h
    by_cases hempty : borrowed.asRef.str = []
    · rw [hempty]
      exact normal_nil
    · right
      rw [← collectComponents_eq _ hempty le_rfl hend]
      intro c hc
      by_contra hbad
      exact hall ⟨c, hc, hbad⟩

/-- **What `new` makes is normal.** -/
theorem normal_new {path : OsPath} {result : Cow}
    (h : RelPath.new path pathStyle = .ok result) : Normal result.asRef.str := by
  rw [RelPath.new] at h
  split at h
  · cases h
  · rename_i text _
    split at h
    · cases h
    · rename_i habs
      exact normal_normalize
        (fun c => getLast?_of_trimmed (dropSuffix_trimmed text pathStyle) (Bool.not_eq_true _ ▸ habs)) h

theorem normal_unix {path : OsPath} {result : RelPath} (h : unix path = .ok result) :
    Normal result.str := by
  rw [unix] at h
  split at h
  · cases h
  · rename_i hnew
    cases h
    exact normal_new hnew
  · cases h

theorem Normal.getLast? (h : Normal s) : s.getLast? ≠ some '/' := by
  intro hlast
  rw [← List.dropLast_append_getLast? '/' hlast] at h
  exact (normal_append_cons.mp h).2.1 rfl

/-! ### The components of a normal path -/

/-- The components of a path in normal form, the empty one included. -/
def pieces (s : List Char) : List (List Char) := if s = [] then [] else s.splitOn '/'

theorem pieces_append_cons (hc : '/' ∉ c) (hrest : rest ≠ []) :
    pieces (c ++ '/' :: rest) = c :: pieces rest := by
  rw [pieces, if_neg (List.append_ne_nil_of_right_ne_nil c (List.cons_ne_nil _ _)), pieces,
    if_neg hrest, List.splitOn_append_cons_self_of_not_mem hc]

theorem pieces_of_not_mem (hc : '/' ∉ c) (hne : c ≠ []) : pieces c = [c] := by
  rw [pieces, if_neg hne, List.splitOn_eq_singleton hc]

theorem pieces_glue {a b : List Char} (ha : a ≠ []) (hb : b ≠ []) :
    pieces (a ++ '/' :: b) = pieces a ++ pieces b := by
  rw [pieces, if_neg (List.append_ne_nil_of_right_ne_nil a (List.cons_ne_nil _ _)),
    List.splitOn_append_cons_self, pieces, if_neg ha, pieces, if_neg hb]

theorem Normal.pieces_next (h : Normal s)
    (hnext : componentsNext s = some (c, rest)) : pieces s = c :: pieces rest := by
  obtain ⟨hc, rfl | ⟨rfl, rfl, hne⟩⟩ := componentsNext_eq_some hnext
  · exact pieces_append_cons hc (normal_append_cons.mp h).2.1
  · exact pieces_of_not_mem hc hne

theorem Normal.components_eq (h : Normal p.str) : p.components = pieces p.str := by
  rw [pieces, RelPath.components]
  split_ifs with hs
  · rw [hs]
    rfl
  · exact collectComponents_eq _ hs le_rfl h.getLast?

theorem Normal.isComponent_of_mem (h : Normal s) (hmem : c ∈ pieces s) : IsComponent c ∧ '/' ∉ c := by
  unfold pieces at hmem
  split_ifs at hmem with hs
  · cases hmem
  · refine ⟨h.resolve_left hs c hmem, ?_⟩
    rw [← collectComponents_eq s.length hs le_rfl h.getLast?] at hmem
    exact not_mem_of_mem_collectComponents _ hmem

theorem pieces_eq_nil_iff : pieces s = [] ↔ s = [] := by
  rw [pieces]
  split_ifs with hs
  · exact iff_of_true rfl hs
  · exact iff_of_false (List.splitOn_ne_nil _ _) hs

theorem pieces_injective {t : List Char} (h : pieces s = pieces t) : s = t := by
  by_cases hs : s = []
  · rw [hs] at h ⊢
    exact (pieces_eq_nil_iff.mp h.symm).symm
  · have ht : t ≠ [] := fun ht => hs (pieces_eq_nil_iff.mp (h.trans (pieces_eq_nil_iff.mpr ht)))
    rw [pieces, if_neg hs, pieces, if_neg ht] at h
    have hback : s = ['/'].intercalate (s.splitOn '/') := (List.intercalate_splitOn '/').symm
    rw [hback, h, List.intercalate_splitOn]

theorem isEmpty_pieces (s : List Char) : (pieces s).isEmpty = s.isEmpty := by
  rw [Bool.eq_iff_iff, List.isEmpty_iff, List.isEmpty_iff, pieces_eq_nil_iff]

/-! ### What is normal already -/

/-- What `new` drops or refuses, a normal path does not begin with. -/
theorem Normal.not_prefix {start : List Char} (h : Normal s) (hstart : ¬ IsComponent start) (hno : '/' ∉ start) :
    ¬ start ++ ['/'] <+: s := by
  rintro ⟨rest, rfl⟩
  rw [List.append_assoc, List.singleton_append] at h
  obtain ⟨hne, hfirst⟩ := (normal_append_cons.mp h).1
  exact hstart ((normal_of_not_mem hno hne).mp hfirst)

theorem Normal.dropPrefix_eq_none (h : Normal s) : dropPrefix .posix s = none := by
  rw [dropPrefix, if_neg]
  intro hany
  have hstart : ['.', '/'] <+: s := by simpa [prefixes] using hany
  exact h.not_prefix (by decide : ¬ IsComponent ['.']) (by decide) hstart

theorem Normal.dropSuffix_eq_none (h : Normal s) : dropSuffix .posix s = none := by
  rw [dropSuffix, if_neg]
  rintro ⟨hlast, -⟩
  cases hc : s.getLast? with
  | none =>
    rw [hc] at hlast
    cases hlast
  | some c =>
    rw [hc] at hlast
    obtain rfl : c = '/' := by simpa [suffixes] using hlast
    exact h.getLast? hc

theorem Normal.trimmed_eq (h : Normal s) : trimmed s .posix = s := by
  rw [trimmed, whileSome_of_none h.dropPrefix_eq_none, whileSome_of_none h.dropSuffix_eq_none]

theorem Normal.isAbsolute_eq (h : Normal s) : isAbsolute s .posix = false := by
  cases s with
  | nil => rfl
  | cons c s =>
    by_contra habs
    obtain rfl : c = '/' := by simpa [isAbsolute] using habs
    exact h.not_prefix not_isComponent_nil (by simp) ⟨s, rfl⟩

theorem Normal.normalize_eq (h : Normal s) : normalize s .posix = .ok (.borrowed ⟨s⟩) := by
  have hcomponents : ¬ ∃ c ∈ (RelPath.mk s).components, ¬ IsComponent c := by
    rintro ⟨c, hc, hbad⟩
    have hpieces : (RelPath.mk s).components = pieces s := Normal.components_eq (p := ⟨s⟩) h
    rw [hpieces] at hc
    exact hbad (h.isComponent_of_mem hc).1
  have hstyle : ¬ (PathStyle.posix = .windows ∧ '\\' ∈ s) := fun hw => by cases hw.1
  rw [RelPath.normalize, if_neg hstyle]
  exact if_neg hcomponents

/-- **`unix` accepts what is normal**, and nothing else as it is. -/
theorem unix_eq_ok_iff : unix ⟨some s⟩ = .ok ⟨s⟩ ↔ Normal s := by
  constructor
  · exact fun h => normal_unix h
  · intro h
    have hnew : RelPath.new ⟨some s⟩ .posix = .ok (.borrowed ⟨s⟩) := by
      simp only [RelPath.new, h.trimmed_eq, h.isAbsolute_eq]
      exact h.normalize_eq
    rw [unix, hnew]

/-! ### Cutting and gluing -/

theorem Normal.join {a b : RelPath} (ha : Normal a.str) (hb : Normal b.str) :
    Normal (a.join b).str := by
  rw [RelPath.join]
  split_ifs with hempty hempty'
  · exact hb
  · exact ha
  · exact normal_append_cons.mpr ⟨⟨hempty, ha⟩, hempty', hb⟩

theorem Normal.parent (h : Normal p.str) (hq : p.parent = some q) : Normal q.str := by
  obtain ⟨⟨c, rest⟩, hnext, rfl⟩ := Option.map_eq_some_iff.mp hq
  exact (h.nextBack hnext).2

theorem Normal.stripPrefix {other : RelPath} (h : Normal p.str)
    (hq : p.stripPrefix other = .ok q) : Normal q.str := by
  rw [RelPath.stripPrefix] at hq
  split_ifs at hq with hempty hstart
  · cases hq
    exact h
  · obtain ⟨rest, hrest⟩ := List.isPrefixOf_iff_prefix.mp hstart
    rw [← hrest, List.drop_left] at hq
    split at hq
    · rename_i suffix
      cases hq
      rw [← hrest] at h
      exact (normal_append_cons.mp h).2.2
    · cases hq
      exact normal_nil
    · cases hq

theorem Normal.restAfter : ∀ (n : Nat) {s : List Char} {q : RelPath}, Normal s →
    restAfter n s = some q → Normal q.str := by
  intro n
  induction n with
  | zero =>
    intro s q h hq
    cases hq
    exact h
  | succ n ih =>
    intro s q h hq
    obtain ⟨⟨c, rest⟩, hnext, hrest⟩ := Option.bind_eq_some_iff.mp hq
    exact ih (h.next hnext).2 hrest

theorem Normal.lastNComponents {count : Nat} (h : Normal p.str)
    (hq : p.lastNComponents count = some q) : Normal q.str := by
  rw [RelPath.lastNComponents] at hq
  split at hq
  · exact h.restAfter _ hq
  · cases hq

theorem ancestorsNext_some (s : List Char) :
    ancestorsNext (some s) = some (⟨s⟩, (RelPath.mk s).parent.map RelPath.str) := by
  rw [ancestorsNext, RelPath.parent, componentsNextBack]
  cases rfind '/' s with
  | some ix => rfl
  | none => by_cases hs : s = [] <;> simp [hs]

theorem length_parent (h : (RelPath.mk s).parent = some q) : q.str.length < s.length := by
  obtain ⟨⟨c, rest⟩, hnext, rfl⟩ := Option.map_eq_some_iff.mp h
  obtain ⟨-, hs | ⟨-, rfl, hne⟩⟩ := componentsNextBack_eq_some hnext
  · have hs : s = rest ++ '/' :: c := hs
    show rest.length < s.length
    rw [hs, List.length_append, List.length_cons]
    omega
  · exact List.length_pos_iff.mpr hne

theorem collectAncestors_succ (fuel : Nat) (s : List Char) : collectAncestors (fuel + 1) (some s) =
    ⟨s⟩ :: collectAncestors fuel ((RelPath.mk s).parent.map RelPath.str) := by
  rw [collectAncestors, ancestorsNext_some]

theorem collectAncestors_fuel (fuel : Nat) : ∀ {s : List Char}, s.length ≤ fuel →
    collectAncestors (fuel + 1) (some s) = (RelPath.mk s).ancestors := by
  induction fuel using Nat.strong_induction_on with
  | _ fuel ih =>
    intro s hs
    rw [RelPath.ancestors, collectAncestors_succ, collectAncestors_succ]
    cases hq : (RelPath.mk s).parent with
    | none => cases fuel <;> cases s.length <;> rfl
    | some q =>
      have hlen := length_parent hq
      obtain ⟨fuel, rfl⟩ := Nat.exists_eq_add_one_of_ne_zero (by omega : fuel ≠ 0)
      obtain ⟨n, hn⟩ := Nat.exists_eq_add_one_of_ne_zero (by omega : s.length ≠ 0)
      rw [hn]
      have hmany := ih fuel (by omega) (by omega : q.str.length ≤ fuel)
      have hfew := ih n (by omega) (by omega : q.str.length ≤ n)
      exact congrArg (RelPath.mk s :: ·) (hmany.trans hfew.symm)

/-- **The ancestors** are the path and those of its parent. -/
theorem ancestors_eq (p : RelPath) : p.ancestors = p :: p.parent.elim [] RelPath.ancestors := by
  rw [RelPath.ancestors, collectAncestors_succ]
  cases hq : p.parent with
  | none => cases p.str.length <;> rfl
  | some q =>
    have hlen := length_parent hq
    obtain ⟨n, hn⟩ := Nat.exists_eq_add_one_of_ne_zero (by omega : p.str.length ≠ 0)
    rw [hn]
    exact congrArg (p :: ·) (collectAncestors_fuel n (by omega))

theorem Normal.ancestors (h : Normal p.str) (hq : q ∈ p.ancestors) : Normal q.str := by
  induction hlen : p.str.length using Nat.strong_induction_on generalizing p with
  | _ n ih =>
    rw [ancestors_eq] at hq
    rcases List.mem_cons.mp hq with rfl | hq
    · exact h
    · cases hparent : p.parent with
      | none =>
        rw [hparent] at hq
        cases hq
      | some parent =>
        rw [hparent] at hq
        exact ih _ (hlen ▸ length_parent hparent) (h.parent hparent) hq rfl

/-! ### `set_extension` -/

/-- One component, `..` or `...` and then no further dot. -/
def DotsThenName (s : List Char) : Prop :=
  '/' ∉ s ∧ ((s.take 2 = ['.', '.'] ∧ '.' ∉ s.drop 2) ∨ (s.take 3 = ['.', '.', '.'] ∧ '.' ∉ s.drop 3))

instance : DecidablePred DotsThenName := fun s => inferInstanceAs (Decidable ('/' ∉ s ∧
  ((s.take 2 = ['.', '.'] ∧ '.' ∉ s.drop 2) ∨ (s.take 3 = ['.', '.', '.'] ∧ '.' ∉ s.drop 3))))

theorem DotsThenName.dot_mem (h : DotsThenName s) : '.' ∈ s.drop 1 := by
  obtain ⟨-, ⟨htake, -⟩ | ⟨htake, -⟩⟩ := h
  · rw [← List.take_append_drop 2 s, htake]
    simp
  · rw [← List.take_append_drop 3 s, htake]
    simp

theorem stdFileStem_eq (h : IsComponent file) :
    stdFileStem file = some file ∧ '.' ∉ file.drop 1 ∨
      ∃ stem rest, stdFileStem file = some stem ∧ stem ≠ [] ∧ '.' ∉ rest ∧ file = stem ++ '.' :: rest := by
  obtain ⟨hnil, hdot, hdots⟩ := h
  rw [stdFileStem, if_neg (by simp [hnil, hdot, hdots])]
  cases hf : rfind '.' file with
  | none => exact .inl ⟨rfl, fun hmem => rfind_eq_none.mp hf (List.mem_of_mem_drop hmem)⟩
  | some ix =>
    obtain ⟨hfile, hrest⟩ := cut_of_rfind hf
    by_cases hempty : file.take ix = []
    · refine .inl ⟨if_pos hempty, ?_⟩
      rw [hfile, hempty]
      exact hrest
    · exact .inr ⟨_, _, if_neg hempty, hempty, hrest, hfile⟩

theorem stdSetExtension_ne_nil (h : IsComponent file) : stdSetExtension file extension ≠ [] := by
  rw [stdSetExtension]
  rcases stdFileStem_eq h with ⟨heq, -⟩ | ⟨stem, rest, heq, hne, -, -⟩
  · rw [heq]
    by_cases hext : extension = [] <;> simp [hext, h.1]
  · rw [heq]
    by_cases hext : extension = [] <;> simp [hext, hne]

theorem not_mem_stdSetExtension (h : IsComponent file)
    (hfile : '/' ∉ file) (hext : '/' ∉ extension) : '/' ∉ stdSetExtension file extension := by
  have hglue : ∀ stem : List Char, '/' ∉ stem →
      '/' ∉ if extension = [] then stem else stem ++ '.' :: extension := by
    intro stem hstem
    split
    · exact hstem
    · simp [hstem, hext]
  rw [stdSetExtension]
  rcases stdFileStem_eq h with ⟨heq, -⟩ | ⟨stem, rest, heq, -, -, hcut⟩
  · rw [heq]
    exact hglue file hfile
  · rw [heq]
    refine hglue stem fun hmem => hfile ?_
    rw [hcut]
    exact List.mem_append_left _ hmem

theorem dotsThenName_iff {stem : List Char} (hne : stem ≠ []) (hrest : '.' ∉ rest)
    (hslash : '/' ∉ stem ++ '.' :: rest) :
    DotsThenName (stem ++ '.' :: rest) ↔ stem = ['.'] ∨ stem = ['.', '.'] := by
  rw [DotsThenName, and_iff_right hslash]
  match stem with
  | [] => exact absurd rfl hne
  | [a] =>
    have hthird : rest.take 1 ≠ ['.'] := fun htake =>
      hrest (List.mem_of_mem_take (htake ▸ List.mem_singleton_self '.'))
    simp [hrest, hthird]
  | [a, b] => simp [hrest]
  | a :: b :: c :: stem => simp

/-- **Only dots are left** of a component when its extension is taken, and before the last
dot there were one or two. -/
theorem isComponent_stdSetExtension (h : IsComponent file)
    (hfile : '/' ∉ file) :
    IsComponent (stdSetExtension file extension) ↔ (extension = [] → ¬ DotsThenName file) := by
  have hlong : ∀ stem : List Char, stem ≠ [] → extension ≠ [] →
      IsComponent (stem ++ '.' :: extension) := by
    intro stem hstem hext
    have hlen : 3 ≤ (stem ++ '.' :: extension).length := by
      have hstem := List.length_pos_iff.mpr hstem
      have hext := List.length_pos_iff.mpr hext
      rw [List.length_append, List.length_cons]
      omega
    refine ⟨fun heq => ?_, fun heq => ?_, fun heq => ?_⟩ <;>
      · rw [heq] at hlen
        exact absurd hlen (by decide)
  rw [stdSetExtension]
  rcases stdFileStem_eq h with ⟨heq, hdot⟩ | ⟨stem, rest, heq, hne, hrest, rfl⟩
  · rw [heq]
    by_cases hext : extension = []
    · have hnot : ¬ DotsThenName file := fun hdots => hdot hdots.dot_mem
      simp [hext, h, hnot]
    · simp [hext, hlong file h.1 hext]
  · rw [heq]
    by_cases hext : extension = []
    · simp [hext, dotsThenName_iff hne hrest hfile, IsComponent, hne]
    · simp [hext, hlong stem hne hext]

theorem isComponent_append {f : List Char} (hc : IsComponent c) (hf : f ≠ []) : IsComponent (c ++ f) := by
  obtain ⟨hnil, hdot, hdots⟩ := hc
  refine ⟨fun h => hnil (List.append_eq_nil_iff.mp h).1, fun h => ?_, fun h => ?_⟩
  · rcases List.append_eq_singleton_iff.mp h with ⟨h, -⟩ | ⟨-, h⟩
    · exact hnil h
    · exact hf h
  · match c, f with
    | [], _ => exact hnil rfl
    | [a], f =>
      cases h
      exact hdot rfl
    | [a, b], f =>
      have hall : a = '.' ∧ b = '.' ∧ f = [] := by simpa using h
      exact hf hall.2.2
    | a :: b :: c :: t, f => simp at h

theorem Normal.append {f : List Char} (h : Normal s) (hs : s ≠ []) (hf : f ≠ []) (hslash : '/' ∉ f) :
    Normal (s ++ f) := by
  cases hnext : componentsNextBack s with
  | none => exact absurd (componentsNextBack_eq_none.mp hnext) hs
  | some next =>
    obtain ⟨c, rest⟩ := next
    have hcomp := isComponent_append (h.nextBack hnext).1 hf
    obtain ⟨hc, heq | ⟨rfl, -, -⟩⟩ := componentsNextBack_eq_some hnext
    · have hcf : '/' ∉ c ++ f := by simp [hc, hslash]
      rw [heq] at h
      rw [heq, List.append_assoc, List.cons_append]
      exact normal_append_cons.mpr
        ⟨(normal_append_cons.mp h).1, hcomp.1, (normal_of_not_mem hcf hcomp.1).mpr hcomp⟩
    · have hsf : '/' ∉ s ++ f := by simp [hc, hslash]
      exact (normal_of_not_mem hsf hcomp.1).mpr hcomp

/-- **`set_extension`** forgets the separator, which leaves another component; the form is
lost where only dots are left. -/
theorem normal_setExtension (hb : Normal b.str)
    (hext : '/' ∉ extension) :
    Normal (b.setExtension extension).2.str ↔ (extension = [] → ¬ DotsThenName b.str) := by
  rw [RelPathBuf.setExtension, RelPath.fileName, b.pop_eq]
  cases hnext : componentsNextBack b.str with
  | none =>
    have hempty := componentsNextBack_eq_none.mp hnext
    have hasRel : componentsNextBack b.asRelPath.str = none := hnext
    rw [hasRel]
    refine iff_of_true hb fun _ => ?_
    rw [hempty]
    decide
  | some next =>
    obtain ⟨c, rest⟩ := next
    have hasRel : componentsNextBack b.asRelPath.str = some (c, rest) := hnext
    rw [hasRel]
    have hc := (hb.nextBack hnext).1
    obtain ⟨hslash, heq | ⟨heq, rfl, -⟩⟩ := componentsNextBack_eq_some hnext
    · rw [heq] at hb
      obtain ⟨⟨hne, hrest⟩, -⟩ := normal_append_cons.mp hb
      refine iff_of_true (hrest.append hne (stdSetExtension_ne_nil hc)
        (not_mem_stdSetExtension hc hslash hext)) fun _ hdots => hdots.1 ?_
      rw [heq]
      exact List.mem_append_right _ List.mem_cons_self
    · rw [heq]
      show Normal ([] ++ stdSetExtension c extension) ↔ _
      rw [List.nil_append, normal_of_not_mem (not_mem_stdSetExtension hc hslash hext)
        (stdSetExtension_ne_nil hc)]
      exact isComponent_stdSetExtension hc hslash

end FcGpui

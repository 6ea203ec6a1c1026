import FcGpui.Lib.Machine
import FcGpui.Paths.NormalForm

/-!
# Runs over relative paths

A program holds some relative paths and makes more of them.  Three operations make one
that is not in normal form: the derived deserializer takes any string, `push` writes a
separator before nothing, and `set_extension` leaves `.` or `..` of a name that begins with
these.

**Main result.**  `paths_normal_iff`: all paths of a run are normal if and only if none of
its steps is of these three kinds (`PathAct.Safe`).
-/

namespace FcGpui

inductive PathValue
  | path (path : RelPath)
  | buf (buf : RelPathBuf)
deriving DecidableEq, Repr

/-- `Deref` and `AsRef`. -/
def PathValue.asRelPath : PathValue → RelPath
  | path p => p
  | buf b => b.asRelPath

/-- The operands are named by their places. -/
inductive PathAct
  | new (path : OsPath) (pathStyle : PathStyle)
  | unix (path : OsPath)
  | fromProto (path : List Char)
  | empty
  | newBuf
  | deserialize (s : List Char)
  | toRelPathBuf (ix : Nat)
  | push (ix path : Nat)
  | pop (ix : Nat)
  | setExtension (ix : Nat) (extension : List Char)
  | join (ix other : Nat)
  | parent (ix : Nat)
  | ancestors (ix : Nat)
  | stripPrefix (ix other : Nat)
  | lastNComponents (ix count : Nat)
deriving DecidableEq, Repr

namespace PathRuns

/-- The path at a place. -/
def pathAt (values : List PathValue) (ix : Nat) : Option RelPath := values[ix]?.map PathValue.asRelPath

/-- The buffer at a place. -/
def bufAt (values : List PathValue) (ix : Nat) : Option RelPathBuf :=
  match values[ix]? with
  | some (.buf b) => some b
  | _ => none

/-- An error makes no path. -/
def made {ε : Type} : Except ε RelPath → List PathValue
  | .ok p => [.path p]
  | .error _ => []

def ofCow : RelPath.Cow → PathValue
  | .borrowed p => .path p
  | .owned b => .buf b

/-- Refused is what has no such operand, and an extension with a separator, where the
standard library panics. -/
def step (values : List PathValue) : PathAct → Option (List PathValue)
  | .new path pathStyle =>
    match RelPath.new path pathStyle with
    | .ok result => some (values ++ [ofCow result])
    | .error _ => some values
  | .unix path => some (values ++ made (RelPath.unix path))
  | .fromProto path => some (values ++ made (RelPath.fromProto path))
  | .empty => some (values ++ [.path .empty])
  | .newBuf => some (values ++ [.buf .new])
  | .deserialize s => some (values ++ [.buf (.deserialize s)])
  | .toRelPathBuf ix => (pathAt values ix).map fun p => values ++ [.buf p.toRelPathBuf]
  | .push ix path =>
    (bufAt values ix).bind fun b => (pathAt values path).map fun p => values.set ix (.buf (b.push p))
  | .pop ix => (bufAt values ix).map fun b => values.set ix (.buf b.pop.2)
  | .setExtension ix extension =>
    if '/' ∈ extension then none
    else (bufAt values ix).map fun b => values.set ix (.buf (b.setExtension extension).2)
  | .join ix other =>
    (pathAt values ix).bind fun p => (pathAt values other).map fun q => values ++ [.path (p.join q)]
  | .parent ix => (pathAt values ix).map fun p => values ++ (p.parent.toList.map .path)
  | .ancestors ix => (pathAt values ix).map fun p => values ++ p.ancestors.map .path
  | .stripPrefix ix other =>
    (pathAt values ix).bind fun p => (pathAt values other).map fun q => values ++ made (p.stripPrefix q)
  | .lastNComponents ix count =>
    (pathAt values ix).map fun p => values ++ ((p.lastNComponents count).toList.map .path)

def AllNormal (values : List PathValue) : Prop := ∀ v ∈ values, Normal v.asRelPath.str

/-- What is deserialized, `unix` accepts as it is; nothing is pushed only on nothing; and no
extension is taken from a name of one or two dots, a dot and the extension. -/
def Safe (values : List PathValue) : PathAct → Prop
  | .deserialize s => RelPath.unix ⟨some s⟩ = .ok ⟨s⟩
  | .push ix path => ∀ b ∈ bufAt values ix, ∀ p ∈ pathAt values path, b.str ≠ [] → p.str ≠ []
  | .setExtension ix extension => ∀ b ∈ bufAt values ix, extension = [] → ¬ DotsThenName b.str
  | _ => True

variable {values values' : List PathValue}

variable {ix : Nat} {b : RelPathBuf}

theorem pathAt_normal (h : AllNormal values) {p : RelPath} (hp : pathAt values ix = some p) : Normal p.str := by
  obtain ⟨v, hv, rfl⟩ := Option.map_eq_some_iff.mp hp
  exact h v (List.mem_of_getElem? hv)

theorem bufAt_eq_some (hb : bufAt values ix = some b) : values[ix]? = some (.buf b) := by
  rw [bufAt] at hb
  split at hb
  · rename_i hv
    cases hb
    exact hv
  · cases hb

theorem bufAt_normal (h : AllNormal values) (hb : bufAt values ix = some b) : Normal b.str :=
  h _ (List.mem_of_getElem? (bufAt_eq_some hb))

/-- **Making paths.** -/
theorem allNormal_append (h : AllNormal values) {new : List PathValue} :
    AllNormal (values ++ new) ↔ AllNormal new :=
  ⟨fun hall v hv => hall v (List.mem_append_right _ hv), fun hnew v hv =>
    (List.mem_append.mp hv).elim (h v) (hnew v)⟩

/-- **Changing a buffer.** -/
theorem allNormal_set (h : AllNormal values) {b' : RelPathBuf}
    (hb : bufAt values ix = some b) : AllNormal (values.set ix (.buf b')) ↔ Normal b'.str := by
  have hlt := (List.getElem?_eq_some_iff.mp (bufAt_eq_some hb)).1
  constructor
  · exact fun hall => hall (.buf b') (List.mem_set hlt _)
  · intro hnormal v hv
    rcases List.mem_or_eq_of_mem_set hv with hv | rfl
    · exact h v hv
    · exact hnormal

theorem allNormal_made {ε : Type} {result : Except ε RelPath}
    (h : ∀ p, result = .ok p → Normal p.str) : AllNormal (made result) := by
  intro v hv
  cases result with
  | error e => cases hv
  | ok p =>
    obtain rfl := List.mem_singleton.mp hv
    exact h p rfl

theorem allNormal_map {paths : List RelPath} (h : ∀ p ∈ paths, Normal p.str) :
    AllNormal (paths.map .path) := by
  intro v hv
  obtain ⟨p, hp, rfl⟩ := List.mem_map.mp hv
  exact h p hp

theorem allNormal_singleton {v : PathValue} : AllNormal [v] ↔ Normal v.asRelPath.str :=
  List.forall_mem_singleton

/-- **One step** makes normal paths, but for the three kinds. -/
theorem step_normal (h : AllNormal values) {act : PathAct} (hs : step values act = some values') :
    AllNormal values' ↔ Safe values act := by
  cases act with
  | new path pathStyle =>
    refine iff_of_true ?_ trivial
    rw [step] at hs
    split at hs
    · rename_i result hnew
      cases hs
      refine (allNormal_append h).mpr (allNormal_singleton.mpr ?_)
      have hnormal := normal_new hnew
      cases result with
      | borrowed p => exact hnormal
      | owned b => exact hnormal
    · cases hs
      exact h
  | unix path =>
    cases hs
    exact iff_of_true ((allNormal_append h).mpr (allNormal_made fun _ => normal_unix)) trivial
  | fromProto path =>
    cases hs
    exact iff_of_true ((allNormal_append h).mpr (allNormal_made fun _ => normal_unix)) trivial
  | empty =>
    cases hs
    exact iff_of_true ((allNormal_append h).mpr (allNormal_singleton.mpr normal_nil)) trivial
  | newBuf =>
    cases hs
    exact iff_of_true ((allNormal_append h).mpr (allNormal_singleton.mpr normal_nil)) trivial
  | deserialize s =>
    cases hs
    rw [allNormal_append h, allNormal_singleton]
    exact unix_eq_ok_iff.symm
  | toRelPathBuf ix =>
    obtain ⟨p, hp, rfl⟩ := Option.map_eq_some_iff.mp hs
    exact iff_of_true ((allNormal_append h).mpr (allNormal_singleton.mpr (pathAt_normal h hp))) trivial
  | push ix path =>
    obtain ⟨b, hb, hs⟩ := Option.bind_eq_some_iff.mp hs
    obtain ⟨p, hp, rfl⟩ := Option.map_eq_some_iff.mp hs
    rw [allNormal_set h hb, normal_push (bufAt_normal h hb) (pathAt_normal h hp)]
    simp [Safe, hb, hp]
  | pop ix =>
    obtain ⟨b, hb, rfl⟩ := Option.map_eq_some_iff.mp hs
    exact iff_of_true ((allNormal_set h hb).mpr (bufAt_normal h hb).pop) trivial
  | setExtension ix extension =>
    rw [step] at hs
    split at hs
    · cases hs
    · rename_i hext
      obtain ⟨b, hb, rfl⟩ := Option.map_eq_some_iff.mp hs
      rw [allNormal_set h hb, normal_setExtension (bufAt_normal h hb) hext]
      simp [Safe, hb]
  | join ix other =>
    obtain ⟨p, hp, hs⟩ := Option.bind_eq_some_iff.mp hs
    obtain ⟨q, hq, rfl⟩ := Option.map_eq_some_iff.mp hs
    have hnormal := (pathAt_normal h hp).join (pathAt_normal h hq)
    exact iff_of_true ((allNormal_append h).mpr (allNormal_singleton.mpr hnormal)) trivial
  | parent ix =>
    obtain ⟨p, hp, rfl⟩ := Option.map_eq_some_iff.mp hs
    refine iff_of_true ((allNormal_append h).mpr (allNormal_map fun q hq => ?_)) trivial
    exact (pathAt_normal h hp).parent (Option.mem_toList.mp hq)
  | ancestors ix =>
    obtain ⟨p, hp, rfl⟩ := Option.map_eq_some_iff.mp hs
    refine iff_of_true ((allNormal_append h).mpr (allNormal_map fun q hq => ?_)) trivial
    exact (pathAt_normal h hp).ancestors hq
  | stripPrefix ix other =>
    obtain ⟨p, hp, hs⟩ := Option.bind_eq_some_iff.mp hs
    obtain ⟨q, hq, rfl⟩ := Option.map_eq_some_iff.mp hs
    refine iff_of_true ((allNormal_append h).mpr (allNormal_made fun r hr => ?_)) trivial
    exact (pathAt_normal h hp).stripPrefix hr
  | lastNComponents ix count =>
    obtain ⟨p, hp, rfl⟩ := Option.map_eq_some_iff.mp hs
    refine iff_of_true ((allNormal_append h).mpr (allNormal_map fun q hq => ?_)) trivial
    exact (pathAt_normal h hp).lastNComponents (Option.mem_toList.mp hq)

theorem paths_normal_iff {acts : List PathAct} (hrun : run step [] acts = some values) :
    Throughout step AllNormal [] acts ↔ RunMeets step Safe [] acts :=
  throughout_iff (fun _ _ _ (_ : True) _ => trivial) (fun _ _ _ _ h hs => step_normal h hs) acts trivial
    (fun _ hv => absurd hv List.not_mem_nil) hrun

instance : ∀ (values : List PathValue) (act : PathAct), Decidable (Safe values act)
  | _, .deserialize s => inferInstanceAs (Decidable (RelPath.unix ⟨some s⟩ = .ok ⟨s⟩))
  | values, .push ix path => inferInstanceAs
      (Decidable (∀ b ∈ bufAt values ix, ∀ p ∈ pathAt values path, b.str ≠ [] → p.str ≠ []))
  | values, .setExtension ix extension => inferInstanceAs
      (Decidable (∀ b ∈ bufAt values ix, extension = [] → ¬ DotsThenName b.str))
  | _, .new _ _ => isTrue trivial
  | _, .unix _ => isTrue trivial
  | _, .fromProto _ => isTrue trivial
  | _, .empty => isTrue trivial
  | _, .newBuf => isTrue trivial
  | _, .toRelPathBuf _ => isTrue trivial
  | _, .pop _ => isTrue trivial
  | _, .join _ _ => isTrue trivial
  | _, .parent _ => isTrue trivial
  | _, .ancestors _ => isTrue trivial
  | _, .stripPrefix _ _ => isTrue trivial
  | _, .lastNComponents _ _ => isTrue trivial

/-- A path is read, another one pushed on it, and an extension set. -/
def extendedPath : List PathAct :=
  [.new ⟨some ".\\a\\..\\b/".toList⟩ .windows, .toRelPathBuf 0, .deserialize "c/d.rs".toList, .push 1 2,
    .setExtension 1 "md".toList]

theorem paths_normal_iff_extendedPath :
    run step [] extendedPath = some [.buf ⟨"b".toList⟩, .buf ⟨"b/cd.md".toList⟩, .buf ⟨"c/d.rs".toList⟩] ∧
      Throughout step AllNormal [] extendedPath := by
  have hrun : run step [] extendedPath =
      some [.buf ⟨"b".toList⟩, .buf ⟨"b/cd.md".toList⟩, .buf ⟨"c/d.rs".toList⟩] := by decide +kernel
  exact ⟨hrun, (paths_normal_iff hrun).mpr (by decide +kernel)⟩

/-- **The three kinds**: a separator at the end, a path that is absolute, and a dot. -/
theorem paths_not_normal :
    run step [] [.fromProto ['a'], .toRelPathBuf 0, .empty, .push 1 2] =
        some [.path ⟨['a']⟩, .buf ⟨['a', '/']⟩, .path ⟨[]⟩] ∧
      ¬ AllNormal [.path ⟨['a']⟩, .buf ⟨['a', '/']⟩, .path ⟨[]⟩] ∧
    run step [] [.deserialize "/..".toList] = some [.buf ⟨"/..".toList⟩] ∧
      ¬ AllNormal [.buf ⟨"/..".toList⟩] ∧
    run step [] [.fromProto "..a".toList, .toRelPathBuf 0, .setExtension 1 []] =
        some [.path ⟨"..a".toList⟩, .buf ⟨['.']⟩] ∧
      ¬ AllNormal [.path ⟨"..a".toList⟩, .buf ⟨['.']⟩] := by
  refine ⟨by decide +kernel, fun h => ?_, by decide +kernel, fun h => ?_, by decide +kernel, fun h => ?_⟩
  · exact absurd (h (.buf ⟨['a', '/']⟩) (by decide)) (by decide)
  · exact absurd (h (.buf ⟨"/..".toList⟩) (by decide)) (by decide)
  · exact absurd (h (.buf ⟨['.']⟩) (by decide)) (by decide)

end PathRuns

end FcGpui

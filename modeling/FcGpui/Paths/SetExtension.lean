import FcGpui.Paths.ComparePaths

/-!
# What `set_extension` changes

`set_extension` takes the last component off with `pop`, which takes its separator too, and puts
the new name right behind what is left.  Where something is left, the two become one component.

* `length_setExtension`: behind a parent, a component is lost.
* `changesLast_iff`: only the last component is changed just where there is no other.
-/

namespace FcGpui

open RelPath

/-- Only the last component is changed, and nothing of the empty path. -/
structure ChangesLast (b : RelPathBuf) (extension : List Char) : Prop where
  empty : b.asRelPath.components = [] → b.setExtension extension = (false, b)
  parent : b.asRelPath.components ≠ [] →
    (b.setExtension extension).2.asRelPath.parent = b.asRelPath.parent
  length : b.asRelPath.components ≠ [] →
    (b.setExtension extension).2.asRelPath.components.length = b.asRelPath.components.length
  last : b.asRelPath.components ≠ [] →
    (b.setExtension extension).2.asRelPath.components.getLast? =
      b.asRelPath.components.getLast?.map fun filename => stdSetExtension filename extension

variable {c rest : List Char}

theorem components_of_not_mem (hc : '/' ∉ c) (hne : c ≠ []) : (RelPath.mk c).components = [c] := by
  have hlast : c.getLast? ≠ some '/' := fun h => hc (List.mem_of_getLast? h)
  rw [RelPath.components, collectComponents_eq _ hne le_rfl hlast, List.splitOn_eq_singleton hc]

theorem parent_of_not_mem (hc : '/' ∉ c) (hne : c ≠ []) : (RelPath.mk c).parent = some ⟨[]⟩ := by
  rw [RelPath.parent, componentsNextBack, rfind_eq_none.mpr hc, if_neg hne]
  rfl

/-- The name goes right behind what `pop` leaves. -/
theorem setExtension_of_nextBack {b : RelPathBuf}
    (h : componentsNextBack b.str = some (c, rest)) (extension : List Char) :
    b.setExtension extension = (true, ⟨rest ++ stdSetExtension c extension⟩) := by
  have hfile : b.asRelPath.fileName = some c := by
    rw [RelPath.fileName, RelPathBuf.asRelPath, h]
    rfl
  rw [RelPathBuf.setExtension, hfile, b.pop_eq, h]

theorem components_append_cons (h : Normal (rest ++ '/' :: c)) (hslash : '/' ∉ c) :
    (RelPath.mk (rest ++ '/' :: c)).components = pieces rest ++ [c] := by
  obtain ⟨⟨hne, -⟩, hcne, -⟩ := normal_append_cons.mp h
  rw [Normal.components_eq h, pieces_glue hne hcne, pieces_of_not_mem hslash hcne]

/-- **Behind a parent**, the parent's last component and the name become one. -/
theorem length_setExtension {extension : List Char} (hb : Normal (rest ++ '/' :: c))
    (hslash : '/' ∉ c) (hext : '/' ∉ extension) :
    (RelPath.mk (rest ++ stdSetExtension c extension)).components.length = (pieces rest).length := by
  obtain ⟨⟨hne, hrest⟩, hcne, hc⟩ := normal_append_cons.mp hb
  have hcomp : IsComponent c := (normal_of_not_mem hslash hcne).mp hc
  have hnew := not_mem_stdSetExtension hcomp hslash hext
  have hglued : Normal (rest ++ stdSetExtension c extension) :=
    hrest.append hne (stdSetExtension_ne_nil hcomp) hnew
  obtain ⟨front, name, -, hpieces, hmore⟩ := exists_pieces (p := ⟨rest⟩) hne
  rw [Normal.components_eq hglued, hmore _ hnew, hpieces]
  simp

theorem changesLast_single {s extension : List Char} (hs : Normal s) (hslash : '/' ∉ s) (hne : s ≠ [])
    (hext : '/' ∉ extension) : ChangesLast ⟨s⟩ extension := by
  have hcomp : IsComponent s := (normal_of_not_mem hslash hne).mp hs
  have hnew := not_mem_stdSetExtension hcomp hslash hext
  have hnewne : stdSetExtension s extension ≠ [] := stdSetExtension_ne_nil hcomp
  have hback : componentsNextBack s = some (s, []) := by
    rw [componentsNextBack, rfind_eq_none.mpr hslash, if_neg hne]
  have hset := setExtension_of_nextBack (b := ⟨s⟩) hback extension
  have hold := components_of_not_mem hslash hne
  have hafter := components_of_not_mem hnew hnewne
  rw [List.nil_append] at hset
  refine ⟨fun h => ?_, fun _ => ?_, fun _ => ?_, fun _ => ?_⟩
  · rw [RelPathBuf.asRelPath, hold] at h
    cases h
  · rw [hset, RelPathBuf.asRelPath, RelPathBuf.asRelPath, parent_of_not_mem hnew hnewne,
      parent_of_not_mem hslash hne]
  · rw [hset, RelPathBuf.asRelPath, RelPathBuf.asRelPath, hafter, hold]
    rfl
  · rw [hset, RelPathBuf.asRelPath, RelPathBuf.asRelPath, hafter, hold]
    rfl

/-- **Only the last component is changed** just where there is no other. -/
theorem changesLast_iff {b : RelPathBuf} {extension : List Char} (hb : Normal b.str)
    (hext : '/' ∉ extension) :
    ChangesLast b extension ↔ b.asRelPath.components.length ≤ 1 := by
  obtain ⟨s⟩ := b
  cases hnext : componentsNextBack s with
  | none =>
    obtain rfl := componentsNextBack_eq_none.mp hnext
    refine iff_of_true ⟨fun _ => rfl, ?_, ?_, ?_⟩ (by decide) <;> exact fun h => absurd rfl h
  | some next =>
    obtain ⟨c, rest⟩ := next
    obtain ⟨hslash, rfl | ⟨rfl, rfl, hne⟩⟩ := componentsNextBack_eq_some hnext
    · have hset := setExtension_of_nextBack (b := ⟨rest ++ '/' :: c⟩) hnext extension
      have hold : (RelPathBuf.mk (rest ++ '/' :: c)).asRelPath.components = pieces rest ++ [c] :=
        components_append_cons hb hslash
      have hnew := length_setExtension hb hslash hext
      have hpos : 0 < (pieces rest).length :=
        List.length_pos_iff.mpr fun h => (normal_append_cons.mp hb).1.1 (pieces_eq_nil_iff.mp h)
      refine iff_of_false (fun h => ?_) (fun h => ?_)
      · have hlen := h.length (by rw [hold]; exact List.append_ne_nil_of_right_ne_nil _ (by simp))
        rw [hset, hold, RelPathBuf.asRelPath, hnew, List.length_append, List.length_singleton] at hlen
        omega
      · rw [hold, List.length_append, List.length_singleton] at h
        omega
    · refine iff_of_true (changesLast_single hb hslash hne hext) ?_
      rw [RelPathBuf.asRelPath, components_of_not_mem hslash hne]
      exact le_rfl

theorem changesLast_iff_single : ChangesLast ⟨"b.txt".toList⟩ "md".toList ↔
    (RelPathBuf.mk "b.txt".toList).asRelPath.components.length ≤ 1 :=
  changesLast_iff (b := ⟨"b.txt".toList⟩) (by decide) (by decide)

/-- `a/b.txt` becomes `ab.md`. -/
theorem not_changesLast : ¬ ∀ (b : RelPathBuf) (extension : List Char), Normal b.str →
    '/' ∉ extension → ChangesLast b extension := by
  intro h
  have hlen := (h ⟨"a/b.txt".toList⟩ "md".toList (by decide) (by decide)).length (by decide)
  exact absurd hlen (by decide)

end FcGpui

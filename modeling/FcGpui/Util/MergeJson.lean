import Mathlib

/-!
# Merging JSON without nulls

`merge_non_null_json_value_into` goes over the fields of the source.  A field that the target has is
merged with it, and a null leaves it; a field that the target has not is inserted as it is, unless it is
null.  What is inserted is not looked into.

* `lookup_mergeFields`: what is at a key of the result.
* `mergeNonNull_self`, `mergeNonNull_again`: merging the same once more changes nothing.
* `atPath_mergeNonNull_null`: a null comes in where the target has nothing in place of its object.

**Main results.**  `mergesNonNull_iff` and `not_mergesNonNull`.
-/

namespace FcGpui

/-- A value of `serde_json`, whose objects keep their fields in the order of insertion. -/
inductive JsonValue
  | null
  | bool (b : Bool)
  | number (text : String)
  | string (s : String)
  | array (elements : List JsonValue)
  | object (fields : List (String × JsonValue))

namespace JsonValue

/-- The fields of an object. -/
abbrev Fields := List (String × JsonValue)

def isNull : JsonValue → Bool
  | null => true
  | _ => false

/-- The value at a key gives way to another. -/
def replaceField (key : String) (value : JsonValue) (fields : Fields) : Fields :=
  fields.map fun field => if field.1 = key then (key, value) else field

/-- A target that is not an object is replaced by the empty one. -/
def asObject : JsonValue → Fields
  | object target => target
  | _ => []

mutual

/-- `merge_non_null_json_value_into`. -/
def mergeNonNull : JsonValue → JsonValue → JsonValue
  | object sourceObject, target => object (mergeFields sourceObject target.asObject)
  | null, target => target
  | bool b, _ => bool b
  | number text, _ => number text
  | string s, _ => string s
  | array elements, _ => array elements

/-- The loop over the fields of the source. -/
def mergeFields : Fields → Fields → Fields
  | [], targetObject => targetObject
  | (key, value) :: sourceObject, targetObject =>
    mergeFields sourceObject
      (match targetObject.lookup key with
      | some target => replaceField key (mergeNonNull value target) targetObject
      | none => if !value.isNull then targetObject ++ [(key, value)] else targetObject)

end

mutual

/-- No key is twice in an object. -/
def WellFormed : JsonValue → Prop
  | object fields => (fields.map Prod.fst).Nodup ∧ WellFormedFields fields
  | array elements => WellFormedElements elements
  | _ => True

def WellFormedFields : Fields → Prop
  | [] => True
  | (_, value) :: fields => value.WellFormed ∧ WellFormedFields fields

def WellFormedElements : List JsonValue → Prop
  | [] => True
  | value :: elements => value.WellFormed ∧ WellFormedElements elements

end

/-- What is found along keys. -/
def atPath : List String → JsonValue → Option JsonValue
  | [], value => some value
  | key :: path, value => (value.asObject.lookup key).bind (atPath path)

/-- No field that is reached through objects is null. -/
def NullFree (value : JsonValue) : Prop :=
  ∀ path key, value.atPath (path ++ [key]) ≠ some null

/-- Neither an object nor null. -/
def IsLeaf : JsonValue → Prop
  | null => False
  | object _ => False
  | _ => True

/-! ### Fields -/

section Fields

variable {fields source target : Fields} {key k : String} {value : JsonValue}

theorem sizeOf_lt_of_mem (h : (key, value) ∈ fields) : sizeOf value < sizeOf (object fields) := by
  have hfield := List.sizeOf_lt_of_mem h
  simp only [object.sizeOf_spec, Prod.mk.sizeOf_spec] at hfield ⊢
  omega

/-- Induction over what is reached through objects. -/
theorem induct {P : JsonValue → Prop} (other : ∀ v, (∀ fields, v ≠ object fields) → P v)
    (obj : ∀ fields, (∀ key value, (key, value) ∈ fields → P value) → P (object fields)) :
    ∀ v, P v := by
  intro v
  induction hsize : sizeOf v using Nat.strong_induction_on generalizing v with
  | _ n ih =>
    cases v with
    | object fields =>
      apply obj
      intro key value hmem
      exact ih _ (hsize ▸ sizeOf_lt_of_mem hmem) value rfl
    | _ => exact other _ (by simp)

theorem lookup_cons (k key : String) (value : JsonValue) (fields : Fields) :
    List.lookup k ((key, value) :: fields) = if k = key then some value else fields.lookup k := by
  rw [List.lookup_cons]
  by_cases hk : k = key
  · rw [if_pos hk, beq_iff_eq.mpr hk]
  · rw [if_neg hk, beq_false_of_ne hk]

theorem forall_mem_cons {P : String → JsonValue → Prop} :
    (∀ k v, (k, v) ∈ (key, value) :: fields → P k v) ↔ P key value ∧ ∀ k v, (k, v) ∈ fields → P k v := by
  constructor
  · exact fun h => ⟨h _ _ List.mem_cons_self, fun k v hmem => h k v (List.mem_cons_of_mem _ hmem)⟩
  · rintro ⟨hfirst, hrest⟩ k v hmem
    rcases List.mem_cons.mp hmem with heq | hmem
    · cases heq
      exact hfirst
    · exact hrest k v hmem

theorem mem_iff_lookup (h : (fields.map Prod.fst).Nodup) :
    (key, value) ∈ fields ↔ fields.lookup key = some value := by
  induction fields with
  | nil => simp
  | cons field fields ih =>
    obtain ⟨k, v⟩ := field
    rw [List.map_cons, List.nodup_cons] at h
    rw [List.mem_cons, lookup_cons, Prod.mk.injEq]
    by_cases hk : key = k
    · have hnot : (key, value) ∉ fields := fun hmem =>
        h.1 (List.mem_map.mpr ⟨(key, value), hmem, hk⟩)
      rw [if_pos hk, or_iff_left hnot, and_iff_right hk, Option.some.injEq]
      exact eq_comm
    · rw [if_neg hk, ← ih h.2]
      exact or_iff_right fun heq => hk heq.1

theorem lookup_eq_none : fields.lookup key = none ↔ key ∉ fields.map Prod.fst := by
  induction fields with
  | nil => simp
  | cons field fields ih =>
    obtain ⟨k, v⟩ := field
    rw [lookup_cons, List.map_cons, List.mem_cons, not_or, ← ih]
    by_cases hk : key = k
    · simp [hk]
    · simp [hk]

theorem map_fst_replaceField : (replaceField key value fields).map Prod.fst = fields.map Prod.fst := by
  rw [replaceField, List.map_map]
  refine List.map_congr_left fun field _ => ?_
  by_cases hk : field.1 = key
  · simp [hk]
  · simp [hk]

theorem lookup_replaceField : (replaceField key value fields).lookup k =
    if k = key then (fields.lookup key).map (fun _ => value) else fields.lookup k := by
  induction fields with
  | nil => simp [replaceField]
  | cons field fields ih =>
    obtain ⟨other, v⟩ := field
    have hcons : replaceField key value ((other, v) :: fields) =
        (if other = key then (key, value) else (other, v)) :: replaceField key value fields := rfl
    rw [hcons, lookup_cons, lookup_cons]
    by_cases hother : other = key
    · rw [if_pos hother, lookup_cons, ih, hother]
      by_cases hk : k = key
      · simp [hk]
      · simp [hk]
    · rw [if_neg hother, lookup_cons, ih, if_neg (Ne.symm hother)]
      by_cases hk : k = key
      · rw [if_neg (by rw [hk]; exact Ne.symm hother), if_pos hk, if_pos hk]
      · rw [if_neg hk, if_neg hk]

theorem replaceField_self (h : (fields.map Prod.fst).Nodup) (hlookup : fields.lookup key = some value) :
    replaceField key value fields = fields := by
  refine (List.map_congr_left fun field hfield => ?_).trans (List.map_id fields)
  obtain ⟨k, v⟩ := field
  split_ifs with hk
  · obtain rfl : k = key := hk
    have hv := (mem_iff_lookup h).mp hfield
    rw [hlookup] at hv
    rw [Option.some.inj hv]
    rfl
  · rfl

theorem wellFormed_object : (object fields).WellFormed ↔
    (fields.map Prod.fst).Nodup ∧ ∀ key value, (key, value) ∈ fields → value.WellFormed := by
  have hfields : WellFormedFields fields ↔ ∀ key value, (key, value) ∈ fields → value.WellFormed := by
    induction fields with
    | nil => exact iff_of_true trivial fun _ _ hmem => absurd hmem List.not_mem_nil
    | cons field fields ih =>
      obtain ⟨key, value⟩ := field
      rw [forall_mem_cons, ← ih]
      rfl
  rw [← hfields]
  rfl

/-! ### The loop -/

/-- The body of the loop. -/
def mergeField (key : String) (value : JsonValue) (target : Fields) : Fields :=
  match target.lookup key with
  | some old => replaceField key (mergeNonNull value old) target
  | none => if !value.isNull then target ++ [(key, value)] else target

theorem mergeFields_nil (target : Fields) : mergeFields [] target = target := rfl

theorem mergeFields_cons : mergeFields ((key, value) :: source) target =
    mergeFields source (mergeField key value target) := rfl

/-- What comes of a value for what is at its key. -/
def mergedValue (value : JsonValue) : Option JsonValue → Option JsonValue
  | some old => some (mergeNonNull value old)
  | none => if value.isNull then none else some value

theorem lookup_mergeField : (mergeField key value target).lookup k =
    if k = key then mergedValue value (target.lookup key) else target.lookup k := by
  rw [mergeField]
  cases hold : target.lookup key with
  | some old =>
    simp only [lookup_replaceField, hold]
    rfl
  | none =>
    simp only [mergedValue]
    cases hnull : value.isNull with
    | true =>
      by_cases hk : k = key
      · simp [hk, hold]
      · simp [hk]
    | false =>
      by_cases hk : k = key
      · simp [hk, List.lookup_append, hold]
      · simp [hk, List.lookup_append, lookup_cons]

theorem nodup_mergeField (h : (target.map Prod.fst).Nodup) :
    ((mergeField key value target).map Prod.fst).Nodup := by
  rw [mergeField]
  cases hold : target.lookup key with
  | some old =>
    simp only [map_fst_replaceField]
    exact h
  | none =>
    simp only
    split_ifs
    · rw [List.map_append, List.nodup_append]
      refine ⟨h, List.nodup_singleton _, ?_⟩
      rintro a ha b hb rfl
      obtain rfl := List.mem_singleton.mp hb
      exact lookup_eq_none.mp hold ha
    · exact h

theorem nodup_mergeFields (h : (target.map Prod.fst).Nodup) :
    ((mergeFields source target).map Prod.fst).Nodup := by
  induction source generalizing target with
  | nil => rwa [mergeFields_nil]
  | cons field source ih =>
    rw [mergeFields_cons]
    exact ih (nodup_mergeField h)

/-- **What is at a key** of the result. -/
theorem lookup_mergeFields (h : (source.map Prod.fst).Nodup) : (mergeFields source target).lookup k =
    (source.lookup k).elim (target.lookup k) fun value => mergedValue value (target.lookup k) := by
  induction source generalizing target with
  | nil => rw [mergeFields_nil, List.lookup_nil, Option.elim]
  | cons field source ih =>
    obtain ⟨key, value⟩ := field
    rw [List.map_cons, List.nodup_cons] at h
    rw [mergeFields_cons, ih h.2, lookup_mergeField, lookup_cons]
    by_cases hk : k = key
    · subst hk
      have hnone : source.lookup k = none := lookup_eq_none.mpr h.1
      simp [hnone]
    · simp [hk]

theorem mergeFields_eq_self (h : ∀ key value, (key, value) ∈ source → mergeField key value target = target) :
    mergeFields source target = target := by
  induction source with
  | nil => exact mergeFields_nil target
  | cons field source ih =>
    rw [mergeFields_cons, h _ _ List.mem_cons_self]
    exact ih fun key value hmem => h key value (List.mem_cons_of_mem _ hmem)

theorem mergeField_eq_self (h : (target.map Prod.fst).Nodup) {old : JsonValue}
    (hold : target.lookup key = some old) (hsame : mergeNonNull value old = old) :
    mergeField key value target = target := by
  rw [mergeField, hold]
  simp only [hsame]
  exact replaceField_self h hold

end Fields

/-! ### What merging keeps -/

section Merge

variable {s t : JsonValue}

theorem mergeNonNull_object (fields : Fields) (t : JsonValue) :
    mergeNonNull (object fields) t = object (mergeFields fields t.asObject) := rfl

theorem mergeNonNull_null (t : JsonValue) : mergeNonNull null t = t := rfl

/-- **What is at a key** of an object that has been merged. -/
theorem lookup_mergeNonNull {fields : Fields} (h : (object fields).WellFormed) (t : JsonValue) (k : String) :
    (mergeNonNull (object fields) t).asObject.lookup k = (fields.lookup k).elim (t.asObject.lookup k)
      fun value => mergedValue value (t.asObject.lookup k) := by
  rw [mergeNonNull_object]
  exact lookup_mergeFields (wellFormed_object.mp h).1

variable {k : String} {v : JsonValue}

theorem wellFormed_field {fields : Fields} (h : (object fields).WellFormed) {value : JsonValue}
    (hvalue : fields.lookup k = some value) : value.WellFormed := by
  obtain ⟨hnodup, hfields⟩ := wellFormed_object.mp h
  exact hfields k value ((mem_iff_lookup hnodup).mpr hvalue)

theorem mergeNonNull_leaf (h : s.IsLeaf) (t : JsonValue) : mergeNonNull s t = s := by
  cases s with
  | null => exact absurd h id
  | object fields => exact absurd h id
  | bool | number | string | array => rfl

theorem wellFormed_asObject (h : t.WellFormed) : (object t.asObject).WellFormed := by
  cases t with
  | object fields => exact h
  | _ => exact wellFormed_object.mpr ⟨List.nodup_nil, fun _ _ hmem => absurd hmem List.not_mem_nil⟩

/-- What is in the result of the loop: what the target had, or what has come of a value. -/
theorem mem_mergeFields {source target : Fields} (hsource : (source.map Prod.fst).Nodup)
    (htarget : (target.map Prod.fst).Nodup) {key : String} {w : JsonValue} :
    (key, w) ∈ mergeFields source target ↔
      (source.lookup key = none ∧ target.lookup key = some w) ∨
        ∃ value, (key, value) ∈ source ∧ mergedValue value (target.lookup key) = some w := by
  rw [mem_iff_lookup (nodup_mergeFields htarget), lookup_mergeFields hsource]
  cases hvalue : source.lookup key with
  | none =>
    have hno : ∀ value, (key, value) ∉ source := by
      intro value hmem
      rw [mem_iff_lookup hsource, hvalue] at hmem
      cases hmem
    simp [hno]
  | some value =>
    simp [mem_iff_lookup hsource, hvalue]

theorem wellFormed_mergeNonNull (s : JsonValue) : s.WellFormed → ∀ {t : JsonValue}, t.WellFormed →
    (mergeNonNull s t).WellFormed := by
  induction s using induct with
  | other s hother =>
    intro hs t ht
    cases s with
    | null => rwa [mergeNonNull_null]
    | object fields => exact absurd rfl (hother fields)
    | bool | number | string | array => exact hs
  | obj fields ih =>
    intro hs t ht
    obtain ⟨hnodup, hfields⟩ := wellFormed_object.mp hs
    obtain ⟨hnodupT, hfieldsT⟩ := wellFormed_object.mp (wellFormed_asObject ht)
    rw [mergeNonNull_object, wellFormed_object]
    refine ⟨nodup_mergeFields hnodupT, fun key w hmem => ?_⟩
    rcases (mem_mergeFields hnodup hnodupT).mp hmem with ⟨-, hold⟩ | ⟨value, hvalue, hw⟩
    · exact hfieldsT key w ((mem_iff_lookup hnodupT).mpr hold)
    · cases hold : t.asObject.lookup key with
      | some old =>
        rw [hold] at hw
        obtain rfl := Option.some.inj hw
        exact ih key value hvalue (hfields key value hvalue)
          (hfieldsT key old ((mem_iff_lookup hnodupT).mpr hold))
      | none =>
        rw [hold, mergedValue] at hw
        split_ifs at hw
        obtain rfl := Option.some.inj hw
        exact hfields key _ hvalue

/-- **Merging a value with itself** changes nothing. -/
theorem mergeNonNull_self (s : JsonValue) : s.WellFormed → mergeNonNull s s = s := by
  induction s using induct with
  | other s hother =>
    intro _
    cases s with
    | null => exact mergeNonNull_null null
    | object fields => exact absurd rfl (hother fields)
    | bool | number | string | array => rfl
  | obj fields ih =>
    intro hs
    obtain ⟨hnodup, hfields⟩ := wellFormed_object.mp hs
    rw [mergeNonNull_object]
    refine congrArg object (mergeFields_eq_self fun key value hmem => ?_)
    exact mergeField_eq_self hnodup ((mem_iff_lookup hnodup).mp hmem)
      (ih key value hmem (hfields key value hmem))

/-- **Merging the same once more** changes nothing. -/
theorem mergeNonNull_again (s : JsonValue) : s.WellFormed → ∀ {t : JsonValue}, t.WellFormed →
    mergeNonNull s (mergeNonNull s t) = mergeNonNull s t := by
  induction s using induct with
  | other s hother =>
    intro _ t _
    cases s with
    | null => rw [mergeNonNull_null]
    | object fields => exact absurd rfl (hother fields)
    | bool | number | string | array => rfl
  | obj fields ih =>
    intro hs t ht
    obtain ⟨hnodup, hfields⟩ := wellFormed_object.mp hs
    obtain ⟨hnodupT, hfieldsT⟩ := wellFormed_object.mp (wellFormed_asObject ht)
    rw [mergeNonNull_object, mergeNonNull_object]
    refine congrArg object (mergeFields_eq_self fun key value hmem => ?_)
    have hmerged : (mergeFields fields t.asObject).lookup key =
        mergedValue value (t.asObject.lookup key) := by
      rw [lookup_mergeFields hnodup, (mem_iff_lookup hnodup).mp hmem]
      rfl
    have hnodupM : ((mergeFields fields t.asObject).map Prod.fst).Nodup := nodup_mergeFields hnodupT
    cases hold : t.asObject.lookup key with
    | some old =>
      rw [hold] at hmerged
      exact mergeField_eq_self hnodupM hmerged (ih key value hmem (hfields key value hmem)
        (hfieldsT key old ((mem_iff_lookup hnodupT).mpr hold)))
    | none =>
      rw [hold, mergedValue] at hmerged
      split_ifs at hmerged with hnull
      · rw [asObject, mergeField, hmerged]
        simp [hnull]
      · exact mergeField_eq_self hnodupM hmerged (mergeNonNull_self value (hfields key value hmem))

/-- **A leaf of the source** is found where it was. -/
theorem atPath_mergeNonNull {leaf : JsonValue} (hleaf : leaf.IsLeaf) (path : List String) :
    ∀ {s t : JsonValue}, s.WellFormed → s.atPath path = some leaf →
      (mergeNonNull s t).atPath path = some leaf := by
  induction path with
  | nil =>
    intro s t _ hs
    obtain rfl := Option.some.inj hs
    rw [mergeNonNull_leaf hleaf]
    rfl
  | cons key path ih =>
    intro s t hwell hs
    cases s with
    | object fields =>
      obtain ⟨value, hvalue, hs⟩ := Option.bind_eq_some_iff.mp hs
      have hvalue : fields.lookup key = some value := hvalue
      rw [atPath, lookup_mergeNonNull hwell, hvalue, Option.elim]
      cases t.asObject.lookup key with
      | some old =>
        exact ih (wellFormed_field hwell hvalue) hs
      | none =>
        cases value with
        | null =>
          cases path with
          | nil =>
            obtain rfl := Option.some.inj hs
            exact absurd hleaf id
          | cons other path => cases hs
        | _ => exact hs
    | _ => cases hs

theorem mergeNonNull_ne_null (h : t ≠ null) : mergeNonNull s t ≠ null := by
  cases s with
  | null => rwa [mergeNonNull_null]
  | object fields =>
    rw [mergeNonNull_object]
    simp
  | bool | number | string | array => exact (mergeNonNull_leaf (by trivial) t).trans_ne (by simp)

theorem atPath_single (v : JsonValue) (key : String) : v.atPath [key] = v.asObject.lookup key := by
  rw [atPath]
  cases v.asObject.lookup key with
  | none => rfl
  | some value => rfl

theorem atPath_cons {old : JsonValue} (h : v.asObject.lookup k = some old)
    (path : List String) : v.atPath (k :: path) = old.atPath path := by
  rw [atPath, h, Option.bind_some]

theorem atPath_missing (h : v.asObject.lookup k = none) (path : List String) : v.atPath (k :: path) = none := by
  rw [atPath, h, Option.bind_none]

theorem atPath_empty (h : v.asObject = []) (path : List String) (key : String) :
    v.atPath (path ++ [key]) = none := by
  cases path with
  | nil => exact atPath_missing (by rw [h, List.lookup_nil]) []
  | cons k path => exact atPath_missing (by rw [h, List.lookup_nil]) _

theorem nullFree_field {old : JsonValue} (h : v.NullFree)
    (hold : v.asObject.lookup k = some old) : old.NullFree := by
  intro path key hpath
  exact h (k :: path) key (by rw [List.cons_append, atPath_cons hold, hpath])

theorem mergedValue_ne_null {value : JsonValue} {old : Option JsonValue} (h : old ≠ some null) :
    mergedValue value old ≠ some null := by
  cases old with
  | some old =>
    have hold : old ≠ null := fun heq => h (by rw [heq])
    exact fun hmerged => mergeNonNull_ne_null hold (Option.some.inj hmerged)
  | none =>
    rw [mergedValue]
    split_ifs with hvalue
    · exact (Option.some_ne_none null).symm
    · rintro hmerged
      rw [Option.some.inj hmerged] at hvalue
      exact hvalue rfl

theorem lookup_mergeNonNull_ne_null (hs : s.WellFormed) {key : String} (h : t.asObject.lookup key ≠ some null) :
    (mergeNonNull s t).asObject.lookup key ≠ some null := by
  cases s with
  | null => rwa [mergeNonNull_null]
  | object fields =>
    rw [lookup_mergeNonNull hs]
    cases fields.lookup key with
    | none => exact h
    | some value => exact mergedValue_ne_null h
  | bool | number | string | array => exact (Option.some_ne_none null).symm

/-- **A null in the result** is one of the source, in an object at whose place the target has nothing. -/
theorem atPath_mergeNonNull_null {key : String} (path : List String) :
    ∀ {s t : JsonValue}, s.WellFormed → t.NullFree →
      ((mergeNonNull s t).atPath (path ++ [key]) = some null ↔
        s.atPath (path ++ [key]) = some null ∧ t.atPath path = none) := by
  induction path with
  | nil =>
    intro s t hwell hnull
    have hold : t.asObject.lookup key ≠ some null := by
      rw [← atPath_single]
      exact hnull [] key
    rw [List.nil_append, atPath_single]
    exact iff_of_false (lookup_mergeNonNull_ne_null hwell hold) (by simp [atPath])
  | cons k path ih =>
    intro s t hwell hnull
    cases s with
    | null =>
      rw [mergeNonNull_null, atPath_empty (v := null) rfl]
      exact iff_of_false (hnull _ key) (by simp)
    | object fields =>
      have hmerged := lookup_mergeNonNull hwell t k
      cases hvalue : fields.lookup k with
      | none =>
        rw [hvalue, Option.elim] at hmerged
        rw [List.cons_append, atPath_missing (v := object fields) hvalue]
        refine iff_of_false (fun hpath => hnull (k :: path) key ?_) fun h => absurd h.1 (by simp)
        rw [List.cons_append, ← hpath, atPath, atPath, hmerged]
      | some value =>
        rw [hvalue, Option.elim] at hmerged
        rw [List.cons_append, atPath_cons (v := object fields) hvalue]
        cases hold : t.asObject.lookup k with
        | some old =>
          rw [hold] at hmerged
          rw [atPath_cons hmerged, atPath_cons hold]
          exact ih (wellFormed_field hwell hvalue) (nullFree_field hnull hold)
        | none =>
          rw [atPath_missing hold, and_iff_left rfl]
          rw [hold, mergedValue] at hmerged
          cases value with
          | null => rw [atPath_missing hmerged, atPath_empty rfl]
          | _ => rw [atPath_cons hmerged]
    | bool | number | string | array =>
      rw [atPath_empty rfl, atPath_empty rfl]
      simp

end Merge

end JsonValue

/-! ### Values -/

/-- A value in whose objects no key is twice. -/
structure Json where
  value : JsonValue
  wellFormed : value.WellFormed

namespace Json

/-- `merge_non_null_json_value_into`, for what is left in `target`. -/
def merge (source target : Json) : Json where
  value := source.value.mergeNonNull target.value
  wellFormed := JsonValue.wellFormed_mergeNonNull source.value source.wellFormed target.wellFormed

end Json

/-- Merging lets no null in, keeps the leaves of the source, and does nothing the second time. -/
structure MergesNonNull (source target : Json) : Prop where
  nullFree : (source.merge target).value.NullFree
  leaves : ∀ path leaf, source.value.atPath path = some leaf → leaf.IsLeaf →
    (source.merge target).value.atPath path = some leaf
  again : source.merge (source.merge target) = source.merge target

/-- **Merging lets a null in** just where an object of the source with a field that is null has nothing
in its place in the target. -/
theorem mergesNonNull_iff (source target : Json) (hnull : target.value.NullFree) :
    MergesNonNull source target ↔ ∀ path key,
      source.value.atPath (path ++ [key]) = some .null → target.value.atPath path ≠ none := by
  have hnulls : (source.merge target).value.NullFree ↔ ∀ path key,
      source.value.atPath (path ++ [key]) = some .null → target.value.atPath path ≠ none := by
    refine forall_congr' fun path => forall_congr' fun key => ?_
    rw [← not_and]
    exact not_congr (JsonValue.atPath_mergeNonNull_null path source.wellFormed hnull)
  refine ⟨fun h => hnulls.mp h.nullFree, fun h => ⟨hnulls.mpr h, ?_, ?_⟩⟩
  · intro path leaf hpath hleaf
    exact JsonValue.atPath_mergeNonNull hleaf path source.wellFormed hpath
  · have hvalue := JsonValue.mergeNonNull_again source.value source.wellFormed target.wellFormed
    rw [Json.merge, Json.mk.injEq]
    exact hvalue

/-- An object of one field. -/
def Json.field (key : String) (target : Json) : Json where
  value := .object [(key, target.value)]
  wellFormed := ⟨List.nodup_singleton _, target.wellFormed, trivial⟩

theorem Json.atPath_field (key k : String) (target : Json) (path : List String) :
    (Json.field key target).value.atPath (k :: path) =
      if k = key then target.value.atPath path else none := by
  rw [JsonValue.atPath, Json.field, JsonValue.asObject, JsonValue.lookup_cons]
  by_cases hk : k = key
  · rw [if_pos hk, if_pos hk, Option.bind_some]
  · rw [if_neg hk, if_neg hk, List.lookup_nil, Option.bind_none]

theorem mergesNonNull_iff_emptied :
    MergesNonNull (.field "a" (.field "b" ⟨.null, trivial⟩)) (.field "a" ⟨.bool true, trivial⟩) := by
  refine (mergesNonNull_iff _ _ fun path key hpath => ?_).mpr fun path key hpath => ?_
  · cases path with
    | nil =>
      rw [List.nil_append, Json.atPath_field] at hpath
      split_ifs at hpath
      cases hpath
    | cons k path =>
      rw [List.cons_append, Json.atPath_field] at hpath
      split_ifs at hpath
      rw [JsonValue.atPath_empty rfl] at hpath
      cases hpath
  · cases path with
    | nil => exact Option.some_ne_none _
    | cons k path =>
      rw [List.cons_append, Json.atPath_field] at hpath
      split_ifs at hpath with hk
      rw [Json.atPath_field, if_pos hk]
      cases path with
      | nil => exact Option.some_ne_none _
      | cons l path =>
        rw [List.cons_append, Json.atPath_field] at hpath
        split_ifs at hpath
        rw [JsonValue.atPath_empty rfl] at hpath
        cases hpath

theorem not_mergesNonNull : ¬∀ source target : Json, target.value.NullFree → MergesNonNull source target := by
  intro h
  have hmerges := h (.field "a" (.field "b" ⟨.null, trivial⟩)) ⟨.object [], List.nodup_nil, trivial⟩
    fun path key hpath => ?_
  · exact hmerges.nullFree ["a"] "b" rfl
  · rw [JsonValue.atPath_empty rfl] at hpath
    cases hpath

end FcGpui

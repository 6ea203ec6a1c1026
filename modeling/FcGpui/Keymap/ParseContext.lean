import FcGpui.Keymap.Context

/-!
# Parsing contexts

`KeyContext::parse` of `crates/gpui/src/keymap/context.rs`.  Each call of `parse_expr` takes
an identifier, an equals sign and a value from the source, any of which may be empty, and
calls itself on the rest, so on a character that is none of these it calls itself for ever.
The calls get `fuel`, and `none` says that they are not at their end.  No error is returned.

**Main result.**  `parse_terminates_iff`.
-/

namespace FcGpui

namespace KeyContext

variable {u : Alphanumeric} {source : List Char} {context : KeyContext}

/-- The identifier at the start of the source. -/
def leading (u : Alphanumeric) (source : List Char) : SharedString := source.takeWhile (isIdentifierChar u)

/-- What follows it, and the whitespace behind it. -/
def afterLeading (u : Alphanumeric) (source : List Char) : List Char :=
  skipWhitespace (source.dropWhile (isIdentifierChar u))

/-- What one call takes: what it leaves of the source, and the context. -/
def parseEntry (u : Alphanumeric) (source : List Char) (context : KeyContext) : List Char × KeyContext :=
  let key := leading u source
  match afterLeading u source with
  | '=' :: suffix =>
    let source := skipWhitespace suffix
    (afterLeading u source, context.set key (leading u source))
  | source => (source, context.add key)

def parseExpr (u : Alphanumeric) : Nat → List Char → KeyContext → Option KeyContext
  | 0, _, _ => none
  | fuel + 1, source, context =>
    if source.isEmpty then some context
    else parseExpr u fuel (parseEntry u source context).1 (parseEntry u source context).2

def parse (u : Alphanumeric) (fuel : Nat) (source : List Char) : Option KeyContext :=
  parseExpr u fuel (skipWhitespace source) empty

/-- A character that a call may take. -/
def Consumable (u : Alphanumeric) (c : Char) : Prop :=
  isIdentifierChar u c = true ∨ isWhitespace c = true ∨ c = '='

theorem consumable_or_mem_afterLeading {c : Char} (h : c ∈ source) : Consumable u c ∨ c ∈ afterLeading u source := by
  rw [← List.takeWhile_append_dropWhile (p := isIdentifierChar u) (l := source), List.mem_append] at h
  rcases h with hkey | hrest
  · exact Or.inl (Or.inl (List.mem_takeWhile_imp hkey))
  · by_cases hmem : c ∈ afterLeading u source
    · exact Or.inr hmem
    · exact Or.inl (Or.inr (Or.inl (isWhitespace_of_not_mem hrest hmem)))

theorem mem_of_mem_afterLeading {c : Char} (h : c ∈ afterLeading u source) : c ∈ source :=
  (List.dropWhile_sublist _).subset (mem_of_mem_skipWhitespace h)

theorem head?_afterLeading : ∀ c ∈ (afterLeading u source).head?, isWhitespace c = false :=
  head?_skipWhitespace _

theorem consumable_or_mem_parseEntry {c : Char} (h : c ∈ source) :
    Consumable u c ∨ c ∈ (parseEntry u source context).1 := by
  rcases consumable_or_mem_afterLeading (u := u) h with hleading | hrest
  · exact Or.inl hleading
  · rw [parseEntry]
    split
    · rename_i suffix hafter
      rw [hafter] at hrest
      rcases List.mem_cons.mp hrest with rfl | hsuffix
      · exact Or.inl (Or.inr (Or.inr rfl))
      · by_cases hmem : c ∈ skipWhitespace suffix
        · exact consumable_or_mem_afterLeading hmem
        · exact Or.inl (Or.inr (Or.inl (isWhitespace_of_not_mem hsuffix hmem)))
    · exact Or.inr hrest

theorem mem_of_mem_parseEntry {c : Char} (h : c ∈ (parseEntry u source context).1) : c ∈ source := by
  rw [parseEntry] at h
  split at h
  · rename_i suffix hafter
    have hmem : c ∈ suffix := mem_of_mem_skipWhitespace (mem_of_mem_afterLeading h)
    exact mem_of_mem_afterLeading (u := u) (hafter ▸ List.mem_cons_of_mem _ hmem)
  · exact mem_of_mem_afterLeading h

theorem head?_parseEntry : ∀ c ∈ (parseEntry u source context).1.head?, isWhitespace c = false := by
  rw [parseEntry]
  split <;> exact head?_afterLeading

theorem length_afterLeading_le : (afterLeading u source).length ≤ source.length :=
  (length_skipWhitespace_le _).trans (List.dropWhile_sublist _).length_le

/-- **Progress.**  A call takes a character, if the first one is consumable and no whitespace. -/
theorem length_parseEntry_lt {c : Char} (hhead : c ∈ source.head?) (hws : isWhitespace c = false)
    (hconsumable : Consumable u c) : (parseEntry u source context).1.length < source.length := by
  obtain ⟨rest, rfl⟩ : ∃ rest, source = c :: rest := by
    cases source with
    | nil => cases hhead
    | cons d rest => exact ⟨rest, by rw [Option.some.inj hhead]⟩
  by_cases hident : isIdentifierChar u c = true
  · have hafter : (afterLeading u (c :: rest)).length < (c :: rest).length := by
      rw [afterLeading, List.dropWhile_cons_of_pos hident, List.length_cons]
      exact Nat.lt_succ_of_le ((length_skipWhitespace_le _).trans (List.dropWhile_sublist _).length_le)
    rw [parseEntry]
    split
    · rename_i suffix hsuffix
      rw [hsuffix, List.length_cons] at hafter
      exact (length_afterLeading_le.trans (length_skipWhitespace_le suffix)).trans_lt (Nat.lt_of_succ_lt hafter)
    · exact hafter
  · -- it is an equals sign
    obtain rfl : c = '=' := (hconsumable.resolve_left hident).resolve_left (by rw [hws]; nofun)
    have hafter : afterLeading u ('=' :: rest) = '=' :: rest := by
      rw [afterLeading, List.dropWhile_cons_of_neg hident, skipWhitespace, List.dropWhile_cons_of_neg (by decide)]
    rw [parseEntry, hafter]
    exact Nat.lt_succ_of_le (length_afterLeading_le.trans (length_skipWhitespace_le rest))

theorem consumable_of_parseExpr {fuel : Nat} (h : (parseExpr u fuel source context).isSome) :
    ∀ c ∈ source, Consumable u c := by
  induction fuel generalizing source context with
  | zero => cases h
  | succ fuel ih =>
    intro c hc
    rw [parseExpr] at h
    cases source with
    | nil => exact absurd hc List.not_mem_nil
    | cons head rest =>
      rw [if_neg (by simp)] at h
      have hcases : Consumable u c ∨ c ∈ (parseEntry u (head :: rest) context).1 := consumable_or_mem_parseEntry hc
      rcases hcases with hconsumable | hmem
      · exact hconsumable
      · exact ih h c hmem

/-- Calls on consumable characters come to an end. -/
theorem parseExpr_isSome {fuel : Nat} (hfuel : source.length < fuel) (hall : ∀ c ∈ source, Consumable u c)
    (hhead : ∀ c ∈ source.head?, isWhitespace c = false) : (parseExpr u fuel source context).isSome := by
  induction fuel generalizing source context with
  | zero => exact absurd hfuel (Nat.not_lt_zero _)
  | succ fuel ih =>
    rw [parseExpr]
    cases source with
    | nil => rfl
    | cons head rest =>
      rw [if_neg (by simp)]
      have hlt : (parseEntry u (head :: rest) context).1.length < (head :: rest).length :=
        length_parseEntry_lt rfl (hhead head rfl) (hall head List.mem_cons_self)
      refine ih (hlt.trans_le (Nat.le_of_lt_succ hfuel)) (fun c hc => hall c (mem_of_mem_parseEntry hc)) ?_
      exact head?_parseEntry

theorem consumable_of_parse {fuel : Nat} (h : (parse u fuel source).isSome) : ∀ c ∈ source, Consumable u c := by
  intro c hc
  by_cases hmem : c ∈ skipWhitespace source
  · exact consumable_of_parseExpr h c hmem
  · exact Or.inr (Or.inl (isWhitespace_of_not_mem hc hmem))

/-- **Termination.**  `parse` comes to an end just if every character of its text is an identifier character,
whitespace or an equals sign. -/
theorem parse_terminates_iff (u : Alphanumeric) (source : List Char) :
    (∃ fuel, (parse u fuel source).isSome) ↔
      ∀ c ∈ source, isIdentifierChar u c = true ∨ isWhitespace c = true ∨ c = '=' := by
  constructor
  · exact fun ⟨fuel, h⟩ => consumable_of_parse h
  · intro h
    exact ⟨_, parseExpr_isSome (Nat.lt_succ_self _) (fun c hc => h c (mem_of_mem_skipWhitespace hc))
      (head?_skipWhitespace source)⟩

/-- On a dollar sign it does not. -/
theorem not_parse_terminates : ¬ ∀ source : List Char, ∃ fuel, (parse .ofAscii fuel source).isSome := by
  intro h
  obtain ⟨fuel, hend⟩ := h ['$']
  have hdollar : Consumable .ofAscii '$' := consumable_of_parse hend '$' List.mem_cons_self
  rcases hdollar with hident | hws | heq
  · exact absurd hident (by decide)
  · exact absurd hws (by decide)
  · exact absurd heq (by decide)

example : parse .ofAscii 4 "baz foo = bar".toList = some ((empty.add "baz".toList).set "foo".toList "bar".toList) := by
  decide

end KeyContext

end FcGpui

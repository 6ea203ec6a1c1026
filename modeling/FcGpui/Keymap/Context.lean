import Mathlib

/-!
# Key contexts and context predicates

`crates/gpui/src/keymap/context.rs`.  A context holds identifiers and key-value
pairs, each key once; a predicate is evaluated against a stack of contexts, the
outermost first.  `depthOf` is the depth of the innermost place where a predicate
matches, and `isSuperset` the syntactic test for one predicate to cover another.
-/

namespace FcGpui

/-- The text of an identifier, a key or a value. -/
abbrev SharedString := List Char

structure ContextEntry where
  key : SharedString
  value : Option SharedString
deriving DecidableEq

structure KeyContext where
  entries : List ContextEntry
  nodup : (entries.map ContextEntry.key).Nodup
deriving DecidableEq

namespace KeyContext

def empty : KeyContext := ⟨[], List.nodup_nil⟩

def contains (context : KeyContext) (key : SharedString) : Bool :=
  context.entries.any fun entry => entry.key == key

def get (context : KeyContext) (key : SharedString) : Option SharedString :=
  (context.entries.find? fun entry => entry.key == key).bind ContextEntry.value

/-- Appends an entry whose key is not there yet. -/
def push (context : KeyContext) (entry : ContextEntry) : KeyContext :=
  if h : context.contains entry.key = true then context
  else
    { entries := context.entries ++ [entry]
      nodup := by
        rw [List.map_append, List.map_singleton, List.nodup_append]
        refine ⟨context.nodup, List.nodup_singleton _, fun key hkey last hlast heq => h ?_⟩
        obtain ⟨other, hother, rfl⟩ := List.mem_map.mp hkey
        rw [List.mem_singleton.mp hlast] at heq
        exact List.any_eq_true.mpr ⟨other, hother, beq_iff_eq.mpr heq⟩ }

def add (context : KeyContext) (identifier : SharedString) : KeyContext :=
  context.push ⟨identifier, none⟩

def set (context : KeyContext) (key value : SharedString) : KeyContext :=
  context.push ⟨key, some value⟩

def extend (context other : KeyContext) : KeyContext := other.entries.foldl push context

end KeyContext

inductive KeyBindingContextPredicate
  | identifier (name : SharedString)
  | equal (left right : SharedString)
  | notEqual (left right : SharedString)
  | descendant (parent child : KeyBindingContextPredicate)
  | not (pred : KeyBindingContextPredicate)
  | and (left right : KeyBindingContextPredicate)
  | or (left right : KeyBindingContextPredicate)
deriving DecidableEq

namespace KeyBindingContextPredicate

/-- Whether the predicate matches at the last of `contexts`, a part of
`allContexts`. -/
def evalInner : KeyBindingContextPredicate → List KeyContext → List KeyContext → Bool
  | identifier name, contexts, _ =>
    contexts.getLast?.any fun context => context.contains name
  | equal left right, contexts, _ =>
    contexts.getLast?.any fun context => (context.get left).any (· == right)
  | notEqual left right, contexts, _ =>
    contexts.getLast?.any fun context => (context.get left).all (· != right)
  | not pred, contexts, allContexts =>
    contexts.getLast?.isSome &&
      !(List.range allContexts.length).any fun i =>
        pred.evalInner (allContexts.take (i + 1)) allContexts
  | descendant parent child, contexts, allContexts =>
    -- only the outermost match of the parent is tried
    match (List.range (contexts.length - 1)).find? fun i =>
      parent.evalInner (contexts.take (i + 1)) allContexts with
    | some i => child.evalInner (contexts.drop (i + 1)) (contexts.drop (i + 1))
    | none => false
  | and left right, contexts, allContexts =>
    contexts.getLast?.isSome &&
      (left.evalInner contexts allContexts && right.evalInner contexts allContexts)
  | or left right, contexts, allContexts =>
    contexts.getLast?.isSome &&
      (left.evalInner contexts allContexts || right.evalInner contexts allContexts)

def eval (predicate : KeyBindingContextPredicate) (contexts : List KeyContext) : Bool :=
  predicate.evalInner contexts contexts

/-- The deepest depth at which the predicate matches. -/
def depthOf (predicate : KeyBindingContextPredicate) (contexts : List KeyContext) : Option Nat :=
  (List.range (contexts.length + 1)).reverse.find? fun depth =>
    predicate.evalInner (contexts.take depth) contexts

/-- `is_superset` for a predicate that is no disjunction: it only looks into the
other predicate. -/
def isSupersetInto (predicate : KeyBindingContextPredicate) : KeyBindingContextPredicate → Bool
  | descendant parent child =>
    predicate == descendant parent child || predicate.isSupersetInto child
  | and left right =>
    predicate == and left right || (predicate.isSupersetInto left || predicate.isSupersetInto right)
  | other => predicate == other

def isSuperset : KeyBindingContextPredicate → KeyBindingContextPredicate → Bool
  | or left right, other =>
    or left right == other || (left.isSuperset other || right.isSuperset other)
  | predicate, other => predicate.isSupersetInto other

variable {p q : KeyBindingContextPredicate} {c : List KeyContext}

theorem ne_nil_of_eval (h : p.eval c = true) : c ≠ [] := by
  rintro rfl
  cases p <;> exact absurd h (by simp [eval, evalInner])

theorem eval_and : (and p q).eval c = true ↔ p.eval c = true ∧ q.eval c = true := by
  cases hc : c.getLast? with
  | none =>
    have hnil : c = [] := List.getLast?_eq_none_iff.mp hc
    exact iff_of_false (fun h => ne_nil_of_eval h hnil) fun h => ne_nil_of_eval h.1 hnil
  | some context => simp [eval, evalInner, hc]

theorem eval_or : (or p q).eval c = true ↔ p.eval c = true ∨ q.eval c = true := by
  cases hc : c.getLast? with
  | none =>
    have hnil : c = [] := List.getLast?_eq_none_iff.mp hc
    exact iff_of_false (fun h => ne_nil_of_eval h hnil) fun h =>
      h.elim (fun h => ne_nil_of_eval h hnil) fun h => ne_nil_of_eval h hnil
  | some context => simp [eval, evalInner, hc]

end KeyBindingContextPredicate

/-!
### The characters of contexts and predicates

`is_identifier_char`, `is_vim_operator_char` and `skip_whitespace` of
`crates/gpui/src/keymap/context.rs`.  A text is the list of its characters.  Which characters
are letters or digits is a parameter (`Alphanumeric`): of `char::is_alphanumeric` only this
is used, that it is known on ASCII and that no whitespace is alphanumeric.
-/

/-- `char::is_whitespace`: the characters with the property `White_Space`. -/
def isWhitespace (c : Char) : Bool :=
  (0x9 ≤ c.toNat && c.toNat ≤ 0xD) || c.toNat == 0x20 || c.toNat == 0x85 || c.toNat == 0xA0 || c.toNat == 0x1680 ||
    (0x2000 ≤ c.toNat && c.toNat ≤ 0x200A) || c.toNat == 0x2028 || c.toNat == 0x2029 || c.toNat == 0x202F ||
    c.toNat == 0x205F || c.toNat == 0x3000

/-- `char::is_alphanumeric`. -/
structure Alphanumeric where
  isAlphanumeric : Char → Bool
  ascii : ∀ c : Char, c.toNat < 128 → isAlphanumeric c = c.isAlphanum
  not_whitespace : ∀ c, isWhitespace c = true → isAlphanumeric c = false

theorem isAlphanum_not_whitespace {c : Char} (h : isWhitespace c = true) : c.isAlphanum = false := by
  have hcases : (0x9 ≤ c.toNat ∧ c.toNat ≤ 0xD) ∨ c.toNat = 0x20 ∨ 0x80 ≤ c.toNat := by
    simp only [isWhitespace, Bool.or_eq_true, Bool.and_eq_true, decide_eq_true_eq, beq_iff_eq] at h
    omega
  have hnat : c.val.toNat = c.toNat := rfl
  simp only [Char.isAlphanum, Char.isAlpha, Char.isUpper, Char.isLower, Char.isDigit, Bool.or_eq_false_iff,
    Bool.and_eq_false_iff, decide_eq_false_iff_not, ge_iff_le, UInt32.le_iff_toNat_le, hnat]
  simp
  omega

/-- Only the letters and digits of ASCII. -/
def Alphanumeric.ofAscii : Alphanumeric where
  isAlphanumeric := Char.isAlphanum
  ascii _ _ := rfl
  not_whitespace _ h := isAlphanum_not_whitespace h

def isIdentifierChar (u : Alphanumeric) (c : Char) : Bool := u.isAlphanumeric c || c == '_' || c == '-'

def isVimOperatorChar (c : Char) : Bool := c == '>' || c == '<' || c == '~' || c == '"' || c == '?'

def skipWhitespace (source : List Char) : List Char := source.dropWhile isWhitespace

variable {u : Alphanumeric} {source : List Char} {c : Char}

theorem not_isWhitespace_of_isIdentifierChar (h : isIdentifierChar u c = true) : isWhitespace c = false := by
  rw [← Bool.not_eq_true]
  intro hws
  rw [isIdentifierChar, u.not_whitespace c hws, Bool.false_or, Bool.or_eq_true, beq_iff_eq, beq_iff_eq] at h
  rcases h with rfl | rfl <;> exact absurd hws (by decide)

theorem length_skipWhitespace_le (source : List Char) : (skipWhitespace source).length ≤ source.length :=
  (List.dropWhile_sublist _).length_le

theorem mem_of_mem_skipWhitespace (h : c ∈ skipWhitespace source) : c ∈ source :=
  (List.dropWhile_sublist _).subset h

theorem isWhitespace_of_not_mem (h : c ∈ source) (hnot : c ∉ skipWhitespace source) : isWhitespace c = true := by
  rw [← List.takeWhile_append_dropWhile (p := isWhitespace) (l := source), List.mem_append] at h
  exact List.mem_takeWhile_imp (h.resolve_right hnot)

theorem head?_skipWhitespace (source : List Char) : ∀ c ∈ (skipWhitespace source).head?, isWhitespace c = false := by
  intro c hc
  have hnot := List.head?_dropWhile_not isWhitespace source
  rw [skipWhitespace] at hc
  rw [hc] at hnot
  exact hnot

end FcGpui

import FcGpui.Keymap.ParsePredicate
import FcGpui.Lib.Fuel

/-!
# The grammar of predicates

What a text means, told without a parser (`Spells`).  A text is an operand, or two texts with
an operator between them: the operators of the left one bind at least as tightly as it, and
those of the right one more tightly.  So the operator is the last of those that bind the
least.  A word must not run into the operator behind it.

**Main result.**  `Spells.parse`: `parse` answers with the meaning.
-/

namespace FcGpui

namespace KeyBindingContextPredicate

variable {u : Alphanumeric}

/-- Only whitespace. -/
def Blank (ws : List Char) : Prop := ∀ c ∈ ws, isWhitespace c = true

/-- A word: an identifier character, and word characters behind it. -/
def IsWord (u : Alphanumeric) (name : SharedString) : Prop :=
  ∃ first rest, name = first :: rest ∧ isIdentifierChar u first = true ∧ ∀ c ∈ rest, isWordChar u c = true

/-- What an operator makes of what is on its sides. -/
def Operator.combine (operator : Operator) (left right : Except ParseError KeyBindingContextPredicate) :
    Except ParseError KeyBindingContextPredicate :=
  left.bind fun left => right.bind fun right => operator.constructor left right

/-- What a text means, how tightly its loosest operator binds (5 if it is an operand), and whether it ends
with a word. -/
inductive Spells (u : Alphanumeric) : Nat → Bool → Except ParseError KeyBindingContextPredicate → List Char → Prop
  | word {name ws : List Char} (hname : IsWord u name) (hws : Blank ws) :
      Spells u precedenceNot ws.isEmpty (.ok (.identifier name)) (name ++ ws)
  | vimOperator {c : Char} {ws : List Char} (hc : isVimOperatorChar c = true) (hws : Blank ws) :
      Spells u precedenceNot false (.ok (.identifier [c])) (c :: ws)
  | not {word : Bool} {meaning : Except ParseError KeyBindingContextPredicate} {text ws : List Char}
      (h : Spells u precedenceNot word meaning text) (hws : Blank ws) :
      Spells u precedenceNot word (meaning.map KeyBindingContextPredicate.not) ('!' :: (ws ++ text))
  | paren {level : Nat} {word : Bool} {meaning : Except ParseError KeyBindingContextPredicate}
      {text ws ws' : List Char} (h : Spells u level word meaning text) (hws : Blank ws) (hws' : Blank ws') :
      Spells u precedenceNot false meaning ('(' :: (ws ++ (text ++ ')' :: ws')))
  | binary {leftLevel rightLevel : Nat} {leftWord rightWord : Bool}
      {left right : Except ParseError KeyBindingContextPredicate} {leftText rightText ws : List Char}
      (operator : Operator) (hleft : Spells u leftLevel leftWord left leftText)
      (hright : Spells u rightLevel rightWord right rightText) (hlevel : operator.precedence ≤ leftLevel)
      (hlevel' : operator.precedence < rightLevel) (hword : leftWord = true → operator ≠ .child) (hws : Blank ws) :
      Spells u operator.precedence rightWord (operator.combine left right)
        (leftText ++ (operator.text ++ (ws ++ rightText)))

/-! ### Characters -/

theorem skipWhitespace_append {ws source : List Char} (hws : Blank ws)
    (hhead : ∀ c ∈ source.head?, isWhitespace c = false) : skipWhitespace (ws ++ source) = source := by
  induction ws with
  | nil =>
    cases source with
    | nil => rfl
    | cons c source => exact List.dropWhile_cons_of_neg (by rw [hhead c rfl]; nofun)
  | cons c ws ih =>
    rw [List.cons_append, skipWhitespace, List.dropWhile_cons_of_pos (hws c List.mem_cons_self)]
    exact ih fun d hd => hws d (List.mem_cons_of_mem _ hd)

theorem isVimOperatorChar_cases {c : Char} (h : isVimOperatorChar c = true) :
    c = '>' ∨ c = '<' ∨ c = '~' ∨ c = '"' ∨ c = '?' := by
  simpa [isVimOperatorChar, or_assoc] using h

theorem not_isWhitespace_of_isVimOperatorChar {c : Char} (h : isVimOperatorChar c = true) : isWhitespace c = false := by
  rcases isVimOperatorChar_cases h with rfl | rfl | rfl | rfl | rfl <;> decide

/-- An ASCII character that is neither alphanumeric nor one of the listed is no word character. -/
theorem isWordChar_eq_false {c : Char} (hascii : c.toNat < 128) (h : isWordChar .ofAscii c = false) :
    isWordChar u c = false := by
  rw [isWordChar, isIdentifierChar, u.ascii c hascii]
  exact h

theorem isIdentifierChar_eq_false {c : Char} (hascii : c.toNat < 128) (h : isIdentifierChar .ofAscii c = false) :
    isIdentifierChar u c = false := by
  rw [isIdentifierChar, u.ascii c hascii]
  exact h

theorem Spells.head {level : Nat} {word : Bool} {meaning : Except ParseError KeyBindingContextPredicate}
    {text : List Char} (h : Spells u level word meaning text) (tail : List Char) :
    ∀ c ∈ (text ++ tail).head?, isWhitespace c = false := by
  induction h generalizing tail with
  | word hname hws =>
    obtain ⟨first, rest, rfl, hfirst, -⟩ := hname
    rintro c ⟨⟩
    exact not_isWhitespace_of_isIdentifierChar hfirst
  | vimOperator hc hws =>
    rintro c ⟨⟩
    exact not_isWhitespace_of_isVimOperatorChar hc
  | not h hws ih =>
    rintro c ⟨⟩
    decide
  | paren h hws hws' ih =>
    rintro c ⟨⟩
    decide
  | binary operator hleft hright hlevel hlevel' hword hws ihleft ihright =>
    rw [List.append_assoc]
    exact ihleft _

theorem blank_nil : Blank [] := fun _ hc => absurd hc List.not_mem_nil

theorem blank_space : Blank [' '] := fun c hc => by rw [List.mem_singleton.mp hc]; decide

theorem Blank.append {ws ws' : List Char} (h : Blank ws) (h' : Blank ws') : Blank (ws ++ ws') := by
  intro c hc
  rcases List.mem_append.mp hc with hc | hc
  · exact h c hc
  · exact h' c hc

theorem Spells.blank {level : Nat} {word : Bool} {meaning : Except ParseError KeyBindingContextPredicate}
    {text ws : List Char} (h : Spells u level word meaning text) (hws : Blank ws) :
    Spells u level (word && ws.isEmpty) meaning (text ++ ws) := by
  induction h with
  | @word name ws' hname hws' =>
    have hempty : (ws'.isEmpty && ws.isEmpty) = (ws' ++ ws).isEmpty := by cases ws' <;> rfl
    rw [List.append_assoc, hempty]
    exact .word hname (hws'.append hws)
  | vimOperator hc hws' =>
    rw [List.cons_append]
    exact .vimOperator hc (hws'.append hws)
  | not h hws' ih =>
    rw [List.cons_append, List.append_assoc]
    exact .not ih hws'
  | paren h hws' hws'' ih =>
    rw [List.cons_append, List.append_assoc, List.append_assoc, List.cons_append]
    exact .paren h hws' (hws''.append hws)
  | binary operator hleft hright hle hlt hword hws' ihleft ihright =>
    rw [List.append_assoc, List.append_assoc, List.append_assoc]
    exact .binary operator hleft ihright hle hlt hword hws'

/-! ### Operators -/

namespace Operator

theorem eq_of_isPrefixOf {operator operator' : Operator} {source : List Char}
    (h : operator'.text.isPrefixOf (operator.text ++ source) = true) : operator' = operator := by
  cases operator <;> cases operator' <;> first | rfl | simp [text] at h

theorem precedence_lt (operator : Operator) : operator.precedence < precedenceNot := by
  cases operator <;> decide

theorem head_text (operator : Operator) (source : List Char) :
    ∃ c, (operator.text ++ source).head? = some c ∧ isWhitespace c = false ∧
      (operator ≠ .child → isWordChar u c = false) := by
  cases operator with
  | child => exact ⟨'>', rfl, by decide, fun h => absurd rfl h⟩
  | and => exact ⟨'&', rfl, by decide, fun _ => isWordChar_eq_false (by decide) (by decide)⟩
  | or => exact ⟨'|', rfl, by decide, fun _ => isWordChar_eq_false (by decide) (by decide)⟩
  | equal => exact ⟨'=', rfl, by decide, fun _ => isWordChar_eq_false (by decide) (by decide)⟩
  | notEqual => exact ⟨'!', rfl, by decide, fun _ => isWordChar_eq_false (by decide) (by decide)⟩

end Operator

theorem nextOperator_eq_none {source : List Char} {level : Nat}
    (h : ∀ operator : Operator, operator.text.isPrefixOf source = true → operator.precedence < level) :
    nextOperator source level = none := by
  refine List.find?_eq_none.mpr fun operator _ hmatch => ?_
  obtain ⟨hstart, hle⟩ := Bool.and_eq_true_iff.mp hmatch
  exact absurd (h operator hstart) (not_lt.mpr (of_decide_eq_true hle))

theorem nextOperator_eq_some {operator : Operator} {source : List Char} {level : Nat}
    (h : level ≤ operator.precedence) : nextOperator (operator.text ++ source) level = some operator := by
  have hsome : (nextOperator (operator.text ++ source) level).isSome := by
    refine List.find?_isSome.mpr ⟨operator, by cases operator <;> simp, ?_⟩
    rw [Bool.and_eq_true_iff, decide_eq_true_iff]
    exact ⟨List.isPrefixOf_iff_prefix.mpr (List.prefix_append _ _), h⟩
  obtain ⟨operator', hfind⟩ := Option.isSome_iff_exists.mp hsome
  have hmatch := List.find?_some hfind
  obtain ⟨hstart, -⟩ := Bool.and_eq_true_iff.mp hmatch
  rw [hfind, Operator.eq_of_isPrefixOf hstart]

/-! ### The parser -/

variable {predicate : KeyBindingContextPredicate} {source rest tail : List Char} {level : Nat}

theorem parseExpr_of_primary {result : Except ParseError (KeyBindingContextPredicate × List Char)}
    (hprimary : EndsWith (parsePrimary u · source) (.ok (predicate, rest)))
    (hloop : EndsWith (parseLoop u · predicate rest level) result) :
    EndsWith (parseExpr u · source level) result := by
  refine hprimary.calls hloop fun fuel hfuel hfuel' => ?_
  simp only [parseExpr, hfuel, hfuel']

theorem parseExpr_of_error {error : ParseError} (hprimary : EndsWith (parsePrimary u · source) (.error error)) :
    EndsWith (parseExpr u · source level) (.error error) := by
  refine hprimary.call fun fuel hfuel => ?_
  simp only [parseExpr, hfuel]

theorem parseLoop_stops
    (h : ∀ operator : Operator, operator.text.isPrefixOf source = true → operator.precedence < level) :
    EndsWith (parseLoop u · predicate source level) (.ok (predicate, source)) := by
  refine EndsWith.here fun fuel => ?_
  simp only [parseLoop, nextOperator_eq_none h]

/-- What may follow a text. -/
structure Ahead (u : Alphanumeric) (level : Nat) (word : Bool) (tail : List Char) : Prop where
  whitespace : ∀ c ∈ tail.head?, isWhitespace c = false
  word : word = true → ∀ c ∈ tail.head?, isWordChar u c = false
  precedence : ∀ operator : Operator, operator.text.isPrefixOf tail = true → operator.precedence ≤ level

/-- A call goes on with a predicate, or it fails. -/
def Answers (call : Nat → Parsed) (meaning : Except ParseError KeyBindingContextPredicate)
    (next : KeyBindingContextPredicate → Nat → Parsed) : Prop :=
  match meaning with
  | .ok predicate => ∀ result, EndsWith (next predicate) result → EndsWith call result
  | .error error => EndsWith call (.error error)

variable {meaning : Except ParseError KeyBindingContextPredicate} {ws : List Char}

theorem answers_of_primary
    (h : EndsWith (parsePrimary u · source) (meaning.map fun predicate => (predicate, tail))) :
    Answers (parseExpr u · source level) meaning fun predicate => (parseLoop u · predicate tail level) := by
  cases meaning with
  | ok predicate => exact fun result hloop => parseExpr_of_primary h hloop
  | error error => exact parseExpr_of_error h

theorem Answers.stops {call : Nat → Parsed}
    (h : Answers call meaning fun predicate => (parseLoop u · predicate tail level))
    (hstops : ∀ operator : Operator, operator.text.isPrefixOf tail = true → operator.precedence < level) :
    EndsWith call (meaning.map fun predicate => (predicate, tail)) := by
  cases meaning with
  | ok predicate => exact h _ (parseLoop_stops hstops)
  | error error => exact h

theorem isWordChar_of_isWhitespace {c : Char} (h : isWhitespace c = true) : isWordChar u c = false := by
  rw [← Bool.not_eq_true]
  intro hword
  rcases Bool.or_eq_true_iff.mp hword with hident | hvim
  · rw [not_isWhitespace_of_isIdentifierChar hident] at h
    cases h
  · rw [not_isWhitespace_of_isVimOperatorChar hvim] at h
    cases h

theorem parsePrimary_word {name : List Char} (hname : IsWord u name) (hws : Blank ws)
    (htail : Ahead u level ws.isEmpty tail) (fuel : Nat) :
    parsePrimary u (fuel + 1) (name ++ ws ++ tail) = some (.ok (.identifier name, tail)) := by
  obtain ⟨first, rest, rfl, hfirst, hrest⟩ := hname
  have hall : ∀ c ∈ first :: rest, isWordChar u c = true := by
    intro c hc
    rcases List.mem_cons.mp hc with rfl | hc
    · exact Bool.or_eq_true_iff.mpr (Or.inl hfirst)
    · exact hrest c hc
  have hhead : ∀ c ∈ (ws ++ tail).head?, isWordChar u c = false := by
    cases ws with
    | nil => exact htail.word rfl
    | cons c ws =>
      rintro d ⟨⟩
      exact isWordChar_of_isWhitespace (hws c List.mem_cons_self)
  have htake : (first :: (rest ++ ws ++ tail)).takeWhile (isWordChar u) = first :: rest := by
    have hstop : (ws ++ tail).takeWhile (isWordChar u) = [] := by
      cases hsource : ws ++ tail with
      | nil => rfl
      | cons c source => exact List.takeWhile_cons_of_neg (by rw [hhead c (by rw [hsource]; rfl)]; nofun)
    have happend : (first :: rest ++ (ws ++ tail)).takeWhile (isWordChar u)
        = first :: rest ++ (ws ++ tail).takeWhile (isWordChar u) := List.takeWhile_append_of_pos hall
    rw [hstop, List.append_nil] at happend
    rw [List.append_assoc]
    exact happend
  have hdrop : skipWhitespace ((first :: (rest ++ ws ++ tail)).dropWhile (isWordChar u)) = tail := by
    have hstop : (ws ++ tail).dropWhile (isWordChar u) = ws ++ tail := by
      cases hsource : ws ++ tail with
      | nil => rfl
      | cons c source => exact List.dropWhile_cons_of_neg (by rw [hhead c (by rw [hsource]; rfl)]; nofun)
    have happend : (first :: rest ++ (ws ++ tail)).dropWhile (isWordChar u) = (ws ++ tail).dropWhile (isWordChar u) :=
      List.dropWhile_append_of_pos hall
    rw [hstop] at happend
    have hassoc : first :: (rest ++ ws ++ tail) = first :: rest ++ (ws ++ tail) := by simp
    rw [hassoc, happend]
    exact skipWhitespace_append hws htail.whitespace
  have hparen : first ≠ '(' := by
    rintro rfl
    rw [isIdentifierChar_eq_false (by decide) (by decide)] at hfirst
    cases hfirst
  have hbang : first ≠ '!' := by
    rintro rfl
    rw [isIdentifierChar_eq_false (by decide) (by decide)] at hfirst
    cases hfirst
  rw [List.cons_append, List.cons_append, parsePrimary, if_neg hparen, if_neg hbang, if_pos hfirst, htake, hdrop]

theorem parsePrimary_vimOperator {c : Char} (hc : isVimOperatorChar c = true) (hws : Blank ws)
    (htail : ∀ c ∈ tail.head?, isWhitespace c = false) (fuel : Nat) :
    parsePrimary u (fuel + 1) (c :: ws ++ tail) = some (.ok (.identifier [c], tail)) := by
  have hident : isIdentifierChar u c = false := by
    rcases isVimOperatorChar_cases hc with rfl | rfl | rfl | rfl | rfl <;>
      exact isIdentifierChar_eq_false (by decide) (by decide)
  have hparen : c ≠ '(' := by
    rintro rfl
    exact absurd hc (by decide)
  have hbang : c ≠ '!' := by
    rintro rfl
    exact absurd hc (by decide)
  rw [List.cons_append, parsePrimary, if_neg hparen, if_neg hbang, if_neg (by rw [hident]; nofun), if_pos hc,
    skipWhitespace_append hws htail]

/-- **A text is read**: the parser goes on behind it with its meaning. -/
theorem Spells.read {word : Bool} {text : List Char}
    {textLevel : Nat} (h : Spells u textLevel word meaning text) {tail : List Char} (htail : Ahead u textLevel word tail)
    {level : Nat} (hlevel : level ≤ textLevel) :
    Answers (parseExpr u · (text ++ tail) level) meaning fun predicate => (parseLoop u · predicate tail level) := by
  induction h generalizing tail level with
  | @word name ws hname hws =>
    exact answers_of_primary (EndsWith.here fun fuel => parsePrimary_word hname hws htail fuel)
  | @vimOperator c ws hc hws =>
    exact answers_of_primary (EndsWith.here fun fuel => parsePrimary_vimOperator hc hws htail.whitespace fuel)
  | @not word meaning text ws h hws ih =>
    -- `parse_expr` with the precedence of not reads an operand
    have hread := (ih htail le_rfl).stops fun operator _ => operator.precedence_lt
    refine answers_of_primary (hread.call fun fuel hfuel => ?_)
    have hskip : skipWhitespace (ws ++ text ++ tail) = text ++ tail := by
      rw [List.append_assoc]
      exact skipWhitespace_append hws (h.head tail)
    rw [List.cons_append, parsePrimary, if_neg (by decide), if_pos rfl, hskip]
    cases meaning <;> simp only [hfuel] <;> rfl
  | @paren textLevel word meaning text ws ws' h hws hws' ih =>
    have hclose : Ahead u textLevel word (')' :: (ws' ++ tail)) := by
      refine ⟨?_, ?_, fun operator hstart => ?_⟩
      · rintro c ⟨⟩
        decide
      · rintro - c ⟨⟩
        exact isWordChar_eq_false (by decide) (by decide)
      · cases operator <;> simp [Operator.text] at hstart
    have hread := (ih hclose (Nat.zero_le _)).stops fun operator hstart => by
      cases operator <;> simp [Operator.text] at hstart
    refine answers_of_primary (hread.call fun fuel hfuel => ?_)
    have hskip : skipWhitespace (ws ++ (text ++ ')' :: ws') ++ tail) = text ++ ')' :: (ws' ++ tail) := by
      have hassoc : ws ++ (text ++ ')' :: ws') ++ tail = ws ++ (text ++ ')' :: (ws' ++ tail)) := by simp
      rw [hassoc]
      exact skipWhitespace_append hws (h.head _)
    rw [List.cons_append, parsePrimary, if_pos rfl, hskip]
    cases meaning with
    | ok predicate =>
      simp only [hfuel, Except.map, skipWhitespace_append hws' htail.whitespace]
    | error error => simp only [hfuel, Except.map]
  | @binary leftLevel rightLevel leftWord rightWord left right leftText rightText ws operator hleft hright hle hlt
      hword hws ihleft ihright =>
    have hassoc : leftText ++ (operator.text ++ (ws ++ rightText)) ++ tail
        = leftText ++ (operator.text ++ (ws ++ (rightText ++ tail))) := by simp
    obtain ⟨c, hhead, hnotws, hnotword⟩ := operator.head_text (u := u) (ws ++ (rightText ++ tail))
    have hleftahead : Ahead u leftLevel leftWord (operator.text ++ (ws ++ (rightText ++ tail))) := by
      refine ⟨fun d hd => ?_, fun hw d hd => ?_, fun operator' hstart => ?_⟩
      · rwa [← Option.some.inj (hhead.symm.trans hd)]
      · rw [← Option.some.inj (hhead.symm.trans hd)]
        exact hnotword (hword hw)
      · rw [Operator.eq_of_isPrefixOf hstart]
        exact hle
    have hrightahead : Ahead u rightLevel rightWord tail :=
      ⟨htail.whitespace, htail.word, fun operator' hstart => (htail.precedence operator' hstart).trans hlt.le⟩
    have hleftread := ihleft hleftahead (hlevel.trans hle)
    have hrightread := (ihright hrightahead hlt).stops fun operator' hstart =>
      Nat.lt_succ_of_le (htail.precedence operator' hstart)
    have hskip : skipWhitespace ((operator.text ++ (ws ++ (rightText ++ tail))).drop operator.text.length)
        = rightText ++ tail := by
      rw [List.drop_left]
      exact skipWhitespace_append hws (hright.head tail)
    rw [hassoc]
    cases left with
    | error error => exact hleftread
    | ok left =>
      cases right with
      | error error =>
        refine hleftread _ (hrightread.call fun fuel hfuel => ?_)
        simp only [parseLoop, nextOperator_eq_some hlevel, hskip, hfuel]
        rfl
      | ok right =>
        cases hcombine : operator.constructor left right with
        | error error =>
          have hmeaning : operator.combine (.ok left) (.ok right) = .error error := hcombine
          rw [hmeaning]
          refine hleftread _ (hrightread.call fun fuel hfuel => ?_)
          simp only [parseLoop, nextOperator_eq_some hlevel, hskip, hfuel, Except.map, hcombine]
        | ok predicate =>
          have hmeaning : operator.combine (.ok left) (.ok right) = .ok predicate := hcombine
          rw [hmeaning]
          intro result hloop
          refine hleftread _ (hrightread.calls hloop fun fuel hfuel hfuel' => ?_)
          simp only [parseLoop, nextOperator_eq_some hlevel, hskip, hfuel, Except.map, hcombine, hfuel']

/-- **`parse` answers with the meaning of a text**, with whitespace before it. -/
theorem Spells.parse {word : Bool} {text : List Char}
    {textLevel : Nat} (h : Spells u textLevel word meaning text) (hws : Blank ws) :
    EndsWith (KeyBindingContextPredicate.parse u (ws ++ text)) meaning := by
  have hahead : Ahead u textLevel word [] := by
    refine ⟨nofun, fun _ => nofun, fun operator hstart => ?_⟩
    cases operator <;> simp [Operator.text] at hstart
  have hread := (h.read hahead (Nat.zero_le _)).stops fun operator hstart => by
    cases operator <;> simp [Operator.text] at hstart
  obtain ⟨enough, hend⟩ := hread
  refine ⟨enough, fun fuel hfuel => ?_⟩
  have hskip : skipWhitespace (ws ++ text) = text := by
    refine skipWhitespace_append hws ?_
    have hhead := h.head []
    rwa [List.append_nil] at hhead
  have hexpr : parseExpr u fuel (text ++ []) 0 = some (meaning.map fun predicate => (predicate, [])) := hend fuel hfuel
  rw [List.append_nil] at hexpr
  rw [KeyBindingContextPredicate.parse, hskip, hexpr]
  cases meaning <;> rfl

end KeyBindingContextPredicate

end FcGpui

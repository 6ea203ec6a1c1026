import FcGpui.Keymap.Context

/-!
# Parsing predicates

`parse` of `KeyBindingContextPredicate` in `crates/gpui/src/keymap/context.rs`, and its
`Display`.  The functions of the parser call one another with less fuel each time; `none`
says that it is used up.  Otherwise the result is a predicate with the rest of the source, or
an error.
-/

namespace FcGpui

namespace KeyBindingContextPredicate

inductive ParseError
  | unexpectedEnd
  | expectedParenthesis
  | unexpectedCharacter (next : Char)
  | operandsOfEqual
  | operandsOfNotEqual
deriving DecidableEq

/-- The binary operators. -/
inductive Operator
  | child
  | and
  | or
  | equal
  | notEqual
deriving DecidableEq

namespace Operator

def text : Operator → List Char
  | child => ['>']
  | and => ['&', '&']
  | or => ['|', '|']
  | equal => ['=', '=']
  | notEqual => ['!', '=']

def precedence : Operator → Nat
  | child => 1
  | or => 2
  | and => 3
  | equal => 4
  | notEqual => 4

/-- `new_child`, `new_and`, `new_or`, `new_eq` and `new_neq`. -/
def constructor (left right : KeyBindingContextPredicate) : Operator → Except ParseError KeyBindingContextPredicate
  | child => .ok (.descendant left right)
  | and => .ok (.and left right)
  | or => .ok (.or left right)
  | equal =>
    match left, right with
    | .identifier left, .identifier right => .ok (.equal left right)
    | _, _ => .error .operandsOfEqual
  | notEqual =>
    match left, right with
    | .identifier left, .identifier right => .ok (.notEqual left right)
    | _, _ => .error .operandsOfNotEqual

end Operator

def precedenceNot : Nat := 5

/-- The operator that the loop goes on with: the first of the table that the source starts with. -/
def nextOperator (source : List Char) (minPrecedence : Nat) : Option Operator :=
  [Operator.child, .and, .or, .equal, .notEqual].find? fun operator =>
    operator.text.isPrefixOf source && minPrecedence ≤ operator.precedence

/-- A character of an identifier behind its first. -/
def isWordChar (u : Alphanumeric) (c : Char) : Bool := isIdentifierChar u c || isVimOperatorChar c

/-- The result of a call, if its fuel is not used up. -/
abbrev Parsed := Option (Except ParseError (KeyBindingContextPredicate × List Char))

mutual

def parseExpr (u : Alphanumeric) : Nat → List Char → Nat → Parsed
  | 0, _, _ => none
  | fuel + 1, source, minPrecedence =>
    match parsePrimary u fuel source with
    | some (.ok (predicate, rest)) => parseLoop u fuel predicate rest minPrecedence
    | result => result

/-- The loop of `parse_expr`. -/
def parseLoop (u : Alphanumeric) : Nat → KeyBindingContextPredicate → List Char → Nat → Parsed
  | 0, _, _, _ => none
  | fuel + 1, predicate, source, minPrecedence =>
    match nextOperator source minPrecedence with
    | none => some (.ok (predicate, source))
    | some operator =>
      match parseExpr u fuel (skipWhitespace (source.drop operator.text.length)) (operator.precedence + 1) with
      | some (.ok (right, rest)) =>
        match operator.constructor predicate right with
        | .ok predicate => parseLoop u fuel predicate rest minPrecedence
        | .error error => some (.error error)
      | result => result

def parsePrimary (u : Alphanumeric) : Nat → List Char → Parsed
  | 0, _ => none
  | _ + 1, [] => some (.error .unexpectedEnd)
  | fuel + 1, next :: source =>
    if next = '(' then
      match parseExpr u fuel (skipWhitespace source) 0 with
      | some (.ok (predicate, rest)) =>
        match rest with
        | ')' :: stripped => some (.ok (predicate, skipWhitespace stripped))
        | _ => some (.error .expectedParenthesis)
      | result => result
    else if next = '!' then
      match parseExpr u fuel (skipWhitespace source) precedenceNot with
      | some (.ok (predicate, rest)) => some (.ok (.not predicate, rest))
      | result => result
    else if isIdentifierChar u next then
      some (.ok (.identifier ((next :: source).takeWhile (isWordChar u)),
        skipWhitespace ((next :: source).dropWhile (isWordChar u))))
    else if isVimOperatorChar next then some (.ok (.identifier [next], skipWhitespace source))
    else some (.error (.unexpectedCharacter next))

end

def parse (u : Alphanumeric) (source : List Char) (fuel : Nat) :
    Option (Except ParseError KeyBindingContextPredicate) :=
  (parseExpr u fuel (skipWhitespace source) 0).map fun
    | .ok (predicate, rest) =>
      match rest with
      | next :: _ => .error (.unexpectedCharacter next)
      | [] => .ok predicate
    | .error error => .error error

/-- `Display`. -/
def display : KeyBindingContextPredicate → List Char
  | identifier name => name
  | equal left right => left ++ " == ".toList ++ right
  | notEqual left right => left ++ " != ".toList ++ right
  | not pred => '!' :: pred.display
  | descendant parent child => parent.display ++ " > ".toList ++ child.display
  | and left right => '(' :: (left.display ++ " && ".toList ++ right.display ++ [')'])
  | or left right => '(' :: (left.display ++ " || ".toList ++ right.display ++ [')'])

end KeyBindingContextPredicate

end FcGpui

import FcGpui.Keymap.PredicateGrammar

/-!
# Displayed predicates

`Display` puts parentheses around `&&` and `||` alone.  So the text of a predicate falls into
pieces between its `>`s, each an operand, or a name compared with a name (`pieces`), and it
is read as their chain (`parse_display`).  A `!` binds to the first operand only, a `>`
takes all before it as its parent, and `&&` and `||` take just the pieces next to them.

**Main result.**  `parse_display_iff`.
-/

namespace FcGpui

namespace KeyBindingContextPredicate

variable {u : Alphanumeric}

/-- What a call gives for a text. -/
abbrev Meaning := Except ParseError KeyBindingContextPredicate

/-- A part of a displayed text between two `>`s: an operand, and a comparison of it with a name. -/
structure Piece where
  text : List Char
  operand : Meaning
  comparison : Option (Operator × SharedString)

namespace Piece

def meaning (piece : Piece) : Meaning :=
  match piece.comparison with
  | none => piece.operand
  | some (operator, name) => operator.combine piece.operand (.ok (.identifier name))

def display (piece : Piece) : List Char :=
  match piece.comparison with
  | none => piece.text
  | some (operator, name) => piece.text ++ [' '] ++ (operator.text ++ ([' '] ++ name))

/-- With a `!` before it. -/
def negate (piece : Piece) : Piece :=
  { piece with text := '!' :: piece.text, operand := piece.operand.map KeyBindingContextPredicate.not }

end Piece

/-- A chain of `>`s. -/
def descend : List Meaning → Meaning
  | [] => .error .unexpectedEnd
  | meaning :: meanings => meanings.foldl Operator.child.combine meaning

/-- Two chains with an operator between them, which binds more tightly. -/
def merge (operator : Operator) : List Meaning → List Meaning → List Meaning
  | [], rights => rights
  | [left], [] => [left]
  | [left], right :: rights => operator.combine left right :: rights
  | left :: left' :: lefts, rights => left :: merge operator (left' :: lefts) rights

/-- The pieces of a displayed predicate. -/
def pieces : KeyBindingContextPredicate → List Piece
  | identifier name => [⟨name, .ok (.identifier name), none⟩]
  | equal left right => [⟨left, .ok (.identifier left), some (.equal, right)⟩]
  | notEqual left right => [⟨left, .ok (.identifier left), some (.notEqual, right)⟩]
  | not pred =>
    match pred.pieces with
    | [] => []
    | piece :: rest => piece.negate :: rest
  | descendant parent child => parent.pieces ++ child.pieces
  | and left right =>
    [⟨(and left right).display,
      descend (merge .and (left.pieces.map Piece.meaning) (right.pieces.map Piece.meaning)), none⟩]
  | or left right =>
    [⟨(or left right).display,
      descend (merge .or (left.pieces.map Piece.meaning) (right.pieces.map Piece.meaning)), none⟩]

/-- What each piece means. -/
def meanings (predicate : KeyBindingContextPredicate) : List Meaning := predicate.pieces.map Piece.meaning

/-- **What a displayed predicate is read as.** -/
def reread (predicate : KeyBindingContextPredicate) : Meaning := descend predicate.meanings

variable {piece : Piece} {operator : Operator} {predicate : KeyBindingContextPredicate}

theorem pieces_not {pred : KeyBindingContextPredicate} {rest : List Piece}
    (h : pred.pieces = piece :: rest) : (not pred).pieces = piece.negate :: rest := by
  rw [pieces, h]

theorem pieces_ne_nil (predicate : KeyBindingContextPredicate) : predicate.pieces ≠ [] := by
  induction predicate with
  | identifier name => nofun
  | equal left right => nofun
  | notEqual left right => nofun
  | not pred ih =>
    obtain ⟨piece, rest, hpieces⟩ := List.exists_cons_of_ne_nil ih
    rw [pieces_not hpieces]
    exact List.cons_ne_nil _ _
  | descendant parent child ihparent ihchild =>
    rw [pieces]
    exact List.append_ne_nil_of_left_ne_nil ihparent _
  | and left right => nofun
  | or left right => nofun

theorem meanings_ne_nil (predicate : KeyBindingContextPredicate) : predicate.meanings ≠ [] :=
  fun h => predicate.pieces_ne_nil (List.map_eq_nil_iff.mp h)

/-! ### The text of the pieces -/

/-- The texts of pieces with `>`s between them. -/
def joinPieces : List Piece → List Char
  | [] => []
  | [piece] => piece.display
  | piece :: piece' :: rest => piece.display ++ (" > ".toList ++ joinPieces (piece' :: rest))

theorem display_negate (piece : Piece) : piece.negate.display = '!' :: piece.display := by
  obtain ⟨text, operand, comparison⟩ := piece
  cases comparison <;> rfl

theorem joinPieces_append {lefts rights : List Piece} (hleft : lefts ≠ []) (hright : rights ≠ []) :
    joinPieces (lefts ++ rights) = joinPieces lefts ++ (" > ".toList ++ joinPieces rights) := by
  induction lefts with
  | nil => exact absurd rfl hleft
  | cons left lefts ih =>
    cases lefts with
    | nil =>
      obtain ⟨right, rights, rfl⟩ := List.exists_cons_of_ne_nil hright
      rfl
    | cons left' lefts =>
      have hrest := ih (List.cons_ne_nil _ _)
      rw [List.cons_append, List.cons_append, joinPieces, ← List.cons_append, hrest, joinPieces]
      simp only [List.append_assoc]

theorem joinPieces_pieces (predicate : KeyBindingContextPredicate) : joinPieces predicate.pieces = predicate.display := by
  induction predicate with
  | identifier name => rfl
  | equal left right =>
    show left ++ [' '] ++ (Operator.equal.text ++ ([' '] ++ right)) = left ++ " == ".toList ++ right
    simp [Operator.text]
  | notEqual left right =>
    show left ++ [' '] ++ (Operator.notEqual.text ++ ([' '] ++ right)) = left ++ " != ".toList ++ right
    simp [Operator.text]
  | not pred ih =>
    obtain ⟨piece, rest, hpieces⟩ := List.exists_cons_of_ne_nil pred.pieces_ne_nil
    rw [display, ← ih, pieces_not hpieces, hpieces]
    cases rest with
    | nil => exact display_negate piece
    | cons piece' rest =>
      rw [joinPieces, display_negate]
      rfl
  | descendant parent child ihparent ihchild =>
    rw [pieces, joinPieces_append parent.pieces_ne_nil child.pieces_ne_nil, ihparent, ihchild, display,
      List.append_assoc]
  | and left right => rfl
  | or left right => rfl

/-! ### Reading the text -/

/-- What the parser takes for an identifier. -/
def IsIdentifier (u : Alphanumeric) (name : SharedString) : Prop :=
  IsWord u name ∨ ∃ c, name = [c] ∧ isVimOperatorChar c = true

/-- The names are identifiers. -/
def Lexable (u : Alphanumeric) : KeyBindingContextPredicate → Prop
  | identifier name => IsIdentifier u name
  | equal left right => IsIdentifier u left ∧ IsIdentifier u right
  | notEqual left right => IsIdentifier u left ∧ IsIdentifier u right
  | not pred => pred.Lexable u
  | descendant parent child => parent.Lexable u ∧ child.Lexable u
  | and left right => left.Lexable u ∧ right.Lexable u
  | or left right => left.Lexable u ∧ right.Lexable u

theorem IsIdentifier.spells {name : SharedString} (h : IsIdentifier u name) :
    ∃ word, Spells u precedenceNot word (.ok (.identifier name)) name := by
  rcases h with hword | ⟨c, rfl, hc⟩
  · have hspells := Spells.word hword blank_nil
    rw [List.append_nil] at hspells
    exact ⟨true, hspells⟩
  · exact ⟨false, .vimOperator hc blank_nil⟩

/-- A text of pieces, each of which binds at least as tightly as `least`, with `>`s between them. -/
inductive Joined (u : Alphanumeric) (least : Nat) : List Meaning → List Char → Prop
  | one {level : Nat} {word : Bool} {meaning : Meaning} {text : List Char} (h : Spells u level word meaning text)
      (hlevel : least ≤ level) : Joined u least [meaning] text
  | cons {level : Nat} {word : Bool} {meaning : Meaning} {meanings : List Meaning} {text text' : List Char}
      (h : Spells u level word meaning text) (hlevel : least ≤ level) (hrest : Joined u least meanings text') :
      Joined u least (meaning :: meanings) (text ++ (" > ".toList ++ text'))

theorem spells_child {level level' : Nat} {word word' : Bool} {left right : Meaning} {text text' : List Char}
    (h : Spells u level word left text) (hlevel : 1 ≤ level) (h' : Spells u level' word' right text')
    (hlevel' : 2 ≤ level') :
    Spells u 1 word' (Operator.child.combine left right) (text ++ (" > ".toList ++ text')) := by
  have htext : text ++ (" > ".toList ++ text') = text ++ [' '] ++ (Operator.child.text ++ ([' '] ++ text')) := by
    simp [Operator.text]
  rw [htext]
  exact .binary .child (h.blank blank_space) h' hlevel hlevel' (by simp) blank_space

theorem Joined.spells_foldl {meanings : List Meaning} {text : List Char} (h : Joined u 2 meanings text)
    {level : Nat} {word : Bool} {left : Meaning} {text₀ : List Char} (h₀ : Spells u level word left text₀)
    (hlevel : 1 ≤ level) :
    ∃ word', Spells u 1 word' (meanings.foldl Operator.child.combine left) (text₀ ++ (" > ".toList ++ text)) := by
  induction h generalizing level word left text₀ with
  | one h hle => exact ⟨_, spells_child h₀ hlevel h hle⟩
  | cons h hle hrest ih =>
    obtain ⟨word', hspells⟩ := ih (spells_child h₀ hlevel h hle) le_rfl
    refine ⟨word', ?_⟩
    rw [List.foldl_cons]
    simpa only [List.append_assoc] using hspells

theorem Joined.spells {meanings : List Meaning} {text : List Char} (h : Joined u 2 meanings text) :
    ∃ level word, 1 ≤ level ∧ Spells u level word (descend meanings) text := by
  cases h with
  | one h hle => exact ⟨_, _, (Nat.le_succ 1).trans hle, h⟩
  | cons h hle hrest =>
    obtain ⟨word, hspells⟩ := hrest.spells_foldl h ((Nat.le_succ 1).trans hle)
    exact ⟨1, word, le_rfl, hspells⟩

theorem Joined.weaken {least least' : Nat} {meanings : List Meaning} {text : List Char}
    (h : Joined u least meanings text) (hle : least' ≤ least) : Joined u least' meanings text := by
  induction h with
  | one h hlevel => exact .one h (hle.trans hlevel)
  | cons h hlevel hrest ih => exact .cons h (hle.trans hlevel) ih

/-- An operator between two chains takes the pieces next to it. -/
theorem Joined.merge {lefts rights : List Meaning} {text text' : List Char}
    (hoperator : 2 ≤ operator.precedence) (hoperator' : operator.precedence < 4) (hchild : operator ≠ .child)
    (hleft : Joined u 4 lefts text) (hright : Joined u 4 rights text') :
    Joined u 2 (KeyBindingContextPredicate.merge operator lefts rights)
      (text ++ [' '] ++ (operator.text ++ ([' '] ++ text'))) := by
  induction hleft with
  | one h hlevel =>
    have hpair : ∀ {level' : Nat} {word' : Bool} {right : Meaning} {rightText : List Char},
        Spells u level' word' right rightText → 4 ≤ level' → _ := fun h' hlevel' =>
      Spells.binary operator (h.blank blank_space) h' (hoperator'.le.trans hlevel) (hoperator'.trans_le hlevel')
        (fun _ => hchild) blank_space
    cases hright with
    | one h' hlevel' => exact .one (hpair h' hlevel') hoperator
    | cons h' hlevel' hrest =>
      have hcons := Joined.cons (hpair h' hlevel') hoperator (hrest.weaken (by decide : 2 ≤ 4))
      show Joined u 2 (operator.combine _ _ :: _) _
      simpa only [List.append_assoc] using hcons
  | @cons level word meaning meanings text text'' h hlevel hrest ih =>
    have hcons := Joined.cons h ((by decide : 2 ≤ 4).trans hlevel) ih
    have hmerge : KeyBindingContextPredicate.merge operator (meaning :: meanings) rights
        = meaning :: KeyBindingContextPredicate.merge operator meanings rights := by
      cases hrest <;> rfl
    rw [hmerge]
    simpa only [List.append_assoc] using hcons

/-- A piece whose texts mean what it says. -/
structure Piece.Sound (u : Alphanumeric) (piece : Piece) : Prop where
  operand : ∃ word, Spells u precedenceNot word piece.operand piece.text
  comparison : ∀ operator name, piece.comparison = some (operator, name) →
    IsIdentifier u name ∧ operator.precedence = 4 ∧ operator ≠ .child

theorem Piece.Sound.spells (h : piece.Sound u) :
    ∃ level word, 4 ≤ level ∧ Spells u level word piece.meaning piece.display := by
  obtain ⟨text, operand, comparison⟩ := piece
  obtain ⟨word, hoperand⟩ := h.operand
  cases comparison with
  | none => exact ⟨precedenceNot, word, by decide, hoperand⟩
  | some comparison =>
    obtain ⟨operator, name⟩ := comparison
    obtain ⟨hname, hprecedence, hchild⟩ := h.comparison operator name rfl
    obtain ⟨word', hname⟩ := hname.spells
    exact ⟨operator.precedence, word', hprecedence.ge, .binary operator (hoperand.blank blank_space) hname
      operator.precedence_lt.le operator.precedence_lt (fun _ => hchild) blank_space⟩

theorem joined_of_sound {ps : List Piece} (hne : ps ≠ []) (hsound : ∀ piece ∈ ps, piece.Sound u) :
    Joined u 4 (ps.map Piece.meaning) (joinPieces ps) := by
  induction ps with
  | nil => exact absurd rfl hne
  | cons piece ps ih =>
    obtain ⟨level, word, hlevel, hspells⟩ := (hsound piece List.mem_cons_self).spells
    cases ps with
    | nil => exact .one hspells hlevel
    | cons piece' ps =>
      exact .cons hspells hlevel (ih (List.cons_ne_nil _ _) fun p hp => hsound p (List.mem_cons_of_mem _ hp))

theorem Piece.Sound.negate (h : piece.Sound u) : piece.negate.Sound u := by
  obtain ⟨word, hoperand⟩ := h.operand
  exact ⟨⟨word, hoperand.not blank_nil⟩, h.comparison⟩

/-- Two predicates with `&&` or `||` between them, in parentheses. -/
theorem spells_group (operator : Operator) (hoperator : 2 ≤ operator.precedence)
    (hoperator' : operator.precedence < 4) (hchild : operator ≠ .child) {left right : KeyBindingContextPredicate}
    (hleft : ∀ piece ∈ left.pieces, piece.Sound u) (hright : ∀ piece ∈ right.pieces, piece.Sound u) :
    ∃ word, Spells u precedenceNot word
      (descend (merge operator (left.pieces.map Piece.meaning) (right.pieces.map Piece.meaning)))
      ('(' :: (left.display ++ [' '] ++ (operator.text ++ ([' '] ++ right.display)) ++ [')'])) := by
  have hmerge := Joined.merge hoperator hoperator' hchild (joined_of_sound left.pieces_ne_nil hleft)
    (joined_of_sound right.pieces_ne_nil hright)
  rw [joinPieces_pieces, joinPieces_pieces] at hmerge
  obtain ⟨level, word, -, hspells⟩ := hmerge.spells
  exact ⟨false, .paren hspells blank_nil blank_nil⟩

theorem pieces_sound (h : predicate.Lexable u) : ∀ piece ∈ predicate.pieces, piece.Sound u := by
  induction predicate with
  | identifier name =>
    intro piece hpiece
    rw [List.mem_singleton.mp hpiece]
    exact ⟨IsIdentifier.spells h, by simp⟩
  | equal left right =>
    intro piece hpiece
    rw [List.mem_singleton.mp hpiece]
    refine ⟨h.1.spells, ?_⟩
    rintro operator name ⟨⟩
    exact ⟨h.2, rfl, by decide⟩
  | notEqual left right =>
    intro piece hpiece
    rw [List.mem_singleton.mp hpiece]
    refine ⟨h.1.spells, ?_⟩
    rintro operator name ⟨⟩
    exact ⟨h.2, rfl, by decide⟩
  | not pred ih =>
    obtain ⟨piece, rest, hpieces⟩ := List.exists_cons_of_ne_nil pred.pieces_ne_nil
    have hsound := ih h
    rw [hpieces] at hsound
    rw [pieces_not hpieces]
    intro other hother
    rcases List.mem_cons.mp hother with rfl | hmem
    · exact (hsound piece List.mem_cons_self).negate
    · exact hsound other (List.mem_cons_of_mem _ hmem)
  | descendant parent child ihparent ihchild =>
    intro piece hpiece
    rcases List.mem_append.mp hpiece with hmem | hmem
    · exact ihparent h.1 piece hmem
    · exact ihchild h.2 piece hmem
  | and left right ihleft ihright =>
    intro piece hpiece
    rw [List.mem_singleton.mp hpiece]
    have hmerge := spells_group .and (by decide) (by decide) (by decide) (ihleft h.1) (ihright h.2)
    refine ⟨?_, by simp⟩
    simpa [display, Operator.text] using hmerge
  | or left right ihleft ihright =>
    intro piece hpiece
    rw [List.mem_singleton.mp hpiece]
    have hmerge := spells_group .or (by decide) (by decide) (by decide) (ihleft h.1) (ihright h.2)
    refine ⟨?_, by simp⟩
    simpa [display, Operator.text] using hmerge

/-- **A displayed predicate is read** as the chain of its pieces. -/
theorem parse_display (h : predicate.Lexable u) : EndsWith (parse u predicate.display) predicate.reread := by
  have hjoined := joined_of_sound predicate.pieces_ne_nil (pieces_sound h)
  obtain ⟨level, word, -, hspells⟩ := (hjoined.weaken (by decide : 2 ≤ 4)).spells
  rw [joinPieces_pieces] at hspells
  exact hspells.parse blank_nil

/-! ### What the parser returns -/

theorem lexable_constructor {left right : KeyBindingContextPredicate}
    (h : operator.constructor left right = .ok predicate) (hleft : left.Lexable u) (hright : right.Lexable u) :
    predicate.Lexable u := by
  cases operator with
  | child =>
    obtain rfl := Except.ok.inj h
    exact ⟨hleft, hright⟩
  | and =>
    obtain rfl := Except.ok.inj h
    exact ⟨hleft, hright⟩
  | or =>
    obtain rfl := Except.ok.inj h
    exact ⟨hleft, hright⟩
  | equal =>
    simp only [Operator.constructor] at h
    split at h
    · obtain rfl := Except.ok.inj h
      exact ⟨hleft, hright⟩
    · cases h
  | notEqual =>
    simp only [Operator.constructor] at h
    split at h
    · obtain rfl := Except.ok.inj h
      exact ⟨hleft, hright⟩
    · cases h

theorem isWord_takeWhile {next : Char} {source : List Char} (h : isIdentifierChar u next = true) :
    IsWord u ((next :: source).takeWhile (isWordChar u)) := by
  have hnext : isWordChar u next = true := Bool.or_eq_true_iff.mpr (.inl h)
  refine ⟨next, source.takeWhile (isWordChar u), List.takeWhile_cons_of_pos hnext, h, fun c hc => ?_⟩
  exact List.mem_takeWhile_imp hc

/-- The predicates that the calls return, by induction on the fuel. -/
theorem lexable_calls (fuel : Nat) :
    (∀ source level predicate rest, parseExpr u fuel source level = some (.ok (predicate, rest)) →
      predicate.Lexable u) ∧
    (∀ left source level predicate rest, left.Lexable u →
      parseLoop u fuel left source level = some (.ok (predicate, rest)) → predicate.Lexable u) ∧
    (∀ source predicate rest, parsePrimary u fuel source = some (.ok (predicate, rest)) → predicate.Lexable u) := by
  induction fuel with
  | zero => exact ⟨nofun, nofun, nofun⟩
  | succ fuel ih =>
    obtain ⟨hexpr, hloop, hprimary⟩ := ih
    refine ⟨fun source level predicate rest h => ?_, fun left source level predicate rest hleft h => ?_,
      fun source predicate rest h => ?_⟩
    · rw [parseExpr] at h
      split at h
      · rename_i first rest' hfirst
        exact hloop _ _ _ _ _ (hprimary _ _ _ hfirst) h
      · exact hprimary _ _ _ h
    · rw [parseLoop] at h
      split at h
      · obtain ⟨rfl, -⟩ := Prod.mk.inj (Except.ok.inj (Option.some.inj h))
        exact hleft
      · split at h
        · rename_i right rest' hright
          split at h
          · rename_i predicate' hconstructor
            exact hloop _ _ _ _ _ (lexable_constructor hconstructor hleft (hexpr _ _ _ _ hright)) h
          · cases h
        · exact hexpr _ _ _ _ h
    · cases source with
      | nil => cases h
      | cons next source =>
        rw [parsePrimary] at h
        split at h
        · split at h
          · rename_i inner rest' hinner
            split at h
            · obtain ⟨rfl, -⟩ := Prod.mk.inj (Except.ok.inj (Option.some.inj h))
              exact hexpr _ _ _ _ hinner
            · cases h
          · exact hexpr _ _ _ _ h
        · split at h
          · split at h
            · rename_i inner rest' hinner
              obtain ⟨rfl, -⟩ := Prod.mk.inj (Except.ok.inj (Option.some.inj h))
              exact hexpr _ _ inner _ hinner
            · exact hexpr _ _ _ _ h
          · split at h
            · rename_i hident
              obtain ⟨rfl, -⟩ := Prod.mk.inj (Except.ok.inj (Option.some.inj h))
              exact .inl (isWord_takeWhile hident)
            · split at h
              · rename_i hvim
                obtain ⟨rfl, -⟩ := Prod.mk.inj (Except.ok.inj (Option.some.inj h))
                exact .inr ⟨next, rfl, hvim⟩
              · cases h

theorem parse_lexable {source : List Char}
    (h : EndsWith (parse u source) (.ok predicate)) : predicate.Lexable u := by
  obtain ⟨fuel, hfuel⟩ := h
  obtain ⟨result, hresult, hmap⟩ := Option.map_eq_some_iff.mp (hfuel fuel le_rfl)
  rcases result with error | ⟨predicate', rest⟩
  · cases hmap
  · cases rest with
    | nil =>
      obtain rfl := Except.ok.inj hmap
      exact (lexable_calls fuel).1 _ _ _ _ hresult
    | cons next rest => cases hmap

/-! ### What survives -/

def isComparison : KeyBindingContextPredicate → Bool
  | equal _ _ | notEqual _ _ => true
  | _ => false

def isDescendant : KeyBindingContextPredicate → Bool
  | descendant _ _ => true
  | _ => false

/-- No `!` stands before a comparison, and no `>` where it needs parentheses. -/
def printable : KeyBindingContextPredicate → Bool
  | identifier _ | equal _ _ | notEqual _ _ => true
  | not pred => pred.printable && !pred.isComparison && !pred.isDescendant
  | descendant parent child => parent.printable && child.printable && !child.isDescendant
  | and left right | or left right =>
    left.printable && right.printable && !left.isDescendant && !right.isDescendant

/-- The number of names and comparisons. -/
def leaves : KeyBindingContextPredicate → Nat
  | identifier _ | equal _ _ | notEqual _ _ => 1
  | not pred => pred.leaves
  | descendant left right | and left right | or left right => left.leaves + right.leaves

theorem leaves_pos (predicate : KeyBindingContextPredicate) : 0 < predicate.leaves := by
  induction predicate with
  | identifier name => exact Nat.one_pos
  | equal left right => exact Nat.one_pos
  | notEqual left right => exact Nat.one_pos
  | not pred ih => exact ih
  | descendant left right ihleft ihright => exact Nat.add_pos_left ihleft _
  | and left right ihleft ihright => exact Nat.add_pos_left ihleft _
  | or left right ihleft ihright => exact Nat.add_pos_left ihleft _

/-- An error has none. -/
def Meaning.leaves : Meaning → Nat
  | .ok predicate => predicate.leaves
  | .error _ => 0

/-- The leaves of a chain. -/
def total (meanings : List Meaning) : Nat := (meanings.map Meaning.leaves).sum

@[simp] theorem total_cons (meaning : Meaning) (meanings : List Meaning) :
    total (meaning :: meanings) = meaning.leaves + total meanings := by simp [total]

@[simp] theorem total_append (meanings meanings' : List Meaning) :
    total (meanings ++ meanings') = total meanings + total meanings' := by simp [total]

theorem leaves_combine (operator : Operator) (left right : Meaning) :
    Meaning.leaves (operator.combine left right) ≤ left.leaves + right.leaves := by
  rcases left with error | left
  · exact Nat.zero_le _
  rcases right with error | right
  · exact Nat.zero_le _
  cases operator with
  | child => exact le_rfl
  | and => exact le_rfl
  | or => exact le_rfl
  | equal =>
    cases left <;> cases right <;> simp [Operator.combine, Operator.constructor, Except.bind, Meaning.leaves, leaves]
  | notEqual =>
    cases left <;> cases right <;> simp [Operator.combine, Operator.constructor, Except.bind, Meaning.leaves, leaves]

theorem leaves_descend (meanings : List Meaning) : (descend meanings).leaves ≤ total meanings := by
  have hfold : ∀ (meanings : List Meaning) (left : Meaning),
      Meaning.leaves (meanings.foldl Operator.child.combine left) ≤ left.leaves + total meanings := by
    intro meanings
    induction meanings with
    | nil => exact fun left => le_rfl
    | cons meaning meanings ih =>
      intro left
      have hleft := leaves_combine .child left meaning
      have hrest := ih (Operator.child.combine left meaning)
      rw [List.foldl_cons, total_cons]
      omega
  cases meanings with
  | nil => exact le_rfl
  | cons meaning meanings => simpa [descend] using hfold meanings meaning

theorem total_merge (operator : Operator) (lefts rights : List Meaning) :
    total (merge operator lefts rights) ≤ total lefts + total rights := by
  induction lefts with
  | nil => simp [merge]
  | cons left lefts ih =>
    cases lefts with
    | nil =>
      cases rights with
      | nil => simp [merge]
      | cons right rights =>
        have hpair := leaves_combine operator left right
        simp only [merge, total_cons]
        omega
    | cons left' lefts =>
      simp only [merge, total_cons] at ih ⊢
      omega

theorem leaves_negate (piece : Piece) : piece.negate.meaning.leaves ≤ piece.meaning.leaves := by
  obtain ⟨text, operand, comparison⟩ := piece
  rcases operand with error | pred
  · rcases comparison with - | ⟨operator, name⟩ <;> exact Nat.zero_le _
  · rcases comparison with - | ⟨operator, name⟩
    · exact le_rfl
    · cases operator with
      | child => exact le_rfl
      | and => exact le_rfl
      | or => exact le_rfl
      | equal => exact Nat.zero_le _
      | notEqual => exact Nat.zero_le _

theorem total_meanings (predicate : KeyBindingContextPredicate) : total predicate.meanings ≤ predicate.leaves := by
  induction predicate with
  | identifier name => exact le_rfl
  | equal left right => exact le_rfl
  | notEqual left right => exact le_rfl
  | not pred ih =>
    obtain ⟨piece, rest, hpieces⟩ := List.exists_cons_of_ne_nil pred.pieces_ne_nil
    have hnegate := leaves_negate piece
    rw [meanings, hpieces, List.map_cons, total_cons] at ih
    rw [meanings, pieces_not hpieces, List.map_cons, total_cons]
    show _ ≤ pred.leaves
    omega
  | descendant parent child ihparent ihchild =>
    rw [meanings, pieces, List.map_append, total_append]
    exact Nat.add_le_add ihparent ihchild
  | and left right ihleft ihright =>
    have hdescend := leaves_descend (merge .and left.meanings right.meanings)
    have hmerge := total_merge .and left.meanings right.meanings
    exact hdescend.trans (hmerge.trans (Nat.add_le_add ihleft ihright))
  | or left right ihleft ihright =>
    have hdescend := leaves_descend (merge .or left.meanings right.meanings)
    have hmerge := total_merge .or left.meanings right.meanings
    exact hdescend.trans (hmerge.trans (Nat.add_le_add ihleft ihright))

theorem combine_ok {left right : Meaning}
    (h : operator.combine left right = .ok predicate) :
    ∃ left' right', left = .ok left' ∧ right = .ok right' ∧ operator.constructor left' right' = .ok predicate := by
  rcases left with error | left
  · cases h
  rcases right with error | right
  · cases h
  exact ⟨left, right, rfl, rfl, h⟩

theorem foldl_ok {meanings : List Meaning} {left : Meaning}
    (h : meanings.foldl Operator.child.combine left = .ok predicate) :
    (∃ left', left = .ok left') ∧ ∀ meaning ∈ meanings, ∃ pred, meaning = .ok pred := by
  induction meanings generalizing left with
  | nil => exact ⟨⟨predicate, h⟩, nofun⟩
  | cons meaning meanings ih =>
    obtain ⟨⟨both, hboth⟩, hrest⟩ := ih h
    obtain ⟨left', right', hleft, hright, -⟩ := combine_ok hboth
    refine ⟨⟨left', hleft⟩, fun other hother => ?_⟩
    rcases List.mem_cons.mp hother with rfl | hmem
    · exact ⟨right', hright⟩
    · exact hrest other hmem

theorem descend_ok {meanings : List Meaning}
    (h : descend meanings = .ok predicate) : ∀ meaning ∈ meanings, ∃ pred, meaning = .ok pred := by
  cases meanings with
  | nil => cases h
  | cons left meanings =>
    obtain ⟨hleft, hrest⟩ := foldl_ok h
    intro meaning hmem
    rcases List.mem_cons.mp hmem with rfl | hmem
    · exact hleft
    · exact hrest meaning hmem

theorem descend_append {meanings : List Meaning} (hne : meanings ≠ []) (last : Meaning) :
    descend (meanings ++ [last]) = Operator.child.combine (descend meanings) last := by
  obtain ⟨left, meanings, rfl⟩ := List.exists_cons_of_ne_nil hne
  simp [descend]

/-- A chain with more than one piece is a descendant. -/
theorem single_of_descend {meanings : List Meaning}
    (h : descend meanings = .ok predicate) (hdescendant : predicate.isDescendant = false) :
    meanings = [.ok predicate] := by
  rcases List.eq_nil_or_concat meanings with rfl | ⟨init, last, rfl⟩
  · cases h
  · by_cases hinit : init = []
    · subst hinit
      exact congrArg (· :: []) h
    · rw [List.concat_eq_append, descend_append hinit] at h
      obtain ⟨parent, child, -, -, hchild⟩ := combine_ok h
      obtain rfl := Except.ok.inj hchild
      cases hdescendant

theorem not_isDescendant_of_single {meaning : Meaning}
    (h : predicate.meanings = [meaning]) : predicate.isDescendant = false := by
  cases predicate with
  | descendant parent child =>
    have hlength := congrArg List.length h
    have hparent := List.length_pos_iff.mpr parent.meanings_ne_nil
    have hchild := List.length_pos_iff.mpr child.meanings_ne_nil
    simp only [meanings, pieces, List.map_append, List.length_append, List.length_singleton] at hlength hparent hchild
    omega
  | _ => rfl

/-- An operator between two chains leaves one piece just when there is one on either side. -/
theorem merge_single {lefts rights : List Meaning} {meaning : Meaning} (hleft : lefts ≠ [])
    (hright : rights ≠ []) (h : merge operator lefts rights = [meaning]) :
    ∃ left right, lefts = [left] ∧ rights = [right] ∧ operator.combine left right = meaning := by
  obtain ⟨left, lefts, rfl⟩ := List.exists_cons_of_ne_nil hleft
  obtain ⟨right, rights, rfl⟩ := List.exists_cons_of_ne_nil hright
  cases lefts with
  | nil =>
    obtain ⟨hmeaning, rfl⟩ := List.cons.inj h
    exact ⟨left, right, rfl, rfl, hmeaning⟩
  | cons left' lefts =>
    cases lefts <;> cases h

/-- A printable predicate is read as itself, and as an operand where it is no comparison. -/
theorem reread_of_printable (h : predicate.printable = true) :
    predicate.reread = .ok predicate ∧
    (predicate.isComparison = false → predicate.isDescendant = false →
      ∃ text, predicate.pieces = [⟨text, .ok predicate, none⟩]) := by
  -- two operands of an operator that are no chains
  have hpair : ∀ {left right : KeyBindingContextPredicate}, left.reread = .ok left → right.reread = .ok right →
      left.isDescendant = false → right.isDescendant = false → ∀ operator, operator.constructor left right =
      descend (merge operator (left.pieces.map Piece.meaning) (right.pieces.map Piece.meaning)) := by
    intro left right hleft hright hl hr operator
    have hl' : left.pieces.map Piece.meaning = [.ok left] := single_of_descend hleft hl
    have hr' : right.pieces.map Piece.meaning = [.ok right] := single_of_descend hright hr
    rw [hl', hr']
    rfl
  induction predicate with
  | identifier name => exact ⟨rfl, fun _ _ => ⟨name, rfl⟩⟩
  | equal left right => exact ⟨rfl, nofun⟩
  | notEqual left right => exact ⟨rfl, nofun⟩
  | not pred ih =>
    simp only [printable, Bool.and_eq_true, Bool.not_eq_true'] at h
    obtain ⟨text, hpieces⟩ := (ih h.1.1).2 h.1.2 h.2
    have hnot : (not pred).pieces = [⟨'!' :: text, .ok (not pred), none⟩] := pieces_not hpieces
    refine ⟨?_, fun _ _ => ⟨_, hnot⟩⟩
    rw [reread, meanings, hnot]
    rfl
  | descendant parent child ihparent ihchild =>
    simp only [printable, Bool.and_eq_true, Bool.not_eq_true'] at h
    refine ⟨?_, fun _ hdescendant => by cases hdescendant⟩
    have hchild := single_of_descend (ihchild h.1.2).1 h.2
    have hparent : descend parent.meanings = .ok parent := (ihparent h.1.1).1
    have hchain : (descendant parent child).meanings = parent.meanings ++ [.ok child] := by
      rw [← hchild, meanings, pieces, List.map_append]
      rfl
    rw [reread, hchain, descend_append parent.meanings_ne_nil, hparent]
    rfl
  | and left right ihleft ihright =>
    simp only [printable, Bool.and_eq_true, Bool.not_eq_true'] at h
    have hand := hpair (ihleft h.1.1.1).1 (ihright h.1.1.2).1 h.1.2 h.2 .and
    have hpieces : (and left right).pieces = [⟨(and left right).display, .ok (and left right), none⟩] := by
      rw [pieces, ← hand]
      rfl
    refine ⟨?_, fun _ _ => ⟨_, hpieces⟩⟩
    rw [reread, meanings, hpieces]
    rfl
  | or left right ihleft ihright =>
    simp only [printable, Bool.and_eq_true, Bool.not_eq_true'] at h
    have hor := hpair (ihleft h.1.1.1).1 (ihright h.1.1.2).1 h.1.2 h.2 .or
    have hpieces : (or left right).pieces = [⟨(or left right).display, .ok (or left right), none⟩] := by
      rw [pieces, ← hor]
      rfl
    refine ⟨?_, fun _ _ => ⟨_, hpieces⟩⟩
    rw [reread, meanings, hpieces]
    rfl

/-- The `!` of a piece that means a negation stands before all of it. -/
theorem operand_of_negate (hsound : piece.Sound u) {pred : KeyBindingContextPredicate}
    (h : piece.negate.meaning = .ok (not pred)) : piece.comparison = none ∧ piece.operand = .ok pred := by
  obtain ⟨text, operand, comparison⟩ := piece
  rcases comparison with - | ⟨operator, name⟩
  · rcases operand with error | pred'
    · cases h
    · cases h
      exact ⟨rfl, rfl⟩
  · exfalso
    obtain ⟨-, hprecedence, -⟩ := hsound.comparison operator name rfl
    rcases operand with error | pred'
    · cases h
    · cases operator with
      | child => cases hprecedence
      | and => cases hprecedence
      | or => cases hprecedence
      | equal => cases h
      | notEqual => cases h

theorem comparison_of_isComparison
    (h : predicate.pieces = [piece]) (hcomparison : piece.comparison = none) :
    predicate.isComparison = false := by
  cases predicate with
  | equal left right =>
    obtain ⟨rfl, -⟩ := List.cons.inj h
    cases hcomparison
  | notEqual left right =>
    obtain ⟨rfl, -⟩ := List.cons.inj h
    cases hcomparison
  | _ => rfl

/-- The last piece of a chain that is read as its last operand is all of the operand. -/
theorem single_of_last {child : KeyBindingContextPredicate} {init : List Meaning}
    (hmeanings : child.meanings = init ++ [.ok child]) (hok : ∀ meaning ∈ init, ∃ pred, meaning = .ok pred) :
    init = [] := by
  have htotal := total_meanings child
  cases init with
  | nil => rfl
  | cons meaning init =>
    obtain ⟨pred, rfl⟩ := hok meaning List.mem_cons_self
    have hpos := pred.leaves_pos
    simp only [hmeanings, total_append, total_cons, Meaning.leaves] at htotal
    omega

theorem printable_of_reread (hlexable : predicate.Lexable u)
    (h : predicate.reread = .ok predicate) : predicate.printable = true := by
  -- an operator that takes all of both operands
  have hpair : ∀ {operator : Operator} {left right predicate : KeyBindingContextPredicate}, operator ≠ .child →
      predicate.isDescendant = false → (∀ left' right', operator.constructor left' right' = .ok predicate →
        left' = left ∧ right' = right) →
      descend [descend (merge operator left.meanings right.meanings)] = .ok predicate →
      left.meanings = [.ok left] ∧ right.meanings = [.ok right] := by
    intro operator left right predicate hchild hdescendant hinj h
    have hmerge : merge operator left.meanings right.meanings = [.ok predicate] := single_of_descend h hdescendant
    obtain ⟨left', right', hleft, hright, hcombine⟩ := merge_single left.meanings_ne_nil right.meanings_ne_nil hmerge
    obtain ⟨l, r, rfl, rfl, hconstructor⟩ := combine_ok hcombine
    obtain ⟨rfl, rfl⟩ := hinj l r hconstructor
    exact ⟨hleft, hright⟩
  have hreread : ∀ {p : KeyBindingContextPredicate}, p.meanings = [.ok p] → p.reread = .ok p := by
    intro p hp
    rw [reread, hp]
    rfl
  induction predicate with
  | identifier name => rfl
  | equal left right => rfl
  | notEqual left right => rfl
  | not pred ih =>
    obtain ⟨piece, rest, hpieces⟩ := List.exists_cons_of_ne_nil pred.pieces_ne_nil
    have hmeanings := single_of_descend h rfl
    rw [meanings, pieces_not hpieces, List.map_cons] at hmeanings
    obtain ⟨hmeaning, hrest⟩ := List.cons.inj hmeanings
    obtain rfl := List.map_eq_nil_iff.mp hrest
    have hmem : piece ∈ pred.pieces := by rw [hpieces]; exact List.mem_cons_self
    obtain ⟨hcomparison, hoperand⟩ := operand_of_negate ((pieces_sound (show pred.Lexable u from hlexable)) piece hmem) hmeaning
    have hsingle : pred.meanings = [.ok pred] := by
      rw [meanings, hpieces, List.map_singleton, Piece.meaning, hcomparison, ← hoperand]
    simp only [printable, Bool.and_eq_true, Bool.not_eq_true']
    exact ⟨⟨ih hlexable (hreread hsingle), comparison_of_isComparison hpieces hcomparison⟩,
      not_isDescendant_of_single hsingle⟩
  | descendant parent child ihparent ihchild =>
    have hchain : (descendant parent child).meanings = parent.meanings ++ child.meanings := by
      rw [meanings, pieces, List.map_append]
      rfl
    rw [reread, hchain] at h
    rcases List.eq_nil_or_concat child.meanings with hnil | ⟨init, last, hinit⟩
    · exact absurd hnil child.meanings_ne_nil
    · rw [List.concat_eq_append] at hinit
      rw [hinit, ← List.append_assoc, descend_append (List.append_ne_nil_of_left_ne_nil parent.meanings_ne_nil _)] at h
      obtain ⟨parent', child', hparent, rfl, hconstructor⟩ := combine_ok h
      cases hconstructor
      have hok := descend_ok hparent
      obtain rfl := single_of_last hinit fun meaning hmem => hok meaning (List.mem_append_right _ hmem)
      rw [List.append_nil] at hparent
      rw [List.nil_append] at hinit
      simp only [printable, Bool.and_eq_true, Bool.not_eq_true']
      exact ⟨⟨ihparent hlexable.1 hparent, ihchild hlexable.2 (hreread hinit)⟩, not_isDescendant_of_single hinit⟩
  | and left right ihleft ihright =>
    have hinj : ∀ left' right', Operator.constructor left' right' .and = .ok (and left right) →
        left' = left ∧ right' = right := by
      rintro left' right' ⟨⟩
      exact ⟨rfl, rfl⟩
    obtain ⟨hleft, hright⟩ := hpair (by decide) rfl hinj h
    simp only [printable, Bool.and_eq_true, Bool.not_eq_true']
    exact ⟨⟨⟨ihleft hlexable.1 (hreread hleft), ihright hlexable.2 (hreread hright)⟩,
      not_isDescendant_of_single hleft⟩, not_isDescendant_of_single hright⟩
  | or left right ihleft ihright =>
    have hinj : ∀ left' right', Operator.constructor left' right' .or = .ok (or left right) →
        left' = left ∧ right' = right := by
      rintro left' right' ⟨⟩
      exact ⟨rfl, rfl⟩
    obtain ⟨hleft, hright⟩ := hpair (by decide) rfl hinj h
    simp only [printable, Bool.and_eq_true, Bool.not_eq_true']
    exact ⟨⟨⟨ihleft hlexable.1 (hreread hleft), ihright hlexable.2 (hreread hright)⟩,
      not_isDescendant_of_single hleft⟩, not_isDescendant_of_single hright⟩

/-- **Printing a predicate and parsing it back gives the same predicate** just when no `!` and no
`>` in it needs parentheses. -/
theorem parse_display_iff {source : List Char} {predicate : KeyBindingContextPredicate}
    (h : EndsWith (parse u source) (.ok predicate)) :
    EndsWith (parse u predicate.display) (.ok predicate) ↔ predicate.printable = true := by
  have hlexable := parse_lexable h
  have hread := parse_display hlexable
  constructor
  · intro hsame
    exact printable_of_reread hlexable (hread.unique hsame)
  · intro hprintable
    rw [(reread_of_printable hprintable).1] at hread
    exact hread

theorem spells_letter {c : Char} (h : isIdentifierChar u c = true) :
    Spells u precedenceNot true (.ok (.identifier [c])) [c] :=
  Spells.word ⟨c, [], rfl, h, nofun⟩ blank_nil

theorem spells_letters (operator : Operator) :
    Spells .ofAscii operator.precedence true (operator.constructor (.identifier ['a']) (.identifier ['b']))
      ("a ".toList ++ (operator.text ++ " b".toList)) :=
  .binary operator ((spells_letter (by decide)).blank blank_space) (spells_letter (by decide))
    operator.precedence_lt.le operator.precedence_lt nofun blank_space

/-- `a && b` is printed with parentheses. -/
theorem parse_display_iff_and :
    EndsWith (parse .ofAscii "(a && b)".toList) (.ok (.and (.identifier ['a']) (.identifier ['b']))) ↔
      (and (.identifier ['a']) (.identifier ['b'])).printable = true := by
  have hparse : EndsWith (parse .ofAscii "a && b".toList) (.ok (.and (.identifier ['a']) (.identifier ['b']))) :=
    (spells_letters .and).parse blank_nil
  exact parse_display_iff hparse

/-- `!(a == b)` -/
theorem parse_notEqual : EndsWith (parse .ofAscii "!(a == b)".toList)
    (.ok (.not (.equal ['a'] ['b']))) := by
  have hparen := Spells.paren (spells_letters .equal) blank_nil blank_nil
  exact (hparen.not blank_nil).parse blank_nil

/-- It is printed without the parentheses, and then a negation is compared. -/
theorem not_parse_display : ¬ ∀ source predicate, EndsWith (parse .ofAscii source) (.ok predicate) →
    EndsWith (parse .ofAscii predicate.display) (.ok predicate) := by
  intro h
  have hsame := h _ _ parse_notEqual
  have hread := parse_display (parse_lexable parse_notEqual)
  cases hread.unique hsame

end KeyBindingContextPredicate

end FcGpui

import FcGpui.Keymap.PredicateGrammar

/-!
# Parentheses and chains

Two kinds of texts that the parser is to read.  In the first every compound predicate is
in parentheses (`Renders`): the predicate is read back.  In the second there are operands with
operators between them: what is read is the tree whose root is the last of the operators that
bind the least, with the trees of the chains on its sides below it (`TreeOf`).

In both an identifier must not run into a `>`, which a word may hold; `gap` says what is to
stand between them.

**Main result.**  `parse_renders_chain`.
-/

namespace FcGpui

namespace KeyBindingContextPredicate

variable {u : Alphanumeric} {level : Nat} {word : Bool} {meaning : Except ParseError KeyBindingContextPredicate}
  {text ws ws' : List Char} {predicate : KeyBindingContextPredicate}

/-! ### Parentheses -/

/-- A name of identifier characters. -/
structure IsName (u : Alphanumeric) (name : SharedString) : Prop where
  ne_nil : name ≠ []
  chars : ∀ c ∈ name, isIdentifierChar u c = true

theorem IsName.isWord {name : SharedString} (h : IsName u name) : IsWord u name := by
  obtain ⟨first, rest, rfl⟩ := List.exists_cons_of_ne_nil h.ne_nil
  refine ⟨first, rest, rfl, h.chars first List.mem_cons_self, fun c hc => ?_⟩
  exact Bool.or_eq_true_iff.mpr (Or.inl (h.chars c (List.mem_cons_of_mem _ hc)))

/-- A text in parentheses, with whitespace inside them. -/
def enclosed (ws text ws' : List Char) : List Char := '(' :: (ws ++ (text ++ ws' ++ [')']))

/-- An operator between two texts, with whitespace on its sides. -/
def joined (operator : Operator) (left ws ws' right : List Char) : List Char :=
  left ++ ws ++ (operator.text ++ (ws' ++ right))

/-- A text of a predicate with every compound predicate in parentheses. -/
inductive Renders (u : Alphanumeric) (gap : List Char → Prop) : KeyBindingContextPredicate → List Char → Prop
  | identifier {name : SharedString} (hname : IsName u name) : Renders u gap (.identifier name) name
  | equal {left right : SharedString} {ws₁ ws₂ ws₃ ws₄ : List Char} (hleft : IsName u left) (hright : IsName u right)
      (h₁ : Blank ws₁) (h₂ : Blank ws₂) (h₃ : Blank ws₃) (h₄ : Blank ws₄) :
      Renders u gap (.equal left right) (enclosed ws₁ (joined .equal left ws₂ ws₃ right) ws₄)
  | notEqual {left right : SharedString} {ws₁ ws₂ ws₃ ws₄ : List Char} (hleft : IsName u left)
      (hright : IsName u right) (h₁ : Blank ws₁) (h₂ : Blank ws₂) (h₃ : Blank ws₃) (h₄ : Blank ws₄) :
      Renders u gap (.notEqual left right) (enclosed ws₁ (joined .notEqual left ws₂ ws₃ right) ws₄)
  | not {pred : KeyBindingContextPredicate} {text ws₁ ws₂ ws₃ : List Char} (h : Renders u gap pred text)
      (h₁ : Blank ws₁) (h₂ : Blank ws₂) (h₃ : Blank ws₃) :
      Renders u gap (.not pred) (enclosed ws₁ ('!' :: (ws₂ ++ text)) ws₃)
  | descendant {parent child : KeyBindingContextPredicate} {left right ws₁ ws₂ ws₃ ws₄ : List Char}
      (hleft : Renders u gap parent left) (hright : Renders u gap child right)
      (h₁ : Blank ws₁) (h₂ : Blank ws₂) (h₃ : Blank ws₃) (h₄ : Blank ws₄)
      (hgap : ∀ name, parent = .identifier name → gap ws₂) :
      Renders u gap (.descendant parent child) (enclosed ws₁ (joined .child left ws₂ ws₃ right) ws₄)
  | and {left right : KeyBindingContextPredicate} {leftText rightText ws₁ ws₂ ws₃ ws₄ : List Char}
      (hleft : Renders u gap left leftText) (hright : Renders u gap right rightText)
      (h₁ : Blank ws₁) (h₂ : Blank ws₂) (h₃ : Blank ws₃) (h₄ : Blank ws₄) :
      Renders u gap (.and left right) (enclosed ws₁ (joined .and leftText ws₂ ws₃ rightText) ws₄)
  | or {left right : KeyBindingContextPredicate} {leftText rightText ws₁ ws₂ ws₃ ws₄ : List Char}
      (hleft : Renders u gap left leftText) (hright : Renders u gap right rightText)
      (h₁ : Blank ws₁) (h₂ : Blank ws₂) (h₃ : Blank ws₃) (h₄ : Blank ws₄) :
      Renders u gap (.or left right) (enclosed ws₁ (joined .or leftText ws₂ ws₃ rightText) ws₄)

theorem Spells.enclosed (h : Spells u level word meaning text) (hws : Blank ws) (hws' : Blank ws') :
    Spells u precedenceNot false meaning (enclosed ws text ws') := .paren (h.blank hws') hws fun _ => nofun

theorem Spells.joined {leftWord rightWord : Bool} {left right : Except ParseError KeyBindingContextPredicate}
    {leftText rightText : List Char} (operator : Operator) (hleft : Spells u precedenceNot leftWord left leftText)
    (hright : Spells u precedenceNot rightWord right rightText) (hws : Blank ws) (hws' : Blank ws')
    (hword : (leftWord && ws.isEmpty) = true → operator ≠ .child) :
    Spells u operator.precedence rightWord (operator.combine left right)
      (joined operator leftText ws ws' rightText) :=
  .binary operator (hleft.blank hws) hright operator.precedence_lt.le operator.precedence_lt hword hws'

theorem Spells.name {name : SharedString} (h : IsName u name) :
    Spells u precedenceNot true (.ok (.identifier name)) name := by
  have hword := Spells.word h.isWord blank_nil
  rwa [List.append_nil] at hword

theorem Renders.spells {gap : List Char → Prop} (hgaps : ∀ ws, gap ws → ws ≠ []) (h : Renders u gap predicate text) :
    ∃ word, Spells u precedenceNot word (.ok predicate) text ∧ (word = true → ∃ name, predicate = .identifier name) := by
  induction h with
  | identifier hname => exact ⟨true, .name hname, fun _ => ⟨_, rfl⟩⟩
  | equal hleft hright h₁ h₂ h₃ h₄ =>
    have hjoined := Spells.joined .equal (.name hleft) (.name hright) h₂ h₃ fun _ => nofun
    exact ⟨false, hjoined.enclosed h₁ h₄, nofun⟩
  | notEqual hleft hright h₁ h₂ h₃ h₄ =>
    have hjoined := Spells.joined .notEqual (.name hleft) (.name hright) h₂ h₃ fun _ => nofun
    exact ⟨false, hjoined.enclosed h₁ h₄, nofun⟩
  | not h h₁ h₂ h₃ ih =>
    obtain ⟨word, hspells, -⟩ := ih
    exact ⟨false, (hspells.not h₂).enclosed h₁ h₃, nofun⟩
  | @descendant parent child left right ws₁ ws₂ ws₃ ws₄ hleft hright h₁ h₂ h₃ h₄ hgap ihleft ihright =>
    obtain ⟨leftWord, hspells, hname⟩ := ihleft
    obtain ⟨rightWord, hspells', -⟩ := ihright
    have hjoined := Spells.joined .child hspells hspells' h₂ h₃ fun hword => by
      obtain ⟨hleftWord, hempty⟩ := Bool.and_eq_true_iff.mp hword
      obtain ⟨name, hparent⟩ := hname hleftWord
      exact absurd (List.isEmpty_iff.mp hempty) (hgaps ws₂ (hgap name hparent))
    exact ⟨false, hjoined.enclosed h₁ h₄, nofun⟩
  | and hleft hright h₁ h₂ h₃ h₄ ihleft ihright =>
    obtain ⟨leftWord, hspells, -⟩ := ihleft
    obtain ⟨rightWord, hspells', -⟩ := ihright
    have hjoined := Spells.joined .and hspells hspells' h₂ h₃ fun _ => nofun
    exact ⟨false, hjoined.enclosed h₁ h₄, nofun⟩
  | or hleft hright h₁ h₂ h₃ h₄ ihleft ihright =>
    obtain ⟨leftWord, hspells, -⟩ := ihleft
    obtain ⟨rightWord, hspells', -⟩ := ihright
    have hjoined := Spells.joined .or hspells hspells' h₂ h₃ fun _ => nofun
    exact ⟨false, hjoined.enclosed h₁ h₄, nofun⟩

/-! ### Chains -/

/-- A text that is an operand. -/
structure Operand (u : Alphanumeric) where
  text : List Char
  word : Bool
  meaning : Except ParseError KeyBindingContextPredicate
  spells : Spells u precedenceNot word meaning text

/-- An operator, with whitespace behind it, and the operand on its right. -/
structure Link (u : Alphanumeric) where
  operator : Operator
  ws : List Char
  blank : Blank ws
  operand : Operand u

/-- The text of a chain. -/
def chainText (first : Operand u) : List (Link u) → List Char
  | [] => first.text
  | link :: links => first.text ++ (link.operator.text ++ (link.ws ++ chainText link.operand links))

/-- No word runs into a `>`. -/
def Spaced (first : Operand u) : List (Link u) → Prop
  | [] => True
  | link :: links => (first.word = true → link.operator ≠ .child) ∧ Spaced link.operand links

/-- The tree of a chain: its root is the last of the operators that bind the least. -/
inductive TreeOf : Operand u → List (Link u) → Except ParseError KeyBindingContextPredicate → Prop
  | operand (operand : Operand u) : TreeOf operand [] operand.meaning
  | split {first : Operand u} {before after : List (Link u)} {link : Link u}
      {left right : Except ParseError KeyBindingContextPredicate}
      (hbefore : ∀ other ∈ before, link.operator.precedence ≤ other.operator.precedence)
      (hafter : ∀ other ∈ after, link.operator.precedence < other.operator.precedence)
      (hleft : TreeOf first before left) (hright : TreeOf link.operand after right) :
      TreeOf first (before ++ link :: after) (link.operator.combine left right)

variable {first : Operand u} {links before after : List (Link u)} {link : Link u}

/-- The last operand. -/
def lastOperand : Operand u → List (Link u) → Operand u
  | first, [] => first
  | _, link :: links => lastOperand link.operand links

theorem lastOperand_append : lastOperand first (before ++ link :: after) = lastOperand link.operand after := by
  induction before generalizing first with
  | nil => rfl
  | cons other before ih => exact ih

theorem chainText_append : chainText first (before ++ link :: after)
    = chainText first before ++ (link.operator.text ++ (link.ws ++ chainText link.operand after)) := by
  induction before generalizing first with
  | nil => rfl
  | cons other before ih =>
    rw [List.cons_append, chainText, chainText, ih]
    simp only [List.append_assoc]

theorem Spaced.append (h : Spaced first (before ++ link :: after)) :
    Spaced first before ∧ ((lastOperand first before).word = true → link.operator ≠ .child) ∧
      Spaced link.operand after := by
  induction before generalizing first with
  | nil => exact ⟨trivial, h.1, h.2⟩
  | cons other before ih =>
    obtain ⟨hbefore, hlink, hafter⟩ := ih h.2
    exact ⟨⟨h.1, hbefore⟩, hlink, hafter⟩

/-- **The text of a chain means its tree.** -/
theorem TreeOf.spells {tree : Except ParseError KeyBindingContextPredicate} (h : TreeOf first links tree)
    (hspaced : Spaced first links) :
    ∃ level, Spells u level (lastOperand first links).word tree (chainText first links) ∧
      ∀ n ≤ precedenceNot, (∀ link ∈ links, n ≤ link.operator.precedence) → n ≤ level := by
  induction h with
  | operand operand => exact ⟨precedenceNot, operand.spells, fun n hn _ => hn⟩
  | @split first before after link left right hbefore hafter hleft hright ihleft ihright =>
    obtain ⟨hspacedbefore, hlink, hspacedafter⟩ := hspaced.append
    obtain ⟨leftLevel, hleftspells, hleftlevel⟩ := ihleft hspacedbefore
    obtain ⟨rightLevel, hrightspells, hrightlevel⟩ := ihright hspacedafter
    refine ⟨link.operator.precedence, ?_, fun n _ hn => hn link (by simp)⟩
    rw [lastOperand_append, chainText_append]
    exact .binary link.operator hleftspells hrightspells (hleftlevel _ link.operator.precedence_lt.le hbefore)
      (hrightlevel _ link.operator.precedence_lt hafter) hlink link.blank

/-- The last of the operators that bind the least. -/
theorem exists_loosest (hne : links ≠ []) :
    ∃ before link after, links = before ++ link :: after ∧
      (∀ other ∈ before, link.operator.precedence ≤ other.operator.precedence) ∧
      ∀ other ∈ after, link.operator.precedence < other.operator.precedence := by
  induction links with
  | nil => exact absurd rfl hne
  | cons head links ih =>
    rcases List.eq_nil_or_concat links with rfl | hconcat
    · exact ⟨[], head, [], rfl, nofun, nofun⟩
    · obtain ⟨before, link, after, rfl, hbefore, hafter⟩ := ih (by rintro rfl; simp at hconcat)
      rcases Nat.lt_or_ge head.operator.precedence link.operator.precedence with hlt | hge
      · refine ⟨[], head, before ++ link :: after, rfl, nofun, fun other hother => ?_⟩
        rcases List.mem_append.mp hother with hmem | hmem
        · exact hlt.trans_le (hbefore other hmem)
        · rcases List.mem_cons.mp hmem with rfl | hmem
          · exact hlt
          · exact hlt.trans (hafter other hmem)
      · refine ⟨head :: before, link, after, rfl, fun other hother => ?_, hafter⟩
        rcases List.mem_cons.mp hother with rfl | hmem
        · exact hge
        · exact hbefore other hmem

theorem exists_treeOf (first : Operand u) (links : List (Link u)) : ∃ tree, TreeOf first links tree := by
  induction hn : links.length using Nat.strong_induction_on generalizing first links with
  | _ n ih =>
    by_cases hne : links = []
    · subst hne
      exact ⟨_, .operand first⟩
    · obtain ⟨before, link, after, rfl, hbefore, hafter⟩ := exists_loosest hne
      rw [List.length_append, List.length_cons] at hn
      obtain ⟨left, hleft⟩ := ih before.length (by omega) first before rfl
      obtain ⟨right, hright⟩ := ih after.length (by omega) link.operand after rfl
      exact ⟨_, .split hbefore hafter hleft hright⟩

/-- **What the parser reads.**  A text with every compound predicate in parentheses is read as its predicate, and
a chain as its only tree, if there is whitespace between a word and a `>` behind it. -/
theorem parse_renders_chain (u : Alphanumeric) :
    (∀ predicate text ws ws', Renders u (· ≠ []) predicate text → Blank ws → Blank ws' →
      EndsWith (parse u (ws ++ (text ++ ws'))) (.ok predicate)) ∧
    ∀ (first : Operand u) (links : List (Link u)) (ws : List Char), Blank ws → Spaced first links →
      ∃ tree, TreeOf first links tree ∧ (∀ tree', TreeOf first links tree' → tree' = tree) ∧
        EndsWith (parse u (ws ++ chainText first links)) tree := by
  constructor
  · intro predicate text ws ws' h hws hws'
    obtain ⟨word, hspells, -⟩ := h.spells fun _ => id
    exact (hspells.blank hws').parse hws
  · intro first links ws hws hspaced
    obtain ⟨tree, htree⟩ := exists_treeOf first links
    have hends : ∀ tree', TreeOf first links tree' → EndsWith (parse u (ws ++ chainText first links)) tree' := by
      intro tree' htree'
      obtain ⟨level, hspells, -⟩ := htree'.spells hspaced
      exact hspells.parse hws
    exact ⟨tree, htree, fun tree' htree' => (hends tree' htree').unique (hends tree htree), hends tree htree⟩

/-! ### A word and a `>` -/

theorem isName_letter {c : Char} (h : isIdentifierChar u c = true) : IsName u [c] :=
  ⟨List.cons_ne_nil _ _, fun d hd => by rwa [List.mem_singleton.mp hd]⟩

/-- `(a>b)`, without whitespace. -/
def wordAndChild : List Char := enclosed [] (joined .child ['a'] [] [] ['b']) []

theorem renders_wordAndChild : Renders .ofAscii (fun _ => True) (.descendant (.identifier ['a']) (.identifier ['b']))
    wordAndChild :=
  .descendant (.identifier (isName_letter (by decide))) (.identifier (isName_letter (by decide))) blank_nil blank_nil
    blank_nil blank_nil fun _ _ => trivial

theorem parse_wordAndChild : EndsWith (parse .ofAscii wordAndChild) (.ok (.identifier ['a', '>', 'b'])) := by
  have hword : IsWord .ofAscii ['a', '>', 'b'] := by
    refine ⟨'a', ['>', 'b'], rfl, by decide, fun c hc => ?_⟩
    rcases List.mem_pair.mp hc with rfl | rfl <;> decide
  have hspells : Spells .ofAscii precedenceNot false (.ok (.identifier ['a', '>', 'b'])) wordAndChild :=
    (Spells.word hword blank_nil).enclosed blank_nil blank_nil
  exact hspells.parse blank_nil

theorem not_parse_renders : ¬ ∀ predicate text, Renders .ofAscii (fun _ => True) predicate text →
    EndsWith (parse .ofAscii text) (.ok predicate) := by
  intro h
  have hdescendant := h _ _ renders_wordAndChild
  have heq := Except.ok.inj (hdescendant.unique parse_wordAndChild)
  cases heq

/-- A letter as an operand. -/
def letter (c : Char) (h : isIdentifierChar .ofAscii c = true) : Operand .ofAscii where
  text := [c]
  word := true
  meaning := .ok (.identifier [c])
  spells := .name (isName_letter h)

/-- `||b&&c` -/
def twoLinks : List (Link .ofAscii) :=
  [⟨.or, [], blank_nil, letter 'b' (by decide)⟩, ⟨.and, [], blank_nil, letter 'c' (by decide)⟩]

theorem parse_renders_chain_letters :
    EndsWith (parse .ofAscii ([] ++ (enclosed [] (joined .child ['a'] [' '] [] ['b']) [] ++ [])))
        (.ok (.descendant (.identifier ['a']) (.identifier ['b']))) ∧
      ∃ tree, TreeOf (letter 'a' (by decide)) twoLinks tree ∧
        (∀ tree', TreeOf (letter 'a' (by decide)) twoLinks tree' → tree' = tree) ∧
        EndsWith (parse .ofAscii ([] ++ chainText (letter 'a' (by decide)) twoLinks)) tree := by
  exact ⟨(parse_renders_chain .ofAscii).1 _ _ [] []
      (.descendant (.identifier (isName_letter (by decide))) (.identifier (isName_letter (by decide))) blank_nil
        blank_space blank_nil blank_nil fun _ _ => List.cons_ne_nil _ _) blank_nil blank_nil,
    (parse_renders_chain .ofAscii).2 (letter 'a' (by decide)) twoLinks [] blank_nil ⟨nofun, nofun, trivial⟩⟩

end KeyBindingContextPredicate

end FcGpui

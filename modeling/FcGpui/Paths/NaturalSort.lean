import FcGpui.Lib.FirstDifference

/-!
# Natural sort

`naturalSort` goes through two strings at once.  Where both have a digit it compares the runs of
digits there, and everywhere else it compares characters.  Two runs are compared by one of three
rules: as texts if they are as long, as numbers if both fit in an `u128`, and as texts otherwise.

`naturalSort_eq`: it is the comparison of two lists of *tokens*, the runs of digits and the other
characters, at their first difference.
-/

namespace FcGpui

/-- `str::cmp`: the bytes of UTF-8 are in the order of the characters. -/
def strCmp (a b : List Char) : Ordering := a.compareLex compare b

instance : Std.TransCmp strCmp := inferInstanceAs (Std.TransCmp (List.compareLex compare))

instance : Std.LawfulEqCmp strCmp := inferInstanceAs (Std.LawfulEqCmp (List.compareLex compare))

def compareChars (a b : Char) : Ordering :=
  match compare a.toLower b.toLower with
  | .eq =>
    match a.isLower, b.isLower with
    | true, false => .lt
    | false, true => .gt
    | _, _ => .eq
  | other => other

def digitVal (c : Char) : Nat := c.toNat - '0'.toNat

/-- The number that a run of digits stands for. -/
def numericValue : List Char → Nat
  | [] => 0
  | c :: digits => digitVal c * 10 ^ digits.length + numericValue digits

def u128Max : Nat := 2 ^ 128 - 1

/-- `str::parse::<u128>`, of a text that is digits only. -/
def parseU128 (digits : List Char) : Option Nat :=
  if digits = [] then none else if numericValue digits ≤ u128Max then some (numericValue digits) else none

/-- What `compare_numeric_segments` makes of the digits it has collected. -/
def compareNumStrs (aNumStr bNumStr : List Char) : Ordering :=
  match compare aNumStr.length bNumStr.length with
  | .eq => strCmp aNumStr bNumStr
  | ordering =>
    match parseU128 aNumStr, parseU128 bNumStr with
    | some aVal, some bVal =>
      match compare aVal bVal with
      -- the same number: the one with more leading zeros is the greater
      | .eq => ordering
      | ord => ord
    | _, _ => strCmp aNumStr bNumStr

/-- The result, and what is left of both. -/
def compareNumericSegments (a b : List Char) : Ordering × List Char × List Char :=
  (compareNumStrs (a.takeWhile Char.isDigit) (b.takeWhile Char.isDigit),
    a.dropWhile Char.isDigit, b.dropWhile Char.isDigit)

def naturalSortLoop : Nat → List Char → List Char → Ordering
  | 0, _, _ => .eq
  | _ + 1, [], [] => .eq
  | _ + 1, [], _ :: _ => .lt
  | _ + 1, _ :: _, [] => .gt
  | fuel + 1, aChar :: a, bChar :: b =>
    if aChar.isDigit && bChar.isDigit then
      match compareNumericSegments (aChar :: a) (bChar :: b) with
      | (.eq, a, b) => naturalSortLoop fuel a b
      | (ordering, _, _) => ordering
    else
      match compareChars aChar bChar with
      | .eq => naturalSortLoop fuel a b
      | ordering => ordering

/-- Every round takes a character of `a`, so that there are no more than characters. -/
def naturalSort (a b : List Char) : Ordering := naturalSortLoop (a.length + 1) a b

/-! ### Characters -/

/-- What characters are compared by: the letter, and behind the lowercase letter the other. -/
def charKey (c : Char) : Nat := if c.isLower then 2 * c.toLower.toNat else 2 * c.toLower.toNat + 1

theorem compare_char (a b : Char) : compare a b = compare a.toNat b.toNat := by
  have hlt : a < b ↔ a.toNat < b.toNat := Iff.rfl
  have heq : a = b ↔ a.toNat = b.toNat := Char.toNat_inj.symm
  show compareOfLessAndEq a b = compareOfLessAndEq a.toNat b.toNat
  simp only [compareOfLessAndEq, hlt, heq]

theorem compareChars_eq (a b : Char) : compareChars a b = compare (charKey a) (charKey b) := by
  unfold compareChars charKey
  rw [compare_char]
  rcases Nat.lt_trichotomy a.toLower.toNat b.toLower.toNat with h | h | h
  · rw [Nat.compare_eq_lt.mpr h, Nat.compare_eq_lt.mpr]
    split_ifs <;> omega
  · rw [Nat.compare_eq_eq.mpr h, h]
    cases a.isLower <;> cases b.isLower <;> simp [Nat.compare_eq_lt.mpr, Nat.compare_eq_gt.mpr]
  · rw [Nat.compare_eq_gt.mpr h, Nat.compare_eq_gt.mpr]
    split_ifs <;> omega

theorem isUpper_iff (c : Char) : c.isUpper = true ↔ 65 ≤ c.toNat ∧ c.toNat ≤ 90 := by
  rw [Char.isUpper, decide_eq_true_iff]
  exact Iff.rfl

theorem isLower_iff (c : Char) : c.isLower = true ↔ 97 ≤ c.toNat ∧ c.toNat ≤ 122 := by
  rw [Char.isLower, Bool.and_eq_true, decide_eq_true_iff, decide_eq_true_iff]
  exact Iff.rfl

theorem isDigit_iff (c : Char) : c.isDigit = true ↔ 48 ≤ c.toNat ∧ c.toNat ≤ 57 := by
  rw [Char.isDigit, Bool.and_eq_true, decide_eq_true_iff, decide_eq_true_iff]
  exact Iff.rfl

theorem toNat_toLower (c : Char) :
    c.toLower.toNat = if 65 ≤ c.toNat ∧ c.toNat ≤ 90 then c.toNat + 32 else c.toNat := by
  by_cases h : c.isUpper
  · have hc := (isUpper_iff c).mp h
    rw [Char.toLower_eq_of_isUpper h, if_pos hc, Char.toNat_ofNat, if_pos]
    exact Or.inl (by omega)
  · rw [Char.toLower_eq_of_not_isUpper h, if_neg (fun hc => h ((isUpper_iff c).mpr hc))]

theorem charKey_injective : Function.Injective charKey := by
  intro a b h
  have ha := isLower_iff a
  have hb := isLower_iff b
  unfold charKey at h
  rw [toNat_toLower, toNat_toLower] at h
  apply Char.toNat_inj.mp
  grind

variable {c : Char} {x y : List Char}

theorem compareChars_digit {d e : Char} (hc : c.isDigit = true) (hd : d.isDigit = true)
    (he : e.isDigit = false) : compareChars c e = compareChars d e ∧ compareChars c e ≠ .eq := by
  have hc' := (isDigit_iff c).mp hc
  have hd' := (isDigit_iff d).mp hd
  have he' := mt (isDigit_iff e).mpr (by rw [he]; exact Bool.false_ne_true)
  have hkey : ∀ d : Char, 48 ≤ d.toNat ∧ d.toNat ≤ 57 → charKey d = 2 * d.toNat + 1 := by
    intro d hd
    have hlower := isLower_iff d
    unfold charKey
    rw [toNat_toLower]
    grind
  have hfar : charKey e < 2 * 48 + 1 ∨ 2 * 57 + 1 < charKey e := by
    have hlower := isLower_iff e
    unfold charKey
    rw [toNat_toLower]
    grind
  rw [compareChars_eq, compareChars_eq, hkey c hc', hkey d hd']
  rcases hfar with hfar | hfar
  · rw [Nat.compare_eq_gt.mpr (by omega), Nat.compare_eq_gt.mpr (by omega)]
    exact ⟨rfl, by decide⟩
  · rw [Nat.compare_eq_lt.mpr (by omega), Nat.compare_eq_lt.mpr (by omega)]
    exact ⟨rfl, by decide⟩

/-! ### Runs of digits -/

/-- A run of digits. -/
def IsRun (text : List Char) : Prop := text ≠ [] ∧ ∀ c ∈ text, c.isDigit = true

instance : DecidablePred IsRun := fun text =>
  inferInstanceAs (Decidable (text ≠ [] ∧ ∀ c ∈ text, c.isDigit = true))

theorem digitVal_lt (h : c.isDigit = true) : digitVal c < 10 := by
  have hc := (isDigit_iff c).mp h
  have hzero : '0'.toNat = 48 := rfl
  unfold digitVal
  omega

theorem compare_digitVal {d : Char} (hc : c.isDigit = true) (hd : d.isDigit = true) :
    compare c d = compare (digitVal c) (digitVal d) := by
  have hc' := (isDigit_iff c).mp hc
  have hd' := (isDigit_iff d).mp hd
  have hzero : '0'.toNat = 48 := rfl
  rw [compare_char]
  unfold digitVal
  grind [Nat.compare_eq_ite_lt]

theorem numericValue_lt {text : List Char} (h : ∀ c ∈ text, c.isDigit = true) :
    numericValue text < 10 ^ text.length := by
  induction text with
  | nil => exact Nat.one_pos
  | cons c text ih =>
    obtain ⟨hc, htext⟩ := List.forall_mem_cons.mp h
    have hdigit := digitVal_lt hc
    have hrest := ih htext
    rw [numericValue, List.length_cons, pow_succ]
    nlinarith

/-- Of two texts that are as long, the greater is the greater number. -/
theorem strCmp_of_length_eq (hx : ∀ c ∈ x, c.isDigit = true)
    (hy : ∀ c ∈ y, c.isDigit = true) (hlen : x.length = y.length) :
    strCmp x y = compare (numericValue x) (numericValue y) := by
  induction x generalizing y with
  | nil =>
    cases y with
    | nil => rfl
    | cons d y => cases hlen
  | cons c x ih =>
    cases y with
    | nil => cases hlen
    | cons d y =>
      obtain ⟨hc, hx⟩ := List.forall_mem_cons.mp hx
      obtain ⟨hd, hy⟩ := List.forall_mem_cons.mp hy
      have hlen : x.length = y.length := Nat.succ.inj hlen
      have hltx := numericValue_lt hx
      have hlty := numericValue_lt hy
      have hrest := ih hx hy hlen
      unfold strCmp at hrest ⊢
      rw [List.compareLex_cons_cons, hrest, compare_digitVal hc hd, numericValue, numericValue, hlen]
      rw [hlen] at hltx
      rcases Nat.lt_trichotomy (digitVal c) (digitVal d) with h | h | h
      · rw [Nat.compare_eq_lt.mpr h, Ordering.lt_then]
        symm
        rw [Nat.compare_eq_lt]
        nlinarith
      · rw [Nat.compare_eq_eq.mpr h, Ordering.eq_then, h]
        simp only [Nat.compare_eq_ite_lt]
        grind
      · rw [Nat.compare_eq_gt.mpr h, Ordering.gt_then]
        symm
        rw [Nat.compare_eq_gt]
        nlinarith

theorem parseU128_of_le {text : List Char} (h : IsRun text) (hle : numericValue text ≤ u128Max) :
    parseU128 text = some (numericValue text) := by
  rw [parseU128, if_neg h.1, if_pos hle]

theorem parseU128_of_lt {text : List Char} (h : IsRun text) (hlt : u128Max < numericValue text) :
    parseU128 text = none := by
  rw [parseU128, if_neg h.1, if_neg (Nat.not_le.mpr hlt)]

/-- **Which rule is taken**: texts that are as long are compared as texts, numbers that fit as
numbers, and the rest as texts again. -/
theorem compareNumStrs_eq (hx : IsRun x) (hy : IsRun y) :
    compareNumStrs x y =
      if x.length ≠ y.length ∧ numericValue x ≤ u128Max ∧ numericValue y ≤ u128Max then
        (compare (numericValue x) (numericValue y)).then (compare x.length y.length)
      else strCmp x y := by
  unfold compareNumStrs
  by_cases hfit : numericValue x ≤ u128Max ∧ numericValue y ≤ u128Max
  · rw [parseU128_of_le hx hfit.1, parseU128_of_le hy hfit.2]
    cases hlen : compare x.length y.length with
    | eq =>
      rw [Nat.compare_eq_eq] at hlen
      exact (if_neg (fun h => h.1 hlen)).symm
    | lt =>
      rw [if_pos ⟨(Nat.compare_eq_lt.mp hlen).ne, hfit⟩]
      dsimp only
      cases compare (numericValue x) (numericValue y) <;> rfl
    | gt =>
      rw [if_pos ⟨(Nat.compare_eq_gt.mp hlen).ne', hfit⟩]
      dsimp only
      cases compare (numericValue x) (numericValue y) <;> rfl
  · have hnone : parseU128 x = none ∨ parseU128 y = none := by
      by_cases hle : numericValue x ≤ u128Max
      · exact Or.inr (parseU128_of_lt hy (Nat.lt_of_not_le fun h => hfit ⟨hle, h⟩))
      · exact Or.inl (parseU128_of_lt hx (Nat.lt_of_not_le hle))
    rw [if_neg (fun h => hfit h.2)]
    rcases hnone with hnone | hnone
    · rw [hnone]
      cases compare x.length y.length <;> rfl
    · rw [hnone]
      cases compare x.length y.length <;> cases parseU128 x <;> rfl

theorem compareNumStrs_swap (hx : IsRun x) (hy : IsRun y) : compareNumStrs x y = (compareNumStrs y x).swap := by
  rw [compareNumStrs_eq hx hy, compareNumStrs_eq hy hx]
  by_cases h : x.length ≠ y.length ∧ numericValue x ≤ u128Max ∧ numericValue y ≤ u128Max
  · rw [if_pos h, if_pos ⟨h.1.symm, h.2.2, h.2.1⟩, Ordering.swap_then, Nat.compare_swap,
      Nat.compare_swap]
  · rw [if_neg h, if_neg (fun h' => h ⟨h'.1.symm, h'.2.2, h'.2.1⟩)]
    exact Std.OrientedCmp.eq_swap

theorem eq_of_compareNumStrs (hx : IsRun x) (hy : IsRun y) (h : compareNumStrs x y = .eq) : x = y := by
  rw [compareNumStrs_eq hx hy] at h
  split_ifs at h with hrule
  · rw [Ordering.then_eq_eq, Nat.compare_eq_eq, Nat.compare_eq_eq] at h
    exact absurd h.2 hrule.1
  · exact Std.LawfulEqCmp.eq_of_compare h

/-! ### Tokens -/

/-- What the loop takes at once. -/
inductive Token
  | run (text : List Char) (isRun : IsRun text)
  | char (c : Char) (notDigit : c.isDigit = false)
deriving DecidableEq

def Token.text : Token → List Char
  | .run text _ => text
  | .char c _ => [c]

theorem isRun_single (h : c.isDigit = true) : IsRun [c] :=
  ⟨List.cons_ne_nil _ _, fun _ hd => by rw [List.mem_singleton.mp hd]; exact h⟩

theorem IsRun.cons {text : List Char} (hc : c.isDigit = true) (h : IsRun text) : IsRun (c :: text) :=
  ⟨List.cons_ne_nil _ _, List.forall_mem_cons.mpr ⟨hc, h.2⟩⟩

def pushChar (c : Char) (tokens : List Token) : List Token :=
  if h : c.isDigit = true then
    match tokens with
    | .run text isRun :: tokens => .run (c :: text) (isRun.cons h) :: tokens
    | tokens => .run [c] (isRun_single h) :: tokens
  else .char c (Bool.eq_false_iff.mpr h) :: tokens

def tokens (s : List Char) : List Token := s.foldr pushChar []

def compareTokens : Token → Token → Ordering
  | .run x _, .run y _ => compareNumStrs x y
  | .run x isRun, .char c _ => compareChars (x.head isRun.1) c
  | .char c _, .run y isRun => compareChars c (y.head isRun.1)
  | .char c _, .char d _ => compareChars c d

theorem compareChars_swap (a b : Char) : compareChars a b = (compareChars b a).swap := by
  rw [compareChars_eq, compareChars_eq, Nat.compare_swap]

theorem eq_of_compareChars {a b : Char} (h : compareChars a b = .eq) : a = b := by
  rw [compareChars_eq, Nat.compare_eq_eq] at h
  exact charKey_injective h

instance : Std.OrientedCmp compareTokens where
  eq_swap := by
    intro s t
    cases s with
    | run x hx =>
      cases t with
      | run y hy => exact compareNumStrs_swap hx hy
      | char d hd => exact compareChars_swap _ _
    | char c hc =>
      cases t with
      | run y hy => exact compareChars_swap _ _
      | char d hd => exact compareChars_swap _ _

theorem IsRun.head {text : List Char} (h : IsRun text) : (text.head h.1).isDigit = true :=
  h.2 _ (List.head_mem h.1)

theorem compareTokens_run_char (hx : IsRun x) (hy : IsRun y) (hc : c.isDigit = false) :
    compareTokens (.run x hx) (.char c hc) = compareTokens (.run y hy) (.char c hc) ∧
      compareTokens (.run x hx) (.char c hc) ≠ .eq :=
  compareChars_digit hx.head hy.head hc

instance : Std.LawfulEqCmp compareTokens where
  eq_of_compare := by
    intro s t h
    cases s with
    | run x hx =>
      cases t with
      | run y hy =>
        obtain rfl := eq_of_compareNumStrs hx hy h
        rfl
      | char d hd => exact absurd h (compareTokens_run_char hx hx hd).2
    | char c hc =>
      cases t with
      | run y hy =>
        have hswap : compareTokens (.run y hy) (.char c hc) =
            (compareTokens (.char c hc) (.run y hy)).swap := Std.OrientedCmp.eq_swap
        rw [h] at hswap
        exact absurd hswap (compareTokens_run_char hy hy hc).2
      | char d hd =>
        obtain rfl := eq_of_compareChars h
        rfl

/-! ### The loop -/

@[simp] theorem tokens_nil : tokens [] = [] := rfl

theorem tokens_cons_char (h : c.isDigit = false) (s : List Char) : tokens (c :: s) = .char c h :: tokens s := by
  show pushChar c (tokens s) = _
  rw [pushChar, dif_neg (Bool.eq_false_iff.mp h)]

theorem isRun_takeWhile (h : c.isDigit = true) (s : List Char) : IsRun (c :: s.takeWhile Char.isDigit) :=
  ⟨List.cons_ne_nil _ _, List.forall_mem_cons.mpr ⟨h, fun _ hd => List.mem_takeWhile_imp hd⟩⟩

/-- **A run is taken whole.** -/
theorem tokens_cons_digit (h : c.isDigit = true) (s : List Char) :
    tokens (c :: s) =
      .run (c :: s.takeWhile Char.isDigit) (isRun_takeWhile h s) :: tokens (s.dropWhile Char.isDigit) := by
  induction s generalizing c with
  | nil =>
    show pushChar c [] = _
    rw [pushChar, dif_pos h]
    rfl
  | cons d s ih =>
    show pushChar c (tokens (d :: s)) = _
    rw [pushChar, dif_pos h]
    by_cases hd : d.isDigit = true
    · simp only [ih hd, List.takeWhile_cons_of_pos hd, List.dropWhile_cons_of_pos hd]
    · have hd' := Bool.eq_false_iff.mpr hd
      simp only [tokens_cons_char hd', List.takeWhile_cons_of_neg hd, List.dropWhile_cons_of_neg hd]

theorem tokens_ne_nil (c : Char) (s : List Char) : tokens (c :: s) ≠ [] := by
  by_cases hc : c.isDigit = true
  · rw [tokens_cons_digit hc]
    exact List.cons_ne_nil _ _
  · rw [tokens_cons_char (Bool.eq_false_iff.mpr hc)]
    exact List.cons_ne_nil _ _

theorem naturalSortLoop_eq (fuel : Nat) : ∀ a b : List Char, a.length < fuel →
    naturalSortLoop fuel a b = (tokens a).compareLex compareTokens (tokens b) := by
  induction fuel with
  | zero => exact fun a b h => absurd h (Nat.not_lt_zero _)
  | succ fuel ih =>
    intro a b hfuel
    cases a with
    | nil =>
      cases b with
      | nil => rfl
      | cons d b =>
        cases h : tokens (d :: b) with
        | nil => exact absurd h (tokens_ne_nil d b)
        | cons t ts => rfl
    | cons c a =>
      cases b with
      | nil =>
        cases h : tokens (c :: a) with
        | nil => exact absurd h (tokens_ne_nil c a)
        | cons t ts => rfl
      | cons d b =>
        have ha : a.length < fuel := Nat.lt_of_succ_lt_succ hfuel
        have hdrop : (a.dropWhile Char.isDigit).length < fuel :=
          Nat.lt_of_le_of_lt (List.length_dropWhile_le _ _) ha
        rw [naturalSortLoop]
        by_cases hc : c.isDigit = true
        · rw [tokens_cons_digit hc]
          by_cases hd : d.isDigit = true
          · rw [tokens_cons_digit hd, hc, hd, List.compareLex_cons_cons, ← ih _ _ hdrop]
            simp only [Bool.and_self, if_true, compareNumericSegments, List.takeWhile_cons_of_pos hc,
              List.takeWhile_cons_of_pos hd, List.dropWhile_cons_of_pos hc,
              List.dropWhile_cons_of_pos hd, compareTokens]
            cases compareNumStrs (c :: a.takeWhile Char.isDigit) (d :: b.takeWhile Char.isDigit) <;> rfl
          · -- a digit and another character: the characters decide
            have hd' := Bool.eq_false_iff.mpr hd
            have hne := (compareTokens_run_char (isRun_takeWhile hc a) (isRun_takeWhile hc a) hd').2
            rw [tokens_cons_char hd', hc, hd', List.compareLex_cons_cons]
            simp only [compareTokens, List.head_cons] at hne ⊢
            cases hcmp : compareChars c d with
            | eq => exact absurd hcmp hne
            | lt => rfl
            | gt => rfl
        · have hc' := Bool.eq_false_iff.mpr hc
          rw [tokens_cons_char hc', hc']
          by_cases hd : d.isDigit = true
          · have hne := (compareChars_digit hd hd hc').2
            rw [tokens_cons_digit hd, List.compareLex_cons_cons]
            rw [compareChars_swap] at hne
            simp only [compareTokens, List.head_cons]
            cases hcmp : compareChars c d with
            | eq =>
              rw [hcmp] at hne
              exact absurd rfl hne
            | lt => rfl
            | gt => rfl
          · rw [tokens_cons_char (Bool.eq_false_iff.mpr hd), List.compareLex_cons_cons, ← ih a b ha]
            simp only [compareTokens]
            cases compareChars c d <;> rfl

/-- **The comparison is that of the tokens**, at their first difference. -/
theorem naturalSort_eq (a b : List Char) :
    naturalSort a b = (tokens a).compareLex compareTokens (tokens b) :=
  naturalSortLoop_eq _ a b (Nat.lt_succ_self _)

theorem flatMap_text_tokens (s : List Char) : (tokens s).flatMap Token.text = s := by
  induction s with
  | nil => rfl
  | cons c s ih =>
    show (pushChar c (tokens s)).flatMap Token.text = c :: s
    unfold pushChar
    split_ifs with hc
    · cases htokens : tokens s with
      | nil =>
        rw [htokens] at ih
        rw [← ih]
        rfl
      | cons t ts =>
        rw [htokens] at ih
        cases t with
        | run text isRun =>
          rw [← ih]
          rfl
        | char d hd =>
          rw [← ih]
          rfl
    · rw [List.flatMap_cons, ih]
      rfl

theorem tokens_injective : Function.Injective tokens := by
  intro a b h
  rw [← flatMap_text_tokens a, h, flatMap_text_tokens]

theorem naturalSort_swap (a b : List Char) : naturalSort b a = (naturalSort a b).swap := by
  rw [naturalSort_eq, naturalSort_eq]
  exact Std.OrientedCmp.eq_swap

theorem eq_of_naturalSort {a b : List Char} (h : naturalSort a b = .eq) : a = b := by
  rw [naturalSort_eq] at h
  exact tokens_injective (Std.LawfulEqCmp.eq_of_compare h)

theorem naturalSort_self (a : List Char) : naturalSort a a = .eq := by
  rw [naturalSort_eq]
  exact Std.ReflCmp.compare_self

end FcGpui

import FcGpui.Paths.NaturalSort

/-!
# When natural sort is an order by value

Two runs of digits that do not both fit in an `u128` are compared as texts, also if they are not
as long: of a number and a longer one the longer may then come first.  Such strings are *misread*.

* `compareNumStrs_of_read`: runs that are not misread are compared by value, and then by how many
  zeros they begin with.
* `read_of_cycle`: only runs that are misread can go round in a circle.
* `ordersByValue_iff`: **strings are in an order by value if and only if no two of them are
  misread.**
-/

namespace FcGpui

/-- `text` is a maximal run of digits of `s`, between `front` and `rest`. -/
structure RunAt (s front text rest : List Char) : Prop where
  eq : s = front ++ (text ++ rest)
  isRun : IsRun text
  before : ∀ c ∈ front.getLast?, c.isDigit = false
  after : ∀ c ∈ rest.head?, c.isDigit = false

/-- Strings on which `naturalSort` is a total order by value. -/
structure OrdersByValue (strings : Set (List Char)) : Prop where
  swap : ∀ a ∈ strings, ∀ b ∈ strings, naturalSort b a = (naturalSort a b).swap
  trans : ∀ a ∈ strings, ∀ b ∈ strings, ∀ c ∈ strings,
    naturalSort a b ≠ .gt → naturalSort b c ≠ .gt → naturalSort a c ≠ .gt
  eq_of_equal : ∀ a ∈ strings, ∀ b ∈ strings, naturalSort a b = .eq → a = b
  /-- At the first place where runs of digits have different values, the values decide. -/
  byValue : ∀ a ∈ strings, ∀ b ∈ strings, ∀ front x y restA restB, RunAt a front x restA →
    RunAt b front y restB → numericValue x ≠ numericValue y →
      naturalSort a b = compare (numericValue x) (numericValue y)

/-- `y` is the greater number and does not fit in an `u128`, and `x` is the greater text. -/
def MisreadRuns (x y : List Char) : Prop :=
  numericValue x < numericValue y ∧ u128Max < numericValue y ∧ strCmp x y = .gt

/-- The strings have such runs behind a common beginning. -/
def Misread (a b : List Char) : Prop :=
  ∃ front x y restA restB, RunAt a front x restA ∧ RunAt b front y restB ∧ MisreadRuns x y

/-! ### Runs -/

variable {x y rest front : List Char}

theorem MisreadRuns.compareNumStrs_eq (h : MisreadRuns x y) (hx : IsRun x)
    (hy : IsRun y) : compareNumStrs x y = .gt := by
  obtain ⟨_, hbig, htext⟩ := h
  rw [FcGpui.compareNumStrs_eq hx hy, if_neg (fun hrule => Nat.not_le.mpr hbig hrule.2.2), htext]

/-- Numbers that fit are compared as numbers, and of the same number by the zeros in front: those
that fit by the length, and the others as texts. -/
theorem compareNumStrs_of_read (hx : IsRun x) (hy : IsRun y)
    (hxy : ¬ MisreadRuns x y) (hyx : ¬ MisreadRuns y x) :
    compareNumStrs x y = (compare (numericValue x) (numericValue y)).then
      (if numericValue x ≤ u128Max then compare x.length y.length else strCmp x y) := by
  rw [compareNumStrs_eq hx hy]
  by_cases hlen : x.length = y.length
  · -- as long: the text is in the order of the numbers
    rw [if_neg (fun h => h.1 hlen), strCmp_of_length_eq hx.2 hy.2 hlen, Nat.compare_eq_eq.mpr hlen]
    split_ifs
    · rw [Ordering.then_eq]
    · rw [Ordering.then_self]
  · by_cases hfit : numericValue x ≤ u128Max ∧ numericValue y ≤ u128Max
    · rw [if_pos ⟨hlen, hfit⟩, if_pos hfit.1]
    · rw [if_neg (fun h => hfit h.2)]
      have hswap : strCmp y x = (strCmp x y).swap := Std.OrientedCmp.eq_swap
      have hne : strCmp x y ≠ .eq := fun h => hlen (congrArg _ (Std.LawfulEqCmp.eq_of_compare h))
      rcases Nat.lt_trichotomy (numericValue x) (numericValue y) with h | h | h
      · rw [Nat.compare_eq_lt.mpr h, Ordering.lt_then]
        cases htext : strCmp x y with
        | lt => rfl
        | eq => exact absurd htext hne
        | gt => exact absurd ⟨h, by omega, htext⟩ hxy
      · rw [Nat.compare_eq_eq.mpr h, Ordering.eq_then, if_neg (by omega)]
      · rw [Nat.compare_eq_gt.mpr h, Ordering.gt_then]
        cases htext : strCmp x y with
        | gt => rfl
        | eq => exact absurd htext hne
        | lt =>
          rw [htext] at hswap
          exact absurd ⟨h, by omega, hswap⟩ hyx

/-- **Runs that are not misread do not go round in a circle.** -/
theorem read_of_cycle {z : List Char} (hx : IsRun x) (hy : IsRun y) (hz : IsRun z)
    (hxy : compareNumStrs x y = .lt) (hyz : compareNumStrs y z = .lt) (hxz : compareNumStrs x z = .gt) :
    (MisreadRuns x y ∨ MisreadRuns y x) ∨ (MisreadRuns y z ∨ MisreadRuns z y) ∨
      MisreadRuns x z ∨ MisreadRuns z x := by
  by_contra hread
  push Not at hread
  obtain ⟨⟨hreadXY, hreadYX⟩, ⟨hreadYZ, hreadZY⟩, hreadXZ, hreadZX⟩ := hread
  rw [compareNumStrs_of_read hx hy hreadXY hreadYX, Ordering.then_eq_lt, Nat.compare_eq_lt,
    Nat.compare_eq_eq] at hxy
  rw [compareNumStrs_of_read hy hz hreadYZ hreadZY, Ordering.then_eq_lt, Nat.compare_eq_lt,
    Nat.compare_eq_eq] at hyz
  rw [compareNumStrs_of_read hx hz hreadXZ hreadZX, Ordering.then_eq_gt, Nat.compare_eq_gt,
    Nat.compare_eq_eq] at hxz
  -- the numbers are the same, and what is in front of them is in an order
  have hvalXY : numericValue x = numericValue y := by omega
  have hvalYZ : numericValue y = numericValue z := by omega
  rw [hvalXY, hvalYZ] at hxy hxz
  rw [hvalYZ] at hyz
  have hxy := (hxy.resolve_left (Nat.lt_irrefl _)).2
  have hyz := (hyz.resolve_left (Nat.lt_irrefl _)).2
  have hxz := (hxz.resolve_left (Nat.lt_irrefl _)).2
  split_ifs at hxy hyz hxz
  · rw [Nat.compare_eq_lt] at hxy hyz
    rw [Nat.compare_eq_gt] at hxz
    omega
  · rw [Std.TransCmp.lt_trans hxy hyz] at hxz
    cases hxz

/-! ### Places -/

theorem takeWhile_append_run {text : List Char} (h : ∀ c ∈ text, c.isDigit = true)
    (hrest : ∀ c ∈ rest.head?, c.isDigit = false) :
    (text ++ rest).takeWhile Char.isDigit = text ∧ (text ++ rest).dropWhile Char.isDigit = rest := by
  rw [List.takeWhile_append_of_pos h, List.dropWhile_append_of_pos h]
  cases rest with
  | nil => simp
  | cons c rest =>
    have hc : ¬ c.isDigit = true := Bool.eq_false_iff.mp (hrest c rfl)
    rw [List.takeWhile_cons_of_neg hc, List.dropWhile_cons_of_neg hc, List.append_nil]
    exact ⟨rfl, rfl⟩

theorem tokens_run_append {text : List Char} (h : IsRun text)
    (hrest : ∀ c ∈ rest.head?, c.isDigit = false) : tokens (text ++ rest) = .run text h :: tokens rest := by
  cases text with
  | nil => exact absurd rfl h.1
  | cons c text =>
    obtain ⟨hc, htext⟩ := List.forall_mem_cons.mp h.2
    obtain ⟨htake, hdrop⟩ := takeWhile_append_run htext hrest
    simp only [List.cons_append, tokens_cons_digit hc, htake, hdrop]

theorem pushChar_append (c : Char) {ts : List Token} (hts : ts ≠ []) (us : List Token) :
    pushChar c (ts ++ us) = pushChar c ts ++ us ∧ pushChar c ts ≠ [] := by
  unfold pushChar
  split_ifs with hc
  · cases ts with
    | nil => exact absurd rfl hts
    | cons t ts =>
      cases t with
      | run text isRun => exact ⟨rfl, List.cons_ne_nil _ _⟩
      | char d hd => exact ⟨rfl, List.cons_ne_nil _ _⟩
  · exact ⟨rfl, List.cons_ne_nil _ _⟩

theorem foldr_pushChar_append (s : List Char) {ts : List Token} (hts : ts ≠ []) (us : List Token) :
    s.foldr pushChar (ts ++ us) = s.foldr pushChar ts ++ us ∧ s.foldr pushChar ts ≠ [] := by
  induction s with
  | nil => exact ⟨rfl, hts⟩
  | cons c s ih =>
    obtain ⟨happend, hne⟩ := ih
    rw [List.foldr_cons, List.foldr_cons, happend]
    exact pushChar_append c hne us

theorem tokens_append (hfront : ∀ c ∈ front.getLast?, c.isDigit = false)
    (rest : List Char) : tokens (front ++ rest) = tokens front ++ tokens rest := by
  rcases List.eq_nil_or_concat' front with rfl | ⟨init, c, rfl⟩
  · rfl
  · have hc : c.isDigit = false := hfront c List.getLast?_concat
    have hlast : tokens (init ++ [c]) = init.foldr pushChar [.char c hc] := by
      rw [tokens, List.foldr_append]
      exact congrArg (init.foldr pushChar) (tokens_cons_char hc [])
    have hall : tokens (init ++ [c] ++ rest) = init.foldr pushChar ([.char c hc] ++ tokens rest) := by
      rw [List.append_assoc, tokens, List.foldr_append]
      exact congrArg (init.foldr pushChar) (tokens_cons_char hc rest)
    rw [hall, hlast]
    exact (foldr_pushChar_append init (List.cons_ne_nil _ _) (tokens rest)).1

theorem RunAt.tokens {s text : List Char} (h : RunAt s front text rest) :
    FcGpui.tokens s = FcGpui.tokens front ++ .run text h.isRun :: FcGpui.tokens rest := by
  rw [← tokens_run_append h.isRun h.after, ← tokens_append h.before, ← h.eq]

theorem head?_dropWhile (s : List Char) : ∀ c ∈ (s.dropWhile Char.isDigit).head?, c.isDigit = false := by
  intro c hc
  have hnot := List.head?_dropWhile_not Char.isDigit s
  rw [Option.mem_def.mp hc] at hnot
  simpa using hnot

theorem RunAt.append {s text : List Char} (h : RunAt s front text rest)
    (more : List Char) (hmore : front = [] → ∀ c ∈ more.getLast?, c.isDigit = false) :
    RunAt (more ++ s) (more ++ front) text rest where
  eq := by rw [h.eq, List.append_assoc]
  isRun := h.isRun
  before := by
    intro c hc
    rw [List.getLast?_append] at hc
    cases hfront : front.getLast? with
    | none =>
      rw [hfront] at hc
      exact hmore (List.getLast?_eq_none_iff.mp hfront) c hc
    | some d =>
      rw [hfront] at hc
      exact h.before c (by rw [hfront]; exact hc)
  after := h.after

/-- **A token that is a run is a maximal run**, behind the text of the tokens in front of it. -/
theorem runAt_of_tokens {front : List Token} : ∀ {s text : List Char} {isRun : IsRun text}
    {rest : List Token}, tokens s = front ++ .run text isRun :: rest →
      ∃ restText, RunAt s (front.flatMap Token.text) text restText := by
  induction front with
  | nil =>
    intro s text isRun rest h
    cases s with
    | nil => cases h
    | cons c s =>
      by_cases hc : c.isDigit = true
      · rw [tokens_cons_digit hc, List.nil_append, List.cons.injEq, Token.run.injEq] at h
        obtain ⟨rfl, _⟩ := h
        refine ⟨s.dropWhile Char.isDigit, ?_, isRun, ?_, head?_dropWhile s⟩
        · rw [List.flatMap_nil, List.nil_append, List.cons_append, List.takeWhile_append_dropWhile]
        · intro d hd
          cases hd
      · rw [tokens_cons_char (Bool.eq_false_iff.mpr hc)] at h
        cases h
  | cons t front ih =>
    intro s text isRun rest h
    cases s with
    | nil => cases h
    | cons c s =>
      by_cases hc : c.isDigit = true
      · rw [tokens_cons_digit hc, List.cons_append, List.cons.injEq] at h
        obtain ⟨rfl, h⟩ := h
        obtain ⟨restText, hrun⟩ := ih h
        have hsplit : c :: s = c :: s.takeWhile Char.isDigit ++ s.dropWhile Char.isDigit := by
          rw [List.cons_append, List.takeWhile_append_dropWhile]
        refine ⟨restText, ?_⟩
        rw [hsplit, List.flatMap_cons]
        refine hrun.append _ ?_
        -- a run does not stand right behind another
        intro hnil
        have hdrop := hrun.eq
        rw [hnil, List.nil_append] at hdrop
        obtain ⟨d, text, rfl⟩ := List.exists_cons_of_ne_nil isRun.1
        have hfalse := head?_dropWhile s d (by rw [hdrop]; rfl)
        rw [isRun.2 d List.mem_cons_self] at hfalse
        cases hfalse
      · have hc' := Bool.eq_false_iff.mpr hc
        rw [tokens_cons_char hc', List.cons_append, List.cons.injEq] at h
        obtain ⟨rfl, h⟩ := h
        obtain ⟨restText, hrun⟩ := ih h
        refine ⟨restText, hrun.append [c] fun _ d hd => ?_⟩
        cases hd
        exact hc'

/-! ### The order -/

/-- The values of two runs decide, unless one is misread. -/
theorem naturalSort_runs {a b restA restB : List Char} (ha : RunAt a front x restA)
    (hb : RunAt b front y restB) (hne : numericValue x ≠ numericValue y) :
    naturalSort a b = compareNumStrs x y := by
  rw [naturalSort_eq, ha.tokens, hb.tokens]
  refine compareLex_append_cons _ _ _ ?_
  intro heq
  exact hne (congrArg numericValue (eq_of_compareNumStrs ha.isRun hb.isRun heq))

/-- Where a token stands among the others: all runs at one place. -/
def Token.key : Token → Nat
  | .run _ _ => charKey '0'
  | .char c _ => charKey c

theorem compareTokens_run_char_eq {c : Char} (hx : IsRun x) (hc : c.isDigit = false) :
    compareTokens (.run x hx) (.char c hc) = compare (Token.run x hx).key (Token.char c hc).key := by
  rw [(compareTokens_run_char hx (isRun_single (c := '0') rfl) hc).1]
  exact compareChars_eq _ _

theorem compareTokens_char {c : Char} (hc : c.isDigit = false) (t : Token) :
    compareTokens (.char c hc) t = compare (Token.char c hc).key t.key ∧
      compareTokens t (.char c hc) = compare t.key (Token.char c hc).key := by
  cases t with
  | run y hy =>
    refine ⟨?_, compareTokens_run_char_eq hy hc⟩
    rw [← Nat.compare_swap, ← compareTokens_run_char_eq hy hc]
    exact Std.OrientedCmp.eq_swap
  | char d hd => exact ⟨compareChars_eq _ _, compareChars_eq _ _⟩

/-- Three tokens that go round in a circle are runs. -/
theorem runs_of_cycle {s t u : Token} (hst : compareTokens s t = .lt)
    (htu : compareTokens t u = .lt) (hsu : compareTokens s u = .gt) :
    ∃ x hx y hy z hz, s = .run x hx ∧ t = .run y hy ∧ u = .run z hz := by
  cases s with
  | char c hc =>
    rw [(compareTokens_char hc t).1, Nat.compare_eq_lt] at hst
    rw [(compareTokens_char hc u).1, Nat.compare_eq_gt] at hsu
    cases t with
    | char d hd =>
      rw [(compareTokens_char hd u).1, Nat.compare_eq_lt] at htu
      omega
    | run y hy =>
      cases u with
      | char e he =>
        rw [(compareTokens_char he _).2, Nat.compare_eq_lt] at htu
        omega
      | run z hz => exact absurd hst (Nat.lt_asymm hsu)
  | run x hx =>
    cases t with
    | char d hd =>
      rw [(compareTokens_char hd _).2, Nat.compare_eq_lt] at hst
      rw [(compareTokens_char hd u).1, Nat.compare_eq_lt] at htu
      cases u with
      | char e he =>
        rw [(compareTokens_char he _).2, Nat.compare_eq_gt] at hsu
        omega
      | run z hz => exact absurd htu (Nat.lt_asymm hst)
    | run y hy =>
      cases u with
      | char e he =>
        rw [(compareTokens_char he _).2, Nat.compare_eq_lt] at htu
        rw [(compareTokens_char he _).2, Nat.compare_eq_gt] at hsu
        exact absurd htu (Nat.lt_asymm hsu)
      | run z hz => exact ⟨x, hx, y, hy, z, hz, rfl, rfl, rfl⟩

/-- Three strings that go round in a circle show two that are misread. -/
theorem misread_of_cycle {a b c : List Char} (hab : naturalSort a b ≠ .gt)
    (hbc : naturalSort b c ≠ .gt) (hac : naturalSort a c = .gt) :
    (Misread a b ∨ Misread b a) ∨ (Misread b c ∨ Misread c b) ∨ Misread a c ∨ Misread c a := by
  rw [naturalSort_eq] at hab hbc hac
  obtain ⟨front, s, t, u, as, bs, cs, ha, hb, hc, hst, htu, hsu⟩ := exists_cycle hab hbc hac
  obtain ⟨x, hx, y, hy, z, hz, rfl, rfl, rfl⟩ := runs_of_cycle hst htu hsu
  obtain ⟨restA, hrunA⟩ := runAt_of_tokens ha
  obtain ⟨restB, hrunB⟩ := runAt_of_tokens hb
  obtain ⟨restC, hrunC⟩ := runAt_of_tokens hc
  rcases read_of_cycle hx hy hz hst htu hsu with (h | h) | (h | h) | h | h
  · exact Or.inl (Or.inl ⟨_, _, _, _, _, hrunA, hrunB, h⟩)
  · exact Or.inl (Or.inr ⟨_, _, _, _, _, hrunB, hrunA, h⟩)
  · exact Or.inr (Or.inl (Or.inl ⟨_, _, _, _, _, hrunB, hrunC, h⟩))
  · exact Or.inr (Or.inl (Or.inr ⟨_, _, _, _, _, hrunC, hrunB, h⟩))
  · exact Or.inr (Or.inr (Or.inl ⟨_, _, _, _, _, hrunA, hrunC, h⟩))
  · exact Or.inr (Or.inr (Or.inr ⟨_, _, _, _, _, hrunC, hrunA, h⟩))

/-- **Strings are in an order by value if and only if no two of them are misread.** -/
theorem ordersByValue_iff (strings : Set (List Char)) :
    OrdersByValue strings ↔ ∀ a ∈ strings, ∀ b ∈ strings, ¬ Misread a b := by
  constructor
  · rintro h a ha b hb ⟨front, x, y, restA, restB, hrunA, hrunB, hmis⟩
    have hne : numericValue x ≠ numericValue y := hmis.1.ne
    have hvalue := h.byValue a ha b hb front x y restA restB hrunA hrunB hne
    rw [naturalSort_runs hrunA hrunB hne, hmis.compareNumStrs_eq hrunA.isRun hrunB.isRun,
      Nat.compare_eq_lt.mpr hmis.1] at hvalue
    cases hvalue
  · intro hread
    exact {
      swap := fun a _ b _ => naturalSort_swap a b
      trans := by
        intro a ha b hb c hc hab hbc hac
        rcases misread_of_cycle hab hbc hac with (h | h) | (h | h) | h | h
        · exact hread a ha b hb h
        · exact hread b hb a ha h
        · exact hread b hb c hc h
        · exact hread c hc b hb h
        · exact hread a ha c hc h
        · exact hread c hc a ha h
      eq_of_equal := fun a _ b _ => eq_of_naturalSort
      byValue := by
        intro a ha b hb front x y restA restB hrunA hrunB hne
        have hxy : ¬ MisreadRuns x y := fun h => hread a ha b hb ⟨_, _, _, _, _, hrunA, hrunB, h⟩
        have hyx : ¬ MisreadRuns y x := fun h => hread b hb a ha ⟨_, _, _, _, _, hrunB, hrunA, h⟩
        rw [naturalSort_runs hrunA hrunB hne, compareNumStrs_of_read hrunA.isRun hrunB.isRun hxy hyx]
        cases hcmp : compare (numericValue x) (numericValue y) with
        | lt => rfl
        | gt => rfl
        | eq => exact absurd (Nat.compare_eq_eq.mp hcmp) hne }

/-- `10 ^ 40` does not fit in an `u128`. -/
def tenTo40 : List Char := '1' :: List.replicate 40 '0'

/-- `9 < 10` and `10 < 10 ^ 40`, but `9 > 10 ^ 40`. -/
theorem not_ordersByValue : ¬ OrdersByValue {['9'], ['1', '0'], tenTo40} := by
  intro h
  have hgt : naturalSort ['9'] tenTo40 = .gt := by decide
  exact h.trans ['9'] (by simp) ['1', '0'] (by simp) tenTo40 (by simp) (by decide) (by decide) hgt

end FcGpui

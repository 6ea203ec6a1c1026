import FcGpui.Keymap.Binding

/-!
# Keystrokes as texts

`Keystroke::parse` and `unparse` of `crates/gpui/src/platform/keystroke.rs`, on the list of
the characters of a text.  The loop over the components of a text is `parseComponents`; what
it leaves is the modifiers, the key if there is one, and the typed character.

**Main result.**  `parse_unparse`.
-/

namespace FcGpui

/-- `make_ascii_lowercase`. -/
def makeAsciiLowercase (s : SharedString) : SharedString := s.map Char.toLower

/-- `eq_ignore_ascii_case`. -/
def eqIgnoreAsciiCase (a b : SharedString) : Bool := makeAsciiLowercase a == makeAsciiLowercase b

structure InvalidKeystrokeError where
  keystroke : SharedString
deriving DecidableEq

namespace Keystroke

/-- The modifiers with the one that a component is the name of, if it is one. -/
def pressed (os : TargetOs) (component : SharedString) (modifiers : Modifiers) : Option Modifiers :=
  if eqIgnoreAsciiCase component "ctrl".toList then some { modifiers with control := true }
  else if eqIgnoreAsciiCase component "alt".toList then some { modifiers with alt := true }
  else if eqIgnoreAsciiCase component "shift".toList then some { modifiers with shift := true }
  else if eqIgnoreAsciiCase component "fn".toList then some { modifiers with function := true }
  else if eqIgnoreAsciiCase component "secondary".toList then
    match os with
    | .macos => some { modifiers with platform := true }
    | .linux | .windows => some { modifiers with control := true }
  else if eqIgnoreAsciiCase component "cmd".toList || eqIgnoreAsciiCase component "super".toList
      || eqIgnoreAsciiCase component "win".toList then
    some { modifiers with platform := true }
  else none

/-- A text of one uppercase letter. -/
def isUppercaseLetter : SharedString → Bool
  | [c] => c.isUpper
  | _ => false

/-- The loop of `parse`: the modifiers, the key and the typed character. -/
def parseComponents (os : TargetOs) (source : SharedString) :
    List SharedString → Modifiers → Option SharedString → Option SharedString →
    Except InvalidKeystrokeError (Modifiers × Option SharedString × Option SharedString)
  | [], modifiers, key, keyChar => .ok (modifiers, key, keyChar)
  | component :: components, modifiers, key, keyChar =>
    match pressed os component modifiers with
    | some modifiers => parseComponents os source components modifiers key keyChar
    | none =>
      match components with
      | next :: rest =>
        if next.isEmpty && source.getLast? == some '-' then .ok (modifiers, some ['-'], keyChar)
        else if next.length > 1 && next.head? == some '>' then
          parseComponents os source rest modifiers (some component) (some next.tail)
        else .error ⟨source⟩
      | [] =>
        .ok (if isUppercaseLetter component then { modifiers with shift := true } else modifiers,
          some (makeAsciiLowercase component), keyChar)

/-- A modifier as the key: it is the key then, and no modifier. -/
def modifierKey (modifiers : Modifiers) : Option (Modifiers × SharedString) :=
  if modifiers.shift then some ({ modifiers with shift := false }, "shift".toList)
  else if modifiers.control then some ({ modifiers with control := false }, "control".toList)
  else if modifiers.alt then some ({ modifiers with alt := false }, "alt".toList)
  else if modifiers.platform then some ({ modifiers with platform := false }, "platform".toList)
  else if modifiers.function then some ({ modifiers with function := false }, "function".toList)
  else none

def parse (os : TargetOs) (source : SharedString) : Except InvalidKeystrokeError Keystroke :=
  match parseComponents os source (source.splitOn '-') {} none none with
  | .ok (modifiers, some key, keyChar) => .ok ⟨modifiers, key, keyChar⟩
  | .ok (modifiers, none, keyChar) =>
    match modifierKey modifiers with
    | some (modifiers, key) => .ok ⟨modifiers, key, keyChar⟩
    | none => .error ⟨source⟩
  | .error error => .error error

/-- What `unparse` calls the platform modifier. -/
def platformName : TargetOs → SharedString
  | .macos => "cmd".toList
  | .linux => "super".toList
  | .windows => "win".toList

/-- The name of a modifier and a separator, if it is pressed. -/
def prefixed (isPressed : Bool) (name : SharedString) : SharedString := if isPressed then name ++ ['-'] else []

def unparse (os : TargetOs) (keystroke : Keystroke) : SharedString :=
  prefixed keystroke.modifiers.function "fn".toList ++ prefixed keystroke.modifiers.control "ctrl".toList
    ++ prefixed keystroke.modifiers.alt "alt".toList ++ prefixed keystroke.modifiers.platform (platformName os)
    ++ prefixed keystroke.modifiers.shift "shift".toList ++ keystroke.key

variable {os : TargetOs} {source component key : SharedString} {components rest : List SharedString}
  {modifiers modifiers' : Modifiers}

/-! ### Lowercase -/

theorem toLower_ne_separator {c : Char} (h : c ≠ '-') : c.toLower ≠ '-' := by
  intro heq
  have halpha := Char.isAlpha_toLower_eq_isAlpha c
  rw [heq] at halpha
  have hupper : ¬ c.isUpper = true := by
    intro hupper
    have hletter : c.isAlpha = true := by rw [Char.isAlpha, hupper, Bool.true_or]
    rw [hletter] at halpha
    exact absurd halpha (by decide)
  exact h ((Char.toLower_eq_of_not_isUpper hupper).symm.trans heq)

theorem separator_not_mem_lowercase (h : '-' ∉ component) : '-' ∉ makeAsciiLowercase component := by
  intro hmem
  obtain ⟨c, hc, heq⟩ := List.mem_map.mp hmem
  exact toLower_ne_separator (fun hsep => h (hsep ▸ hc)) heq

theorem makeAsciiLowercase_twice (s : SharedString) :
    makeAsciiLowercase (makeAsciiLowercase s) = makeAsciiLowercase s := by
  rw [makeAsciiLowercase, makeAsciiLowercase, List.map_map]
  exact List.map_congr_left fun c _ => Char.toLower_toLower_eq_toLower c

theorem eqIgnoreAsciiCase_lowercase (a b : SharedString) :
    eqIgnoreAsciiCase (makeAsciiLowercase a) b = eqIgnoreAsciiCase a b := by
  rw [eqIgnoreAsciiCase, makeAsciiLowercase_twice, eqIgnoreAsciiCase]

theorem pressed_lowercase (os : TargetOs) (component : SharedString) (modifiers : Modifiers) :
    pressed os (makeAsciiLowercase component) modifiers = pressed os component modifiers := by
  simp only [pressed, eqIgnoreAsciiCase_lowercase]

theorem pressed_eq_none (h : pressed os component modifiers = none) (modifiers' : Modifiers) :
    pressed os component modifiers' = none := by
  unfold pressed at h ⊢
  split_ifs at h ⊢ with hctrl halt hshift hfn hsecondary hplatform
  · cases os <;> cases h
  · rfl

theorem isUppercaseLetter_lowercase (s : SharedString) : isUppercaseLetter (makeAsciiLowercase s) = false := by
  match s with
  | [] => rfl
  | [c] => exact Char.isUpper_toLower_eq_false c
  | _ :: _ :: _ => rfl

/-! ### The components of a text -/

theorem splitOn_prefixed {name : SharedString} (hname : '-' ∉ name) (isPressed : Bool) (s : SharedString) :
    (prefixed isPressed name ++ s).splitOn '-' = (if isPressed then [name] else []) ++ s.splitOn '-' := by
  cases isPressed with
  | false => rfl
  | true =>
    rw [prefixed, if_pos rfl, if_pos rfl, List.append_assoc, List.singleton_append,
      List.splitOn_append_cons_self_of_not_mem hname, List.singleton_append]

theorem separator_not_mem_of_mem_splitOn : ∀ component ∈ source.splitOn '-', '-' ∉ component := by
  induction source with
  | nil => simp
  | cons c source ih =>
    intro component hcomponent
    rw [List.splitOn_cons_eq_if_modifyHead] at hcomponent
    split at hcomponent
    · rcases List.mem_cons.mp hcomponent with rfl | hmem
      · exact List.not_mem_nil
      · exact ih component hmem
    · rename_i hc
      cases hsplit : source.splitOn '-' with
      | nil => exact absurd hsplit (List.splitOn_ne_nil _ _)
      | cons head rest =>
        rw [hsplit, List.modifyHead_cons] at hcomponent
        rw [hsplit] at ih
        rcases List.mem_cons.mp hcomponent with rfl | hmem
        · refine List.not_mem_cons_of_ne_of_not_mem (fun heq => hc ?_) (ih head List.mem_cons_self)
          exact beq_iff_eq.mpr heq.symm
        · exact ih component (List.mem_cons_of_mem _ hmem)

/-! ### The loop -/

variable {key₀ key' keyChar keyChar' : Option SharedString}

theorem parseComponents_pressed (h : pressed os component modifiers = some modifiers') :
    parseComponents os source (component :: rest) modifiers key₀ keyChar
      = parseComponents os source rest modifiers' key₀ keyChar := by
  rw [parseComponents.eq_def]
  simp only [h]

theorem parseComponents_prefixed {name : SharedString} (h : pressed os name modifiers = some modifiers')
    (isPressed : Bool) :
    parseComponents os source ((if isPressed then [name] else []) ++ rest) modifiers key₀ keyChar
      = parseComponents os source rest (if isPressed then modifiers' else modifiers) key₀ keyChar := by
  cases isPressed with
  | false => rfl
  | true =>
    rw [if_pos rfl, if_pos rfl, List.singleton_append, parseComponents_pressed h]

theorem parseComponents_unparse (os : TargetOs) (source : SharedString) (keystroke : Keystroke) :
    parseComponents os source ((unparse os keystroke).splitOn '-') {} none none
      = parseComponents os source (keystroke.key.splitOn '-') keystroke.modifiers none none := by
  obtain ⟨⟨control, alt, shift, platform, function⟩, key, keyChar⟩ := keystroke
  have hname : '-' ∉ platformName os := by cases os <;> decide
  have hpressed : ∀ modifiers, pressed os (platformName os) modifiers = some { modifiers with platform := true } := by
    intro modifiers
    cases os <;> rfl
  simp only [unparse, List.append_assoc]
  rw [splitOn_prefixed (by decide), splitOn_prefixed (by decide), splitOn_prefixed (by decide),
    splitOn_prefixed hname, splitOn_prefixed (by decide), parseComponents_prefixed rfl, parseComponents_prefixed rfl,
    parseComponents_prefixed rfl, parseComponents_prefixed (hpressed _), parseComponents_prefixed rfl]
  congr 1
  cases function <;> cases control <;> cases alt <;> cases platform <;> cases shift <;> rfl

theorem parseComponents_keyChar {typed : SharedString}
    (h : parseComponents os source components modifiers key₀ (some typed) = .ok (modifiers', key', keyChar')) :
    keyChar' ≠ none := by
  generalize hkeyChar : some typed = keyChar at h
  fun_induction parseComponents os source components modifiers key₀ keyChar generalizing typed with
  | case1 modifiers key keyChar =>
    subst hkeyChar
    cases h
    nofun
  | case2 component components modifiers key keyChar modifiers₁ hpressed ih => exact ih hkeyChar h
  | case3 component modifiers key keyChar hpressed next rest hlast =>
    subst hkeyChar
    cases h
    nofun
  | case4 component modifiers key keyChar hpressed next rest hlast htyped ih => exact ih rfl h
  | case5 => cases h
  | case6 component modifiers key keyChar hpressed =>
    subst hkeyChar
    cases h
    nofun

/-- **The key** that the loop leaves without a typed character. -/
theorem parseComponents_key (hcomponents : ∀ component ∈ components, '-' ∉ component)
    (h : parseComponents os source components modifiers key₀ keyChar = .ok (modifiers', key', none)) :
    key' = key₀ ∨ key' = some ['-'] ∨
      ∃ component, '-' ∉ component ∧ pressed os component {} = none ∧ key' = some (makeAsciiLowercase component) := by
  fun_induction parseComponents os source components modifiers key₀ keyChar with
  | case1 modifiers key =>
    cases h
    exact Or.inl rfl
  | case2 component components modifiers key keyChar modifiers₁ hpressed ih =>
    exact ih (fun other hother => hcomponents other (List.mem_cons_of_mem _ hother)) h
  | case3 component modifiers key keyChar hpressed next rest hlast =>
    cases h
    exact Or.inr (Or.inl rfl)
  | case4 component modifiers key keyChar hpressed next rest hlast htyped ih =>
    exact absurd rfl (parseComponents_keyChar h)
  | case5 => cases h
  | case6 component modifiers key keyChar hpressed =>
    cases h
    exact Or.inr (Or.inr ⟨component, hcomponents component List.mem_cons_self, pressed_eq_none hpressed {}, rfl⟩)

/-! ### The round trip -/

theorem parse_unparse_plain (modifiers : Modifiers) (hsep : '-' ∉ key) (hlower : makeAsciiLowercase key = key)
    (hpressed : pressed os key {} = none) :
    parse os (unparse os ⟨modifiers, key, none⟩) = .ok ⟨modifiers, key, none⟩ := by
  have hupper : isUppercaseLetter key = false := hlower ▸ isUppercaseLetter_lowercase key
  have hloop : parseComponents os (unparse os ⟨modifiers, key, none⟩) [key] modifiers none none
      = .ok (modifiers, some key, none) := by
    rw [parseComponents.eq_def]
    simp only [pressed_eq_none hpressed modifiers, hupper, hlower, Bool.false_eq_true, if_false]
  rw [parse, parseComponents_unparse, List.splitOn_eq_singleton hsep, hloop]

theorem parse_unparse_separator (modifiers : Modifiers) :
    parse os (unparse os ⟨modifiers, ['-'], none⟩) = .ok ⟨modifiers, ['-'], none⟩ := by
  have hlast : (unparse os ⟨modifiers, ['-'], none⟩).getLast? = some '-' := by
    rw [unparse, List.getLast?_concat]
  have hsplit : (['-'] : SharedString).splitOn '-' = [[], []] := by decide
  have hpressed : pressed os [] modifiers = none := rfl
  have hloop : parseComponents os (unparse os ⟨modifiers, ['-'], none⟩) [[], []] modifiers none none
      = .ok (modifiers, some ['-'], none) := by
    rw [parseComponents.eq_def]
    simp only [hpressed, List.isEmpty_nil, hlast, beq_self_eq_true, Bool.and_self, if_true]
  rw [parse, parseComponents_unparse, hsplit, hloop]

theorem parse_unparse_modifierKey (h : modifierKey modifiers = some (modifiers', key)) :
    parse os (unparse os ⟨modifiers', key, none⟩) = .ok ⟨modifiers', key, none⟩ := by
  have hsplit : ["shift", "control", "alt", "platform", "function"].Forall fun name =>
      '-' ∉ name.toList ∧ makeAsciiLowercase name.toList = name.toList := by decide
  simp only [List.Forall] at hsplit
  obtain ⟨⟨hshiftsep, -⟩, ⟨hcontrolsep, hcontrollower⟩, ⟨haltsep, -⟩, ⟨hplatformsep, hplatformlower⟩,
    hfunctionsep, hfunctionlower⟩ := hsplit
  unfold modifierKey at h
  -- the names of control, platform and function are no names that `parse` knows
  split_ifs at h with hshift hcontrol halt hplatform hfunction
  · obtain ⟨rfl, rfl⟩ := Prod.mk.inj (Option.some.inj h)
    rw [parse, parseComponents_unparse, List.splitOn_eq_singleton hshiftsep, parseComponents_pressed rfl]
    rfl
  · obtain ⟨rfl, rfl⟩ := Prod.mk.inj (Option.some.inj h)
    exact parse_unparse_plain _ hcontrolsep hcontrollower rfl
  · obtain ⟨rfl, rfl⟩ := Prod.mk.inj (Option.some.inj h)
    rw [parse, parseComponents_unparse, List.splitOn_eq_singleton haltsep, parseComponents_pressed rfl]
    simp only [parseComponents, modifierKey, hshift, hcontrol]
    rfl
  · obtain ⟨rfl, rfl⟩ := Prod.mk.inj (Option.some.inj h)
    exact parse_unparse_plain _ hplatformsep hplatformlower rfl
  · obtain ⟨rfl, rfl⟩ := Prod.mk.inj (Option.some.inj h)
    exact parse_unparse_plain _ hfunctionsep hfunctionlower rfl

/-- **The round trip.**  What `unparse` writes of a keystroke that was parsed without a typed character is parsed
as the keystroke. -/
theorem parse_unparse (os : TargetOs) (source : SharedString) (keystroke : Keystroke)
    (h : parse os source = .ok keystroke) (hkeyChar : keystroke.keyChar = none) :
    parse os (unparse os keystroke) = .ok keystroke := by
  unfold parse at h
  split at h
  · rename_i modifiers key keyChar hloop
    cases h
    obtain rfl : keyChar = none := hkeyChar
    rcases parseComponents_key separator_not_mem_of_mem_splitOn hloop with hkey | hkey | ⟨component, hsep, hpressed, hkey⟩
    · cases hkey
    · obtain rfl := Option.some.inj hkey
      exact parse_unparse_separator modifiers
    · obtain rfl := Option.some.inj hkey
      exact parse_unparse_plain modifiers (separator_not_mem_lowercase hsep) (makeAsciiLowercase_twice component)
        ((pressed_lowercase os component {}).trans hpressed)
  · rename_i modifiers keyChar hloop
    split at h
    · rename_i modifiers' key hkey
      cases h
      obtain rfl : keyChar = none := hkeyChar
      exact parse_unparse_modifierKey hkey
    · cases h
  · cases h

theorem parse_unparse_ctrl_shift :
    parse .linux "alt-shift-ctrl-".toList = .ok ⟨{ alt := true, shift := true, control := true }, [], none⟩ ∧
      parse .linux (unparse .linux ⟨{ alt := true, shift := true, control := true }, [], none⟩)
        = .ok ⟨{ alt := true, shift := true, control := true }, [], none⟩ :=
  ⟨rfl, parse_unparse .linux "alt-shift-ctrl-".toList ⟨{ alt := true, shift := true, control := true }, [], none⟩
    rfl rfl⟩

example : parse .macos "secondary-P".toList = .ok ⟨{ platform := true, shift := true }, "p".toList, none⟩ := rfl

end Keystroke

end FcGpui

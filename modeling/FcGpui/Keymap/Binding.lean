import FcGpui.Keymap.Context

/-!
# Key bindings

`Keystroke` in `crates/gpui/src/platform/keystroke.rs` and `KeyBinding` in
`crates/gpui/src/keymap/binding.rs`.  A typed keystroke matches a keystroke of
the keymap by the key pressed or by the character it produced; on Windows the
modifiers are compared otherwise in the second case, and a keystroke of the
keymap also carries what is shown for it.

An action is `NoAction`, which stands for a removed binding, or one of another
type with its data.  `partial_eq` compares the data of two actions of one type
with the equality of that type, of which only what `PartialEq` promises is
assumed: it is symmetric and transitive.
-/

namespace FcGpui

inductive TargetOs
  | macos
  | linux
  | windows
deriving DecidableEq

structure Modifiers where
  control : Bool := false
  alt : Bool := false
  shift : Bool := false
  platform : Bool := false
  function : Bool := false
deriving DecidableEq

structure Keystroke where
  modifiers : Modifiers
  key : SharedString
  keyChar : Option SharedString
deriving DecidableEq

/-- A keystroke of the keymap.  `display` is what Windows shows for it, and
`none` on the other systems. -/
structure KeybindingKeystroke where
  inner : Keystroke
  display : Option (Modifiers × SharedString)
deriving DecidableEq

/-- The modifiers a keystroke of the keymap has when it is matched by the
character typed. -/
def TargetOs.imeModifiers (os : TargetOs) (modifiers : Modifiers) : Modifiers :=
  match os with
  | .windows => {}
  | .macos | .linux => { control := modifiers.control, platform := modifiers.platform }

def Keystroke.shouldMatch (os : TargetOs) (typed : Keystroke) (target : KeybindingKeystroke) : Bool :=
  (typed.keyChar.filter (· != typed.key)).any (fun keyChar =>
      target.inner.key == keyChar && target.inner.modifiers == os.imeModifiers typed.modifiers)
    || target.inner.modifiers == typed.modifiers && target.inner.key == typed.key

/-- A keystroke that produced no character other than its key. -/
def Keystroke.Plain (keystroke : Keystroke) : Prop :=
  ∀ keyChar ∈ keystroke.keyChar, keyChar = keystroke.key

instance (keystroke : Keystroke) : Decidable keystroke.Plain :=
  inferInstanceAs (Decidable (∀ keyChar ∈ keystroke.keyChar, keyChar = keystroke.key))

theorem Keystroke.shouldMatch_self (os : TargetOs) (target : KeybindingKeystroke) :
    target.inner.shouldMatch os target = true := by
  rw [shouldMatch, beq_self_eq_true, beq_self_eq_true, Bool.and_true, Bool.or_true]

theorem Keystroke.Plain.shouldMatch_iff {os : TargetOs} {typed : Keystroke}
    {target : KeybindingKeystroke} (h : typed.Plain) :
    typed.shouldMatch os target = true ↔
      target.inner.modifiers = typed.modifiers ∧ target.inner.key = typed.key := by
  have hfilter : typed.keyChar.filter (· != typed.key) = none := by
    rw [Option.filter_eq_none_iff]
    intro keyChar hk
    rw [h keyChar hk, bne_self_eq_false]
    exact Bool.false_ne_true
  rw [shouldMatch, hfilter, Option.any_none, Bool.false_or, Bool.and_eq_true_iff, beq_iff_eq,
    beq_iff_eq]

theorem Keystroke.shouldMatch_congr {os : TargetOs} {typed : Keystroke}
    {target target' : KeybindingKeystroke}
    (hm : target.inner.modifiers = target'.inner.modifiers)
    (hk : target.inner.key = target'.inner.key) :
    typed.shouldMatch os target = typed.shouldMatch os target' := by
  rw [shouldMatch, shouldMatch, hm, hk]

inductive Action (P : Type)
  | noAction
  | other (typeId : Nat) (data : P)

namespace Action

variable {P : Type}

/-- The type of an action; `none` for `NoAction`. -/
def typeId : Action P → Option Nat
  | noAction => none
  | other typeId _ => some typeId

def isNoAction : Action P → Bool
  | noAction => true
  | other _ _ => false

def partialEq [BEq P] : Action P → Action P → Bool
  | noAction, noAction => true
  | other id data, other id' data' => id == id' && data == data'
  | _, _ => false

theorem partialEq_typeId [BEq P] {a b : Action P} (h : a.partialEq b = true) : a.typeId = b.typeId := by
  cases a with
  | noAction => cases b with
    | noAction => rfl
    | other _ _ => exact absurd h Bool.false_ne_true
  | other id data => cases b with
    | noAction => exact absurd h Bool.false_ne_true
    | other id' data' =>
      exact congrArg some (beq_iff_eq.mp (Bool.and_eq_true_iff.mp h).1)

section Laws

variable [BEq P] [PartialEquivBEq P] {a b c : Action P}

theorem partialEq_symm (h : a.partialEq b = true) : b.partialEq a = true := by
  cases a with
  | noAction => cases b with
    | noAction => rfl
    | other _ _ => exact h
  | other id data => cases b with
    | noAction => exact h
    | other id' data' =>
      obtain ⟨hid, hdata⟩ := Bool.and_eq_true_iff.mp h
      exact Bool.and_eq_true_iff.mpr ⟨BEq.symm hid, BEq.symm hdata⟩

theorem partialEq_trans (h : a.partialEq b = true) (g : b.partialEq c = true) :
    a.partialEq c = true := by
  cases a with
  | noAction => cases b with
    | noAction => exact g
    | other _ _ => exact absurd h Bool.false_ne_true
  | other id data => cases b with
    | noAction => exact absurd h Bool.false_ne_true
    | other id' data' => cases c with
      | noAction => exact g
      | other id'' data'' =>
        obtain ⟨hid, hdata⟩ := Bool.and_eq_true_iff.mp h
        obtain ⟨gid, gdata⟩ := Bool.and_eq_true_iff.mp g
        exact Bool.and_eq_true_iff.mpr ⟨BEq.trans hid gid, BEq.trans hdata gdata⟩

end Laws

theorem isNoAction_eq (a : Action P) : a.isNoAction = a.typeId.isNone := by
  cases a with
  | noAction => rfl
  | other _ _ => rfl

end Action

structure KeyBinding (P : Type) where
  action : Action P
  keystrokes : List KeybindingKeystroke
  contextPredicate : Option KeyBindingContextPredicate
  metaIndex : Option Nat
  actionInput : Option SharedString

namespace KeyBinding

variable {P : Type}

/-- Whether the keystrokes typed match the binding: `some true` when they are a
proper beginning of it. -/
def matchKeystrokes (os : TargetOs) (binding : KeyBinding P) (typed : List Keystroke) :
    Option Bool :=
  if binding.keystrokes.length < typed.length then none
  else if (binding.keystrokes.zip typed).all fun (target, typed) => typed.shouldMatch os target then
    some (decide (typed.length < binding.keystrokes.length))
  else none

/-- The keystrokes of a binding as typed. -/
def chord (binding : KeyBinding P) : List Keystroke :=
  binding.keystrokes.map KeybindingKeystroke.inner

variable {binding : KeyBinding P} {os : TargetOs} {typed : List Keystroke}

theorem matchKeystrokes_eq_some_iff {pending : Bool} :
    binding.matchKeystrokes os typed = some pending ↔
      typed.length ≤ binding.keystrokes.length ∧
        (∀ (i : Nat) (target : KeybindingKeystroke) (keystroke : Keystroke),
        binding.keystrokes[i]? = some target → typed[i]? = some keystroke →
          keystroke.shouldMatch os target = true) ∧
        pending = decide (typed.length < binding.keystrokes.length) := by
  rw [matchKeystrokes]
  refine ⟨fun h => ?_, fun ⟨hlen, hall, hp⟩ => ?_⟩
  · split at h
    · cases h
    · rename_i hle
      obtain ⟨hall, hp⟩ := Option.ite_none_right_eq_some.mp h
      refine ⟨Nat.not_lt.mp hle, fun i target keystroke htarget hkey => ?_, (Option.some.inj hp).symm⟩
      exact List.all_eq_true.mp hall (target, keystroke)
        (List.mem_of_getElem? (List.getElem?_zip_eq_some.mpr ⟨htarget, hkey⟩))
  · rw [if_neg (Nat.not_lt.mpr hlen), hp, if_pos]
    refine List.all_eq_true.mpr fun e he => ?_
    obtain ⟨i, hi⟩ := List.getElem?_of_mem he
    obtain ⟨htarget, hkey⟩ := List.getElem?_zip_eq_some.mp hi
    exact hall i e.1 e.2 htarget hkey

/-- A binding that matches a longer input goes on from the shorter one. -/
theorem matchKeystrokes_of_append {rest : List Keystroke} {pending : Bool} (hrest : rest ≠ [])
    (h : binding.matchKeystrokes os (typed ++ rest) = some pending) :
    binding.matchKeystrokes os typed = some true := by
  obtain ⟨hlen, hall, -⟩ := matchKeystrokes_eq_some_iff.mp h
  have hpos := List.length_pos_iff.mpr hrest
  rw [List.length_append] at hlen
  refine matchKeystrokes_eq_some_iff.mpr ⟨by omega, fun i target keystroke htarget hkey => ?_,
    (decide_eq_true (by omega)).symm⟩
  refine hall i target keystroke htarget ?_
  rw [List.getElem?_append_left (List.getElem?_eq_some_iff.mp hkey).1]
  exact hkey

theorem matchKeystrokes_eq_some_false_iff :
    binding.matchKeystrokes os typed = some false ↔
      List.Forall₂ (fun target typed => Keystroke.shouldMatch os typed target = true)
        binding.keystrokes typed := by
  rw [List.forall₂_iff_zip, matchKeystrokes]
  refine ⟨fun h => ?_, fun ⟨hlen, hall⟩ => ?_⟩
  · split at h
    · exact absurd h (by simp)
    · rename_i hle
      split at h
      · rename_i hall
        have hlt := of_decide_eq_false (Option.some.inj h)
        exact ⟨by omega, fun hmem => List.all_eq_true.mp hall _ hmem⟩
      · exact absurd h (by simp)
  · rw [if_neg (by omega), if_pos (List.all_eq_true.mpr fun e he => hall he),
      decide_eq_false (by omega)]

theorem matchKeystrokes_chord (binding : KeyBinding P) (os : TargetOs) :
    binding.matchKeystrokes os binding.chord = some false := by
  apply matchKeystrokes_eq_some_false_iff.mpr
  rw [chord, List.forall₂_map_right_iff]
  exact List.forall₂_same.mpr fun target _ => Keystroke.shouldMatch_self os target

/-- What matches the keystrokes of a plain binding matches every input that the
binding matches. -/
theorem matchKeystrokes_of_chord {other : KeyBinding P}
    {input : List Keystroke} (hplain : ∀ keystroke ∈ binding.keystrokes, keystroke.inner.Plain)
    (hinput : binding.matchKeystrokes os input = some false)
    (hother : other.matchKeystrokes os binding.chord = some false) :
    other.matchKeystrokes os input = some false := by
  rw [matchKeystrokes_eq_some_false_iff] at hinput hother ⊢
  rw [chord, List.forall₂_map_right_iff] at hother
  obtain ⟨hlen, hinput⟩ := List.forall₂_iff_get.mp hinput
  obtain ⟨hlen', hother⟩ := List.forall₂_iff_get.mp hother
  refine List.forall₂_iff_get.mpr ⟨hlen'.trans hlen, fun i hi hi' => ?_⟩
  have hb : i < binding.keystrokes.length := hlen ▸ hi'
  obtain ⟨hm, hk⟩ := (hplain _ (List.get_mem _ ⟨i, hb⟩)).shouldMatch_iff.mp (hother i hi hb)
  rw [Keystroke.shouldMatch_congr hm hk]
  exact hinput i hb hi'

end KeyBinding

end FcGpui

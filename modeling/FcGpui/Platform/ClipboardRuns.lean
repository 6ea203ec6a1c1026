import FcGpui.Lib.Machine
import FcGpui.Platform.X11Clipboard

/-!
# What comes back from the clipboard

An item that is put on a selection is there as long as no other client takes the selection over.
While it is there `get_any` is answered by what is held, and the item comes back if its format is
among those that are known and nothing has dropped it.

* `getAny_of_held`: reading back what was written.
* `comesBack_step_iff`: a step loses an item where it puts an image that is not PNG, which is held as
  one, or where the server thread takes a loss of ownership for news that came before the item was put.

**Main results.**  `clipboard_iff` and `not_clipboard`.
-/

namespace FcGpui

namespace X11

inductive ClipboardAct
  | setText (message : String) (selection : ClipboardKind)
  | setImage (image : Image) (selection : ClipboardKind)
  /-- Another client takes a selection over, or leaves it without an owner. -/
  | takeOver (selection : ClipboardKind) (owner : Option Nat)
  /-- Another client asks for a selection. -/
  | request (event : SelectionRequestEvent)
  /-- The server thread handles an event. -/
  | serve
  | serveStops
deriving DecidableEq

/-- The process and the X server, and for each selection the item that was put on it, as long as the
process has been its owner since. -/
structure ClipboardRun where
  inner : Inner
  server : XServer
  sent : List XRequest
  put : ClipboardKind → Option ClipboardItem

namespace ClipboardRun

def new (winId : Nat) : ClipboardRun := ⟨.new winId, ⟨fun _ => none, []⟩, [], fun _ => none⟩

/-- What was written is put on the selection, unless the writing failed. -/
def written (w : ClipboardRun) (result : Except Error (Inner × XServer)) (selection : ClipboardKind)
    (item : ClipboardItem) : ClipboardRun :=
  match result with
  | .ok (inner, server) =>
    { w with inner := inner, server := server, put := Function.update w.put selection (some item) }
  | .error _ => w

def step (w : ClipboardRun) : ClipboardAct → Option ClipboardRun
  | .setText message selection =>
    some (w.written (X11.setText w.inner w.server message selection) selection (.newString message))
  | .setImage image selection =>
    some (w.written (X11.setImage w.inner w.server image selection) selection (.ofImage image))
  | .takeOver selection owner =>
    if owner = some w.inner.winId then none
    else
      some
        { w with
          server := w.server.setSelectionOwner w.inner.winId selection owner
          put := Function.update w.put selection none }
  | .request event =>
    some { w with server := { w.server with events := w.server.events ++ [.selectionRequest event] } }
  | .serve =>
    match w.inner.serveStopped, w.server.events with
    | false, event :: events =>
      some
        { w with
          inner := (w.inner.serve event).1
          server := { w.server with events := events }
          sent := w.sent ++ (w.inner.serve event).2 }
    | _, _ => none
  | .serveStops => some { w with inner := { w.inner with serveStopped := true } }

/-- The item that is on a selection is the one that `get_any` returns. -/
def ComesBack (w : ClipboardRun) : Prop :=
  ∀ (selection : ClipboardKind) (item : ClipboardItem), w.put selection = some item →
    ∀ foreign : Except Error ClipboardData, getAny w.inner w.server foreign selection = .ok item

/-- An image that is put is PNG, and news that a selection was lost comes while there is no item on it. -/
def KeepsItems (w : ClipboardRun) : ClipboardAct → Prop
  | .setImage image _ => w.inner.serveStopped = false → image.format = .png
  | .serve => ∀ selection : ClipboardKind,
    w.server.events.head? = some (.selectionClear (atomOf selection)) → w.put selection = none
  | _ => True

/-! ### Reading back -/

section Held

variable {inner : Inner} {server : XServer} {selection : ClipboardKind}

@[simp] theorem selectionOf_setData (inner : Inner) (selection other : ClipboardKind)
    (data : Option (List ClipboardData)) : (inner.setData selection data).selectionOf other =
      if other = selection then data else inner.selectionOf other := by
  cases selection <;> cases other <;> rfl

@[simp] theorem winId_setData (inner : Inner) (selection : ClipboardKind)
    (data : Option (List ClipboardData)) : (inner.setData selection data).winId = inner.winId := by
  cases selection <;> rfl

/-- **Reading back** what is held of a known format. -/
theorem getAny_of_held (howner : server.owner selection = some inner.winId) {data : ClipboardData}
    (hdata : inner.selectionOf selection = some [data])
    (hformat : data.format ∈ imageFormatAtoms ++ textFormatAtoms)
    (foreign : Except Error ClipboardData) : getAny inner server foreign selection = toItem data := by
  have hfind : ([data].find? fun data =>
      (imageFormatAtoms ++ textFormatAtoms).any fun format => format = data.format) = some data := by
    apply List.find?_cons_of_pos
    exact List.any_eq_true.mpr ⟨_, hformat, decide_eq_true rfl⟩
  rw [getAny, Inner.read, Inner.isOwner, howner]
  simp only [decide_true, if_true, hdata, hfind]
  rfl

theorem getAny_of_dropped (howner : server.owner selection = some inner.winId)
    (hdata : inner.selectionOf selection = none) (foreign : Except Error ClipboardData) :
    getAny inner server foreign selection = .error .contentNotAvailable := by
  rw [getAny, Inner.read, Inner.isOwner, howner]
  simp only [decide_true, if_true, hdata]
  rfl

theorem fromUTF8?_toUTF8 (text : String) : String.fromUTF8? text.toUTF8 = some text := by
  unfold String.fromUTF8?
  split
  · rfl
  · rename_i h
    exact absurd text.isValidUTF8 h

theorem toItem_text (message : String) :
    toItem { bytes := message.toUTF8, format := .utf8String } = .ok (.newString message) := by
  have hfind : ((imageFormatAtoms.zip imageFormats).find? fun pair => Atom.utf8String = pair.1) = none := by
    decide
  rw [toItem]
  simp only [hfind, fromUTF8?_toUTF8, reduceCtorEq, if_false]

theorem toItem_png (bytes : ByteArray) :
    toItem { bytes := bytes, format := .pngMime } = .ok (.ofImage ⟨.png, bytes⟩) := rfl

end Held

/-- An item is on a selection of which the process is the owner. -/
def Owns (w : ClipboardRun) : Prop :=
  ∀ selection : ClipboardKind, (w.put selection).isSome → w.server.owner selection = some w.inner.winId

variable {w w' : ClipboardRun}

variable {selection : ClipboardKind}

theorem getAny_congr {inner inner' : Inner} {server server' : XServer}
    (hdata : inner'.selectionOf selection = inner.selectionOf selection)
    (howner : inner'.isOwner server' selection = inner.isOwner server selection)
    (foreign : Except Error ClipboardData) :
    getAny inner' server' foreign selection = getAny inner server foreign selection := by
  rw [getAny, getAny, Inner.read, Inner.read, hdata, howner]

/-- Everything is as it was, for a selection. -/
structure SameAt (w w' : ClipboardRun) (selection : ClipboardKind) : Prop where
  put : w'.put selection = w.put selection
  data : w'.inner.selectionOf selection = w.inner.selectionOf selection
  owner : w'.server.owner selection = w.server.owner selection
  winId : w'.inner.winId = w.inner.winId

theorem SameAt.comesBack {item : ClipboardItem} (h : SameAt w w' selection)
    (hgood : w.ComesBack) (hput : w'.put selection = some item) (foreign : Except Error ClipboardData) :
    getAny w'.inner w'.server foreign selection = .ok item := by
  have howner : w'.inner.isOwner w'.server selection = w.inner.isOwner w.server selection := by
    rw [Inner.isOwner, Inner.isOwner, h.owner, h.winId]
  rw [h.put] at hput
  rw [getAny_congr h.data howner]
  exact hgood selection item hput foreign

theorem SameAt.owns (h : SameAt w w' selection) (hown : w.Owns)
    (hput : (w'.put selection).isSome) : w'.server.owner selection = some w'.inner.winId := by
  rw [h.put] at hput
  rw [h.owner, h.winId]
  exact hown selection hput

/-! ### An item is put on a selection -/

/-- What `write` does. -/
def putOn (w : ClipboardRun) (data : ClipboardData) (selection : ClipboardKind) (item : ClipboardItem) :
    ClipboardRun :=
  { w with
    inner := w.inner.setData selection (some [data])
    server := w.server.setSelectionOwner w.inner.winId selection (some w.inner.winId)
    put := Function.update w.put selection (some item) }

theorem written_write (data : ClipboardData) (selection : ClipboardKind) (item : ClipboardItem) :
    w.written (w.inner.write w.server [data] selection) selection item =
      if w.inner.serveStopped then w else w.putOn data selection item := by
  rw [Inner.write]
  split_ifs <;> rfl

theorem sameAt_putOn {data : ClipboardData} {other : ClipboardKind} {item : ClipboardItem}
    (h : other ≠ selection) : SameAt w (w.putOn data selection item) other where
  put := Function.update_of_ne h _ _
  data := by rw [putOn, selectionOf_setData, if_neg h]
  owner := Function.update_of_ne h _ _
  winId := winId_setData _ _ _

/-- **What is put comes back** just where it is read as it was written. -/
theorem comesBack_putOn (hgood : w.ComesBack) {data : ClipboardData}
    {item : ClipboardItem} (hformat : data.format ∈ imageFormatAtoms ++ textFormatAtoms) :
    (w.putOn data selection item).ComesBack ↔ toItem data = .ok item := by
  have howner : (w.putOn data selection item).server.owner selection =
      some (w.putOn data selection item).inner.winId := by
    rw [putOn, winId_setData]
    exact Function.update_self _ _ _
  have hdata : (w.putOn data selection item).inner.selectionOf selection = some [data] := by
    rw [putOn, selectionOf_setData, if_pos rfl]
  have hput : (w.putOn data selection item).put selection = some item := Function.update_self _ _ _
  constructor
  · intro h
    rw [← getAny_of_held howner hdata hformat (.error .contentNotAvailable)]
    exact h selection item hput _
  · intro hitem other item' hput' foreign
    by_cases hother : other = selection
    · subst hother
      obtain rfl := Option.some.inj (hput.symm.trans hput')
      rw [getAny_of_held howner hdata hformat, hitem]
    · exact (sameAt_putOn hother).comesBack hgood hput' foreign

theorem owns_putOn (hown : w.Owns) (data : ClipboardData) (selection : ClipboardKind)
    (item : ClipboardItem) : (w.putOn data selection item).Owns := by
  intro other hput
  by_cases hother : other = selection
  · subst hother
    rw [putOn, winId_setData]
    exact Function.update_self _ _ _
  · exact (sameAt_putOn hother).owns hown hput

/-! ### Other clients -/

theorem sameAt_takeOver {other : ClipboardKind} {owner : Option Nat} (h : other ≠ selection) :
    SameAt w
      { w with
        server := w.server.setSelectionOwner w.inner.winId selection owner
        put := Function.update w.put selection none } other where
  put := Function.update_of_ne h _ _
  data := rfl
  owner := Function.update_of_ne h _ _
  winId := rfl

/-- The state after the server thread has handled an event. -/
def served (w : ClipboardRun) (event : Event) (events : List Event) : ClipboardRun :=
  { w with
    inner := (w.inner.serve event).1
    server := { w.server with events := events }
    sent := w.sent ++ (w.inner.serve event).2 }

theorem sameAt_served {event : Event} {events : List Event}
    (h : event ≠ .selectionClear (atomOf selection)) : SameAt w (w.served event events) selection := by
  cases event with
  | selectionRequest event => exact ⟨rfl, rfl, rfl, rfl⟩
  | selectionClear cleared =>
    cases hkind : kindOf cleared with
    | none =>
      have hserve : w.inner.serve (.selectionClear cleared) = (w.inner, []) := by
        rw [Inner.serve, hkind]
      refine ⟨rfl, ?_, rfl, ?_⟩ <;> rw [served, hserve]
    | some kind =>
      have hserve : w.inner.serve (.selectionClear cleared) = (w.inner.setData kind none, []) := by
        rw [Inner.serve, hkind]
      have hne : selection ≠ kind := by
        rintro rfl
        refine h (congrArg Event.selectionClear ?_)
        rw [kindOf] at hkind
        split_ifs at hkind with h1 h2 h3
        · cases hkind
          exact h1
        · cases hkind
          exact h2
        · cases hkind
          exact h3
      refine ⟨rfl, ?_, rfl, ?_⟩
      · rw [served, hserve, selectionOf_setData, if_neg hne]
      · rw [served, hserve, winId_setData]

/-- **News that the selection was lost** drops what is on it. -/
theorem comesBack_served_iff (hown : w.Owns) (hgood : w.ComesBack) {event : Event} {events : List Event} :
    (w.served event events).ComesBack ↔ ∀ selection : ClipboardKind,
      event = .selectionClear (atomOf selection) → w.put selection = none := by
  constructor
  · rintro h selection rfl
    by_contra hput
    obtain ⟨item, hitem⟩ := Option.ne_none_iff_exists'.mp hput
    have hserve : w.inner.serve (.selectionClear (atomOf selection)) =
        (w.inner.setData selection none, []) := by rw [Inner.serve, kindOf_atomOf]
    have hback := h selection item hitem (.error .conversionFailure)
    rw [getAny_of_dropped] at hback
    · cases hback
    · rw [served, hserve, winId_setData]
      exact hown selection (by rw [hitem]; rfl)
    · rw [served, hserve, selectionOf_setData, if_pos rfl]
  · intro hcond selection item hput foreign
    have hne : event ≠ .selectionClear (atomOf selection) := by
      intro heq
      have hnone : (w.served event events).put selection = none := hcond selection heq
      rw [hput] at hnone
      cases hnone
    exact (sameAt_served hne).comesBack hgood hput foreign

theorem owns_served (hown : w.Owns) (event : Event) (events : List Event) :
    (w.served event events).Owns := by
  intro selection hput
  have hwin : (w.served event events).inner.winId = w.inner.winId := by
    cases event with
    | selectionRequest event => rfl
    | selectionClear cleared =>
      rw [served, Inner.serve]
      cases kindOf cleared with
      | none => rfl
      | some kind => exact winId_setData _ _ _
  rw [hwin]
  exact hown selection hput

/-! ### Runs -/

theorem serve_eq_some (hstep : w.step .serve = some w') : ∃ event events,
    w.server.events = event :: events ∧ w' = w.served event events := by
  rw [step] at hstep
  cases hstopped : w.inner.serveStopped with
  | true =>
    rw [hstopped] at hstep
    cases hstep
  | false =>
    rw [hstopped] at hstep
    cases hevents : w.server.events with
    | nil =>
      rw [hevents] at hstep
      cases hstep
    | cons event events =>
      rw [hevents] at hstep
      cases hstep
      exact ⟨event, events, rfl, rfl⟩

theorem Owns.step (hown : w.Owns) {act : ClipboardAct} (hstep : w.step act = some w') : w'.Owns := by
  have hput : ∀ (data : ClipboardData) (selection : ClipboardKind) (item : ClipboardItem),
      (w.written (w.inner.write w.server [data] selection) selection item).Owns := by
    intro data selection item
    rw [written_write]
    split_ifs
    · exact hown
    · exact owns_putOn hown _ _ _
  cases act with
  | setText message selection =>
    cases hstep
    exact hput _ _ _
  | setImage image selection =>
    cases hstep
    exact hput _ _ _
  | takeOver selection owner =>
    rw [ClipboardRun.step] at hstep
    split_ifs at hstep
    cases hstep
    intro other hother
    by_cases hsame : other = selection
    · subst hsame
      simp at hother
    · exact (sameAt_takeOver hsame).owns hown hother
  | request event =>
    cases hstep
    exact hown
  | serve =>
    obtain ⟨event, events, -, rfl⟩ := serve_eq_some hstep
    exact owns_served hown event events
  | serveStops =>
    cases hstep
    exact hown

/-- **One step** keeps the items, or loses one. -/
theorem comesBack_step_iff (hown : w.Owns) (hgood : w.ComesBack) {act : ClipboardAct}
    (hstep : w.step act = some w') : w'.ComesBack ↔ w.KeepsItems act := by
  cases act with
  | setText message selection =>
    cases hstep
    refine iff_of_true ?_ trivial
    rw [setText, written_write]
    split_ifs
    · exact hgood
    · exact (comesBack_putOn hgood (by simp [textFormatAtoms])).mpr (toItem_text message)
  | setImage image selection =>
    cases hstep
    rw [setImage, written_write]
    obtain ⟨format, bytes⟩ := image
    cases hstopped : w.inner.serveStopped with
    | true =>
      rw [if_pos rfl]
      refine iff_of_true hgood fun hfalse => ?_
      rw [hstopped] at hfalse
      cases hfalse
    | false =>
      rw [if_neg Bool.false_ne_true, comesBack_putOn hgood (by simp [imageFormatAtoms]), toItem_png]
      simp only [ClipboardRun.KeepsItems, hstopped, ClipboardItem.ofImage, Except.ok.injEq,
        ClipboardItem.mk.injEq, List.cons.injEq, ClipboardEntry.image.injEq, Image.mk.injEq, and_true,
        true_implies]
      exact eq_comm
  | takeOver selection owner =>
    rw [ClipboardRun.step] at hstep
    split_ifs at hstep
    cases hstep
    refine iff_of_true ?_ trivial
    intro other item hother foreign
    by_cases hsame : other = selection
    · subst hsame
      simp at hother
    · exact (sameAt_takeOver hsame).comesBack hgood hother foreign
  | request event =>
    cases hstep
    exact iff_of_true hgood trivial
  | serve =>
    obtain ⟨event, events, hevents, rfl⟩ := serve_eq_some hstep
    rw [comesBack_served_iff hown hgood, ClipboardRun.KeepsItems, hevents]
    simp only [List.head?_cons, Option.some.injEq]
  | serveStops =>
    cases hstep
    refine iff_of_true ?_ trivial
    intro selection item hput foreign
    have hsame : SameAt w { w with inner := { w.inner with serveStopped := true } } selection :=
      ⟨rfl, by cases selection <;> rfl, rfl, rfl⟩
    exact hsame.comesBack hgood hput foreign

theorem owns_new (winId : Nat) : (new winId).Owns := by
  intro selection h
  cases h

theorem comesBack_new (winId : Nat) : (new winId).ComesBack := by
  intro selection item h
  cases h

/-- **What is put comes back** throughout the runs in which every image is PNG and no news of a loss is
handled behind an item, and in no others. -/
theorem clipboard_iff (winId : Nat) (acts : List ClipboardAct)
    (hrun : FcGpui.run step (new winId) acts = some w) :
    Throughout step ComesBack (new winId) acts ↔ RunMeets step KeepsItems (new winId) acts :=
  throughout_iff (fun _ _ _ h hstep => Owns.step h hstep)
    (fun _ _ _ h hgood hstep => comesBack_step_iff h hgood hstep) acts (owns_new winId)
    (comesBack_new winId) hrun

def textThenTakenOver : List ClipboardAct :=
  [.setText "text" .clipboard, .takeOver .clipboard (some 2), .serve]

theorem clipboard_iff_textThenTakenOver :
    Throughout step ComesBack (new 1) textThenTakenOver ↔
      RunMeets step KeepsItems (new 1) textThenTakenOver :=
  clipboard_iff 1 textThenTakenOver rfl

/-- A JPEG image comes back as PNG. -/
theorem not_clipboard : ¬ ∀ (winId : Nat) (acts : List ClipboardAct) (w : ClipboardRun),
    FcGpui.run step (new winId) acts = some w → Throughout step ComesBack (new winId) acts := by
  intro h
  have hlast := (h 1 [.setImage ⟨.jpeg, ByteArray.empty⟩ .primary] _ rfl).last _ rfl
  have hback := hlast .primary (.ofImage ⟨.jpeg, ByteArray.empty⟩) rfl (.error .contentNotAvailable)
  exact absurd hback (by decide)

end ClipboardRun

end X11

end FcGpui

/-!
# The targets that the clipboard offers

The answer to `TARGETS` lists the formats of the data that are held, and behind `UTF8_STRING` two
others that are the same.  A request is answered with the first data whose format is just the one
asked for (`serves_iff`), so that the other two are offered and refused.

**Main results.**  `allServed_iff` and `not_allServed`.
-/

namespace FcGpui

namespace X11

/-- The data that are held. -/
def held (inner : Inner) (selection : ClipboardKind) : List ClipboardData :=
  (inner.selectionOf selection).getD []

/-- The bytes of `data` are what `target` stands for. -/
def Stands (data : ClipboardData) (target : Atom) : Prop :=
  data.format = target ∨ data.format = .utf8String ∧ (target = .utf8Mime0 ∨ target = .utf8Mime1)

/-- The target is listed in an answer to `TARGETS`. -/
def Advertised (inner : Inner) (selection : ClipboardKind) (target : Atom) : Prop :=
  ∃ (event : SelectionRequestEvent) (targets : List Atom), event.selection = atomOf selection ∧
    event.target = .targets ∧ target ∈ targets ∧
      .changeProperty32 event.requestor event.property .atom targets ∈
        inner.handleSelectionRequest event

/-- The target is answered with bytes that are held, which are put where the request says. -/
def Serves (inner : Inner) (selection : ClipboardKind) (target : Atom) : Prop :=
  ∀ event : SelectionRequestEvent, event.selection = atomOf selection → event.target = target →
    ∃ data ∈ held inner selection, Stands data target ∧ inner.handleSelectionRequest event =
      [.changeProperty8 event.requestor event.property target data.bytes,
        .sendEvent event.requestor
          { sequence := event.sequence
            time := event.time
            requestor := event.requestor
            selection := event.selection
            target := event.target
            property := event.property }]

/-- Every target that is listed is served. -/
def AllServed (inner : Inner) (selection : ClipboardKind) : Prop :=
  ∀ target, Advertised inner selection target → target ≠ .targets → target ≠ .saveTargets →
    Serves inner selection target

/-- A target is asked for. -/
def requestFor (selection : ClipboardKind) (target : Atom) : SelectionRequestEvent :=
  ⟨0, 0, 0, atomOf selection, target, .arboardClipboard⟩

variable {inner : Inner} {selection : ClipboardKind} {target : Atom}

theorem advertised_iff : Advertised inner selection target ↔ target ∈ inner.targets selection := by
  have hanswer : ∀ event : SelectionRequestEvent, event.selection = atomOf selection →
      event.target = .targets → inner.handleSelectionRequest event =
        [.changeProperty32 event.requestor event.property .atom (inner.targets selection),
          .sendEvent event.requestor ⟨event.sequence, event.time, event.requestor, event.selection,
            event.target, event.property⟩] := by
    intro event hselection htarget
    rw [Inner.handleSelectionRequest, hselection, kindOf_atomOf]
    simp only [Inner.answerSelectionRequest, htarget, if_true]
    rfl
  constructor
  · rintro ⟨event, targets, hselection, htarget, hmem, hwritten⟩
    rw [hanswer event hselection htarget] at hwritten
    simp only [List.mem_cons, XRequest.changeProperty32.injEq, true_and, reduceCtorEq,
      List.not_mem_nil, or_false] at hwritten
    rwa [hwritten] at hmem
  · intro hmem
    refine ⟨requestFor selection .targets, inner.targets selection, rfl, rfl, hmem, ?_⟩
    rw [hanswer _ rfl rfl]
    exact List.mem_cons_self

theorem answer_of_ne (h : target ≠ .targets) {event : SelectionRequestEvent} (htarget : event.target = target) :
    inner.answerSelectionRequest selection event =
      match (held inner selection).find? fun d => d.format = target with
      | some data => ([.changeProperty8 event.requestor event.property target data.bytes], true)
      | none => ([], false) := by
  rw [Inner.answerSelectionRequest, htarget, if_neg h, held]
  cases inner.selectionOf selection <;> rfl

/-- **A target is served** just where data of that very format are held. -/
theorem serves_iff (h : target ≠ .targets) :
    Serves inner selection target ↔ ∃ data ∈ held inner selection, data.format = target := by
  cases hfind : (held inner selection).find? fun d => d.format = target with
  | none =>
    have hno : ¬ ∃ data ∈ held inner selection, data.format = target := by
      rintro ⟨data, hmem, hformat⟩
      exact List.find?_eq_none.mp hfind data hmem (decide_eq_true hformat)
    refine iff_of_false (fun hserves => ?_) hno
    obtain ⟨data, -, -, hanswer⟩ := hserves (requestFor selection target) rfl rfl
    rw [Inner.handleSelectionRequest, requestFor, kindOf_atomOf] at hanswer
    simp only at hanswer
    rw [answer_of_ne h rfl, hfind] at hanswer
    simp at hanswer
  | some data =>
    have hmem := List.mem_of_find?_eq_some hfind
    have hformat : data.format = target := by simpa using List.find?_some hfind
    refine iff_of_true (fun event hselection htarget => ?_) ⟨data, hmem, hformat⟩
    refine ⟨data, hmem, Or.inl hformat, ?_⟩
    rw [Inner.handleSelectionRequest, hselection, kindOf_atomOf]
    simp only
    rw [answer_of_ne h htarget, hfind]
    rfl

theorem mem_targets : target ∈ inner.targets selection ↔ target = .targets ∨ target = .saveTargets ∨
    (∃ data ∈ held inner selection, data.format = target) ∨
      (∃ data ∈ held inner selection, data.format = .utf8String) ∧
        (target = .utf8Mime0 ∨ target = .utf8Mime1) := by
  have hdata : ∀ data : ClipboardData,
      (target ∈ if data.format = .utf8String then [data.format, .utf8Mime0, .utf8Mime1]
        else [data.format]) ↔
        data.format = target ∨ data.format = .utf8String ∧ (target = .utf8Mime0 ∨ target = .utf8Mime1) := by
    intro data
    split_ifs with hutf8
    · simp [hutf8, eq_comm]
    · simp [hutf8, eq_comm]
  rw [Inner.targets, List.mem_append, List.mem_flatMap, ← held]
  simp only [hdata, List.mem_cons, List.not_mem_nil, or_false]
  constructor
  · rintro ((h | h) | ⟨data, hmem, h | ⟨hutf8, h⟩⟩)
    · exact Or.inl h
    · exact Or.inr (Or.inl h)
    · exact Or.inr (Or.inr (Or.inl ⟨data, hmem, h⟩))
    · exact Or.inr (Or.inr (Or.inr ⟨⟨data, hmem, hutf8⟩, h⟩))
  · rintro (h | h | ⟨data, hmem, h⟩ | ⟨⟨data, hmem, hutf8⟩, h⟩)
    · exact Or.inl (Or.inl h)
    · exact Or.inl (Or.inr h)
    · exact Or.inr ⟨data, hmem, Or.inl h⟩
    · exact Or.inr ⟨data, hmem, Or.inr ⟨hutf8, h⟩⟩

/-- **What is offered is served**, if no `UTF8_STRING` is held, or the two others with it. -/
theorem allServed_iff (inner : Inner) (selection : ClipboardKind) : AllServed inner selection ↔
    (∀ data ∈ held inner selection, data.format ≠ .utf8String) ∨
      (∃ data ∈ held inner selection, data.format = .utf8Mime0) ∧
        ∃ data ∈ held inner selection, data.format = .utf8Mime1 := by
  constructor
  · intro hall
    by_cases hutf8 : ∃ data ∈ held inner selection, data.format = .utf8String
    · have hmime : ∀ target, target = .utf8Mime0 ∨ target = .utf8Mime1 →
          ∃ data ∈ held inner selection, data.format = target := by
        intro target htarget
        have htargets : target ≠ .targets := by rcases htarget with rfl | rfl <;> decide
        have hsave : target ≠ .saveTargets := by rcases htarget with rfl | rfl <;> decide
        refine (serves_iff htargets).mp (hall target (advertised_iff.mpr ?_) htargets hsave)
        exact mem_targets.mpr (Or.inr (Or.inr (Or.inr ⟨hutf8, htarget⟩)))
      exact Or.inr ⟨hmime _ (Or.inl rfl), hmime _ (Or.inr rfl)⟩
    · exact Or.inl fun data hmem hformat => hutf8 ⟨data, hmem, hformat⟩
  · intro hcond target hadvertised htargets hsave
    rw [serves_iff htargets]
    rcases mem_targets.mp (advertised_iff.mp hadvertised) with h | h | h | ⟨⟨data, hmem, hutf8⟩, h⟩
    · exact absurd h htargets
    · exact absurd h hsave
    · exact h
    · rcases hcond with hnone | ⟨hmime0, hmime1⟩
      · exact absurd hutf8 (hnone data hmem)
      · rcases h with rfl | rfl
        · exact hmime0
        · exact hmime1

/-- A text is held. -/
def holdingText : Inner :=
  (Inner.new 1).setData .clipboard (some [{ bytes := "text".toUTF8, format := .utf8String }])

/-- A text is offered under three names, and given under one. -/
theorem not_allServed : ¬ ∀ (inner : Inner) (selection : ClipboardKind), AllServed inner selection := by
  intro h
  have hoffered : Atom.utf8Mime0 ∈ holdingText.targets .clipboard := by decide
  have hserves := h holdingText .clipboard _ (advertised_iff.mpr hoffered) (by decide) (by decide)
  obtain ⟨data, hmem, hformat⟩ := (serves_iff (by decide)).mp hserves
  obtain rfl := List.mem_singleton.mp hmem
  cases hformat

end X11

end FcGpui

import Mathlib

/-!
# The X11 clipboard

The process owns a window, and with it any of three selections.  What is put on one is held as a list
of data in some formats; a server thread answers the requests of other clients for it, and drops it
when another client takes the selection over.

Atoms are given by the names that they are interned by.  Of the X server there is the owner of each
selection and the queue of events for the window; the connection does not fail, and what another
owner answers is a parameter.
-/

namespace FcGpui

namespace X11

inductive Atom
  | none
  | clipboard
  | primary
  | secondary
  | clipboardManager
  | saveTargets
  | targets
  | atom
  | incr
  | utf8String
  /-- "text/plain;charset=utf-8" -/
  | utf8Mime0
  /-- "text/plain;charset=UTF-8" -/
  | utf8Mime1
  /-- Text in ISO Latin-1. -/
  | string
  /-- Text in an encoding that is not known. -/
  | text
  | textMimeUnknown
  | pngMime
  | jpegMime
  | webpMime
  | gifMime
  | svgMime
  | bmpMime
  | tiffMime
  | arboardClipboard
  | other (n : Nat)
deriving DecidableEq, Repr

inductive ImageFormat
  | png
  | jpeg
  | webp
  | gif
  | svg
  | bmp
  | tiff
deriving DecidableEq, Repr

structure Image where
  format : ImageFormat
  bytes : ByteArray
deriving DecidableEq

/-- A string without metadata, or an image. -/
inductive ClipboardEntry
  | string (text : String)
  | image (image : Image)
deriving DecidableEq

structure ClipboardItem where
  entries : List ClipboardEntry
deriving DecidableEq

def ClipboardItem.newString (text : String) : ClipboardItem := ⟨[.string text]⟩

def ClipboardItem.ofImage (image : Image) : ClipboardItem := ⟨[.image image]⟩

inductive ClipboardKind
  | clipboard
  | primary
  | secondary
deriving DecidableEq, Repr

inductive Error
  | contentNotAvailable
  | clipboardOccupied
  | conversionFailure
  | unknown (description : String)
deriving DecidableEq, Repr

structure ClipboardData where
  bytes : ByteArray
  format : Atom
deriving DecidableEq

/-- Somebody asks for a selection, to be written to a property of a window. -/
structure SelectionRequestEvent where
  sequence : Nat
  time : Nat
  requestor : Nat
  selection : Atom
  target : Atom
  property : Atom
deriving DecidableEq, Repr

inductive Event
  | selectionClear (selection : Atom)
  | selectionRequest (event : SelectionRequestEvent)
deriving DecidableEq, Repr

structure SelectionNotifyEvent where
  sequence : Nat
  time : Nat
  requestor : Nat
  selection : Atom
  target : Atom
  property : Atom
deriving DecidableEq, Repr

/-- What is sent to the X server. -/
inductive XRequest
  | changeProperty32 (window : Nat) (property type : Atom) (data : List Atom)
  | changeProperty8 (window : Nat) (property type : Atom) (data : ByteArray)
  | sendEvent (destination : Nat) (event : SelectionNotifyEvent)
deriving DecidableEq

/-- The X server: who owns a selection, and the events for the window of this process. -/
structure XServer where
  owner : ClipboardKind → Option Nat
  events : List Event

structure Inner where
  winId : Nat
  clipboard : Option (List ClipboardData)
  primary : Option (List ClipboardData)
  secondary : Option (List ClipboardData)
  serveStopped : Bool

def atomOf : ClipboardKind → Atom
  | .clipboard => .clipboard
  | .primary => .primary
  | .secondary => .secondary

def kindOf (selection : Atom) : Option ClipboardKind :=
  if selection = .clipboard then some .clipboard
  else if selection = .primary then some .primary
  else if selection = .secondary then some .secondary
  else none

@[simp] theorem kindOf_atomOf (selection : ClipboardKind) : kindOf (atomOf selection) = some selection := by
  cases selection <;> rfl

/-- A selection has a new owner; the old one is told. -/
def XServer.setSelectionOwner (self : XServer) (winId : Nat) (selection : ClipboardKind)
    (owner : Option Nat) : XServer :=
  { owner := Function.update self.owner selection owner
    events :=
      if self.owner selection = some winId ∧ owner ≠ some winId then
        self.events ++ [.selectionClear (atomOf selection)]
      else self.events }

namespace Inner

def new (winId : Nat) : Inner := ⟨winId, none, none, none, false⟩

/-- The data of a selection. -/
def selectionOf (self : Inner) : ClipboardKind → Option (List ClipboardData)
  | .clipboard => self.clipboard
  | .primary => self.primary
  | .secondary => self.secondary

def setData (self : Inner) (selection : ClipboardKind) (data : Option (List ClipboardData)) : Inner :=
  match selection with
  | .clipboard => { self with clipboard := data }
  | .primary => { self with primary := data }
  | .secondary => { self with secondary := data }

def isOwner (self : Inner) (server : XServer) (selection : ClipboardKind) : Bool :=
  server.owner selection = some self.winId

/-- It is not waited for the content to be asked for. -/
def write (self : Inner) (server : XServer) (data : List ClipboardData) (selection : ClipboardKind) :
    Except Error (Inner × XServer) :=
  if self.serveStopped then
    .error (.unknown ("The clipboard handler thread seems to have stopped. "
      ++ "Logging messages may reveal the cause. (See the `log` crate.)"))
  else
    .ok (self.setData selection (some data),
      server.setSelectionOwner self.winId selection (some self.winId))

/-- The data are tried one after another, each for all formats; `foreign` is what another owner gives. -/
def read (self : Inner) (server : XServer) (foreign : Except Error ClipboardData)
    (formats : List Atom) (selection : ClipboardKind) : Except Error ClipboardData :=
  if self.isOwner server selection then
    match self.selectionOf selection with
    | some dataList =>
      match dataList.find? fun data => formats.any fun format => format = data.format with
      | some data => .ok data
      | none => .error .contentNotAvailable
    | none => .error .contentNotAvailable
  else foreign

/-- The answer to `TARGETS`. -/
def targets (self : Inner) (selection : ClipboardKind) : List Atom :=
  [.targets, .saveTargets] ++
    ((self.selectionOf selection).getD []).flatMap fun data =>
      if data.format = .utf8String then [data.format, .utf8Mime0, .utf8Mime1] else [data.format]

/-- What is written to the requestor, and whether it is a success. -/
def answerSelectionRequest (self : Inner) (selection : ClipboardKind) (event : SelectionRequestEvent) :
    List XRequest × Bool :=
  if event.target = .targets then
    ([.changeProperty32 event.requestor event.property .atom (self.targets selection)], true)
  else
    match self.selectionOf selection with
    | some dataList =>
      match dataList.find? fun d => d.format = event.target with
      | some data => ([.changeProperty8 event.requestor event.property event.target data.bytes], true)
      | none => ([], false)
    | none => ([], false)

def handleSelectionRequest (self : Inner) (event : SelectionRequestEvent) : List XRequest :=
  match kindOf event.selection with
  | none => []
  | some selection =>
    (self.answerSelectionRequest selection event).1 ++
      [.sendEvent event.requestor
        { sequence := event.sequence
          time := event.time
          requestor := event.requestor
          selection := event.selection
          target := event.target
          property := if (self.answerSelectionRequest selection event).2 then event.property else .none }]

/-- The body of the loop of `serve_requests`: one event. -/
def serve (self : Inner) : Event → Inner × List XRequest
  | .selectionClear selection =>
    match kindOf selection with
    | some selection => (self.setData selection none, [])
    | none => (self, [])
  | .selectionRequest event => (self, self.handleSelectionRequest event)

end Inner

/-! ### `Clipboard` -/

def setText (inner : Inner) (server : XServer) (message : String) (selection : ClipboardKind) :
    Except Error (Inner × XServer) :=
  inner.write server [{ bytes := message.toUTF8, format := .utf8String }] selection

/-- The atom that `set_image` computes, and does not use. -/
def imageFormatAtom : ImageFormat → Atom
  | .png => .pngMime
  | .jpeg => .jpegMime
  | .webp => .webpMime
  | .gif => .gifMime
  | .svg => .svgMime
  | .bmp => .bmpMime
  | .tiff => .tiffMime

def setImage (inner : Inner) (server : XServer) (image : Image) (selection : ClipboardKind) :
    Except Error (Inner × XServer) :=
  let _format := imageFormatAtom image.format
  inner.write server [{ bytes := image.bytes, format := .pngMime }] selection

def imageFormatAtoms : List Atom :=
  [.pngMime, .jpegMime, .webpMime, .gifMime, .svgMime, .bmpMime, .tiffMime]

def imageFormats : List ImageFormat := [.png, .jpeg, .webp, .gif, .svg, .bmp, .tiff]

def textFormatAtoms : List Atom := [.utf8String, .utf8Mime0, .utf8Mime1, .string, .text, .textMimeUnknown]

/-- ISO Latin-1 has a character for each byte. -/
def latin1 (bytes : ByteArray) : String :=
  String.ofList (bytes.toList.map fun c => Char.ofNat c.toNat)

/-- What is read, as an item. -/
def toItem (result : ClipboardData) : Except Error ClipboardItem :=
  match (imageFormatAtoms.zip imageFormats).find? fun pair => result.format = pair.1 with
  | some pair => .ok (.ofImage { format := pair.2, bytes := result.bytes })
  | none =>
    if result.format = .string then .ok (.newString (latin1 result.bytes))
    else
      match String.fromUTF8? result.bytes with
      | some text => .ok (.newString text)
      | none => .error .conversionFailure

def getAny (inner : Inner) (server : XServer) (foreign : Except Error ClipboardData)
    (selection : ClipboardKind) : Except Error ClipboardItem :=
  (inner.read server foreign (imageFormatAtoms ++ textFormatAtoms) selection).bind toItem

end X11

end FcGpui

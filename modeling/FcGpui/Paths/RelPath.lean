import FcGpui.Lib.Separated

/-!
# Relative paths

A `RelPath` is a string that should be a relative path in normal form, with `'/'`
between its components.  `RelPath.new` brings a path to that form; every other operation
cuts or glues strings that are taken to be in it, and does not check.

Strings are lists of characters, and their slices are at ASCII characters.  Of
`std::path` there is what `set_extension` uses of it, as on Unix.
-/

namespace FcGpui

inductive PathStyle
  | posix
  | windows
deriving DecidableEq, Repr

def isAbsolute (pathLike : List Char) (pathStyle : PathStyle) : Bool :=
  pathLike.head? = some '/'
    || pathStyle = .windows
      && (pathLike.head? = some '\\'
        || pathLike.head?.any Char.isAlpha
          && (pathLike.drop 1).head? = some ':'
          && ((pathLike.drop 2).head? = some '/' || (pathLike.drop 2).head? = some '\\'))

/-- A path of the file system; `toStr` is its text, if that is valid unicode. -/
structure OsPath where
  toStr : Option (List Char)
deriving DecidableEq, Repr

structure RelPath where
  str : List Char
deriving DecidableEq, Repr

structure RelPathBuf where
  str : List Char
deriving DecidableEq, Repr

inductive RelPathError
  /-- "non utf-8 path" -/
  | nonUtf8
  /-- "absolute path not allowed" -/
  | absolute (path : List Char)
  /-- "path is not relative" -/
  | notRelative (path : List Char)
  /-- "invalid relative path" -/
  | invalid (path : OsPath)
  /-- "failed to strip prefix" -/
  | stripPrefix (other self : RelPath)
deriving DecidableEq, Repr

/-- `while let Some(s) = next(s)`. -/
def whileSome {σ : Type} (next : σ → Option σ) : Nat → σ → σ
  | 0, s => s
  | fuel + 1, s =>
    match next s with
    | none => s
    | some s => whileSome next fuel s

/-! ### Components -/

/-- `RelPathComponents::next`: a component, and what is left. -/
def componentsNext (s : List Char) : Option (List Char × List Char) :=
  match s.idxOf? '/' with
  | some sepIx => some (s.take sepIx, (s.drop sepIx).drop 1)
  | none => if s = [] then none else some (s, [])

/-- `RelPathComponents::next_back`. -/
def componentsNextBack (s : List Char) : Option (List Char × List Char) :=
  match rfind '/' s with
  | some sepIx => some ((s.drop sepIx).drop 1, s.take sepIx)
  | none => if s = [] then none else some (s, [])

/-- What the iterator yields; every component but the last is with its separator, so that
there are no more than characters. -/
def collectComponents : Nat → List Char → List (List Char)
  | 0, _ => []
  | fuel + 1, s =>
    match componentsNext s with
    | none => []
    | some (component, rest) => component :: collectComponents fuel rest

/-- The end of the iterator that is asked for a component. -/
inductive IterEnd
  | front
  | back
deriving DecidableEq, Repr

/-- What the iterator yields at the ends it is asked at: the components from the front, what is
left, and the components from the back, as they stand in the path. -/
def collectEnds : List IterEnd → List Char → List (List Char) × List Char × List (List Char)
  | [], s => ([], s, [])
  | .front :: ends, s =>
    match componentsNext s with
    | none => collectEnds ends s
    | some (component, rest) =>
      (component :: (collectEnds ends rest).1, (collectEnds ends rest).2)
  | .back :: ends, s =>
    match componentsNextBack s with
    | none => collectEnds ends s
    | some (component, rest) =>
      ((collectEnds ends rest).1, (collectEnds ends rest).2.1,
        (collectEnds ends rest).2.2 ++ [component])

/-- `Iterator::cmp`, of two iterators over components. -/
def cmpComponents : Nat → List Char → List Char → Ordering
  | 0, _, _ => .eq
  | fuel + 1, s, t =>
    match componentsNext s, componentsNext t with
    | none, none => .eq
    | none, some _ => .lt
    | some _, none => .gt
    | some (c, s), some (d, t) => (compare c d).then (cmpComponents fuel s t)

/-- `RelPathAncestors::next`. -/
def ancestorsNext : Option (List Char) → Option (RelPath × Option (List Char))
  | none => none
  | some result =>
    match rfind '/' result with
    | some sepIx => some (⟨result⟩, some (result.take sepIx))
    | none => if result ≠ [] then some (⟨result⟩, some []) else some (⟨result⟩, none)

def collectAncestors : Nat → Option (List Char) → List RelPath
  | 0, _ => []
  | fuel + 1, state =>
    match ancestorsNext state with
    | none => []
    | some (ancestor, state) => ancestor :: collectAncestors fuel state

namespace RelPathBuf

def new : RelPathBuf := ⟨[]⟩

def asRelPath (self : RelPathBuf) : RelPath := ⟨self.str⟩

def pop (self : RelPathBuf) : Bool × RelPathBuf :=
  match rfind '/' self.str with
  | some ix => (true, ⟨self.str.take ix⟩)
  | none => if self.str ≠ [] then (true, ⟨[]⟩) else (false, self)

def push (self : RelPathBuf) (path : RelPath) : RelPathBuf :=
  ⟨(if self.str ≠ [] then self.str ++ ['/'] else self.str) ++ path.str⟩

/-- The derived deserializer: a string. -/
def deserialize (s : List Char) : RelPathBuf := ⟨s⟩

end RelPathBuf

namespace RelPath

def empty : RelPath := ⟨[]⟩

def components (self : RelPath) : List (List Char) := collectComponents self.str.length self.str

def ancestors (self : RelPath) : List RelPath := collectAncestors (self.str.length + 1) (some self.str)

def fileName (self : RelPath) : Option (List Char) := (componentsNextBack self.str).map Prod.fst

def parent (self : RelPath) : Option RelPath :=
  (componentsNextBack self.str).map fun back => ⟨back.2⟩

def toRelPathBuf (self : RelPath) : RelPathBuf := ⟨self.str⟩

def display (self : RelPath) : PathStyle → List Char
  | .posix => self.str
  | .windows => self.str.map fun c => if c = '/' then '\\' else c

/-! ### `RelPath::new` -/

/-- A borrowed or an owned path. -/
inductive Cow
  | borrowed (path : RelPath)
  | owned (path : RelPathBuf)
deriving DecidableEq, Repr

def Cow.asRef : Cow → RelPath
  | borrowed path => path
  | owned path => path.asRelPath

def prefixes : PathStyle → List (List Char)
  | .posix => [['.', '/']]
  | .windows => [['.', '/'], ['.', '\\']]

def suffixes : PathStyle → List Char
  | .posix => ['/']
  | .windows => ['/', '\\']

/-- One round of the first loop: as much is dropped as the first prefix is long. -/
def dropPrefix (pathStyle : PathStyle) (path : List Char) : Option (List Char) :=
  if (prefixes pathStyle).any fun start => start.isPrefixOf path then
    (prefixes pathStyle).head?.map fun first => path.drop first.length
  else none

/-- One round of the second loop. -/
def dropSuffix (pathStyle : PathStyle) (path : List Char) : Option (List Char) :=
  if path.getLast?.any (fun c => c ∈ suffixes pathStyle) ∧ path.dropLast ≠ [] then some path.dropLast
  else none

/-- `.` and nothing are dropped; `..` takes the last component back. -/
def pushComponent (result : RelPath) (normalized : RelPathBuf) (component : List Char) :
    Except RelPathError RelPathBuf :=
  if component = [] then .ok normalized
  else if component = ['.'] then .ok normalized
  else if component = ['.', '.'] then
    match normalized.pop with
    | (true, normalized) => .ok normalized
    | (false, _) => .error (.notRelative result.str)
  else .ok (normalized.push ⟨component⟩)

/-- Whether a component is in normal form. -/
def IsComponent (component : List Char) : Prop :=
  component ≠ [] ∧ component ≠ ['.'] ∧ component ≠ ['.', '.']

instance : DecidablePred IsComponent := fun component =>
  inferInstanceAs (Decidable (component ≠ [] ∧ component ≠ ['.'] ∧ component ≠ ['.', '.']))

/-- From the text without its leading `./` and its trailing separators. -/
def normalize (path : List Char) (pathStyle : PathStyle) : Except RelPathError Cow :=
  let result : Cow :=
    if pathStyle = .windows ∧ '\\' ∈ path then
      .owned ⟨path.map fun c => if c = '\\' then '/' else c⟩
    else .borrowed ⟨path⟩
  if ∃ component ∈ result.asRef.components, ¬ IsComponent component then
    (result.asRef.components.foldlM (pushComponent result.asRef) RelPathBuf.new).map .owned
  else .ok result

def trimmed (path : List Char) (pathStyle : PathStyle) : List Char :=
  whileSome (dropSuffix pathStyle) path.length (whileSome (dropPrefix pathStyle) path.length path)

def new (path : OsPath) (pathStyle : PathStyle) : Except RelPathError Cow :=
  match path.toStr with
  | none => .error .nonUtf8
  | some path =>
    if isAbsolute (trimmed path pathStyle) pathStyle then
      .error (.absolute (trimmed path pathStyle))
    else normalize (trimmed path pathStyle) pathStyle

def unix (path : OsPath) : Except RelPathError RelPath :=
  match new path .posix with
  | .error e => .error e
  | .ok (.borrowed path) => .ok path
  | .ok (.owned _) => .error (.invalid path)

def fromProto (path : List Char) : Except RelPathError RelPath := unix ⟨some path⟩

/-! ### Cutting and gluing -/

def stripPrefix (self other : RelPath) : Except RelPathError RelPath :=
  if other.str = [] then .ok self
  else if other.str.isPrefixOf self.str then
    match self.str.drop other.str.length with
    | '/' :: suffix => .ok ⟨suffix⟩
    | [] => .ok empty
    | _ => .error (.stripPrefix other self)
  else .error (.stripPrefix other self)

def startsWith (self other : RelPath) : Bool := (self.stripPrefix other).isOk

def endsWith (self other : RelPath) : Bool :=
  if other.str.isSuffixOf self.str then
    (self.str.take (self.str.length - other.str.length)).getLast? = some '/'
      || (self.str.take (self.str.length - other.str.length)).isEmpty
  else false

def len (self : RelPath) : Nat := self.str.count '/' + 1

/-- `next` is called `n` times; what is left. -/
def restAfter : Nat → List Char → Option RelPath
  | 0, s => some ⟨s⟩
  | n + 1, s => (componentsNext s).bind fun next => restAfter n next.2

def lastNComponents (self : RelPath) (count : Nat) : Option RelPath :=
  if count ≤ self.len then restAfter (self.len - count) self.str else none

def join (self other : RelPath) : RelPath :=
  if self.str = [] then ⟨other.str⟩
  else if other.str = [] then ⟨self.str⟩
  else ⟨self.str ++ '/' :: other.str⟩

def cmp (self other : RelPath) : Ordering :=
  cmpComponents (self.str.length + 1) self.str other.str

end RelPath

/-! ### `set_extension` -/

/-- `std`'s `Path::file_stem`, of a path that is one component. -/
def stdFileStem (file : List Char) : Option (List Char) :=
  if file = [] ∨ file = ['.'] ∨ file = ['.', '.'] then none
  else
    match rfind '.' file with
    | none => some file
    | some ix => if file.take ix = [] then some file else some (file.take ix)

/-- `std`'s `PathBuf::set_extension`. -/
def stdSetExtension (file extension : List Char) : List Char :=
  match stdFileStem file with
  | none => file
  | some stem => if extension = [] then stem else stem ++ '.' :: extension

def RelPathBuf.setExtension (self : RelPathBuf) (extension : List Char) : Bool × RelPathBuf :=
  match self.asRelPath.fileName with
  | some filename => (true, ⟨self.pop.2.str ++ stdSetExtension filename extension⟩)
  | none => (false, self)

end FcGpui

/-!
# Paths

A path is kept as the text it was written as, since that is how it is
shown; what it means is the sequence of its components. Repeated slashes,
a slash at the end and every `.` but a leading one add no component, so
two texts may be the same path without being equal. `Path.join` and
`Path.absolute` work on the text, everything else on the components.

A path whose bytes are not valid UTF-8 is kept as it is shown, too. What is
refused for such a path takes a predicate on paths that tells which of them
are text.
-/

namespace DualPackage

/-- A path as it was written. -/
structure Path where
  text : String
  deriving DecidableEq, Repr

namespace Path

/-- A component of a path. `here` is the `.` that may open a relative
path. -/
inductive Component where
  | root
  | here
  | up
  | name (n : String)
  deriving DecidableEq, Repr

namespace Component

/-- A component as it is written between slashes. -/
def text : Component → String
  | root => ""
  | here => "."
  | up => ".."
  | name n => n

/-- The component that a segment between slashes stands for, if any. -/
def ofSegment? (segment : String) : Option Component :=
  if segment = "" || segment = "." then none
  else if segment = ".." then some up
  else some (name segment)

end Component

/-- The pieces of a text between its slashes. -/
def splitSlash : List Char → List (List Char)
  | [] => [[]]
  | c :: rest =>
    if c = '/' then [] :: splitSlash rest
    else
      match splitSlash rest with
      | segment :: more => (c :: segment) :: more
      | [] => [[c]]

variable (p : Path)

/-- The pieces of the path between its slashes. -/
def segments : List String :=
  (splitSlash p.text.toList).map String.ofList

/-- Whether the path begins at the root directory. -/
def isAbsolute : Bool :=
  p.text.toList.head? == some '/'

/-- Whether the text of the path ends in a slash. -/
def endsInSlash : Bool :=
  p.text.toList.getLast? == some '/'

/-- The components of the path. -/
def components : List Component :=
  let named := p.segments.filterMap Component.ofSegment?
  if p.isAbsolute then .root :: named
  else if p.segments.head? == some "." then .here :: named
  else named

/-- The path written with one slash between components. -/
def ofComponents : List Component → Path
  | .root :: rest => ⟨"/" ++ "/".intercalate (rest.map Component.text)⟩
  | components => ⟨"/".intercalate (components.map Component.text)⟩

/-- Whether two paths have the same components. -/
def same (q : Path) : Bool :=
  p.components == q.components

/-- The path `q`, read from `p` unless it is absolute. -/
def join (q : Path) : Path :=
  if q.isAbsolute then q
  else if p.text.isEmpty || p.endsInSlash then ⟨p.text ++ q.text⟩
  else ⟨p.text ++ "/" ++ q.text⟩

/-- The name a path ends in, if it does not end in `..` or the root. -/
def fileName? : Option String :=
  match p.components.getLast? with
  | some (.name n) => some n
  | _ => none

/-- The part of a file name after its last `.`; a name whose only `.` opens
it has none. -/
def extensionOf? (name : String) : Option String :=
  let after := name.toList.reverse.takeWhile (· != '.')
  let before := name.toList.reverse.drop (after.length + 1)
  if before.isEmpty then none else some (String.ofList after.reverse)

/-- The extension of the file name. -/
def extension? : Option String := do
  let n ← p.fileName?
  extensionOf? n

/-- What is left of `p` below `base`, if `p` is `base` or below it. -/
def below? (base : Path) : Option Path := do
  let rest ← base.components.isPrefixOf? p.components
  some (ofComponents rest)

/-- The proper leading parts of a list, the longest first. -/
def leadingParts {α : Type} : List α → List (List α)
  | [] => []
  | x :: xs => (leadingParts xs).map (x :: ·) ++ [[]]

/-- The paths above a path, the nearest first. -/
def ancestors : List Path :=
  (leadingParts p.components).map ofComponents

/-- The path with every `.` component left out. -/
def normalized : Path :=
  ofComponents (p.components.filter (· != .here))

/-- Whether the path begins with two slashes and no third. -/
def hasTwoSlashes : Bool :=
  match p.text.toList with
  | '/' :: '/' :: rest => rest.head? != some '/'
  | _ => false

/-- The path read from the directory `cwd`, with `.` components and repeated
slashes left out. Two slashes at the very start stay, and so does one at
the end. -/
def absolute (cwd : Path) : Path :=
  let named := p.components.filter fun c => c != .root && c != .here
  let start : Path := if !p.isAbsolute then cwd else if p.hasTwoSlashes then ⟨"//"⟩ else ⟨"/"⟩
  let whole := named.foldl (fun (q : Path) c => q.join ⟨c.text⟩) start
  if p.endsInSlash then whole.join ⟨""⟩ else whole

end Path

end DualPackage

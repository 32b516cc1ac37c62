import DualPackage.Config.Basic
import DualPackage.Disk.Access
import DualPackage.Failure
import DualPackage.Json.Reader
import DualPackage.Text.Blank
/-!
# Loading a configuration

A configuration file holds one JSON object. Its options are checked in a
fixed order, and the first that is wrong decides the failure: `verbose`,
`esmDir`, `cjsDir`, `copyFiles` (the entries of `exclude` before `from`),
`addExtensions`, `aliases`. Keys of other names are ignored. Nothing here
changes the disk; it is asked only whether a path exists.
-/

namespace DualPackage

namespace Config

open Json (Value Fields)

/-- The name of the configuration file in the project root. -/
def fileName : Path := ⟨"postbuild.config.json"⟩

/-- The directory that assets are copied from unless the configuration says
otherwise. -/
def defaultSource : Path := ⟨"src"⟩

/-- The value of an output directory that stands for the usual one. -/
def autoDir : String := "auto"

variable (disk : Disk) (root : Path)

/-- A flag that may be absent. -/
def flag (fields : Fields) (key : String) : Except Failure Bool :=
  match fields.get? key with
  | none => .ok false
  | some (.bool b) => .ok b
  | some other => .error (.configInvalid (.notBoolean key other.kind))

/-- A string that is not blank. -/
def nonBlank (key : String) : Value → Except Failure String
  | .string s =>
    if Text.allBlank s.toList then .error (.configInvalid (.blankString key)) else .ok s
  | other => .error (.configInvalid (.notString key other.kind))

/-- A path of the configuration, read from the root. -/
def resolvePath (p : Path) : Path :=
  (root.join p).normalized

/-- The path, if it exists. -/
def existing (key : String) (p : Path) : Except Failure Path :=
  if disk.pathExists p then .ok p else .error (.pathNotFound key p)

/-- The output directory of a tree. -/
def loadDir (fields : Fields) (kind : ModuleKind) : Except Failure (Option Path) :=
  match fields.get? kind.configKey with
  | none => .ok none
  | some value => do
    let dir ← nonBlank kind.configKey value
    if dir = autoDir then .ok (some (resolvePath root kind.defaultDir))
    else do
      let path ← existing disk kind.configKey (resolvePath root ⟨dir⟩)
      .ok (some path)

/-- The endings listed under `exclude`. -/
def loadEndings : List Value → Except Failure (List String)
  | [] => .ok []
  | value :: rest => do
    let ending ← nonBlank "copyFiles.exclude" value
    if ending.toList.head? == some '.' then do
      let endings ← loadEndings rest
      .ok (ending :: endings)
    else .error (.configInvalid (.badEnding ending))

/-- The value of `exclude`. -/
def loadExclude (fields : Fields) : Except Failure (List String) :=
  match fields.get? "exclude" with
  | none => .ok []
  | some (.array entries) => loadEndings entries
  | some other => .error (.configInvalid (.excludeNotArray other.kind))

/-- The directory that assets are copied from. -/
def loadSource (fields : Fields) : Except Failure Path := do
  let source ←
    match fields.get? "from" with
    | none => .ok defaultSource
    | some value => do
      let source ← nonBlank "copyFiles.from" value
      .ok ⟨source⟩
  existing disk "copyFiles.from" (resolvePath root source)

/-- The copy policy. -/
def loadCopyFiles (fields : Fields) : Except Failure (Option CopyPolicy) :=
  match fields.get? "copyFiles" with
  | none => .ok none
  | some (.object policy) => do
    let endings ← loadExclude policy
    let source ← loadSource disk root policy
    .ok (some (.ofEndings source endings))
  | some other => .error (.configInvalid (.copyFilesNotObject other.kind))

/-- The aliases listed in an object, added to those before. -/
def loadEntries (table : AliasTable) : Fields → Except Failure AliasTable
  | [] => .ok table
  | (name, .string resolved) :: rest => loadEntries (table.insert name resolved) rest
  | (name, other) :: _ => .error (.configInvalid (.aliasNotString name other.kind))

/-- The alias table. -/
def loadAliases (fields : Fields) : Except Failure (Option AliasTable) :=
  match fields.get? "aliases" with
  | none => .ok none
  | some (.object entries) => do
    let table ← loadEntries .empty entries
    .ok (some table)
  | some other => .error (.configInvalid (.aliasesNotObject other.kind))

/-- The configuration that an object describes. -/
def ofFields (fields : Fields) : Except Failure Config := do
  let verbose ← flag fields "verbose"
  let esmDir ← loadDir disk root fields .esm
  let cjsDir ← loadDir disk root fields .cjs
  let copyFiles ← loadCopyFiles disk root fields
  let addExtensions ← flag fields "addExtensions"
  let aliases ← loadAliases fields
  .ok { root, esmDir, cjsDir, copyFiles, addExtensions, aliases, verbose }

/-- The configuration in a text. `path` is where the text comes from; it is
named in the failure if the text is not JSON. -/
def ofText (text : String) (path : Path) : Except Failure Config :=
  match Json.parse text with
  | .error fault => .error (.configNotJson path fault)
  | .ok (.object fields) => ofFields disk root fields
  | .ok other => .error (.configInvalid (.notObject other.kind))

/-- The configuration in a file. -/
def ofFile (path : Path) : Except Failure Config :=
  if disk.pathExists path then
    match disk.readText path with
    | .error fault => .error (.configUnreadable path fault)
    | .ok text => ofText disk root text path
  else .error (.configMissing path)

/-- The configuration of a project. -/
def load : Except Failure Config :=
  ofFile disk root (root.join fileName)

end Config

end DualPackage

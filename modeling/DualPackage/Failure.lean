import DualPackage.Disk.Fault
import DualPackage.Json.Fault
import DualPackage.Json.Value
import DualPackage.Path.Basic
/-!
# What can go wrong

A failure carries its cause and the path it happened at, as that path was
joined together. Its message is one line; the chain of `causes` below it
adds what the disk or the reader of the configuration had to say.
-/

namespace DualPackage

/-- What a configuration can get wrong. -/
inductive ConfigFault where
  | notObject (kind : Json.Kind)
  | notBoolean (key : String) (kind : Json.Kind)
  | blankString (key : String)
  | notString (key : String) (kind : Json.Kind)
  | copyFilesNotObject (kind : Json.Kind)
  | excludeNotArray (kind : Json.Kind)
  | badEnding (ending : String)
  | aliasesNotObject (kind : Json.Kind)
  | aliasNotString (name : String) (kind : Json.Kind)
  deriving DecidableEq, Repr

/-- The wording of a configuration fault. -/
def ConfigFault.message : ConfigFault → String
  | notObject kind => "expecting a JSON object, instead got " ++ kind.phrase
  | notBoolean key kind =>
    "the \"" ++ key ++ "\" option is expecting a boolean value, instead got " ++ kind.phrase
  | blankString key => "\"" ++ key ++ "\" is expecting a non-empty string"
  | notString key kind => "\"" ++ key ++ "\" is expecting a string, instead got " ++ kind.phrase
  | copyFilesNotObject kind =>
    "the provided \"copyFiles\" must be an object, instead got " ++ kind.phrase
  | excludeNotArray kind =>
    "\"copyFiles.exclude\" is expecting an array of strings, instead got " ++ kind.phrase
  | badEnding ending =>
    "\"copyFiles.exclude\" should list file extensions in this format: \".ts\". \"" ++ ending ++
      "\" is not a valid extension"
  | aliasesNotObject kind =>
    "the \"aliases\" option is expecting an object, instead got " ++ kind.phrase
  | aliasNotString name kind =>
    "the alias \"" ++ name ++ "\" must map to a string, instead got " ++ kind.phrase

/-- A fault met while walking a tree. -/
structure WalkFault where
  path : Path
  fault : DiskFault
  deriving DecidableEq, Repr

/-- The wording of a fault met while walking. -/
def WalkFault.message (w : WalkFault) : String :=
  "IO error for operation on " ++ w.path.text ++ ": " ++ w.fault.message

/-- Why a configuration was not accepted or a run was broken off. -/
inductive Failure where
  | configMissing (path : Path)
  | configUnreadable (path : Path) (fault : DiskFault)
  | configNotJson (path : Path) (fault : Json.TextFault)
  | configInvalid (fault : ConfigFault)
  | pathNotFound (key : String) (path : Path)
  | io (path : Path) (fault : DiskFault)
  | walk (fault : WalkFault)
  deriving DecidableEq, Repr

namespace Failure

/-- A message about the configuration. -/
def configMessage (reason : String) : String :=
  "Unable to read postbuild config file: " ++ reason

/-- The wording of a failure. -/
def message : Failure → String
  | configMissing path => configMessage (path.text ++ " is missing")
  | configUnreadable path _ => configMessage path.text
  | configNotJson path _ => configMessage (path.text ++ " is not valid JSON")
  | configInvalid fault => configMessage fault.message
  | pathNotFound key path =>
    configMessage ("the provided \"" ++ key ++ "\" (" ++ path.text ++ ") does not exist")
  | io path _ => "I/O error on " ++ path.text
  | walk _ => "Failed to walk directory tree"

/-- What lies below a failure, the nearest first. -/
def causes : Failure → List String
  | configMissing _ | configInvalid _ | pathNotFound _ _ => []
  | configUnreadable _ fault | io _ fault => [fault.message]
  | configNotJson _ fault => [fault.message]
  | walk fault => [fault.message, fault.fault.message]

/-- Whether the failure is about the configuration. -/
def isConfig : Failure → Bool
  | configMissing _ | configUnreadable _ _ | configNotJson _ _ | configInvalid _
  | pathNotFound _ _ => true
  | io _ _ | walk _ => false

end Failure

end DualPackage

import DualPackage.Path.Basic
/-!
# Which files are copied

A copy policy names the tree that assets are copied from and the endings
that keep a file from being copied. The ending of a source file is always
among them. An ending is compared with the end of the file name, so that
`.d.ts` works as well as `.map`; a file that is named like an ending has
no stem and is copied.
-/

namespace DualPackage

/-- Where assets are copied from, and which files are not copied. -/
structure CopyPolicy where
  source : Path
  exclude : List String
  deriving DecidableEq, Repr

namespace CopyPolicy

/-- The ending of source files, which have no place in an output tree. -/
def sourceEnding : String := ".ts"

/-- Adds a text to an ascending list that holds each text once. -/
def addEnding (ending : String) : List String → List String
  | [] => [ending]
  | e :: rest =>
    if ending = e then e :: rest
    else if ending < e then ending :: e :: rest
    else e :: addEnding ending rest

/-- The policy that excludes the given endings and that of source files. -/
def ofEndings (source : Path) (endings : List String) : CopyPolicy where
  source := source
  exclude := (sourceEnding :: endings).foldr addEnding []

variable (policy : CopyPolicy)

/-- Whether a file name carries the ending after a stem. -/
def hasEnding (name ending : String) : Bool :=
  name != ending && ending.toList.isSuffixOf name.toList

/-- Whether the file at a path is kept from being copied. -/
def excludes (p : Path) : Bool :=
  match p.fileName? with
  | none => false
  | some name => policy.exclude.any (hasEnding name)

end CopyPolicy

end DualPackage

import DualPackage.Alias.Table
import DualPackage.CopyPolicy
import DualPackage.ModuleKind
/-!
# Configurations

A configuration says which output trees there are and what is done to
them. An output directory that is absent means that its tree is not
treated at all.
-/

namespace DualPackage

/-- What a run has to do. -/
structure Config where
  /-- The directory relative paths were resolved against. -/
  root : Path
  esmDir : Option Path
  cjsDir : Option Path
  copyFiles : Option CopyPolicy
  addExtensions : Bool
  aliases : Option AliasTable
  verbose : Bool
  deriving DecidableEq, Repr

namespace Config

/-- The configuration under which nothing is done. -/
def empty (root : Path) : Config where
  root := root
  esmDir := none
  cjsDir := none
  copyFiles := none
  addExtensions := false
  aliases := none
  verbose := false

variable (config : Config)

/-- The output directory of a tree. -/
def outputDir? : ModuleKind → Option Path
  | .esm => config.esmDir
  | .cjs => config.cjsDir

/-- The output trees and their directories, in order. -/
def outputs : List (ModuleKind × Path) :=
  ModuleKind.all.filterMap fun kind => (config.outputDir? kind).map fun dir => (kind, dir)

/-- A tree that has a directory is among those treated. -/
theorem mem_outputs {config : Config} {kind : ModuleKind} {dir : Path}
    (h : config.outputDir? kind = some dir) : (kind, dir) ∈ config.outputs :=
  List.mem_filterMap.2 ⟨kind, kind.mem_all, by rw [h]; rfl⟩

/-- The output directories, in order. -/
def outputDirs : List Path :=
  config.outputs.map (·.2)

/-- All the paths in a configuration. -/
def paths : List Path :=
  config.root :: config.outputDirs ++ (config.copyFiles.map CopyPolicy.source).toList

end Config

end DualPackage

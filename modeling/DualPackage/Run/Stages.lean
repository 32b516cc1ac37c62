import DualPackage.Alias.Resolve
import DualPackage.Config.Basic
import DualPackage.EsmSource
import DualPackage.Run.Marker
import DualPackage.Tree.Copy
import DualPackage.Tree.Rewrite
/-!
# The stages of a run

A run goes through four stages, each over every output tree before the
next begins: markers, assets (with the source fixes of the ESM tree),
extensions, aliases. A tree without an output directory is passed over by
all of them. The first failure breaks the run off; what was written stays.
-/

namespace DualPackage

/-- What a run did. -/
structure Report where
  markers : List Path
  filesCopied : Nat
  filesExcluded : Nat
  esmFilesAdjusted : Nat
  extensionFilesRewritten : Nat
  aliasFilesRewritten : Nat
  deriving DecidableEq, Repr

namespace Report

/-- The report of a run that did nothing. -/
def empty : Report := ⟨[], 0, 0, 0, 0, 0⟩

end Report

namespace Run

/-- The extensions of files whose specifiers are rewritten. -/
def scriptExtensions : List String := ["js"]

/-- The extensions of files that the source fixes of the ESM tree apply
to. -/
def esmExtensions : List String := ["js", "mjs"]

/-- A pass over a text as a function on file contents. -/
def onContent (pass : List Char → Revision) (content : String) : String :=
  String.ofList (pass content.toList).text

variable (config : Config)

/-- Writes the marker of every output tree. -/
def writeMarkers : Build (List Path) :=
  config.outputs.mapM fun (kind, dir) => do
    Build.log (.creatingMarker kind)
    Marker.write dir kind

/-- Applies the source fixes of the ESM tree to one tree, and answers how
many files they changed. -/
def adjustTree (kind : ModuleKind) (dir : Path) : Build Nat :=
  match kind with
  | .esm => do
    Build.log .adjusting
    Tree.rewrite dir esmExtensions (onContent EsmSource.adjust)
  | .cjs => pure 0

/-- Copies the assets into the given output trees, and adds to a report
what was done. -/
def copyInto (policy : CopyPolicy) (outputs : List Path) :
    List (ModuleKind × Path) → Report → Build Report
  | [], report => pure report
  | (kind, dir) :: rest, report => do
    Build.log (.copying kind)
    let count ← Tree.copy policy dir outputs
    let adjusted ← adjustTree kind dir
    copyInto policy outputs rest
      { report with
        filesCopied := report.filesCopied + count.copied
        filesExcluded := report.filesExcluded + count.excluded
        esmFilesAdjusted := report.esmFilesAdjusted + adjusted }

/-- Copies the assets into every output tree. -/
def copyAssets (report : Report) : Build Report :=
  match config.copyFiles with
  | none => pure report
  | some policy => copyInto policy config.outputDirs config.outputs report

/-- Rewrites the scripts of every given output tree, and answers how many
files were changed. -/
def rewriteScripts (announce : ModuleKind → Event) (pass : List Char → Revision) :
    List (ModuleKind × Path) → Build Nat
  | [] => pure 0
  | (kind, dir) :: rest => do
    Build.log (announce kind)
    let here ← Tree.rewrite dir scriptExtensions (onContent pass)
    let there ← rewriteScripts announce pass rest
    pure (here + there)

/-- Writes out the missing extensions in every output tree. -/
def addExtensions : Build Nat :=
  if config.addExtensions then
    rewriteScripts .addingExtensions appendExtensions config.outputs
  else pure 0

/-- Resolves the aliases in every output tree. -/
def resolveAliases : Build Nat :=
  match config.aliases with
  | none => pure 0
  | some table =>
    if table.isEmpty then pure 0
    else
      rewriteScripts .resolvingAliases (DualPackage.resolveAliases table config.addExtensions)
        config.outputs

/-- The whole run. -/
def run : Build Report := do
  let markers ← writeMarkers config
  let report ← copyAssets config { Report.empty with markers := markers }
  let extended ← addExtensions config
  let resolved ← resolveAliases config
  Build.log .finished
  pure { report with extensionFilesRewritten := extended, aliasFilesRewritten := resolved }

end Run

end DualPackage

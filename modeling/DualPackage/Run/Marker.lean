import DualPackage.Json.Printer
import DualPackage.Run.World
/-!
# Markers

The marker of an output tree is a `package.json` right in its directory
that declares of which kind the modules below it are.
-/

namespace DualPackage

namespace Marker

/-- The name of a marker file. -/
def fileName : Path := ⟨"package.json"⟩

/-- The text of the marker of a tree. -/
def content (kind : ModuleKind) : String :=
  (Json.Value.object [("type", .string kind.packageType)]).pretty

/-- Writes the marker of a tree into `dir`, which is made if it is missing,
and answers its path. -/
def write (dir : Path) (kind : ModuleKind) : Build Path := do
  let path := dir.join fileName
  Build.onDisk dir (DiskM.createDirAll dir)
  Build.onDisk path (DiskM.update (·.writeFile path (content kind).toUTF8))
  pure path

end Marker

end DualPackage

import DualPackage.Clause.Revision
/-!
# Source fixes of the ESM tree

A loader of ESM files refuses an import of a JSON file that does not say
so, and it has no `__dirname`. The first fix writes the attribute into the
imports of JSON files that carry none; the second names the directory in
the way an ESM file can. Both are textual, and the attribute comes first.
-/

namespace DualPackage

open Text

namespace EsmSource

/-- The attribute an import of a JSON file has to carry. -/
def jsonAttribute : List Char :=
  " with \x7b type: \"json\" \x7d".toList

/-- The name of the directory variable that an ESM file lacks. -/
def dirnameWord : List Char :=
  "__dirname".toList

/-- What an ESM file writes for its own directory. -/
def metaDirname : List Char :=
  "import.meta.dirname".toList

/-- Writes the attribute after the closing quote of every import of a JSON
file that is directly followed by `;`. -/
def addJsonAttributes (text : List Char) : Revision where
  text := Form.jsonImport.finder.replace (fun c => c.text ++ jsonAttribute) text
  changed := !(Form.jsonImport.finder.found text).isEmpty

/-- The scan for the word `__dirname`, standing alone. -/
def dirnameFinder : Finder Unit where
  find? before text := do
    let rest ← afterWord? dirnameWord text
    if opensWord before && closesWord rest then some () else none
  span _ := dirnameWord

/-- Replaces the word `__dirname` by its ESM equivalent. -/
def convertDirname (text : List Char) : Revision where
  text := dirnameFinder.replace (fun _ => metaDirname) text
  changed := !(dirnameFinder.found text).isEmpty

/-- Both fixes, the attributes first. -/
def adjust (text : List Char) : Revision :=
  (addJsonAttributes text).followedBy convertDirname

end EsmSource

end DualPackage

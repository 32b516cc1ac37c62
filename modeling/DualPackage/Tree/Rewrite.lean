import DualPackage.Run.World
import DualPackage.Tree.Walk
/-!
# Rewriting the files of a tree

A file is read as a text, given to a function, and written back only if
the function answers another text. Over a tree this is done to every file
whose extension is listed. A file that is not valid UTF-8 is warned about
and left as it is.
-/

namespace DualPackage

/-- A file read as a text. -/
structure SourceFile where
  path : Path
  content : String
  deriving DecidableEq, Repr

namespace SourceFile

/-- Reads the file at a path. -/
def read (path : Path) : Build SourceFile := do
  let content ← Build.ask path (·.readText path)
  pure ⟨path, content⟩

/-- Writes the file back if `f` changes its content, and tells whether it
did. -/
def rewrite (file : SourceFile) (f : String → String) : Build Bool := do
  let content := f file.content
  if content = file.content then pure false
  else do
    Build.onDisk file.path (DiskM.update (·.writeFile file.path content.toUTF8))
    pure true

end SourceFile

namespace Tree

/-- Whether the extension of a file is among those listed. -/
def hasListedExtension (extensions : List String) (path : Path) : Bool :=
  path.extension?.any extensions.contains

/-- Rewrites one file, and tells whether it was changed. -/
def rewriteFile (f : String → String) (path : Path) : Build Bool := fun w =>
  match w.disk.readText path with
  | .error .invalidText => (do Build.log (.invalidText path); pure false : Build Bool) w
  | .error fault => .error (.io path fault) w
  | .ok content => (SourceFile.mk path content).rewrite f w

/-- What a rewriting does about one entry of its tree. -/
def rewriteEntry (extensions : List String) (f : String → String) :
    Sighting → EStateM Failure (World × Nat) Unit
  | .loop path => Build.untallied (Build.log (.linkLoop path))
  | .entry v =>
    if !v.isDir && hasListedExtension extensions v.path then do
      let changed ← Build.untallied (rewriteFile f v.path)
      if changed then modify fun (w, n) => (w, n + 1) else pure ()
    else pure ()

/-- Rewrites the files below `root` whose extension is listed, and answers
how many were changed. -/
def rewrite (root : Path) (extensions : List String) (f : String → String) : Build Nat :=
  Build.tallying 0
    (visit (fun s => s.1.disk) Failure.walk (fun _ => false) (rewriteEntry extensions f) root)

end Tree

end DualPackage

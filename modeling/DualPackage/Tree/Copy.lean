import DualPackage.CopyPolicy
import DualPackage.Run.World
import DualPackage.Tree.Walk
/-!
# Copying a tree

The tree below a source directory is copied into a target directory. Files
that the policy excludes are counted and left out; so are, uncounted, the
directories whose name speaks of logs and the output directories
themselves, where they lie below the source. A directory is made before
anything is written into it.
-/

namespace DualPackage

/-- How many files a copy has written and how many it has left out. -/
structure CopyCount where
  copied : Nat
  excluded : Nat
  deriving DecidableEq, Repr

namespace Tree

/-- Whether a copy into `dest` leaves a directory out. -/
def isPruned (outputs : List Path) (dest : Path) (dir : Path) : Bool :=
  isLogsDir dir || (outputs ++ [dest]).any (·.same dir)

/-- Makes a directory, and those above it, where they are missing. -/
def createDirs (dir : Path) : Build Unit :=
  Build.onDisk dir (DiskM.createDirAll dir)

/-- What a copy does about one entry of its source. -/
def copyEntry (policy : CopyPolicy) (dest : Path) : Sighting → EStateM Failure (World × CopyCount) Unit
  | .loop path => Build.untallied (Build.log (.linkLoop path))
  | .entry v =>
    match v.path.below? policy.source with
    | none => pure ()
    | some rest =>
      let target := dest.join rest
      if v.isDir then Build.untallied (createDirs target)
      else if policy.excludes v.path then
        modify fun (w, n) => (w, { n with excluded := n.excluded + 1 })
      else do
        Build.untallied (Build.onDisk target (DiskM.update (·.copyFile v.path target)))
        modify fun (w, n) => (w, { n with copied := n.copied + 1 })

/-- Copies the tree that `policy` names into `dest`. -/
def copy (policy : CopyPolicy) (dest : Path) (outputs : List Path) : Build CopyCount := do
  createDirs dest
  Build.tallying ⟨0, 0⟩
    (visit (fun s => s.1.disk) Failure.walk (isPruned outputs dest) (copyEntry policy dest)
      policy.source)

end Tree

end DualPackage

import DualPackage.Disk.Resolve
import DualPackage.Failure
/-!
# Walking a tree

A walk visits the entry at its root and everything below it, a directory
before what it holds and siblings in ascending order of their names. Links
are followed, so that a linked directory is visited like a real one; a
link to a directory that the walk is inside of is a loop and is only
reported. The names in a directory are read when the walk enters it,
before the directory itself is visited, and what a link leads to is asked
when its turn comes: the visitor may change the disk under the walk.

A directory below the root for which `skip` holds is left out with all
that it holds. A link that leads nowhere breaks the walk off, whether or
not `skip` would have held of it.
-/

namespace DualPackage

/-- An entry met by a walk: its path, its depth below the root of the walk,
and whether it is a directory once links are followed. -/
structure Visit where
  path : Path
  depth : Nat
  isDir : Bool
  deriving DecidableEq, Repr

/-- What a walk tells its visitor. -/
inductive Sighting where
  | entry (visit : Visit)
  | loop (path : Path)
  deriving DecidableEq, Repr

namespace Tree

/-- The longest path, in bytes, that a file operation takes. Every step
below the root of a walk adds at least two. -/
def pathLimit : Nat := 4096

/-- A depth that no walk reaches. On a disk that does not change, a walk
follows links to different directories only, and goes down real
directories in between. -/
def depthBound (d : Disk) : Nat :=
  (d.entries.length + 2) * (d.entries.length + 2) + pathLimit

/-- What is to be done about an entry whose turn it is. -/
inductive Turn where
  | file
  | dir (loc : Location)
  | loop

/-- The turn of an entry that stands at `loc` under the name `path`, inside
the directories `above`. -/
def turn (d : Disk) (above : List Location) (path : Path) (loc : Location) :
    Entry → Except WalkFault Turn
  | .dir => .ok (.dir loc)
  | .file _ => .ok .file
  | .link _ =>
    match d.stat path with
    | .error fault => .error ⟨path, fault⟩
    | .ok (.file _ _) => .ok .file
    | .ok (.dir target) => if above.contains target then .ok .loop else .ok (.dir target)

section Visiting

variable {ε σ : Type} (disk : σ → Disk) (fail : WalkFault → ε) (skip : Path → Bool)
variable (act : Sighting → EStateM ε σ Unit)

/-- Visits the entry that stands at `loc` under the name `path`, inside the
directories `above`, and what lies below it. The first argument bounds the
depth. -/
def visitEntry : Nat → List Location → Nat → Path → Location → Entry → EStateM ε σ Unit
  -- The bound is used up. On a disk that does not change this is never so
  -- (`depthBound`), and where a disk grows under a walk, the path has become too
  -- long for any file operation. Nothing else answers this fault.
  | 0, _, _, path, _, _ => throw (fail ⟨path, .nameTooLong⟩)
  | bound + 1, above, depth, path, loc, entry => do
    match turn (disk (← get)) above path loc entry with
    | .error fault => throw (fail fault)
    | .ok .loop => act (.loop path)
    | .ok .file => act (.entry ⟨path, depth, false⟩)
    | .ok (.dir dir) =>
      if 0 < depth && skip path then pure ()
      else
        let listed := (disk (← get)).children dir
        act (.entry ⟨path, depth, true⟩)
        listed.forM fun (name, child) =>
          visitEntry bound (dir :: above) (depth + 1) (path.join ⟨name⟩) (dir ++ [name]) child

/-- Visits the entry at `root` and everything below it. -/
def visit (root : Path) : EStateM ε σ Unit := do
  let d := disk (← get)
  match d.stat root with
  | .error fault => throw (fail ⟨root, fault⟩)
  | .ok (.file _ _) => act (.entry ⟨root, 0, false⟩)
  | .ok (.dir loc) => visitEntry disk fail skip act (depthBound d) [] 0 root loc .dir

/-- Visits the files among the entries, and hands on what is no entry. -/
def filesOnly (act : Sighting → EStateM ε σ Unit) : Sighting → EStateM ε σ Unit
  | .entry v => if v.isDir then pure () else act (.entry v)
  | .loop path => act (.loop path)

end Visiting

/-- Whether `word` occurs in a text. -/
def occursIn (word : List Char) : List Char → Bool
  | [] => word.isEmpty
  | c :: rest => word.isPrefixOf (c :: rest) || occursIn word rest

/-- A directory whose name contains `logs`, in upper or lower case. No
letter beyond ASCII has one of these four as its lower case. -/
def isLogsDir (p : Path) : Bool :=
  match p.fileName? with
  | none => false
  | some name => occursIn ['l', 'o', 'g', 's'] (name.toList.map Char.toLower)

end Tree

end DualPackage

import DualPackage.Disk.Resolve
/-!
# File operations

Reading, writing, copying and making directories, as operations on a disk
that may fail. A failed operation leaves what it had already done: this
shows in `createDirAll`, which may have made some of the directories, and
in `copyFile`, which empties its target before it reads the source, so
that a file copied onto itself ends up empty.
-/

namespace DualPackage

/-- A file operation: it changes a disk, and may fail. -/
abbrev DiskM (α : Type) := EStateM DiskFault Disk α

namespace Disk

variable (d : Disk)

/-- The bytes of the file a path leads to. -/
def readFile (p : Path) : Except DiskFault ByteArray := do
  match ← d.stat p with
  | .dir _ => .error .isDirectory
  | .file _ content => .ok content

/-- The text of the file a path leads to. -/
def readText (p : Path) : Except DiskFault String := do
  match String.fromUTF8? (← d.readFile p) with
  | some text => .ok text
  | none => .error .invalidText

/-- The disk with a new directory at a path. -/
def makeDir (p : Path) : Except DiskFault Disk := do
  match ← d.resolve false p with
  | .free loc _ => .ok (d.set loc .dir)
  | .dir _ | .file _ _ _ | .link _ => .error .alreadyExists

/-- The location of the file that writing to a path replaces or creates. -/
def writable (p : Path) : Except DiskFault Location := do
  match ← d.resolve true p with
  | .dir _ | .link _ => .error .isDirectory
  | .file loc _ slash | .free loc slash => if slash then .error .isDirectory else .ok loc

/-- The disk with the given bytes in the file a path leads to. -/
def writeFile (p : Path) (content : ByteArray) : Except DiskFault Disk := do
  .ok (d.set (← d.writable p) (.file content))

/-- The bytes at a location, if a file stands there. -/
def contentAt (loc : Location) : ByteArray :=
  match d.get? loc with
  | some (.file content) => content
  | _ => .empty

/-- The disk with the file at `source` copied to `target`. -/
def copyFile (source target : Path) : Except DiskFault Disk := do
  match ← d.stat source with
  | .dir _ => .error .isDirectory
  | .file loc _ =>
    let goal ← d.writable target
    let emptied := d.set goal (.file .empty)
    .ok (emptied.set goal (.file (emptied.contentAt loc)))

end Disk

namespace DiskM

/-- An operation that changes the disk only if it succeeds. -/
def update (f : Disk → Except DiskFault Disk) : DiskM Unit := fun d =>
  match f d with
  | .ok d' => .ok () d'
  | .error e => .error e d

/-- Makes the directory `p` if it is not there yet. -/
def ensureDir (p : Path) : DiskM Unit := fun d =>
  match d.makeDir p with
  | .ok d' => .ok () d'
  | .error e => if d.isDir p then .ok () d else .error e d

/-- Makes the directory `p`, and those above it, the nearest first, where
they are missing. The empty path stands for the working directory. -/
def createDirBelow : List Path → Path → DiskM Unit
  | [], p => if p.components.isEmpty then pure () else ensureDir p
  | parent :: above, p => fun d =>
    match d.makeDir p with
    | .ok d' => .ok () d'
    | .error .notFound => (do createDirBelow above parent; ensureDir p : DiskM Unit) d
    | .error e => if d.isDir p then .ok () d else .error e d

/-- Makes the directory `p` and all that are missing above it. -/
def createDirAll (p : Path) : DiskM Unit :=
  createDirBelow p.ancestors p

end DiskM

end DualPackage

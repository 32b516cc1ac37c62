import DualPackage.CommandLine.Execute
import DualPackage.Disk.Snapshot
import DualPackage.Json.Reader
/-!
# The program

The program takes its arguments from the command line and the tree to work
on from standard input: a JSON object with the working directory under
`cwd` and the entries of the tree under `tree`, as `Disk.Snapshot` reads
them. It prints what the invocation has to say, and then writes every
directory and file that the invocation made or changed.
-/

namespace DualPackage

namespace Program

open Json (Value Fields)

/-- The disk that a snapshot describes, its entries read from the working
directory, or why it is none. -/
def diskOfSnapshot (text : String) : Except String Disk :=
  match Json.parse text with
  | .error fault => .error fault.message
  | .ok (.object fields) =>
    match Fields.get? fields "cwd", Fields.get? fields "tree" with
    | some (.string cwd), some (.array entries) =>
      let load : DiskM Unit := do
        DiskM.createDirAll ⟨cwd⟩
        DiskM.putAll ⟨cwd⟩ entries
      match load ⟨[], []⟩ with
      | .error fault _ => .error fault.message
      | .ok _ d =>
        match d.stat ⟨cwd⟩ with
        | .ok (.dir loc) => .ok { d with cwd := loc }
        | _ => .error "the working directory is missing"
    | _, _ => .error "expecting the members cwd and tree"
  | .ok _ => .error "expecting an object"

/-- The entries of a disk that are not on another one, or not the same
there. -/
def changes (earlier later : Disk) : List (Location × Entry) :=
  later.entries.filter fun (loc, entry) => earlier.get? loc ≠ some entry

/-- Writes an entry to the machine's own disk. -/
def store (loc : Location) (entry : Entry) : IO Unit :=
  match entry with
  | .dir => IO.FS.createDirAll loc.path.text
  | .file content => IO.FS.writeBinFile loc.path.text content
  | .link _ => pure ()

end Program

end DualPackage

open DualPackage in
/-- Reads a snapshot, carries out the invocation, and writes what it
changed. -/
def main (args : List String) : IO UInt32 := do
  let input ← (← IO.getStdin).readToEnd
  match Program.diskOfSnapshot input with
  | .error reason =>
    IO.eprintln s!"error: {reason}"
    return 1
  | .ok disk =>
    let started ← IO.monoMsNow
    let (outcome, after) ← IO.lazyPure fun _ => CommandLine.respond disk args
    for (loc, entry) in Program.changes disk after do
      Program.store loc entry
    let elapsed := (← IO.monoMsNow) - started
    for line in outcome.printed (toString elapsed) do
      IO.println line
    for line in outcome.stderr do
      IO.eprintln line
    return UInt32.ofNat outcome.code

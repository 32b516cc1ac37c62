import DualPackage.Disk.Access
import DualPackage.Json.Value
/-!
# Snapshots

A snapshot is a disk as JSON. It is read as a list of entries, each an
object with a path and with the text, the bytes or the target of what
stands there; an entry with none of these is a directory. It is written
as one object with a member for each entry.
-/

namespace DualPackage

open Json (Value Fields)

/-- Bytes as pairs of lower-case hexadecimal digits. -/
def hexOfBytes (bytes : ByteArray) : String :=
  String.ofList (bytes.toList.flatMap fun b =>
    [Nat.digitChar (b.toNat / 16), Nat.digitChar (b.toNat % 16)])

/-- The value of a hexadecimal digit. -/
def hexDigitValue (c : Char) : Nat :=
  if c.isDigit then c.toNat - '0'.toNat else c.toLower.toNat - 'a'.toNat + 10

/-- The bytes written by pairs of hexadecimal digits. -/
def bytesOfHex : List Char → List UInt8
  | a :: b :: rest => UInt8.ofNat (16 * hexDigitValue a + hexDigitValue b) :: bytesOfHex rest
  | _ => []

/-- What the entry of a snapshot puts on the disk. -/
def Entry.ofFields (fields : Fields) : Entry :=
  match fields.get? "text", fields.get? "hex", fields.get? "link" with
  | some (.string text), _, _ => .file text.toUTF8
  | _, some (.string hex), _ => .file ⟨(bytesOfHex hex.toList).toArray⟩
  | _, _, some (.string target) => .link target
  | _, _, _ => .dir

/-- An entry as it is written. -/
def Entry.toJson : Entry → Value
  | .dir => .object [("dir", .bool true)]
  | .link target => .object [("link", .string target)]
  | .file content =>
    match String.fromUTF8? content with
    | some text => .object [("text", .string text)]
    | none => .object [("hex", .string (hexOfBytes content))]

namespace DiskM

/-- Makes a symbolic link at a path where nothing stands yet. -/
def makeLink (p : Path) (target : String) : DiskM Unit :=
  update fun d => do
    match ← d.resolve false p with
    | .free loc _ => .ok (d.set loc (.link target))
    | _ => .error .alreadyExists

/-- Puts an entry at a path, below directories that are made where they are
missing. The content of a file that is there already is replaced. -/
def put (p : Path) (entry : Entry) : DiskM Unit :=
  match entry with
  | .dir => createDirAll p
  | .file content => do
    createDirBelow (p.ancestors.drop 1) ((p.ancestors.head?).getD ⟨""⟩)
    update (·.writeFile p content)
  | .link target => do
    createDirBelow (p.ancestors.drop 1) ((p.ancestors.head?).getD ⟨""⟩)
    makeLink p target

/-- Takes away what stands at a path, with all that lies below it. Links are
taken away and not followed. -/
def remove (p : Path) : DiskM Unit :=
  update fun d => do
    match ← d.resolve false p with
    | .dir loc | .file loc _ _ | .link loc => .ok (d.erase loc)
    | .free _ _ => .error .notFound

/-- Puts the entries of a snapshot, read from the directory `base`. -/
def putAll (base : Path) : List Value → DiskM Unit
  | [] => pure ()
  | .object fields :: rest => do
    match Fields.get? fields "path" with
    | some (.string path) => put (base.join ⟨path⟩) (.ofFields fields)
    | _ => pure ()
    putAll base rest
  | _ :: rest => putAll base rest

end DiskM

namespace Location

/-- What is left of a location below the directory `dir`. -/
def below? : Location → Location → Option Location
  | [], loc => some loc
  | _ :: _, [] => none
  | a :: dir, b :: loc => if a = b then below? dir loc else none

end Location

/-- The entries below a directory, as a snapshot. -/
def Disk.toJson (d : Disk) (dir : Location) : Value :=
  .object (d.entries.filterMap fun (loc, entry) =>
    match Location.below? dir loc with
    | some (name :: names) => some ("/".intercalate (name :: names), entry.toJson)
    | _ => none)

end DualPackage

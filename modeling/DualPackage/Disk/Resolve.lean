import DualPackage.Disk.Basic
/-!
# From paths to locations

A path is resolved one segment at a time from the root or the working
directory. Every segment but the last has to lead to a directory; a link
among them is replaced by its target, and so is a link in last place when
the caller follows it. At most forty links are followed on the way. The
answer is a `Spot`: what stands where the path leads, or the free place
there, in a directory that exists.
-/

namespace DualPackage

/-- Where a path leads. `slash` records that its text, or that of the last
link followed, ends in a slash and so asks for a directory. -/
inductive Spot where
  | dir (loc : Location)
  | file (loc : Location) (content : ByteArray) (slash : Bool)
  | link (loc : Location)
  | free (loc : Location) (slash : Bool)

/-- What a path leads to after following links. -/
inductive Standing where
  | dir (loc : Location)
  | file (loc : Location) (content : ByteArray)

namespace Disk

/-- How many links a resolution may follow. -/
def linkLimit : Nat := 40

/-- The segments of a path that move a resolution. -/
def steps (p : Path) : List String :=
  p.segments.filter (· != "")

variable (d : Disk)

/-- Goes along the segments up to the first link that has to be followed,
and hands what is left of the way to `jump`. -/
def advance (follow : Bool)
    (jump : Location → List String → Bool → Except DiskFault Spot) (slash : Bool) :
    Location → List String → Except DiskFault Spot
  | loc, [] => .ok (.dir loc)
  | loc, step :: rest =>
    if step = "." then advance follow jump slash loc rest
    else if step = ".." then advance follow jump slash loc.dropLast rest
    else
      let next := loc ++ [step]
      match d.get? next with
      | none => if rest.isEmpty then .ok (.free next slash) else .error .notFound
      | some .dir => advance follow jump slash next rest
      | some (.file content) =>
        if rest.isEmpty then .ok (.file next content slash) else .error .notDirectory
      | some (.link target) =>
        if rest.isEmpty && !follow then .ok (.link next)
        else
          let path : Path := ⟨target⟩
          jump (if path.isAbsolute then [] else loc) (steps path ++ rest)
            (if rest.isEmpty then slash || path.endsInSlash else slash)

/-- Goes along the segments and follows at most `links` links. -/
def resolveFrom (follow : Bool) : Nat → Location → List String → Bool → Except DiskFault Spot
  | 0, loc, way, slash => d.advance follow (fun _ _ _ => .error .tooManyLinks) slash loc way
  | links + 1, loc, way, slash => d.advance follow (resolveFrom follow links) slash loc way

/-- Where a path leads. With `follow` a link in last place is followed. -/
def resolve (follow : Bool) (p : Path) : Except DiskFault Spot :=
  if p.text.isEmpty then .error .notFound
  else if p.text.toList.contains '\x00' then .error .zeroByteInName
  else d.resolveFrom follow linkLimit (if p.isAbsolute then [] else d.cwd) (steps p) p.endsInSlash

/-- What a path leads to, links followed. -/
def stat (p : Path) : Except DiskFault Standing := do
  match ← d.resolve true p with
  | .dir loc => .ok (.dir loc)
  | .file loc content slash =>
    if slash then .error .notDirectory else .ok (.file loc content)
  | .link _ | .free _ _ => .error .notFound

/-- Whether a path leads to anything. -/
def pathExists (p : Path) : Bool :=
  (d.stat p).isOk

/-- Whether a path leads to a directory. -/
def isDir (p : Path) : Bool :=
  match d.stat p with
  | .ok (.dir _) => true
  | _ => false

end Disk

end DualPackage

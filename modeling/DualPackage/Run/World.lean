import DualPackage.Disk.Access
import DualPackage.Failure
import DualPackage.ModuleKind
/-!
# The world of a run

A run changes a disk and keeps a log. What it says is kept as data: some
events report progress, others warn, and how a line looks is settled where
it is printed. A run that fails keeps the disk and the log as they were
when it failed.
-/

namespace DualPackage

/-- What a run has to say while it goes on. -/
inductive Event where
  | creatingMarker (kind : ModuleKind)
  | copying (kind : ModuleKind)
  | adjusting
  | addingExtensions (kind : ModuleKind)
  | resolvingAliases (kind : ModuleKind)
  | finished
  | invalidText (path : Path)
  | linkLoop (path : Path)
  deriving DecidableEq, Repr

/-- Whether an event warns, and so is shown to everybody. -/
def Event.isWarning : Event → Bool
  | .invalidText _ | .linkLoop _ => true
  | _ => false

/-- A disk, and what has been said so far. -/
structure World where
  disk : Disk
  log : List Event

/-- A part of a run. -/
abbrev Build (α : Type) := EStateM Failure World α

namespace Build

/-- Adds an event to the log. -/
def log (event : Event) : Build Unit :=
  modify fun w => { w with log := w.log ++ [event] }

/-- A file operation; its fault is reported as one at `path`. -/
def onDisk {α : Type} (path : Path) (operation : DiskM α) : Build α := fun w =>
  match operation w.disk with
  | .ok a d => .ok a { w with disk := d }
  | .error fault d => .error (.io path fault) { w with disk := d }

/-- What the disk answers to a question; a fault is reported as one at
`path`. -/
def ask {α : Type} (path : Path) (question : Disk → Except DiskFault α) : Build α := fun w =>
  match question w.disk with
  | .ok a => .ok a w
  | .error fault => .error (.io path fault) w

/-- A part of a run with a tally of its own, which starts at `start` and is
the answer. -/
def tallying {ε σ τ : Type} (start : τ) (part : EStateM ε (σ × τ) Unit) : EStateM ε σ τ := fun s =>
  match part (s, start) with
  | .ok _ (s', tally) => .ok tally s'
  | .error e (s', _) => .error e s'

/-- A part of a run inside one that keeps a tally. -/
def untallied {ε σ τ α : Type} (part : EStateM ε σ α) : EStateM ε (σ × τ) α := fun s =>
  match part s.1 with
  | .ok a s' => .ok a (s', s.2)
  | .error e s' => .error e (s', s.2)

end Build

end DualPackage

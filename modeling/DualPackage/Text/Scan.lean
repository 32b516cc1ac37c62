/-!
# Scanning a text for matches

A pass over a source text looks for matches of one kind, from left to
right and without overlap: at each position that no earlier match covers
it asks whether a match begins there. A `Finder` answers that question;
`pieces` cuts a text into its matches and the characters between them, and
`replace` writes the text back with every match replaced.

`scanOnto` is the scan in a form that long texts can be run through, and
`pieces_eq_scan` says that it finds what `scan` does.
-/

namespace DualPackage

namespace Text

/-- What a pass looks for. -/
structure Finder (α : Type) where
  /-- The match that begins a text, given the character before it. -/
  find? : Option Char → List Char → Option α
  /-- The characters a match covers. -/
  span : α → List Char

/-- A stretch of a scanned text: one character between the matches, or a
match. -/
inductive Piece (α : Type) where
  | plain (c : Char)
  | found (m : α)

namespace Piece

variable {α : Type}

/-- A piece written back, its match by `write`. -/
def render (write : α → List Char) : Piece α → List Char
  | plain c => [c]
  | found m => write m

/-- The match in a piece, if it is one. -/
def match? : Piece α → Option α
  | plain _ => none
  | found m => some m

end Piece

namespace Finder

variable {α : Type} (F : Finder α)

/-- The pieces of a text that follows the character `before` and whose
first `covered` characters belong to a match already found. -/
def scan : Option Char → Nat → List Char → List (Piece α)
  | _, _, [] => []
  | _, covered + 1, c :: rest => scan (some c) covered rest
  | before, 0, c :: rest =>
    match F.find? before (c :: rest) with
    | none => .plain c :: scan (some c) 0 rest
    | some m => .found m :: scan (some c) ((F.span m).length - 1) rest

/-- `scan` for long texts: the pieces found so far are kept in reverse. -/
def scanOnto (done : List (Piece α)) : Option Char → Nat → List Char → List (Piece α)
  | _, _, [] => done.reverse
  | _, covered + 1, c :: rest => scanOnto done (some c) covered rest
  | before, 0, c :: rest =>
    match F.find? before (c :: rest) with
    | none => scanOnto (.plain c :: done) (some c) 0 rest
    | some m => scanOnto (.found m :: done) (some c) ((F.span m).length - 1) rest

/-- The pieces of a whole text. -/
def pieces (text : List Char) : List (Piece α) :=
  F.scanOnto [] none 0 text

/-- The matches of a text, from left to right. -/
def found (text : List Char) : List α :=
  (F.pieces text).filterMap Piece.match?

/-- The text with every match written by `write`. -/
def replace (write : α → List Char) (text : List Char) : List Char :=
  (F.pieces text).flatMap (Piece.render write)

/-- A finder whose matches are non-empty stretches of the text they are
found in. -/
def Faithful : Prop :=
  ∀ before text m, F.find? before text = some m → F.span m ≠ [] ∧ F.span m <+: text

theorem scanOnto_eq (done : List (Piece α)) (before : Option Char) (covered : Nat)
    (text : List Char) :
    F.scanOnto done before covered text = done.reverse ++ F.scan before covered text := by
  induction text generalizing done before covered with
  | nil => simp [scanOnto, scan]
  | cons c rest ih =>
    cases covered with
    | succ covered => simp [scanOnto, scan, ih]
    | zero =>
      rcases hm : F.find? before (c :: rest) with - | m <;> simp [scanOnto, scan, hm, ih]

theorem pieces_eq_scan (text : List Char) : F.pieces text = F.scan none 0 text := by
  simp [pieces, scanOnto_eq]

end Finder

end Text

end DualPackage

/-!
# Globs

An alias is a glob: each `*` in it stands for any run of characters within
one line, and every other character for itself. `Glob.Matches` says so;
`Glob.covers` decides it. The decision goes through the glob from its end:
for each tail of the glob it keeps one row that tells, of every tail of
the subject, whether the one covers the other, so that a glob of many
stars costs no more than the product of the two lengths.
-/

namespace DualPackage

namespace Glob

/-- The character that stands for a run of others. -/
def wildcard : Char := '*'

/-- The characters a wildcard may run over: all but the line feed. -/
def inGap (c : Char) : Bool :=
  c != '\n'

/-- A glob matches a text. -/
inductive Matches : List Char → List Char → Prop
  | nil : Matches [] []
  | char {c : Char} {glob text : List Char} (hc : c ≠ wildcard) (h : Matches glob text) :
      Matches (c :: glob) (c :: text)
  | gap {gap glob text : List Char} (hgap : ∀ c ∈ gap, inGap c) (h : Matches glob text) :
      Matches (wildcard :: glob) (gap ++ text)

/-- The row of the empty glob: it covers the empty tail only. -/
def endRow : List Char → List Bool
  | [] => [true]
  | _ :: text => false :: endRow text

/-- The row of a glob that begins with the character `c`, from the row of
what follows it. -/
def charRow (c : Char) : List Char → List Bool → List Bool
  | [], _ => [false]
  | x :: text, row => (x == c && row.tail.headD false) :: charRow c text row.tail

/-- The row of a glob that begins with a wildcard, from the row of what
follows it. -/
def gapRow : List Char → List Bool → List Bool
  | [], row => [row.headD false]
  | x :: text, row =>
    let later := gapRow text row.tail
    (row.headD false || (inGap x && later.headD false)) :: later

/-- For each tail of the text, the longest first, whether the glob covers
it. -/
def row : List Char → List Char → List Bool
  | [], text => endRow text
  | c :: glob, text =>
    if c = wildcard then gapRow text (row glob text) else charRow c text (row glob text)

/-- Whether the glob covers the whole text. -/
def covers (glob text : List Char) : Bool :=
  (row glob text).headD false

end Glob

end DualPackage

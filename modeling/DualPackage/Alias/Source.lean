import DualPackage.Alias.Resolve
/-!
# Aliases as regular expressions

What an alias catches can be written down as a regular expression: between
`^` and `$`, `.*` for each wildcard and every other character escaped. The
literal part of the alias has an expression of its own, open at the end.
-/

namespace DualPackage

namespace Alias

/-- The characters that mean something in a regular expression. -/
def needsEscape (c : Char) : Bool :=
  ['\\', '.', '+', '*', '?', '(', ')', '|', '[', ']', '{', '}', '^', '$', '#', '&', '-', '~'].contains c

/-- A text as a regular expression that matches just it. -/
def escape (text : List Char) : List Char :=
  text.flatMap fun c => if needsEscape c then ['\\', c] else [c]

/-- The pieces of an alias between its wildcards. -/
def pieces : List Char → List (List Char)
  | [] => [[]]
  | c :: rest =>
    if c = Glob.wildcard then [] :: pieces rest
    else
      match pieces rest with
      | piece :: more => (c :: piece) :: more
      | [] => [[c]]

/-- The regular expression of the specifiers an alias catches. -/
def catchSource (name : List Char) : List Char :=
  '^' :: List.intercalate ['.', '*'] ((pieces name).map escape) ++ ['$']

/-- The regular expression of the literal part of an alias. -/
def literalSource (name : List Char) : List Char :=
  '^' :: escape (literalOf name)

end Alias

end DualPackage

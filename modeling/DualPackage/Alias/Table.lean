/-!
# Alias tables

A table of aliases keeps its entries in the order in which each alias was
first given; giving an alias again replaces its resolved path in place.
-/

namespace DualPackage

/-- An alias as written in source, and the path that takes its place. -/
structure Alias where
  name : String
  resolved : String
  deriving DecidableEq, Repr

/-- Aliases in the order of their first insertion. -/
structure AliasTable where
  entries : List Alias
  deriving DecidableEq, Repr

namespace AliasTable

/-- The table without entries. -/
def empty : AliasTable := ⟨[]⟩

/-- The entries with `name` resolved to `resolved`: in place where it stands
already, and else at the end. -/
def place (name resolved : String) : List Alias → List Alias
  | [] => [⟨name, resolved⟩]
  | entry :: rest =>
    if entry.name = name then ⟨name, resolved⟩ :: rest else entry :: place name resolved rest

/-- Adds an alias, or gives a known one another resolved path. -/
def insert (table : AliasTable) (name resolved : String) : AliasTable :=
  ⟨place name resolved table.entries⟩

/-- The table of a list of pairs, inserted from left to right. -/
def ofList (pairs : List (String × String)) : AliasTable :=
  pairs.foldl (fun table pair => table.insert pair.1 pair.2) empty

/-- How many aliases the table holds. -/
def size (table : AliasTable) : Nat :=
  table.entries.length

/-- Whether the table holds no alias. -/
def isEmpty (table : AliasTable) : Bool :=
  table.entries.isEmpty

/-- The names of a table, in order. -/
def names (table : AliasTable) : List String :=
  table.entries.map Alias.name

end AliasTable

end DualPackage

import DualPackage.Alias.Glob
import DualPackage.Alias.Table
import DualPackage.Clause.Revision
/-!
# Resolving specifiers through aliases

An alias catches the specifiers its glob covers. What it replaces is its
literal part, the text before the first wildcard; a `/` right before the
wildcard stays with the remainder, so that `@app/*` turns `@app/log` into
the resolved path, `/`, and `log`. Of several aliases that catch a
specifier the first in table order decides. The pass over a text leaves
specifiers that point into the package alone.
-/

namespace DualPackage

namespace Alias

/-- The part of an alias that a resolution replaces. -/
def literalOf (name : List Char) : List Char :=
  let literal := name.takeWhile (· != Glob.wildcard)
  if name.contains Glob.wildcard && literal.getLast? == some '/' then literal.dropLast else literal

/-- A text without the slashes it ends with. -/
def trimSlashes (text : List Char) : List Char :=
  (text.reverse.dropWhile (· == '/')).reverse

/-- The resolved path followed by the remainder of a specifier, with no
doubled `/` in between. -/
def joinRemainder (resolved remainder : List Char) : List Char :=
  if remainder.head? == some '/' then trimSlashes resolved ++ remainder else resolved ++ remainder

variable (a : Alias)

/-- The literal part of the alias. -/
def literal : List Char :=
  literalOf a.name.toList

/-- Whether the alias covers the whole specifier. -/
def catches (s : Specifier) : Bool :=
  Glob.covers a.name.toList s

/-- The specifier with the literal part of the alias replaced, if the alias
catches it. -/
def resolve? (s : Specifier) : Option Specifier :=
  if a.catches s then
    some (joinRemainder a.resolved.toList (s.drop a.literal.length))
  else none

end Alias

namespace AliasTable

variable (table : AliasTable)

/-- The first alias of the table that catches the specifier. -/
def catching? (s : Specifier) : Option Alias :=
  table.entries.find? (·.catches s)

/-- The specifier resolved by the first alias that catches it. -/
def resolve? (s : Specifier) : Option Specifier := do
  let a ← table.catching? s
  a.resolve? s

/-- What the pass over a text makes of a specifier. With `extend`, a
resolved specifier that lacks an extension is given one. -/
def rewrite? (extend : Bool) (s : Specifier) : Option Specifier :=
  if s.isRelativeOrRooted then none
  else do
    let resolved ← table.resolve? s
    some (if extend && resolved.lacksExtension then resolved ++ Specifier.scriptExtension
      else resolved)

end AliasTable

/-- The pass that resolves the aliased specifiers of every `from` clause. -/
def resolveAliases (table : AliasTable) (extend : Bool) (text : List Char) : Revision :=
  Form.anyFrom.revise (table.rewrite? extend) text

end DualPackage

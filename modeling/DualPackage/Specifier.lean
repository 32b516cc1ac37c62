/-!
# Module specifiers

A specifier is the text between the quotes of an import: `./lib/a`,
`lodash`, `@app/log`. One that begins with `.` or `/` points into the
package itself; any other names a package or an alias. A loader of ESM
files asks for the extension to be written out, so a specifier of the
first kind whose last segment holds no `.` is given `.js`.
-/

namespace DualPackage

/-- The text between the quotes of an import or export clause. -/
abbrev Specifier := List Char

namespace Specifier

/-- The extension written where one is missing. -/
def scriptExtension : List Char := ['.', 'j', 's']

/-- The specifier points into the package itself: it begins with `.` or
`/`. -/
def isRelativeOrRooted (s : Specifier) : Bool :=
  match s with
  | c :: _ => c == '.' || c == '/'
  | [] => false

/-- The part of a specifier after its last `/`. -/
def lastSegment (s : Specifier) : List Char :=
  (s.reverse.takeWhile (· != '/')).reverse

/-- The last segment is a file name without any `.` in it. The empty
segment of `./dir/` refers to a directory and lacks nothing. -/
def lacksExtension (s : Specifier) : Bool :=
  !s.lastSegment.isEmpty && !s.lastSegment.contains '.'

/-- The specifier has to be given an extension. Bare package names such as
`lodash` or `lodash/fp` are none of our business. -/
def needsExtension (s : Specifier) : Bool :=
  s.isRelativeOrRooted && s.lacksExtension

/-- The specifier with the extension it needs, if it needs one. -/
def withScriptExtension? (s : Specifier) : Option Specifier :=
  if s.needsExtension then some (s ++ scriptExtension) else none

end Specifier

end DualPackage

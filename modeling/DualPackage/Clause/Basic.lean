import DualPackage.Text.Blank
import DualPackage.Specifier
/-!
# Clauses that name a module

An import or export clause is read as a lead (the keyword and all up to
the opening quote), the specifier, and the two quotes around it. The two
quotes need not be of the same kind: a run between any two quotes of one
line counts. `QuotedRun` is the second half of a clause on its own.
-/

namespace DualPackage

/-- The two quotes a specifier may stand between. -/
def isQuote (c : Char) : Bool :=
  c == '\'' || c == '"'

/-- The characters a specifier may hold: no quote, and no line end. -/
def inSpecifier (c : Char) : Bool :=
  !isQuote c && c != '\r' && c != '\n'

/-- A specifier and the quotes around it. -/
structure QuotedRun where
  openQuote : Char
  specifier : Specifier
  closeQuote : Char
  deriving DecidableEq, Repr

namespace QuotedRun

/-- The text of a quoted run. -/
def text (q : QuotedRun) : List Char :=
  q.openQuote :: q.specifier ++ [q.closeQuote]

/-- The quoted run a text begins with. -/
def atHead? : List Char → Option QuotedRun
  | [] => none
  | q :: rest =>
    if isQuote q then
      match rest.dropWhile inSpecifier with
      | e :: _ => if isQuote e then some ⟨q, rest.takeWhile inSpecifier, e⟩ else none
      | [] => none
    else none

end QuotedRun

/-- An import or export clause: its text up to the opening quote, and the
quoted specifier. -/
structure Clause where
  lead : List Char
  quoted : QuotedRun
  deriving DecidableEq, Repr

namespace Clause

/-- The specifier a clause names. -/
def specifier (c : Clause) : Specifier :=
  c.quoted.specifier

/-- The text of a clause. -/
def text (c : Clause) : List Char :=
  c.lead ++ c.quoted.text

/-- The clause with another specifier. -/
def withSpecifier (c : Clause) (s : Specifier) : Clause :=
  { c with quoted := { c.quoted with specifier := s } }

@[simp] theorem specifier_withSpecifier (c : Clause) (s : Specifier) :
    (c.withSpecifier s).specifier = s := rfl

@[simp] theorem withSpecifier_specifier (c : Clause) : c.withSpecifier c.specifier = c := rfl

end Clause

end DualPackage

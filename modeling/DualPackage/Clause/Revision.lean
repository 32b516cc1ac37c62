import DualPackage.Clause.Form
/-!
# Rewriting the specifiers of a text

A pass over a source text yields a `Revision`: the text after the pass, and
whether the pass replaced anything. `Form.revise` hands the specifier of
every clause of one form to a function and writes back what it answers;
an answer equal to the specifier counts as no change.
-/

namespace DualPackage

open Text

/-- A text after a pass, and whether the pass replaced anything in it. -/
structure Revision where
  text : List Char
  changed : Bool
  deriving DecidableEq, Repr

namespace Revision

/-- The text as it was. -/
def unchanged (text : List Char) : Revision := ⟨text, false⟩

/-- A second pass over the text that a first one left. -/
def followedBy (first : Revision) (second : List Char → Revision) : Revision :=
  let result := second first.text
  ⟨result.text, first.changed || result.changed⟩

end Revision

namespace Clause

/-- The clause with its specifier replaced by what `f` answers, if it
answers anything. -/
def revise (f : Specifier → Option Specifier) (c : Clause) : Clause :=
  c.withSpecifier ((f c.specifier).getD c.specifier)

/-- Whether `f` answers a specifier other than the clause's own. -/
def isRevised (f : Specifier → Option Specifier) (c : Clause) : Bool :=
  (f c.specifier).any (· != c.specifier)

end Clause

/-- The pass that replaces the specifier of every clause of one form. -/
def Form.revise (form : Form) (f : Specifier → Option Specifier) (text : List Char) : Revision where
  text := form.finder.replace (fun c => (c.revise f).text) text
  changed := (form.finder.found text).any (Clause.isRevised f)

/-- The pass that writes out the missing extension of every specifier that
points into the package, in imports first and then in exports. -/
def appendExtensions (text : List Char) : Revision :=
  (Form.importFrom.revise Specifier.withScriptExtension? text).followedBy
    (Form.exportFrom.revise Specifier.withScriptExtension?)

end DualPackage

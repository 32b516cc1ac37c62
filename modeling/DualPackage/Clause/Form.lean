import DualPackage.Clause.Basic
import DualPackage.Text.Scan
/-!
# The forms of a clause

Four forms are told apart. `anyFrom` is a `from '…'` clause wherever it
stands; `importFrom` and `exportFrom` are whole statements, read from
their keyword on; `jsonImport` is an import whose specifier ends in
`.json` and whose closing quote is followed by `;`, so that it carries no
attributes yet.

`Form.lead?` reads the text up to the opening quote. It has no choice to
make: the bindings of an import reach to the first character that cannot
belong to them, and that character has to be the quote; the braces of an
export end at the first `}`. `Form.clause?` adds the quoted run, and
`Form.finder` is the scan for a form.
-/

namespace DualPackage

open Text

/-- The rest of a text that begins with `word`. -/
def afterWord? : List Char → List Char → Option (List Char)
  | [], text => some text
  | _ :: _, [] => none
  | w :: word, c :: text => if w = c then afterWord? word text else none

theorem afterWord?_append (word text : List Char) : afterWord? word (word ++ text) = some text := by
  induction word with
  | nil => rfl
  | cons w word ih => simp [afterWord?, ih]

theorem afterWord?_eq_some_iff {word text rest : List Char} :
    afterWord? word text = some rest ↔ text = word ++ rest := by
  refine ⟨fun h => ?_, fun h => h ▸ afterWord?_append word rest⟩
  fun_induction afterWord? word text with
  | case1 text => simpa using h
  | case2 => cases h
  | case3 word c text ih => simp [ih h]
  | case4 => cases h

/-- The keyword in front of the specifier. -/
def fromWord : List Char := ['f', 'r', 'o', 'm']

/-- The keyword of an import statement. -/
def importWord : List Char := ['i', 'm', 'p', 'o', 'r', 't']

/-- The keyword of an export statement. -/
def exportWord : List Char := ['e', 'x', 'p', 'o', 'r', 't']

/-- The characters the bindings of an import may hold. A parenthesis ends
them, so `import(…)` is never taken for a statement. -/
def inBindings (c : Char) : Bool :=
  c != ';' && !isQuote c && c != '(' && c != ')'

/-- The bindings of an import end in the keyword `from`, standing alone,
and white space. -/
def endsInFrom (bindings : List Char) : Bool :=
  match bindings.reverse.dropWhile isBlank with
  | 'm' :: 'o' :: 'r' :: 'f' :: c :: _ => !isWord c
  | _ => false

/-- The forms of a clause that a pass may look for. -/
inductive Form where
  | anyFrom
  | importFrom
  | exportFrom
  | jsonImport
  deriving DecidableEq, Repr

namespace Form

/-- The lead of a `from '…'` clause: the keyword and white space. -/
def fromLead? (text : List Char) : Option (List Char) := do
  let rest ← afterWord? fromWord text
  some (fromWord ++ leadingBlank rest)

/-- The lead of an import: the keyword, and bindings that begin with a
character for which `opens` holds and end in `from`. -/
def importLead? (opens : Char → Bool) (text : List Char) : Option (List Char) := do
  let rest ← afterWord? importWord text
  let bindings := rest.takeWhile inBindings
  if bindings.head?.any opens && endsInFrom bindings then
    some (importWord ++ bindings)
  else none

/-- The text from an opening brace to the first closing one. -/
def braced? : List Char → Option (List Char)
  | '{' :: rest =>
    match rest.dropWhile (· != '}') with
    | [] => none
    | _ :: _ => some ('{' :: rest.takeWhile (· != '}') ++ ['}'])
  | _ => none

/-- The lead of an export: the keyword, names in braces, and `from`, with
white space in between. -/
def exportLead? (text : List Char) : Option (List Char) := do
  let rest ← afterWord? exportWord text
  let names ← braced? (skipBlank rest)
  let tail := (skipBlank rest).drop names.length
  let source ← fromLead? (skipBlank tail)
  some (exportWord ++ leadingBlank rest ++ names ++ leadingBlank tail ++ source)

/-- The lead of a clause of the given form at the head of a text. -/
def lead? : Form → List Char → Option (List Char)
  | anyFrom => fromLead?
  | importFrom => importLead? fun c => isBlank c || c == '{' || c == '*'
  | exportFrom => exportLead?
  | jsonImport => importLead? isBlank

/-- Whether a specifier ends in `.json` and is more than that. -/
def isJsonFile (s : Specifier) : Bool :=
  match s.reverse with
  | 'n' :: 'o' :: 's' :: 'j' :: '.' :: _ :: _ => true
  | _ => false

/-- What the form asks of the specifier and of the text after the closing
quote. -/
def accepts (form : Form) (specifier : Specifier) (after : List Char) : Bool :=
  match form with
  | anyFrom => !specifier.isEmpty
  | importFrom | exportFrom => true
  | jsonImport => isJsonFile specifier && (skipBlank after).head? == some ';'

/-- The clause of the given form at the head of a text that follows the
character `before`. -/
def clause? (form : Form) (before : Option Char) (text : List Char) : Option Clause := do
  let lead ← form.lead? text
  if opensWord before then
    let quoted ← QuotedRun.atHead? (text.drop lead.length)
    let clause : Clause := ⟨lead, quoted⟩
    if form.accepts clause.specifier (text.drop clause.text.length) then some clause else none
  else none

/-- The scan for the clauses of one form. -/
def finder (form : Form) : Finder Clause where
  find? := form.clause?
  span := Clause.text

end Form

end DualPackage

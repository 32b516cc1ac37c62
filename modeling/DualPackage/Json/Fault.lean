/-!
# What can be wrong with a JSON text

A fault has a cause and a place. The place is a line, counted from 1, and
a column, the number of bytes of that line read so far with the offending
one included.
-/

namespace DualPackage

namespace Json

/-- Why a text is not JSON. -/
inductive Cause where
  | endInList
  | endInObject
  | endInString
  | endInValue
  | expectedColon
  | expectedCommaOrBracket
  | expectedCommaOrBrace
  | expectedIdent
  | expectedValue
  | invalidEscape
  | invalidNumber
  | numberOutOfRange
  | controlCharacter
  | keyNotString
  | loneSurrogate
  | nestedTooDeep
  | trailingCharacters
  | trailingComma
  | unfinishedPair
  deriving DecidableEq, Repr

/-- The wording of a cause. -/
def Cause.message : Cause → String
  | endInList => "EOF while parsing a list"
  | endInObject => "EOF while parsing an object"
  | endInString => "EOF while parsing a string"
  | endInValue => "EOF while parsing a value"
  | expectedColon => "expected `:`"
  | expectedCommaOrBracket => "expected `,` or `]`"
  | expectedCommaOrBrace => "expected `,` or `\x7d`"
  | expectedIdent => "expected ident"
  | expectedValue => "expected value"
  | invalidEscape => "invalid escape"
  | invalidNumber => "invalid number"
  | numberOutOfRange => "number out of range"
  | controlCharacter => "control character (\\u0000-\\u001F) found while parsing a string"
  | keyNotString => "key must be a string"
  | loneSurrogate => "lone leading surrogate in hex escape"
  | nestedTooDeep => "recursion limit exceeded"
  | trailingCharacters => "trailing characters"
  | trailingComma => "trailing comma"
  | unfinishedPair => "unexpected end of hex escape"

/-- A cause met while reading: `unread` is what the reader had left, and
`ahead` the number of bytes of it that count as read. -/
structure Fault where
  cause : Cause
  unread : List Char
  ahead : Nat
  deriving DecidableEq, Repr

/-- A cause and its place in the whole text. -/
structure TextFault where
  cause : Cause
  line : Nat
  column : Nat
  deriving DecidableEq, Repr

/-- The number of bytes of a text. -/
def byteLength (text : List Char) : Nat :=
  text.foldr (fun c bytes => c.utf8Size + bytes) 0

/-- Line and column after the first `bytes` bytes of a text that begins at
the given line and column. -/
def placeAfter (line column : Nat) : Nat → List Char → Nat × Nat
  | 0, _ | _, [] => (line, column)
  | bytes, c :: text =>
    if c = '\n' then placeAfter (line + 1) 0 (bytes - 1) text
    else placeAfter line (column + min bytes c.utf8Size) (bytes - c.utf8Size) text

/-- A fault placed in the whole text. -/
def Fault.inText (fault : Fault) (whole : List Char) : TextFault :=
  let total := byteLength whole
  let place := placeAfter 1 0 (min total (total - byteLength fault.unread + fault.ahead)) whole
  ⟨fault.cause, place.1, place.2⟩

/-- The wording of a fault. -/
def TextFault.message (fault : TextFault) : String :=
  fault.cause.message ++ " at line " ++ toString fault.line ++ " column " ++
    toString fault.column

end Json

end DualPackage

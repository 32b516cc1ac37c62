import DualPackage.Json.Number
/-!
# Reading JSON

The reader is strict: no byte order mark, no comments, no trailing commas,
no control characters in strings, no half of a surrogate pair, and no more
than 127 arrays and objects inside each other. Of a repeated key the last
value counts, at the place of the first.

Every reading function takes the text that is left and gives back a value
and the text after it. The loops over items, fields and characters carry a
bound on their rounds; the length of the text is one, since each round
reads a character.
-/

namespace DualPackage

namespace Json

/-- A function that reads a value off the head of a text. -/
abbrev Reader (α : Type) := List Char → Except Fault (α × List Char)

/-- The white space between the parts of a JSON text. -/
def isSpace (c : Char) : Bool :=
  c == ' ' || c == '\n' || c == '\t' || c == '\r'

/-- The text without the white space it begins with. -/
def skipSpace (text : List Char) : List Char :=
  text.dropWhile isSpace

/-- A fault at the first byte of a text that is not empty. -/
def faultAt (cause : Cause) (text : List Char) : Fault :=
  ⟨cause, text, 1⟩

/-- A fault at the end of the text. -/
def faultAtEnd (cause : Cause) : Fault :=
  ⟨cause, [], 0⟩

/-! ## Strings -/

/-- The value of a hexadecimal digit. -/
def hexValue? (c : Char) : Option Nat :=
  if '0' ≤ c && c ≤ '9' then some (c.toNat - '0'.toNat)
  else if 'a' ≤ c && c ≤ 'f' then some (c.toNat - 'a'.toNat + 10)
  else if 'A' ≤ c && c ≤ 'F' then some (c.toNat - 'A'.toNat + 10)
  else none

/-- Four hexadecimal digits. -/
def hexFour? : List Char → Option (Nat × List Char)
  | a :: b :: c :: d :: rest => do
    let a ← hexValue? a
    let b ← hexValue? b
    let c ← hexValue? c
    let d ← hexValue? d
    some (((a * 16 + b) * 16 + c) * 16 + d, rest)
  | _ => none

/-- The number that the four bytes after `\u` write. -/
def readHexFour (text : List Char) : Except Fault (Nat × List Char) :=
  match hexFour? text with
  | some result => .ok result
  | none =>
    if byteLength text < 4 then .error (faultAtEnd .endInString)
    else .error ⟨.invalidEscape, text, 4⟩

/-- The second half of a surrogate pair, with the `\u` in front of it. -/
def readLowSurrogate (text : List Char) : Except Fault (Nat × List Char) :=
  match text with
  | [] => .error (faultAtEnd .endInString)
  | '\\' :: [] => .error (faultAtEnd .endInString)
  | '\\' :: 'u' :: rest => do
    let (low, after) ← readHexFour rest
    if 0xDC00 ≤ low && low ≤ 0xDFFF then .ok (low, after)
    else .error ⟨.loneSurrogate, after, 0⟩
  | '\\' :: rest => .error (faultAt .unfinishedPair rest)
  | _ => .error (faultAt .unfinishedPair text)

/-- The character written by `\u` and what follows. -/
def readUnicode (text : List Char) : Except Fault (Char × List Char) := do
  let (n, rest) ← readHexFour text
  if 0xDC00 ≤ n && n ≤ 0xDFFF then .error ⟨.loneSurrogate, rest, 0⟩
  else if 0xD800 ≤ n && n ≤ 0xDBFF then do
    let (low, after) ← readLowSurrogate rest
    .ok (Char.ofNat (0x10000 + (n - 0xD800) * 0x400 + (low - 0xDC00)), after)
  else .ok (Char.ofNat n, rest)

/-- The character written by a backslash and what follows. -/
def readEscape (text : List Char) : Except Fault (Char × List Char) :=
  match text with
  | [] => .error (faultAtEnd .endInString)
  | c :: rest =>
    match c with
    | '"' => .ok ('"', rest)
    | '\\' => .ok ('\\', rest)
    | '/' => .ok ('/', rest)
    | 'b' => .ok ('\x08', rest)
    | 'f' => .ok ('\x0c', rest)
    | 'n' => .ok ('\n', rest)
    | 'r' => .ok ('\r', rest)
    | 't' => .ok ('\t', rest)
    | 'u' => readUnicode rest
    | _ => .error (faultAt .invalidEscape text)

/-- The characters of a string up to its closing quote. -/
def readChars : Nat → List Char → Except Fault (List Char × List Char)
  | _, [] | 0, _ => .error (faultAtEnd .endInString)
  | bound + 1, c :: rest =>
    if c = '"' then .ok ([], rest)
    else if c = '\\' then do
      let (x, after) ← readEscape rest
      let (xs, after) ← readChars bound after
      .ok (x :: xs, after)
    else if c.toNat < 0x20 then .error (faultAt .controlCharacter (c :: rest))
    else do
      let (xs, after) ← readChars bound rest
      .ok (c :: xs, after)

/-- A string whose opening quote is read. -/
def readString (text : List Char) : Except Fault (String × List Char) := do
  let (chars, rest) ← readChars text.length text
  .ok (String.ofList chars, rest)

/-! ## Values -/

/-- The rest of a keyword. -/
def readIdent (value : Value) : List Char → List Char → Except Fault (Value × List Char)
  | [], text => .ok (value, text)
  | _ :: _, [] => .error (faultAtEnd .endInValue)
  | w :: word, c :: text =>
    if w = c then readIdent value word text else .error (faultAt .expectedIdent (c :: text))

/-- The items of an array up to its closing bracket. `first` says that none
has been read yet. -/
def readItems (item : Reader Value) : Nat → Bool → List Char → Except Fault (List Value × List Char)
  | 0, _, _ => .error (faultAtEnd .endInList)
  | bound + 1, first, text =>
    match skipSpace text with
    | [] => .error (faultAtEnd .endInList)
    | c :: rest =>
      if c = ']' then .ok ([], rest)
      else if first then do
        let (v, after) ← item (c :: rest)
        let (vs, after) ← readItems item bound false after
        .ok (v :: vs, after)
      else if c = ',' then
        match skipSpace rest with
        | [] => .error (faultAtEnd .endInValue)
        | d :: more =>
          if d = ']' then .error (faultAt .trailingComma (d :: more))
          else do
            let (v, after) ← item (d :: more)
            let (vs, after) ← readItems item bound false after
            .ok (v :: vs, after)
      else .error (faultAt .expectedCommaOrBracket (c :: rest))

/-- A key whose opening quote is read, the colon, and the value. -/
def readField (item : Reader Value) (text : List Char) :
    Except Fault ((String × Value) × List Char) := do
  let (key, rest) ← readString text
  match skipSpace rest with
  | [] => .error (faultAtEnd .endInObject)
  | c :: rest =>
    if c = ':' then do
      let (v, after) ← item rest
      .ok ((key, v), after)
    else .error (faultAt .expectedColon (c :: rest))

/-- The fields of an object up to its closing brace, added to those read
before. -/
def readFields (item : Reader Value) :
    Nat → Bool → Fields → List Char → Except Fault (Fields × List Char)
  | 0, _, _, _ => .error (faultAtEnd .endInObject)
  | bound + 1, first, fields, text =>
    match skipSpace text with
    | [] => .error (faultAtEnd .endInObject)
    | c :: rest =>
      if c = '}' then .ok (fields, rest)
      else if first then
        if c = '"' then do
          let ((key, v), after) ← readField item rest
          readFields item bound false (fields.set key v) after
        else .error (faultAt .keyNotString (c :: rest))
      else if c = ',' then
        match skipSpace rest with
        | [] => .error (faultAtEnd .endInValue)
        | d :: more =>
          if d = '"' then do
            let ((key, v), after) ← readField item more
            readFields item bound false (fields.set key v) after
          else if d = '}' then .error (faultAt .trailingComma (d :: more))
          else .error (faultAt .keyNotString (d :: more))
      else .error (faultAt .expectedCommaOrBrace (c :: rest))

/-- How many arrays and objects may stand inside each other. -/
def maxDepth : Nat := 127

/-- The value at the head of a text, when `depth` more arrays and objects
may be opened. -/
def readValue (depth : Nat) (text : List Char) : Except Fault (Value × List Char) :=
  match skipSpace text with
  | [] => .error (faultAtEnd .endInValue)
  | c :: rest =>
    match c with
    | 'n' => readIdent .null ['u', 'l', 'l'] rest
    | 't' => readIdent (.bool true) ['r', 'u', 'e'] rest
    | 'f' => readIdent (.bool false) ['a', 'l', 's', 'e'] rest
    | '"' => do
      let (s, after) ← readString rest
      .ok (.string s, after)
    | '[' =>
      match depth with
      | 0 => .error (faultAt .nestedTooDeep (c :: rest))
      | depth + 1 => do
        let (items, after) ← readItems (readValue depth) (rest.length + 1) true rest
        .ok (.array items, after)
    | '{' =>
      match depth with
      | 0 => .error (faultAt .nestedTooDeep (c :: rest))
      | depth + 1 => do
        let (fields, after) ← readFields (readValue depth) (rest.length + 1) true [] rest
        .ok (.object fields, after)
    | '-' => do
      let (n, after) ← readNumber true rest
      .ok (.number n, after)
    | _ =>
      if c.isDigit then do
        let (n, after) ← readNumber false (c :: rest)
        .ok (.number n, after)
      else .error (faultAt .expectedValue (c :: rest))

/-- Reads a whole text. -/
def readText (text : List Char) : Except Fault Value := do
  let (v, rest) ← readValue maxDepth text
  match skipSpace rest with
  | [] => .ok v
  | c :: more => .error (faultAt .trailingCharacters (c :: more))

/-- Reads a whole text, and places the fault if there is one. -/
def parse (text : String) : Except TextFault Value :=
  (readText text.toList).mapError (·.inText text.toList)

end Json

end DualPackage

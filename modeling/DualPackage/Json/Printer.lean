import DualPackage.Decimal.Shortest
import DualPackage.Json.Value
/-!
# Writing JSON

Values are written over several lines with an indent of four spaces; an
empty array or object stays on one line. Of the characters of a string
only the quote, the backslash and the control characters are escaped. A
double is written with the fewest digits that read back, positionally as
long as it has at most sixteen places before its point and at most four
zeros after it.
-/

namespace DualPackage

namespace Json

/-- A hexadecimal digit, in lower case. -/
def hexDigit (n : Nat) : Char :=
  if n < 10 then Char.ofNat ('0'.toNat + n) else Char.ofNat ('a'.toNat + (n - 10))

/-- A character of a string as it is written. -/
def escapeChar (c : Char) : List Char :=
  if c = '"' then ['\\', '"']
  else if c = '\\' then ['\\', '\\']
  else if c = '\n' then ['\\', 'n']
  else if c = '\r' then ['\\', 'r']
  else if c = '\t' then ['\\', 't']
  else if c = '\x08' then ['\\', 'b']
  else if c = '\x0c' then ['\\', 'f']
  else if c.toNat < 0x20 then
    ['\\', 'u', '0', '0', hexDigit (c.toNat / 16), hexDigit (c.toNat % 16)]
  else [c]

/-- A string as it is written. -/
def quoted (s : String) : List Char :=
  '"' :: s.toList.flatMap escapeChar ++ ['"']

/-- An exponent as it is written, with its sign. -/
def exponentText (e : Int) : List Char :=
  match e with
  | .ofNat n => '+' :: Nat.toDigits 10 n
  | .negSucc n => '-' :: Nat.toDigits 10 (n + 1)

/-- A decimal as it is written: positionally from `0.00001` up to below
`10 ^ 16`, and else with an exponent. -/
def decimalText (d : Decimal.Scientific) : List Char :=
  let digits := Nat.toDigits 10 d.digits
  let length : Int := digits.length
  let point := length + d.exponent
  if 0 ≤ d.exponent && point ≤ 16 then
    digits ++ List.replicate d.exponent.toNat '0' ++ ['.', '0']
  else if 0 < point && point ≤ 16 then
    digits.take point.toNat ++ '.' :: digits.drop point.toNat
  else if -5 < point && point ≤ 0 then
    '0' :: '.' :: List.replicate (-point).toNat '0' ++ digits
  else
    digits.take 1 ++ (if digits.length = 1 then [] else '.' :: digits.drop 1) ++
      'e' :: exponentText (point - 1)

/-- A double as it is written. JSON has no word for one that is not
finite. -/
def doubleText (x : Float) : List Char :=
  if x.isNaN || x.isInf then ['n', 'u', 'l', 'l']
  else
    let negative := Nat.pow 2 63 ≤ x.toBits.toNat
    (if negative then ['-'] else []) ++
      if x == 0 then ['0', '.', '0'] else decimalText (Decimal.shortest x.abs)

/-- An integer as it is written. -/
def integerText : Int → List Char
  | .ofNat n => Nat.toDigits 10 n
  | .negSucc n => '-' :: Nat.toDigits 10 (n + 1)

/-- A number as it is written. -/
def Number.text : Number → List Char
  | .integer i => integerText i
  | .double x => doubleText x

/-- A line break and the indent of the given depth. -/
def newLine (depth : Nat) : List Char :=
  '\n' :: List.replicate (4 * depth) ' '

mutual

/-- A value as it is written at the given depth. -/
def Value.text (depth : Nat) : Value → List Char
  | .null => ['n', 'u', 'l', 'l']
  | .bool true => ['t', 'r', 'u', 'e']
  | .bool false => ['f', 'a', 'l', 's', 'e']
  | .number n => n.text
  | .string s => quoted s
  | .array [] => ['[', ']']
  | .array (item :: items) =>
    '[' :: newLine (depth + 1) ++ item.text (depth + 1) ++ itemsText (depth + 1) items ++
      newLine depth ++ [']']
  | .object [] => ['{', '}']
  | .object ((key, value) :: fields) =>
    '{' :: newLine (depth + 1) ++ quoted key ++ ':' :: ' ' :: value.text (depth + 1) ++
      fieldsText (depth + 1) fields ++ newLine depth ++ ['}']

/-- The items of an array after the first. -/
def itemsText (depth : Nat) : List Value → List Char
  | [] => []
  | item :: items => ',' :: newLine depth ++ item.text depth ++ itemsText depth items

/-- The fields of an object after the first. -/
def fieldsText (depth : Nat) : List (String × Value) → List Char
  | [] => []
  | (key, value) :: fields =>
    ',' :: newLine depth ++ quoted key ++ ':' :: ' ' :: value.text depth ++
      fieldsText depth fields

end

/-- A value written over several lines. -/
def Value.pretty (v : Value) : String :=
  String.ofList (v.text 0)

end Json

end DualPackage

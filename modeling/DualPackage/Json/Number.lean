import DualPackage.Json.Fault
import DualPackage.Json.Value
/-!
# Reading JSON numbers

The digits of a number are gathered into a significand of 64 bits; digits
beyond that only move the exponent. A number without point and exponent is
an integer if 64 bits hold it, signed or not. Any other is the significand
as a double, multiplied or divided by a power of ten; it is refused if that
is infinite.
-/

namespace DualPackage

namespace Json

/-- The value of a decimal digit. -/
def digitValue (c : Char) : Nat :=
  c.toNat - '0'.toNat

/-- Whether a text begins with a digit. -/
def startsWithDigit (text : List Char) : Bool :=
  text.head?.any Char.isDigit

/-- Gathers digits into `acc` as long as the result stays below `limit`, and
gives back what is left of the text. -/
def gatherDigits (limit : Nat) : Nat → List Char → Nat × List Char
  | acc, [] => (acc, [])
  | acc, c :: rest =>
    if c.isDigit && 10 * acc + digitValue c < limit then
      gatherDigits limit (10 * acc + digitValue c) rest
    else (acc, c :: rest)

/-- The significands a number may have lie below this bound. -/
def significandLimit : Nat := Nat.pow 2 64

/-- The exponents a number may have lie below this bound. -/
def exponentLimit : Nat := Nat.pow 2 31

/-- The power of ten beyond which a double is out of range. -/
def maxPower : Nat := 308

/-- A double with its sign. -/
def signed (negative : Bool) (x : Float) : Float :=
  if negative then -x else x

/-- Divides by `10 ^ exponent`, in steps that a double can make. -/
def scaleDown : Nat → Float → Nat → Float
  | 0, x, _ => x
  | steps + 1, x, exponent =>
    if exponent ≤ maxPower then x / Float.ofScientific 1 false exponent
    else if x == 0 then x
    else scaleDown steps (x / Float.ofScientific 1 false maxPower) (exponent - maxPower)

/-- The double `significand · 10 ^ exponent`, if it is in range. -/
def scaled? (significand : Nat) (exponent : Int) : Option Float :=
  let x := (UInt64.ofNat significand).toFloat
  match exponent with
  | .ofNat e =>
    if e ≤ maxPower then
      let y := x * Float.ofScientific 1 false e
      if y.isInf then none else some y
    else if x == 0 then some x else none
  | .negSucc e => some (scaleDown (e / maxPower + 1) x (e + 1))

/-- The number read so far, as a double. -/
def finishDouble (negative : Bool) (significand : Nat) (exponent : Int) (rest : List Char) :
    Except Fault (Number × List Char) :=
  match scaled? significand exponent with
  | some x => .ok (.double (signed negative x), rest)
  | none => .error ⟨.numberOutOfRange, rest, 0⟩

/-- The rest of a number after the letter of its exponent. -/
def readExponent (negative : Bool) (significand : Nat) (exponent : Int) (text : List Char) :
    Except Fault (Number × List Char) :=
  let (down, digits) :=
    match text with
    | '+' :: rest => (false, rest)
    | '-' :: rest => (true, rest)
    | _ => (false, text)
  if digits.isEmpty then .error ⟨.endInValue, digits, 0⟩
  else if !startsWithDigit digits then .error ⟨.invalidNumber, digits, 1⟩
  else
    let (e, rest) := gatherDigits exponentLimit 0 digits
    if startsWithDigit rest then
      if significand ≠ 0 && !down then .error ⟨.numberOutOfRange, rest, 1⟩
      else .ok (.double (signed negative 0), rest.dropWhile Char.isDigit)
    else finishDouble negative significand (if down then exponent - e else exponent + e) rest

/-- The rest of a number from its exponent on, if it has one. -/
def readTail (negative : Bool) (significand : Nat) (exponent : Int) (text : List Char) :
    Except Fault (Number × List Char) :=
  match text with
  | 'e' :: rest | 'E' :: rest => readExponent negative significand exponent rest
  | _ => finishDouble negative significand exponent text

/-- The rest of a number after its point. -/
def readFraction (negative : Bool) (significand : Nat) (exponent : Int) (text : List Char) :
    Except Fault (Number × List Char) :=
  let (s, rest) := gatherDigits significandLimit significand text
  let e : Int := exponent - (text.length - rest.length : Nat)
  if startsWithDigit text then readTail negative s e (rest.dropWhile Char.isDigit)
  else if text.isEmpty then .error ⟨.endInValue, text, 0⟩
  else .error ⟨.invalidNumber, text, 1⟩

/-- A number without point and exponent. -/
def wholeNumber (negative : Bool) (n : Nat) : Number :=
  if !negative then .integer n
  else if n = 0 || Nat.pow 2 63 < n then .double (-(UInt64.ofNat n).toFloat)
  else .integer (-n)

/-- The rest of a number whose first digits are gathered. -/
def readAfterDigits (negative : Bool) (significand : Nat) (text : List Char) :
    Except Fault (Number × List Char) :=
  let dropped := (text.takeWhile Char.isDigit).length
  match text.drop dropped with
  | '.' :: rest => readFraction negative significand dropped rest
  | rest =>
    if dropped = 0 && !(rest.head? == some 'e' || rest.head? == some 'E') then
      .ok (wholeNumber negative significand, rest)
    else readTail negative significand dropped rest

/-- The number at the head of a text, its sign already read. -/
def readNumber (negative : Bool) (text : List Char) : Except Fault (Number × List Char) :=
  match text with
  | [] => .error ⟨.endInValue, [], 0⟩
  | '0' :: rest =>
    if startsWithDigit rest then .error ⟨.invalidNumber, rest, 1⟩
    else readAfterDigits negative 0 rest
  | c :: _ =>
    if c.isDigit then
      let (s, rest) := gatherDigits significandLimit 0 text
      readAfterDigits negative s rest
    else .error ⟨.invalidNumber, text, 1⟩

end Json

end DualPackage

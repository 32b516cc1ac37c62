/-!
# Shortest decimals

Among the decimals that read back as a given double, the shortest is the
one with the fewest digits, and of those the nearest to the double. A
double is taken apart into `m · 2 ^ q`; the reals that round to it form an
interval around that value, whose ends belong to it iff `m` is even. For
one digit, two digits and so on, the two neighbours of the value on the
grid of that many digits are tested, all in exact arithmetic. Seventeen
digits always suffice.
-/

namespace DualPackage

namespace Decimal

/-- The decimal `digits · 10 ^ exponent`. -/
structure Scientific where
  digits : Nat
  exponent : Int
  deriving DecidableEq, Repr

/-- A fraction of naturals, used for the ends of an interval. -/
structure Fraction where
  num : Nat
  den : Nat

/-- The value `n · 2 ^ e` as a fraction. -/
def Fraction.dyadic (n : Nat) (e : Int) : Fraction where
  num := n * Nat.pow 2 e.toNat
  den := Nat.pow 2 (-e).toNat

/-- Compares `c · 10 ^ s` with a fraction. -/
def compareScaled (c : Nat) (s : Int) (x : Fraction) : Ordering :=
  compare (c * Nat.pow 10 s.toNat * x.den) (x.num * Nat.pow 10 (-s).toNat)

/-- The greatest `c` with `c · 10 ^ s ≤ x`. -/
def floorScaled (s : Int) (x : Fraction) : Nat :=
  (x.num * Nat.pow 10 (-s).toNat) / (x.den * Nat.pow 10 s.toNat)

/-- The positive double `m · 2 ^ q`, and whether the next lower one is only
half as far away as the next higher one. -/
structure Binary where
  m : Nat
  q : Int
  closeBelow : Bool

namespace Binary

variable (b : Binary)

/-- The double, in quarters of its last place. -/
def value : Fraction := .dyadic (4 * b.m) (b.q - 2)

/-- The lower end of the interval that rounds to the double. -/
def low : Fraction := .dyadic (4 * b.m - if b.closeBelow then 1 else 2) (b.q - 2)

/-- The upper end of the interval that rounds to the double. -/
def high : Fraction := .dyadic (4 * b.m + 2) (b.q - 2)

/-- Whether `c · 10 ^ s` reads back as the double. -/
def readsBack (c : Nat) (s : Int) : Bool :=
  match compareScaled c s b.low, compareScaled c s b.high with
  | .gt, .lt => true
  | .eq, .lt | .gt, .eq => b.m % 2 == 0
  | _, _ => false

/-- The power of ten just above the double: how many digits stand before
its point, less than zero if zeros follow the point. -/
def magnitude : Int :=
  ((Nat.toDigits 10 (floorScaled (-340) b.value)).length : Int) - 340

/-- The neighbour of the double on the grid of step `10 ^ s` that reads back
as it; of two the nearer, and of two equally near the even one. -/
def onGrid? (s : Int) : Option Nat :=
  let c := floorScaled s b.value
  match b.readsBack c s, b.readsBack (c + 1) s with
  | true, false => some c
  | false, true => some (c + 1)
  | false, false => none
  | true, true =>
    -- the double against the middle of the two, both doubled
    match compareScaled (2 * c + 1) s ⟨2 * b.value.num, b.value.den⟩ with
    | .gt => some c
    | .lt => some (c + 1)
    | .eq => some (if c % 2 = 0 then c else c + 1)

/-- The first hit on a grid of `digits` digits or more. -/
def search : Nat → Nat → Scientific
  | 0, digits => ⟨floorScaled (b.magnitude - digits) b.value, b.magnitude - digits⟩
  | more + 1, digits =>
    match b.onGrid? (b.magnitude - digits) with
    | some c => ⟨c, b.magnitude - digits⟩
    | none => search more (digits + 1)

end Binary

/-- Moves the zeros at the end of the digits into the exponent. -/
def Scientific.normalize : Nat → Scientific → Scientific
  | 0, d => d
  | more + 1, d =>
    if d.digits % 10 = 0 ∧ d.digits ≠ 0 then normalize more ⟨d.digits / 10, d.exponent + 1⟩ else d

/-- The parts of a positive finite double. -/
def Binary.ofFloat (x : Float) : Binary :=
  let bits : Nat := x.toBits.toNat
  let e : Nat := bits / Nat.pow 2 52 % Nat.pow 2 11
  let f : Nat := bits % Nat.pow 2 52
  if e = 0 then ⟨f, -1074, false⟩ else ⟨Nat.pow 2 52 + f, (e : Int) - 1075, f == 0 && 1 < e⟩

/-- The shortest decimal of a positive finite double. -/
def shortest (x : Float) : Scientific :=
  ((Binary.ofFloat x).search 17 1).normalize 18

end Decimal

end DualPackage

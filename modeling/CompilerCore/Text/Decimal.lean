import CompilerCore.Word.Double

/-!
# Decimal text of a double

`shortest` gives the fewest decimal digits that still denote a positive finite double: of all decimals
with that many digits in the interval of reals that round to the double, the one nearest to it, and of
two equally near ones the larger.  Everything is exact arithmetic on natural numbers: a double is
`m * 2 ^ q`, the ends of its interval belong to it exactly when `m` is even, and below a power of two
the gap to the next smaller double is half as wide.

`Style` collects the decisions of a printer on top of the digits, and `Decimal.plain` is the one
this library prints numbers with.
-/

namespace CompilerCore.Text

namespace Decimal

/-- A positive rational scaled by four, so that the ends of a rounding interval are integers too:
`low ≤ 4 * value ≤ high`, all over the same denominator. -/
structure Interval where
  low : Nat
  value : Nat
  high : Nat
  denominator : Nat
  closed : Bool
  deriving Repr

/-- The interval of reals that round to `m * 2 ^ (q - 1074)`. -/
def Interval.of (m q : Nat) : Interval :=
  let narrow := m = Word.hiddenBit ∧ 0 < q
  let scale := 1 <<< q
  { low := (4 * m - (if narrow then 1 else 2)) * scale
    value := 4 * m * scale
    high := (4 * m + 2) * scale
    denominator := 4 <<< 1074
    closed := m % 2 = 0 }

/-- The number of decimal digits of `n`; zero has one. -/
def digitCount (n : Nat) : Nat := (Nat.toDigits 10 n).length

/-- The `e` with `10 ^ e ≤ a / b < 10 ^ (e + 1)`, for positive `a` and `b`. -/
def magnitude (a b : Nat) : Int :=
  if b ≤ a then (digitCount (a / b) : Int) - 1
  else -(digitCount ((b + a - 1) / a - 1) : Int)

/-- The decimal `digits * 10 ^ exponent`. -/
structure Scaled where
  digits : Nat
  exponent : Int
  deriving DecidableEq, Repr

namespace Interval

/-- The decimal over the interval's denominator, as two numbers to compare: the
decimal itself, and the factor that brings the interval's own numbers to the same scale. -/
def common (i : Interval) (d : Scaled) : Nat × Nat :=
  if 0 ≤ d.exponent then (d.digits * Nat.pow 10 d.exponent.toNat * i.denominator, 1)
  else (d.digits * i.denominator, Nat.pow 10 (-d.exponent).toNat)

/-- Whether the decimal lies in the interval. -/
def contains (i : Interval) (d : Scaled) : Bool :=
  let (x, k) := i.common d
  if i.closed then i.low * k ≤ x && x ≤ i.high * k else i.low * k < x && x < i.high * k

/-- The distance of the decimal from the interval's value, in the scale of `common`. -/
def distance (i : Interval) (d : Scaled) : Nat :=
  let (x, k) := i.common d
  (x - i.value * k) + (i.value * k - x)

/-- The best decimal with `n` digits in the interval, if there is one: the nearer of the value's two
neighbours on that grid, and the upper one on a tie. -/
def bestOf (i : Interval) (n : Nat) : Option Scaled :=
  let exponent := magnitude i.value i.denominator - n + 1
  let floor :=
    if 0 ≤ exponent then i.value / (i.denominator * Nat.pow 10 exponent.toNat)
    else i.value * Nat.pow 10 (-exponent).toNat / i.denominator
  let below : Scaled := ⟨floor, exponent⟩
  let above : Scaled := ⟨floor + 1, exponent⟩
  match i.contains below, i.contains above with
  | true, true => if i.distance below < i.distance above then some below else some above
  | true, false => some below
  | false, true => some above
  | false, false => none

end Interval

/-- The first grid, from the coarsest on, that has a decimal in the interval. -/
def firstGrid (i : Interval) (n : Nat) : Nat → Option Scaled
  | 0 => none
  | more + 1 => i.bestOf n <|> firstGrid i (n + 1) more

/-- The fewest digits that denote the positive double `m * 2 ^ (q - 1074)`. -/
def shortest (m q : Nat) : Scaled :=
  (firstGrid (Interval.of m q) 1 17).getD ⟨0, 0⟩

/-- Digits without trailing zeros, and the exponent of the first of them. -/
def normalize (d : Scaled) : List Char × Int :=
  let all := Nat.toDigits 10 d.digits
  let kept := (all.reverse.dropWhile (· = '0')).reverse
  (kept, d.exponent + all.length - 1)

/-- The decisions of a number printer. -/
structure Style where
  /-- Values from here on, and below `positionalBelow`, are written without an exponent. -/
  positionalFrom : Float
  positionalBelow : Float
  nan : String
  infinity : String

/-- Positional between one ten-thousandth and ten quadrillion, with at least one digit after the point. -/
def plain : Style :=
  { positionalFrom := 1e-4, positionalBelow := 1e16, nan := "NaN", infinity := "inf" }

/-- Writes `digits`, the first one at power `exponent` of ten, without an exponent. -/
def positional (digits : List Char) (exponent : Int) : String :=
  if exponent < 0 then
    "0." ++ String.ofList (List.replicate (-exponent - 1).toNat '0' ++ digits)
  else
    let split := exponent.toNat + 1
    let whole := digits.take split ++ List.replicate (split - digits.length) '0'
    let fraction := digits.drop split
    String.ofList whole ++ "." ++ (if fraction.isEmpty then "0" else String.ofList fraction)

/-- Writes `digits`, the first one at power `exponent` of ten, with an exponent. -/
def scientific (digits : List Char) (exponent : Int) : String :=
  let fraction := digits.drop 1
  String.ofList (digits.take 1) ++
    (if fraction.isEmpty then "" else "." ++ String.ofList fraction) ++ "e" ++ toString exponent

end Decimal

/-- The text of `x`. -/
def number (x : Double) (style : Decimal.Style) : String :=
  let bits := x.bits.toNat
  let sign := if bits >>> Word.signBit = 1 then "-" else ""
  let biased := bits / Word.hiddenBit % 2048
  let fraction := bits % Word.hiddenBit
  if biased = 2047 then
    if fraction = 0 then sign ++ style.infinity else style.nan
  else if biased = 0 ∧ fraction = 0 then sign ++ "0.0"
  else
    let decimal :=
      if biased = 0 then Decimal.shortest fraction 0
      else Decimal.shortest (Word.hiddenBit + fraction) (biased - 1)
    let (digits, exponent) := Decimal.normalize decimal
    let size := x.value.abs
    let isPositional := style.positionalFrom ≤ size && size < style.positionalBelow
    sign ++ (if isPositional then Decimal.positional digits exponent
      else Decimal.scientific digits exponent)

end CompilerCore.Text

/-!
# Exact remainder of doubles

The remainder of a truncating division is always a double, so it is computed without rounding: both
numbers are brought to a common power of two, and the remainder of the two natural numbers is put
back together.  The result has the sign of the dividend.
-/

namespace CompilerCore.Word

def fractionBits : Nat := 52

def signBit : Nat := 63

/-- The leading bit of a significand, which a normal double does not store. -/
def hiddenBit : Nat := 1 <<< fractionBits

/-- A finite double as `(-1) ^ negative * significand * 2 ^ (exponent - 1074)`. -/
structure Parts where
  negative : Bool
  significand : Nat
  exponent : Nat
  deriving Repr

/-- Takes a finite double apart. -/
def Parts.of (x : Float) : Parts :=
  let bits := x.toBits.toNat
  let biased := bits / hiddenBit % 2048
  let fraction := bits % hiddenBit
  { negative := bits >>> signBit = 1
    significand := if biased = 0 then fraction else hiddenBit + fraction
    exponent := biased - 1 }

/-- Puts a double together, for a significand below `2 ^ 53`. -/
def Parts.toFloat (p : Parts) : Float :=
  let shift := min p.exponent (fractionBits - p.significand.log2)
  let significand := p.significand <<< shift
  let exponent := p.exponent - shift
  let magnitude :=
    if significand < hiddenBit then significand
    else (exponent + 1) * hiddenBit + (significand - hiddenBit)
  Float.ofBits (UInt64.ofNat ((if p.negative then 1 <<< signBit else 0) + magnitude))

/-- The remainder of `x` divided by `y`, truncating. -/
def remainder (x y : Float) : Float :=
  if x.isNaN || y.isNaN || x.isInf || y == 0.0 then 0.0 / 0.0
  else if y.isInf then x
  else
    let a := Parts.of x
    let b := Parts.of y
    let exponent := min a.exponent b.exponent
    let dividend := a.significand <<< (a.exponent - exponent)
    let divisor := b.significand <<< (b.exponent - exponent)
    Parts.toFloat ⟨a.negative, dividend % divisor, exponent⟩

end CompilerCore.Word

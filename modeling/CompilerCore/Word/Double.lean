import CompilerCore.Word.Remainder

/-!
# Doubles as bits

A floating-point number is kept as the 64 bits that stand for it.  Values that are *not a number* come
in many forms, and a program tells them apart when it reads the memory of one as an integer; so the
form has to survive.

* Moving a value changes no bit, and negation changes only the sign.
* Arithmetic hands on the first operand that is not a number, and a change of precision keeps the sign
  and the leading bits of its payload; both make it *quiet*, by setting the first bit of the fraction.
* Arithmetic on numbers that has no result gives `Double.invalid`.
-/

namespace CompilerCore

/-- A floating-point number of double precision, by its bits. -/
structure Double where
  bits : UInt64
  deriving DecidableEq, Repr

namespace Double

def magnitude (x : Double) : UInt64 := x.bits &&& 0x7fffffffffffffff

/-- Whether the exponent is the largest one and the fraction is not zero. -/
def isNaN (x : Double) : Bool := 0x7ff0000000000000 < x.magnitude

def isZero (x : Double) : Bool := x.magnitude == 0

/-- The value to calculate with.  All values that are not a number are one here. -/
def value (x : Double) : Float := Float.ofBits x.bits

/-- Sets the first bit of the fraction. -/
def quiet (x : Double) : Double := ⟨x.bits ||| 0x0008000000000000⟩

/-- What an operation on numbers gives when it has no result. -/
def invalid : Double := ⟨0xfff8000000000000⟩

/-- The bits of a calculated value. -/
def ofFloat (x : Float) : Double := if x.isNaN then invalid else ⟨x.toBits⟩

def zero : Double := ⟨0⟩

def one : Double := ⟨0x3ff0000000000000⟩

def ofInt64 (n : Int64) : Double := ofFloat n.toFloat

def ofUInt64 (n : UInt64) : Double := ofFloat n.toFloat

/-- Cuts off the fraction.  Values outside the range give its nearest end, and what is not a number
gives zero. -/
def toInt64 (x : Double) : Int64 := x.value.toInt64

/-- Cuts off the fraction, as `toInt64` does, in the unsigned range. -/
def toUInt64 (x : Double) : UInt64 := x.value.toUInt64

/-! ## Arithmetic -/

/-- An operation on numbers, extended to values that are not one. -/
@[specialize] def lift (op : Float → Float → Float) (x y : Double) : Double :=
  if x.isNaN then x.quiet
  else if y.isNaN then y.quiet
  else ofFloat (op x.value y.value)

def neg (x : Double) : Double := ⟨x.bits ^^^ 0x8000000000000000⟩

instance : Neg Double := ⟨neg⟩

instance : Add Double := ⟨lift (· + ·)⟩

instance : Sub Double := ⟨lift (· - ·)⟩

instance : Mul Double := ⟨lift (· * ·)⟩

instance : Div Double := ⟨lift (· / ·)⟩

/-- The remainder of a truncating division. -/
instance : Mod Double := ⟨lift Word.remainder⟩

@[simp] theorem neg_neg (x : Double) : neg (neg x) = x := by
  simp only [neg, UInt64.xor_assoc, UInt64.xor_self, UInt64.xor_zero]

/-! ## Single precision -/

/-- The bits of the value in single precision, rounded to the nearest. -/
def toSingle (x : Double) : UInt32 :=
  if x.isNaN then
    let sign : UInt32 := (x.bits >>> 32).toUInt32 &&& 0x80000000
    let payload : UInt32 := (x.bits >>> 29).toUInt32 &&& 0x007fffff
    sign ||| payload ||| 0x7fc00000
  else x.value.toFloat32.toBits

/-- The value of the bits of a number of single precision. -/
def ofSingle (bits : UInt32) : Double :=
  if 0x7f800000 < bits &&& 0x7fffffff then
    let sign : UInt64 := (bits &&& 0x80000000).toUInt64 <<< 32
    let payload : UInt64 := (bits &&& 0x007fffff).toUInt64 <<< 29
    ⟨sign ||| payload ||| 0x7ff8000000000000⟩
  else ofFloat (Float32.ofBits bits).toFloat

/-- The nearest number of single precision. -/
def roundSingle (x : Double) : Double := ofSingle x.toSingle

end Double

end CompilerCore

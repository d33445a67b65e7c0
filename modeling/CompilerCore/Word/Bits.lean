/-!
# Narrow values in 64-bit words

A register holds 64 bits.  A value of `width` bytes occupies the low bytes of a word; widths of zero
and of eight or more stand for the whole word.
-/

namespace CompilerCore.Word

/-- The bits that a value of `width` bytes occupies. -/
def mask (width : Nat) : UInt64 :=
  if width = 0 ∨ 8 ≤ width then 0xffffffffffffffff else (1 <<< UInt64.ofNat (8 * width)) - 1

/-- The low `width` bytes of `value`, read as a two's complement number. -/
def signExtend (value : UInt64) (width : Nat) : Int64 :=
  if width = 0 ∨ 8 ≤ width then value.toInt64
  else
    let shift := UInt64.ofNat (64 - 8 * width)
    (value <<< shift).toInt64 >>> shift.toInt64

/-- Replaces the low `width` bytes of `previous` by those of `result`. -/
def merge (previous result : UInt64) (width : Nat) : UInt64 :=
  (previous &&& ~~~ mask width) ||| (result &&& mask width)

end CompilerCore.Word

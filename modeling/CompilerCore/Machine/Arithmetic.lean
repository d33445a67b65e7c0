import CompilerCore.Machine.Fault
import CompilerCore.Word.Bits
import CompilerCore.Word.Double

/-!
# Arithmetic on registers

Operands narrower than a register are cut to their width, and sign extended when they are signed,
before an operation.  Only the low bytes of a result count: the machine merges them into the
destination, so that the bytes above the operand's width survive.
-/

namespace CompilerCore.Machine

open CompilerCore.Code CompilerCore.Word

/-- The 64-bit form of a value of the given type: sign extended when signed, else zero extended. -/
def extend (value : UInt64) (type : OperandType) : UInt64 :=
  match type.kind with
  | .signed => (signExtend value type.width).toUInt64
  | .unsigned | .float | .vector => value &&& mask type.width

/-- The number held in the low bytes of a register. -/
def toFloat (value : UInt64) (width : Nat) : Double :=
  if width = 4 then Double.ofSingle value.toUInt32 else ⟨value⟩

/-- The register contents of a number, rounded to single precision at width four. -/
def fromFloat (value : Double) (width : Nat) : UInt64 :=
  if width = 4 then value.toSingle.toUInt64 else value.bits

/-- Arithmetic on two's complement words.  Shift counts are taken modulo 64. -/
def signed (op : ArithOp) (a b : Int64) : Except Fault Int64 :=
  match op with
  | .add => .ok (a + b)
  | .sub => .ok (a - b)
  | .mul => .ok (a * b)
  | .div => if b = 0 then .error .divisionByZero else .ok (a / b)
  | .rem => if b = 0 then .error .divisionByZero else .ok (a % b)
  | .shl => .ok (a <<< (b &&& 63))
  | .shr => .ok (a >>> (b &&& 63))
  | .band => .ok (a &&& b)
  | .bor => .ok (a ||| b)
  | .bxor => .ok (a ^^^ b)

/-- Arithmetic on unsigned words.  Shift counts are taken modulo 64. -/
def unsigned (op : ArithOp) (a b : UInt64) : Except Fault UInt64 :=
  match op with
  | .add => .ok (a + b)
  | .sub => .ok (a - b)
  | .mul => .ok (a * b)
  | .div => if b = 0 then .error .divisionByZero else .ok (a / b)
  | .rem => if b = 0 then .error .divisionByZero else .ok (a % b)
  | .shl => .ok (a <<< (b &&& 63))
  | .shr => .ok (a >>> (b &&& 63))
  | .band => .ok (a &&& b)
  | .bor => .ok (a ||| b)
  | .bxor => .ok (a ^^^ b)

/-- Arithmetic on numbers; the operations on bits have none. -/
def floating? (op : ArithOp) (a b : Double) : Option Double :=
  match op with
  | .add => some (a + b)
  | .sub => some (a - b)
  | .mul => some (a * b)
  | .div => some (a / b)
  | .rem => some (a % b)
  | .shl | .shr | .band | .bor | .bxor => none

/-- An operation on two registers, performed in an operand type. -/
def binary (opcode : Opcode) (type : OperandType) (lhs rhs : UInt64) : Except Fault UInt64 :=
  match type.kind, opcode with
  | .vector, _ => .error (.unsupported .vectorOperands)
  | .signed, .arith op =>
    (signed op (signExtend lhs type.width) (signExtend rhs type.width)).map (·.toUInt64)
  | .unsigned, .arith op => unsigned op (lhs &&& mask type.width) (rhs &&& mask type.width)
  | .float, .arith op =>
    match floating? op (toFloat lhs type.width) (toFloat rhs type.width) with
    | some value => .ok (fromFloat value type.width)
    | none => .error (.malformed opcode)
  | _, _ => .error (.malformed opcode)

/-- An operation on one register, performed in an operand type. -/
def unary (opcode : Opcode) (type : OperandType) (operand : UInt64) : Except Fault UInt64 :=
  match type.kind, opcode with
  | .vector, _ => .error (.unsupported .vectorOperands)
  | .float, .negate => .ok (fromFloat (-toFloat operand type.width) type.width)
  | _, .negate => .ok (-operand)
  | .signed, .bitwiseNot | .unsigned, .bitwiseNot => .ok (~~~operand)
  | _, _ => .error (.malformed opcode)

def isZero (type : OperandType) (value : UInt64) : Bool :=
  match type.kind with
  | .float => (toFloat value type.width).isZero
  | .signed | .unsigned | .vector => value &&& mask type.width == 0

/-- Whether two registers stand in a relation when read in a type of numbers. -/
def related (relation : Relation) (type : OperandType) (lhs rhs : UInt64) : Bool :=
  match type.kind with
  | .signed => relation.test (signExtend lhs type.width) (signExtend rhs type.width)
  | .unsigned | .vector => relation.test (lhs &&& mask type.width) (rhs &&& mask type.width)
  | .float => relation.test (toFloat lhs type.width).value (toFloat rhs type.width).value

/-- Whether two registers have no order in a type: numbers of which one is not a number. -/
def unordered (type : OperandType) (lhs rhs : UInt64) : Bool :=
  match type.kind with
  | .float => (toFloat lhs type.width).isNaN || (toFloat rhs type.width).isNaN
  | .signed | .unsigned | .vector => false

/-- A comparison of two registers.  Unordered values differ and stand in no other relation. -/
def compare (opcode : Opcode) (type : OperandType) (lhs rhs : UInt64) : Except Fault Bool :=
  match type.kind, opcode with
  | .vector, _ => .error (.unsupported .vectorOperands)
  | _, .compare relation => .ok (related relation type lhs rhs)
  | _, _ => if unordered type lhs rhs then .ok false else .error (.malformed opcode)

/-- Converts a register from one operand type to the 64-bit form of another. -/
def convert (value : UInt64) (source target : OperandType) : Except Fault UInt64 :=
  let converted : Option UInt64 :=
    match source.kind, target.kind with
    | .vector, _ | _, .vector => none
    | .float, .float => some (fromFloat (toFloat value source.width) target.width)
    | .float, .signed => some (toFloat value source.width).toInt64.toUInt64
    | .float, .unsigned => some (toFloat value source.width).toUInt64
    | .signed, .float => some (fromFloat (Double.ofInt64 (signExtend value source.width)) target.width)
    | .unsigned, .float => some (fromFloat (Double.ofUInt64 (value &&& mask source.width)) target.width)
    | .signed, _ => some (signExtend value source.width).toUInt64
    | .unsigned, _ => some (value &&& mask source.width)
  match converted with
  | some word => .ok (extend word target)
  | none => .error (.unsupported .vectorOperands)

end CompilerCore.Machine

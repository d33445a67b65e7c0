import CompilerCore.Operator

/-!
# Opcodes and operand types

An instruction of the register code is performed in an *operand type*: a kind of number and a width
in bytes.  Width zero is the type of no value.
-/

namespace CompilerCore.Code

inductive Opcode where
  | nop
  | loadImmediate
  | move
  | arith (op : ArithOp)
  | negate
  | bitwiseNot
  | logicalNot
  | compare (relation : Relation)
  /-- Converts the source from its own operand type to that of the instruction. -/
  | convert
  /-- Reads from the address in the first source. -/
  | load
  /-- Writes the second source to the address in the first one. -/
  | store
  /-- The address of a register of the current window. -/
  | registerAddress
  /-- The address of one of the method's blocks. -/
  | blockAddress
  | staticAddress
  | functionAddress
  /-- Copies bytes from the address in the second source to the address in the first one. -/
  | blockCopy
  | jump
  | branchIfZero
  | branchIfNotZero
  | jumpIndirect
  | call
  | ret
  | abort
  | debugTrap
  | inlineAsm
  deriving DecidableEq, Repr

namespace Opcode

def all : List Opcode :=
  [nop, loadImmediate, move] ++ ArithOp.all.map arith ++ [negate, bitwiseNot, logicalNot] ++
    Relation.all.map compare ++
    [convert, load, store, registerAddress, blockAddress, staticAddress, functionAddress, blockCopy,
      jump, branchIfZero, branchIfNotZero, jumpIndirect, call, ret, abort, debugTrap, inlineAsm]

def arithName : ArithOp → String
  | .add => "add"
  | .sub => "subtract"
  | .mul => "multiply"
  | .div => "divide"
  | .rem => "modulus"
  | .shl => "shift_left"
  | .shr => "shift_right"
  | .band => "bitwise_and"
  | .bor => "bitwise_or"
  | .bxor => "bitwise_xor"

def relationName : Relation → String
  | .eq => "equal"
  | .ne => "not_equal"
  | .lt => "less_than"
  | .le => "less_than_or_equal"
  | .gt => "greater_than"
  | .ge => "greater_than_or_equal"

def name : Opcode → String
  | nop => "nop"
  | loadImmediate => "load_immediate"
  | move => "move"
  | arith op => arithName op
  | negate => "negate"
  | bitwiseNot => "bitwise_not"
  | logicalNot => "logical_not"
  | compare relation => relationName relation
  | convert => "convert"
  | load => "load"
  | store => "store"
  | registerAddress => "register_address"
  | blockAddress => "block_address"
  | staticAddress => "static_address"
  | functionAddress => "function_address"
  | blockCopy => "block_copy"
  | jump => "jump"
  | branchIfZero => "branch_if_zero"
  | branchIfNotZero => "branch_if_not_zero"
  | jumpIndirect => "jump_indirect"
  | call => "call"
  | ret => "return"
  | abort => "abort"
  | debugTrap => "debug_trap"
  | inlineAsm => "inline_asm"

def ofName? (text : String) : Option Opcode := all.find? (·.name == text)

/-- Whether the opcode transfers control to a fixed place of the method. -/
def isBranch : Opcode → Bool
  | jump | branchIfZero | branchIfNotZero => true
  | _ => false

def isComparison : Opcode → Bool
  | compare _ => true
  | _ => false

end Opcode

/-- How the bits of an operand are read. -/
inductive OperandKind where
  | signed
  | unsigned
  | float
  | vector
  deriving DecidableEq, Repr

def OperandKind.letter : OperandKind → String
  | signed => "i"
  | unsigned => "u"
  | float => "f"
  | vector => "v"

/-- A kind of number and its width in bytes. -/
structure OperandType where
  kind : OperandKind
  width : Nat
  deriving DecidableEq, Repr

namespace OperandType

def void : OperandType := ⟨.unsigned, 0⟩
def bool : OperandType := ⟨.unsigned, 1⟩
def address : OperandType := ⟨.unsigned, 8⟩
def i64 : OperandType := ⟨.signed, 8⟩

def isVoid (type : OperandType) : Bool := type.width == 0

def text (type : OperandType) : String :=
  if type.isVoid then "void" else type.kind.letter ++ toString (type.width * 8)

end OperandType

end CompilerCore.Code

import CompilerCore.Code.Opcode
import CompilerCore.Word.Double

/-!
# Instructions

An instruction names its registers, its immediates and, for calls and addresses, a symbol.  Branch
targets are offsets within the method.
-/

namespace CompilerCore.Code

/-- A constant inside an instruction. -/
inductive Immediate where
  | integer (value : Int64)
  | float (value : Double)
  /-- An instruction of the current method. -/
  | offset (index : Nat)
  deriving DecidableEq, Repr

/-- The integer that an immediate stands for; floats stand for none. -/
def Immediate.integer? : Immediate → Option Int64
  | integer value => some value
  | offset index => some (Int64.ofNat index)
  | float _ => none

/-- What a register is used for. -/
inductive StorageClass where
  /-- A declared local. -/
  | localVar
  /-- A declared local whose address is taken. -/
  | addressable
  /-- A temporary that is assigned once. -/
  | temporary
  | parameter
  | static
  deriving DecidableEq, Repr

namespace StorageClass

def name : StorageClass → String
  | localVar => "local"
  | addressable => "local_addressable"
  | temporary => "fast"
  | parameter => "parameter"
  | static => "static"

def letter : StorageClass → String
  | parameter => "p"
  | static => "s"
  | localVar | addressable | temporary => "r"

end StorageClass

structure Register where
  index : Nat
  storage : StorageClass
  deriving DecidableEq, Repr

def Register.text (r : Register) : String := r.storage.letter ++ toString r.index

structure Instruction where
  opcode : Opcode
  /-- The type the operation is performed in. -/
  type : OperandType
  destination : Option Register := none
  sources : List Register := []
  immediates : List Immediate := []
  sourceTypes : List OperandType := []
  /-- A method or static, or the text of an assembly template. -/
  symbol : Option String := none
  deriving DecidableEq, Repr

/-- The registers that an instruction names. -/
def Instruction.registers (i : Instruction) : List Register := i.destination.toList ++ i.sources

def Instruction.target? (i : Instruction) : Option Nat :=
  match i.immediates with
  | .offset index :: _ => if i.opcode.isBranch then some index else none
  | _ => none

end CompilerCore.Code

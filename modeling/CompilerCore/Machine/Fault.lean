import CompilerCore.Code.Opcode
import CompilerCore.Text.Quoted

/-!
# Faults

What can stop a running program, and the text that reports it.
-/

namespace CompilerCore.Machine

/-- What the machine has no support for. -/
inductive Feature where
  | vectorOperands
  | indirectJumps
  | inlineAssembly
  deriving DecidableEq, Repr

def Feature.plural : Feature → String
  | vectorOperands => "vector operands"
  | indirectJumps => "indirect jumps"
  | inlineAssembly => "inline assembly blocks"

/-- The causes that stop a run. -/
inductive Fault where
  /-- Below every region of the address space. -/
  | invalidAddress (address : UInt64)
  | codeAccess (address : UInt64)
  | codeOutOfRange (method : String) (offset : Nat)
  /-- In the stack region, past the active frame. -/
  | outOfFrame (address : UInt64)
  /-- Bytes that end past the last address, where the machine itself breaks off. -/
  | overrun (address : UInt64)
  | unmapped (address : UInt64)
  | divisionByZero
  | aborted
  | debugTrap
  | unsupported (feature : Feature)
  | unknownMethod (name : String)
  | unknownStatic (name : String)
  | argumentCount (method : String) (expected actual : Nat)
  | malformed (opcode : Code.Opcode)
  | stepLimit (limit : Nat)
  deriving DecidableEq, Repr

namespace Fault

def hexAddress (address : UInt64) : String := "0x" ++ Text.hex address.toNat

def message : Fault → String
  | invalidAddress a => "address " ++ hexAddress a ++ " is below the lowest valid address"
  | codeAccess a => "address " ++ hexAddress a ++ " points into code"
  | codeOutOfRange method offset =>
    "offset " ++ toString offset ++ " is past the end of `" ++ method ++ "`"
  | outOfFrame a => "stack address " ++ hexAddress a ++ " is beyond the current frame"
  | overrun a => "the bytes at stack address " ++ hexAddress a ++ " end past the last address"
  | unmapped a => "address " ++ hexAddress a ++ " is not mapped"
  | divisionByZero => "integer division by zero"
  | aborted => "program aborted"
  | debugTrap => "hit a debug trap"
  | unsupported feature => feature.plural ++ " are not supported by the interpreter"
  | unknownMethod name => "no method named `" ++ name ++ "`"
  | unknownStatic name => "no static named `" ++ name ++ "`"
  | argumentCount method expected actual =>
    "`" ++ method ++ "` takes " ++ toString expected ++ " argument(s) but " ++ toString actual ++
      " were given"
  | malformed opcode => "malformed `" ++ opcode.name ++ "` instruction"
  | stepLimit limit => "exceeded the limit of " ++ toString limit ++ " steps"

end Fault

end CompilerCore.Machine

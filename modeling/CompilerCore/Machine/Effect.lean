import CompilerCore.Code.Module
import CompilerCore.Machine.Arithmetic
import CompilerCore.Machine.Stack

/-!
# What an instruction does

The effect of an instruction is found by reading the machine alone; it is carried out afterwards.
So an instruction that faults changes nothing.
-/

namespace CompilerCore.Machine

open CompilerCore.Code

structure Frame where
  /-- The method, by its place in the module. -/
  method : Nat
  pc : Nat
  /-- Where the registers start. -/
  base : Nat
  /-- The end of the caller's frame. -/
  callerExtent : Nat
  /-- The register that waits for the result of a call. -/
  pending : Option Register
  deriving DecidableEq, Repr

/-- The place of a register. -/
def Frame.place (f : Frame) (r : Register) : Nat := f.base + r.index * 8

/-- The change that an instruction makes. -/
inductive Effect where
  | none
  | write (register : Register) (value : UInt64)
  | store (offset width : Nat) (value : UInt64)
  | copy (target source size : Nat)
  | jump (pc : Nat)
  | call (callee : Nat) (arguments : List UInt64) (result : Option Register)
  | leave (value : UInt64)
  deriving Repr

/-- The code address of a method's first instruction.  A method takes at least one address. -/
def methodAddress (m : Module) (index : Nat) : UInt64 :=
  codeBase + UInt64.ofNat ((m.methods.toList.take index).foldr (max 1 ·.instructions.size + ·) 0)

namespace Effect

/-- What an instruction is performed in. -/
structure Context where
  module : Module
  method : Method
  stack : Stack
  frame : Frame

variable (c : Context) (i : Instruction)

def Context.register (r : Register) : UInt64 := c.stack.slot (c.frame.place r)

/-- A part that the instruction must have. -/
def need {α : Type} : Option α → Except Fault α
  | some a => .ok a
  | Option.none => .error (.malformed i.opcode)

def source (index : Nat) : Except Fault UInt64 :=
  need i (i.sources[index]?.map c.register)

def destination : Except Fault Register := need i i.destination

/-- The first immediate, as an integer. -/
def integer : Except Fault Int64 := need i (i.immediates.head? >>= Immediate.integer?)

/-- How far from its address a load reads. -/
def shift : UInt64 := ((i.immediates.head? >>= Immediate.integer?).getD 0).toUInt64

def symbol : Except Fault String := need i i.symbol

/-- An immediate of a type of numbers, converted to it. -/
def floatImmediate? : Option UInt64 :=
  match i.immediates.head? with
  | some (.float value) => some (fromFloat value i.type.width)
  | some (.integer value) =>
    if i.type.kind = .float then some (fromFloat (Double.ofInt64 value) i.type.width) else Option.none
  | some (.offset _) | Option.none => Option.none

/-- The right operand: a second source register, or else the first immediate. -/
def operand : Except Fault UInt64 :=
  if 1 < i.sources.length then source c i 1
  else
    match floatImmediate? i with
    | some value => .ok value
    | Option.none => (integer i).map (·.toUInt64)

/-- Writes a value to the destination. -/
def toDestination (value : UInt64) : Except Fault Effect := do
  return write (← destination i) value

/-- Writes the low bytes of a value to the destination and keeps its other bytes. -/
def mergeDestination (value : UInt64) : Except Fault Effect := do
  let register ← destination i
  return write register (Word.merge (c.register register) value i.type.width)

/-- The instruction that the first immediate names. -/
def target : Except Fault Nat :=
  match i.immediates.head? with
  | some (.offset index) => .ok index
  | _ => (integer i).map (·.toUInt64.toNat)

/-- Goes to the target of a branch. -/
def branch : Except Fault Effect := do return jump (← target i)

/-- The effect of an instruction, or the fault that it raises. -/
def of : Except Fault Effect :=
  match i.opcode with
  | .nop => .ok none
  | .loadImmediate => do
    let value ← match floatImmediate? i with
      | some value => pure value
      | Option.none => do pure (extend (← integer i).toUInt64 i.type)
    toDestination i value
  | .move => do toDestination i (← source c i 0)
  | .arith op => do
    let lhs ← source c i 0
    let rhs ← operand c i
    mergeDestination c i (← binary (.arith op) i.type lhs rhs)
  | .negate => do mergeDestination c i (← unary .negate i.type (← source c i 0))
  | .bitwiseNot => do mergeDestination c i (← unary .bitwiseNot i.type (← source c i 0))
  | .logicalNot => do toDestination i (isZero i.type (← source c i 0)).toUInt64
  | .compare relation => do
    let lhs ← source c i 0
    let rhs ← operand c i
    toDestination i (← compare (.compare relation) i.type lhs rhs).toUInt64
  | .convert => do
    let type ← need i i.sourceTypes.head?
    let value ← source c i 0
    toDestination i (← convert value type i.type)
  | .load => do
    let value ← c.stack.read ((← source c i 0) + shift i) i.type.width
    toDestination i (extend value i.type)
  | .store => do
    let address ← source c i 0
    let value ← source c i 1
    let offset ← c.stack.span address i.type.width
    return store offset i.type.width value
  | .registerAddress => do
    let index := (← integer i).toUInt64.toNat
    toDestination i (Stack.addressOf (c.frame.base + index * 8))
  | .blockAddress => do
    let block ← need i c.method.blocks[(← integer i).toUInt64.toNat]?
    toDestination i
      (Stack.addressOf (c.frame.base + c.method.registerCount * 8 + block.offset.toNat))
  | .staticAddress => do
    let name ← symbol i
    match c.module.static? name with
    | some slot => toDestination i (stackBase + slot.offset)
    | Option.none => .error (.unknownStatic name)
  | .functionAddress => do
    let name ← symbol i
    match c.module.methodIndex? name with
    | some index => toDestination i (methodAddress c.module index)
    | Option.none => .error (.unknownMethod name)
  | .blockCopy => do
    let target ← source c i 0
    let origin ← source c i 1
    let size := (← integer i).toUInt64.toNat
    let (place, start) ← c.stack.spans target origin size
    return copy place start size
  | .jump => branch i
  | .branchIfZero => do
    if isZero i.type (← source c i 0) then branch i else return none
  | .branchIfNotZero => do
    if isZero i.type (← source c i 0) then return none else branch i
  | .jumpIndirect => .error (.unsupported .indirectJumps)
  | .call => do
    let name ← symbol i
    match c.module.methodIndex? name with
    | Option.none => .error (.unknownMethod name)
    | some callee =>
      let expected := (c.module.methods[callee]?.map (·.parameters.length)).getD 0
      let arguments := i.sources.map c.register
      if arguments.length = expected then return call callee arguments i.destination
      else .error (.argumentCount name expected arguments.length)
  | .ret => .ok (leave ((i.sources.head?.map c.register).getD 0))
  | .abort => .error .aborted
  | .debugTrap => .error .debugTrap
  | .inlineAsm => .error (.unsupported .inlineAssembly)

end Effect

end CompilerCore.Machine

import CompilerCore.Code.Instruction

/-!
# Methods and modules

A method owns a window of registers of eight bytes and, after them, blocks of memory for its
aggregates.  A module is a list of methods and of statics; statics lie one after the other at the
bottom of the machine's stack.
-/

namespace CompilerCore.Code

/-- A label at the end of every method. -/
def leaveLabel : String := "$leave"

/-- The method that fills the statics before an entry point runs. -/
def staticInitializer : String := "$static_init"

structure NamedRegister where
  name : String
  register : Register
  deriving DecidableEq, Repr

/-- Memory that every frame of a method reserves. -/
structure Block where
  size : UInt64
  /-- The distance from the end of the register window. -/
  offset : UInt64
  deriving DecidableEq, Repr

/-- Labels and the instructions they stand at. -/
abbrev Labels := List (String × Nat)

namespace Labels

/-- Records a label, in place of an earlier one of the same name. -/
def insert (labels : Labels) (name : String) (index : Nat) : Labels :=
  (name, index) :: labels.filter (·.1 ≠ name)

def find? (labels : Labels) (name : String) : Option Nat := labels.lookup name

/-- The names of the labels at an instruction, in alphabetical order. -/
def namesAt (labels : Labels) (index : Nat) : List String :=
  ((labels.filter (·.2 == index)).map (·.1)).mergeSort (· ≤ ·)

end Labels

structure Method where
  name : String
  /-- One type for each parameter, in register order; an address for an aggregate result comes last. -/
  parameters : List OperandType
  locals : List NamedRegister := []
  blocks : List Block := []
  instructions : Array Instruction
  labels : Labels := []
  registerCount : Nat
  returnType : OperandType
  returnsAggregate : Bool := false
  deriving Repr

namespace Method

def blockBytes (m : Method) : UInt64 :=
  match m.blocks.getLast? with
  | some last => last.offset + last.size
  | none => 0

/-- The bytes that a frame takes: registers, then blocks. -/
def frameBytes (m : Method) : Nat := m.registerCount * 8 + m.blockBytes.toNat

/-- The memory that a frame is given: their number as a word, which starts again at zero past the last
one. -/
def frameSize (m : Method) : UInt64 := .ofNat m.frameBytes

end Method

/-- A variable that lives as long as the program. -/
structure Static where
  name : String
  offset : UInt64
  size : UInt64
  /-- What the memory holds at the start; the rest is zero. -/
  data : List UInt8 := []
  deriving DecidableEq, Repr

structure Module where
  name : String := ""
  methods : Array Method := #[]
  statics : List Static := []
  deriving Repr

namespace Module

def methodIndex? (m : Module) (name : String) : Option Nat :=
  m.methods.findIdx? (·.name == name)

def static? (m : Module) (name : String) : Option Static :=
  m.statics.find? (·.name == name)

/-- The memory that the statics take. -/
def staticSize (m : Module) : UInt64 :=
  match m.statics.getLast? with
  | some last => last.offset + last.size
  | none => 0

end Module

end CompilerCore.Code

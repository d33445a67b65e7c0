import CompilerCore.Code.Module
import CompilerCore.Code.Representation
import CompilerCore.Tree.Program
import CompilerCore.Types.Layout

/-!
# Methods under construction

Scalars live in registers and aggregates in blocks.  Branches name labels until the method is
finished; then the labels are replaced by offsets.
-/

namespace CompilerCore.Code

/-- Parts of the source language that must have been replaced before code is made. -/
inductive Construct where
  | whileLoop
  | doLoop
  | forLoop
  | breakLoop
  | continueLoop
  | switch
  | caseLabel
  | defaultLabel
  | assertion
  | update
  | sizeOf
  | qualified
  deriving DecidableEq, Repr

def Construct.name : Construct → String
  | whileLoop => "while"
  | doLoop => "do-while"
  | forLoop => "for"
  | breakLoop => "break"
  | continueLoop => "continue"
  | switch => "switch"
  | caseLabel => "case"
  | defaultLabel => "default"
  | assertion => "assert"
  | update => "compound assignment"
  | sizeOf => "sizeof"
  | qualified => "scope resolution"

inductive CompileError where
  | unlowered (construct : Construct)
  | undefinedLabel (method label : String)
  | duplicateLabel (method label : String)
  | untyped
  | unresolved (name : String)
  | unknownMember (name : String)
  | voidValue
  deriving DecidableEq, Repr

def CompileError.message : CompileError → String
  | unlowered construct => "`" ++ construct.name ++ "` must be lowered before IR compilation"
  | undefinedLabel method label =>
    "label `" ++ label ++ "` is used in `" ++ method ++ "` but never defined"
  | duplicateLabel method label =>
    "label `" ++ label ++ "` is defined more than once in `" ++ method ++ "`"
  | untyped => "an expression reached IR compilation without a type"
  | unresolved name => "`" ++ name ++ "` was never resolved to a declaration"
  | unknownMember name => "no member named `" ++ name ++ "`"
  | voidValue => "a `void` expression was used as a value"

/-! ## Statics -/

/-- The least multiple of eight that is not below `n`. -/
def nextMultipleOf8 (n : UInt64) : UInt64 := (n + 7) / 8 * 8

structure StaticLayout where
  slots : List Static := []
  /-- The names of the module's variables. -/
  symbols : List (SymbolId × String) := []
  /-- Texts with the names of the statics that hold them. -/
  texts : List (String × String) := []
  deriving Repr

namespace StaticLayout

/-- Adds a static after all others. -/
def allocate (s : StaticLayout) (name : String) (size : UInt64) (data : List UInt8) :
    StaticLayout :=
  let stop :=
    match s.slots.getLast? with
    | some last => last.offset + last.size
    | none => 0
  { s with slots := s.slots ++ [{ name, offset := nextMultipleOf8 stop, size, data }] }

/-- The static that holds a text and a zero after it. -/
def text (s : StaticLayout) (value : String) : String × StaticLayout :=
  match s.texts.lookup value with
  | some name => (name, s)
  | none =>
    let name := "$str" ++ toString s.texts.length
    let data := value.toUTF8.data.toList ++ [0]
    let s := s.allocate name (UInt64.ofNat data.length) data
    (name, { s with texts := s.texts ++ [(value, name)] })

end StaticLayout

/-! ## The method so far -/

/-- Where a symbol lives. -/
inductive Storage where
  | register (register : Register)
  | block (index : Nat)
  /-- The register holds the address: of a reference parameter or an aggregate. -/
  | indirect (register : Register)
  | static (name : String)
  deriving DecidableEq, Repr

structure Draft where
  name : String
  statics : StaticLayout
  instructions : Array Instruction := #[]
  labels : Labels := []
  /-- Branches with the labels they go to, the last one first. -/
  pendingBranches : List (Nat × String) := []
  nextLabel : Nat := 0
  storage : List (SymbolId × Storage) := []
  addressTaken : List SymbolId := []
  registerCount : Nat := 0
  parameters : List OperandType := []
  locals : List NamedRegister := []
  blocks : List Block := []
  returnType : OperandType := OperandType.void
  returnRegister : Option Register := none
  returnSize : UInt64 := 0
  returnsAggregate : Bool := false

abbrev Gen := StateT Draft (Except CompileError)

structure Env where
  scopes : ScopeTree
  types : TypeTable

def Env.operand (c : Env) (type : TypeId) : OperandType := OperandType.of c.types type

namespace Gen

def emit (i : Instruction) : Gen Unit :=
  modify fun d => { d with instructions := d.instructions.push i }

def register (storage : StorageClass) : Gen Register :=
  modifyGet fun d =>
    (⟨d.registerCount, storage⟩, { d with registerCount := d.registerCount + 1 })

def temporary : Gen Register := register .temporary

/-- A register that holds the result of an instruction. -/
def resultOf (make : Register → Instruction) : Gen Register := do
  let destination ← temporary
  emit (make destination)
  return destination

/-- Reserves memory in the frame. -/
def allocateBlock (c : Env) (size : UInt64) : Gen Nat :=
  modifyGet fun d =>
    let stop :=
      match d.blocks.getLast? with
      | some last => last.offset + last.size
      | none => 0
    (d.blocks.length, { d with blocks := d.blocks ++ [⟨size, c.types.alignUp stop⟩] })

def blockAddress (index : Nat) : Gen Register :=
  resultOf fun destination =>
    { opcode := .blockAddress, type := .address, destination := some destination
      immediates := [.integer (Int64.ofNat index)] }

def staticAddress (name : String) : Gen Register :=
  resultOf fun destination =>
    { opcode := .staticAddress, type := .address, destination := some destination
      symbol := some name }

/-! ## Labels -/

def newLabel : Gen String :=
  modifyGet fun d => ("$L" ++ toString d.nextLabel, { d with nextLabel := d.nextLabel + 1 })

/-- Puts a label at the next instruction. -/
def defineLabel (name : String) : Gen Unit := do
  let d ← get
  match d.labels.find? name with
  | some _ => throw (.duplicateLabel d.name name)
  | none => modify fun d => { d with labels := d.labels.insert name d.instructions.size }

/-- A branch to a label.  A condition is tested in an operand type. -/
def branch (opcode : Opcode) (condition : Option Register) (type : OperandType) (label : String) :
    Gen Unit := do
  modify fun d => { d with pendingBranches := (d.instructions.size, label) :: d.pendingBranches }
  emit { opcode, type, sources := condition.toList, immediates := [.offset 0] }

def jump (label : String) : Gen Unit := branch .jump none .void label

/-! ## Moves and memory -/

/-- Copies a register into another one.  If the last instruction made the source as a temporary, it
makes the destination instead, unless a label stands behind it. -/
def moveInto (destination source : Register) (type : OperandType) : Gen Unit := do
  if source = destination then return ()
  else
    let d ← get
    let atLabel := d.labels.any (·.2 == d.instructions.size)
    let isLast := (d.instructions.back?.map (·.destination)) == some (some source)
    if source.storage = .temporary ∧ !atLabel ∧ isLast then
      modify fun d =>
        { d with
          instructions := d.instructions.modify (d.instructions.size - 1) fun i =>
            { i with destination := some destination } }
    else
      emit { opcode := .move, type, destination := some destination, sources := [source] }

/-- An address moved by a number of bytes. -/
def offsetAddress (base : Register) (offset : Int64) : Gen Register := do
  if offset = 0 then return base
  else
    resultOf fun destination =>
      { opcode := .arith .add, type := .address, destination := some destination, sources := [base]
        immediates := [.integer offset] }

def copyBlock (destination source : Register) (size : UInt64) : Gen Unit :=
  emit { opcode := .blockCopy, type := .address, sources := [destination, source]
         immediates := [.integer size.toInt64] }

/-- Copies an aggregate into a block of its own. -/
def copyToBlock (c : Env) (source : Register) (type : TypeId) : Gen Register := do
  let size := c.types.size type
  let address ← blockAddress (← allocateBlock c size)
  copyBlock address source size
  return address

/-- Whether an expression is asked for its value or its address. -/
inductive Access where
  | value
  | pointer
  deriving DecidableEq, Repr

/-- What an address leads to, or the address itself when that is asked for or the type is an
aggregate. -/
def loadOrAddress (c : Env) (address : Register) (type : TypeId) (access : Access) :
    Gen Register := do
  if access = .pointer ∨ c.types.isAggregate type then return address
  else
    resultOf fun destination =>
      { opcode := .load, type := c.operand type, destination := some destination
        sources := [address] }

/-- What can be assigned to. -/
inductive Place where
  | register (register : Register)
  | memory (address : Register)
  deriving DecidableEq, Repr

def read (c : Env) (place : Place) (type : TypeId) : Gen Register :=
  match place with
  | .register register => return register
  | .memory address => loadOrAddress c address type .value

/-- Stores a value.  The result is the register that holds it afterwards. -/
def write (c : Env) (place : Place) (type : TypeId) (value : Register) : Gen Register := do
  match place with
  | .register register =>
    moveInto register value (c.operand type)
    return register
  | .memory address =>
    if c.types.isAggregate type then
      copyBlock address value (c.types.size type)
      return address
    else
      emit { opcode := .store, type := c.operand type, sources := [address, value] }
      return value

/-! ## Symbols -/

def storage? (symbol : SymbolId) : Gen (Option Storage) := do
  let d ← get
  return d.storage.lookup symbol <|> (d.statics.symbols.lookup symbol).map .static

def storageOf (c : Env) (symbol : SymbolId) : Gen Storage := do
  match ← storage? symbol with
  | some storage => return storage
  | none => throw (.unresolved (c.scopes.symbol symbol).name)

def setStorage (symbol : SymbolId) (storage : Storage) : Gen Unit :=
  modify fun d => { d with storage := (symbol, storage) :: d.storage }

/-- Gives a symbol a place, unless it has one. -/
def declare (c : Env) (symbol : SymbolId) (type : TypeId) : Gen Storage := do
  match ← storage? symbol with
  | some storage => return storage
  | none =>
    if c.types.isAggregate type then
      let storage := Storage.block (← allocateBlock c (c.types.size type))
      setStorage symbol storage
      return storage
    else
      let isAddressable := (← get).addressTaken.contains symbol
      let register ← register (if isAddressable then .addressable else .localVar)
      modify fun d =>
        { d with locals := d.locals ++ [⟨(c.scopes.symbol symbol).name, register⟩] }
      setStorage symbol (.register register)
      return .register register

/-! ## Finishing -/

def resolveBranches (method : String) (labels : Labels) :
    List (Nat × String) → Array Instruction → Except CompileError (Array Instruction)
  | [], instructions => .ok instructions
  | (index, label) :: rest, instructions =>
    match labels.find? label with
    | none => .error (.undefinedLabel method label)
    | some offset =>
      resolveBranches method labels rest (instructions.modify index fun i =>
        { i with immediates := .offset offset :: i.immediates.tail })

def toMethod (d : Draft) : Except CompileError Method := do
  let instructions ← resolveBranches d.name d.labels d.pendingBranches.reverse d.instructions
  return {
    name := d.name
    parameters := d.parameters
    locals := d.locals
    blocks := d.blocks
    instructions
    labels := d.labels
    registerCount := d.registerCount
    returnType := d.returnType
    returnsAggregate := d.returnsAggregate }

end Gen

end CompilerCore.Code

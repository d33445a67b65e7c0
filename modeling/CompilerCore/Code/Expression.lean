import CompilerCore.Code.Draft
import CompilerCore.Lowering.ControlFlow

/-!
# Code for expressions

An expression becomes code that leaves its value in a register, or its address when that is asked
for or it is an aggregate.  The rules for single nodes take the code of the parts as steps that they
place where it belongs.
-/

namespace CompilerCore.Code.Gen

/-- The function that stops a program for inspection. -/
def debugTrapName : String := "debug_trap"

def typeOf (e : Expr) : Gen TypeId :=
  match e.type? with
  | some type => return type
  | none => throw .untyped

/-- The register of an expression that must have a value. -/
def need (result : Gen (Option Register)) : Gen Register := do
  match ← result with
  | some register => return register
  | none => throw .voidValue

/-! ## Leaves -/

/-- The immediate of a literal that is no text. -/
def literalImmediate (operand : OperandType) : Literal → Immediate
  | .float value => .float value
  | .integer value => if operand.kind = .float then .float (Double.ofInt64 value) else .integer value
  | .bool value => .integer (if value then 1 else 0)
  | .text _ | .null => .integer 0

def literal (c : Env) (value : Literal) (type : TypeId) : Gen Register := do
  match value with
  | .text text =>
    let name ← modifyGet fun d =>
      let (name, statics) := d.statics.text text
      (name, { d with statics })
    staticAddress name
  | _ =>
    let operand := c.operand type
    resultOf fun destination =>
      { opcode := .loadImmediate, type := operand, destination := some destination
        immediates := [literalImmediate operand value] }

/-- The value or address of a symbol. -/
def name (c : Env) (symbol : SymbolId) (type : TypeId) (access : Access) : Gen Register := do
  let declaration := c.scopes.symbol symbol
  if declaration.kind = .function then
    resultOf fun destination =>
      { opcode := .functionAddress, type := .address, destination := some destination
        symbol := some declaration.name }
  else
    match ← storageOf c symbol with
    | .register register =>
      match access with
      | .value => return register
      | .pointer =>
        resultOf fun destination =>
          { opcode := .registerAddress, type := .address, destination := some destination
            immediates := [.integer (Int64.ofNat register.index)] }
    | .block index => blockAddress index
    | .indirect address => loadOrAddress c address type access
    | .static name => loadOrAddress c (← staticAddress name) type access

/-- The place of an assignable expression, given the code for its address. -/
def place (target : Expr) (address : Gen Register) : Gen Place := do
  let inRegister ← match target with
    | .name _ _ (some symbol) => do pure ((← get).storage.lookup symbol)
    | _ => pure none
  match inRegister with
  | some (.register register) => return .register register
  | _ => return .memory (← address)

/-! ## Pointers and indices -/

/-- An index as a signed 64-bit number. -/
def index (c : Env) (e : Expr) (value : Gen Register) : Gen Register := do
  let type := c.operand (← typeOf e)
  let value ← value
  if type = .i64 then return value
  else
    resultOf fun destination =>
      { opcode := .convert, type := .i64, destination := some destination, sources := [value]
        sourceTypes := [type] }

/-- An index multiplied by the size of an element. -/
def scale (index : Register) (size : UInt64) : Gen Register := do
  if size = 1 then return index
  else
    resultOf fun destination =>
      { opcode := .arith .mul, type := .i64, destination := some destination, sources := [index]
        immediates := [.integer size.toInt64] }

/-- How far a pointer moves for each unit of an offset. -/
def pointerStride (c : Env) (pointer : TypeId) : UInt64 :=
  match c.types.pointee? pointer with
  | some pointee => max (c.types.size pointee) 1
  | none => 1

/-- A pointer plus or minus an offset. -/
def pointerOffset (c : Env) (op : ArithOp) (pointerType : TypeId) (pointer index : Gen Register) :
    Gen Register := do
  let base ← pointer
  let scaled ← scale (← index) (pointerStride c pointerType)
  resultOf fun destination =>
    { opcode := .arith (if op = .sub then .sub else .add), type := .address
      destination := some destination, sources := [base, scaled] }

def pointerDifference (c : Env) (type : TypeId) (lhs rhs : Gen Register) : Gen Register := do
  let size :=
    match c.types.pointee? type with
    | some pointee => c.types.size pointee
    | none => 1
  let lhs ← lhs
  let rhs ← rhs
  let difference ← resultOf fun destination =>
    { opcode := .arith .sub, type := .i64, destination := some destination, sources := [lhs, rhs] }
  if size ≤ 1 then return difference
  else
    resultOf fun destination =>
      { opcode := .arith .div, type := .i64, destination := some destination
        sources := [difference], immediates := [.integer size.toInt64] }

/-- An element of an array or behind a pointer. -/
def element (c : Env) (e : Expr) (type : TypeId) (base value : Gen Register) : Gen Register := do
  let size := c.types.size type
  let base ← base
  match e.integer? with
  | some constant => offsetAddress base (constant * size.toInt64)
  | none =>
    let scaled ← scale (← index c e value) size
    resultOf fun destination =>
      { opcode := .arith .add, type := .address, destination := some destination
        sources := [base, scaled] }

/-! ## Operators -/

def opcodeOf : BinaryOp → Opcode
  | .arith op => .arith op
  | .compare relation => .compare relation
  | .and | .or => .nop

/-- An operation on two values; a constant on the right becomes an immediate. -/
def operation (c : Env) (op : BinaryOp) (rhs : Expr) (lhsType rhsType type : TypeId)
    (lhsCode rhsCode : Gen Register) : Gen Register := do
  let operandType :=
    match op with
    | .compare _ => c.operand lhsType
    | .arith _ | .and | .or => c.operand type
  let sourceTypes :=
    match op with
    | .arith op => if op.group = .shift then [c.operand rhsType] else []
    | .compare _ | .and | .or => []
  let left ← lhsCode
  let destination ← temporary
  let i : Instruction :=
    { opcode := opcodeOf op, type := operandType, destination := some destination
      sources := [left], sourceTypes }
  match rhs.integer?.filter fun _ => !c.types.isFloat rhsType with
  | some constant => emit { i with immediates := [.integer constant] }
  | none =>
    let right ← rhsCode
    emit { i with sources := [left, right] }
  return destination

/-- A connective: the right operand is evaluated only if the left one does not decide. -/
def shortCircuit (isAnd : Bool) (lhs rhs : Gen Register) : Gen Register := do
  let destination ← register .localVar
  let done ← newLabel
  moveInto destination (← lhs) .bool
  branch (if isAnd then .branchIfZero else .branchIfNotZero) (some destination) .bool done
  moveInto destination (← rhs) .bool
  defineLabel done
  return destination

def binary (c : Env) (op : BinaryOp) (lhs rhs : Expr) (type : TypeId)
    (lhsCode rhsCode : Gen Register) : Gen Register := do
  match op with
  | .and => shortCircuit true lhsCode rhsCode
  | .or => shortCircuit false lhsCode rhsCode
  | .compare _ =>
    operation c op rhs (← typeOf lhs) (← typeOf rhs) type lhsCode rhsCode
  | .arith arith =>
    let lhsType ← typeOf lhs
    let rhsType ← typeOf rhs
    match c.types.isPointer lhsType, c.types.isPointer rhsType with
    | true, false =>
      if arith = .add ∨ arith = .sub then
        pointerOffset c arith lhsType lhsCode (index c rhs rhsCode)
      else operation c op rhs lhsType rhsType type lhsCode rhsCode
    | false, true =>
      if arith = .add then pointerOffset c arith rhsType rhsCode (index c lhs lhsCode)
      else operation c op rhs lhsType rhsType type lhsCode rhsCode
    | true, true =>
      if arith = .sub then pointerDifference c lhsType lhsCode rhsCode
      else operation c op rhs lhsType rhsType type lhsCode rhsCode
    | false, false => operation c op rhs lhsType rhsType type lhsCode rhsCode

/-- One of the two expressions of a conditional; its value goes where both belong. -/
def arm (operand : OperandType) (destination : Option Register) (code : Gen (Option Register)) :
    Gen Unit := do
  match destination, ← code with
  | some destination, some value => moveInto destination value operand
  | _, _ => return ()

def conditional (c : Env) (condition : Expr) (type : TypeId) (conditionCode : Gen Register)
    (yes no : Gen (Option Register)) : Gen (Option Register) := do
  let operand := c.operand type
  let destination ← if operand.isVoid then pure none else some <$> register .localVar
  let otherwise ← newLabel
  let done ← newLabel
  let conditionType := c.operand (← typeOf condition)
  branch .branchIfZero (some (← conditionCode)) conditionType otherwise
  arm operand destination yes
  jump done
  defineLabel otherwise
  arm operand destination no
  defineLabel done
  return destination

def unaryOperation (opcode : Opcode) (type : OperandType) (code : Gen Register) :
    Gen Register := do
  let value ← code
  resultOf fun destination =>
    { opcode, type, destination := some destination, sources := [value] }

/-- Adds or subtracts one: an element for a pointer. -/
def step (c : Env) (isPost isDecrement : Bool) (type : TypeId) (target : Gen Place) :
    Gen Register := do
  let operand := c.operand type
  let opcode : Opcode := .arith (if isDecrement then .sub else .add)
  let place ← target
  let current ← read c place type
  let previous ← if isPost then
      some <$> resultOf fun destination =>
        { opcode := .move, type := operand, destination := some destination, sources := [current] }
    else pure none
  let updated ← temporary
  if operand.kind = .float then
    let one ← resultOf fun destination =>
      { opcode := .loadImmediate, type := operand, destination := some destination
        immediates := [.float Double.one] }
    emit { opcode, type := operand, destination := some updated, sources := [current, one] }
  else
    emit { opcode, type := operand, destination := some updated, sources := [current]
           immediates := [.integer (pointerStride c type).toInt64] }
  let stored ← write c place type updated
  return previous.getD stored

/-! ## Casts, declarations and calls -/

/-- A value converted to another type.  Whatever is not zero is true. -/
def cast (c : Env) (source target : TypeId) (code : Gen (Option Register)) :
    Gen (Option Register) := do
  let result ← code
  if c.types.isVoid target then return none
  else
    let value ← need (pure result)
    let sourceOperand := c.operand source
    let targetOperand := c.operand target
    if c.types.isBool target && !c.types.isBool source then
      some <$> resultOf fun destination =>
        { opcode := .compare .ne, type := sourceOperand, destination := some destination
          sources := [value], immediates := [.integer 0] }
    else if sourceOperand = targetOperand then return some value
    else
      some <$> resultOf fun destination =>
        { opcode := .convert, type := targetOperand, destination := some destination
          sources := [value], sourceTypes := [sourceOperand] }

/-- The place of a declared variable, with its type. -/
def declaredPlace (c : Env) (symbol : SymbolId) : Gen (Place × TypeId) := do
  match (c.scopes.symbol symbol).type with
  | none => throw .untyped
  | some type =>
    match ← declare c symbol type with
    | .register register => return (.register register, type)
    | .block index => return (.memory (← blockAddress index), type)
    | .indirect register => return (.memory register, type)
    | .static name => return (.memory (← staticAddress name), type)

/-- The result and parameters of a called function, with its name. -/
def calledFunction (c : Env) (callee : String) (symbol : SymbolId) :
    Gen (String × TypeId × List ParameterType) := do
  let declaration := c.scopes.symbol symbol
  match declaration.type with
  | none => throw .untyped
  | some type =>
    match c.types.shape type with
    | .function result parameters _ => return (declaration.name, result, parameters)
    | _ => throw (.unresolved callee)

/-- A call of a function that the machine itself performs. -/
def intrinsicCall (callee : String) : Gen (Option Register) := do
  if callee = ControlFlow.abortName then emit { opcode := .abort, type := .void }
  else if callee = debugTrapName then emit { opcode := .debugTrap, type := .void }
  else throw (.unresolved callee)
  return none

/-- A call, given the arguments.  An aggregate result goes to a block of the caller. -/
def callWith (c : Env) (name : String) (result : TypeId)
    (arguments : List (Register × OperandType)) : Gen (Option Register) := do
  let operand := c.operand result
  let arguments ← if c.types.isAggregate result then do
      let address ← blockAddress (← allocateBlock c (c.types.size result))
      pure (arguments ++ [(address, OperandType.address)])
    else pure arguments
  let destination ← if operand.isVoid then pure none else some <$> temporary
  emit { opcode := .call, type := operand, destination, sources := arguments.map (·.1)
         sourceTypes := arguments.map (·.2), symbol := some name }
  return destination

/-- Passes one argument: by address for a reference, as a copy for an aggregate. -/
def argument (c : Env) (isReference : Bool) (type : TypeId) (value address : Gen Register) :
    Gen (Register × OperandType) := do
  if isReference then return (← address, .address)
  else if c.types.isAggregate type then
    return (← copyToBlock c (← value) type, c.operand type)
  else return (← value, c.operand type)

/-! ## Expressions -/

mutual

/-- Code for an expression.  Expressions without a value have no register. -/
def expr (c : Env) : Expr → Access → Gen (Option Register)
  | .literal note value, _ => do
    let type ← typeOf (.literal note value)
    some <$> literal c value type
  | .name note text symbol, access => do
    let type ← typeOf (.name note text symbol)
    match symbol with
    | none => throw (.unresolved text)
    | some symbol => some <$> name c symbol type access
  | .binary note op lhs rhs, _ => do
    match note.type with
    | none => throw .untyped
    | some type =>
      some <$> binary c op lhs rhs type (need (expr c lhs .value)) (need (expr c rhs .value))
  | .unary note op operand, access => do
    match note.type with
    | none => throw .untyped
    | some type =>
      let value := need (expr c operand .value)
      let address := need (expr c operand .pointer)
      match op with
      | .address => some <$> address
      | .deref => do
        let pointer ← value
        some <$> loadOrAddress c pointer type access
      | .step isPost isDecrement =>
        some <$> step c isPost isDecrement type (place operand address)
      | .negate => some <$> unaryOperation .negate (c.operand type) value
      | .complement => some <$> unaryOperation .bitwiseNot (c.operand type) value
      | .not => do
        let type ← typeOf operand
        some <$> unaryOperation .logicalNot (c.operand type) value
  | .conditional note condition yes no, access => do
    match note.type with
    | none => throw .untyped
    | some type =>
      conditional c condition type (need (expr c condition .value)) (expr c yes access)
        (expr c no access)
  | .member note object member throughPointer, access => do
    match note.type with
    | none => throw .untyped
    | some type =>
      let objectType ← typeOf object
      let (base, owner) ← if throughPointer then do
          match c.types.pointee? objectType with
          | none => throw (.unknownMember member)
          | some pointee => pure (← need (expr c object .value), pointee)
        else do pure (← need (expr c object .pointer), objectType)
      match c.types.member? owner member with
      | none => throw (.unknownMember member)
      | some (_, offset) =>
        let address ← offsetAddress base offset.toInt64
        some <$> loadOrAddress c address type access
  | .qualified note _ _, _ => do
    match note.type with
    | none => throw .untyped
    | some _ => throw (.unlowered .qualified)
  | .call note callee symbol arguments, _ => do
    match note.type with
    | none => throw .untyped
    | some _ =>
      match symbol with
      | none => intrinsicCall callee
      | some symbol =>
        let (name, result, parameters) ← calledFunction c callee symbol
        let arguments ← args c arguments (parameters.map (·.isReference))
        callWith c name result arguments
  | .index note base position, access => do
    match note.type with
    | none => throw .untyped
    | some type =>
      let baseType ← typeOf base
      let baseCode := need (expr c base (if c.types.isArray baseType then .pointer else .value))
      let address ← element c position type baseCode (need (expr c position .value))
      some <$> loadOrAddress c address type access
  | .collection note values, _ => do
    match note.type with
    | none => throw .untyped
    | some type =>
      match c.types.element? type with
      | none => throw .untyped
      | some elementType =>
        let base ← blockAddress (← allocateBlock c (c.types.size type))
        elements c base elementType 0 values
        return some base
  | .cast note operand target _, _ => do
    match note.type with
    | none => throw .untyped
    | some _ =>
      let source ← typeOf operand
      cast c source target (expr c operand .value)
  | .assign note target value, _ => do
    match note.type with
    | none => throw .untyped
    | some _ =>
      let type ← typeOf target
      let place ← place target (need (expr c target .pointer))
      let value ← need (expr c value .value)
      some <$> write c place type value
  | .update note _ _ _, _ => do
    match note.type with
    | none => throw .untyped
    | some _ => throw (.unlowered .update)
  | .declare note symbol none, _ => do
    match note.type with
    | none => throw .untyped
    | some _ =>
      let _ ← declaredPlace c symbol
      return none
  | .declare note symbol (some initializer), _ => do
    match note.type with
    | none => throw .untyped
    | some _ =>
      let (place, type) ← declaredPlace c symbol
      let value ← need (expr c initializer .value)
      some <$> write c place type value
  | .sizeOf note _, _ => do
    match note.type with
    | none => throw .untyped
    | some _ => throw (.unlowered .sizeOf)
termination_by structural e => e

/-- Code for arguments, with whether each parameter is a reference. -/
def args (c : Env) : List Expr → List Bool → Gen (List (Register × OperandType))
  | [], _ => return []
  | e :: rest, references => do
    let type ← typeOf e
    let first ← argument c (references.headD false) type (need (expr c e .value))
      (need (expr c e .pointer))
    return first :: (← args c rest references.tail)
termination_by structural es => es

/-- Code that stores the elements of an array from an index on. -/
def elements (c : Env) (base : Register) (type : TypeId) : Nat → List Expr → Gen Unit
  | _, [] => return ()
  | position, e :: rest => do
    let address ← offsetAddress base (UInt64.ofNat position * c.types.size type).toInt64
    let value ← need (expr c e .value)
    let _ ← write c (.memory address) type value
    elements c base type (position + 1) rest
termination_by structural _ es => es

end

def value (c : Env) (e : Expr) : Gen Register := need (expr c e .value)

end CompilerCore.Code.Gen

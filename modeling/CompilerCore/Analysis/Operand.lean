import CompilerCore.Analysis.State

/-!
# Types of single nodes

The rules that give a node its type when its parts have theirs.  A rule may wrap operands in
conversions.
-/

namespace CompilerCore.Analysis

/-! ## Leaves -/

/-- The smaller of the two integer types that literals have. -/
def integerType (value : Int64) : TypeId :=
  if -2147483648 ≤ value ∧ value ≤ 2147483647 then TypeId.i32 else TypeId.i64

def literalType : Literal → Analyze TypeId
  | .integer value => return integerType value
  | .float _ => return TypeId.f64
  | .bool _ => return TypeId.bool
  | .text value => makeType (·.arrayOf TypeId.i8 (UInt64.ofNat value.utf8ByteSize + 1))
  | .null => makeType (·.pointerTo TypeId.void)

/-- The type that a qualified name looks for constants in, and whether it is an enum. -/
def constantOwner (c : Context) (token : Token) (scope : String) :
    Analyze (Option (TypeId × Bool)) := do
  let scopes := (← get).scopes
  match scopes.lookupEnum? c.scope scope token.source with
  | some type => return some (type, true)
  | none => return (scopes.lookupRecord? c.scope scope token.source).map (·, false)

/-- The literal that a qualified name stands for. -/
def qualifiedConstant (c : Context) (token : Token) (scope member : String) :
    Analyze (Option Expr) := do
  match ← constantOwner c token scope with
  | none =>
    report token (.undeclaredScope scope)
    return none
  | some (owner, isEnum) =>
    match (← types).constantValue? owner member with
    | none =>
      report token (.unknownConstant scope member)
      return none
    | some value =>
      let type := if isEnum then owner else integerType value
      return some (Expr.constant (.integer value) token type)

/-- The symbol and type of a name. -/
def nameVerdict (c : Context) (token : Token) (name : String) (known : Option SymbolId) :
    Analyze (Option SymbolId × Verdict) := do
  match ← lookupSymbol c name token with
  | none => return (known, ← reject token (.undeclaredName name))
  | some id =>
    markReferenced id
    let symbol := (← get).scopes.symbol id
    match symbol.type with
    | none => return (some id, ← reject token (.unknownType name))
    | some type =>
      let type ← if symbol.isImmutable then makeType (·.immutable type) else pure type
      return (some id, .ok { type, isPlace := symbol.kind ≠ .function })

/-! ## Operators -/

def badOperands (token : Token) (operator : String) (lhs rhs : Expr) : Analyze Verdict :=
  reject token (.badOperands operator (typeOf lhs) (typeOf rhs))

/-- Operands converted to a common type, which is that of the result. -/
def unified (lhs rhs : Expr) : Analyze (Expr × Expr × Verdict) := do
  let (lhs, rhs, result) ← unify lhs rhs
  return (lhs, rhs, result.map ({ type := · }))

/-- Addition, subtraction and so on.  An integer may be added to a pointer, and two pointers of one
type may be subtracted. -/
def numericVerdict (token : Token) (op : ArithOp) (lhs rhs : Expr) :
    Analyze (Expr × Expr × Verdict) := do
  let t ← types
  let l := typeOf lhs
  let r := typeOf rhs
  let bad : Analyze (Expr × Expr × Verdict) := do
    return (lhs, rhs, ← badOperands token op.symbol lhs rhs)
  if !t.isScalar l || !t.isScalar r then bad
  else
    match t.isPointer l, t.isPointer r with
    | true, false =>
      if (op = .add ∨ op = .sub) ∧ t.isInteger r then
        return (lhs, rhs, ← value (t.unqualified l))
      else bad
    | false, true =>
      if op = .add ∧ t.isInteger l then return (lhs, rhs, ← value (t.unqualified r)) else bad
    | true, true =>
      if op = .sub ∧ t.equal (t.unqualified l) (t.unqualified r) then
        return (lhs, rhs, ← value TypeId.i64)
      else bad
    | false, false => unified lhs rhs

/-- Operators on two values of one kind. -/
def arithVerdict (token : Token) (op : ArithOp) (lhs rhs : Expr) :
    Analyze (Expr × Expr × Verdict) := do
  match op.group with
  | .numeric => numericVerdict token op lhs rhs
  | .shift =>
    let t ← types
    if t.isInteger (typeOf lhs) && t.isInteger (typeOf rhs) then
      return (lhs, rhs, ← value (t.unqualified (typeOf lhs)))
    else return (lhs, rhs, ← badOperands token op.symbol lhs rhs)
  | .bitwise =>
    let t ← types
    if t.isInteger (typeOf lhs) && t.isInteger (typeOf rhs) then unified lhs rhs
    else return (lhs, rhs, ← badOperands token op.symbol lhs rhs)

/-- A comparison for which at most one operand has to be converted. -/
def comparedAfter (errors : Nat) : Verdict :=
  if errors = 0 then .ok { type := TypeId.bool } else .error 1

/-- Pointers are compared with pointers of the same type, or after conversion from `*void`. -/
def pointerComparison (token : Token) (relation : Relation) (lhs rhs : Expr) :
    Analyze (Expr × Expr × Verdict) := do
  let t ← types
  let l := typeOf lhs
  let r := typeOf rhs
  if t.isPointer l && t.isPointer r then
    if t.equal (t.unqualified l) (t.unqualified r) then
      return (lhs, rhs, ← value TypeId.bool)
    else if t.isVoidPointer r then
      let (rhs, errors) ← convert l rhs
      return (lhs, rhs, comparedAfter errors)
    else if t.isVoidPointer l then
      let (lhs, errors) ← convert r lhs
      return (lhs, rhs, comparedAfter errors)
    else return (lhs, rhs, ← badOperands token relation.symbol lhs rhs)
  else return (lhs, rhs, ← badOperands token relation.symbol lhs rhs)

def comparisonVerdict (token : Token) (relation : Relation) (lhs rhs : Expr) :
    Analyze (Expr × Expr × Verdict) := do
  let t ← types
  let l := typeOf lhs
  let r := typeOf rhs
  if !t.isScalar l || !t.isScalar r then
    return (lhs, rhs, ← badOperands token relation.symbol lhs rhs)
  else if t.isPointer l || t.isPointer r then pointerComparison token relation lhs rhs
  else
    let (lhs, rhs, common) ← unify lhs rhs
    match common with
    | .error errors => return (lhs, rhs, .error errors)
    | .ok type =>
      if (← types).isFloat type && !relation.isOrder then report token .floatEquality
      return (lhs, rhs, ← value TypeId.bool)

/-- The operands of a connective are converted to truth values. -/
def logicalVerdict (lhs rhs : Expr) : Analyze (Expr × Expr × Verdict) := do
  let (lhs, m) ← convert TypeId.bool lhs
  let (rhs, n) ← convert TypeId.bool rhs
  return (lhs, rhs, if 0 < m + n then .error (m + n) else .ok { type := TypeId.bool })

def binaryVerdict (token : Token) (op : BinaryOp) (lhs rhs : Expr) :
    Analyze (Expr × Expr × Verdict) :=
  match op with
  | .arith op => arithVerdict token op lhs rhs
  | .compare relation => comparisonVerdict token relation lhs rhs
  | .and | .or => logicalVerdict lhs rhs

/-- Why an expression cannot be assigned to. -/
def assignmentFault? (t : TypeTable) (target : Expr) : Option Complaint :=
  if !target.isPlace then some .notAssignable
  else if t.isImmutable (typeOf target) then some .immutableTarget
  else none

def unaryVerdict (token : Token) (op : UnaryOp) (operand : Expr) : Analyze (Expr × Verdict) := do
  let t ← types
  let type := typeOf operand
  let bad : Analyze Verdict := reject token (.badOperand op.symbol type)
  match op with
  | .negate =>
    return (operand,
      ← if t.isScalar type && !t.isPointer type then value (t.unqualified type) else bad)
  | .complement =>
    return (operand, ← if t.isInteger type then value (t.unqualified type) else bad)
  | .not =>
    let (operand, errors) ← convert TypeId.bool operand
    return (operand, if errors = 0 then .ok { type := TypeId.bool } else .error 1)
  | .address =>
    if !operand.isPlace && !t.isFunction type then
      return (operand, ← reject token .addressOfTemporary)
    else return (operand, ← value (← makeType (·.pointerTo type)))
  | .deref =>
    match t.pointee? type with
    | some pointee =>
      if t.isVoid pointee then return (operand, ← reject token (.badDereference type))
      else return (operand, .ok { type := pointee, isPlace := true })
    | none => return (operand, ← reject token (.badDereference type))
  | .step .. =>
    if !t.isScalar type then return (operand, ← bad)
    else
      match assignmentFault? t operand with
      | some complaint => return (operand, ← reject token complaint)
      | none => return (operand, ← value (t.unqualified type))

/-- The branches of a conditional have the same type, or are converted to one. -/
def conditionalVerdict (token : Token) (yes no : Expr) : Analyze (Expr × Expr × Verdict) := do
  let t ← types
  let type := typeOf yes
  if t.equal type (typeOf no) then return (yes, no, ← value (t.unqualified type))
  else if t.isNumeric type && t.isNumeric (typeOf no) then unified yes no
  else
    let (no, errors) ← convert type no
    if errors = 0 then return (yes, no, ← value type)
    else return (yes, no, ← reject token .branchMismatch)

/-! ## Parts of aggregates -/

/-- The struct or union whose member is taken. -/
def memberOwner? (t : TypeTable) (type : TypeId) (throughPointer : Bool) : Option TypeId :=
  if throughPointer then (t.pointee? type).filter t.isRecord
  else if t.isRecord type then some type
  else none

def memberVerdict (token : Token) (object : Expr) (member : String) (throughPointer : Bool) :
    Analyze Verdict := do
  let t ← types
  match memberOwner? t (typeOf object) throughPointer with
  | none => reject token (.notRecord throughPointer (typeOf object))
  | some owner =>
    match t.member? owner member with
    | none => reject token (.unknownMember owner member)
    | some (type, _) => return .ok { type, isPlace := throughPointer || object.isPlace }

/-- Whether a constant index lies outside an array. -/
def isOutOfRange (t : TypeTable) (base : TypeId) (index : Int64) : Bool :=
  t.isArray base && (index < 0 || t.length base ≤ index.toUInt64)

def indexVerdict (token : Token) (base index : Expr) : Analyze Verdict := do
  let t ← types
  match t.element? (typeOf base) with
  | none => reject token (.badIndexBase (typeOf base))
  | some element =>
    if !t.isInteger (typeOf index) then reject index.token (.badIndex (typeOf index))
    else
      match index.integer?.filter (isOutOfRange t (typeOf base)) with
      | some constant =>
        reject index.token (.indexOutOfRange constant (t.length (typeOf base)))
      | none => return .ok { type := element, isPlace := true }

/-- The array type of a collection: the one expected, or one made from its first element. -/
def collectionType (token : Token) (elements : List Expr) (expected : Option TypeId) :
    Analyze (Option TypeId) := do
  let t ← types
  match expected with
  | some array =>
    if t.length array < UInt64.ofNat elements.length then
      report token (.tooManyElements elements.length array)
      return none
    else return some array
  | none =>
    match elements.head? with
    | none =>
      report token .emptyCollection
      return none
    | some first =>
      let element := t.unqualified (typeOf first)
      return some (← makeType (·.arrayOf element (UInt64.ofNat elements.length)))

def collectionVerdict (token : Token) (elements : List Expr) (expected : Option TypeId) :
    Analyze (List Expr × Verdict) := do
  match ← collectionType token elements expected with
  | none => return (elements, .error 1)
  | some array =>
    let element := ((← types).element? array).getD TypeId.void
    let (elements, errors) ← convertAll element elements
    return (elements, if 0 < errors then .error errors else .ok { type := array })

/-! ## Casts, assignments and calls -/

/-- Whether values of one type may be cast to another. -/
def castAllowed (t : TypeTable) (source target : TypeId) : Bool :=
  t.equal (t.unqualified source) target || t.isVoid target ||
    (t.isNumeric source && t.isNumeric target) || (t.isPointer source && t.isPointer target) ||
    (t.isPointer source && t.isInteger target) || (t.isInteger source && t.isPointer target)

def castVerdict (token : Token) (operand : Expr) (target : TypeId) (isImplicit : Bool) :
    Analyze Verdict := do
  if isImplicit || castAllowed (← types) (typeOf operand) target then value target
  else reject token (.badCast (typeOf operand) target)

def assignVerdict (token : Token) (target assigned : Expr) : Analyze (Expr × Verdict) := do
  let t ← types
  match assignmentFault? t target with
  | some complaint => return (assigned, ← reject token complaint)
  | none =>
    let type := t.unqualified (typeOf target)
    let (assigned, errors) ← convert type assigned
    return (assigned, if 0 < errors then .error 1 else .ok { type })

/-- Whether an operator can update a target of a type by a value of a type. -/
def updateAllowed (t : TypeTable) (op : BinaryOp) (target assigned : TypeId) : Bool :=
  match op with
  | .arith op =>
    match op.group with
    | .numeric => t.isScalar target && t.isScalar assigned
    | .shift | .bitwise => t.isInteger target && t.isInteger assigned
  | .compare _ | .and | .or => false

/-- Whether the value of an update keeps its own type: offsets of pointers and shift counts do. -/
def keepsOperand (t : TypeTable) (op : BinaryOp) (target : TypeId) : Bool :=
  t.isPointer target ||
    match op with
    | .arith op => op.group = .shift
    | .compare _ | .and | .or => false

def updateVerdict (token : Token) (op : BinaryOp) (target assigned : Expr) :
    Analyze (Expr × Verdict) := do
  let t ← types
  match assignmentFault? t target with
  | some complaint => return (assigned, ← reject token complaint)
  | none =>
    let type := t.unqualified (typeOf target)
    if !updateAllowed t op type (typeOf assigned) then
      return (assigned, ← reject token (.badOperands (op.symbol ++ "=") type (typeOf assigned)))
    else if keepsOperand t op type then return (assigned, ← value type)
    else
      let (assigned, errors) ← convert type assigned
      return (assigned, if 0 < errors then .error 1 else .ok { type })

/-- The result, parameters and variadicity of a function. -/
structure Signature where
  result : TypeId
  parameters : List ParameterType
  isVariadic : Bool
  deriving Repr

def signature? (t : TypeTable) (s : Symbol) : Option Signature :=
  match s.kind, s.type with
  | .function, some type =>
    match t.shape type with
    | .function result parameters isVariadic => some ⟨result, parameters, isVariadic⟩
    | _ => none
  | _, _ => none

/-- Finds the function that a call names. -/
def callTarget (c : Context) (token : Token) (callee : String) :
    Analyze (Option (SymbolId × Signature)) := do
  match ← lookupSymbol c callee token with
  | none =>
    report token (.undeclaredFunction callee)
    return none
  | some id =>
    markReferenced id
    let s ← get
    match signature? s.types (s.scopes.symbol id) with
    | none =>
      report token (.notFunction callee)
      return none
    | some signature => return some (id, signature)

/-- Passes one argument: a place of the same type for a reference, else a converted value. -/
def passArgument (p : ParameterType) (argument : Expr) : Analyze (Expr × Nat) := do
  if p.isReference then
    if argument.isPlace && (← types).equal (typeOf argument) p.type then return (argument, 0)
    else
      report argument.token (.badReference p.type)
      return (argument, 1)
  else convert p.type argument

def passArguments : List ParameterType → List Expr → Analyze (List Expr × Nat)
  | p :: parameters, argument :: arguments => do
    let (argument, m) ← passArgument p argument
    let (arguments, n) ← passArguments parameters arguments
    return (argument :: arguments, m + n)
  | _, arguments => return (arguments, 0)

def callVerdict (token : Token) (callee : String) (signature : Signature) (arguments : List Expr) :
    Analyze (List Expr × Verdict) := do
  let expected := signature.parameters.length
  let actual := arguments.length
  if actual < expected || (expected < actual && !signature.isVariadic) then
    return (arguments, ← reject token (.argumentCount callee expected actual))
  else
    let (arguments, errors) ← passArguments signature.parameters arguments
    return (arguments, if 0 < errors then .error errors else .ok { type := signature.result })

/-! ## Conditions -/

/-- Reports an analyzed condition that no branch can test. -/
def testErrors (condition : Expr) : Analyze Nat := do
  if (← types).isTestable (typeOf condition) then return 0
  else
    report condition.token (.badCondition (typeOf condition))
    return 1

end CompilerCore.Analysis

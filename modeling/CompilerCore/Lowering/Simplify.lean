import CompilerCore.Tree.Stmt
import CompilerCore.Types.Table

/-!
# Simplification

Small changes to a body whose control flow has been lowered: arithmetic with convenient constants,
negated comparisons, steps by one, branches on constants and statements without effect.  A pass
counts its changes.
-/

namespace CompilerCore.Simplify

/-- A step of simplification, with the number of changes. -/
abbrev Counted := StateM Nat

def count (n : Nat) : Counted Unit := modify (· + n)

/-! ## Properties of expressions -/

/-- The exponent of a power of two. -/
def powerOfTwo? (value : Int64) : Option Nat :=
  if 0 < value ∧ value &&& (value - 1) = 0 then some value.toInt.toNat.log2 else none

variable (t : TypeTable)

def isInteger (e : Expr) : Bool := e.type?.any t.isInteger

def isUnsigned (e : Expr) : Bool := e.type?.any fun type => t.isInteger type && t.isUnsigned type

def isFloat (e : Expr) : Bool := e.type?.any t.isFloat

/-- Whether two expressions name the same place and evaluating them does nothing else. -/
def samePlace : Expr → Expr → Bool
  | .name _ _ (some a), .name _ _ (some b) => a == b
  | .member _ a m p, .member _ b n q => m == n && p == q && samePlace a b
  | .unary _ .deref a, .unary _ .deref b => samePlace a b
  | .index _ a i, .index _ b j => samePlace a b && i.integer?.isSome && i.integer? == j.integer?
  | _, _ => false

/-! ## Rules -/

def integerFor (value : Int64) (type : Option TypeId) (e : Expr) : Expr :=
  .literal { token := e.token, type := type <|> e.type? } (.integer value)

/-- Operations with zero or one, and operations that a shift or mask does as well. -/
def integerRule? (op : ArithOp) (lhs rhs : Expr) (type : Option TypeId) : Option Expr := do
  let constant ← rhs.integer?
  if (op = .add ∨ op = .sub) ∧ constant = 0 ∨ op = .mul ∧ constant = 1 then return lhs
  else if op = .mul ∧ constant = 0 ∧ !lhs.hasSideEffects then return integerFor 0 type lhs
  else
    let shift ← powerOfTwo? constant
    let (op, amount) ← match op with
      | .mul => some (ArithOp.shl, Int64.ofNat shift)
      | .div => if isUnsigned t lhs then some (.shr, Int64.ofNat shift) else none
      | .rem => if isUnsigned t lhs then some (.band, constant - 1) else none
      | _ => none
    return .binary { token := lhs.token, type } (.arith op) lhs (integerFor amount rhs.type? rhs)

/-- Division by a constant as multiplication. -/
def floatRule? (op : ArithOp) (lhs rhs : Expr) (type : Option TypeId) : Option Expr :=
  match op, rhs with
  | .div, .literal note (.float divisor) =>
    if divisor.isZero then none
    else
      some (.binary { token := lhs.token, type } (.arith .mul) lhs
        (.literal { token := note.token, type := note.type } (.float (Double.one / divisor))))
  | _, _ => none

def binaryRule? (op : BinaryOp) (lhs rhs : Expr) (type : Option TypeId) : Option Expr :=
  match op with
  | .arith op =>
    if isInteger t lhs && isInteger t rhs then integerRule? t op lhs rhs type
    else if isFloat t lhs then floatRule? op lhs rhs type
    else none
  | .compare _ | .and | .or => none

/-- Whether the operands of a sum or product change places: constants go to the right. -/
def swapsOperands (op : BinaryOp) (lhs rhs : Expr) : Bool :=
  (op = .arith .add || op = .arith .mul) && isInteger t lhs && lhs.isLiteral && !rhs.isLiteral

/-- An assignment of a place to itself, or of a place plus or minus one. -/
def assignRule? (target value : Expr) : Option Expr :=
  if samePlace target value then some target
  else if !isInteger t target then none
  else
    match value with
    | .binary _ (.arith op) lhs rhs =>
      if samePlace target lhs && rhs.integer? == some 1 then
        let step (isDecrement : Bool) : Expr :=
          .unary { token := target.token, type := target.type? } (.step false isDecrement) target
        match op with
        | .add => some (step false)
        | .sub => some (step true)
        | _ => none
      else none
    | _ => none

/-- The negation of a comparison.  Floats that have no order satisfy neither side of one. -/
def notRule? (note : Note) : Expr → Option Expr
  | .binary _ (.compare relation) lhs rhs =>
    if relation.isOrder && (isFloat t lhs || isFloat t rhs) then none
    else some (.binary { note with isPlace := false } (.compare relation.negate) lhs rhs)
  | _ => none

/-- The outcome of a rule that may not apply. -/
def orKeep (unchanged : Expr) : Option Expr → Counted Expr
  | some e => do
    count 1
    return e
  | none => return unchanged

/-- Simplifies a node whose parts have been simplified. -/
def node : Expr → Counted Expr
  | .binary note op lhs rhs =>
    let (lhs, rhs) := if swapsOperands t op lhs rhs then (rhs, lhs) else (lhs, rhs)
    orKeep (.binary note op lhs rhs) (binaryRule? t op lhs rhs note.type)
  | .assign note target value => orKeep (.assign note target value) (assignRule? t target value)
  | .unary note .not operand => orKeep (.unary note .not operand) (notRule? t note operand)
  | e => return e

/-! ## Walks -/

mutual

def expr : Expr → Counted Expr
  | .literal note value => node t (.literal note value)
  | .name note name symbol => node t (.name note name symbol)
  | .binary note op lhs rhs => do node t (.binary note op (← expr lhs) (← expr rhs))
  | .unary note op operand => do node t (.unary note op (← expr operand))
  | .conditional note condition yes no => do
    node t (.conditional note (← expr condition) (← expr yes) (← expr no))
  | .member note object name throughPointer => do
    node t (.member note (← expr object) name throughPointer)
  | .qualified note scope member => node t (.qualified note scope member)
  | .call note callee symbol arguments => do
    node t (.call note callee symbol (← exprs arguments))
  | .index note base index => do node t (.index note (← expr base) (← expr index))
  | .collection note elements => do node t (.collection note (← exprs elements))
  | .cast note operand target isImplicit => do
    node t (.cast note (← expr operand) target isImplicit)
  | .assign note target value => do node t (.assign note (← expr target) (← expr value))
  | .update note op target value => do
    node t (.update note op (← expr target) (← expr value))
  | .declare note symbol none => node t (.declare note symbol none)
  | .declare note symbol (some initializer) => do
    node t (.declare note symbol (some (← expr initializer)))
  | .sizeOf note type => node t (.sizeOf note type)
termination_by structural e => e

def exprs : List Expr → Counted (List Expr)
  | [] => return []
  | e :: rest => return (← expr e) :: (← exprs rest)
termination_by structural es => es

end

def optionExpr : Option Expr → Counted (Option Expr)
  | none => return none
  | some e => return some (← expr t e)

/-- Whether a jump can lead into a statement. -/
def hasLabel (s : Stmt) : Bool :=
  s.nodes.any fun s =>
    match s with
    | .label .. | .caseLabel .. | .defaultLabel _ => true
    | _ => false

/-- Whether a statement leaves a loop or goes on with it. -/
def hasLoopExit (s : Stmt) : Bool :=
  s.nodes.any fun s =>
    match s with
    | .breakLoop _ | .continueLoop _ => true
    | _ => false

/-- Puts a statement in the place of the one at a token. -/
def replaceAt (token : Token) (s : Stmt) : Counted Stmt := do
  count 1
  return s.withToken token

/-- A branch on a constant is one of its sides, unless a jump leads into the other one. -/
def branch (token : Token) (condition : Expr) (yes : Stmt) (no : Option Stmt) : Counted Stmt :=
  match condition.integer? with
  | some value =>
    if value = 0 ∧ !hasLabel yes then replaceAt token (no.getD (.empty token))
    else if value ≠ 0 ∧ !no.any hasLabel then replaceAt token yes
    else return .branch token condition yes no
  | none => return .branch token condition yes no

/-- A list of statements without the empty ones. -/
def withoutEmpty (body : List Stmt) : Counted (List Stmt) := do
  let kept := body.filter (!·.isNothing)
  count (body.length - kept.length)
  return kept

mutual

def stmt : Stmt → Counted Stmt
  | .expr token e => do
    let e ← expr t e
    if e.hasSideEffects then return .expr token e else replaceAt token (.empty token)
  | .block token scope body => do return .block token scope (← withoutEmpty (← stmts body))
  | .seq token body => do return .seq token (← withoutEmpty (← stmts body))
  | .branch token condition yes none => do
    let condition ← expr t condition
    let yes ← stmt yes
    branch token condition yes none
  | .branch token condition yes (some no) => do
    let condition ← expr t condition
    let yes ← stmt yes
    let no ← stmt no
    branch token condition yes (some no)
  | .whileLoop token condition body => do
    let condition ← expr t condition
    let body ← stmt body
    if condition.integer? == some 0 && !hasLabel body then replaceAt token (.empty token)
    else return .whileLoop token condition body
  | .doLoop token body condition => do
    let condition ← expr t condition
    let body ← stmt body
    if condition.integer? == some 0 && !hasLoopExit body then replaceAt token body
    else return .doLoop token body condition
  | .forLoop token none condition step body => do
    let condition ← optionExpr t condition
    let step ← optionExpr t step
    return .forLoop token none condition step (← stmt body)
  | .forLoop token (some first) condition step body => do
    let first ← stmt first
    let condition ← optionExpr t condition
    let step ← optionExpr t step
    return .forLoop token (some first) condition step (← stmt body)
  | .ret token value => return .ret token (← optionExpr t value)
  | .gotoAddress token target => return .gotoAddress token (← expr t target)
  | .switch token value body labels => do
    let value ← expr t value
    return .switch token value (← stmt body) labels
  | .caseLabel token value => return .caseLabel token (← expr t value)
  | .assertion token condition message => return .assertion token (← expr t condition) message
  | .cleanup token body => return .cleanup token (← stmt body)
  | .breakLoop token => return .breakLoop token
  | .continueLoop token => return .continueLoop token
  | .goto token label => return .goto token label
  | .label token name => return .label token name
  | .defaultLabel token => return .defaultLabel token
  | .asm token code => return .asm token code
  | .empty token => return .empty token
termination_by structural s => s

def stmts : List Stmt → Counted (List Stmt)
  | [] => return []
  | s :: rest => return (← stmt s) :: (← stmts rest)
termination_by structural ss => ss

end

def pass (body : Stmt) : Nat × Stmt :=
  let (s, changes) := (stmt t body).run 0
  (changes, s)

end CompilerCore.Simplify

import CompilerCore.Analysis.Operand

/-!
# Analysis of expressions

The parts of a node are analyzed from left to right.  If they have errors, the node keeps what was
found out about its parts and gets no type.
-/

namespace CompilerCore.Analysis

mutual

/-- Analyzes an expression where a value of a certain type may be expected.  The result is the
expression and the number of its errors. -/
def expr (c : Context) : Expr → Option TypeId → Analyze (Expr × Nat)
  | .literal note literal, _ => do
    let type ← match note.type with
      | some type => pure type
      | none => literalType literal
    conclude (.literal note literal) (.ok { type })
  | .name note name symbol, _ => do
    let (symbol, verdict) ← nameVerdict c note.token name symbol
    conclude (.name note name symbol) verdict
  | .binary note op lhs rhs, _ => do
    let (lhs, m) ← expr c lhs none
    let (rhs, n) ← expr c rhs none
    if 0 < m + n then return (.binary note op lhs rhs, m + n)
    else
      let (lhs, rhs, verdict) ← binaryVerdict note.token op lhs rhs
      conclude (.binary note op lhs rhs) verdict
  | .unary note op operand, _ => do
    let (operand, n) ← expr c operand none
    if 0 < n then return (.unary note op operand, n)
    else
      let (operand, verdict) ← unaryVerdict note.token op operand
      conclude (.unary note op operand) verdict
  | .conditional note condition yes no, expected => do
    let (condition, k) ← expr c condition none
    let k ← if 0 < k then pure k else testErrors condition
    let (yes, m) ← expr c yes expected
    let (no, n) ← expr c no expected
    if 0 < k + m + n then return (.conditional note condition yes no, k + m + n)
    else
      let (yes, no, verdict) ← conditionalVerdict note.token yes no
      conclude (.conditional note condition yes no) verdict
  | .member note object name throughPointer, _ => do
    let (object, n) ← expr c object none
    if 0 < n then return (.member note object name throughPointer, n)
    else
      let verdict ← memberVerdict note.token object name throughPointer
      conclude (.member note object name throughPointer) verdict
  | .qualified note scope member, _ => do
    match ← qualifiedConstant c note.token scope member with
    | some constant => return (constant, 0)
    | none => return (.qualified note scope member, 1)
  | .call note callee symbol arguments, _ => do
    match ← callTarget c note.token callee with
    | none => return (.call note callee symbol arguments, 1)
    | some (id, signature) =>
      let (arguments, n) ← exprs c arguments none
      if 0 < n then return (.call note callee (some id) arguments, n)
      else
        let (arguments, verdict) ← callVerdict note.token callee signature arguments
        conclude (.call note callee (some id) arguments) verdict
  | .index note base index, _ => do
    let (base, m) ← expr c base none
    let (index, n) ← expr c index none
    if 0 < m + n then return (.index note base index, m + n)
    else
      let verdict ← indexVerdict note.token base index
      conclude (.index note base index) verdict
  | .collection note elements, expected => do
    let t ← types
    let array := expected.filter t.isArray
    let (elements, n) ← exprs c elements (array >>= t.element?)
    if 0 < n then return (.collection note elements, n)
    else
      let (elements, verdict) ← collectionVerdict note.token elements array
      conclude (.collection note elements) verdict
  | .cast note operand target isImplicit, _ => do
    let (operand, n) ← expr c operand none
    if 0 < n then return (.cast note operand target isImplicit, n)
    else
      let verdict ← castVerdict note.token operand target isImplicit
      conclude (.cast note operand target isImplicit) verdict
  | .assign note target assigned, _ => do
    let (target, m) ← expr c target none
    let (assigned, n) ← expr c assigned target.type?
    if 0 < m + n then return (.assign note target assigned, m + n)
    else
      let (assigned, verdict) ← assignVerdict note.token target assigned
      conclude (.assign note target assigned) verdict
  | .update note op target assigned, _ => do
    let (target, m) ← expr c target none
    let (assigned, n) ← expr c assigned none
    if 0 < m + n then return (.update note op target assigned, m + n)
    else
      let (assigned, verdict) ← updateVerdict note.token op target assigned
      conclude (.update note op target assigned) verdict
  | .declare note symbol none, _ => do
    let declared := (← get).scopes.symbol symbol
    match declared.type with
    | some type => conclude (.declare note symbol none) (.ok { type })
    | none =>
      conclude (.declare note symbol none) (← reject note.token (.missingType declared.name))
  | .declare note symbol (some initializer), _ => do
    match ((← get).scopes.symbol symbol).type with
    | some type =>
      let (initializer, n) ← expr c initializer (some type)
      if 0 < n then return (.declare note symbol (some initializer), n)
      else
        let (initializer, n) ← convert type initializer
        conclude (.declare note symbol (some initializer))
          (if 0 < n then .error 1 else .ok { type })
    | none =>
      let (initializer, n) ← expr c initializer none
      match initializer.type? with
      | none => return (.declare note symbol (some initializer), max n 1)
      | some found =>
        let type := (← types).unqualified found
        modifySymbol symbol fun s => { s with type := some type }
        conclude (.declare note symbol (some initializer))
          (if 0 < n then .error n else .ok { type })
  | .sizeOf note type, _ => do
    return (Expr.constant (.integer ((← types).size type).toInt64) note.token TypeId.u64, 0)
termination_by structural e => e

def exprs (c : Context) : List Expr → Option TypeId → Analyze (List Expr × Nat)
  | [], _ => return ([], 0)
  | e :: rest, expected => do
    let (e, m) ← expr c e expected
    let (rest, n) ← exprs c rest expected
    return (e :: rest, m + n)
termination_by structural es => es

end

/-- Analyzes an expression that decides where to go on. -/
def condition (c : Context) (e : Expr) : Analyze (Expr × Nat) := do
  let (e, n) ← expr c e none
  return (e, ← if 0 < n then pure n else testErrors e)

end CompilerCore.Analysis

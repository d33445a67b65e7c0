import CompilerCore.Tree.Stmt
import CompilerCore.Types.Table

/-!
# Control flow

Loops, jumps out of them, case labels and assertions are turned into labels, branches and jumps;
updates into assignments; and array declarations with elements into assignments to the elements.
One pass turns `do` and `for` loops into `while` loops, and the next one turns those into labels, so
passes are repeated until nothing changes.
-/

namespace CompilerCore.ControlFlow

/-- The function that a failed assertion calls. -/
def abortName : String := "abort"

/-- A label that the compiler makes. -/
def madeLabel (id : Nat) (suffix : String) : String := "$" ++ toString id ++ "_" ++ suffix

/-- A switch whose labels are being collected. -/
structure PendingSwitch where
  id : Nat
  labels : SwitchLabels
  deriving Repr

structure State where
  nextLabel : Nat
  changes : Nat := 0
  /-- The innermost switch that has no labels yet. -/
  switch : Option PendingSwitch := none

/-- What a pass knows at a place of the program. -/
structure Context where
  types : TypeTable
  scopes : ScopeTree
  /-- Where `break` goes; it stays for the next pass if that is not known. -/
  breakTo : Option String := none
  continueTo : Option String := none

abbrev Lower := StateM State

def newLabel : Lower Nat :=
  modifyGet fun s => (s.nextLabel, { s with nextLabel := s.nextLabel + 1 })

def countChange : Lower Unit := modify fun s => { s with changes := s.changes + 1 }

/-- Counts the replacement of a statement. -/
def replaceBy (s : Stmt) : Lower Stmt := do
  countChange
  return s

/-! ## Expressions -/

/-- The assignment that an update stands for.  The target is evaluated twice. -/
def expandUpdate (note : Note) (op : BinaryOp) (target value : Expr) : Expr :=
  .assign note target (.binary { note with isPlace := false } op target value)

mutual

/-- Replaces updates by assignments. -/
def expr : Expr → Lower Expr
  | .literal note value => return .literal note value
  | .name note name symbol => return .name note name symbol
  | .binary note op lhs rhs => return .binary note op (← expr lhs) (← expr rhs)
  | .unary note op operand => return .unary note op (← expr operand)
  | .conditional note condition yes no =>
    return .conditional note (← expr condition) (← expr yes) (← expr no)
  | .member note object name throughPointer =>
    return .member note (← expr object) name throughPointer
  | .qualified note scope member => return .qualified note scope member
  | .call note callee symbol arguments => return .call note callee symbol (← exprs arguments)
  | .index note base index => return .index note (← expr base) (← expr index)
  | .collection note elements => return .collection note (← exprs elements)
  | .cast note operand target isImplicit =>
    return .cast note (← expr operand) target isImplicit
  | .assign note target value => return .assign note (← expr target) (← expr value)
  | .update note op target value => do
    let target ← expr target
    let value ← expr value
    countChange
    return expandUpdate note op target value
  | .declare note symbol none => return .declare note symbol none
  | .declare note symbol (some initializer) =>
    return .declare note symbol (some (← expr initializer))
  | .sizeOf note type => return .sizeOf note type
termination_by structural e => e

def exprs : List Expr → Lower (List Expr)
  | [] => return []
  | e :: rest => return (← expr e) :: (← exprs rest)
termination_by structural es => es

end

/-! ## Array declarations -/

/-- The element of an array under a constant index. -/
def element (t : TypeTable) (array : Expr) (index : Nat) : Expr :=
  .index { token := array.token, type := array.type? >>= t.element?, isPlace := true } array
    (Expr.constant (.integer (Int64.ofNat index)) array.token TypeId.i64)

def assignElement (slot value : Expr) : Stmt :=
  .expr slot.token (.assign { token := slot.token, type := slot.type? } slot value)

mutual

/-- Assigns a value to an element of an array, or its parts to the parts of the element. -/
def expandElement (t : TypeTable) (slot : Expr) : Expr → Lower (List Stmt)
  | .collection _ elements => expandElements t slot 0 elements
  | value => return [assignElement slot (← expr value)]
termination_by structural e => e

/-- Assigns values to the elements of an array from an index on. -/
def expandElements (t : TypeTable) (array : Expr) (index : Nat) : List Expr → Lower (List Stmt)
  | [] => return []
  | value :: rest =>
    return (← expandElement t (element t array index) value) ++
      (← expandElements t array (index + 1) rest)
termination_by structural es => es

end

def declaredElements? (t : TypeTable) : Expr → Option (SymbolId × List Expr)
  | .declare note symbol (some (.collection _ elements)) =>
    if note.type.any t.isArray then some (symbol, elements) else none
  | _ => none

/-- A declaration followed by an assignment to each element. -/
def expandDeclaration (c : Context) (note : Note) (symbol : SymbolId) (elements : List Expr) :
    Lower (List Stmt) := do
  let array := Expr.name { note with isPlace := true } (c.scopes.symbol symbol).name (some symbol)
  return .expr note.token (.declare note symbol none) ::
    (← expandElements c.types array 0 elements)

/-! ## Statements -/

def negation (condition : Expr) : Expr :=
  .unary { token := condition.token, type := some TypeId.bool } .not condition

def always (token : Token) : Expr := Expr.constant (.bool true) token TypeId.bool

def isAlwaysTrue (condition : Expr) : Bool := condition.integer?.any (· != 0)

/-- Leaves a loop when its condition does not hold. -/
def exitUnless (token : Token) (condition : Expr) (exit : Stmt) : List Stmt :=
  [.branch token (negation condition) exit none]

def loopStatements (token : Token) (condition : Expr) (body : Stmt) (head tail : String) :
    List Stmt :=
  [.label token head] ++
    (if isAlwaysTrue condition then [] else exitUnless token condition (.goto token tail)) ++
    [body, .goto token head, .label token tail]

def doAsWhile (token : Token) (body : Stmt) (condition : Expr) (next : String) : Stmt :=
  .whileLoop token (always token)
    (.seq token ([body, .label token next] ++ exitUnless token condition (.breakLoop token)))

/-- The statements that a `for` loop stands for. -/
def forAsWhile (token : Token) (first : Option Stmt) (condition step : Option Expr) (body : Stmt)
    (next : String) : List Stmt :=
  first.toList ++
    [.whileLoop token (condition.getD (always token))
      (.seq token ([body, .label token next] ++ step.toList.map (.expr token)))]

def abortCall (token : Token) : Stmt :=
  .expr token (.call { token, type := some TypeId.void } abortName none [])

/-- Gives a case of the innermost switch a label. -/
def caseLabel (token : Token) (value : Expr) : Lower Stmt := do
  match (← get).switch, value.integer? with
  | some pending, some constant =>
    let name := madeLabel pending.id ("case_" ++ toString pending.labels.cases.length)
    let labels := { pending.labels with cases := pending.labels.cases ++ [(name, constant)] }
    modify fun s => { s with switch := some { pending with labels } }
    replaceBy (.label token name)
  | _, _ => return .caseLabel token value

/-- Gives the default case of the innermost switch a label. -/
def defaultLabel (token : Token) : Lower Stmt := do
  match (← get).switch with
  | some pending =>
    let name := madeLabel pending.id "default"
    let labels := { pending.labels with default := some name }
    modify fun s => { s with switch := some { pending with labels } }
    replaceBy (.label token name)
  | none => return .defaultLabel token

/-- The context of the body of a switch that ends at a label. -/
def Context.switchBody (c : Context) (tail : String) : Context := { c with breakTo := some tail }

/-- The context of the body of a `do` or `for` loop. -/
def Context.loopBody (c : Context) (next : String) : Context :=
  { c with breakTo := none, continueTo := some next }

def optionExpr : Option Expr → Lower (Option Expr)
  | none => return none
  | some e => return some (← expr e)

mutual

def stmt (c : Context) : Stmt → Lower Stmt
  | .expr token e => do
    match declaredElements? c.types e with
    | some (symbol, elements) =>
      replaceBy (.seq token (← expandDeclaration c e.note symbol elements))
    | none => return .expr token (← expr e)
  | .block token scope body => return .block token scope (← stmts c body)
  | .seq token body => return .seq token (← stmts c body)
  | .branch token condition yes none => do
    let condition ← expr condition
    return .branch token condition (← stmt c yes) none
  | .branch token condition yes (some no) => do
    let condition ← expr condition
    let yes ← stmt c yes
    return .branch token condition yes (some (← stmt c no))
  | .whileLoop token condition body => do
    let id ← newLabel
    let head := madeLabel id "head"
    let tail := madeLabel id "tail"
    let condition ← expr condition
    let body ← stmt { c with breakTo := some tail, continueTo := some head } body
    replaceBy (.seq token (loopStatements token condition body head tail))
  | .doLoop token body condition => do
    let next := madeLabel (← newLabel) "next"
    let condition ← expr condition
    let body ← stmt (c.loopBody next) body
    replaceBy (doAsWhile token body condition next)
  | .forLoop token none condition step body => do
    let next := madeLabel (← newLabel) "next"
    let condition ← optionExpr condition
    let step ← optionExpr step
    let body ← stmt (c.loopBody next) body
    replaceBy (.seq token (forAsWhile token none condition step body next))
  | .forLoop token (some first) condition step body => do
    let next := madeLabel (← newLabel) "next"
    let first ← stmt c first
    let condition ← optionExpr condition
    let step ← optionExpr step
    let body ← stmt (c.loopBody next) body
    replaceBy (.seq token (forAsWhile token (some first) condition step body next))
  | .breakLoop token =>
    match c.breakTo with
    | some label => replaceBy (.goto token label)
    | none => return .breakLoop token
  | .continueLoop token =>
    match c.continueTo with
    | some label => replaceBy (.goto token label)
    | none => return .continueLoop token
  | .ret token value => return .ret token (← optionExpr value)
  | .goto token label => return .goto token label
  | .gotoAddress token target => return .gotoAddress token (← expr target)
  | .label token name => return .label token name
  | .switch token value body (some labels) => do
    let value ← expr value
    return .switch token value (← stmt (c.switchBody labels.tail) body) (some labels)
  | .switch token value body none => do
    let value ← expr value
    let id ← newLabel
    let labels : SwitchLabels := { head := madeLabel id "head", tail := madeLabel id "tail" }
    let outer := (← get).switch
    modify fun s => { s with switch := some { id, labels } }
    let body ← stmt (c.switchBody labels.tail) body
    let collected := (← get).switch.map (·.labels)
    modify fun s => { s with switch := outer }
    replaceBy (.switch token value body collected)
  | .caseLabel token value => caseLabel token value
  | .defaultLabel token => defaultLabel token
  | .assertion token condition _ => do
    let condition ← expr condition
    replaceBy (.branch token (negation condition) (abortCall token) none)
  | .asm token code => return .asm token code
  | .cleanup token body => return .cleanup token (← stmt c body)
  | .empty token => return .empty token
termination_by structural s => s

def stmts (c : Context) : List Stmt → Lower (List Stmt)
  | [] => return []
  | s :: rest => return (← stmt c s) :: (← stmts c rest)
termination_by structural ss => ss

end

/-- One pass over a body, with the number of its next label.  The result is the number of changes
and the body with its next label. -/
def pass (types : TypeTable) (scopes : ScopeTree) (body : Stmt × Nat) : Nat × Stmt × Nat :=
  let (s, after) := (stmt { types, scopes } body.1).run { nextLabel := body.2 }
  (after.changes, s, after.nextLabel)

end CompilerCore.ControlFlow

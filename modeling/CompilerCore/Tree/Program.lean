import CompilerCore.Tree.Stmt

/-!
# Programs
-/

namespace CompilerCore

/-- A variable of the module. -/
structure Global where
  symbol : SymbolId
  /-- The declaration of the variable. -/
  statement : Stmt
  isAnalyzed : Bool := false
  deriving Repr

structure Function where
  symbol : SymbolId
  name : String
  /-- The scope of the parameters, around that of the body. -/
  scope : ScopeId
  parameters : List SymbolId
  returnType : TypeId
  body : Stmt
  labels : List String
  hasCleanup : Bool
  isAnalyzed : Bool := false
  token : Token
  /-- The number of the next label that the compiler makes. -/
  nextLabel : Nat := 0
  deriving Repr

inductive Item where
  | function (f : Function)
  | global (g : Global)
  deriving Repr

namespace Item

def isAnalyzed : Item → Bool
  | function f => f.isAnalyzed
  | global g => g.isAnalyzed

/-- The body of a function or the declaration of a variable. -/
def statement : Item → Stmt
  | function f => f.body
  | global g => g.statement

end Item

structure Program where
  sources : Sources
  scopes : ScopeTree
  globalScope : ScopeId
  items : List Item
  /-- The declarations that were refused. -/
  declarationErrors : List DuplicateName
  deriving Repr

namespace Program

def functions (p : Program) : List Function :=
  p.items.filterMap fun item =>
    match item with
    | .function f => some f
    | .global _ => none

def globals (p : Program) : List Global :=
  p.items.filterMap fun item =>
    match item with
    | .global g => some g
    | .function _ => none

def function? (p : Program) (name : String) : Option Function :=
  p.functions.find? (·.name == name)

/-- All expressions of the program, in the order of the items. -/
def exprNodes (p : Program) : List Expr := p.items.flatMap (·.statement.exprNodes)

end Program

end CompilerCore

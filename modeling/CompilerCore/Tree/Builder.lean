import CompilerCore.Tree.Program
import CompilerCore.Types.Table

/-!
# Building programs

A builder keeps the books of a program under construction: it numbers tokens, opens scopes and
declares names.  Every node takes the next token, after its parts.  Expressions are built without
types, and names are not looked up yet.
-/

namespace CompilerCore

structure Builder where
  types : TypeTable
  sources : Sources
  scopes : ScopeTree
  globalScope : ScopeId
  source : SourceId
  items : List Item := []
  errors : List DuplicateName := []
  /-- The open scopes, innermost first. -/
  openScopes : List ScopeId
  nextOffset : Nat := 0

namespace Builder

def start (types : TypeTable) (text : String) : Builder :=
  let (globalScope, scopes) := ScopeTree.pushScope {} none
  { types
    sources := Sources.add {} ⟨text, .memory⟩
    scopes
    globalScope
    source := 0
    openScopes := [globalScope] }

def finish (b : Builder) : Program :=
  { sources := b.sources
    scopes := b.scopes
    globalScope := b.globalScope
    items := b.items
    declarationErrors := b.errors }

def currentScope (b : Builder) : ScopeId := b.openScopes.headD b.globalScope

end Builder

abbrev Build := StateM Builder

namespace Build

/-- The next token. -/
def token : Build Token :=
  modifyGet fun b => (⟨some b.source, b.nextOffset⟩, { b with nextOffset := b.nextOffset + 1 })

def types {α : Type} (f : TypeTable → α × TypeTable) : Build α :=
  modifyGet fun b =>
    let (a, types) := f b.types
    (a, { b with types })

def modifySymbol (id : SymbolId) (f : Symbol → Symbol) : Build Unit :=
  modify fun b => { b with scopes := b.scopes.modifySymbol id f }

/-- Opens a scope for the duration of a step. -/
def inScope {α : Type} (scope : ScopeId) (step : Build α) : Build α := do
  modify fun b => { b with openScopes := scope :: b.openScopes }
  let a ← step
  modify fun b => { b with openScopes := b.openScopes.tail }
  return a

def pushScope (parent : ScopeId) : Build ScopeId :=
  modifyGet fun b =>
    let (scope, scopes) := b.scopes.pushScope (some parent)
    (scope, { b with scopes })

/-! ## Declarations -/

/-- Declares a symbol.  A second declaration of a name is noted as an error; its symbol goes to a
scope of its own, where nothing looks it up. -/
def declare (scope : ScopeId) (symbol : Symbol) : Build SymbolId :=
  modifyGet fun b =>
    match b.scopes.declareSymbol scope symbol with
    | .ok (id, scopes) => (id, { b with scopes })
    | .error duplicate =>
      let (orphan, scopes) := b.scopes.pushScope (some scope)
      let errors := b.errors ++ [duplicate]
      match scopes.declareSymbol orphan symbol with
      | .ok (id, scopes) => (id, { b with scopes, errors })
      | .error _ => (0, { b with scopes, errors })

def declareType (name : String) (entry : TypeEntry → ScopeEntry) (type : TypeId) : Build Unit := do
  let token ← token
  modify fun b =>
    match b.scopes.declareType b.currentScope name (entry ⟨type, token, false⟩) with
    | .ok scopes => { b with scopes }
    | .error duplicate => { b with errors := b.errors ++ [duplicate] }

def record (name : String) (members : List Member) (isUnion : Bool) : Build TypeId := do
  let scope := (← get).currentScope
  let type ← types (·.declareRecord (some name) members isUnion (some scope))
  declareType name .record type
  return type

def enum (name : String) (base : TypeId) (constants : List NamedConstant) : Build TypeId := do
  let scope := (← get).currentScope
  let type ← types (·.declareEnum name base constants (some scope))
  declareType name .enum type
  return type

/-- A type that may be declared later. -/
def forward (name : String) : Build TypeId := do
  let b ← get
  types (·.placeholder name (some b.source) b.currentScope)

def declareLocal (name : String) (type : Option TypeId) : Build SymbolId := do
  let token ← token
  declare (← get).currentScope { name, kind := .variable, type, token }

/-- The declaration of a variable as a statement. -/
def init (symbol : SymbolId) (initializer : Option Expr) : Build Stmt := do
  let token ← token
  return .expr token (.declare { token } symbol initializer)

def localVar (name : String) (type : Option TypeId) (initializer : Option Expr) : Build Stmt := do
  init (← declareLocal name type) initializer

def global (name : String) (type : Option TypeId) (initializer : Option Expr) :
    Build SymbolId := do
  let token ← token
  let symbol ← declare (← get).globalScope { name, kind := .variable, type, token }
  let statement ← init symbol initializer
  modify fun b => { b with items := b.items ++ [.global { symbol, statement }] }
  return symbol

def external (name : String) (type : TypeId) : Build SymbolId := do
  let token ← token
  declare (← get).globalScope { name, kind := .function, type := some type, token }

/-- Notes that a symbol need not be used. -/
def markMaybeUnused (id : SymbolId) : Build Unit :=
  modifySymbol id fun s =>
    { s with attributes := s.attributes.insert Attributes.maybeUnused [.integer 1] }

/-! ## Statements and expressions -/

def expr (make : Note → Expr) : Build Expr := do return make { token := ← token }

def stmt (make : Token → Stmt) : Build Stmt := do return make (← token)

def block (body : Build (List Stmt)) : Build Stmt := do
  let scope ← pushScope (← get).currentScope
  let statements ← inScope scope body
  stmt (.block · scope statements)

/-- A parameter of a function to be built. -/
structure Parameter where
  name : String
  type : TypeId
  isReference : Bool := false
  maybeUnused : Bool := false

def declareParameter (scope : ScopeId) (p : Parameter) : Build SymbolId := do
  let token ← token
  declare scope
    { name := p.name
      kind := .parameter p.isReference
      type := some p.type
      token
      attributes := if p.maybeUnused then Attributes.insert [] Attributes.maybeUnused [] else [] }

def function (name : String) (returnType : TypeId) (parameters : List Parameter)
    (body : Build (List Stmt)) : Build SymbolId := do
  let signature := parameters.map fun p => ⟨p.type, p.isReference⟩
  let type ← types (·.function returnType signature false)
  let token ← token
  let globalScope := (← get).globalScope
  let symbol ← declare globalScope { name, kind := .function, type := some type, token }
  let scope ← pushScope globalScope
  let parameters ← parameters.mapM (declareParameter scope)
  let body ← inScope scope (block body)
  let f : Function :=
    { symbol, name, scope, parameters, returnType, body, token
      labels := body.declaredLabels
      hasCleanup := body.hasCleanup }
  modify fun b => { b with items := b.items ++ [.function f] }
  return symbol

end Build

end CompilerCore

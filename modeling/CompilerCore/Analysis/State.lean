import CompilerCore.Analysis.Complaint
import CompilerCore.Types.Constant
import CompilerCore.Types.Conversion

/-!
# The state of an analysis

Analysis looks at a program from the leaves up.  It gives nodes their types, replaces nodes with
known values by literals, and counts errors; a node with errors in its parts is left for the next
wave, with what was found out about the parts.
-/

namespace CompilerCore.Analysis

/-- The switch around a case label. -/
structure OpenSwitch where
  /-- Unknown when the value of the switch has errors. -/
  valueType : Option TypeId
  cases : List Int64 := []
  hasDefault : Bool := false
  deriving Repr

/-- What analysis changes. -/
structure State where
  types : TypeTable
  scopes : ScopeTree
  diagnostics : Diagnostics
  /-- The innermost switch. -/
  switch : Option OpenSwitch := none
  /-- The cleanup statements of the function so far. -/
  cleanups : Nat := 0

/-- What holds at a place of the program. -/
structure Context where
  scope : ScopeId
  returnType : TypeId
  labels : List String
  inLoop : Bool := false
  /-- Whether a loop or switch can be left from here. -/
  isBreakable : Bool := false

abbrev Analyze := StateM State

def report (token : Token) (c : Complaint) : Analyze Unit :=
  modify fun s => { s with diagnostics := s.diagnostics ++ [c.diagnostic s.types token] }

def types : Analyze TypeTable := return (← get).types

def makeType (f : TypeTable → TypeId × TypeTable) : Analyze TypeId :=
  modifyGet fun s =>
    let (type, types) := f s.types
    (type, { s with types })

def modifySymbol (id : SymbolId) (f : Symbol → Symbol) : Analyze Unit :=
  modify fun s => { s with scopes := s.scopes.modifySymbol id f }

def lookupSymbol (c : Context) (name : String) (token : Token) : Analyze (Option SymbolId) :=
  return (← get).scopes.lookupSymbol? c.scope name token.source

def markReferenced (id : SymbolId) : Analyze Unit :=
  modifySymbol id fun s => { s with isReferenced := true }

/-! ## Types of nodes -/

/-- The type of a node and whether it denotes a place. -/
structure Typing where
  type : TypeId
  isPlace : Bool := false
  deriving DecidableEq, Repr

/-- The typing of a node, or the number of errors that prevent it. -/
abbrev Verdict := Except Nat Typing

/-- The type of a node, void as long as it is unknown. -/
def typeOf (e : Expr) : TypeId := e.type?.getD TypeId.void

/-- A value that is no place. -/
def value (type : TypeId) : Analyze Verdict := return .ok { type }

/-- Reports a complaint that leaves a node without a type. -/
def reject (token : Token) (c : Complaint) : Analyze Verdict := do
  report token c
  return .error 1

/-- Folds a node, or reports that it divides by zero. -/
def fold (e : Expr) : Analyze (Expr × Nat) := do
  match Fold.node (← types) e with
  | .ok e => return (e, 0)
  | .error error =>
    report e.token (.divisionByZero error)
    return (e, 1)

/-- Gives a node its type and folds it. -/
def conclude (e : Expr) : Verdict → Analyze (Expr × Nat)
  | .error errors => return (e, errors)
  | .ok typing =>
    fold (e.withNote { e.note with type := some typing.type, isPlace := typing.isPlace })

/-! ## Conversions -/

/-- An expression converted to a type; itself when the type is that of its value. -/
def converted? (t : TypeTable) (target : TypeId) (e : Expr) : Option Expr :=
  match e.type? with
  | none => none
  | some source =>
    if t.equal target (t.unqualified source) then some e
    else if t.converts target source then
      some (.cast { token := e.token, type := some target } e target true)
    else none

/-- Converts an expression or reports that it has the wrong type. -/
def convert (target : TypeId) (e : Expr) : Analyze (Expr × Nat) := do
  match converted? (← types) target e with
  | some e => fold e
  | none =>
    report e.token (.mismatch target e.type?)
    return (e, 1)

def convertAll (target : TypeId) : List Expr → Analyze (List Expr × Nat)
  | [] => return ([], 0)
  | e :: rest => do
    let (e, m) ← convert target e
    let (rest, n) ← convertAll target rest
    return (e :: rest, m + n)

/-- Converts two operands to the type with more information. -/
def unify (lhs rhs : Expr) : Analyze (Expr × Expr × Except Nat TypeId) := do
  let t ← types
  let target := t.unqualified (t.richer (typeOf lhs) (typeOf rhs))
  let (lhs, m) ← convert target lhs
  let (rhs, n) ← convert target rhs
  return (lhs, rhs, if 0 < m + n then .error (m + n) else .ok target)

end CompilerCore.Analysis

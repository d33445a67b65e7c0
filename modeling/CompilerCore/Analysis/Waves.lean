import CompilerCore.Analysis.Statement
import CompilerCore.Config
import CompilerCore.Tree.Program
import CompilerCore.Types.Resolution

/-!
# Waves

A wave analyzes every item that still has errors, since a later item may declare what an earlier one
needs.  Analysis succeeds with a wave without errors.  It fails with a wave that finds as many errors
as the one before; then the errors of the wave before are reported.
-/

namespace CompilerCore

inductive AnalysisError where
  | unresolvedTypes (error : UnresolvedTypes)
  | invalidDeclarations (errors : Nat)
  | nonConvergence (errors : Nat)
  deriving DecidableEq, Repr

def AnalysisError.message : AnalysisError → String
  | unresolvedTypes error => error.message
  | invalidDeclarations errors => toString errors ++ " declaration(s) were rejected"
  | nonConvergence errors =>
    "analysis did not converge, " ++ toString errors ++ " error(s) remain"

namespace Analysis

/-- What a wave means for the waves to come. -/
inductive WaveOutcome where
  | converged
  | again
  | stalled
  deriving DecidableEq, Repr

/-- Compares the number of errors of a wave with that of the wave before. -/
def waveOutcome (errors : Nat) (previous : Option Nat) : WaveOutcome :=
  if errors = 0 then .converged
  else if previous = some errors then .stalled
  else .again

/-! ## One wave -/

/-- The labels that are declared again after `seen` ones. -/
def repeatedLabels : List String → List String → List String
  | _, [] => []
  | seen, label :: rest =>
    if seen.contains label then label :: repeatedLabels seen rest
    else repeatedLabels (label :: seen) rest

/-- Reports labels that are declared twice. -/
def labelErrors (f : Function) : List String → Analyze Nat
  | [] => return 0
  | label :: rest => do
    report f.token (.duplicateLabel label f.name)
    return (← labelErrors f rest) + 1

/-- Forgets the switches and cleanups of the item before. -/
def freshItem : Analyze Unit := modify fun s => { s with switch := none, cleanups := 0 }

def function (f : Function) : Analyze (Function × Nat) := do
  freshItem
  let m ← labelErrors f (repeatedLabels [] f.labels)
  let (body, n) ← stmt { scope := f.scope, returnType := f.returnType, labels := f.labels } f.body
  return ({ f with body, isAnalyzed := m + n = 0 }, m + n)

def global (scope : ScopeId) (g : Global) : Analyze (Global × Nat) := do
  freshItem
  let (statement, n) ← stmt { scope, returnType := TypeId.void, labels := [] } g.statement
  return ({ g with statement, isAnalyzed := n = 0 }, n)

def item (scope : ScopeId) : Item → Analyze (Item × Nat)
  | .function f => do
    let (f, n) ← function f
    return (.function f, n)
  | .global g => do
    let (g, n) ← global scope g
    return (.global g, n)

/-- Analyzes an item unless it has been accepted before.  What is reported about an item with errors
is set aside. -/
def pendingItem (scope : ScopeId) (i : Item) : Analyze (Item × Nat × Diagnostics) := do
  if i.isAnalyzed then return (i, 0, [])
  else
    let point := (← get).diagnostics.length
    let (i, n) ← item scope i
    if 0 < n then
      let diagnostics := (← get).diagnostics
      modify fun s => { s with diagnostics := diagnostics.upTo point }
      return (i, n, diagnostics.since point)
    else return (i, 0, [])

def wave (scope : ScopeId) : List Item → Analyze (List Item × Nat × Diagnostics)
  | [] => return ([], 0, [])
  | i :: rest => do
    let (i, m, deferred) ← pendingItem scope i
    let (rest, n, more) ← wave scope rest
    return (i :: rest, m + n, deferred ++ more)

/-! ## All waves -/

/-- The warning about a symbol that is never used. -/
def unusedComplaint? (globalScope : ScopeId) (s : Symbol) : Option Complaint :=
  if s.isReferenced || s.attributes.isMaybeUnused || s.scope == globalScope then none
  else
    match s.kind with
    | .variable => some (.unusedVariable s.name)
    | .parameter _ => some (.unusedParameter s.name)
    | .function => none

def reportUnused (globalScope : ScopeId) : List Symbol → Analyze Unit
  | [] => return ()
  | s :: rest => do
    match unusedComplaint? globalScope s with
    | some complaint => report s.token complaint
    | none => pure ()
    reportUnused globalScope rest

def replay (deferred : Diagnostics) : Analyze Unit :=
  modify fun s => { s with diagnostics := s.diagnostics ++ deferred }

/-- Repeats waves, the next of which has the given number.  The result is the number of the wave
without errors. -/
def waves (config : Config) (scope : ScopeId) :
    Nat → Nat → Option Nat → Diagnostics → List Item → Analyze (Except AnalysisError Nat × List Item)
  | 0, _, previous, deferred, items => do
    replay deferred
    return (.error (.nonConvergence (previous.getD 0)), items)
  | left + 1, number, previous, deferred, items => do
    let (items, errors, found) ← wave scope items
    match waveOutcome errors previous with
    | .converged =>
      if config.warnUnused then reportUnused scope (← get).scopes.symbols.toList
      return (.ok number, items)
    | .again => waves config scope left (number + 1) (some errors) found items
    | .stalled =>
      replay deferred
      return (.error (.nonConvergence errors), items)

/-- Reports a list of complaints about one token each. -/
def reportAll : List (Token × Complaint) → Analyze Unit
  | [] => return ()
  | (token, complaint) :: rest => do
    report token complaint
    reportAll rest

/-- Analyzes the items of a program, once its declarations and types are in order. -/
def program (config : Config) (p : Program) : Analyze (Except AnalysisError Nat × List Item) := do
  if !p.declarationErrors.isEmpty then
    reportAll (p.declarationErrors.map fun d => (d.previous, .duplicateDeclaration d))
    return (.error (.invalidDeclarations p.declarationErrors.length), p.items)
  else
    let s ← get
    let (resolution, types) := s.types.resolve s.scopes
    set { s with types }
    match resolution with
    | .error error =>
      reportAll (error.names.map fun name => (.synthesized, .unresolvedType name))
      return (.error (.unresolvedTypes error), p.items)
    | .ok _ => waves config p.globalScope config.maxWaves 1 none [] p.items

structure Outcome where
  /-- The number of waves. -/
  result : Except AnalysisError Nat
  program : Program
  types : TypeTable
  diagnostics : Diagnostics

end Analysis

def Program.analyze (p : Program) (config : Config) (types : TypeTable)
    (diagnostics : Diagnostics) : Analysis.Outcome :=
  let start : Analysis.State := { types, scopes := p.scopes, diagnostics }
  let ((result, items), s) := (Analysis.program config p).run start
  { result
    program := { p with items, scopes := s.scopes }
    types := s.types
    diagnostics := s.diagnostics }

end CompilerCore

import CompilerCore.Config
import CompilerCore.Lowering.ControlFlow
import CompilerCore.Lowering.Fixpoint
import CompilerCore.Lowering.Simplify
import CompilerCore.Tree.Program

/-!
# Lowering of programs

The control flow of every item is lowered until nothing changes; functions are then simplified until
nothing changes.
-/

namespace CompilerCore

/-- How many changes lowering made. -/
structure LoweringReport where
  controlFlow : Nat := 0
  simplify : Nat := 0
  deriving DecidableEq, Repr

namespace LoweringReport

def add (a b : LoweringReport) : LoweringReport :=
  ⟨a.controlFlow + b.controlFlow, a.simplify + b.simplify⟩

end LoweringReport

namespace Item

def lowerOnce (types : TypeTable) (scopes : ScopeTree) : Item → Nat × Item
  | .function f =>
    let (n, body, nextLabel) := ControlFlow.pass types scopes (f.body, f.nextLabel)
    (n, .function { f with body, nextLabel })
  | .global g =>
    let (n, statement, _) := ControlFlow.pass types scopes (g.statement, 0)
    (n, .global { g with statement })

def simplifyOnce (types : TypeTable) : Item → Nat × Item
  | .function f =>
    let (n, body) := Simplify.pass types f.body
    (n, .function { f with body })
  | .global g =>
    let (n, statement) := Simplify.pass types g.statement
    (n, .global { g with statement })

/-- Lowers an item, with at most `limit` passes of each kind. -/
def lower (types : TypeTable) (scopes : ScopeTree) (limit : Nat) : Item → LoweringReport × Item
  | .function f =>
    let (m, body, nextLabel) :=
      repeatPass (ControlFlow.pass types scopes) limit (f.body, f.nextLabel)
    let (n, body) := repeatPass (Simplify.pass types) limit body
    (⟨m, n⟩, .function { f with body, nextLabel })
  | .global g =>
    let (m, statement, _) := repeatPass (ControlFlow.pass types scopes) limit (g.statement, 0)
    (⟨m, 0⟩, .global { g with statement })

end Item

namespace Program

def lower (p : Program) (types : TypeTable) (config : Config) : LoweringReport × Program :=
  let lowered := p.items.map (·.lower types p.scopes config.maxLoweringPasses)
  (lowered.foldl (fun total l => total.add l.1) {}, { p with items := lowered.map (·.2) })

/-- Applies a pass to every item.  The result is the number of changes in each. -/
def passOnce (p : Program) (pass : Item → Nat × Item) : List Nat × Program :=
  let done := p.items.map pass
  (done.map (·.1), { p with items := done.map (·.2) })

def lowerOnce (p : Program) (types : TypeTable) : List Nat × Program :=
  p.passOnce (·.lowerOnce types p.scopes)

def simplifyOnce (p : Program) (types : TypeTable) : List Nat × Program :=
  p.passOnce (·.simplifyOnce types)

end Program

end CompilerCore

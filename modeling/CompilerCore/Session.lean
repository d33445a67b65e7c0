import CompilerCore.Analysis.Waves
import CompilerCore.Code.Program
import CompilerCore.Lowering.Program
import CompilerCore.Machine.Run
import CompilerCore.Tree.Builder

/-!
# Sessions

A session carries the type table and the diagnostics of a program from one stage to the next.
-/

namespace CompilerCore

open CompilerCore.Code
open CompilerCore.Machine

inductive CompileFailure where
  | analysis (error : AnalysisError)
  | code (error : CompileError)
  deriving DecidableEq, Repr

def CompileFailure.message : CompileFailure → String
  | analysis error => "analysis failed: " ++ error.message
  | code error => "XIL compilation failed: " ++ error.message

structure Session where
  config : Config
  types : TypeTable
  diagnostics : Diagnostics := []

namespace Session

def start (config : Config) : Session := { config, types := config.typeTable }

/-- Builds a program with the types of the session. -/
def build {α : Type} (s : Session) (source : String) (steps : Build α) : Program × Session :=
  let (_, b) := steps.run (Builder.start s.types source)
  (b.finish, { s with types := b.types })

/-- Checks the types of a program.  The result is the number of waves this took. -/
def analyze (s : Session) (p : Program) : Except AnalysisError Nat × Program × Session :=
  let outcome := p.analyze s.config s.types s.diagnostics
  (outcome.result, outcome.program,
    { s with types := outcome.types, diagnostics := outcome.diagnostics })

def lower (s : Session) (p : Program) : LoweringReport × Program := p.lower s.types s.config

/-- Analyzes and lowers a program and makes a module of it. -/
def compile (s : Session) (p : Program) : Except CompileFailure Module × Program × Session :=
  let (analysis, p, s) := s.analyze p
  match analysis with
  | .error error => (.error (.analysis error), p, s)
  | .ok _ =>
    let (_, p) := s.lower p
    match p.compile s.types "main" with
    | .error error => (.error (.code error), p, s)
    | .ok m => (.ok m, p, s)

/-- Runs an entry point on a machine of its own.  A fault is reported. -/
def execute (s : Session) (m : Module) (entry : String) (arguments : List UInt64) :
    Except Fault UInt64 × Session :=
  match ((State.start s.config.stackSize).run m s.config.maxSteps entry arguments).1 with
  | .ok value => (.ok value, s)
  | .error fault =>
    let report : Diagnostic :=
      { token := .synthesized, severity := .error, tag := "runtime-fault", message := fault.message }
    (.error fault, { s with diagnostics := s.diagnostics ++ [report] })

end Session

end CompilerCore

import CompilerCore.Code.Printer
import CompilerCore.Demo
import CompilerCore.Tree.Printer

/-!
# The command line

The program compiles one of the examples, prints it as it stands after a stage and runs it if asked
to.  Options may stand before or after the name of the example, in long or short form, and at most
once each.
-/

namespace CompilerCore

/-- The stage whose result is printed. -/
inductive Emit where
  | tree
  | lowered
  | xil
  deriving DecidableEq, Repr

def Emit.ofName? : String → Option Emit
  | "tree" => some tree
  | "lowered" => some lowered
  | "xil" => some xil
  | _ => none

structure Request where
  demo : Demo
  emit : Emit := .xil
  run : Bool := false
  maxSteps : Option Nat := none
  deriving DecidableEq, Repr

/-- Why no example is compiled. -/
inductive Refusal where
  /-- The command line asks for information on the program. -/
  | information
  | misuse
  deriving DecidableEq, Repr

namespace CommandLine

/-! ## Options -/

structure Options where
  demo : Option Demo := none
  emit : Option Emit := none
  run : Bool := false
  maxSteps : Option Nat := none
  deriving DecidableEq, Repr

inductive ValueOption where
  | emit
  | maxSteps
  deriving DecidableEq, Repr

/-- A number of 64 bits, in decimal digits after an optional plus sign. -/
def number? (text : String) : Option Nat :=
  let digits :=
    match text.toList with
    | '+' :: rest => rest
    | other => other
  if !digits.isEmpty && digits.all Char.isDigit then
    let value := digits.foldl (fun n c => 10 * n + (c.toNat - '0'.toNat)) 0
    if value < UInt64.size then some value else none
  else none

def setValue (o : Options) (option : ValueOption) (value : String) : Except Refusal Options :=
  match option with
  | .emit =>
    match o.emit, Emit.ofName? value with
    | none, some emit => .ok { o with emit := some emit }
    | _, _ => .error .misuse
  | .maxSteps =>
    match o.maxSteps, number? value with
    | none, some steps => .ok { o with maxSteps := some steps }
    | _, _ => .error .misuse

def setRun (o : Options) : Except Refusal Options :=
  if o.run then .error .misuse else .ok { o with run := true }

def setDemo (o : Options) (name : String) : Except Refusal Options :=
  match o.demo, Demo.ofName? name with
  | none, some demo => .ok { o with demo := some demo }
  | _, _ => .error .misuse

/-! ## Arguments -/

/-- Whether an argument cannot be the value of the option before it. -/
def isOption (argument : String) : Bool := argument.startsWith "-" && argument != "-"

/-- Reads short options.  The last one may wait for its value in the next argument. -/
def short (o : Options) : List Char → Except Refusal (Options × Option ValueOption)
  | [] => .ok (o, none)
  | 'r' :: rest => do short (← setRun o) rest
  | ['e'] => .ok (o, some .emit)
  | 'e' :: '=' :: value => do return (← setValue o .emit (String.ofList value), none)
  | 'e' :: value => do return (← setValue o .emit (String.ofList value), none)
  | 'h' :: _ => .error .information
  | 'V' :: _ => .error .information
  | _ => .error .misuse

/-- Reads a long option, with the value that follows an equality sign in the same argument. -/
def long (o : Options) (name : String) (value : Option String) :
    Except Refusal (Options × Option ValueOption) :=
  let valued (option : ValueOption) : Except Refusal (Options × Option ValueOption) :=
    match value with
    | some value => do return (← setValue o option value, none)
    | none => .ok (o, some option)
  match name, value with
  | "emit", _ => valued .emit
  | "max-steps", _ => valued .maxSteps
  | "run", none => do return (← setRun o, none)
  | "help", none => .error .information
  | "version", none => .error .information
  | _, _ => .error .misuse

/-- A text divided at the first equality sign. -/
def splitValue (text : List Char) : String × Option String :=
  let name := String.ofList (text.takeWhile (· != '='))
  match text.dropWhile (· != '=') with
  | _ :: value => (name, some (String.ofList value))
  | [] => (name, none)

def argument (o : Options) (text : String) : Except Refusal (Options × Option ValueOption) :=
  match text.toList with
  | '-' :: '-' :: rest =>
    let (name, value) := splitValue rest
    long o name value
  | '-' :: c :: rest => short o (c :: rest)
  | _ => do return (← setDemo o text, none)

/-- Reads arguments that are no options, whatever they look like. -/
def names (o : Options) : List String → Except Refusal Options
  | [] => .ok o
  | name :: rest => do names (← setDemo o name) rest

/-- Reads all arguments, the first of which may be the value that an option waits for. -/
def arguments (o : Options) (waiting : Option ValueOption) :
    List String → Except Refusal Options
  | [] => if waiting.isSome then .error .misuse else .ok o
  | text :: rest =>
    match waiting with
    | some option =>
      if isOption text then .error .misuse
      else do arguments (← setValue o option text) none rest
    | none =>
      if text = "--" then names o rest
      else do
        let (o, waiting) ← argument o text
        arguments o waiting rest

def parse (args : List String) : Except Refusal Request := do
  let o ← arguments {} none args
  match o.demo with
  | some demo =>
    return { demo, emit := o.emit.getD .xil, run := o.run, maxSteps := o.maxSteps }
  | none => throw .misuse

/-! ## The program -/

/-- What the program leaves behind. -/
structure Report where
  exitCode : Nat
  output : String
  /-- What goes to the error stream. -/
  errors : String
  deriving DecidableEq, Repr

def usage : String :=
  "usage: [-e|--emit <tree|lowered|xil>] [-r|--run] [--max-steps <number>] " ++
    "<factorial|scale|pair|switch>\n"

/-- The text of a call and its value. -/
def callText (d : Demo) (value : UInt64) : String :=
  d.entry ++ "([" ++ ", ".intercalate (d.arguments.map toString) ++ "]) = " ++
    toString value.toInt64.toInt ++ "\n"

/-- Compiles an example, and runs it if asked to. -/
def perform (r : Request) : Report :=
  let defaults : Config := {}
  let config := { defaults with maxSteps := r.maxSteps.getD defaults.maxSteps }
  let (p, s) := r.demo.build (Session.start config)
  let (analysis, p, s) := s.analyze p
  let complaints (s : Session) : String := s.diagnostics.render false p.sources
  match analysis with
  | .error error => ⟨1, "", complaints s ++ error.message ++ "\n"⟩
  | .ok _ =>
    let printed := if r.emit = .tree then p.print s.types false ++ "\n" else ""
    let (_, p) := s.lower p
    let printed := if r.emit = .lowered then p.print s.types false ++ "\n" else printed
    match p.compile s.types r.demo.name with
    | .error error => ⟨1, printed, error.message ++ "\n"⟩
    | .ok m =>
      let printed := if r.emit = .xil then m.print false ++ "\n" else printed
      if r.run then
        match s.execute m r.demo.entry r.demo.arguments with
        | (.ok value, s) => ⟨0, printed ++ callText r.demo value, complaints s⟩
        | (.error _, s) => ⟨1, printed, complaints s⟩
      else ⟨0, printed, complaints s⟩

def run (args : List String) : Report :=
  match parse args with
  | .ok request => perform request
  | .error .information => ⟨0, "", usage⟩
  | .error .misuse => ⟨2, "", usage⟩

end CommandLine

end CompilerCore

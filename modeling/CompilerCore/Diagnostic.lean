import CompilerCore.Source
import CompilerCore.Text.Colour

/-!
# Diagnostics

Every stage reports to a list of diagnostics.  Its length marks a position to go back to, so that a
stage can withdraw what it reported and report it again later.
-/

namespace CompilerCore

open CompilerCore.Text

inductive Severity where
  | info
  | warning
  | error
  deriving DecidableEq, Repr

namespace Severity

def name : Severity → String
  | info => "info"
  | warning => "warning"
  | error => "error"

def colour : Severity → Colour
  | info => .cyan
  | warning => .yellow
  | error => .red

end Severity

structure Diagnostic where
  token : Token
  severity : Severity
  /-- The kind of diagnostic, for programs that read it. -/
  tag : String
  message : String
  /-- Where in the compiler it was reported. -/
  backtrace : Option String := none
  deriving DecidableEq, Repr

abbrev Diagnostics := List Diagnostic

namespace Diagnostics

/-- What was reported since the list had a given length. -/
def since (ds : Diagnostics) (point : Nat) : Diagnostics := ds.drop point

/-- The list without what was reported since it had a given length. -/
def upTo (ds : Diagnostics) (point : Nat) : Diagnostics := ds.take point

def errorCount (ds : Diagnostics) : Nat := ds.countP (·.severity == .error)

def hasErrors (ds : Diagnostics) : Bool := 0 < ds.errorCount

def withTag (ds : Diagnostics) (tag : String) : Diagnostics := ds.filter (·.tag == tag)

def location (sources : Sources) (token : Token) : String :=
  match sources.get? token.source with
  | some file => file.origin.text ++ ":" ++ toString (file.row token.offset) ++ ":" ++
      toString (file.column token.offset)
  | none => "<synthesized>"

def renderOne (painting : Bool) (sources : Sources) (d : Diagnostic) : String :=
  d.severity.colour.paint painting d.severity.name ++ ": " ++ d.message ++ " " ++
    Colour.white.paint painting ("[" ++ d.tag ++ "]") ++ "\n" ++
    "  " ++ Colour.blue.paint painting "-->" ++ " " ++ location sources d.token ++ "\n" ++
    match d.backtrace with
    | some trace => "  " ++ Colour.blue.paint painting "backtrace" ++ ": " ++ trace ++ "\n"
    | none => ""

def render (painting : Bool) (sources : Sources) (ds : Diagnostics) : String :=
  String.join (ds.map (renderOne painting sources))

end Diagnostics

end CompilerCore

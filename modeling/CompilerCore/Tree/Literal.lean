import CompilerCore.Text.Decimal
import CompilerCore.Text.Quoted

/-!
# Literals
-/

namespace CompilerCore

open CompilerCore.Text

inductive Literal where
  /-- Sign or zero extended from the type of the literal. -/
  | integer (value : Int64)
  | float (value : Double)
  | bool (value : Bool)
  | text (value : String)
  | null
  deriving DecidableEq, Repr

namespace Literal

def display : Literal → String
  | integer value => toString value.toInt
  | float value => number value Decimal.plain
  | bool value => if value then "true" else "false"
  | text value => quote value
  | null => "null"

def integer? : Literal → Option Int64
  | integer value => some value
  | bool value => some (if value then 1 else 0)
  | float _ | text _ | null => none

end Literal

end CompilerCore

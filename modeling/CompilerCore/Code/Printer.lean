import CompilerCore.Code.Module
import CompilerCore.Text.Colour
import CompilerCore.Text.Decimal
import CompilerCore.Text.Quoted

/-!
# Printed code

The text of a module: its statics, then each method with its labels and numbered instructions.  When
`painting` is set, the pieces are coloured.
-/

namespace CompilerCore.Code

open CompilerCore.Text

/-- At least four digits. -/
def fourDigits (n : Nat) : String :=
  let digits := toString n
  String.ofList (List.replicate (4 - digits.length) '0') ++ digits

def Immediate.print (painting : Bool) : Immediate → String
  | integer value => Colour.magenta.paint painting (toString value.toInt)
  | float value => Colour.magenta.paint painting (number value Decimal.plain)
  | offset index => Colour.brightRed.paint painting ("@" ++ fourDigits index)

def Instruction.print (painting : Bool) (i : Instruction) : String :=
  let destination :=
    match i.destination with
    | some register => register.text ++ " " ++ Colour.white.paint painting "=" ++ " "
    | none => ""
  let type := if i.type.isVoid then "" else "." ++ i.type.text
  let operands := i.sources.map (·.text) ++ i.immediates.map (·.print painting) ++
    i.symbol.toList.map (Colour.blue.paint painting)
  let listed := ", ".intercalate operands
  let types :=
    if i.sourceTypes.isEmpty then ""
    else " " ++ Colour.white.paint painting
      ("(" ++ ", ".intercalate (i.sourceTypes.map (·.text)) ++ ")")
  destination ++ Colour.cyan.paint painting i.opcode.name ++ type ++
    (if listed.isEmpty then "" else " " ++ listed) ++ types

/-- The lines of one instruction: the labels that stand at it, and itself. -/
def Method.printLine (painting : Bool) (m : Method) (index : Nat) (i : Instruction) : String :=
  String.join ((m.labels.namesAt index).map fun label =>
    Colour.brightRed.paint painting (label ++ ":") ++ "\n") ++
    "  " ++ Colour.white.paint painting (fourDigits index) ++ "  " ++ i.print painting ++ "\n"

def Method.print (painting : Bool) (m : Method) : String :=
  Colour.magenta.paint painting "method" ++ " " ++ Colour.blue.paint painting m.name ++
    Colour.white.paint painting "(" ++ ", ".intercalate (m.parameters.map (·.text)) ++
    Colour.white.paint painting ")" ++ " " ++
    Colour.white.paint painting ("-> " ++ m.returnType.text) ++ "\n" ++
    String.join (m.instructions.toList.mapIdx (m.printLine painting))

def Static.print (painting : Bool) (s : Static) : String :=
  Colour.magenta.paint painting "static" ++ " " ++ Colour.blue.paint painting s.name ++ " " ++
    Colour.white.paint painting
      ("[" ++ toString s.size.toNat ++ " bytes at 0x" ++ hex s.offset.toNat ++ "]") ++ "\n"

def Module.print (painting : Bool) (m : Module) : String :=
  String.join (m.statics.map (·.print painting)) ++ (if m.statics.isEmpty then "" else "\n") ++
    "\n".intercalate (m.methods.toList.map (·.print painting))

end CompilerCore.Code

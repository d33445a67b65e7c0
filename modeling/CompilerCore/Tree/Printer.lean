import CompilerCore.Text.Colour
import CompilerCore.Tree.Program
import CompilerCore.Types.Display

/-!
# Printed programs

The text of a program in the source language: its variables, then its functions.  When `painting` is
set, the pieces are coloured.
-/

namespace CompilerCore.Printer

open CompilerCore.Text

/-- What printing needs to know. -/
structure Context where
  painting : Bool
  scopes : ScopeTree
  types : TypeTable

variable (c : Context)

def Context.keyword (text : String) : String := Colour.magenta.paint c.painting text

def Context.typeText (unknown : String) (type : Option TypeId) : String :=
  (type.map c.types.display).getD unknown

def declaration (symbol : SymbolId) : String :=
  let s := c.scopes.symbol symbol
  s.name ++ ": " ++ Colour.yellow.paint c.painting (c.typeText "" s.type)

mutual

def expr : Expr → String
  | .literal _ value => Colour.magenta.paint c.painting value.display
  | .name _ name _ => name
  | .binary _ op lhs rhs => "(" ++ expr lhs ++ " " ++ op.symbol ++ " " ++ expr rhs ++ ")"
  | .unary _ op operand =>
    match op with
    | .step true _ => expr operand ++ op.symbol
    | _ => op.symbol ++ expr operand
  | .conditional _ condition yes no =>
    "(" ++ expr condition ++ " ? " ++ expr yes ++ " : " ++ expr no ++ ")"
  | .member _ object member throughPointer =>
    expr object ++ (if throughPointer then "->" else ".") ++ member
  | .qualified _ scope member => scope ++ "::" ++ member
  | .call _ callee _ arguments =>
    Colour.blue.paint c.painting callee ++ "(" ++ ", ".intercalate (exprs arguments) ++ ")"
  | .index _ base index => expr base ++ "[" ++ expr index ++ "]"
  | .collection _ elements => "\x7b" ++ ", ".intercalate (exprs elements) ++ "\x7d"
  | .cast _ operand target _ =>
    "(" ++ Colour.yellow.paint c.painting (c.types.display target) ++ ")" ++ expr operand
  | .assign _ target value => expr target ++ " = " ++ expr value
  | .update _ op target value => expr target ++ " " ++ op.symbol ++ "= " ++ expr value
  | .declare _ symbol none => declaration c symbol
  | .declare _ symbol (some initializer) => declaration c symbol ++ " = " ++ expr initializer
  | .sizeOf _ type => c.keyword "sizeof" ++ "(" ++ c.types.display type ++ ")"
termination_by structural e => e

def exprs : List Expr → List String
  | [] => []
  | e :: rest => expr e :: exprs rest
termination_by structural es => es

end

def optionExpr (e : Option Expr) : String := (e.map (expr c)).getD ""

/-- Four blanks for each level. -/
def indent (depth : Nat) : String := String.ofList (List.replicate (4 * depth) ' ')

/-- The text of a statement without its last semicolons. -/
def withoutSemicolon (text : String) : String :=
  String.ofList ((text.toList.reverse.dropWhile (·.isWhitespace)).dropWhile (· = ';')).reverse

/-- The text without blanks in front. -/
def withoutIndent (text : String) : String :=
  String.ofList (text.toList.dropWhile (·.isWhitespace))

mutual

def stmt (depth : Nat) : Stmt → String
  | .expr _ e => indent depth ++ expr c e ++ ";\n"
  | .block _ _ body =>
    indent depth ++ "\x7b\n" ++ stmts (depth + 1) body ++ indent depth ++ "\x7d\n"
  | .seq _ body => stmts depth body
  | .branch _ condition yes none =>
    indent depth ++ c.keyword "if" ++ " (" ++ expr c condition ++ ")\n" ++ stmt (depth + 1) yes
  | .branch _ condition yes (some no) =>
    indent depth ++ c.keyword "if" ++ " (" ++ expr c condition ++ ")\n" ++ stmt (depth + 1) yes ++
      indent depth ++ c.keyword "else" ++ "\n" ++ stmt (depth + 1) no
  | .whileLoop _ condition body =>
    indent depth ++ c.keyword "while" ++ " (" ++ expr c condition ++ ")\n" ++ stmt (depth + 1) body
  | .doLoop _ body condition =>
    indent depth ++ c.keyword "do" ++ "\n" ++ stmt (depth + 1) body ++
      indent depth ++ c.keyword "while" ++ " (" ++ expr c condition ++ ");\n"
  | .forLoop _ none condition step body =>
    indent depth ++ c.keyword "for" ++ " (; " ++ optionExpr c condition ++ "; " ++
      optionExpr c step ++ ")\n" ++ stmt (depth + 1) body
  | .forLoop _ (some first) condition step body =>
    indent depth ++ c.keyword "for" ++ " (" ++ withoutSemicolon (stmt 0 first) ++ "; " ++
      optionExpr c condition ++ "; " ++ optionExpr c step ++ ")\n" ++ stmt (depth + 1) body
  | .breakLoop _ => indent depth ++ c.keyword "break" ++ ";\n"
  | .continueLoop _ => indent depth ++ c.keyword "continue" ++ ";\n"
  | .ret _ none => indent depth ++ c.keyword "return" ++ ";\n"
  | .ret _ (some value) => indent depth ++ c.keyword "return" ++ " " ++ expr c value ++ ";\n"
  | .goto _ label =>
    indent depth ++ c.keyword "goto" ++ " " ++ Colour.brightRed.paint c.painting label ++ ";\n"
  | .gotoAddress _ target => indent depth ++ c.keyword "goto" ++ " *" ++ expr c target ++ ";\n"
  | .label _ name => indent depth ++ Colour.brightRed.paint c.painting (name ++ ":") ++ "\n"
  | .switch _ value body _ =>
    indent depth ++ c.keyword "switch" ++ " (" ++ expr c value ++ ")\n" ++ stmt (depth + 1) body
  | .caseLabel _ value => indent depth ++ c.keyword "case" ++ " " ++ expr c value ++ ":\n"
  | .defaultLabel _ => indent depth ++ c.keyword "default" ++ ":\n"
  | .assertion _ condition _ =>
    indent depth ++ c.keyword "assert" ++ "(" ++ expr c condition ++ ");\n"
  | .asm _ code => indent depth ++ c.keyword "asm" ++ " " ++ quote code.template ++ ";\n"
  | .cleanup _ body => indent depth ++ c.keyword "finally" ++ "\n" ++ stmt (depth + 1) body
  | .empty _ => indent depth ++ ";\n"
termination_by structural s => s

def stmts (depth : Nat) : List Stmt → String
  | [] => ""
  | s :: rest => stmt depth s ++ stmts depth rest
termination_by structural ss => ss

end

def parameter (id : SymbolId) : String :=
  let s := c.scopes.symbol id
  s.name ++ ": " ++ (if s.isReferenceParameter then "&" else "") ++ c.typeText "?" s.type

def function (f : Function) : String :=
  c.keyword "fn" ++ " " ++ Colour.blue.paint c.painting f.name ++ "(" ++
    ", ".intercalate (f.parameters.map (parameter c)) ++ "): " ++ c.types.display f.returnType ++
    " " ++ withoutIndent (stmt c 0 f.body)

end CompilerCore.Printer

namespace CompilerCore

def Program.print (p : Program) (types : TypeTable) (painting : Bool) : String :=
  let c : Printer.Context := { painting, scopes := p.scopes, types }
  String.join (p.globals.map fun g => Printer.stmt c 0 g.statement) ++
    String.join (p.functions.map (Printer.function c))

def Program.printFunction? (p : Program) (types : TypeTable) (painting : Bool) (name : String) :
    Option String :=
  (p.function? name).map (Printer.function { painting, scopes := p.scopes, types })

end CompilerCore

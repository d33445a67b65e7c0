import CompilerCore.Analysis.Fold
import CompilerCore.Analysis.Template
import CompilerCore.Diagnostic
import CompilerCore.Types.Display

/-!
# Complaints

What analysis may find wrong with a program.  Each complaint has a tag, a severity and a text.
-/

namespace CompilerCore

inductive Complaint where
  -- Declarations
  | duplicateDeclaration (duplicate : DuplicateName)
  | unresolvedType (name : String)
  | missingType (name : String)
  | unusedVariable (name : String)
  | unusedParameter (name : String)
  -- Labels and jumps
  | duplicateLabel (label function : String)
  | undeclaredLabel (label : String)
  | badAddressGoto (type : TypeId)
  | breakOutside
  | continueOutside
  -- Statements
  | badCondition (type : TypeId)
  | missingReturnValue (type : TypeId)
  | returnFromVoid
  | badSwitch (type : TypeId)
  | caseOutside
  | caseNotConstant
  | caseNotInteger
  | duplicateCase (value : Int64)
  | defaultOutside
  | duplicateDefault
  | duplicateCleanup
  -- Assembly
  | badEscape (error : TemplateError)
  | unknownAsmName (name : String)
  | unknownAsmRegister (name : String)
  -- Names
  | undeclaredName (name : String)
  | undeclaredFunction (name : String)
  | undeclaredScope (name : String)
  | unknownConstant (scope member : String)
  | unknownType (name : String)
  | notFunction (name : String)
  | notRecord (throughPointer : Bool) (type : TypeId)
  | unknownMember (type : TypeId) (member : String)
  -- Types of operands
  | mismatch (expected : TypeId) (found : Option TypeId)
  | branchMismatch
  | badOperands (operator : String) (lhs rhs : TypeId)
  | badOperand (operator : String) (operand : TypeId)
  | badDereference (type : TypeId)
  | badCast (source target : TypeId)
  | badIndexBase (type : TypeId)
  | badIndex (type : TypeId)
  | indexOutOfRange (index : Int64) (length : UInt64)
  | addressOfTemporary
  | notAssignable
  | immutableTarget
  | floatEquality
  | divisionByZero (error : FoldError)
  -- Calls and collections
  | argumentCount (function : String) (expected actual : Nat)
  | badReference (type : TypeId)
  | tooManyElements (count : Nat) (type : TypeId)
  | emptyCollection
  deriving Repr

namespace Complaint

def severity : Complaint → Severity
  | unusedVariable _ | unusedParameter _ | floatEquality => .warning
  | _ => .error

def tag : Complaint → String
  | duplicateDeclaration _ => "duplicate-declaration"
  | unresolvedType _ => "unresolved-classname"
  | missingType _ => "missing-type"
  | unusedVariable _ => "unused-symbol"
  | unusedParameter _ => "unused-parameter"
  | duplicateLabel .. => "duplicate-label"
  | undeclaredLabel _ => "undeclared-label"
  | badAddressGoto _ => "invalid-computed-goto"
  | breakOutside => "break-outside-loop"
  | continueOutside => "continue-outside-loop"
  | badCondition _ => "invalid-condition"
  | missingReturnValue _ => "missing-return-value"
  | returnFromVoid => "return-mismatch"
  | badSwitch _ => "invalid-switch"
  | caseOutside => "case-outside-switch"
  | caseNotConstant | caseNotInteger => "non-constant-case"
  | duplicateCase _ => "duplicate-case"
  | defaultOutside => "default-outside-switch"
  | duplicateDefault => "duplicate-default"
  | duplicateCleanup => "duplicate-finally"
  | badEscape _ => "asm-unknown-escape"
  | unknownAsmName _ => "asm-undeclared-identifier"
  | unknownAsmRegister _ => "asm-unknown-register"
  | undeclaredName _ | undeclaredFunction _ | undeclaredScope _ => "undeclared-identifier"
  | unknownConstant .. => "unknown-constant"
  | unknownType _ => "unknown-type"
  | notFunction _ => "not-a-function"
  | notRecord .. => "not-a-struct"
  | unknownMember .. => "unknown-member"
  | mismatch .. | branchMismatch => "type-mismatch"
  | badOperands .. | badOperand .. => "invalid-operands"
  | badDereference _ => "invalid-dereference"
  | badCast .. => "invalid-cast"
  | badIndexBase _ | badIndex _ => "invalid-subscript"
  | indexOutOfRange .. => "index-out-of-range"
  | addressOfTemporary | notAssignable => "not-an-lvalue"
  | immutableTarget => "assign-to-immutable"
  | floatEquality => "float-equality"
  | divisionByZero _ => "division-by-zero"
  | argumentCount .. => "arity-mismatch"
  | badReference _ => "reference-mismatch"
  | tooManyElements .. => "too-many-elements"
  | emptyCollection => "cannot-infer"

/-- Puts a name or the text of a type between backticks. -/
def ticked (text : String) : String := "`" ++ text ++ "`"

def message (t : TypeTable) : Complaint → String
  | duplicateDeclaration duplicate => duplicate.message
  | unresolvedType name => "unresolved classname " ++ ticked name
  | missingType name => ticked name ++ " needs a type or an initializer"
  | unusedVariable name => ticked name ++ " is never used"
  | unusedParameter name => "parameter " ++ ticked name ++ " is never used"
  | duplicateLabel label function =>
    "label " ++ ticked label ++ " is declared more than once in " ++ ticked function
  | undeclaredLabel label => "label " ++ ticked label ++ " is not declared in this function"
  | badAddressGoto type =>
    "computed goto needs a `*void` operand, found " ++ ticked (t.display type)
  | breakOutside => "`break` outside of a loop or switch"
  | continueOutside => "`continue` outside of a loop"
  | badCondition type =>
    "condition must be an integer, boolean, enum or pointer, found " ++ ticked (t.display type)
  | missingReturnValue type =>
    "function returning " ++ ticked (t.display type) ++ " must return a value"
  | returnFromVoid => "`void` function returns a value"
  | badSwitch type => "switch value must be an integer, found " ++ ticked (t.display type)
  | caseOutside => "`case` outside of a switch"
  | caseNotConstant => "case value must be a constant expression"
  | caseNotInteger => "case value must be an integer constant"
  | duplicateCase value => "duplicate case value " ++ ticked (toString value.toInt)
  | defaultOutside => "`default` outside of a switch"
  | duplicateDefault => "switch already has a `default` label"
  | duplicateCleanup => "a function may declare at most one `finally` block"
  | badEscape error => error.message
  | unknownAsmName name =>
    ticked name ++ " in inline assembly is neither a symbol nor a label"
  | unknownAsmRegister name =>
    "register " ++ ticked ("%" ++ name) ++ " must be listed as preserved or ignored"
  | undeclaredName name => ticked name ++ " is not declared"
  | undeclaredFunction name => "function " ++ ticked name ++ " is not declared"
  | undeclaredScope name => ticked name ++ " is not an enum or class"
  | unknownConstant scope member => ticked scope ++ " has no constant named " ++ ticked member
  | unknownType name => "the type of " ++ ticked name ++ " is not known yet"
  | notFunction name => ticked name ++ " is not a function"
  | notRecord true type =>
    "`->` needs a pointer to a struct or union, found " ++ ticked (t.display type)
  | notRecord false type => "`.` needs a struct or union, found " ++ ticked (t.display type)
  | unknownMember type member =>
    ticked (t.display type) ++ " has no member named " ++ ticked member
  | mismatch expected found =>
    "expected " ++ ticked (t.display expected) ++ ", found " ++
      ticked ((found.map t.display).getD "<unknown>")
  | branchMismatch => "ternary branches have incompatible types"
  | badOperands operator lhs rhs =>
    "operator " ++ ticked operator ++ " cannot be applied to " ++ ticked (t.display lhs) ++
      " and " ++ ticked (t.display rhs)
  | badOperand operator operand =>
    "operator " ++ ticked operator ++ " cannot be applied to " ++ ticked (t.display operand)
  | badDereference type => "cannot dereference a value of type " ++ ticked (t.display type)
  | badCast source target =>
    "cannot cast " ++ ticked (t.display source) ++ " to " ++ ticked (t.display target)
  | badIndexBase type => "cannot index into a value of type " ++ ticked (t.display type)
  | badIndex type => "array index must be an integer, found " ++ ticked (t.display type)
  | indexOutOfRange index length =>
    "index " ++ toString index.toInt ++ " is out of range for an array of length " ++
      toString length.toNat
  | addressOfTemporary => "cannot take the address of a temporary value"
  | notAssignable => "left hand side is not assignable"
  | immutableTarget => "cannot modify an immutable value"
  | floatEquality => "comparing floating point values for equality is unreliable"
  | divisionByZero error => error.message
  | argumentCount function expected actual =>
    ticked function ++ " takes " ++ toString expected ++ " argument(s) but " ++ toString actual ++
      " were supplied"
  | badReference type => "reference parameter needs an assignable " ++ ticked (t.display type)
  | tooManyElements count type =>
    toString count ++ " elements do not fit into " ++ ticked (t.display type)
  | emptyCollection => "cannot infer the type of an empty collection"

def diagnostic (t : TypeTable) (token : Token) (c : Complaint) : Diagnostic :=
  { token, severity := c.severity, tag := c.tag, message := c.message t }

end Complaint

end CompilerCore

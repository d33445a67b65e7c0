import CompilerCore.Operator
import CompilerCore.Scope
import CompilerCore.Tree.Literal

/-!
# Expressions

Every node carries a *note*: its token and, once it has been analyzed, its type and whether it
denotes a place that has an address.
-/

namespace CompilerCore

/-- What is known about a node of an expression. -/
structure Note where
  token : Token
  type : Option TypeId := none
  isPlace : Bool := false
  deriving DecidableEq, Repr

inductive Expr where
  | literal (note : Note) (value : Literal)
  | name (note : Note) (name : String) (symbol : Option SymbolId)
  | binary (note : Note) (op : BinaryOp) (lhs rhs : Expr)
  | unary (note : Note) (op : UnaryOp) (operand : Expr)
  | conditional (note : Note) (condition yes no : Expr)
  /-- A member of a struct or union, or of the one that a pointer points to. -/
  | member (note : Note) (object : Expr) (member : String) (throughPointer : Bool)
  /-- A constant of an enum or a class. -/
  | qualified (note : Note) (scope member : String)
  | call (note : Note) (callee : String) (symbol : Option SymbolId) (arguments : List Expr)
  | index (note : Note) (base index : Expr)
  /-- The elements of an array. -/
  | collection (note : Note) (elements : List Expr)
  | cast (note : Note) (operand : Expr) (target : TypeId) (isImplicit : Bool)
  | assign (note : Note) (target value : Expr)
  /-- An assignment of the target combined with a value. -/
  | update (note : Note) (op : BinaryOp) (target value : Expr)
  | declare (note : Note) (symbol : SymbolId) (initializer : Option Expr)
  | sizeOf (note : Note) (type : TypeId)
  deriving Repr

instance : Inhabited Expr := ⟨.literal { token := .synthesized } .null⟩

namespace Expr

def note : Expr → Note
  | literal note _ | name note _ _ | binary note _ _ _ | unary note _ _ | conditional note _ _ _
  | member note _ _ _ | qualified note _ _ | call note _ _ _ | index note _ _ | collection note _
  | cast note _ _ _ | assign note _ _ | update note _ _ _ | declare note _ _ | sizeOf note _ => note

def withNote (e : Expr) (note : Note) : Expr :=
  match e with
  | literal _ value => literal note value
  | name _ text symbol => name note text symbol
  | binary _ op lhs rhs => binary note op lhs rhs
  | unary _ op operand => unary note op operand
  | conditional _ condition yes no => conditional note condition yes no
  | member _ object text throughPointer => member note object text throughPointer
  | qualified _ scope text => qualified note scope text
  | call _ callee symbol arguments => call note callee symbol arguments
  | index _ base position => index note base position
  | collection _ elements => collection note elements
  | cast _ operand target isImplicit => cast note operand target isImplicit
  | assign _ target value => assign note target value
  | update _ op target value => update note op target value
  | declare _ symbol initializer => declare note symbol initializer
  | sizeOf _ type => sizeOf note type

def token (e : Expr) : Token := e.note.token

def type? (e : Expr) : Option TypeId := e.note.type

def isPlace (e : Expr) : Bool := e.note.isPlace

def constant (value : Literal) (token : Token) (type : TypeId) : Expr :=
  literal { token, type := some type } value

def literal? : Expr → Option Literal
  | literal _ value => some value
  | _ => none

def isLiteral (e : Expr) : Bool := e.literal?.isSome

/-- The value of an integer or truth literal. -/
def integer? (e : Expr) : Option Int64 := e.literal? >>= Literal.integer?

/-! ## Walks -/

mutual

/-- Whether evaluation can be observed: it assigns, declares or calls. -/
def hasSideEffects : Expr → Bool
  | assign .. | update .. | declare .. | call .. => true
  | unary _ op operand => op.isStep || hasSideEffects operand
  | literal .. | name .. | qualified .. | sizeOf .. => false
  | binary _ _ lhs rhs => hasSideEffects lhs || hasSideEffects rhs
  | conditional _ condition yes no =>
    hasSideEffects condition || hasSideEffects yes || hasSideEffects no
  | member _ object _ _ => hasSideEffects object
  | index _ base position => hasSideEffects base || hasSideEffects position
  | collection _ elements => anySideEffects elements
  | cast _ operand _ _ => hasSideEffects operand
termination_by structural e => e

def anySideEffects : List Expr → Bool
  | [] => false
  | e :: rest => hasSideEffects e || anySideEffects rest
termination_by structural es => es

end

mutual

/-- The expression and all expressions in it, each before its parts. -/
def nodes (e : Expr) : List Expr :=
  e ::
    match e with
    | literal .. | name .. | qualified .. | sizeOf .. => []
    | binary _ _ lhs rhs => nodes lhs ++ nodes rhs
    | unary _ _ operand => nodes operand
    | conditional _ condition yes no => nodes condition ++ nodes yes ++ nodes no
    | member _ object _ _ => nodes object
    | call _ _ _ arguments => nodesOfList arguments
    | index _ base position => nodes base ++ nodes position
    | collection _ elements => nodesOfList elements
    | cast _ operand _ _ => nodes operand
    | assign _ target value => nodes target ++ nodes value
    | update _ _ target value => nodes target ++ nodes value
    | declare _ _ none => []
    | declare _ _ (some initializer) => nodes initializer
termination_by structural e

def nodesOfList : List Expr → List Expr
  | [] => []
  | e :: rest => nodes e ++ nodesOfList rest
termination_by structural es => es

end

end Expr

end CompilerCore

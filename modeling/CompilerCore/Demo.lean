import CompilerCore.Session

/-!
# Example programs

Small programs that go through every stage, each with a call and what it evaluates to.
-/

namespace CompilerCore

inductive Demo where
  /-- A factorial computed by a loop. -/
  | factorial
  /-- A multiplication by a power of two. -/
  | scale
  /-- A struct that is passed by value. -/
  | pair
  /-- A switch with a default case. -/
  | switch
  deriving DecidableEq, Repr

namespace Demo

def all : List Demo := [factorial, scale, pair, switch]

def name : Demo → String
  | factorial => "factorial"
  | scale => "scale"
  | pair => "pair"
  | switch => "switch"

def ofName? (name : String) : Option Demo := all.find? (·.name == name)

def entry : Demo → String
  | factorial => "factorial"
  | scale => "scale"
  | pair => "main"
  | switch => "classify"

def arguments : Demo → List UInt64
  | factorial => [5]
  | scale => [5]
  | pair => []
  | switch => [2]

def expected : Demo → Int64
  | factorial => 120
  | scale => 40
  | pair => 42
  | switch => 20

/-! ## The programs -/

def int (value : Int64) : Build Expr := Build.expr (.literal · (.integer value))

def ident (name : String) : Build Expr := Build.expr (.name · name none)

def binary (op : BinaryOp) (lhs rhs : Expr) : Build Expr := Build.expr (.binary · op lhs rhs)

def member (object : Expr) (name : String) : Build Expr :=
  Build.expr (.member · object name false)

def assign (target value : Expr) : Build Expr := Build.expr (.assign · target value)

def perform (e : Expr) : Build Stmt := Build.stmt (.expr · e)

def giveBack (e : Expr) : Build Stmt := Build.stmt (.ret · (some e))

/-- The body `result = 1; i = 1; while (i <= n) result *= i, i++; return result;` -/
def factorialBody : Build (List Stmt) := do
  let result ← Build.localVar "result" (some TypeId.i32) (some (← int 1))
  let counter ← Build.localVar "i" (some TypeId.i32) (some (← int 1))
  let condition ← binary (.compare .le) (← ident "i") (← ident "n")
  let body ← Build.block do
    let target ← ident "result"
    let factor ← ident "i"
    let multiply ← Build.expr (.update · (.arith .mul) target factor)
    let counter ← ident "i"
    let increment ← Build.expr (.unary · (.step true false) counter)
    return [← perform multiply, ← perform increment]
  let loop ← Build.stmt (.whileLoop · condition body)
  let ret ← giveBack (← ident "result")
  return [result, counter, loop, ret]

/-- The body `return x * 8;` -/
def scaleBody : Build (List Stmt) := do
  let product ← binary (.arith .mul) (← ident "x") (← int 8)
  return [← giveBack product]

/-- The body `return p.a + p.b;` -/
def sumBody : Build (List Stmt) := do
  let first ← member (← ident "p") "a"
  let second ← member (← ident "p") "b"
  return [← giveBack (← binary (.arith .add) first second)]

/-- The body `Pair p; p.a = 40; p.b = 2; return sum(p);` -/
def pairBody (pair : TypeId) : Build (List Stmt) := do
  let declaration ← Build.localVar "p" (some pair) none
  let first ← assign (← member (← ident "p") "a") (← int 40)
  let second ← assign (← member (← ident "p") "b") (← int 2)
  let argument ← ident "p"
  let call ← Build.expr (.call · "sum" none [argument])
  return [declaration, ← perform first, ← perform second, ← giveBack call]

/-- The statements `case value: result = outcome; break;` -/
def switchArm (value outcome : Int64) : Build (List Stmt) := do
  let value ← int value
  let label ← Build.stmt (.caseLabel · value)
  let assignment ← assign (← ident "result") (← int outcome)
  return [label, ← perform assignment, ← Build.stmt .breakLoop]

/-- A switch on `x` with cases 1 and 2, for which the results are 10 and 20, and else -1. -/
def switchBody : Build (List Stmt) := do
  let result ← Build.localVar "result" (some TypeId.i32) (some (← int 0))
  let body ← Build.block do
    let one ← switchArm 1 10
    let two ← switchArm 2 20
    let default ← Build.stmt .defaultLabel
    let assignment ← assign (← ident "result") (← int (-1))
    return one ++ two ++ [default, ← perform assignment]
  let selector ← ident "x"
  let choice ← Build.stmt (.switch · selector body none)
  let ret ← giveBack (← ident "result")
  return [result, choice, ret]

/-- A function of one number that gives a number. -/
def numeric (name parameter : String) (body : Build (List Stmt)) : Build Unit := do
  let _ ← Build.function name TypeId.i32 [{ name := parameter, type := TypeId.i32 }] body

def steps : Demo → Build Unit
  | factorial => numeric "factorial" "n" factorialBody
  | scale => numeric "scale" "x" scaleBody
  | pair => do
    let pair ← Build.record "Pair" [⟨"a", TypeId.i32⟩, ⟨"b", TypeId.i8⟩] false
    let _ ← Build.function "sum" TypeId.i32 [{ name := "p", type := pair }] sumBody
    let _ ← Build.function "main" TypeId.i32 [] (pairBody pair)
  | switch => numeric "classify" "x" switchBody

def build (d : Demo) (s : Session) : Program × Session := s.build d.name d.steps

end Demo

end CompilerCore

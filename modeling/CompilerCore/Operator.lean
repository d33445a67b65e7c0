/-!
# Operators

The operators of the source language, grouped by what they do: arithmetic on two values of one type,
the six relations, and the two short-circuit connectives.  Arithmetic operators and relations are
shared with the register code, where each is an opcode of its own.
-/

namespace CompilerCore

/-- Operations that combine two values into one of the same type. -/
inductive ArithOp where
  | add
  | sub
  | mul
  | div
  | rem
  | shl
  | shr
  | band
  | bor
  | bxor
  deriving DecidableEq, Repr

/-- What operands an arithmetic operation accepts. -/
inductive ArithClass where
  | numeric
  | shift
  | bitwise
  deriving DecidableEq, Repr

namespace ArithOp

def all : List ArithOp := [add, sub, mul, div, rem, shl, shr, band, bor, bxor]

def group : ArithOp → ArithClass
  | add | sub | mul | div | rem => .numeric
  | shl | shr => .shift
  | band | bor | bxor => .bitwise

def symbol : ArithOp → String
  | add => "+"
  | sub => "-"
  | mul => "*"
  | div => "/"
  | rem => "%"
  | shl => "<<"
  | shr => ">>"
  | band => "&"
  | bor => "|"
  | bxor => "^"

end ArithOp

/-- The six order relations. -/
inductive Relation where
  | eq
  | ne
  | lt
  | le
  | gt
  | ge
  deriving DecidableEq, Repr

namespace Relation

def all : List Relation := [eq, ne, lt, le, gt, ge]

def symbol : Relation → String
  | eq => "=="
  | ne => "!="
  | lt => "<"
  | le => "<="
  | gt => ">"
  | ge => ">="

/-- The relation that holds exactly when `r` does not, on ordered values. -/
def negate : Relation → Relation
  | eq => ne
  | ne => eq
  | lt => ge
  | le => gt
  | gt => le
  | ge => lt

/-- Whether the relation tests order and not only equality. -/
def isOrder : Relation → Bool
  | eq | ne => false
  | lt | le | gt | ge => true

/-- Whether `a` and `b` stand in the relation. -/
@[specialize] def test {α : Type} [BEq α] [LT α] [LE α] [DecidableLT α] [DecidableLE α]
    (r : Relation) (a b : α) : Bool :=
  match r with
  | eq => a == b
  | ne => a != b
  | lt => a < b
  | le => a ≤ b
  | gt => b < a
  | ge => b ≤ a

@[simp] theorem negate_negate (r : Relation) : r.negate.negate = r := by cases r <;> rfl

end Relation

inductive BinaryOp where
  | arith (op : ArithOp)
  | compare (relation : Relation)
  | and
  | or
  deriving DecidableEq, Repr

namespace BinaryOp

def all : List BinaryOp :=
  ArithOp.all.map arith ++ Relation.all.map compare ++ [and, or]

def symbol : BinaryOp → String
  | arith op => op.symbol
  | compare relation => relation.symbol
  | and => "&&"
  | or => "||"

/-- The comparison that holds exactly when this one does not; none for other operators. -/
def negated? : BinaryOp → Option BinaryOp
  | compare relation => some (compare relation.negate)
  | arith _ | and | or => none

end BinaryOp

inductive UnaryOp where
  | deref
  | address
  | not
  | complement
  | negate
  /-- Adds or subtracts one in place, giving the old value when `isPost`. -/
  | step (isPost isDecrement : Bool)
  deriving DecidableEq, Repr

namespace UnaryOp

def symbol : UnaryOp → String
  | deref => "*"
  | address => "&"
  | not => "!"
  | complement => "~"
  | negate => "-"
  | step _ false => "++"
  | step _ true => "--"

def isStep : UnaryOp → Bool
  | step .. => true
  | deref | address | not | complement | negate => false

end UnaryOp

end CompilerCore

import CompilerCore.Tree.Expr
import CompilerCore.Types.Table

/-!
# Constant folding

Operations on literals are carried out on exact integers, which are then reduced to the width of the
type, or on floating-point numbers of the width of the type.
-/

namespace CompilerCore

/-- The types whose literals can be computed with. -/
inductive Scalar where
  | integer (width : IntWidth) (isSigned : Bool)
  | float (width : FloatWidth)
  deriving DecidableEq, Repr

/-- The scalar that represents a type.  Truth values are unsigned bytes. -/
def TypeTable.scalar? (t : TypeTable) (id : TypeId) : Option Scalar :=
  match t.shape (t.underlying id) with
  | .builtin .bool => some (.integer .w8 false)
  | .builtin (.signed width) => some (.integer width true)
  | .builtin (.unsigned width) => some (.integer width false)
  | .builtin (.float width) => some (.float width)
  | _ => none

/-- A literal is divided by zero. -/
inductive FoldError where
  | divisionByZero
  deriving DecidableEq, Repr

def FoldError.message : FoldError → String
  | divisionByZero => "division by constant zero"

namespace Fold

/-! ## Reduction to a width -/

/-- The integer that the low bits of `value` stand for. -/
def reduce (width : IntWidth) (isSigned : Bool) (value : Int) : Int :=
  if isSigned then value.bmod (Nat.pow 2 (8 * width.bytes))
  else value.emod (Int.pow 2 (8 * width.bytes))

/-- The literal form of an integer of a width. -/
def wrap (width : IntWidth) (isSigned : Bool) (value : Int) : Int64 :=
  Int64.ofInt (reduce width isSigned value)

/-- A number of a width. -/
def round (width : FloatWidth) (value : Double) : Double :=
  match width with
  | .w32 => value.roundSingle
  | .w64 => value

/-- Reduces an integer to the width of its type. -/
def normalize (t : TypeTable) (type : TypeId) (value : Int64) : Int64 :=
  match t.scalar? type with
  | some (.integer width isSigned) => wrap width isSigned value.toInt
  | some (.float _) | none => value

/-! ## Values of literals -/

/-- A literal as an integer.  Floats are cut off; texts have no value. -/
def integerOf? : Literal → Option Int64
  | .integer value => some value
  | .bool value => some (if value then 1 else 0)
  | .float value => some value.toInt64
  | .null => some 0
  | .text _ => none

def floatOf? : Literal → Option Double
  | .float value => some value
  | .integer value => some (Double.ofInt64 value)
  | .bool value => some (if value then Double.one else Double.zero)
  | .text _ | .null => none

/-- Whether a literal counts as true. -/
def truth? : Literal → Option Bool
  | .float value => some !value.isZero
  | literal => (integerOf? literal).map (· != 0)

/-! ## Operations -/

/-- Integer arithmetic at a width.  The shift count is taken modulo the width. -/
def integerArith (width : IntWidth) (isSigned : Bool) (op : ArithOp) (a b : Int64) :
    Except FoldError Int64 :=
  let x := reduce width isSigned a.toInt
  let y := reduce width isSigned b.toInt
  let count := (b.toInt.emod (8 * width.bytes)).toNat
  let result (value : Int) : Except FoldError Int64 := .ok (wrap width isSigned value)
  match op with
  | .add => result (x + y)
  | .sub => result (x - y)
  | .mul => result (x * y)
  | .div => if y = 0 then .error .divisionByZero else result (x.tdiv y)
  | .rem => if y = 0 then .error .divisionByZero else result (x.tmod y)
  | .shl => result (x * Int.pow 2 count)
  | .shr => result (x.fdiv (Int.pow 2 count))
  | .band => .ok (Int64.ofInt x &&& Int64.ofInt y)
  | .bor => .ok (Int64.ofInt x ||| Int64.ofInt y)
  | .bxor => .ok (Int64.ofInt x ^^^ Int64.ofInt y)

/-- An operation on two integers of a width. -/
def integerBinary (width : IntWidth) (isSigned : Bool) (op : BinaryOp) (a b : Int64) :
    Except FoldError Literal :=
  let x := reduce width isSigned a.toInt
  let y := reduce width isSigned b.toInt
  match op with
  | .arith op => (integerArith width isSigned op a b).map .integer
  | .compare relation => .ok (.bool (relation.test x y))
  | .and => .ok (.bool (x != 0 && y != 0))
  | .or => .ok (.bool (x != 0 || y != 0))

/-- An operation on two numbers of a width; there is none on their bits. -/
def floatBinary? (width : FloatWidth) (op : BinaryOp) (a b : Double) : Option Literal :=
  let x := round width a
  let y := round width b
  let result (value : Double) : Option Literal := some (.float (round width value))
  match op with
  | .arith .add => result (x + y)
  | .arith .sub => result (x - y)
  | .arith .mul => result (x * y)
  | .arith .div => result (x / y)
  | .arith .rem => result (x % y)
  | .arith .shl | .arith .shr | .arith .band | .arith .bor | .arith .bxor => none
  | .compare relation => some (.bool (relation.test x.value y.value))
  | .and => some (.bool (!x.isZero && !y.isZero))
  | .or => some (.bool (!x.isZero || !y.isZero))

/-- A binary operation on literals of one type, when it can be computed. -/
def binary (t : TypeTable) (op : BinaryOp) (type : TypeId) (lhs rhs : Literal) :
    Except FoldError (Option Literal) :=
  match t.scalar? type with
  | some (.integer width isSigned) =>
    match integerOf? lhs, integerOf? rhs with
    | some a, some b => (integerBinary width isSigned op a b).map some
    | _, _ => .ok none
  | some (.float width) =>
    match floatOf? lhs, floatOf? rhs with
    | some a, some b => .ok (floatBinary? width op a b)
    | _, _ => .ok none
  | none => .ok none

/-- A unary operation on a literal, when it can be computed. -/
def unary? (t : TypeTable) (op : UnaryOp) (type : TypeId) (operand : Literal) : Option Literal := do
  match op, ← t.scalar? type with
  | .not, _ => return .bool (!(← truth? operand))
  | .negate, .integer .. => return .integer (normalize t type (-(← integerOf? operand)))
  | .complement, .integer .. => return .integer (normalize t type (~~~(← integerOf? operand)))
  | .negate, .float width => return .float (-round width (← floatOf? operand))
  | _, _ => none

/-- A literal cast to a pointer: zero is the null pointer. -/
def toPointer? : Literal → Option Literal
  | .null => some .null
  | .integer value => some (if value = 0 then .null else .integer value)
  | .float _ | .bool _ | .text _ => none

def cast? (t : TypeTable) (literal : Literal) (source target : TypeId) : Option Literal := do
  if t.isVoid target then none
  else if let .text _ := literal then none
  else if t.isBool target then return .bool (← truth? literal)
  else if t.isPointer target then toPointer? literal
  else
    match ← t.scalar? target with
    | .integer _ isSigned =>
      let value ← match literal with
        | .float value => some (if isSigned then value.toInt64 else value.toUInt64.toInt64)
        | _ => integerOf? literal
      return .integer (normalize t target value)
    | .float width =>
      let value ← match literal, t.scalar? source with
        | .integer value, some (.integer .w64 false) => some (Double.ofUInt64 value.toUInt64)
        | _, _ => floatOf? literal
      return .float (round width value)

/-! ## Nodes -/

/-- The literal that a node with literals for operands stands for. -/
def value (t : TypeTable) : Expr → Except FoldError (Option Literal)
  | .binary _ op lhs rhs =>
    match lhs.literal?, rhs.literal?, lhs.type? with
    | some a, some b, some type => if t.isPointer type then .ok none else binary t op type a b
    | _, _, _ => .ok none
  | .unary _ op operand =>
    match operand.literal?, operand.type? with
    | some literal, some type => .ok (unary? t op type literal)
    | _, _ => .ok none
  | .conditional _ condition yes no =>
    match condition.literal?, yes.literal?, no.literal? with
    | some condition, some yes, some no =>
      .ok (some (if (truth? condition).getD false then yes else no))
    | _, _, _ => .ok none
  | .cast _ operand target _ =>
    match operand.literal?, operand.type? with
    | some literal, some source => .ok (cast? t literal source target)
    | _, _ => .ok none
  | _ => .ok none

/-- Truth values stay truth values under arithmetic. -/
def asTruth (t : TypeTable) (type : TypeId) (literal : Literal) : Literal :=
  if t.isBool type then
    match integerOf? literal with
    | some value => .bool (value != 0)
    | none => literal
  else literal

/-- Replaces a typed node by the literal it stands for, if all operands are literals. -/
def node (t : TypeTable) (e : Expr) : Except FoldError Expr :=
  match e.type? with
  | none => .ok e
  | some type =>
    match value t e with
    | .error error => .error error
    | .ok none => .ok e
    | .ok (some literal) => .ok (Expr.constant (asTruth t type literal) e.token type)

end Fold

end CompilerCore

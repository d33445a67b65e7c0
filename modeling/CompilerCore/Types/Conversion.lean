import CompilerCore.Types.Equality

/-!
# Conversions

Which types convert to which without a cast, and which of two operand types holds more information.
-/

namespace CompilerCore.TypeTable

/-- Whether values of `source` convert to the different type `target` on their own. -/
def converts (t : TypeTable) (target source : TypeId) : Bool :=
  if t.isVoid target then true
  else if t.isBool target then t.isScalar source
  else if t.isNumeric target && t.isNumeric source then true
  else
    match t.shape target, t.shape source with
    | .pointer _, .pointer _ => t.isVoidPointer source
    | .array x m, .array y n => m < n && t.equal x y
    | _, _ => false

/-- How much a value says: wide types, pointers, arrays and floats say more, and of two integers of
one width the signed one does. -/
def information (t : TypeTable) (id : TypeId) : Int64 :=
  (t.size id).toInt64 * 4 + (if t.isPointer id then 64 else 0) + (if t.isArray id then 64 else 0) +
    (if t.isFloat id then 40 else 0) - (if t.isUnsigned id then 1 else 0)

/-- The type that both operands convert to; the left one on a tie. -/
def richer (t : TypeTable) (lhs rhs : TypeId) : TypeId :=
  if t.information lhs < t.information rhs then rhs else lhs

end CompilerCore.TypeTable

import CompilerCore.Code.Opcode
import CompilerCore.Types.Table

/-!
# Register forms of types

Scalars are held in registers.  Aggregates and functions are represented by their addresses.
-/

namespace CompilerCore.Code.OperandType

def ofPrimitive : Primitive → OperandType
  | .void => void
  | .bool => bool
  | .signed width => ⟨.signed, width.bytes⟩
  | .unsigned width => ⟨.unsigned, width.bytes⟩
  | .float width => ⟨.float, width.bytes⟩

def of (t : TypeTable) (id : TypeId) : OperandType :=
  match t.shape (t.underlying id) with
  | .builtin p => ofPrimitive p
  | .pointer _ | .function .. | .array .. | .record .. => address
  | .enum _ | .placeholder .. => void

end CompilerCore.Code.OperandType

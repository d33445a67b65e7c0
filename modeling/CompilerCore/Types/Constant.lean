import CompilerCore.Types.Table

/-!
# Named constants

The value of a constant is a number, the value of another constant, or one more than the constant in
front of it.  A chain of constants that never ends has no value.
-/

namespace CompilerCore

namespace NamedConstant

/-- The value of a constant, following at most `fuel` others. -/
def valueWithin (constants : List NamedConstant) : Nat → String → Option Int64
  | 0, _ => none
  | fuel + 1, name => do
    let position ← constants.findIdx? (·.name == name)
    match (← constants[position]?).value with
    | .literal value => some value
    | .alias target => valueWithin constants fuel target
    | .implicit =>
      match position with
      | 0 => some 0
      | before + 1 => (valueWithin constants fuel (← constants[before]?).name).map (· + 1)

end NamedConstant

namespace TypeTable

def constant? (t : TypeTable) (id : TypeId) (name : String) : Option NamedConstant :=
  (t.slot id).constants.find? (·.name == name)

def constantValue? (t : TypeTable) (id : TypeId) (name : String) : Option Int64 :=
  let constants := (t.slot id).constants
  NamedConstant.valueWithin constants constants.length name

end TypeTable

end CompilerCore

/-!
# Numbered names
-/

namespace CompilerCore.Text

/-- Names in the order in which they were first inserted. -/
structure NameTable where
  names : Array String := #[]
  deriving Repr

namespace NameTable

def find? (t : NameTable) (name : String) : Option Nat := t.names.findIdx? (· == name)

def get? (t : NameTable) (index : Nat) : Option String := t.names[index]?

/-- The number of a name, which gets the next one if it is new. -/
def insert (t : NameTable) (name : String) : Nat × NameTable :=
  match t.find? name with
  | some index => (index, t)
  | none => (t.names.size, ⟨t.names.push name⟩)

end NameTable

end CompilerCore.Text

import CompilerCore.Types.Table

/-!
# Names of types

A declared type is written by its name, any other by its structure.  A type without a name that leads
back to itself has no text.
-/

namespace CompilerCore.TypeTable

/-- The text of a type, if it ends after at most `fuel` types. -/
def displayWithin? (t : TypeTable) : Nat → TypeId → Option String
  | 0, _ => none
  | fuel + 1, id => do
    let slot := t.slot id
    let body ←
      match slot.name with
      | some name => some name
      | none =>
        match slot.shape with
        | .builtin _ => some "<builtin>"
        | .pointer pointee => pure ("*" ++ (← displayWithin? t fuel pointee))
        | .array element length =>
          pure ("[" ++ (← displayWithin? t fuel element) ++ "; " ++ toString length.toNat ++ "]")
        | .function result parameters isVariadic => do
          let listed ← parameters.mapM fun p => do
            return (if p.isReference then "&" else "") ++ (← displayWithin? t fuel p.type)
          let listed := if isVariadic then listed ++ ["..."] else listed
          pure ("fn(" ++ ", ".intercalate listed ++ ") -> " ++ (← displayWithin? t fuel result))
        | .record members isUnion => do
          let listed ← members.mapM fun m => return m.name ++ ": " ++ (← displayWithin? t fuel m.type)
          pure ((if isUnion then "union" else "struct") ++ " \x7b " ++ ", ".intercalate listed ++
            " \x7d")
        | .enum base => pure ("enum(" ++ (← displayWithin? t fuel base) ++ ")")
        | .placeholder name .. => some name
    return (if slot.isImmutable then "const " else "") ++ body

/-- The text of a type that has one: it goes through no type twice. -/
def display? (t : TypeTable) (id : TypeId) : Option String := t.displayWithin? t.slots.size id

/-- The text of a type; a type that leads back to itself is left out. -/
def display (t : TypeTable) (id : TypeId) : String := (t.display? id).getD ""

end CompilerCore.TypeTable

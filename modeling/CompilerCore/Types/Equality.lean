import CompilerCore.Types.Layout

/-!
# Equality of types

Types are compared by structure.  A pair that is met again while it is being compared is taken to be
equal, so types that contain pointers to themselves can be compared.  A placeholder equals nothing,
itself included.
-/

namespace CompilerCore.TypeTable

/-- Compares two types while the pairs in `seen` are taken to be equal.  The result holds the pairs
seen so far; there is none when the types differ. -/
def equalWithin (t : TypeTable) :
    Nat → List (TypeId × TypeId) → TypeId → TypeId → Option (List (TypeId × TypeId))
  | 0, _, _, _ => none
  | fuel + 1, seen, a, b =>
    if t.isPlaceholder a || t.isPlaceholder b then none
    else if a = b then some seen
    else if seen.contains (a, b) then some seen
    else if t.traits a ≠ t.traits b ∨ t.size a ≠ t.size b then none
    else
      let seen := (a, b) :: seen
      match t.shape a, t.shape b with
      | .builtin p, .builtin q => if p = q then some seen else none
      | .pointer x, .pointer y => equalWithin t fuel seen x y
      | .array x m, .array y n => if m = n then equalWithin t fuel seen x y else none
      | .function r ps v, .function r' ps' v' =>
        if v = v' ∧ ps.length = ps'.length then do
          let seen ← equalWithin t fuel seen r r'
          (ps.zip ps').foldlM (fun seen (p, p') =>
            if p.isReference = p'.isReference then equalWithin t fuel seen p.type p'.type
            else none) seen
        else none
      | .record ms u, .record ms' u' =>
        if u = u' ∧ ms.length = ms'.length then
          (ms.zip ms').foldlM (fun seen (m, m') =>
            if m.name = m'.name then equalWithin t fuel seen m.type m'.type else none) seen
        else none
      | .enum x, .enum y => equalWithin t fuel seen x y
      | _, _ => none

/-- Whether two types have the same structure. -/
def equal (t : TypeTable) (a b : TypeId) : Bool :=
  (t.equalWithin (t.slots.size * t.slots.size + 1) [] a b).isSome

end CompilerCore.TypeTable

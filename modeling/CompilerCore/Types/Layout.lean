import CompilerCore.Types.Table

/-!
# Sizes and offsets

Every member of a struct starts at a multiple of the alignment, in the order of declaration; the
members of a union all start at zero.  Sizes are 64-bit words.
-/

namespace CompilerCore.TypeTable

/-- The least multiple of the alignment that is not below `size`. -/
def alignUp (t : TypeTable) (size : UInt64) : UInt64 :=
  (size / t.alignment + if size % t.alignment = 0 then 0 else 1) * t.alignment

/-- The size of a type, looking at types nested at most `fuel` deep. -/
def sizeWithin (t : TypeTable) : Nat → TypeId → UInt64
  | 0, _ => 0
  | fuel + 1, id =>
    match t.shape id with
    | .builtin p => UInt64.ofNat p.size
    | .pointer _ | .function .. => t.pointerSize
    | .array element length => length * sizeWithin t fuel element
    | .record members false =>
      members.foldl (fun total m => total + t.alignUp (sizeWithin t fuel m.type)) 0
    | .record members true =>
      members.foldl (fun largest m => max largest (t.alignUp (sizeWithin t fuel m.type))) 0
    | .enum base => sizeWithin t fuel base
    | .placeholder .. => 0

def size (t : TypeTable) (id : TypeId) : UInt64 := t.sizeWithin t.slots.size id

/-- The first member of a name with its offset, when the members in front take `offset` bytes. -/
def findMember (t : TypeTable) (name : String) (offset : UInt64) :
    List Member → Option (TypeId × UInt64)
  | [] => none
  | m :: rest =>
    if m.name = name then some (m.type, offset)
    else t.findMember name (offset + t.alignUp (t.size m.type)) rest

def member? (t : TypeTable) (id : TypeId) (name : String) : Option (TypeId × UInt64) :=
  match t.shape id with
  | .record members isUnion =>
    (t.findMember name 0 members).map fun (type, offset) => (type, if isUnion then 0 else offset)
  | _ => none

end CompilerCore.TypeTable

import CompilerCore.Types.Shape

/-!
# The type table

The table holds every type of a compilation.  Pointer, array and function types are found again by
their shape, so making one twice gives the same type; a declaration always makes a new type.  An
*immutable variant* is a copy of a type whose values may not be assigned.
-/

namespace CompilerCore

/-- All types of a compilation, by number. -/
structure TypeTable where
  slots : Array TypeSlot
  /-- Types with their immutable variants. -/
  variants : List (TypeId × TypeId) := []
  alignment : UInt64
  pointerSize : UInt64
  deriving Repr

namespace TypeTable

/-- The table with only the built-in types.  The alignment is at least one. -/
def start (alignment pointerSize : UInt64) : TypeTable :=
  { slots := (Primitive.all.map fun p => { shape := .builtin p, name := some p.name }).toArray
    alignment := max alignment 1
    pointerSize }

def slot (t : TypeTable) (id : TypeId) : TypeSlot := t.slots.getD id default

def shape (t : TypeTable) (id : TypeId) : Shape := (t.slot id).shape

def isImmutable (t : TypeTable) (id : TypeId) : Bool := (t.slot id).isImmutable

def builtin? (name : String) : Option TypeId := (Primitive.ofName? name).map (·.index)

/-! ## Making types -/

def insert (t : TypeTable) (slot : TypeSlot) : TypeId × TypeTable :=
  (t.slots.size, { t with slots := t.slots.push slot })

/-- Whether a slot was made for its shape alone and still has it. -/
def isDerived (slot : TypeSlot) : Bool := slot.generation == 0 && !slot.isImmutable

/-- The type of a given shape, made if there is none yet. -/
def intern (t : TypeTable) (shape : Shape) : TypeId × TypeTable :=
  match t.slots.findIdx? fun slot => isDerived slot && slot.shape = shape with
  | some id => (id, t)
  | none => t.insert { shape }

def pointerTo (t : TypeTable) (pointee : TypeId) : TypeId × TypeTable :=
  t.intern (.pointer pointee)

def arrayOf (t : TypeTable) (element : TypeId) (length : UInt64) : TypeId × TypeTable :=
  t.intern (.array element length)

def function (t : TypeTable) (result : TypeId) (parameters : List ParameterType)
    (isVariadic : Bool) : TypeId × TypeTable :=
  t.intern (.function result parameters isVariadic)

def declareRecord (t : TypeTable) (name : Option String) (members : List Member) (isUnion : Bool)
    (scope : Option ScopeId) : TypeId × TypeTable :=
  t.insert { shape := .record members isUnion, name, scope }

def declareEnum (t : TypeTable) (name : String) (base : TypeId) (constants : List NamedConstant)
    (scope : Option ScopeId) : TypeId × TypeTable :=
  t.insert { shape := .enum base, name := some name, constants, scope }

/-- A type that is known by name only. -/
def placeholder (t : TypeTable) (name : String) (origin : Option SourceId) (scope : ScopeId) :
    TypeId × TypeTable :=
  t.insert { shape := .placeholder name origin scope, name := some name, scope := some scope }

def addConstant (t : TypeTable) (id : TypeId) (constant : NamedConstant) : TypeTable :=
  { t with
    slots := t.slots.modify id fun slot => { slot with constants := slot.constants ++ [constant] } }

def immutable (t : TypeTable) (id : TypeId) : TypeId × TypeTable :=
  if t.isImmutable id then (id, t)
  else
    match t.variants.lookup id with
    | some variant => (variant, t)
    | none =>
      let (variant, t) := t.insert { t.slot id with isImmutable := true, generation := 0 }
      (variant, { t with variants := (id, variant) :: t.variants })

/-- The type that an immutable variant was made from. -/
def unqualified (t : TypeTable) (id : TypeId) : TypeId :=
  if t.isImmutable id then
    match t.variants.find? (·.2 == id) with
    | some (base, _) => base
    | none => id
  else id

/-! ## Kinds of types -/

/-- Follows enums to the type that represents them, through at most `fuel` of them. -/
def underlyingWithin (t : TypeTable) : Nat → TypeId → TypeId
  | 0, id => id
  | fuel + 1, id =>
    match t.shape id with
    | .enum base => underlyingWithin t fuel base
    | _ => id

/-- The type that represents the values of an enum; any other type itself. -/
def underlying (t : TypeTable) (id : TypeId) : TypeId := t.underlyingWithin t.slots.size id

theorem underlying_eq_self {t : TypeTable} {id : TypeId} (h : ∀ base, t.shape id ≠ .enum base) :
    t.underlying id = id := by
  unfold underlying
  cases t.slots.size with
  | zero => rfl
  | succ =>
    unfold underlyingWithin
    split
    · next base hbase => exact absurd hbase (h base)
    · rfl

def shapeTraits (t : TypeTable) : Shape → List Trait
  | .builtin p => p.traits
  | .pointer _ => [.arithmetic, .pointer]
  | .array .. => [.array]
  | .function .. => [.function]
  | .record .. => [.members]
  | .enum base =>
    match t.shape (t.underlying base) with
    | .builtin .bool | .builtin (.unsigned _) => [.arithmetic, .integer, .unsigned]
    | _ => [.arithmetic, .integer]
  | .placeholder .. => [.placeholder]

def traits (t : TypeTable) (id : TypeId) : List Trait :=
  t.shapeTraits (t.shape id) ++ (if t.isImmutable id then [.immutable] else [])

def has (t : TypeTable) (id : TypeId) (trait : Trait) : Bool := (t.traits id).contains trait

def isVoid (t : TypeTable) (id : TypeId) : Bool := t.shape id = .builtin .void

def isBool (t : TypeTable) (id : TypeId) : Bool := t.shape id = .builtin .bool

/-- Numbers, truth values, enums and pointers. -/
def isScalar (t : TypeTable) (id : TypeId) : Bool := t.has id .arithmetic

/-- Whole numbers, truth values and enums. -/
def isInteger (t : TypeTable) (id : TypeId) : Bool := t.has id .integer

def isUnsigned (t : TypeTable) (id : TypeId) : Bool := t.has id .unsigned

def isFloat (t : TypeTable) (id : TypeId) : Bool := t.has id .floating

/-- What a branch can test: integers, truth values, enums and pointers. -/
def isTestable (t : TypeTable) (id : TypeId) : Bool := t.has id .integer || t.has id .pointer

/-- Integers, truth values, enums and floats. -/
def isNumeric (t : TypeTable) (id : TypeId) : Bool := t.has id .integer || t.has id .floating

def pointee? (t : TypeTable) (id : TypeId) : Option TypeId :=
  match t.shape id with
  | .pointer pointee => some pointee
  | _ => none

/-- The type of what a pointer or an array gives under an index. -/
def element? (t : TypeTable) (id : TypeId) : Option TypeId :=
  match t.shape id with
  | .array element _ => some element
  | .pointer pointee => some pointee
  | _ => none

def members? (t : TypeTable) (id : TypeId) : Option (List Member) :=
  match t.shape id with
  | .record members _ => some members
  | _ => none

def length (t : TypeTable) (id : TypeId) : UInt64 :=
  match t.shape id with
  | .array _ length => length
  | _ => 0

def isPointer (t : TypeTable) (id : TypeId) : Bool :=
  match t.shape id with
  | .pointer _ => true
  | _ => false

def isVoidPointer (t : TypeTable) (id : TypeId) : Bool := (t.pointee? id).any t.isVoid

def isArray (t : TypeTable) (id : TypeId) : Bool :=
  match t.shape id with
  | .array .. => true
  | _ => false

def isRecord (t : TypeTable) (id : TypeId) : Bool :=
  match t.shape id with
  | .record .. => true
  | _ => false

def isFunction (t : TypeTable) (id : TypeId) : Bool :=
  match t.shape id with
  | .function .. => true
  | _ => false

def isEnum (t : TypeTable) (id : TypeId) : Bool :=
  match t.shape id with
  | .enum _ => true
  | _ => false

def isPlaceholder (t : TypeTable) (id : TypeId) : Bool := (t.shape id).isPlaceholder

/-- Arrays, structs and unions: their values live in memory blocks. -/
def isAggregate (t : TypeTable) (id : TypeId) : Bool := t.isArray id || t.isRecord id

end TypeTable

end CompilerCore

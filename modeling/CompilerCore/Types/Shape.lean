import CompilerCore.Source
import CompilerCore.Types.Primitive

/-!
# Shapes of types

Types are numbered, and a shape names the types that it is built from by their numbers; so shapes
are not recursive, and a type may refer to itself through a pointer.
-/

namespace CompilerCore

/-- A type, by its place in the type table. -/
abbrev TypeId := Nat

/-- A scope, by its place in the scope tree. -/
abbrev ScopeId := Nat

namespace TypeId

def void : TypeId := 0
def bool : TypeId := 1
def i8 : TypeId := 2
def i32 : TypeId := 4
def i64 : TypeId := 5
def u64 : TypeId := 9
def f64 : TypeId := 11

end TypeId

structure ParameterType where
  type : TypeId
  isReference : Bool
  deriving DecidableEq, Repr

structure Member where
  name : String
  type : TypeId
  deriving DecidableEq, Repr

/-- How a type is made. -/
inductive Shape where
  | builtin (primitive : Primitive)
  | pointer (pointee : TypeId)
  | array (element : TypeId) (length : UInt64)
  | function (result : TypeId) (parameters : List ParameterType) (isVariadic : Bool)
  /-- A struct, or a union of members that all start at the same place. -/
  | record (members : List Member) (isUnion : Bool)
  | enum (base : TypeId)
  /-- A name that is looked up later, from a scope and a source file. -/
  | placeholder (name : String) (origin : Option SourceId) (scope : ScopeId)
  deriving DecidableEq, Repr

namespace Shape

/-- Whether the shape says more than size and traits. -/
def hasSignature : Shape → Bool
  | builtin _ => false
  | _ => true

def isPlaceholder : Shape → Bool
  | placeholder .. => true
  | _ => false

end Shape

/-- How the value of a named constant is given. -/
inductive ConstantValue where
  | literal (value : Int64)
  /-- The value of another constant of the same type. -/
  | alias (target : String)
  /-- One more than the constant before it, or zero. -/
  | implicit
  deriving DecidableEq, Repr

structure NamedConstant where
  name : String
  value : ConstantValue
  deriving DecidableEq, Repr

/-- What the type table holds for one type. -/
structure TypeSlot where
  shape : Shape
  name : Option String := none
  constants : List NamedConstant := []
  /-- The scope of the declaration; built-in types have none. -/
  scope : Option ScopeId := none
  isImmutable : Bool := false
  /-- How often the contents were replaced. -/
  generation : Nat := 0
  deriving DecidableEq, Repr

instance : Inhabited TypeSlot := ⟨{ shape := .builtin .void }⟩

/-- Properties that follow from the shape of a type. -/
inductive Trait where
  | void
  | arithmetic
  | integer
  | unsigned
  | pointer
  | array
  | members
  | function
  | floating
  | placeholder
  | immutable
  deriving DecidableEq, Repr

namespace Trait

def name : Trait → String
  | void => "void"
  | arithmetic => "arithmetic"
  | integer => "integer"
  | unsigned => "unsigned"
  | pointer => "pointer"
  | array => "array"
  | members => "members"
  | function => "function"
  | floating => "floating"
  | placeholder => "user-placeholder"
  | immutable => "immutable"

/-- The number of the bit that stands for the trait. -/
def position : Trait → Nat
  | void => 0
  | arithmetic => 1
  | integer => 2
  | unsigned => 3
  | pointer => 4
  | array => 5
  | members => 6
  | function => 7
  | floating => 8
  | placeholder => 9
  | immutable => 10

/-- A set of traits as a number. -/
def bits (traits : List Trait) : Nat := traits.foldr (1 <<< ·.position + ·) 0

def describe (traits : List Trait) : String :=
  "TypeTraits(" ++ " | ".intercalate (traits.map name) ++ ")"

end Trait

def Primitive.traits : Primitive → List Trait
  | void => [.void]
  | bool | unsigned _ => [.arithmetic, .integer, .unsigned]
  | signed _ => [.arithmetic, .integer]
  | float _ => [.arithmetic, .floating]

end CompilerCore

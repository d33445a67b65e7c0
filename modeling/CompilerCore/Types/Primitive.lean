/-!
# Built-in scalar types
-/

namespace CompilerCore

/-- Integers have one, two, four or eight bytes. -/
inductive IntWidth where
  | w8
  | w16
  | w32
  | w64
  deriving DecidableEq, Repr

def IntWidth.bytes : IntWidth → Nat
  | w8 => 1
  | w16 => 2
  | w32 => 4
  | w64 => 8

/-- Floating-point numbers have single or double precision. -/
inductive FloatWidth where
  | w32
  | w64
  deriving DecidableEq, Repr

def FloatWidth.bytes : FloatWidth → Nat
  | w32 => 4
  | w64 => 8

inductive Primitive where
  | void
  | bool
  | signed (width : IntWidth)
  | unsigned (width : IntWidth)
  | float (width : FloatWidth)
  deriving DecidableEq, Repr

namespace Primitive

def all : List Primitive :=
  [void, bool, signed .w8, signed .w16, signed .w32, signed .w64,
    unsigned .w8, unsigned .w16, unsigned .w32, unsigned .w64, float .w32, float .w64]

def size : Primitive → Nat
  | void => 0
  | bool => 1
  | signed width | unsigned width => width.bytes
  | float width => width.bytes

def name : Primitive → String
  | void => "void"
  | bool => "bool"
  | signed width => "i" ++ toString (width.bytes * 8)
  | unsigned width => "u" ++ toString (width.bytes * 8)
  | float width => "f" ++ toString (width.bytes * 8)

def ofName? (text : String) : Option Primitive := all.find? (·.name == text)

/-- Whether the values are whole numbers; truth values are. -/
def isInteger : Primitive → Bool
  | bool | signed _ | unsigned _ => true
  | void | float _ => false

/-- The place among the built-in types. -/
def index (p : Primitive) : Nat := all.idxOf p

end Primitive

end CompilerCore

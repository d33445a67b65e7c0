/-!
# Source positions

Every node of a program carries a *token*: the file that it came from and a byte offset.  Nodes that
the compiler makes itself have no file.  Rows and columns are counted from one, columns in bytes.
-/

namespace CompilerCore

/-- A file, by its place in the list of sources. -/
abbrev SourceId := Nat

/-- The file with a number.  Numbers have 32 bits, and the one with all bits set stands for no file. -/
def SourceId.ofNumber? (number : UInt32) : Option SourceId :=
  if number = 0xffffffff then none else some number.toNat

/-- A position in a source file, or nowhere. -/
structure Token where
  source : Option SourceId
  offset : Nat
  deriving DecidableEq, Repr

/-- The token of what the compiler makes itself. -/
def Token.synthesized : Token := ⟨none, 0⟩

/-- Where the text of a source file was found. -/
inductive Origin where
  | memory
  | file (path : String)
  deriving DecidableEq, Repr

def Origin.text : Origin → String
  | memory => "<memory>"
  | file path => path

structure SourceFile where
  contents : String
  origin : Origin
  deriving Repr

namespace SourceFile

def newline : UInt8 := 10

/-- The bytes in front of an offset; all of them when the offset is past the end. -/
def before (f : SourceFile) (offset : Nat) : List UInt8 :=
  f.contents.toUTF8.data.toList.take offset

def row (f : SourceFile) (offset : Nat) : Nat := (f.before offset).count newline + 1

def column (f : SourceFile) (offset : Nat) : Nat :=
  ((f.before offset).reverse.takeWhile (· != newline)).length + 1

end SourceFile

structure Sources where
  files : List SourceFile := []
  deriving Repr

namespace Sources

def add (s : Sources) (file : SourceFile) : Sources := ⟨s.files ++ [file]⟩

def size (s : Sources) : Nat := s.files.length

def get? (s : Sources) : Option SourceId → Option SourceFile
  | some id => s.files[id]?
  | none => none

end Sources

end CompilerCore

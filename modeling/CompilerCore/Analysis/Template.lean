/-!
# Assembly templates

In the text of an assembly block `$name` stands for a symbol or label and `%name` for a machine
register; a doubled sign stands for itself.  A sign that is followed by anything else is an error.
-/

namespace CompilerCore

inductive TemplateToken where
  | text (text : String)
  | identifier (name : String)
  | register (name : String)
  deriving DecidableEq, Repr

/-- A sign that is followed neither by itself nor by a name. -/
structure TemplateError where
  /-- The sign and the character after it. -/
  escape : String
  /-- The place of the sign, in bytes. -/
  offset : Nat
  deriving DecidableEq, Repr

def TemplateError.message (e : TemplateError) : String :=
  "unknown escape `" ++ e.escape ++ "` at template offset " ++ toString e.offset

namespace Template

/-- The two kinds of names. -/
inductive Sign where
  | identifier
  | register
  deriving DecidableEq, Repr

namespace Sign

def char : Sign → Char
  | identifier => '$'
  | register => '%'

def ofChar? (c : Char) : Option Sign :=
  if c = '$' then some identifier else if c = '%' then some register else none

def token (name : String) : Sign → TemplateToken
  | identifier => .identifier name
  | register => .register name

end Sign

def isNameStart (c : Char) : Bool := c.isAlpha || c = '_'

def isNameChar (c : Char) : Bool := c.isAlphanum || c = '_'

/-- What has been read of the current piece. -/
inductive Pending where
  | text (reversed : List Char)
  /-- A sign at a byte offset, after some text. -/
  | sign (sign : Sign) (offset : Nat) (reversed : List Char)
  | name (sign : Sign) (reversed : List Char)

/-- The text read so far, as a piece unless it is empty. -/
def textPiece (reversed : List Char) : List TemplateToken :=
  if reversed.isEmpty then [] else [.text (String.ofList reversed.reverse)]

/-- Reads one character outside a name. -/
def afterText (offset : Nat) (reversed : List Char) (c : Char) : Pending :=
  match Sign.ofChar? c with
  | some sign => .sign sign offset reversed
  | none => .text (c :: reversed)

/-- Reads the rest of a template from a byte offset on. -/
def scan : List Char → Nat → Pending → Except TemplateError (List TemplateToken)
  | [], _, .text reversed => .ok (textPiece reversed)
  | [], _, .sign sign start _ => .error ⟨String.singleton sign.char, start⟩
  | [], _, .name sign reversed => .ok [sign.token (String.ofList reversed.reverse)]
  | c :: rest, offset, .text reversed =>
    scan rest (offset + c.utf8Size) (afterText offset reversed c)
  | c :: rest, offset, .sign sign start reversed =>
    if c = sign.char then scan rest (offset + c.utf8Size) (.text (c :: reversed))
    else if isNameStart c then
      (scan rest (offset + c.utf8Size) (.name sign [c])).map (textPiece reversed ++ ·)
    else .error ⟨String.ofList [sign.char, c], start⟩
  | c :: rest, offset, .name sign reversed =>
    if isNameChar c then scan rest (offset + c.utf8Size) (.name sign (c :: reversed))
    else
      (scan rest (offset + c.utf8Size) (afterText offset [] c)).map
        (sign.token (String.ofList reversed.reverse) :: ·)

def parse (template : String) : Except TemplateError (List TemplateToken) :=
  scan template.toList 0 (.text [])

end Template

end CompilerCore

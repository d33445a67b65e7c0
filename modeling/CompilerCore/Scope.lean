import CompilerCore.Types.Shape

/-!
# Scopes and symbols

A scope gives each name at most one meaning: a symbol, a class or an enum.  A name is looked up from
the innermost scope outwards.  Internal entries are passed over when they were declared in another
source file.
-/

namespace CompilerCore

/-- A symbol, by the order of declaration. -/
abbrev SymbolId := Nat

inductive AttributeValue where
  | integer (value : Int64)
  | text (value : String)
  deriving DecidableEq, Repr

/-- What is noted about a declaration, by name. -/
abbrev Attributes := List (String × List AttributeValue)

namespace Attributes

/-- Sets an attribute, in place of an earlier one of the same name. -/
def insert (a : Attributes) (name : String) (values : List AttributeValue) : Attributes :=
  (name, values) :: a.filter (·.1 ≠ name)

def get? (a : Attributes) (name : String) : Option (List AttributeValue) := a.lookup name

def has (a : Attributes) (name : String) : Bool := (a.get? name).isSome

/-- The name of the attribute for what need not be used. -/
def maybeUnused : String := "maybe_unused"

def isMaybeUnused (a : Attributes) : Bool := a.has maybeUnused

end Attributes

inductive SymbolKind where
  | variable
  | parameter (isReference : Bool)
  | function
  deriving DecidableEq, Repr

structure Symbol where
  name : String
  kind : SymbolKind
  /-- Unknown until the declaration has been analyzed. -/
  type : Option TypeId
  token : Token
  scope : ScopeId := 0
  isInternal : Bool := false
  isImmutable : Bool := false
  attributes : Attributes := []
  isReferenced : Bool := false
  deriving Repr

instance : Inhabited Symbol :=
  ⟨{ name := "", kind := .variable, type := none, token := .synthesized }⟩

def Symbol.isReferenceParameter (s : Symbol) : Bool := s.kind = .parameter true

/-- A declared type. -/
structure TypeEntry where
  type : TypeId
  token : Token
  isInternal : Bool
  deriving DecidableEq, Repr

/-- What a name means in a scope. -/
inductive ScopeEntry where
  | symbol (id : SymbolId)
  | record (entry : TypeEntry)
  | enum (entry : TypeEntry)
  deriving DecidableEq, Repr

def ScopeEntry.type? : ScopeEntry → Option TypeId
  | symbol _ => none
  | record entry | enum entry => some entry.type

structure Scope where
  parent : Option ScopeId
  names : List (String × ScopeEntry) := []
  deriving Repr

instance : Inhabited Scope := ⟨{ parent := none }⟩

namespace Scope

/-- The symbols declared in the scope, in order. -/
def symbols (s : Scope) : List SymbolId :=
  s.names.reverse.filterMap fun (_, entry) =>
    match entry with
    | .symbol id => some id
    | .record _ | .enum _ => none

end Scope

/-- A name is declared twice in one scope. -/
structure DuplicateName where
  name : String
  /-- The first declaration. -/
  previous : Token
  deriving DecidableEq, Repr

def DuplicateName.message (d : DuplicateName) : String :=
  "`" ++ d.name ++ "` is already declared in this scope"

structure ScopeTree where
  scopes : Array Scope := #[]
  symbols : Array Symbol := #[]
  deriving Repr

namespace ScopeTree

def scope (t : ScopeTree) (id : ScopeId) : Scope := t.scopes.getD id default

def symbol (t : ScopeTree) (id : SymbolId) : Symbol := t.symbols.getD id default

def modifySymbol (t : ScopeTree) (id : SymbolId) (f : Symbol → Symbol) : ScopeTree :=
  { t with symbols := t.symbols.modify id f }

/-- Opens a scope inside another one, which may be opened later, or at the outside. -/
def pushScope (t : ScopeTree) (parent : Option ScopeId) : ScopeId × ScopeTree :=
  (t.scopes.size, { t with scopes := t.scopes.push { parent } })

/-- The first scope at the outside. -/
def root? (t : ScopeTree) : Option ScopeId := t.scopes.findIdx? (·.parent.isNone)

/-- A scope and those around it, innermost first, at most `fuel` of them. -/
def chainWithin (t : ScopeTree) : Nat → ScopeId → List ScopeId
  | 0, _ => []
  | fuel + 1, id =>
    id :: match (t.scope id).parent with
      | some parent => chainWithin t fuel parent
      | none => []

/-- A scope and those around it, innermost first.  A chain that is longer than there are scopes comes
back to a scope that it holds already. -/
def chain (t : ScopeTree) (id : ScopeId) : List ScopeId := t.chainWithin t.scopes.size id

/-! ## Declarations -/

def entryToken (t : ScopeTree) : ScopeEntry → Token
  | .symbol id => (t.symbol id).token
  | .record entry | .enum entry => entry.token

def isInternal (t : ScopeTree) : ScopeEntry → Bool
  | .symbol id => (t.symbol id).isInternal
  | .record entry | .enum entry => entry.isInternal

/-- Gives a name a meaning, without a check. -/
def bind (t : ScopeTree) (scope : ScopeId) (name : String) (entry : ScopeEntry) : ScopeTree :=
  { t with scopes := t.scopes.modify scope fun s => { s with names := (name, entry) :: s.names } }

/-- The earlier declaration of a name in a scope. -/
def duplicate? (t : ScopeTree) (scope : ScopeId) (name : String) : Option DuplicateName :=
  ((t.scope scope).names.lookup name).map fun entry => ⟨name, t.entryToken entry⟩

def declareSymbol (t : ScopeTree) (scope : ScopeId) (symbol : Symbol) :
    Except DuplicateName (SymbolId × ScopeTree) :=
  match t.duplicate? scope symbol.name with
  | some duplicate => .error duplicate
  | none =>
    let id := t.symbols.size
    let t := { t with symbols := t.symbols.push { symbol with scope } }
    .ok (id, t.bind scope symbol.name (.symbol id))

def declareType (t : ScopeTree) (scope : ScopeId) (name : String) (entry : ScopeEntry) :
    Except DuplicateName ScopeTree :=
  match t.duplicate? scope name with
  | some duplicate => .error duplicate
  | none => .ok (t.bind scope name entry)

/-! ## Look-up -/

/-- Whether an entry can be used from a source file. -/
def isVisible (t : ScopeTree) (entry : ScopeEntry) (source : Option SourceId) : Bool :=
  !t.isInternal entry || source.isNone || (t.entryToken entry).source == source

/-- The visible meaning that a scope itself gives to a name. -/
def visible? (t : ScopeTree) (name : String) (source : Option SourceId) (scope : ScopeId) :
    Option ScopeEntry :=
  ((t.scope scope).names.lookup name).filter (t.isVisible · source)

/-- The innermost visible meaning of a name. -/
def lookup? (t : ScopeTree) (scope : ScopeId) (name : String) (source : Option SourceId) :
    Option ScopeEntry :=
  (t.chain scope).findSome? (t.visible? name source)

def lookupSymbol? (t : ScopeTree) (scope : ScopeId) (name : String) (source : Option SourceId) :
    Option SymbolId :=
  match t.lookup? scope name source with
  | some (.symbol id) => some id
  | _ => none

def lookupRecord? (t : ScopeTree) (scope : ScopeId) (name : String) (source : Option SourceId) :
    Option TypeId :=
  match t.lookup? scope name source with
  | some (.record entry) => some entry.type
  | _ => none

def lookupEnum? (t : ScopeTree) (scope : ScopeId) (name : String) (source : Option SourceId) :
    Option TypeId :=
  match t.lookup? scope name source with
  | some (.enum entry) => some entry.type
  | _ => none

/-- The type that a name stands for: one at module level, or else the innermost visible meaning. -/
def resolveType? (t : ScopeTree) (scope : ScopeId) (name : String) (source : Option SourceId) :
    Option TypeId :=
  (t.root? >>= t.visible? name source >>= ScopeEntry.type?) <|>
    (t.lookup? scope name source >>= ScopeEntry.type?)

end ScopeTree

end CompilerCore

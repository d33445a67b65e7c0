import CompilerCore.Scope
import CompilerCore.Types.Table

/-!
# Resolution of placeholders

A placeholder takes over the contents of the type that its name stands for, once that type can be
laid out: no placeholder is reachable from it without a pointer.  All placeholders are tried in
turn, again and again, until none is left or a pass resolves none; so types that contain each other
by value stay unresolved.
-/

namespace CompilerCore

/-- Names of types that were never declared, or that contain themselves. -/
structure UnresolvedTypes where
  names : List String
  deriving DecidableEq, Repr

def UnresolvedTypes.message (e : UnresolvedTypes) : String :=
  "unresolved classname(s): " ++ ", ".intercalate e.names

namespace TypeTable

/-- Whether no placeholder is reachable by value, through types nested at most `fuel` deep. -/
def isCompleteWithin (t : TypeTable) : Nat → TypeId → Bool
  | 0, _ => false
  | fuel + 1, id =>
    match t.shape id with
    | .builtin _ | .pointer _ | .function .. => true
    | .array element _ => isCompleteWithin t fuel element
    | .record members _ => members.all fun m => isCompleteWithin t fuel m.type
    | .enum base => isCompleteWithin t fuel base
    | .placeholder .. => false

/-- Whether the type can be laid out. -/
def isComplete (t : TypeTable) (id : TypeId) : Bool := t.isCompleteWithin t.slots.size id

def unresolved (t : TypeTable) : List TypeId := (List.range t.slots.size).filter t.isPlaceholder

/-- Copies the contents of one type over a placeholder. -/
def adopt (t : TypeTable) (id target : TypeId) : TypeTable :=
  let source := t.slot target
  { t with
    slots := t.slots.modify id fun slot =>
      { slot with
        shape := source.shape
        name := source.name
        constants := source.constants
        generation := slot.generation + 1 } }

/-- Tries to resolve one placeholder. -/
def resolveOne? (scopes : ScopeTree) (t : TypeTable) (id : TypeId) : Option TypeTable :=
  match t.shape id with
  | .placeholder name origin scope =>
    match scopes.resolveType? scope name origin with
    | some target => if target ≠ id ∧ t.isComplete target then some (t.adopt id target) else none
    | none => none
  | _ => some t

/-- Tries every pending placeholder once and gives those that remain. -/
def resolvePass (scopes : ScopeTree) (t : TypeTable) : List TypeId → TypeTable × List TypeId
  | [] => (t, [])
  | id :: rest =>
    match t.resolveOne? scopes id with
    | some t => resolvePass scopes t rest
    | none =>
      let (t, remaining) := resolvePass scopes t rest
      (t, id :: remaining)

def placeholderNames (t : TypeTable) (ids : List TypeId) : List String :=
  ids.filterMap fun id =>
    match t.shape id with
    | .placeholder name .. => some name
    | _ => none

/-- Repeats passes over the pending placeholders and counts them. -/
def resolvePasses (scopes : ScopeTree) :
    Nat → TypeTable → List TypeId → Nat → Except UnresolvedTypes Nat × TypeTable
  | 0, t, _, passes => (.ok passes, t)
  | fuel + 1, t, pending, passes =>
    if pending.isEmpty then (.ok passes, t)
    else
      let (t, remaining) := t.resolvePass scopes pending
      if remaining.length = pending.length then (.error ⟨t.placeholderNames remaining⟩, t)
      else resolvePasses scopes fuel t remaining (passes + 1)

/-- Resolves all placeholders; the result is the number of passes. -/
def resolve (t : TypeTable) (scopes : ScopeTree) : Except UnresolvedTypes Nat × TypeTable :=
  resolvePasses scopes (t.unresolved.length + 1) t t.unresolved 0

end TypeTable

end CompilerCore

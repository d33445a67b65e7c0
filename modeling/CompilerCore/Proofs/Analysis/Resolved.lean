import CompilerCore.Proofs.Analysis.Literals

/-!
# Resolved expressions

A node is *resolved* when it has a type, its names stand for symbols whose types are known, and it
is none of the forms that analysis replaces by constants.  Arrays that are written as elements have
as many levels as the elements are nested, so each element has a place of a known type.  Members are
taken of types that have them.
-/

namespace CompilerCore

open Option

namespace ScopeTree

/-- A symbol's type is known. -/
def Knows (scopes : ScopeTree) (x : SymbolId) : Prop := (scopes.symbol x).type.isSome

instance (scopes : ScopeTree) (x : SymbolId) : Decidable (scopes.Knows x) :=
  inferInstanceAs (Decidable ((scopes.symbol x).type.isSome = true))

variable {scopes : ScopeTree} {x : SymbolId}

lemma knows_of_eq (h : (scopes.symbol x).type = some type) : scopes.Knows x := by
  rw [Knows, h]
  rfl

lemma Knows.type_ne_none (h : scopes.Knows x) : (scopes.symbol x).type ≠ none :=
  isSome_iff_ne_none.1 h

lemma Knows.mono {scopes' : ScopeTree}
    (h : ∀ x type, (scopes.symbol x).type = some type → (scopes'.symbol x).type = some type)
    (hx : scopes.Knows x) : scopes'.Knows x := by
  obtain ⟨type, htype⟩ := isSome_iff_exists.1 hx
  exact knows_of_eq (h x type htype)

/-- A symbol stands for a function. -/
def Calls (scopes : ScopeTree) (t : TypeTable) (x : SymbolId) : Prop :=
  ∃ type, (scopes.symbol x).type = some type ∧ t.isFunction type = true

lemma Calls.mono {scopes' : ScopeTree} (ht : t.Leads t')
    (h : ∀ x type, (scopes.symbol x).type = some type → (scopes'.symbol x).type = some type)
    (hx : scopes.Calls t x) : scopes'.Calls t' x := by
  obtain ⟨type, htype, hfun⟩ := hx
  exact ⟨type, h x type htype, ht.isFunction hfun⟩

end ScopeTree

namespace Expr

mutual

/-- How many collections are nested in an expression that is one. -/
def depth : Expr → Nat
  | collection _ elements => depthOfList elements + 1
  | literal .. | name .. | binary .. | unary .. | conditional .. | member .. | qualified ..
  | call .. | index .. | cast .. | assign .. | update .. | declare .. | sizeOf .. => 0
termination_by structural e => e

def depthOfList : List Expr → Nat
  | [] => 0
  | e :: rest => max (depth e) (depthOfList rest)
termination_by structural es => es

end

/-- A node with a type whose names have types as well.  Functions are called; those in `free` need no
declaration. -/
def Resolved (t : TypeTable) (scopes : ScopeTree) (free : List String) (e : Expr) : Prop :=
  e.type?.isSome ∧ match e with
    | name _ _ symbol => ∃ x ∈ symbol, scopes.Knows x
    | call _ _ (some x) _ => scopes.Calls t x
    | call _ callee none _ => callee ∈ free
    | declare _ x _ => scopes.Knows x
    | collection note _ => ∃ type ∈ note.type, t.isArray type = true
    | qualified .. | sizeOf .. => False
    | literal .. | binary .. | unary .. | conditional .. | member .. | index .. | cast ..
    | assign .. | update .. => True

/-- Elements are nested no deeper than the array that they are the elements of. -/
def Layered (t : TypeTable) : Expr → Prop
  | collection note elements => ∃ type ∈ note.type, t.Nested (depthOfList elements + 1) type
  | declare note _ initializer =>
    ∀ value ∈ initializer, ∃ type ∈ note.type, t.Nested value.depth type
  | literal .. | name .. | binary .. | unary .. | conditional .. | member .. | qualified ..
  | call .. | index .. | cast .. | assign .. | update .. | sizeOf .. => True

/-- The type whose member is taken, given the object. -/
def owner? (t : TypeTable) (object : Expr) (throughPointer : Bool) : Option TypeId :=
  if throughPointer then object.type? >>= t.pointee? else object.type?

/-- Members belong to the types that they are taken of, and an assignment has the shape of its
target. -/
def Owned (t : TypeTable) : Expr → Prop
  | member _ object text throughPointer =>
    (object.owner? t throughPointer >>= (t.member? · text)).isSome
  | assign note target _ | update note _ target _ =>
    note.type.map t.shape = target.type?.map t.shape
  | literal .. | name .. | binary .. | unary .. | conditional .. | qualified .. | call .. | index ..
  | collection .. | cast .. | declare .. | sizeOf .. => True

/-- The place that an expression changes. -/
def assigned? : Expr → Option Expr
  | assign _ target _ | update _ _ target _ | unary _ (.step ..) target => some target
  | literal .. | name .. | binary .. | unary .. | conditional .. | member .. | qualified .. | call ..
  | index .. | collection .. | cast .. | declare .. | sizeOf .. => none

/-- A name has the type of its symbol, or the immutable variant of it if the symbol is immutable. -/
def Named (t : TypeTable) (scopes : ScopeTree) : Expr → Prop
  | name note _ (some x) =>
    note.type = (scopes.symbol x).type ∧ (scopes.symbol x).isImmutable = false ∨
      ∃ type ∈ note.type, t.Qualified type
  | _ => True

/-- Nothing of an immutable type is assigned to. -/
def Spares (t : TypeTable) (e : Expr) : Prop :=
  ∀ target ∈ e.assigned?, ∀ type ∈ target.type?, t.isImmutable type = false

/-- What analysis makes of a node that it accepts. -/
structure WellTyped (t : TypeTable) (scopes : ScopeTree) (e : Expr) : Prop where
  coherent : e.Coherent t scopes
  resolved : e.Resolved t scopes []
  layered : e.Layered t
  owned : e.Owned t
  named : e.Named t scopes
  spares : e.Spares t
  exact : e.Exact t
  place : e.isPlace = false ∨ e.IsPlaceForm

variable {t t' : TypeTable} {scopes scopes' : ScopeTree} {free : List String} {e : Expr}
  {type : TypeId}

lemma Layered.nested (h : e.Layered t) (htype : e.type? = some type) : t.Nested e.depth type := by
  cases e with
  | collection =>
    obtain ⟨type', htype', hnested⟩ := h
    obtain rfl : type' = type := some.inj (htype'.symm.trans htype)
    exact hnested
  | _ => trivial

lemma depth_le_depthOfList (h : e ∈ es) : e.depth ≤ depthOfList es := by
  induction es with
  | nil => cases h
  | cons _ _ ih =>
    obtain rfl | h := List.mem_cons.1 h
    · exact le_max_left _ _
    · exact (ih h).trans (le_max_right _ _)

/-- The forms of nodes that may have any type. -/
def IsPlain : Expr → Prop
  | literal .. | binary .. | unary .. | conditional .. | member .. | index .. | cast .. | assign ..
  | update .. => True
  | name .. | qualified .. | call .. | collection .. | declare .. | sizeOf .. => False

lemma WellTyped.plain (hc : e.Coherent t scopes) (ho : e.Owned t) (hs : e.Spares t)
    (hx : e.Exact t) (htype : e.type? = some type) (hplace : e.isPlace = false ∨ e.IsPlaceForm)
    (h : e.IsPlain) : e.WellTyped t scopes := by
  have htype := isSome_of_eq_some htype
  cases e with
  | name | qualified | call | collection | declare | sizeOf => exact h.elim
  | _ => exact ⟨hc, ⟨htype, trivial⟩, trivial, ho, trivial, hs, hx, hplace⟩

/-! ## Persistence -/

lemma all_assigned (h : e.All P) (htgt : target ∈ e.assigned?) :
    target.All P := by
  cases e with
  | assign =>
    obtain rfl := some.inj htgt
    exact (all_assign.1 h).2.1
  | update =>
    obtain rfl := some.inj htgt
    exact (all_update.1 h).2.1
  | unary _ op =>
    cases op with
    | step =>
      obtain rfl := some.inj htgt
      exact (all_unary.1 h).2
    | _ => cases htgt
  | _ => cases htgt

section

variable (h : t.Leads t')
include h

lemma Resolved.leads
    (hsyms : ∀ x type, (scopes.symbol x).type = some type → (scopes'.symbol x).type = some type)
    (he : e.Resolved t scopes free) : e.Resolved t' scopes' free := by
  refine ⟨he.1, ?_⟩
  obtain ⟨-, he⟩ := he
  cases e with
  | name =>
    obtain ⟨x, hx, hknows⟩ := he
    exact ⟨x, hx, hknows.mono hsyms⟩
  | call _ _ symbol =>
    cases symbol with
    | none => exact he
    | some => exact he.mono h hsyms
  | declare => exact he.mono hsyms
  | collection =>
    obtain ⟨type, htype, harray⟩ := he
    exact ⟨type, htype, h.isArray harray⟩
  | qualified | sizeOf => exact he.elim
  | _ => trivial

lemma Layered.leads (he : e.Layered t) : e.Layered t' := by
  cases e with
  | collection =>
    obtain ⟨type, htype, hnested⟩ := he
    exact ⟨type, htype, h.nested hnested⟩
  | declare =>
    intro value hvalue
    obtain ⟨type, htype, hnested⟩ := he value hvalue
    exact ⟨type, htype, h.nested hnested⟩
  | _ => trivial

lemma owner?_leads {object : Expr} (hknown : ∀ type ∈ object.type?, type < t.slots.size) :
    object.owner? t' deref = object.owner? t deref := by
  unfold owner?
  split
  · cases htype : object.type? with
    | none => rfl
    | some type =>
      show t'.pointee? type = t.pointee? type
      rw [TypeTable.pointee?, TypeTable.pointee?, h.shape type (hknown type htype)]
  · rfl

lemma map_shape_leads {type : Option TypeId} (hknown : ∀ id ∈ type, id < t.slots.size) :
    type.map t'.shape = type.map t.shape :=
  map_congr fun id hid => h.shape id (hknown id hid)

lemma Owned.leads (hknown : e.All (Known t.slots.size)) (he : e.Owned t) : e.Owned t' := by
  cases e with
  | member _ object _ deref =>
    rw [Owned] at he
    rw [Owned, owner?_leads h (all_member.1 hknown).2.self.type]
    cases howner : object.owner? t deref with
    | none =>
      rw [howner] at he
      cases he
    | some =>
      rw [howner] at he
      exact h.member he
  | assign | update =>
    have htgt := map_shape_leads h (all_assigned hknown rfl).self.type
    exact (map_shape_leads h hknown.self.type).trans (he.trans htgt.symm)
  | _ => trivial

lemma Named.leads
    (hsyms : ∀ x type, (scopes.symbol x).type = some type → (scopes'.symbol x).type = some type)
    (hflags : ∀ x, (scopes'.symbol x).isImmutable = (scopes.symbol x).isImmutable)
    (htyped : e.type?.isSome) (he : e.Named t scopes) : e.Named t' scopes' := by
  unfold Named at he ⊢
  split at he
  · next note _ x =>
    obtain ⟨htype, hflag⟩ | ⟨type, htype, hqual⟩ := he
    · obtain ⟨type, hnote⟩ := isSome_iff_exists.1 htyped
      exact .inl ⟨hnote.trans (hsyms x type (htype ▸ hnote)).symm, (hflags x).trans hflag⟩
    · exact .inr ⟨type, htype, h.qualified hqual⟩
  · trivial

lemma Spares.leads (hknown : e.All (Known t.slots.size)) (he : e.Spares t) : e.Spares t' := by
  intro target htgt type htype
  rw [TypeTable.isImmutable, h.slot type ((all_assigned hknown htgt).self.type type htype)]
  exact he target htgt type htype

lemma WellTyped.leads (ht : t.Sound) (htyped : scopes.Typed t)
    (hsyms : ∀ x type, (scopes.symbol x).type = some type → (scopes'.symbol x).type = some type)
    (hflags : ∀ x, (scopes'.symbol x).isImmutable = (scopes.symbol x).isImmutable)
    (hknown : e.All (Known t.slots.size)) (he : e.WellTyped t scopes) : e.WellTyped t' scopes' where
  coherent := he.coherent.leads h htyped hsyms hknown
  resolved := he.resolved.leads h hsyms
  layered := he.layered.leads h
  owned := he.owned.leads h hknown
  named := he.named.leads h hsyms hflags he.resolved.1
  spares := he.spares.leads h hknown
  exact := he.exact.leads h ht hknown
  place := he.place

end

lemma wellTyped_literal {note : Note} (h : note.type = some type)
    (hplace : note.isPlace = false) : (literal note value).WellTyped t scopes :=
  .plain trivial trivial nofun trivial h (.inl hplace) trivial

end Expr

end CompilerCore

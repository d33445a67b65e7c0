import CompilerCore.Proofs.Analysis.Steps
import CompilerCore.Proofs.Tree.Nodes
import CompilerCore.Proofs.Types.Kinds

/-!
# Coherent types

An expression is *coherent* when the types of its nodes fit together as the operators demand: the
operands of an operation have the kind in which it takes place, a name has the kind of its symbol,
and a value the kind of the variable that it is assigned to.

Coherence speaks of kinds in a type table and of the types of symbols.  It persists while types are
added, provided that all types of the expression are in the table.
-/

namespace CompilerCore

/-- The kind of the type of a node; there is none as long as it has no type. -/
def Note.kind? (t : TypeTable) (note : Note) : Option Kind := note.type.map t.kind

/-- A node whose type has integers. -/
def Note.HasIntegers (t : TypeTable) (note : Note) : Prop := ∃ k ∈ note.kind? t, k.isInteger = true

lemma Note.HasIntegers.congr {note note' : Note} (h : note'.kind? t' = note.kind? t) :
    note'.HasIntegers t' ↔ note.HasIntegers t := by
  unfold Note.HasIntegers
  rw [h]

namespace Expr

def kind? (t : TypeTable) (e : Expr) : Option Kind := e.note.kind? t

def HasIntegers (t : TypeTable) (e : Expr) : Prop := ∃ k ∈ e.kind? t, k.isInteger = true

/-- The expressions that denote places. -/
def IsPlaceForm : Expr → Prop
  | name .. | unary _ .deref _ | member .. | index .. => True
  | literal .. | binary .. | unary .. | conditional .. | qualified .. | call .. | collection ..
  | cast .. | assign .. | update .. | declare .. | sizeOf .. => False

def isName : Expr → Bool
  | name .. => true
  | _ => false

/-- The type of a node fits those of its parts.  Operations on bits take place in integers. -/
def Coherent (t : TypeTable) (scopes : ScopeTree) : Expr → Prop
  | name note _ (some x) =>
    ∃ type, (scopes.symbol x).type = some type ∧ note.kind? t = some (t.kind type)
  | binary note (.arith op) lhs rhs => (lhs.HasIntegers t → rhs.HasIntegers t →
      lhs.kind? t = note.kind? t ∧ (op.group ≠ .shift → rhs.kind? t = note.kind? t)) ∧
    (op.group ≠ .numeric → note.HasIntegers t)
  | binary note (.compare _) lhs rhs =>
    lhs.kind? t = rhs.kind? t ∧ note.kind? t = some (.primitive .bool)
  | binary note .and lhs rhs | binary note .or lhs rhs =>
    lhs.kind? t = some (.primitive .bool) ∧ rhs.kind? t = some (.primitive .bool) ∧
      note.kind? t = some (.primitive .bool)
  | unary note .negate operand => operand.kind? t = note.kind? t
  | unary note .complement operand => operand.kind? t = note.kind? t ∧ note.HasIntegers t
  | unary note .not _ => note.kind? t = some (.primitive .bool)
  | conditional note _ yes no => yes.kind? t = note.kind? t ∧ no.kind? t = note.kind? t
  | cast note _ target _ => note.kind? t = some (t.kind target)
  | assign note target value => target.IsPlaceForm ∧ note.kind? t = target.kind? t ∧
    (target.isName = true → value.kind? t = target.kind? t)
  | update note op target value =>
    target.IsPlaceForm ∧ note.kind? t = target.kind? t ∧ ∃ op', op = .arith op' ∧
      (target.HasIntegers t → op'.group ≠ .shift → value.kind? t = target.kind? t) ∧
      (op'.group ≠ .numeric → note.HasIntegers t)
  | declare note x initializer =>
    (∃ type, (scopes.symbol x).type = some type ∧ note.kind? t = some (t.kind type)) ∧
      ∀ value ∈ initializer, value.kind? t = note.kind? t
  | literal .. | name _ _ none | unary _ .deref _ | unary _ .address _ | unary _ (.step ..) _
  | member .. | qualified .. | call .. | index .. | collection .. | sizeOf .. => True

/-- A node other than a declaration all of whose types are among the first `n`. -/
def Known (n : Nat) : Expr → Prop
  | cast note _ target _ => (∀ type ∈ note.type, type < n) ∧ target < n
  | declare .. => False
  | literal note _ | name note _ _ | binary note _ _ _ | unary note _ _ | conditional note _ _ _
  | member note _ _ _ | qualified note _ _ | call note _ _ _ | index note _ _ | collection note _
  | assign note _ _ | update note _ _ _ | sizeOf note _ => ∀ type ∈ note.type, type < n

instance decidableKnown (n : Nat) (e : Expr) : Decidable (e.Known n) := by
  unfold Known
  split <;> infer_instance

variable {t t' : TypeTable} {scopes scopes' : ScopeTree} {n n' : Nat} {e : Expr}

lemma Known.type (h : e.Known n) : ∀ type ∈ e.type?, type < n := by
  cases e with
  | cast => exact h.1
  | declare => exact h.elim
  | _ => exact h

lemma Known.mono (hle : n ≤ n') (h : e.Known n) : e.Known n' := by
  have hnote : ∀ type ∈ e.type?, type < n' := fun type htype => (h.type type htype).trans_le hle
  cases e with
  | cast => exact ⟨hnote, h.2.trans_le hle⟩
  | declare => exact h.elim
  | _ => exact hnote

lemma Known.withNote {note : Note} (h : e.Known n) (hnote : ∀ type ∈ note.type, type < n) :
    (e.withNote note).Known n := by
  cases e with
  | cast => exact ⟨hnote, h.2⟩
  | declare => exact h.elim
  | _ => exact hnote

lemma HasIntegers.congr {e' : Expr} (h : e'.kind? t' = e.kind? t) :
    e'.HasIntegers t' ↔ e.HasIntegers t :=
  Note.HasIntegers.congr h

end Expr

namespace Note

variable {t t' : TypeTable} {note : Note}

lemma kind?_of_leads (h : t.Leads t') (hknown : ∀ type ∈ note.type, type < t.slots.size) :
    note.kind? t' = note.kind? t := by
  unfold kind?
  cases htype : note.type with
  | none => rfl
  | some type => exact congrArg some (h.kind (hknown type htype))

end Note

/-- The types of symbols are types of a table. -/
def ScopeTree.Typed (scopes : ScopeTree) (t : TypeTable) : Prop :=
  ∀ x, ∀ type ∈ (scopes.symbol x).type, type < t.slots.size

lemma ScopeTree.typed_iff {scopes : ScopeTree} : scopes.Typed t ↔
    ∀ x < scopes.symbols.size, ∀ type ∈ (scopes.symbol x).type, type < t.slots.size := by
  refine ⟨fun h x _ => h x, fun h x type htype => ?_⟩
  by_cases hx : x < scopes.symbols.size
  · exact h x hx type htype
  · rw [symbol, Array.getD_eq_getD_getElem?, Array.getElem?_eq_none (Nat.le_of_not_lt hx)] at htype
    cases htype

instance (scopes : ScopeTree) (t : TypeTable) : Decidable (scopes.Typed t) :=
  decidable_of_iff' _ ScopeTree.typed_iff

namespace Expr

variable {t t' : TypeTable} {scopes scopes' : ScopeTree} {e : Expr}

lemma kind?_of_leads (h : t.Leads t') (hknown : e.All (Known t.slots.size)) :
    e.kind? t' = e.kind? t :=
  Note.kind?_of_leads h hknown.self.type

lemma Coherent.leads (h : t.Leads t') (htyped : scopes.Typed t)
    (hsyms : ∀ x type, (scopes.symbol x).type = some type → (scopes'.symbol x).type = some type)
    (hknown : e.All (Known t.slots.size)) (hc : e.Coherent t scopes) : e.Coherent t' scopes' := by
  have hnote : e.note.kind? t' = e.note.kind? t := Note.kind?_of_leads h hknown.self.type
  cases e with
  | name _ _ symbol =>
    cases symbol with
    | none => trivial
    | some x =>
      obtain ⟨type, htype, hkind⟩ := hc
      refine ⟨type, hsyms x type htype, ?_⟩
      rw [h.kind (htyped x type htype)]
      exact hnote.trans hkind
  | binary _ op =>
    have hkinds := hknown
    simp only [all_binary] at hkinds
    have hl := kind?_of_leads h hkinds.2.1
    have hr := kind?_of_leads h hkinds.2.2
    cases op with
    | arith =>
      refine ⟨fun hl' hr' => ?_, fun hgroup => (Note.HasIntegers.congr hnote).2 (hc.2 hgroup)⟩
      have := hc.1 ((HasIntegers.congr hl).1 hl') ((HasIntegers.congr hr).1 hr')
      rw [hl, hr]
      exact hnote ▸ this
    | compare => exact ⟨hl.trans (hc.1.trans hr.symm), hnote.trans hc.2⟩
    | and | or => exact ⟨hl.trans hc.1, hr.trans hc.2.1, hnote.trans hc.2.2⟩
  | unary _ op =>
    have hkinds := hknown
    simp only [all_unary] at hkinds
    have ho := kind?_of_leads h hkinds.2
    cases op with
    | negate => exact ho.trans (.trans hc hnote.symm)
    | complement => exact ⟨ho.trans (hc.1.trans hnote.symm), (Note.HasIntegers.congr hnote).2 hc.2⟩
    | not => exact hnote.trans hc
    | deref | address | step => trivial
  | conditional =>
    have hkinds := hknown
    simp only [all_conditional] at hkinds
    have hy := kind?_of_leads h hkinds.2.2.1
    have hn := kind?_of_leads h hkinds.2.2.2
    exact ⟨hy.trans (hc.1.trans hnote.symm), hn.trans (hc.2.trans hnote.symm)⟩
  | cast _ _ target =>
    have htgt : target < t.slots.size := hknown.self.2
    exact hnote.trans (.trans hc (congrArg some (h.kind htgt).symm))
  | assign =>
    have hkinds := hknown
    simp only [all_assign] at hkinds
    have ht := kind?_of_leads h hkinds.2.1
    have hv := kind?_of_leads h hkinds.2.2
    exact ⟨hc.1, hnote.trans (hc.2.1.trans ht.symm),
      fun hname => hv.trans ((hc.2.2 hname).trans ht.symm)⟩
  | update =>
    have hkinds := hknown
    simp only [all_update] at hkinds
    have ht := kind?_of_leads h hkinds.2.1
    have hv := kind?_of_leads h hkinds.2.2
    obtain ⟨hplace, hkind, op', rfl, hvalue, hbits⟩ := hc
    refine ⟨hplace, hnote.trans (hkind.trans ht.symm), op', rfl, fun hint hshift => ?_,
      fun hgroup => (Note.HasIntegers.congr hnote).2 (hbits hgroup)⟩
    exact hv.trans ((hvalue ((HasIntegers.congr ht).1 hint) hshift).trans ht.symm)
  | declare => exact hknown.self.elim
  | _ => trivial

end Expr

end CompilerCore

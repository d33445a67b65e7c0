import CompilerCore.Proofs.Analysis.Acceptance
import CompilerCore.Proofs.Lowering.Respects

/-!
# Lowering keeps programs well typed

Each rule of lowering puts an expression in the place of one of the same kind, and a place in that of
a place.  It may have another type only among integers, and nothing that has a member is an integer.
A well-typed node stays so when its parts are replaced in this way, hence so does a program.

The only function that lowering calls without a declaration is the one that stops the program.  An
array declared with elements is filled element by element; that each element has a place of a known
type follows from how deep the elements are nested.
-/

namespace CompilerCore

open Option TypeTable

/-- What nodes are judged by: the types, the symbols, the functions that may be called without a
declaration, and whether integer literals are kept in the range of their types. -/
structure Scene where
  types : TypeTable
  scopes : ScopeTree
  free : List String
  tidy : Prop

namespace Expr

variable {m : Scene} {t : TypeTable} {scopes : ScopeTree} {free : List String} {note : Note}

/-- A node that is well typed, apart from calls of the functions that need no declaration. -/
structure Complete (m : Scene) (e : Expr) : Prop where
  coherent : e.Coherent m.types m.scopes
  resolved : e.Resolved m.types m.scopes m.free
  layered : e.Layered m.types
  owned : e.Owned m.types
  normal : m.tidy → e.Normalized m.types

section

variable {e object object' : Expr} {text : String} {throughPointer : Bool}

lemma Resolved.mono (h : e.Resolved t scopes free) (hsub : ∀ name ∈ free, name ∈ free') :
    e.Resolved t scopes free' := by
  refine ⟨h.1, ?_⟩
  cases e with
  | call _ callee symbol =>
    cases symbol with
    | none => exact hsub callee h.2
    | some => exact h.2
  | _ => exact h.2

lemma WellTyped.complete (h : e.WellTyped m.types m.scopes) (hnorm : m.tidy → e.Normalized m.types) :
    e.Complete m :=
  ⟨h.coherent, h.resolved.mono nofun, h.layered, h.owned, hnorm⟩

lemma complete_literal (h : note.type.isSome)
    (hnorm : m.tidy → (literal note value).Normalized m.types) :
    (literal note value).All (Complete m) :=
  all_literal.2 ⟨trivial, ⟨h, trivial⟩, trivial, trivial, hnorm⟩

lemma Owned.member_of_shape (hshape : object'.type?.map t.shape = object.type?.map t.shape)
    (h : (member note object text throughPointer).Owned t) :
    (member note object' text throughPointer).Owned t := by
  rw [Owned, owner?] at h ⊢
  cases htype : object.type? with
  | none => cases throughPointer <;> simp [htype] at h
  | some type =>
    rw [htype, map_some] at hshape
    obtain ⟨type', htype', hshape'⟩ := map_eq_some_iff.1 hshape
    rw [htype] at h
    rw [htype']
    cases throughPointer with
    | true =>
      have hpointee : t.pointee? type' = t.pointee? type := by
        rw [pointee?, pointee?, hshape']
      show (t.pointee? type' >>= (t.member? · text)).isSome
      rw [hpointee]
      exact h
    | false =>
      show (t.member? type' text).isSome
      rw [isSome_member?_of_shape hshape']
      exact h

lemma Owned.not_hasIntegers (h : (member note object text throughPointer).Owned t) :
    ¬ object.HasIntegers t := by
  rintro ⟨k, hk, hint⟩
  obtain ⟨type, htype, rfl⟩ := map_eq_some_iff.1 hk
  rw [Owned, owner?, show object.type? = some type from htype] at h
  rw [kind] at hint
  cases throughPointer with
  | true =>
    have h : (t.pointee? type >>= (t.member? · text)).isSome := h
    rw [pointee?] at h
    split at h
    · next hshape =>
      rw [hshape] at hint
      cases hint
    · cases h
  | false =>
    have h : (t.member? type text).isSome := h
    rw [member?] at h
    split at h
    · next hshape =>
      rw [hshape] at hint
      cases hint
    · cases h

lemma Resolved.depth_eq_zero (h : e.Resolved t scopes free) (hint : e.HasIntegers t) :
    e.depth = 0 := by
  cases e with
  | collection note =>
    obtain ⟨type, htype, harray⟩ := h.2
    obtain ⟨k, hk, hint⟩ := hint
    obtain ⟨type', htype', rfl⟩ := map_eq_some_iff.1 hk
    obtain rfl : type = type' := some.inj (htype.symm.trans htype')
    rw [isArray] at harray
    rw [kind] at hint
    split at harray
    · next hshape =>
      rw [hshape] at hint
      cases hint
    · cases harray
  | _ => rfl

lemma IsPlaceForm.depth_eq_zero (h : e.IsPlaceForm) : e.depth = 0 := by
  cases e with
  | collection => exact h.elim
  | _ => rfl

end

/-- A complete expression that can stand for another one. -/
structure Replaces (m : Scene) (e e' : Expr) : Prop where
  kind : e'.kind? m.types = e.kind? m.types
  shape : e'.type?.map m.types.shape = e.type?.map m.types.shape ∨ e.HasIntegers m.types
  depth : e'.depth ≤ e.depth
  place : e.IsPlaceForm → e'.IsPlaceForm ∧ e'.isName = e.isName ∧ e'.type? = e.type?
  complete : e'.All (Complete m)

namespace Replaces

variable {e e' e'' : Expr} {es es' : List Expr}

lemma of_type (htype : e'.type? = e.type?) (hdepth : e'.depth ≤ e.depth)
    (hplace : e.IsPlaceForm → e'.IsPlaceForm ∧ e'.isName = e.isName)
    (h : e'.All (Complete m)) : Replaces m e e' where
  kind := congrArg (Option.map m.types.kind) htype
  shape := .inl (congrArg (Option.map m.types.shape) htype)
  depth := hdepth
  place hform := ⟨(hplace hform).1, (hplace hform).2, htype⟩
  complete := h

lemma refl (h : e.All (Complete m)) : Replaces m e e :=
  of_type rfl le_rfl (fun h => ⟨h, rfl⟩) h

lemma hasIntegers (h : Replaces m e e') : e'.HasIntegers m.types ↔ e.HasIntegers m.types :=
  HasIntegers.congr h.kind

lemma trans (h : Replaces m e e') (h' : Replaces m e' e'') : Replaces m e e'' where
  kind := h'.kind.trans h.kind
  shape := by
    obtain hshape' | hint := h'.shape
    · rw [hshape']
      exact h.shape
    · exact .inr (h.hasIntegers.1 hint)
  depth := h'.depth.trans h.depth
  place hplace := by
    obtain ⟨hplace', hname, htype⟩ := h.place hplace
    obtain ⟨hplace'', hname', htype'⟩ := h'.place hplace'
    exact ⟨hplace'', hname'.trans hname, htype'.trans htype⟩
  complete := h'.complete

lemma elems (h : List.Forall₂ (Replaces m) es es') :
    depthOfList es' ≤ depthOfList es ∧ ∀ e ∈ es', e.All (Complete m) := by
  induction h with
  | nil => exact ⟨le_rfl, nofun⟩
  | cons h _ ih => exact ⟨max_le_max h.depth ih.1, List.forall_mem_cons.2 ⟨h.complete, ih.2⟩⟩

/-- A node is replaced by the same one with replaced parts. -/
lemma withParts (h : e.Complete m) (hes : List.Forall₂ (Replaces m) e.parts es) :
    Replaces m e (e.withParts es) := by
  obtain ⟨hdepth, hcomp⟩ := elems hes
  have of_node (hnode : (e.withParts es).Complete m) (hdepth : (e.withParts es).depth ≤ e.depth)
      (hplace : e.IsPlaceForm → (e.withParts es).IsPlaceForm ∧ (e.withParts es).isName = e.isName) :
      Replaces m e (e.withParts es) := by
    refine of_type (congrArg Note.type note_withParts) hdepth hplace (all_iff.2 ⟨hnode, ?_⟩)
    rwa [parts_withParts hes.length_eq.symm]
  cases e with
  | literal | name | qualified | sizeOf => exact of_node h le_rfl fun h => ⟨h, rfl⟩
  | binary _ op =>
    obtain _ | ⟨hl, _ | ⟨hr, ⟨⟩⟩⟩ := hes
    refine of_node ⟨?_, h.resolved, trivial, trivial, fun _ => trivial⟩ le_rfl False.elim
    have hc := h.coherent
    cases op with
    | arith =>
      refine ⟨fun hil hir => ?_, hc.2⟩
      rw [hl.kind, hr.kind]
      exact hc.1 (hl.hasIntegers.1 hil) (hr.hasIntegers.1 hir)
    | compare => exact ⟨by rw [hl.kind, hr.kind, hc.1], hc.2⟩
    | and | or => exact ⟨hl.kind.trans hc.1, hr.kind.trans hc.2.1, hc.2.2⟩
  | unary _ op =>
    obtain _ | ⟨he, ⟨⟩⟩ := hes
    refine of_node ⟨?_, h.resolved, trivial, trivial, fun _ => trivial⟩ le_rfl fun hplace => ?_
    · cases op with
      | negate => exact he.kind.trans h.coherent
      | complement => exact ⟨he.kind.trans h.coherent.1, h.coherent.2⟩
      | not => exact h.coherent
      | deref | address | step => trivial
    · cases op with
      | deref => exact ⟨trivial, rfl⟩
      | _ => exact hplace.elim
  | conditional =>
    obtain _ | ⟨-, _ | ⟨hy, _ | ⟨hn, ⟨⟩⟩⟩⟩ := hes
    exact of_node ⟨⟨hy.kind.trans h.coherent.1, hn.kind.trans h.coherent.2⟩, h.resolved, trivial,
      trivial, fun _ => trivial⟩ le_rfl False.elim
  | member =>
    obtain _ | ⟨he, ⟨⟩⟩ := hes
    exact of_node ⟨trivial, h.resolved, trivial,
      h.owned.member_of_shape (he.shape.resolve_right h.owned.not_hasIntegers), fun _ => trivial⟩
      le_rfl fun _ => ⟨trivial, rfl⟩
  | call _ _ symbol =>
    refine of_node ⟨trivial, ⟨h.resolved.1, ?_⟩, trivial, trivial, fun _ => trivial⟩ le_rfl False.elim
    cases symbol <;> exact h.resolved.2
  | index =>
    obtain _ | ⟨-, _ | ⟨-, ⟨⟩⟩⟩ := hes
    exact of_node ⟨trivial, h.resolved, trivial, trivial, fun _ => trivial⟩ le_rfl fun _ =>
      ⟨trivial, rfl⟩
  | collection =>
    obtain ⟨type, htype, hnested⟩ := h.layered
    exact of_node ⟨trivial, h.resolved, ⟨type, htype, hnested.le (Nat.succ_le_succ hdepth)⟩, trivial,
      fun _ => trivial⟩ (Nat.succ_le_succ hdepth) False.elim
  | cast =>
    obtain _ | ⟨-, ⟨⟩⟩ := hes
    exact of_node ⟨h.coherent, h.resolved, trivial, trivial, fun _ => trivial⟩ le_rfl False.elim
  | assign =>
    obtain _ | ⟨hl, _ | ⟨hr, ⟨⟩⟩⟩ := hes
    obtain ⟨hplace, hnote, hvalue⟩ := h.coherent
    obtain ⟨hplace', hname, htype⟩ := hl.place hplace
    refine of_node ⟨⟨hplace', ?_, fun hisname => ?_⟩, h.resolved, trivial, ?_, fun _ => trivial⟩
      le_rfl False.elim
    · rw [hl.kind]
      exact hnote
    · rw [hl.kind, hr.kind]
      exact hvalue (hname ▸ hisname)
    · exact h.owned.trans (congrArg _ htype.symm)
  | update =>
    obtain _ | ⟨hl, _ | ⟨hr, ⟨⟩⟩⟩ := hes
    obtain ⟨hplace, hnote, op', rfl, hvalue, hbits⟩ := h.coherent
    obtain ⟨hplace', -, htype⟩ := hl.place hplace
    refine of_node ⟨⟨hplace', ?_, op', rfl, fun hint hshift => ?_, hbits⟩, h.resolved, trivial, ?_,
      fun _ => trivial⟩ le_rfl False.elim
    · rw [hl.kind]
      exact hnote
    · rw [hl.kind, hr.kind]
      exact hvalue (hl.hasIntegers.1 hint) hshift
    · exact h.owned.trans (congrArg _ htype.symm)
  | declare _ _ init =>
    cases init with
    | none => exact of_node h le_rfl False.elim
    | some e =>
      obtain _ | ⟨he, ⟨⟩⟩ := hes
      obtain ⟨type, htype, hnested⟩ := h.layered e rfl
      refine of_node ⟨⟨h.coherent.1, fun value hvalue => ?_⟩, h.resolved, fun value hvalue =>
        ⟨type, htype, ?_⟩, trivial, fun _ => trivial⟩ le_rfl False.elim
      all_goals obtain rfl := some.inj hvalue
      · exact he.kind.trans (h.coherent.2 e rfl)
      · exact hnested.le he.depth

lemma parts_of_complete (h : List.Forall₂ (fun e e' => e.All (Complete m) → Replaces m e e') es es')
    (hes : ∀ e ∈ es, e.All (Complete m)) : List.Forall₂ (Replaces m) es es' := by
  induction h with
  | nil => exact .nil
  | cons h _ ih =>
    rw [List.forall_mem_cons] at hes
    exact .cons (h hes.1) (ih hes.2)

/-- A walk replaces a complete expression if it finishes its nodes so. -/
lemma of_walks {exprs : List Expr → StateM σ (List Expr)} (hw : Walks finish expr exprs)
    (hfin : ∀ e st, e.All (Complete m) → Replaces m e (finish e st).1) (h : e.All (Complete m))
    (st : σ) : Replaces m e (expr e st).1 := by
  refine hw.relates (R := fun e e' => e.All (Complete m) → Replaces m e e')
    (fun e es hes st h => ?_) e st h
  obtain ⟨hnode, hparts⟩ := all_iff.1 h
  have hreplaced := withParts hnode (parts_of_complete hes hparts)
  exact hreplaced.trans (hfin _ st hreplaced.complete)

end Replaces

end Expr

open CompilerCore.Expr

/-! ## Control flow -/

namespace ControlFlow

variable {m : Scene}

lemma expandUpdate_replaces {note : Note} {op : BinaryOp} {target value : Expr}
    (h : (Expr.update note op target value).All (Complete m)) :
    Replaces m (.update note op target value) (expandUpdate note op target value) := by
  obtain ⟨⟨⟨hplace, hnote, op', rfl, hvalue, hbits⟩, hresolved, -, howned, -⟩, htgt, hv⟩ :=
    all_update.1 h
  have hbinary : (Expr.binary { note with isPlace := false } (.arith op') target value).Coherent m.types
      m.scopes :=
    ⟨fun hint _ => ⟨hnote.symm, fun hshift => (hvalue hint hshift).trans hnote.symm⟩, hbits⟩
  exact .of_type rfl le_rfl False.elim (all_assign.2
    ⟨⟨⟨hplace, hnote, fun _ => hnote⟩, hresolved, trivial, howned, fun _ => trivial⟩, htgt,
      all_binary.2 ⟨⟨hbinary, hresolved, trivial, trivial, fun _ => trivial⟩, htgt, hv⟩⟩)

lemma expr_replaces (e : Expr) (h : e.All (Complete m)) (st : State) :
    Replaces m e (expr e st).1 := by
  refine .of_walks expr_walks (fun e st h => ?_) h st
  cases e with
  | update => exact expandUpdate_replaces h
  | _ => exact .refl h

/-! ### Array declarations -/

/-- Whether a value can be assigned to a place.  A value in parts is assigned to those of the place, so
the place may be a variable then. -/
structure Fits (m : Scene) (slot e : Expr) : Prop where
  target : slot.All (Complete m)
  value : e.All (Complete m)
  place : (∀ note es, e ≠ .collection note es) → slot.IsPlaceForm ∧ slot.isName = false
  receives : ∃ type, slot.type? = some type ∧ m.types.Nested e.depth type

lemma Fits.element (ht : m.types.Sound) {note : Note} (h : Fits m array (.collection note es))
    (he : e ∈ es) (position : Nat) : Fits m (element m.types array position) e := by
  obtain ⟨type, htype, hnested⟩ := h.receives
  obtain ⟨elementType, helem, hinner⟩ := hnested.element
  have htyped : (array.type? >>= m.types.element?) = some elementType := by
    rw [htype]
    exact helem
  exact ⟨all_index.2 ⟨⟨trivial, ⟨isSome_of_eq_some htyped, trivial⟩, trivial, trivial,
      fun _ => trivial⟩, h.target, complete_literal rfl fun _ _ htype => some.inj htype ▸
        (ht.ranges_signed (Scalar.holds_word true _)).normalize⟩,
    (all_collection.1 h.value).2 e he, fun _ => ⟨trivial, rfl⟩,
    elementType, htyped, hinner.le (depth_le_depthOfList he)⟩

section Statements

variable {result : TypeId} {R : Expr → Prop}

lemma expandDeclaration_complete (ht : m.types.Sound) (hc : c.types = m.types) {note : Note}
    (h : (Expr.declare note x (some (.collection collected elems))).All (Complete m)) :
    ∀ n ∈ (expandDeclaration c note x elems st).1, n.All (Stmt.Holds (Complete m) R) := by
  obtain ⟨⟨⟨hsym, -⟩, ⟨htyped, hknows⟩, hlayered, -, -⟩, hvalue⟩ := all_declare.1 h
  have harray : (Expr.name { note with isPlace := true } (c.scopes.symbol x).name (some x)).All
      (Complete m) :=
    all_name.2 ⟨hsym, ⟨htyped, x, rfl, hknows⟩, trivial, trivial, fun _ => trivial⟩
  refine List.forall_mem_cons.2 ⟨Stmt.all_expr.2 (all_declare.2
    ⟨⟨⟨hsym, nofun⟩, ⟨htyped, hknows⟩, nofun, trivial, fun _ => trivial⟩, nofun⟩), ?_⟩
  refine forall_mem_expandElement (R := Fits m)
    (e := .collection collected elems) (fun _ _ _ h _ he position => hc ▸ h.element ht he position)
    (fun slot e st h hsingle => ?_)
    ⟨harray, hvalue _ rfl, fun hsingle => absurd rfl (hsingle _ _), hlayered _ rfl⟩ st
  obtain ⟨hplace, hname⟩ := h.place hsingle
  obtain ⟨type, htype, -⟩ := h.receives
  refine Stmt.all_expr.2 (all_assign.2 ⟨⟨⟨hplace, rfl, fun h => ?_⟩,
    ⟨isSome_of_eq_some htype, trivial⟩, trivial, rfl, fun _ => trivial⟩, h.target,
    (expr_replaces e h.value st).complete⟩)
  rw [hname] at h
  cases h

lemma complete_respects (ht : m.types.Sound) (hfree : abortName ∈ m.free) :
    Respects m.types m.scopes (Complete m) fun e => e.kind? m.types = some (m.types.kind result) where
  expr e st h := (expr_replaces e h st).complete
  result e st h hkind := (expr_replaces e h st).kind.trans hkind
  negation _ _ := ⟨congrArg some ht.bool, ⟨rfl, trivial⟩, trivial, trivial, fun _ => trivial⟩
  always _ := ⟨trivial, ⟨rfl, trivial⟩, trivial, trivial, fun _ => trivial⟩
  abort _ := ⟨trivial, ⟨rfl, hfree⟩, trivial, trivial, fun _ => trivial⟩
  declaration _ _ _ _ _ _ hc _ h := expandDeclaration_complete ht hc.1 h

end Statements

end ControlFlow

end CompilerCore

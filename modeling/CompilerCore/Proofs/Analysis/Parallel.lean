import CompilerCore.Proofs.Analysis.Likeness
import CompilerCore.Proofs.Analysis.Typing

/-!
# Two analyses side by side

Two analyses of one program that start with the same types may number the types differently that they
make on the way, and may know the types of different symbols.  As long as they agree about the symbols
that a piece of the program names, they do the same to it: the expressions they leave are alike, and
they count the same errors.
-/

namespace CompilerCore

/-- A symbol but for what analysis changes. -/
def Symbol.bare (s : Symbol) : Symbol := { s with type := none, isReferenced := false }

namespace ScopeTree

/-- Scopes after the types of some symbols have been found out. -/
structure Informs (before after : ScopeTree) : Prop where
  scopes : after.scopes = before.scopes
  size : after.symbols.size = before.symbols.size
  bare : ∀ x, (after.symbol x).bare = (before.symbol x).bare
  type : ∀ x type, (before.symbol x).type = some type → (after.symbol x).type = some type

variable {scopes scopes' : ScopeTree} {id x : SymbolId}

lemma symbol_modifySymbol : (scopes.modifySymbol id f).symbol x =
      if x = id ∧ id < scopes.symbols.size then f (scopes.symbol x) else scopes.symbol x := by
  unfold symbol modifySymbol
  simp only [Array.getD_eq_getD_getElem?, Array.getElem?_modify]
  by_cases hx : x = id
  · subst hx
    by_cases hlt : x < scopes.symbols.size
    · simp [hlt]
    · simp [hlt]
  · simp [hx, Ne.symm hx]

namespace Informs

lemma refl (scopes : ScopeTree) : scopes.Informs scopes := ⟨rfl, rfl, fun _ => rfl, fun _ _ => id⟩

section

variable (h : scopes.Informs scopes')
include h

lemma field (f : Symbol → β) (hf : ∀ s, f s.bare = f s) (x : SymbolId) :
    f (scopes'.symbol x) = f (scopes.symbol x) := by
  rw [← hf, h.bare, hf]

lemma lookup? (scope : ScopeId) (name : String) (source : Option SourceId) :
    scopes'.lookup? scope name source = scopes.lookup? scope name source := by
  have hscope (id : ScopeId) : scopes'.scope id = scopes.scope id := by
    rw [ScopeTree.scope, ScopeTree.scope, h.scopes]
  have hchain (fuel : Nat) (id : ScopeId) :
      scopes'.chainWithin fuel id = scopes.chainWithin fuel id := by
    induction fuel generalizing id with
    | zero => rfl
    | succ _ ih =>
      rw [chainWithin, chainWithin, hscope]
      simp only [ih]
  -- Whether an entry is visible depends on nothing that analysis changes.
  have hvisible (entry : ScopeEntry) : scopes'.isVisible entry source = scopes.isVisible entry source := by
    cases entry with
    | symbol =>
      rw [isVisible, isVisible, isInternal, isInternal, entryToken, entryToken,
        h.field Symbol.isInternal (fun _ => rfl), h.field Symbol.token fun _ => rfl]
    | record | enum => rfl
  unfold ScopeTree.lookup? chain visible?
  rw [h.scopes, hchain]
  simp only [hscope, hvisible]

lemma lookupSymbol? (scope : ScopeId) (name : String) (source : Option SourceId) :
    scopes'.lookupSymbol? scope name source = scopes.lookupSymbol? scope name source := by
  rw [ScopeTree.lookupSymbol?, ScopeTree.lookupSymbol?, h.lookup?]

lemma mark (id : SymbolId) :
    scopes.Informs (scopes'.modifySymbol id fun s => { s with isReferenced := true }) where
  scopes := h.scopes
  size := (Array.size_modify ..).trans h.size
  bare x := by
    rw [symbol_modifySymbol, ← h.bare x]
    split <;> rfl
  type x type htype := by
    have := h.type x type htype
    rw [symbol_modifySymbol]
    split <;> exact this

lemma setType (hid : (scopes.symbol id).type = none) (type : TypeId) :
    scopes.Informs (scopes'.modifySymbol id fun s => { s with type := some type }) where
  scopes := h.scopes
  size := (Array.size_modify ..).trans h.size
  bare x := by
    rw [symbol_modifySymbol, ← h.bare x]
    split <;> rfl
  type x found htype := by
    have := h.type x found htype
    rw [symbol_modifySymbol, if_neg]
    · exact this
    · rintro ⟨rfl, -⟩
      rw [hid] at htype
      cases htype

end

end Informs

end ScopeTree

namespace Analysis

open TypeTable (Over GrowsTo)

/-! ## The setting -/

/-- Switches being checked that differ only in types that correspond. -/
structure OpenSwitch.Like (R : TypeId → TypeId → Prop) (o o' : OpenSwitch) : Prop where
  valueType : Option.Rel R o.valueType o'.valueType
  cases : o.cases = o'.cases
  hasDefault : o.hasDefault = o'.hasDefault

lemma OpenSwitch.Like.mono {o : OpenSwitch} (hsub : R ≤ S) (h : o.Like R o') : o.Like S o' :=
  ⟨optionRel_mono hsub h.valueType, h.cases, h.hasDefault⟩

/-- What two analyses have in common: the types and scopes they start with, the symbols about which
they agree, and the symbols whose types they may find out. -/
structure Setting where
  base : TypeTable
  scopes : ScopeTree
  declares : scopes.Declares base.slots.size
  tracked : SymbolId → Prop
  inferred : SymbolId → Prop

/-- The names that a piece of the program may look up from a scope. -/
def Setting.Names (g : Setting) (scope : ScopeId) (name : String) (token : Token) : Prop :=
  ∀ x, g.scopes.lookupSymbol? scope name token.source = some x → g.tracked x

/-- The symbols that a piece of the program may declare. -/
def Setting.Declared (g : Setting) (x : SymbolId) : Prop :=
  g.tracked x ∧ ((g.scopes.symbol x).type = none → g.inferred x)

/-- A relation between results, given one between types. -/
abbrev Link (α : Type) := (TypeId → TypeId → Prop) → α → α → Prop

namespace Link

variable {α β : Type}

def eq : Link α := fun _ a b => a = b

def type : Link TypeId := fun R => R

def expr (N : String → Token → Prop) (D : SymbolId → Prop) : Link Expr := fun R => Expr.Like R N D

def prod (P : Link α) (Q : Link β) : Link (α × β) := fun R a b => P R a.1 b.1 ∧ Q R a.2 b.2

def option (P : Link α) : Link (Option α) := fun R => Option.Rel (P R)

def list (P : Link α) : Link (List α) := fun R => List.Forall₂ (P R)

/-- Related types, or the same number of errors. -/
inductive outcome (R : TypeId → TypeId → Prop) : Except Nat TypeId → Except Nat TypeId → Prop
  | error (errors : Nat) : outcome R (.error errors) (.error errors)
  | ok {a b : TypeId} : R a b → outcome R (.ok a) (.ok b)

/-- Typings of related types, or the same number of errors. -/
inductive verdict (R : TypeId → TypeId → Prop) : Verdict → Verdict → Prop
  | error (errors : Nat) : verdict R (.error errors) (.error errors)
  | ok {a b : TypeId} (isPlace : Bool) : R a b →
    verdict R (.ok { type := a, isPlace }) (.ok { type := b, isPlace })

/-- Both operands of a node and the verdict on it. -/
abbrev operands (N : String → Token → Prop) (D : SymbolId → Prop) : Link (Expr × Expr × Verdict) :=
  (expr N D).prod ((expr N D).prod verdict)

end Link

namespace Setting

variable (g : Setting)

/-- Two types, each of a state of its own, that are made in the same way. -/
def Same (s s' : State) : TypeId → TypeId → Prop := TypeTable.Same g.base s.types s'.types

/-- Two states with types made from those of the setting, which agree about its symbols. -/
structure Aligned (s s' : State) : Prop where
  left : Over g.base s.types
  right : Over g.base s'.types
  names : g.scopes.Informs s.scopes
  names' : g.scopes.Informs s'.scopes
  symbols : ∀ x, g.tracked x →
    Option.Rel (g.Same s s') (s.scopes.symbol x).type (s'.scopes.symbol x).type

/-- Two states that also agree about the switch and the cleanups around a statement. -/
structure InStep (s s' : State) : Prop extends g.Aligned s s' where
  switch : Option.Rel (OpenSwitch.Like (g.Same s s')) s.switch s'.switch
  cleanups : s.cleanups = s'.cleanups

/-- What a step may do to a state: make types, and find out types of symbols. -/
structure Steps (s s1 : State) : Prop where
  types : s.types.GrowsTo s1.types
  symbols : ∀ x, (s1.scopes.symbol x).type = (s.scopes.symbol x).type ∨ g.inferred x

/-- Two steps lead to two states that are related as `P` says, with related results. -/
structure Paired (P : State → State → Prop) {α : Type} (m m' : Analyze α) (s s' : State)
    (Q : Link α) : Prop where
  states : P (m s).2 (m' s').2
  left : g.Steps s (m s).2
  right : g.Steps s' (m' s').2
  result : Q (g.Same (m s).2 (m' s').2) (m s).1 (m' s').1

/-- Two steps lead from two states in step to two states in step, with related results. -/
abbrev Together {α : Type} : Analyze α → Analyze α → State → State → Link α → Prop :=
  g.Paired g.InStep

variable {g} {s s' s1 s1' s2 : State} {α β : Type}

namespace Steps

lemma refl (s : State) : g.Steps s s := ⟨.refl _, fun _ => .inl rfl⟩

lemma trans (h : g.Steps s s1) (h' : g.Steps s1 s2) : g.Steps s s2 where
  types := h.types.trans h'.types
  symbols x := by
    obtain heq | hx := h.symbols x
    · rw [← heq]
      exact h'.symbols x
    · exact .inr hx

end Steps

lemma Same.lift (h : g.Steps s s1) (h' : g.Steps s' s1') : g.Same s s' ≤ g.Same s1 s1' :=
  fun _ _ => TypeTable.Same.mono h.types h'.types

namespace Paired

variable {P : State → State → Prop} {m m' : Analyze α} {f f' : α → Analyze β} {Q : Link α}
  {Q' : Link β} {a a' : α}

lemma pure (h : P s s') (hQ : Q (g.Same s s') a a') :
    g.Paired P (Pure.pure a) (Pure.pure a') s s' Q :=
  ⟨h, .refl s, .refl s', hQ⟩

lemma bind (h : g.Paired P m m' s s' Q)
    (hf : ∀ a a' s1 s1', P s1 s1' → g.Same s s' ≤ g.Same s1 s1' →
      Q (g.Same s1 s1') a a' → g.Paired P (f a) (f' a') s1 s1' Q') :
    g.Paired P (m >>= f) (m' >>= f') s s' Q' := by
  have hrest := hf _ _ _ _ h.states (.lift h.left h.right) h.result
  exact ⟨hrest.states, h.left.trans hrest.left, h.right.trans hrest.right, hrest.result⟩

lemma counted {m m' : Analyze (α × Nat)} {f f' : α × Nat → Analyze β}
    (h : g.Paired P m m' s s' (Q.prod .eq))
    (hf : ∀ {a a' n s1 s1'}, P s1 s1' → g.Same s s' ≤ g.Same s1 s1' →
      Q (g.Same s1 s1') a a' → g.Paired P (f (a, n)) (f' (a', n)) s1 s1' Q') :
    g.Paired P (m >>= f) (m' >>= f') s s' Q' := by
  refine h.bind ?_
  rintro ⟨a, n⟩ ⟨a', _⟩ s1 s1' h1 hle ⟨ha, rfl⟩
  exact hf h1 hle ha

lemma map {f f' : α → β} (h : g.Paired P m m' s s' Q)
    (hf : ∀ R a a', Q R a a' → Q' R (f a) (f' a')) :
    g.Paired P (m >>= fun a => Pure.pure (f a)) (m' >>= fun a => Pure.pure (f' a)) s s' Q' :=
  bind h fun _ _ _ _ h1 _ hQ => .pure h1 (hf _ _ _ hQ)

lemma get {f f' : State → Analyze β} (h : g.Paired P (f s) (f' s') s s' Q') :
    g.Paired P (MonadState.get >>= f) (MonadState.get >>= f') s s' Q' :=
  ⟨h.states, h.left, h.right, h.result⟩

lemma types {f f' : TypeTable → Analyze β} (h : g.Paired P (f s.types) (f' s'.types) s s' Q') :
    g.Paired P (Analysis.types >>= f) (Analysis.types >>= f') s s' Q' :=
  ⟨h.states, h.left, h.right, h.result⟩

lemma report (h : g.InStep s s') :
    g.Together (Analysis.report token c) (Analysis.report token' c') s s' .eq :=
  ⟨⟨⟨h.left, h.right, h.names, h.names', h.symbols⟩, h.switch, h.cleanups⟩,
    ⟨.refl _, fun _ => .inl rfl⟩, ⟨.refl _, fun _ => .inl rfl⟩, rfl⟩

lemma reject (h : g.InStep s s') :
    g.Together (Analysis.reject token c) (Analysis.reject token' c') s s' Link.verdict :=
  (report h).map fun _ _ _ _ => .error 1

end Paired

variable {N : String → Token → Prop} {D : SymbolId → Prop}
  {es es' : List Expr} {a b : TypeId} {token : Token}

lemma list_mono (hsub : R ≤ S)
    (h : es.Forall₂ (Expr.Like R N D) es') : es.Forall₂ (Expr.Like S N D) es' :=
  h.imp fun _ _ => Expr.Like.mono hsub

lemma type_mark (scopes : ScopeTree) (id x : SymbolId) :
    ((scopes.modifySymbol id fun s => { s with isReferenced := true }).symbol x).type =
      (scopes.symbol x).type :=
  ScopeTree.field_modifySymbol Symbol.type scopes id x fun _ => rfl

section

variable (h : g.InStep s s')
include h

lemma makeType_together {τ : TypeTerm} (hf : TypeTable.Yields g.base s.types (f s.types) τ)
    (hf' : TypeTable.Yields g.base s'.types (f' s'.types) τ) :
    g.Together (makeType f) (makeType f') s s' .type := by
  have hlift (x y : TypeId) (hxy : g.Same s s' x y) :
      TypeTable.Same g.base (f s.types).2 (f' s'.types).2 x y :=
    hxy.mono hf.grows hf'.grows
  refine ⟨⟨⟨hf.table, hf'.table, h.names, h.names', fun x hx => ?_⟩, ?_, h.cleanups⟩,
    ⟨hf.grows, fun _ => .inl rfl⟩, ⟨hf'.grows, fun _ => .inl rfl⟩, τ, hf.denotes, hf'.denotes⟩
  · exact optionRel_mono hlift (h.symbols x hx)
  · exact optionRel_mono (fun _ _ => .mono hlift) h.switch

lemma InStep.builtin (p : Primitive) : g.Same s s' p.index p.index :=
  TypeTable.same_given _ _ (h.left.ground.sound.builtin p).1

/-! ## Folding and conversion -/

lemma InStep.answers (hab : g.Same s s' a b) : TypeTable.Answers s.types s'.types a b :=
  TypeTable.Same.answers h.left h.right hab

lemma same_typeOf (he : e.Like (g.Same s s') N D e') : g.Same s s' (typeOf e) (typeOf e') :=
  optionRel_getD he.type? (h.builtin .void)

lemma fold_together (he : e.Like (g.Same s s') N D e') :
    g.Together (fold e) (fold e') s s' ((Link.expr N D).prod .eq) := by
  refine .types ?_
  obtain ⟨error, hleft, hright⟩ | ⟨r, r', hleft, hright, hr⟩ := Fold.node_same h.left h.right he
  · rw [hleft, hright]
    refine .bind (.report h) fun _ _ s1 s1' h1 hle _ => .pure h1 ⟨?_, rfl⟩
    exact he.mono hle
  · rw [hleft, hright]
    exact .pure h ⟨hr, rfl⟩

lemma conclude_together (he : e.Like (g.Same s s') N D e') (hv : Link.verdict (g.Same s s') v v') :
    g.Together (conclude e v) (conclude e' v') s s' ((Link.expr N D).prod .eq) := by
  cases hv with
  | error => exact .pure h ⟨he, rfl⟩
  | ok _ hsame => exact fold_together h (he.withNote ⟨he.token, .some hsame, rfl⟩ rfl)

lemma converted?_same (hab : g.Same s s' a b) (he : e.Like (g.Same s s') N D e') :
    Option.Rel (Expr.Like (g.Same s s') N D) (converted? s.types a e)
      (converted? s'.types b e') := by
  unfold converted?
  refine optionRel_elim he.type? .none fun hsrc => ?_
  dsimp only
  rw [hab.equal h.left h.right (hsrc.unqualified h.left h.right),
    hab.converts h.left h.right hsrc]
  split
  · exact .some he
  · split
    · exact .some (.cast true ⟨he.token, .some hab, rfl⟩ he hab)
    · exact .none

lemma convert_together (hab : g.Same s s' a b) (he : e.Like (g.Same s s') N D e') :
    g.Together (convert a e) (convert b e') s s' ((Link.expr N D).prod .eq) := by
  refine .types ?_
  refine optionRel_elim (converted?_same h hab he) ?_ fun hc => ?_
  · refine .bind (.report h) fun _ _ s1 s1' h1 hle _ => .pure h1 ⟨?_, rfl⟩
    exact he.mono hle
  · exact fold_together h hc

lemma convertAll_together (hab : g.Same s s' a b)
    (hes : es.Forall₂ (Expr.Like (g.Same s s') N D) es') :
    g.Together (convertAll a es) (convertAll b es') s s' ((Link.expr N D).list.prod .eq) := by
  induction es generalizing es' s s' with
  | nil =>
    cases hes
    exact .pure h ⟨.nil, rfl⟩
  | cons _ _ ih =>
    cases hes with
    | cons he hes =>
      refine .bind (convert_together h hab he) fun r r' s1 s1' h1 hle hr => ?_
      refine .bind (ih h1 (hle _ _ hab) (list_mono hle hes)) fun q q' s2 s2' h2 hle hq => ?_
      exact .pure h2 ⟨.cons (hr.1.mono hle) hq.1, congrArg₂ (· + ·) hr.2 hq.2⟩

lemma unify_together (hl : lhs.Like (g.Same s s') N D lhs')
    (hr : rhs.Like (g.Same s s') N D rhs') : g.Together (unify lhs rhs) (unify lhs' rhs') s s'
      ((Link.expr N D).prod ((Link.expr N D).prod Link.outcome)) := by
  refine .types ?_
  have htgt := ((same_typeOf h hl).richer h.left h.right (same_typeOf h hr)).unqualified h.left
    h.right
  refine .bind (convert_together h htgt hl) fun r r' s1 s1' h1 hle1 hr1 => ?_
  refine .bind (convert_together h1 (hle1 _ _ htgt) (hr.mono hle1)) fun q q' s2 s2' h2 hle2 hq => ?_
  refine .pure h2 ⟨hr1.1.mono hle2, hq.1, ?_⟩
  rw [hr1.2, hq.2]
  split
  · exact .error _
  · exact .ok (hle2 _ _ (hle1 _ _ htgt))

/-! ## Leaves -/

lemma integerType_same {value : Int64} :
    g.Same s s' (integerType value) (integerType value) := by
  unfold integerType
  split
  · exact h.builtin (.signed .w32)
  · exact h.builtin (.signed .w64)

lemma literalType_together (value : Literal) :
    g.Together (literalType value) (literalType value) s s' .type := by
  have hgiven (p : Primitive) (t : TypeTable) : TypeTable.Denotes g.base t p.index (.given p.index) :=
    .given (h.left.ground.sound.builtin p).1
  cases value with
  | integer value => exact .pure h (integerType_same h)
  | float => exact .pure h (h.builtin (.float .w64))
  | bool => exact .pure h (h.builtin .bool)
  | text =>
    rw [literalType]
    apply makeType_together h
    · exact h.left.arrayOf (hgiven (.signed .w8) _) _
    · exact h.right.arrayOf (hgiven (.signed .w8) _) _
  | null =>
    rw [literalType]
    apply makeType_together h
    · exact h.left.pointerTo (hgiven .void _)
    · exact h.right.pointerTo (hgiven .void _)

lemma lookupSymbol_together (c : Context) (name : String) (token : Token) :
    g.Together (lookupSymbol c name token) (lookupSymbol c name token) s s' fun _ r r' =>
      r = g.scopes.lookupSymbol? c.scope name token.source ∧ r' = r := by
  refine .get (.pure h ⟨h.names.lookupSymbol? _ _ _, ?_⟩)
  rw [h.names.lookupSymbol?, h.names'.lookupSymbol?]

lemma markReferenced_together (id : SymbolId) :
    g.Together (markReferenced id) (markReferenced id) s s' .eq := by
  refine ⟨⟨⟨h.left, h.right, h.names.mark id, h.names'.mark id, fun x hx => ?_⟩, h.switch, h.cleanups⟩,
    ⟨.refl _, fun x => .inl (type_mark ..)⟩, ⟨.refl _, fun x => .inl (type_mark ..)⟩, rfl⟩
  have := h.symbols x hx
  rwa [← type_mark s.scopes id, ← type_mark s'.scopes id] at this

lemma setType_together (hx : g.Declared x) (hnone : (g.scopes.symbol x).type = none)
    (hab : g.Same s s' a b) :
    g.Together (modifySymbol x fun symbol => { symbol with type := some a })
      (modifySymbol x fun symbol => { symbol with type := some b }) s s' .eq := by
  have htype (scopes : ScopeTree) (type : TypeId) (y : SymbolId) :
      ((scopes.modifySymbol x fun symbol => { symbol with type := some type }).symbol y).type =
        if y = x ∧ x < scopes.symbols.size then some type else (scopes.symbol y).type := by
    rw [ScopeTree.symbol_modifySymbol]
    split <;> rfl
  have hchange (scopes : ScopeTree) (type : TypeId) (y : SymbolId) :
      ((scopes.modifySymbol x fun symbol => { symbol with type := some type }).symbol y).type =
        (scopes.symbol y).type ∨ g.inferred y := by
    rw [htype]
    split
    · next hy => exact .inr (hy.1 ▸ hx.2 hnone)
    · exact .inl rfl
  refine ⟨⟨⟨h.left, h.right, h.names.setType hnone a, h.names'.setType hnone b, fun y hy => ?_⟩,
    h.switch, h.cleanups⟩, ⟨.refl _, hchange _ a⟩, ⟨.refl _, hchange _ b⟩, rfl⟩
  have hold := h.symbols y hy
  change Option.Rel _ ((s.scopes.modifySymbol x _).symbol y).type
    ((s'.scopes.modifySymbol x _).symbol y).type
  rw [htype, htype, h.names.size, h.names'.size]
  split
  · exact .some hab
  · exact hold

lemma InStep.field (f : Symbol → β) (hf : ∀ s, f s.bare = f s) (x : SymbolId) :
    f (s.scopes.symbol x) = f (s'.scopes.symbol x) :=
  (h.names.field f hf x).trans (h.names'.field f hf x).symm

lemma nameVerdict_together {name : String} (hname : g.Names c.scope name token)
    (known : Option SymbolId) :
    g.Together (nameVerdict c token name known) (nameVerdict c token name known) s s'
      (Link.eq.prod Link.verdict) := by
  refine .bind (lookupSymbol_together h c name token) ?_
  rintro found found' s1 s1' h1 - ⟨hfound, hsame⟩
  rw [hsame]
  cases found with
  | none => exact (Paired.reject h1).map fun _ _ _ hv => ⟨rfl, hv⟩
  | some id =>
    refine .bind (markReferenced_together h1 id) fun _ _ s2 s2' h2 _ _ => .get ?_
    dsimp only
    rw [h2.field Symbol.isImmutable (fun _ => rfl) id, h2.field Symbol.kind (fun _ => rfl) id]
    refine optionRel_elim (h2.symbols id (hname id hfound.symm)) ?_ fun ⟨τ, ha, hb⟩ => ?_
    · exact (Paired.reject h2).map fun _ _ _ hv => ⟨rfl, hv⟩
    · dsimp only
      split
      · refine .map (Q := .type) ?_ fun _ _ _ hv => ⟨rfl, .ok _ hv⟩
        apply makeType_together h2
        · exact h2.left.immutable ha
        · exact h2.right.immutable hb
      · exact .pure h2 ⟨rfl, .ok _ ⟨τ, ha, hb⟩⟩

lemma constantOwner_together :
    g.Together (constantOwner c token scope) (constantOwner c token scope) s s'
      (Link.type.prod .eq).option := by
  refine .get ?_
  have hlook := h.names.lookup? c.scope scope token.source
  have hlookup' := h.names'.lookup? c.scope scope token.source
  have hentry (entry : ScopeEntry) (hentry : g.scopes.lookup? c.scope scope token.source = some entry)
      (type : TypeId) (htype : type ∈ entry.type?) : g.Same s s' type type :=
    TypeTable.same_given _ _ (g.declares.lookup hentry type htype)
  dsimp only
  rw [ScopeTree.lookupEnum?, ScopeTree.lookupRecord?, ScopeTree.lookupEnum?, ScopeTree.lookupRecord?,
    hlook, hlookup']
  generalize g.scopes.lookup? c.scope scope token.source = found at hentry
  cases found with
  | none => exact .pure h .none
  | some entry =>
    cases entry with
    | symbol => exact .pure h .none
    | record entry => exact .pure h (.some ⟨hentry _ rfl entry.type rfl, rfl⟩)
    | enum entry => exact .pure h (.some ⟨hentry _ rfl entry.type rfl, rfl⟩)

lemma qualifiedConstant_together (c : Context) (token : Token) (scope member : String) :
    g.Together (qualifiedConstant c token scope member) (qualifiedConstant c token scope member) s s'
      (Link.expr N D).option := by
  refine .bind (constantOwner_together h) ?_
  rintro owner owner' s1 s1' h1 - howner
  cases howner with
  | none => exact (Paired.report h1).map fun _ _ _ _ => .none
  | @some owner owner' hsame =>
    obtain ⟨owner, isEnum⟩ := owner
    obtain ⟨owner', isEnum'⟩ := owner'
    obtain ⟨hsame, rfl⟩ := hsame
    refine .types ?_
    rw [TypeTable.Same.constantValue? h1.left h1.right hsame]
    cases s1'.types.constantValue? owner' member with
    | none => exact (Paired.report h1).map fun _ _ _ _ => .none
    | some value =>
      refine .pure h1 (.some (.constant _ _ ?_))
      cases isEnum with
      | false => exact integerType_same h1
      | true => exact hsame

end

end Setting

end Analysis

end CompilerCore

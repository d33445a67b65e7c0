import CompilerCore.Proofs.Analysis.Resolved

/-!
# The types that nodes are given

The rules for single nodes give a node a type that is in the table and fits its parts, or count an
error.  Most of them only report complaints; such a step is *quiet*.  A rule may wrap operands in
conversions, or replace them by literals.
-/

namespace CompilerCore.Analysis

open CompilerCore.Expr Option TypeTable

/-! ## Quiet steps -/

/-- Two states that differ at most in their diagnostics. -/
def Quiet (s s' : State) : Prop := ∃ diagnostics, s' = { s with diagnostics }

lemma Quiet.refl (s : State) : Quiet s s := ⟨_, rfl⟩

lemma Quiet.trans (h : Quiet s s') (h' : Quiet s' s'') : Quiet s s'' := by
  obtain ⟨d, rfl⟩ := h
  obtain ⟨d', rfl⟩ := h'
  exact ⟨d', rfl⟩

lemma Quiet.types (h : Quiet s s') : s'.types = s.types := by
  obtain ⟨d, rfl⟩ := h
  rfl

/-- A step that reports at most, with what holds of its result over a given type table. -/
def Quietly (t : TypeTable) {α : Type} (m : Analyze α) (Q : α → Prop) : Prop :=
  ∀ s : State, s.types = t → Quiet s (m s).2 ∧ Q (m s).1

namespace Quietly

variable {t : TypeTable} {Q : α → Prop}

lemma pure (h : Q a) : Quietly t (Pure.pure a) Q := fun s _ => ⟨.refl s, h⟩

lemma bind (h : Quietly t m Q) (hf : ∀ a, Q a → Quietly t (f a) R) : Quietly t (m >>= f) R := by
  intro s hs
  obtain ⟨hquiet, hq⟩ := h s hs
  obtain ⟨hquiet', hr⟩ := hf _ hq (m s).2 (hquiet.types.trans hs)
  exact ⟨hquiet.trans hquiet', hr⟩

lemma types (h : Quietly t (f t) R) : Quietly t (Analysis.types >>= f) R := by
  intro s hs
  subst hs
  exact h s rfl

lemma report (token : Token) (c : Complaint) : Quietly t (Analysis.report token c) fun _ => True :=
  fun _ _ => ⟨⟨_, rfl⟩, trivial⟩

lemma imp (h : Quietly t m Q) (hQ : ∀ a, Q a → R a) : Quietly t m R :=
  fun s hs => ⟨(h s hs).1, hQ _ (h s hs).2⟩

lemma gives (h : Quietly s.types m Q) : Gives m s fun a s' => Quiet s s' ∧ Q a :=
  h s rfl

end Quietly

/-! ## Verdicts -/

/-- A verdict counts an error or gives a type with a property. -/
def Judges (Q : Typing → Prop) : Verdict → Prop
  | .error errors => errors ≠ 0
  | .ok typing => Q typing

lemma Judges.imp (h : Judges Q verdict) (hQ : ∀ typing, Q typing → R typing) :
    Judges R verdict := by
  cases verdict with
  | error => exact h
  | ok typing => exact hQ typing h

variable {t : TypeTable} {Q : Typing → Prop} {token : Token}

lemma reject_quietly : Quietly t (reject token c) (Judges Q) :=
  (Quietly.report token c).bind fun _ _ => .pure Nat.one_ne_zero

/-! ## Accepted nodes -/

/-- What analysis has made of a node: its types are in the table, it is normal in a program whose
literals are, and it is well typed once it is accepted. -/
structure Vetted (tidy accepted : Prop) (t : TypeTable) (scopes : ScopeTree) (e : Expr) : Prop where
  known : e.Known t.slots.size
  normal : tidy → e.Normal t
  wellTyped : accepted → e.WellTyped t scopes

/-- An expression that is well typed, and whose type is in the table. -/
structure Fits (t : TypeTable) (scopes : ScopeTree) (e : Expr) : Prop where
  known : ∀ type ∈ e.type?, type < t.slots.size
  wellTyped : e.WellTyped t scopes

variable {scopes : ScopeTree} {type target : TypeId} {es : List Expr} {lhs rhs e : Expr}

lemma fits_of_all (h : e.All (Vetted tidy True t scopes)) : Fits t scopes e :=
  ⟨h.self.known.type, h.self.wellTyped trivial⟩

lemma typeOf_eq (h : e.type? = some type) : typeOf e = type := by
  rw [typeOf, h]
  rfl

lemma note_kind? {note : Note} (h : note.type = some type) : note.kind? t = some (t.kind type) := by
  rw [Note.kind?, h]
  rfl

namespace Fits

lemma mem_typeOf (h : Fits t scopes e) : typeOf e ∈ e.type? := by
  obtain ⟨type, htype⟩ := isSome_iff_exists.1 h.wellTyped.resolved.1
  rwa [typeOf_eq htype]

lemma typeOf_lt (h : Fits t scopes e) : typeOf e < t.slots.size := h.known _ h.mem_typeOf

lemma kind? (h : Fits t scopes e) : e.kind? t = some (t.kind (typeOf e)) := note_kind? h.mem_typeOf

lemma isPlaceForm (h : Fits t scopes e) (hplace : e.isPlace = true) : e.IsPlaceForm :=
  h.wellTyped.place.resolve_left fun hvalue => by
    rw [hplace] at hvalue
    cases hvalue

end Fits

/-! ## Conversions -/

/-- What conversion and folding can make of an operand. -/
inductive Wraps (t : TypeTable) (e : Expr) : Expr → Prop where
  | same : Wraps t e e
  | literal {token : Token} {type : TypeId} {value : Literal} : type < t.slots.size →
    (e.All (Normal t) → (Expr.literal { token, type := some type } value).Normal t) →
    Wraps t e (.literal { token, type := some type } value)
  | cast {token : Token} {target : TypeId} :
    target < t.slots.size → Wraps t e (.cast { token, type := some target } e target true)

lemma agrees_self (t : TypeTable) (a : TypeId) : t.Agrees (some a) (some a) :=
  ⟨a, rfl, fun _ hb => follows_of_shape (congrArg t.shape (some.inj hb).symm)⟩

lemma forall_mem_some (h : type < n) : ∀ a ∈ some type, a < n :=
  fun _ ha => some.inj ha ▸ h

lemma Wraps.vetted (h : Wraps t e e') (he : e.All (Vetted tidy accepted t scopes)) :
    e'.All (Vetted tidy accepted t scopes) := by
  cases h with
  | same => exact he
  | literal htype hnorm =>
    exact all_literal.2 ⟨forall_mem_some htype, fun htidy => hnorm (he.mono fun _ h => h.normal htidy),
      fun _ => wellTyped_literal rfl rfl⟩
  | cast htgt =>
    exact all_cast.2 ⟨⟨⟨forall_mem_some htgt, htgt⟩, fun _ => trivial,
      fun _ => .plain rfl trivial nofun (agrees_self t _) rfl (.inl rfl) trivial⟩, he⟩

lemma forall₂_wraps (t : TypeTable) (es : List Expr) : es.Forall₂ (Wraps t) es :=
  List.forall₂_same.2 fun _ _ => .same

lemma all_vetted (h : es.Forall₂ (Wraps t) es')
    (he : ∀ e ∈ es, e.All (Vetted tidy accepted t scopes)) :
    ∀ e ∈ es', e.All (Vetted tidy accepted t scopes) := by
  induction h with
  | nil => exact he
  | cons hwraps _ ih =>
    rw [List.forall_mem_cons] at he ⊢
    exact ⟨hwraps.vetted he.1, ih he.2⟩

/-- A folded node is the node itself or a literal of its type, normal if the node is exact. -/
lemma fold_quietly (e : Expr) : Quietly t (fold e) fun r => r.1 = e ∨ ∃ token type value,
    e.type? = some type ∧ r.1 = .literal { token, type := some type } value ∧
      (e.Exact t → e.All (Normal t) → r.1.Normal t) := by
  refine .types ?_
  split
  · next e' hnode =>
    refine .pure ?_
    unfold Fold.node at hnode
    split at hnode
    · cases hnode
      exact .inl rfl
    · next type htype =>
      split at hnode
      · cases hnode
      · cases hnode
        exact .inl rfl
      · next literal hvalue =>
        cases hnode
        refine .inr ⟨e.token, type, _, htype, rfl, fun hexact hnorm => ?_⟩
        cases hliteral : Fold.asTruth t type literal with
        | integer value =>
          rw [Fold.eq_integer_of_asTruth hliteral] at hvalue
          exact fun _ htype' => some.inj htype' ▸
            Fold.value_offers hexact hnorm htype hvalue
        | _ => trivial
  · exact (Quietly.report _ _).bind fun _ _ => .pure (.inl rfl)

/-- The type of an expression may stand for a type. -/
def Meets (t : TypeTable) (target : TypeId) (e : Expr) : Prop := ∃ a ∈ e.type?, t.Stands target a

namespace Meets

lemma kind? (h : Meets t target e) : e.kind? t = some (t.kind target) := by
  obtain ⟨a, ha, hstands⟩ := h
  rw [← hstands.kind]
  exact note_kind? ha

lemma agrees (h : Meets t target e) {note : Note} (hnote : note.type = some target) :
    t.Agrees note.type e.type? := by
  obtain ⟨a, ha, hstands⟩ := h
  refine ⟨a, ha, fun b hb => ?_⟩
  obtain rfl := some.inj (hnote.symm.trans hb)
  exact hstands.follows

lemma nested (h : Meets t target e) (he : e.Layered t) : t.Nested e.depth target := by
  obtain ⟨a, ha, hstands⟩ := h
  exact hstands.nested _ (he.nested ha)

end Meets

lemma Fits.meets (h : Fits t scopes e) (hshape : t.shape type = t.shape (typeOf e)) :
    Meets t type e :=
  ⟨_, h.mem_typeOf, stands_of_shape hshape⟩

/-! ## Typings that suit a node -/

/-- A typing that suits a node: its type is in the table, and the node is well typed with it. -/
structure Suits (t : TypeTable) (scopes : ScopeTree) (e : Expr) (typing : Typing) : Prop where
  known : typing.type < t.slots.size
  wellTyped : ∀ note : Note, note.type = some typing.type → note.isPlace = typing.isPlace →
    (e.withNote note).WellTyped t scopes

/-- The operands of a rule and the typing that it gives, if it gives one. -/
def Operands (t : TypeTable) (lhs rhs : Expr) (Q : Expr → Expr → Typing → Prop)
    (r : Expr × Expr × Verdict) : Prop :=
  Wraps t lhs r.1 ∧ Wraps t rhs r.2.1 ∧ Judges (Q r.1 r.2.1) r.2.2

/-- A typing of a value, with a common type of two operands. -/
structure Joins (t : TypeTable) (lhs rhs : Expr) (typing : Typing) : Prop where
  known : typing.type < t.slots.size
  place : typing.isPlace = false
  left : Meets t typing.type lhs
  right : Meets t typing.type rhs

variable {note : Note}

lemma badOperands_quietly {Q : Expr → Expr → Typing → Prop} :
    Quietly t (do return (lhs, rhs, ← badOperands token operator lhs rhs)) (Operands t lhs rhs Q) :=
  fun _ _ => ⟨⟨_, rfl⟩, .same, .same, Nat.one_ne_zero⟩

lemma value_operands {Q : Expr → Expr → Typing → Prop} (hQ : Q lhs rhs { type }) :
    Quietly t (do return (lhs, rhs, ← value type)) (Operands t lhs rhs Q) :=
  fun s _ => ⟨.refl s, .same, .same, hQ⟩

lemma binary_suits (htype : type < t.slots.size) (h : ∀ note : Note, note.type = some type →
      (Expr.binary note op lhs rhs).Coherent t scopes ∧ (Expr.binary note op lhs rhs).Exact t) :
    Suits t scopes (.binary note op lhs rhs) { type } :=
  ⟨htype, fun note hnote hplace =>
    .plain (h note hnote).1 trivial nofun (h note hnote).2 hnote (.inl hplace) trivial⟩

lemma not_hasIntegers (h : t.isPointer (typeOf e) = true) : ¬e.HasIntegers t := by
  rintro ⟨k, hk, hint⟩
  rw [kind?, Note.kind?, mem_def, map_eq_some_iff] at hk
  obtain ⟨type, htype, rfl⟩ := hk
  rw [typeOf, type?, htype, getD_some, isPointer_of_kind hint] at h
  cases h

lemma arith_suits_of_joins (hj : Joins t lhs rhs typing)
    (h : op.group ≠ .numeric → t.isInteger typing.type = true) :
    Suits t scopes (.binary note (.arith op) lhs rhs) typing := by
  obtain ⟨type, isPlace⟩ := typing
  obtain ⟨hlt, rfl, hl, hr⟩ := hj
  refine binary_suits hlt fun note hnote => ?_
  have hkind : note.kind? t = some (t.kind type) := note_kind? hnote
  exact ⟨⟨fun _ _ => ⟨hl.kind?.trans hkind.symm, fun _ => hr.kind?.trans hkind.symm⟩,
    fun hgroup => ⟨_, hkind, isInteger_eq.symm.trans (h hgroup)⟩⟩, .inr (hl.agrees hnote)⟩

lemma kind_of_isPointer (h : t.isPointer type = true) : t.kind type = .other := by
  unfold isPointer at h
  split at h
  · next hshape => rw [kind, hshape]; rfl
  · cases h

lemma assignable_of_fault? (h : assignmentFault? t e = none) :
    e.isPlace = true ∧ ∀ type ∈ e.type?, t.isImmutable type = false := by
  unfold assignmentFault? at h
  split at h
  · cases h
  split at h
  · cases h
  · next hplace hmutable =>
    refine ⟨by simpa using hplace, fun type htype => ?_⟩
    rw [typeOf_eq htype] at hmutable
    exact Bool.eq_false_iff.2 hmutable

/-- An operand of a rule and the typing that it gives, if it gives one. -/
def Operand (t : TypeTable) (e : Expr) (Q : Expr → Typing → Prop) (r : Expr × Verdict) : Prop :=
  Wraps t e r.1 ∧ Judges (Q r.1) r.2

lemma reject_operand {Q : Expr → Typing → Prop} :
    Quietly t (do return (e, ← reject token c)) (Operand t e Q) :=
  fun _ _ => ⟨⟨_, rfl⟩, .same, Nat.one_ne_zero⟩

lemma value_operand {Q : Expr → Typing → Prop} (hQ : Q e { type }) :
    Quietly t (do return (e, ← value type)) (Operand t e Q) :=
  fun s _ => ⟨.refl s, .same, hQ⟩

lemma owner?_of_memberOwner? (he : Fits t scopes e)
    (h : memberOwner? t (typeOf e) deref = some owner) : e.owner? t deref = some owner := by
  unfold memberOwner? at h
  unfold owner?
  rw [he.mem_typeOf]
  split
  · next hthrough =>
    rw [if_pos hthrough] at h
    exact (filter_eq_some_iff.1 h).1
  · next hdirect =>
    rw [if_neg hdirect] at h
    split at h
    · exact h
    · cases h

lemma castVerdict_quietly (htgt : target < t.slots.size) (isImplicit : Bool) :
    Quietly t (castVerdict token e target isImplicit)
      (Judges (Suits t scopes (.cast note e target isImplicit))) := by
  refine .types ?_
  split
  · refine .pure ⟨htgt, fun note hnote hplace =>
      .plain (note_kind? hnote) trivial nofun ?_ hnote (.inl hplace) trivial⟩
    show t.Agrees note.type (some target)
    rw [hnote]
    exact agrees_self t target
  · exact reject_quietly

lemma testErrors_quietly (cond : Expr) : Quietly t (testErrors cond) fun _ => True := by
  refine .types ?_
  split
  · exact .pure trivial
  · exact (Quietly.report _ _).bind fun _ _ => .pure trivial

variable (ht : t.Sound)

include ht

/-- Conversion gives an expression of a type that may stand for the one that it converts to. -/
lemma convert_quietly (htgt : target < t.slots.size) (he : Fits t scopes e) :
    Quietly t (convert target e) fun r => Wraps t e r.1 ∧ (r.2 = 0 → Meets t target r.1) := by
  have hfolded (base : Expr) (hwraps : Wraps t e base)
      (hnorm : e.All (Normal t) → base.All (Normal t)) (hexact : base.Exact t)
      (hknown : ∀ type ∈ base.type?, type < t.slots.size) (hmeets : Meets t target base) :
      Quietly t (fold base) fun r => Wraps t e r.1 ∧ (r.2 = 0 → Meets t target r.1) := by
    refine (fold_quietly base).imp fun (e', _) hr => ?_
    obtain rfl | ⟨token, type, value, htype, rfl, hfolded⟩ := hr
    · exact ⟨hwraps, fun _ => hmeets⟩
    · refine ⟨.literal (hknown type htype) fun h => hfolded hexact (hnorm h), fun _ => ?_⟩
      obtain ⟨a, ha, hstands⟩ := hmeets
      exact ⟨a, htype.symm.trans ha, hstands⟩
  refine .types ?_
  split
  · next e' hconv =>
    unfold converted? at hconv
    split at hconv
    · cases hconv
    · next source hsrc =>
      split at hconv
      · next hequal =>
        cases hconv
        exact hfolded e .same id he.wellTyped.exact he.known ⟨source, hsrc,
          (stands_of_equal hequal).trans (stands_of_shape (ht.shape_unqualified _))⟩
      · split at hconv
        · cases hconv
          exact hfolded _ (.cast htgt) (fun h => all_cast.2 ⟨trivial, h⟩) (agrees_self t _)
            (forall_mem_some htgt) ⟨target, rfl, stands_of_shape rfl⟩
        · cases hconv
  · exact (Quietly.report _ _).bind fun _ _ => .pure ⟨.same, fun h => absurd h Nat.one_ne_zero⟩

lemma unify_quietly (hl : Fits t scopes lhs) (hr : Fits t scopes rhs) :
    Quietly t (unify lhs rhs) fun r => Wraps t lhs r.1 ∧ Wraps t rhs r.2.1 ∧ match r.2.2 with
      | .error errors => errors ≠ 0
      | .ok type => type < t.slots.size ∧ Meets t type r.1 ∧ Meets t type r.2.1 ∧
        (t.isInteger (typeOf lhs) && t.isInteger (typeOf rhs) → t.isInteger type = true) := by
  have htgt : t.unqualified (t.richer (typeOf lhs) (typeOf rhs)) < t.slots.size := by
    refine ht.unqualified_lt ?_
    unfold richer
    split
    · exact hr.typeOf_lt
    · exact hl.typeOf_lt
  refine .types ((convert_quietly ht htgt hl).bind fun (lhs', m) ⟨hl', hm⟩ =>
    (convert_quietly ht htgt hr).bind fun (rhs', n) ⟨hr', hn⟩ => .pure ⟨hl', hr', ?_⟩)
  split
  · next errors herrs =>
    split at herrs
    · cases herrs
      omega
    · cases herrs
  · next type htype =>
    split at htype
    · cases htype
    · cases htype
      refine ⟨htgt, hm (by omega), hn (by omega), fun hint => ?_⟩
      rw [isInteger_eq, ht.kind_unqualified, ← isInteger_eq, richer]
      split <;> simp_all

lemma unified_quietly (hl : Fits t scopes lhs) (hr : Fits t scopes rhs) {Q : Expr → Expr → Typing → Prop}
    (hQ : ∀ {l r typing}, Joins t l r typing →
      (t.isInteger (typeOf lhs) && t.isInteger (typeOf rhs) → t.isInteger typing.type = true) →
      Q l r typing) : Quietly t (unified lhs rhs) (Operands t lhs rhs Q) := by
  refine (unify_quietly ht hl hr).bind fun (lhs', rhs', result) ⟨hl', hr', hres⟩ =>
    .pure ⟨hl', hr', ?_⟩
  cases result with
  | error => exact hres
  | ok => exact hQ ⟨hres.1, rfl, hres.2.1, hres.2.2.1⟩ hres.2.2.2

/-! ## Operators -/

lemma numericVerdict_quietly (hop : op.group = .numeric) (hl : Fits t scopes lhs)
    (hr : Fits t scopes rhs) : Quietly t (numericVerdict token op lhs rhs)
      (Operands t lhs rhs fun l r => Suits t scopes (.binary note (.arith op) l r)) := by
  have hleft := ht.unqualified_lt hl.typeOf_lt
  have hright := ht.unqualified_lt hr.typeOf_lt
  -- Nothing is computed from a pointer on the left.
  have hsuits (hptr : t.isPointer (typeOf lhs) = true) {type : TypeId} (htype : type < t.slots.size) :
      Suits t scopes (.binary note (.arith op) lhs rhs) { type } := binary_suits htype fun _ _ =>
    ⟨⟨fun hint _ => absurd hint (not_hasIntegers hptr), absurd hop⟩, .inl ⟨_, hl.mem_typeOf, hptr⟩⟩
  refine .types ?_
  dsimp only
  split
  · exact badOperands_quietly
  · split
    · next hptr _ =>
      split
      · exact value_operands (hsuits hptr hleft)
      · exact badOperands_quietly
    · next _ hptr =>
      split
      · refine value_operands (binary_suits hright fun note hnote =>
          ⟨⟨fun _ hint => absurd hint (not_hasIntegers hptr), absurd hop⟩,
          .inr ⟨_, hl.mem_typeOf, fun b hb fuel s hs => ?_⟩⟩)
        obtain rfl := some.inj (hnote.symm.trans hb)
        rw [isPointer, ← ht.shape_unqualified, ← isPointer] at hptr
        rw [scalarWithin?_of_isPointer hptr] at hs
        cases hs
      · exact badOperands_quietly
    · next hptr _ =>
      split
      · exact value_operands (hsuits hptr (ht.builtin (.signed .w64)).1)
      · exact badOperands_quietly
    · exact unified_quietly ht hl hr fun h _ => arith_suits_of_joins h (absurd hop)

lemma arithVerdict_quietly (hl : Fits t scopes lhs) (hr : Fits t scopes rhs) :
    Quietly t (arithVerdict token op lhs rhs)
      (Operands t lhs rhs fun l r => Suits t scopes (.binary note (.arith op) l r)) := by
  unfold arithVerdict
  split
  · next hgroup => exact numericVerdict_quietly ht hgroup hl hr
  · next hgroup =>
    refine .types ?_
    split
    · next hint =>
      have hmeets := hl.meets (ht.shape_unqualified (typeOf lhs))
      refine value_operands (binary_suits (ht.unqualified_lt hl.typeOf_lt) fun note hnote =>
        ⟨⟨fun _ _ => ⟨hmeets.kind?.trans (note_kind? hnote).symm, absurd hgroup⟩, fun _ =>
          ⟨_, note_kind? hnote, ?_⟩⟩, .inr (hmeets.agrees hnote)⟩)
      rw [ht.kind_unqualified, ← isInteger_eq]
      exact (Bool.and_eq_true_iff.1 hint).1
    · exact badOperands_quietly
  · refine .types ?_
    split
    · next hint =>
      exact unified_quietly ht hl hr fun h hinteger => arith_suits_of_joins h fun _ => hinteger hint
    · exact badOperands_quietly

lemma compare_suits (hkinds : lhs.kind? t = rhs.kind? t) :
    Suits t scopes (.binary note (.compare rel) lhs rhs) { type := TypeId.bool } :=
  binary_suits (ht.builtin .bool).1 fun _ hnote =>
    ⟨⟨hkinds, (note_kind? hnote).trans (congrArg some ht.bool)⟩, trivial⟩

lemma pointerComparison_quietly (hl : Fits t scopes lhs) (hr : Fits t scopes rhs) :
    Quietly t (pointerComparison token rel lhs rhs)
      (Operands t lhs rhs fun l r => Suits t scopes (.binary note (.compare rel) l r)) := by
  have hcompared {l r : Expr} {errors : Nat} (h : errors = 0 → l.kind? t = r.kind? t) :
      Judges (Suits t scopes (.binary note (.compare rel) l r)) (comparedAfter errors) := by
    unfold comparedAfter
    split
    · next herrs => exact compare_suits ht (h herrs)
    · exact Nat.one_ne_zero
  refine .types ?_
  dsimp only
  split
  · next hpointers =>
    rw [Bool.and_eq_true] at hpointers
    split
    · refine value_operands (compare_suits ht ?_)
      rw [hl.kind?, hr.kind?, kind_of_isPointer hpointers.1, kind_of_isPointer hpointers.2]
    · split
      · exact (convert_quietly ht hl.typeOf_lt hr).bind fun _ ⟨hr', hmeets⟩ =>
          .pure ⟨.same, hr', hcompared fun herrs => hl.kind?.trans (hmeets herrs).kind?.symm⟩
      · split
        · exact (convert_quietly ht hr.typeOf_lt hl).bind fun _ ⟨hl', hmeets⟩ =>
            .pure ⟨hl', .same, hcompared fun herrs => (hmeets herrs).kind?.trans hr.kind?.symm⟩
        · exact badOperands_quietly
  · exact badOperands_quietly

lemma comparisonVerdict_quietly (hl : Fits t scopes lhs) (hr : Fits t scopes rhs) :
    Quietly t (comparisonVerdict token rel lhs rhs)
      (Operands t lhs rhs fun l r => Suits t scopes (.binary note (.compare rel) l r)) := by
  refine .types ?_
  dsimp only
  split
  · exact badOperands_quietly
  · split
    · exact pointerComparison_quietly ht hl hr
    · refine (unify_quietly ht hl hr).bind fun (lhs', rhs', common) ⟨hl', hr', hcommon⟩ => ?_
      cases common with
      | error => exact .pure ⟨hl', hr', hcommon⟩
      | ok type =>
        have hsuits : Operands t lhs rhs (fun l r => Suits t scopes (.binary note (.compare rel) l r))
            (lhs', rhs', .ok { type := TypeId.bool }) :=
          ⟨hl', hr', compare_suits ht (hcommon.2.1.kind?.trans hcommon.2.2.1.kind?.symm)⟩
        refine .types ?_
        split
        · exact (Quietly.report _ _).bind fun _ _ => .pure hsuits
        · exact .pure hsuits

lemma logicalVerdict_quietly (hop : op = .and ∨ op = .or) (hl : Fits t scopes lhs)
    (hr : Fits t scopes rhs) : Quietly t (logicalVerdict lhs rhs)
      (Operands t lhs rhs fun l r => Suits t scopes (.binary note op l r)) := by
  have hbool := (ht.builtin .bool).1
  refine (convert_quietly ht hbool hl).bind fun (lhs', m) ⟨hl', hm⟩ =>
    (convert_quietly ht hbool hr).bind fun (rhs', n) ⟨hr', hn⟩ => .pure ⟨hl', hr', ?_⟩
  split
  · next herrs => exact herrs.ne'
  · refine binary_suits hbool fun note hnote => ?_
    have hkind {e : Expr} (h : Meets t Primitive.bool.index e) :
        e.kind? t = some (.primitive .bool) := h.kind?.trans (congrArg some ht.bool)
    have hcoh := And.intro (hkind (hm (by omega))) (And.intro (hkind (hn (by omega)))
      ((note_kind? hnote).trans (congrArg some ht.bool)))
    obtain rfl | rfl := hop
    · exact ⟨hcoh, trivial⟩
    · exact ⟨hcoh, trivial⟩

lemma binaryVerdict_quietly (op : BinaryOp) (hl : Fits t scopes lhs) (hr : Fits t scopes rhs) :
    Quietly t (binaryVerdict token op lhs rhs)
      (Operands t lhs rhs fun l r => Suits t scopes (.binary note op l r)) := by
  cases op with
  | arith op => exact arithVerdict_quietly ht hl hr
  | compare rel => exact comparisonVerdict_quietly ht hl hr
  | and => exact logicalVerdict_quietly ht (.inl rfl) hl hr
  | or => exact logicalVerdict_quietly ht (.inr rfl) hl hr

lemma unaryVerdict_quietly (hop : op ≠ .address) (he : Fits t scopes e) :
    Quietly t (unaryVerdict token op e) (Operand t e fun e => Suits t scopes (.unary note op e)) := by
  have hlt := ht.unqualified_lt he.typeOf_lt
  have hmeets := he.meets (ht.shape_unqualified (typeOf e))
  refine .types ?_
  cases op with
  | negate =>
    dsimp only
    split
    · exact value_operand ⟨hlt, fun _ hnote hplace => .plain (hmeets.kind?.trans (note_kind? hnote).symm)
        trivial nofun (hmeets.agrees hnote) hnote (.inl hplace) trivial⟩
    · exact reject_operand
  | complement =>
    dsimp only
    split
    · next hint =>
      refine value_operand ⟨hlt, fun _ hnote hplace => .plain
        ⟨hmeets.kind?.trans (note_kind? hnote).symm, _, note_kind? hnote, ?_⟩ trivial nofun
        (hmeets.agrees hnote) hnote (.inl hplace) trivial⟩
      rwa [ht.kind_unqualified, ← isInteger_eq]
    · exact reject_operand
  | not =>
    refine (convert_quietly ht (ht.builtin .bool).1 he).bind fun (e', errors) ⟨he', _⟩ =>
      .pure ⟨he', ?_⟩
    split
    · exact ⟨(ht.builtin .bool).1, fun _ hnote hplace => .plain
        ((note_kind? hnote).trans (congrArg some ht.bool)) trivial nofun trivial hnote (.inl hplace) trivial⟩
    · exact Nat.one_ne_zero
  | address => exact absurd rfl hop
  | deref =>
    dsimp only
    split
    · next pointee hpointee =>
      split
      · exact reject_operand
      · exact .pure ⟨.same, ht.pointee_lt hpointee, fun _ hnote _ =>
          .plain trivial trivial nofun trivial hnote (.inr trivial) trivial⟩
    · exact reject_operand
  | step =>
    dsimp only
    split
    · exact reject_operand
    · split
      · exact reject_operand
      · next hfault =>
        refine value_operand ⟨hlt, fun _ hnote hplace =>
          .plain trivial trivial (fun target htgt => ?_) trivial hnote (.inl hplace) trivial⟩
        obtain rfl := some.inj htgt
        exact (assignable_of_fault? hfault).2

lemma conditionalVerdict_quietly (hy : Fits t scopes yes) (hn : Fits t scopes no) :
    Quietly t (conditionalVerdict token yes no) (Operands t yes no (Joins t)) := by
  refine .types ?_
  dsimp only
  split
  · next hequal =>
    have hshape := ht.shape_unqualified (typeOf yes)
    refine value_operands ⟨ht.unqualified_lt hy.typeOf_lt, rfl, hy.meets hshape, _, hn.mem_typeOf, ?_⟩
    exact (stands_of_shape hshape).trans (stands_of_equal hequal)
  · split
    · exact unified_quietly ht hy hn fun h _ => h
    · refine (convert_quietly ht hy.typeOf_lt hn).bind fun (no', errors) ⟨hn', hmeets⟩ => ?_
      split
      · next herrs =>
        exact .pure ⟨.same, hn', hy.typeOf_lt, rfl, hy.meets rfl, hmeets herrs⟩
      · exact fun _ _ => ⟨⟨_, rfl⟩, .same, hn', Nat.one_ne_zero⟩

/-! ## Parts of aggregates, casts and assignments -/

lemma memberVerdict_quietly (he : Fits t scopes e) (text : String) (deref : Bool) :
    Quietly t (memberVerdict token e text deref) (Judges (Suits t scopes (.member note e text deref))) := by
  refine .types ?_
  split
  · exact reject_quietly
  · next owner howner =>
    split
    · exact reject_quietly
    · next hmember =>
      have howner' := owner?_of_memberOwner? he howner
      refine .pure ⟨ht.member_lt hmember, fun note hnote _ =>
        .plain trivial ?_ nofun trivial hnote (.inr trivial) trivial⟩
      rw [withNote, Owned, howner']
      exact isSome_of_eq_some hmember

lemma indexVerdict_quietly {index : Expr} : Quietly t (indexVerdict token base index)
      (Judges (Suits t scopes (.index note base index))) := by
  refine .types ?_
  split
  · exact reject_quietly
  · next helem =>
    split
    · exact reject_quietly
    · split
      · exact reject_quietly
      · exact .pure ⟨ht.element_lt helem, fun _ hnote _ =>
          .plain trivial trivial nofun trivial hnote (.inr trivial) trivial⟩

lemma map_shape_unqualified {target : Expr} (htgt : Fits t scopes target) {note : Note}
    (hnote : note.type = some (t.unqualified (typeOf target))) :
    note.type.map t.shape = target.type?.map t.shape := by
  rw [hnote, htgt.mem_typeOf]
  exact congrArg some (ht.shape_unqualified _)

section Assignments

variable {target : Expr} (htgt : Fits t scopes target)

include htgt

lemma kind_unqualified_target : some (t.kind (t.unqualified (typeOf target))) = target.kind? t := by
  rw [ht.kind_unqualified, htgt.kind?]

lemma assignVerdict_quietly (he : Fits t scopes e) : Quietly t (assignVerdict token target e)
    (Operand t e fun e => Suits t scopes (.assign note target e)) := by
  have hlt := ht.unqualified_lt htgt.typeOf_lt
  have hkind := kind_unqualified_target ht htgt
  refine .types ?_
  split
  · exact reject_operand
  · next hfault =>
    obtain ⟨hplace, hmutable⟩ := assignable_of_fault? hfault
    refine (convert_quietly ht hlt he).bind fun (e', errors) ⟨he', hmeets⟩ => .pure ⟨he', ?_⟩
    split
    · exact Nat.one_ne_zero
    · exact ⟨hlt, fun note hnote hvalue => .plain ⟨htgt.isPlaceForm hplace, (note_kind? hnote).trans hkind,
        fun _ => (hmeets (by omega)).kind?.trans hkind⟩ (map_shape_unqualified ht htgt hnote)
        (fun _ htgt => some.inj htgt ▸ hmutable) trivial hnote (.inl hvalue) trivial⟩

lemma updateVerdict_quietly (op : BinaryOp) (he : Fits t scopes e) :
    Quietly t (updateVerdict token op target e)
      (Operand t e fun e => Suits t scopes (.update note op target e)) := by
  have hlt := ht.unqualified_lt htgt.typeOf_lt
  have hkind := kind_unqualified_target ht htgt
  refine .types ?_
  split
  · exact reject_operand
  · next hfault =>
    obtain ⟨hplace, hmutable⟩ := assignable_of_fault? hfault
    have hform := htgt.isPlaceForm hplace
    dsimp only
    split
    · exact reject_operand
    · next hallowed =>
      obtain ⟨op', rfl⟩ : ∃ op', op = .arith op' := by
        cases op with
        | arith op' => exact ⟨op', rfl⟩
        | compare | and | or => simp [updateAllowed] at hallowed
      have hbits {note : Note} (hnote : note.type = some (t.unqualified (typeOf target)))
          (hgroup : op'.group ≠ .numeric) : note.HasIntegers t := by
        refine ⟨_, note_kind? hnote, ?_⟩
        rw [← isInteger_eq]
        cases h : op'.group <;> simp_all [updateAllowed]
      have hsuits (e' : Expr) (hvalue : target.HasIntegers t → op'.group ≠ .shift →
          e'.kind? t = target.kind? t) : Suits t scopes (.update note (.arith op') target e')
            { type := t.unqualified (typeOf target) } :=
        ⟨hlt, fun _ hnote hplace => .plain ⟨hform, (note_kind? hnote).trans hkind, op', rfl, hvalue,
          hbits hnote⟩ (map_shape_unqualified ht htgt hnote) (fun _ h => some.inj h ▸ hmutable) trivial hnote
          (.inl hplace) trivial⟩
      split
      · next hkeeps =>
        refine value_operand (hsuits e fun hint hshift => ?_)
        -- The value keeps its type for a pointer or a shift only.
        have hptr : t.isPointer (t.unqualified (typeOf target)) = true := by
          simpa [keepsOperand, hshift] using hkeeps
        obtain ⟨k, hk, hinteger⟩ := hint
        rw [← hkind, kind_of_isPointer hptr] at hk
        cases hk
        cases hinteger
      · refine (convert_quietly ht hlt he).bind fun (e', errors) ⟨he', hmeets⟩ =>
          .pure ⟨he', ?_⟩
        split
        · exact Nat.one_ne_zero
        · exact hsuits e' fun _ _ => (hmeets (by omega)).kind?.trans hkind

end Assignments

/-! ## Lists of operands -/

lemma convertAll_quietly (htgt : target < t.slots.size) (hes : ∀ e ∈ es, Fits t scopes e) :
    Quietly t (convertAll target es) fun r =>
      es.Forall₂ (Wraps t) r.1 ∧ (r.2 = 0 → ∀ e ∈ r.1, Meets t target e) := by
  induction es with
  | nil => exact .pure ⟨.nil, fun _ => nofun⟩
  | cons _ _ ih =>
    rw [List.forall_mem_cons] at hes
    refine (convert_quietly ht htgt hes.1).bind fun (e', m) ⟨he', hmeets⟩ =>
      (ih hes.2).bind fun (es', n) ⟨hes', hall⟩ => .pure ⟨.cons he' hes', fun herr => ?_⟩
    obtain ⟨hm, hn⟩ := Nat.add_eq_zero_iff.1 herr
    exact List.forall_mem_cons.2 ⟨hmeets hm, hall hn⟩

lemma passArgument_quietly (hp : p.type < t.slots.size) (he : Fits t scopes e) :
    Quietly t (passArgument p e) fun r => Wraps t e r.1 := by
  unfold passArgument
  split
  · refine .types ?_
    split
    · exact .pure .same
    · exact (Quietly.report _ _).bind fun _ _ => .pure .same
  · exact (convert_quietly ht hp he).imp fun _ h => h.1

lemma passArguments_quietly (hps : ∀ p ∈ ps, p.type < t.slots.size)
    (hes : ∀ e ∈ es, Fits t scopes e) :
    Quietly t (passArguments ps es) fun r => es.Forall₂ (Wraps t) r.1 := by
  induction ps generalizing es with
  | nil => exact .pure (forall₂_wraps t es)
  | cons _ _ ih =>
    cases es with
    | nil => exact .pure .nil
    | cons =>
      rw [List.forall_mem_cons] at hps hes
      exact (passArgument_quietly ht hps.1 hes.1).bind fun (e', _) he' =>
        (ih hps.2 hes.2).bind fun (es', _) hes' => .pure (.cons he' hes')

lemma callVerdict_quietly (hres : signature.result < t.slots.size)
    (hparams : ∀ p ∈ signature.parameters, p.type < t.slots.size)
    (hes : ∀ e ∈ es, Fits t scopes e) :
    Quietly t (callVerdict token callee signature es) fun r => es.Forall₂ (Wraps t) r.1 ∧
      Judges (fun typing => typing.type < t.slots.size ∧ typing.isPlace = false) r.2 := by
  unfold callVerdict
  dsimp only
  split
  · exact fun _ _ => ⟨⟨_, rfl⟩, forall₂_wraps t es, Nat.one_ne_zero⟩
  · refine (passArguments_quietly ht hparams hes).bind fun (es', errors) hes' =>
      .pure ⟨hes', ?_⟩
    split
    · next herrs => exact herrs.ne'
    · exact ⟨hres, rfl⟩

end CompilerCore.Analysis

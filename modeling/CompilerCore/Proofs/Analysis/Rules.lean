import CompilerCore.Proofs.Analysis.Parallel

/-!
# The rules for single nodes, side by side

Whether a rule accepts a node, and which type it gives it, depends on the parts of the node only up to
the numbers of their types.
-/

namespace CompilerCore.Analysis

open Link

/-- Signatures that differ only in types that correspond. -/
structure Signature.Like (R : TypeId → TypeId → Prop) (f f' : Signature) : Prop where
  result : R f.result f'.result
  parameters : f.parameters.Forall₂ (fun p q => p.isReference = q.isReference ∧ R p.type q.type)
    f'.parameters
  isVariadic : f.isVariadic = f'.isVariadic

lemma Signature.Like.mono {f : Signature} (hsub : R ≤ S) (h : f.Like R f') : f.Like S f' :=
  ⟨hsub _ _ h.result, h.parameters.imp fun _ _ hp => ⟨hp.1, hsub _ _ hp.2⟩, h.isVariadic⟩

def Link.signature : Link Signature := fun R => Signature.Like R

namespace Setting

variable {g : Setting} {s s' : State} {N : String → Token → Prop} {D : SymbolId → Prop}
  {e e' lhs lhs' rhs rhs' : Expr} {es es' : List Expr}

/-! ## Operators -/

lemma Paired.withOperand (hm : g.Together m m' s s' Link.verdict)
    (he : e.Like (g.Same s s') N D e') :
    g.Together (m >>= fun v => Pure.pure (e, v)) (m' >>= fun v => Pure.pure (e', v)) s s'
      ((Link.expr N D).prod Link.verdict) :=
  hm.bind fun _ _ _ _ h1 hle hv => .pure h1 ⟨he.mono hle, hv⟩

lemma Paired.withOperands (hm : g.Together m m' s s' verdict)
    (hl : lhs.Like (g.Same s s') N D lhs') (hr : rhs.Like (g.Same s s') N D rhs') :
    g.Together (m >>= fun v => Pure.pure (lhs, rhs, v)) (m' >>= fun v => Pure.pure (lhs', rhs', v))
      s s' (operands N D) :=
  hm.bind fun _ _ _ _ h1 hle hv => .pure h1 ⟨hl.mono hle, hr.mono hle, hv⟩

lemma value_together (h : g.InStep s s') (hab : g.Same s s' a b) :
    g.Together (value a) (value b) s s' verdict :=
  .pure h (.ok false hab)

lemma comparedAfter_verdict (h : g.InStep s s') (errors : Nat) :
    verdict (g.Same s s') (comparedAfter errors) (comparedAfter errors) := by
  unfold comparedAfter
  split
  · exact .ok false (h.builtin .bool)
  · exact .error 1

section Binary

variable (h : g.InStep s s') (hl : lhs.Like (g.Same s s') N D lhs')
  (hr : rhs.Like (g.Same s s') N D rhs')

include h hl hr

lemma badOperands_together (tok : Token) (operator : String) :
    g.Together (do return (lhs, rhs, ← badOperands tok operator lhs rhs))
      (do return (lhs', rhs', ← badOperands tok operator lhs' rhs')) s s' (operands N D) :=
  .withOperands (.reject h) hl hr

lemma unified_together : g.Together (unified lhs rhs) (unified lhs' rhs') s s'
      (operands N D) := by
  refine (unify_together h hl hr).map ?_
  rintro R ⟨l, r, result⟩ ⟨l', r', result'⟩ ⟨hl, hr, hres⟩
  refine ⟨hl, hr, ?_⟩
  cases hres with
  | error errors => exact .error errors
  | ok hsame => exact .ok false hsame

lemma numericVerdict_together :
    g.Together (numericVerdict tok op lhs rhs) (numericVerdict tok op lhs' rhs') s s'
      (operands N D) := by
  refine .types ?_
  have hleft := same_typeOf h hl
  have hright := same_typeOf h hr
  have qleft := h.answers hleft
  have qright := h.answers hright
  have hleft' := hleft.unqualified h.left h.right
  have hright' := hright.unqualified h.left h.right
  have hbad := badOperands_together h hl hr tok op.symbol
  dsimp only
  rw [qleft.isScalar, qright.isScalar, qleft.isPointer, qright.isPointer, qleft.isInteger,
    qright.isInteger, hleft'.equal h.left h.right hright']
  split
  · exact hbad
  · cases s'.types.isPointer (typeOf lhs') <;> cases s'.types.isPointer (typeOf rhs')
    · exact unified_together h hl hr
    · dsimp only
      split
      · exact .withOperands (value_together h hright') hl hr
      · exact hbad
    · dsimp only
      split
      · exact .withOperands (value_together h hleft') hl hr
      · exact hbad
    · dsimp only
      split
      · exact .withOperands (value_together h (h.builtin (.signed .w64))) hl hr
      · exact hbad

lemma arithVerdict_together :
    g.Together (arithVerdict tok op lhs rhs) (arithVerdict tok op lhs' rhs') s s'
      (operands N D) := by
  have hleft := same_typeOf h hl
  have hbad := badOperands_together h hl hr tok op.symbol
  have qleft := h.answers hleft
  have qright := h.answers (same_typeOf h hr)
  unfold arithVerdict
  cases op.group with
  | numeric => exact numericVerdict_together h hl hr
  | shift =>
    refine .types ?_
    rw [qleft.isInteger, qright.isInteger]
    split
    · exact .withOperands (value_together h (hleft.unqualified h.left h.right)) hl hr
    · exact hbad
  | bitwise =>
    refine .types ?_
    rw [qleft.isInteger, qright.isInteger]
    split
    · exact unified_together h hl hr
    · exact hbad

lemma pointerComparison_together :
    g.Together (pointerComparison tok rel lhs rhs) (pointerComparison tok rel lhs' rhs')
      s s' (operands N D) := by
  refine .types ?_
  have hleft := same_typeOf h hl
  have hright := same_typeOf h hr
  have hbad := badOperands_together h hl hr tok rel.symbol
  dsimp only
  rw [(h.answers hleft).isPointer, (h.answers hright).isPointer,
    (hleft.unqualified h.left h.right).equal h.left h.right (hright.unqualified h.left h.right),
    hleft.isVoidPointer h.left h.right, hright.isVoidPointer h.left h.right]
  split
  · split
    · exact .withOperands (value_together h (h.builtin .bool)) hl hr
    · split
      · refine .counted (convert_together h hleft hr) fun h1 hle hr => ?_
        exact .pure h1 ⟨hl.mono hle, hr, comparedAfter_verdict h1 _⟩
      · split
        · refine .counted (convert_together h hright hl) fun h1 hle hl => ?_
          exact .pure h1 ⟨hl, hr.mono hle, comparedAfter_verdict h1 _⟩
        · exact hbad
  · exact hbad

lemma comparisonVerdict_together :
    g.Together (comparisonVerdict tok rel lhs rhs) (comparisonVerdict tok rel lhs' rhs')
      s s' (operands N D) := by
  refine .types ?_
  have qleft := h.answers (same_typeOf h hl)
  have qright := h.answers (same_typeOf h hr)
  dsimp only
  rw [qleft.isScalar, qright.isScalar, qleft.isPointer, qright.isPointer]
  split
  · exact badOperands_together h hl hr tok rel.symbol
  · split
    · exact pointerComparison_together h hl hr
    · refine .bind (unify_together h hl hr) ?_
      rintro ⟨l, r, common⟩ ⟨l', r', common'⟩ s1 s1' h1 hle ⟨hl, hr, hcommon⟩
      cases hcommon with
      | error errors => exact .pure h1 ⟨hl, hr, .error errors⟩
      | ok hsame =>
        refine .types ?_
        rw [(h1.answers hsame).isFloat]
        split
        · refine .bind (.report h1) fun _ _ s2 s2' h2 hle2 _ => ?_
          exact .withOperands (value_together h2 (h2.builtin .bool)) (hl.mono hle2) (hr.mono hle2)
        · exact .withOperands (value_together h1 (h1.builtin .bool)) hl hr

lemma logicalVerdict_together : g.Together (logicalVerdict lhs rhs) (logicalVerdict lhs' rhs') s s'
      (operands N D) := by
  refine .counted (convert_together h (h.builtin .bool) hl) fun h1 hle1 hl1 => ?_
  refine .counted (convert_together h1 (h1.builtin .bool) (hr.mono hle1)) fun h2 hle2 hr2 => ?_
  refine .pure h2 ⟨hl1.mono hle2, hr2, ?_⟩
  split
  · exact .error _
  · exact .ok false (h2.builtin .bool)

lemma binaryVerdict_together (op : BinaryOp) :
    g.Together (binaryVerdict tok op lhs rhs) (binaryVerdict tok op lhs' rhs') s s'
      (operands N D) := by
  cases op with
  | arith op => exact arithVerdict_together h hl hr
  | compare rel => exact comparisonVerdict_together h hl hr
  | and | or => exact logicalVerdict_together h hl hr

lemma conditionalVerdict_together :
    g.Together (conditionalVerdict tok lhs rhs) (conditionalVerdict tok lhs' rhs') s s'
      (operands N D) := by
  refine .types ?_
  have hleft := same_typeOf h hl
  have hright := same_typeOf h hr
  dsimp only
  rw [hleft.equal h.left h.right hright, (h.answers hleft).isNumeric,
    (h.answers hright).isNumeric]
  split
  · exact .withOperands (value_together h (hleft.unqualified h.left h.right)) hl hr
  · split
    · exact unified_together h hl hr
    · refine .counted (convert_together h hleft hr) fun h1 hle hr => ?_
      split
      · exact .withOperands (value_together h1 (hle _ _ hleft)) (hl.mono hle) hr
      · exact .withOperands (.reject h1) (hl.mono hle) hr

end Binary

section Unary

variable (h : g.InStep s s') (he : e.Like (g.Same s s') N D e')

include h he

lemma assignmentFault?_same : assignmentFault? s.types e = assignmentFault? s'.types e' := by
  rw [assignmentFault?, assignmentFault?, he.isPlace,
    (h.answers (same_typeOf h he)).isImmutable]

lemma unaryVerdict_together (op : UnaryOp) :
    g.Together (unaryVerdict tok op e) (unaryVerdict tok op e') s s'
      ((Link.expr N D).prod Link.verdict) := by
  refine .types ?_
  have htype := same_typeOf h he
  have q := h.answers htype
  have hplain := value_together h (htype.unqualified h.left h.right)
  cases op with
  | negate =>
    dsimp only
    rw [q.isScalar, q.isPointer]
    split
    · exact .withOperand hplain he
    · exact .withOperand (.reject h) he
  | complement =>
    dsimp only
    rw [q.isInteger]
    split
    · exact .withOperand hplain he
    · exact .withOperand (.reject h) he
  | not =>
    refine .counted (convert_together h (h.builtin .bool) he) fun h1 hle hr => ?_
    exact .pure h1 ⟨hr, comparedAfter_verdict h1 _⟩
  | address =>
    dsimp only
    rw [he.isPlace, q.isFunction]
    split
    · exact .withOperand (.reject h) he
    · obtain ⟨τ, ha, hb⟩ := htype
      refine .bind (Q := Link.type) ?_ fun _ _ s1 s1' h1 hle hab =>
        .withOperand (value_together h1 hab) (he.mono hle)
      apply makeType_together h
      · exact h.left.pointerTo ha
      · exact h.right.pointerTo hb
  | deref =>
    dsimp only
    refine optionRel_elim (htype.pointee? h.left h.right) ?_ fun hsame => ?_
    · exact .withOperand (.reject h) he
    · dsimp only
      rw [(h.answers hsame).isVoid]
      split
      · exact .withOperand (.reject h) he
      · exact .pure h ⟨he, .ok true hsame⟩
  | step =>
    dsimp only
    rw [q.isScalar, assignmentFault?_same h he]
    split
    · exact .withOperand (.reject h) he
    · cases assignmentFault? s'.types e' with
      | none => exact .withOperand hplain he
      | some => exact .withOperand (.reject h) he

/-! ## Parts of aggregates -/

lemma memberVerdict_together (member : String) (deref : Bool) :
    g.Together (memberVerdict tok e member deref)
      (memberVerdict tok e' member deref) s s' verdict := by
  refine .types ?_
  have htype := same_typeOf h he
  have howner : Option.Rel (g.Same s s') (memberOwner? s.types (typeOf e) deref)
      (memberOwner? s'.types (typeOf e') deref) := by
    unfold memberOwner?
    rw [(h.answers htype).isRecord]
    cases deref with
    | false =>
      split
      · contradiction
      · split
        · exact .some htype
        · exact .none
    | true =>
      exact optionRel_filter (htype.pointee? h.left h.right) fun hsame => (h.answers hsame).isRecord
  refine optionRel_elim howner (.reject h) fun hsame => ?_
  dsimp only
  refine optionRel_elim (TypeTable.Same.member? h.left h.right hsame member) (.reject h) fun hm => ?_
  rw [he.isPlace]
  exact .pure h (.ok _ hm.1)

lemma castVerdict_together (hab : g.Same s s' a b) (isImplicit : Bool) :
    g.Together (castVerdict tok e a isImplicit) (castVerdict tok e' b isImplicit) s s'
      verdict := by
  refine .types ?_
  have htype := same_typeOf h he
  have q := h.answers htype
  have q' := h.answers hab
  have hallowed : castAllowed s.types (typeOf e) a = castAllowed s'.types (typeOf e') b := by
    rw [castAllowed, castAllowed, (htype.unqualified h.left h.right).equal h.left h.right hab,
      q'.isVoid, q.isNumeric, q'.isNumeric, q.isPointer, q'.isPointer, q.isInteger, q'.isInteger]
  rw [hallowed]
  split
  · exact value_together h hab
  · exact .reject h

lemma testErrors_together : g.Together (testErrors e) (testErrors e') s s' .eq := by
  refine .types ?_
  rw [(h.answers (same_typeOf h he)).isTestable]
  split
  · exact .pure h rfl
  · exact (Paired.report h).map fun _ _ _ _ => rfl

end Unary

section Pairs

variable (h : g.InStep s s') (hl : lhs.Like (g.Same s s') N D lhs')
  (hr : rhs.Like (g.Same s s') N D rhs')

include h hl hr

lemma indexVerdict_together :
    g.Together (indexVerdict tok lhs rhs) (indexVerdict tok lhs' rhs') s s' verdict := by
  refine .types ?_
  have hbase := same_typeOf h hl
  have q := h.answers hbase
  refine optionRel_elim (hbase.element? h.left h.right) (.reject h) fun hsame => ?_
  have hrange : isOutOfRange s.types (typeOf lhs) = isOutOfRange s'.types (typeOf lhs') := by
    funext index
    rw [isOutOfRange, isOutOfRange, q.isArray, q.length]
  dsimp only
  rw [(h.answers (same_typeOf h hr)).isInteger, hr.integer?, hrange]
  split
  · exact .reject h
  · cases rhs'.integer?.filter (isOutOfRange s'.types (typeOf lhs')) with
    | none => exact .pure h (.ok true hsame)
    | some => exact .reject h

omit hl in
lemma convertAssigned_together (hab : g.Same s s' a b) : g.Together (do
        let (assigned, errors) ← convert a rhs
        return (assigned, if 0 < errors then .error 1 else .ok { type := a }))
      (do
        let (assigned, errors) ← convert b rhs'
        return (assigned, if 0 < errors then .error 1 else .ok { type := b })) s s'
      ((Link.expr N D).prod Link.verdict) := by
  refine .counted (convert_together h hab hr) fun h1 hle hr => ?_
  refine .pure h1 ⟨hr, ?_⟩
  split
  · exact .error 1
  · exact .ok false (hle _ _ hab)

lemma assignVerdict_together :
    g.Together (assignVerdict tok lhs rhs) (assignVerdict tok lhs' rhs') s s'
      ((Link.expr N D).prod Link.verdict) := by
  refine .types ?_
  rw [assignmentFault?_same h hl]
  cases assignmentFault? s'.types lhs' with
  | some => exact .withOperand (.reject h) hr
  | none => exact convertAssigned_together h hr ((same_typeOf h hl).unqualified h.left h.right)

lemma updateVerdict_together (op : BinaryOp) :
    g.Together (updateVerdict tok op lhs rhs) (updateVerdict tok op lhs' rhs') s s'
      ((Link.expr N D).prod Link.verdict) := by
  refine .types ?_
  rw [assignmentFault?_same h hl]
  cases assignmentFault? s'.types lhs' with
  | some => exact .withOperand (.reject h) hr
  | none =>
    have htype := (same_typeOf h hl).unqualified h.left h.right
    have q := h.answers htype
    have q' := h.answers (same_typeOf h hr)
    have hallowed : updateAllowed s.types op (s.types.unqualified (typeOf lhs)) (typeOf rhs) =
        updateAllowed s'.types op (s'.types.unqualified (typeOf lhs')) (typeOf rhs') := by
      unfold updateAllowed
      rw [q.isScalar, q'.isScalar, q.isInteger, q'.isInteger]
    have hkeeps : keepsOperand s.types op (s.types.unqualified (typeOf lhs)) =
        keepsOperand s'.types op (s'.types.unqualified (typeOf lhs')) := by
      unfold keepsOperand
      rw [q.isPointer]
    dsimp only
    rw [hallowed, hkeeps]
    split
    · exact .withOperand (.reject h) hr
    · split
      · exact .withOperand (value_together h htype) hr
      · exact convertAssigned_together h hr htype

end Pairs

section Lists

variable (h : g.InStep s s') (hes : es.Forall₂ (Expr.Like (g.Same s s') N D) es')

include h hes

lemma collectionType_together (ho : Option.Rel (g.Same s s') o o') :
    g.Together (collectionType tok es o) (collectionType tok es' o') s s' type.option := by
  refine .types ?_
  have hnone (c c' : Complaint) : g.Together (do report tok c; return none)
      (do report tok c'; return none) s s' type.option :=
    (Paired.report h).map fun _ _ _ _ => .none
  cases ho with
  | some hsame =>
    dsimp only
    rw [(h.answers hsame).length, hes.length_eq]
    split
    · exact hnone _ _
    · exact .pure h (.some hsame)
  | none =>
    rw [hes.length_eq]
    cases hes with
    | nil => exact hnone _ _
    | cons he =>
      obtain ⟨τ, ha, hb⟩ := (same_typeOf h he).unqualified h.left h.right
      refine .map (Q := .type) ?_ fun _ _ _ hab => .some hab
      apply makeType_together h
      · exact h.left.arrayOf ha _
      · exact h.right.arrayOf hb _

lemma collectionVerdict_together (ho : Option.Rel (g.Same s s') o o') :
    g.Together (collectionVerdict tok es o) (collectionVerdict tok es' o') s s'
      ((Link.expr N D).list.prod Link.verdict) := by
  refine .bind (collectionType_together h hes ho) fun array array' s1 s1' h1 hle harray => ?_
  cases harray with
  | none => exact .pure h1 ⟨list_mono hle hes, .error 1⟩
  | @some array array' hsame =>
    refine .types ?_
    have helem := optionRel_getD (TypeTable.Same.element? h1.left h1.right hsame) (h1.builtin .void)
    refine .counted (convertAll_together h1 helem (list_mono hle hes)) fun h2 hle2 hrs => ?_
    refine .pure h2 ⟨hrs, ?_⟩
    split
    · exact .error _
    · exact .ok false (hle2 _ _ hsame)

end Lists

/-! ## Calls -/

lemma callTarget_together (h : g.InStep s s')
    (hname : g.Names c.scope callee tok) :
    g.Together (callTarget c tok callee) (callTarget c tok callee) s s'
      (eq.prod signature).option := by
  refine .bind (lookupSymbol_together h c callee tok) ?_
  rintro found found' s1 s1' h1 - ⟨hfound, hsame⟩
  rw [hsame]
  cases found with
  | none => exact (Paired.report h1).map fun _ _ _ _ => .none
  | some id =>
    refine .bind (markReferenced_together h1 id) fun _ _ s2 s2' h2 _ _ => .get ?_
    have hsig : Option.Rel (Signature.Like (g.Same s2 s2'))
        (signature? s2.types (s2.scopes.symbol id)) (signature? s2'.types (s2'.scopes.symbol id)) := by
      unfold signature?
      rw [h2.field Symbol.kind (fun _ => rfl) id]
      cases (s2'.scopes.symbol id).kind with
      | function =>
        refine optionRel_elim (h2.symbols id (hname id hfound.symm)) .none @fun a b hab => ?_
        have hshape := TypeTable.Same.shape h2.left h2.right hab
        dsimp only
        generalize s2.types.shape a = r, s2'.types.shape b = r' at hshape ⊢
        cases hshape with
        | function _ hres hparams => exact .some ⟨hres, hparams, rfl⟩
        | _ => exact .none
      | _ => exact .none
    refine optionRel_elim hsig ?_ fun hf => .pure h2 (.some ⟨rfl, hf⟩)
    exact (Paired.report h2).map fun _ _ _ _ => .none

lemma passArgument_together (h : g.InStep s s') (he : e.Like (g.Same s s') N D e')
    (hp : p.isReference = p'.isReference ∧ g.Same s s' p.type p'.type) :
    g.Together (passArgument p e) (passArgument p' e') s s' ((Link.expr N D).prod .eq) := by
  unfold passArgument
  rw [hp.1]
  split
  · refine .types ?_
    rw [he.isPlace, (same_typeOf h he).equal h.left h.right hp.2]
    split
    · exact .pure h ⟨he, rfl⟩
    · refine .bind (.report h) fun _ _ s1 s1' h1 hle _ => .pure h1 ⟨?_, rfl⟩
      exact he.mono hle
  · exact convert_together h hp.2 he

lemma passArguments_together (h : g.InStep s s')
    (hes : es.Forall₂ (Expr.Like (g.Same s s') N D) es')
    (hps : ps.Forall₂ (fun p q => p.isReference = q.isReference ∧ g.Same s s' p.type q.type) ps') :
    g.Together (passArguments ps es) (passArguments ps' es') s s'
      ((Link.expr N D).list.prod .eq) := by
  induction ps generalizing ps' es es' s s' with
  | nil =>
    cases hps
    exact .pure h ⟨hes, rfl⟩
  | cons _ _ ih =>
    cases hps with
    | cons hp hps =>
      cases hes with
      | nil => exact .pure h ⟨.nil, rfl⟩
      | cons he hes =>
        refine .counted (passArgument_together h he hp) fun h1 hle1 hr => ?_
        have hps' := hps.imp fun _ _ hp => And.intro hp.1 (hle1 _ _ hp.2)
        refine .counted (ih h1 (list_mono hle1 hes) hps') fun h2 hle2 hrs => ?_
        exact .pure h2 ⟨.cons (hr.mono hle2) hrs, rfl⟩

lemma callVerdict_together (h : g.InStep s s')
    (hes : es.Forall₂ (Expr.Like (g.Same s s') N D) es')
    (hf : f.Like (g.Same s s') f') (callee : String) :
    g.Together (callVerdict tok callee f es) (callVerdict tok callee f' es') s s'
      ((Link.expr N D).list.prod Link.verdict) := by
  unfold callVerdict
  rw [hf.parameters.length_eq, hes.length_eq, hf.isVariadic]
  dsimp only
  split
  · exact .bind (.reject h) fun _ _ s1 s1' h1 hle hv => .pure h1 ⟨list_mono hle hes, hv⟩
  · refine .counted (passArguments_together h hes hf.parameters) fun h1 hle hrs => ?_
    refine .pure h1 ⟨hrs, ?_⟩
    split
    · exact .error _
    · exact .ok false (hle _ _ hf.result)

end Setting

end CompilerCore.Analysis

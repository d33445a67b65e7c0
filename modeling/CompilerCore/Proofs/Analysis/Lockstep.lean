import CompilerCore.Analysis.Waves
import CompilerCore.Proofs.Analysis.Rules

/-!
# Analyses that keep in step

Two analyses that agree about the symbols which a piece of the program names go through it in step,
expression by expression and statement by statement.
-/

namespace CompilerCore

open Analysis

namespace Analysis.Setting

variable {g : Setting} {s s' : State} {c : Context}

/-! ## Expressions -/

abbrev exprLink (g : Setting) (scope : ScopeId) : Link Expr := .expr (g.Names scope) g.Declared

/-- An expression is analyzed in step with all expressions that are like it. -/
def Follows (g : Setting) (c : Context) (e : Expr) : Prop :=
  ∀ {e' : Expr} {s s' : State} {o o' : Option TypeId}, g.InStep s s' →
    g.exprLink c.scope (g.Same s s') e e' → Option.Rel (g.Same s s') o o' →
    g.Together (expr c e o) (expr c e' o') s s'
      ((g.exprLink c.scope).prod .eq)

lemma exprs_together (ih : ∀ e ∈ es, g.Follows c e) (h : g.InStep s s')
    (hes : (g.exprLink c.scope).list (g.Same s s') es es') (ho : Option.Rel (g.Same s s') o o') :
    g.Together (exprs c es o) (exprs c es' o') s s' ((g.exprLink c.scope).list.prod .eq) := by
  induction es generalizing es' s s' with
  | nil =>
    cases hes
    exact .pure h ⟨.nil, rfl⟩
  | cons e _ ihs =>
    cases hes with
    | cons he hes =>
      refine .counted (ih e (.head _) h he ho) fun h1 hle1 hr => ?_
      refine .counted (ihs (fun e he => ih e (.tail _ he)) h1 (list_mono hle1 hes)
        (optionRel_mono hle1 ho)) fun h2 hle2 hrs => ?_
      exact .pure h2 ⟨.cons (hr.mono hle2) hrs, rfl⟩

variable {note : Note}

lemma literal_follows {value : Literal} : g.Follows c (.literal note value) := by
  intro e' s s' o o' h he _
  cases he with
  | @literal _ note' _ hn =>
    have htype := hn.type
    obtain ⟨tok, type, isPlace⟩ := note
    obtain ⟨token', type', isPlace'⟩ := note'
    cases htype with
    | some hsame => exact conclude_together h (.literal value hn) (.ok false hsame)
    | none =>
      refine .bind (literalType_together h value) fun a b s1 s1' h1 hle hab => ?_
      exact conclude_together h1 (.literal value (hn.mono hle)) (.ok false hab)

variable {text : String} {test e e' : Expr} {o o' : Option Expr} {body : Stmt}

lemma name_follows : g.Follows c (.name note text symbol) := by
  intro e' s s' o o' h he _
  cases he with
  | name _ _ hn hname =>
    rw [expr, expr, ← hn.token]
    refine .bind (nameVerdict_together h hname symbol) ?_
    rintro ⟨symbol, v⟩ ⟨symbol', v'⟩ s1 s1' h1 hle ⟨rfl, hv⟩
    exact conclude_together h1 (.name text symbol (hn.mono hle) hname) hv

lemma node_together {make make' : α → Expr} {ruling ruling' : α → Verdict} (h : g.InStep s s')
    (he : e.Like (g.Same s s') N D e') (hm : g.Together m m' s s' P)
    (hmake : ∀ {R : TypeId → TypeId → Prop} {a a' : α}, g.Same s s' ≤ R → P R a a' →
      (make a).Like R N D (make' a') ∧ Link.verdict R (ruling a) (ruling' a')) :
    g.Together (if 0 < n then return (e, n) else do
        let a ← m
        conclude (make a) (ruling a))
      (if 0 < n then return (e', n) else do
        let a ← m'
        conclude (make' a) (ruling' a)) s s' ((Link.expr N D).prod .eq) := by
  split
  · exact .pure h ⟨he, rfl⟩
  · refine .bind hm fun a a' s1 s1' h1 hle ha => ?_
    exact conclude_together h1 (hmake hle ha).1 (hmake hle ha).2

/-- A step after two operands, the second of which may be analyzed for a type of the first. -/
lemma operands_together {E : Expr → Option TypeId} {f f' : Expr × Nat → Expr × Nat → Analyze α}
    (ihl : g.Follows c l) (ihr : g.Follows c r) (h : g.InStep s s')
    (hl : g.exprLink c.scope (g.Same s s') l l') (hr : g.exprLink c.scope (g.Same s s') r r')
    (hE : ∀ {R x x'}, g.exprLink c.scope R x x' → Option.Rel R (E x) (E x'))
    (hf : ∀ {s1 s1' l l' r r' m n}, g.InStep s1 s1' → g.Same s s' ≤ g.Same s1 s1' →
      g.exprLink c.scope (g.Same s1 s1') l l' →
      g.exprLink c.scope (g.Same s1 s1') r r' →
      g.Together (f (l, m) (r, n)) (f' (l', m) (r', n)) s1 s1' P) :
    g.Together (expr c l none >>= fun a => expr c r (E a.1) >>= f a)
      (expr c l' none >>= fun a => expr c r' (E a.1) >>= f' a) s s' P := by
  refine .counted (ihl h hl .none) fun h1 hle1 hl => ?_
  refine .counted (ihr h1 (hr.mono hle1) (hE hl)) fun h2 hle2 hr => ?_
  exact hf h2 (hle1.trans hle2) (hl.mono hle2) hr

lemma binary_follows (ihl : g.Follows c lhs) (ihr : g.Follows c rhs) :
    g.Follows c (.binary note op lhs rhs) := by
  intro e' s s' o o' h he _
  cases he with
  | binary _ hn hl hr =>
    rw [expr, expr, ← hn.token]
    refine operands_together ihl ihr h hl hr (E := fun _ => none) (fun _ => .none) fun h1 hle hl hr => ?_
    exact node_together h1 (.binary op (hn.mono hle) hl hr) (binaryVerdict_together h1 hl hr op)
      fun hle' ⟨hl, hr, hv⟩ => ⟨.binary op ((hn.mono hle).mono hle') hl hr, hv⟩

lemma unary_follows {operand : Expr} (ih : g.Follows c operand) :
    g.Follows c (.unary note op operand) := by
  intro e' s s' o o' h he _
  cases he with
  | unary _ hn he =>
    rw [expr, expr, ← hn.token]
    refine .counted (ih h he .none) fun h1 hle hr => ?_
    exact node_together h1 (.unary op (hn.mono hle) hr) (unaryVerdict_together h1 hr op)
      fun hle' ⟨hr, hv⟩ => ⟨.unary op ((hn.mono hle).mono hle') hr, hv⟩

lemma conditional_follows (iht : g.Follows c test) (ihy : g.Follows c yes) (ihn : g.Follows c no) :
    g.Follows c (.conditional note test yes no) := by
  intro e' s s' o o' h he ho
  cases he with
  | @conditional _ note' _ _ _ yes' _ no' hn ht hy hno =>
    -- The branches are analyzed in both cases of the test.
    have hrest {s1 s1' : State} (h1 : g.InStep s1 s1') (hle : g.Same s s' ≤ g.Same s1 s1')
        {r r' : Expr} (hr : g.exprLink c.scope (g.Same s1 s1') r r') (k : Nat) :
        g.Together (conditionalBranches c note r yes no o k)
          (conditionalBranches c note' r' yes' no' o' k) s1 s1' ((g.exprLink c.scope).prod .eq) := by
      unfold conditionalBranches
      rw [← hn.token]
      have ho1 := optionRel_mono hle ho
      refine .counted (ihy h1 (hy.mono hle) ho1) fun h2 hle2 hy => ?_
      refine .counted (ihn h2 ((hno.mono hle).mono hle2) (optionRel_mono hle2 ho1)) fun h3 hle3 hz => ?_
      have hn3 := ((hn.mono hle).mono hle2).mono hle3
      have hr3 := (hr.mono hle2).mono hle3
      exact node_together h3 (.conditional hn3 hr3 (hy.mono hle3) hz)
        (conditionalVerdict_together h3 (hy.mono hle3) hz) fun hle4 h =>
          ⟨.conditional (hn3.mono hle4) (hr3.mono hle4) h.1 h.2.1, h.2.2⟩
    rw [expr, expr]
    refine .counted (iht h ht .none) fun h1 hle1 hr => ?_
    dsimp only
    split
    · exact hrest h1 hle1 hr _
    · refine .bind (testErrors_together h1 hr) ?_
      rintro k k' s2 s2' h2 hle2 rfl
      exact hrest h2 (hle1.trans hle2) (hr.mono hle2) k

lemma member_follows {deref : Bool} (ih : g.Follows c object) :
    g.Follows c (.member note object text deref) := by
  intro e' s s' o o' h he _
  cases he with
  | member _ _ hn he =>
    rw [expr, expr, ← hn.token]
    refine .counted (ih h he .none) fun h1 hle hr => ?_
    have hnode := Expr.Like.member text deref (hn.mono hle) hr
    exact node_together h1 hnode (memberVerdict_together h1 hr text deref)
      fun hle' hv => ⟨hnode.mono hle', hv⟩

lemma qualified_follows : g.Follows c (.qualified note scope text) := by
  intro e' s s' o o' h he _
  cases he with
  | qualified _ _ hn =>
    rw [expr, expr, ← hn.token]
    refine .bind (Q := (g.exprLink c.scope).option)
      (qualifiedConstant_together h c note.token scope text) fun r r' s1 s1' h1 hle hr => ?_
    cases hr with
    | some hr => exact .pure h1 ⟨hr, rfl⟩
    | none => exact .pure h1 ⟨.qualified scope text (hn.mono hle), rfl⟩

lemma call_follows {symbol : Option SymbolId}
    (ih : ∀ e ∈ args, g.Follows c e) : g.Follows c (.call note callee symbol args) := by
  intro e' s s' o o' h he _
  cases he with
  | call _ _ hn hname hes =>
    rw [expr, expr, ← hn.token]
    refine .bind (callTarget_together h hname) fun t t' s1 s1' h1 hle1 ht => ?_
    cases ht with
    | none =>
      exact .pure h1 ⟨.call callee symbol (hn.mono hle1) hname (list_mono hle1 hes), rfl⟩
    | @some t t' ht =>
      obtain ⟨id, f⟩ := t
      obtain ⟨rfl, hf⟩ := ht
      refine .counted (exprs_together ih h1 (list_mono hle1 hes) .none) fun h2 hle2 hrs => ?_
      have hn2 := (hn.mono hle1).mono hle2
      exact node_together h2 (.call callee _ hn2 hname hrs)
        (callVerdict_together h2 hrs (hf.mono hle2) callee) fun hle3 ⟨hrs, hv⟩ =>
          ⟨.call callee _ (hn2.mono hle3) hname hrs, hv⟩

lemma index_follows {base : Expr} (ihb : g.Follows c base) (ihi : g.Follows c index) :
    g.Follows c (.index note base index) := by
  intro e' s s' o o' h he _
  cases he with
  | index hn hb hi =>
    rw [expr, expr, ← hn.token]
    refine operands_together ihb ihi h hb hi (E := fun _ => none) (fun _ => .none) fun h1 hle hb hi => ?_
    have hnode := Expr.Like.index (hn.mono hle) hb hi
    exact node_together h1 hnode (indexVerdict_together h1 hb hi) fun hle' hv => ⟨hnode.mono hle', hv⟩

lemma collection_follows {elems : List Expr} (ih : ∀ e ∈ elems, g.Follows c e) :
    g.Follows c (.collection note elems) := by
  intro e' s s' o o' h he ho
  cases he with
  | collection hn hes =>
    rw [expr, expr, ← hn.token]
    refine .types ?_
    have harray := optionRel_filter ho fun hsame => (h.answers hsame).isArray
    have helem := optionRel_bind harray fun hsame => TypeTable.Same.element? h.left h.right hsame
    refine .counted (exprs_together ih h hes helem) fun h1 hle hrs => ?_
    exact node_together h1 (.collection (hn.mono hle) hrs)
      (collectionVerdict_together h1 hrs (optionRel_mono hle harray)) fun hle' ⟨hrs, hv⟩ =>
        ⟨.collection ((hn.mono hle).mono hle') hrs, hv⟩

lemma cast_follows {target : TypeId}
    (ih : g.Follows c operand) : g.Follows c (.cast note operand target isImplicit) := by
  intro e' s s' o o' h he _
  cases he with
  | cast _ hn he htgt =>
    rw [expr, expr, ← hn.token]
    refine .counted (ih h he .none) fun h1 hle hr => ?_
    have hnode := Expr.Like.cast isImplicit (hn.mono hle) hr (hle _ _ htgt)
    exact node_together h1 hnode (castVerdict_together h1 hr (hle _ _ htgt) isImplicit)
      fun hle' hv => ⟨hnode.mono hle', hv⟩

lemma assign_follows (iht : g.Follows c target) (iha : g.Follows c assigned) :
    g.Follows c (.assign note target assigned) := by
  intro e' s s' o o' h he _
  cases he with
  | assign hn ht ha =>
    rw [expr, expr, ← hn.token]
    refine operands_together iht iha h ht ha (fun hl => hl.type?) fun h1 hle ht ha => ?_
    exact node_together h1 (.assign (hn.mono hle) ht ha) (assignVerdict_together h1 ht ha)
      fun hle' ⟨ha, hv⟩ => ⟨.assign ((hn.mono hle).mono hle') (ht.mono hle') ha, hv⟩

lemma update_follows (iht : g.Follows c target) (iha : g.Follows c assigned) :
    g.Follows c (.update note op target assigned) := by
  intro e' s s' o o' h he _
  cases he with
  | update _ hn ht ha =>
    rw [expr, expr, ← hn.token]
    refine operands_together iht iha h ht ha (E := fun _ => none) (fun _ => .none) fun h1 hle ht ha => ?_
    exact node_together h1 (.update op (hn.mono hle) ht ha) (updateVerdict_together h1 ht ha op)
      fun hle' ⟨ha, hv⟩ => ⟨.update op ((hn.mono hle).mono hle') (ht.mono hle') ha, hv⟩

lemma declare_follows (ih : ∀ e ∈ init, g.Follows c e) :
    g.Follows c (.declare note symbol init) := by
  intro e' s s' o o' h he _
  cases he with
  | declare _ hn hx =>
    refine .get ?_
    dsimp only
    refine optionRel_elim (h.symbols symbol hx.1) ?_ fun hsame => ?_
    · refine .bind (.reject h) fun v v' s1 s1' h1 hle hv => ?_
      exact conclude_together h1 (.declare symbol (hn.mono hle) hx) hv
    · exact conclude_together h (.declare symbol hn hx) (.ok false hsame)
  | @declareWith _ _ init _ _ hn hx he =>
    have htype := h.symbols symbol hx.1
    have hgiven := h.names.type symbol
    have ih : g.Follows c init := ih init rfl
    refine .get ?_
    generalize (s.scopes.symbol symbol).type = r, (s'.scopes.symbol symbol).type = r'
      at htype hgiven ⊢
    cases htype with
    | some hsame =>
      refine .counted (ih h he (.some hsame)) fun h1 hle1 hr => ?_
      dsimp only
      split
      · exact .pure h1 ⟨.declareWith symbol (hn.mono hle1) hx hr, rfl⟩
      · refine .counted (convert_together h1 (hle1 _ _ hsame) hr) fun h2 hle2 hr => ?_
        refine conclude_together h2 (.declareWith symbol ((hn.mono hle1).mono hle2) hx hr) ?_
        split
        · exact .error 1
        · exact .ok false (hle2 _ _ (hle1 _ _ hsame))
    | none =>
      -- The symbol was not given a type at the start either.
      have hnone : (g.scopes.symbol symbol).type = none := by
        cases hstart : (g.scopes.symbol symbol).type with
        | none => rfl
        | some type => cases hgiven type hstart
      refine .counted (ih h he .none) @fun r r' n _ _ h1 hle1 hr => ?_
      dsimp only
      refine optionRel_elim hr.type? ?_ fun hsame => ?_
      · exact .pure h1 ⟨.declareWith symbol (hn.mono hle1) hx hr, rfl⟩
      · refine .types ?_
        have hplain := TypeTable.Same.unqualified h1.left h1.right hsame
        refine .bind (setType_together h1 hx hnone hplain) fun _ _ s2 s2' h2 hle2 _ => ?_
        refine conclude_together h2
          (.declareWith symbol ((hn.mono hle1).mono hle2) hx (hr.mono hle2)) ?_
        split
        · exact .error n
        · exact .ok false (hle2 _ _ hplain)

lemma sizeOf_follows : g.Follows c (.sizeOf note type) := by
  intro e' s s' o o' h he _
  cases he with
  | sizeOf hn htype =>
    rw [expr, expr, ← hn.token]
    refine .types (.pure h ⟨?_, rfl⟩)
    rw [TypeTable.Same.size h.left h.right htype]
    exact .constant _ _ (h.builtin (.unsigned .w64))

lemma expr_follows : g.Follows c e := by
  induction e using Expr.induction with
  | literal => exact literal_follows
  | name => exact name_follows
  | binary _ _ _ _ ihl ihr => exact binary_follows ihl ihr
  | unary _ _ _ ih => exact unary_follows ih
  | conditional _ _ _ _ ihc ihy ihn => exact conditional_follows ihc ihy ihn
  | member _ _ _ _ ih => exact member_follows ih
  | qualified => exact qualified_follows
  | call _ _ _ _ ih => exact call_follows ih
  | index _ _ _ ihb ihi => exact index_follows ihb ihi
  | collection _ _ ih => exact collection_follows ih
  | cast _ _ _ _ ih => exact cast_follows ih
  | assign _ _ _ iht iha => exact assign_follows iht iha
  | update _ _ _ _ iht iha => exact update_follows iht iha
  | declare _ _ _ ih => exact declare_follows ih
  | sizeOf => exact sizeOf_follows

lemma condition_together (h : g.InStep s s')
    (he : g.exprLink c.scope (g.Same s s') e e') :
    g.Together (condition c e) (condition c e') s s'
      ((g.exprLink c.scope).prod .eq) := by
  refine .counted (expr_follows h he .none) fun h1 hle hr => ?_
  dsimp only
  split
  · exact .pure h1 ⟨hr, rfl⟩
  · refine .bind (testErrors_together h1 hr) fun k k' s2 s2' h2 hle2 hk => .pure h2 ⟨?_, hk⟩
    exact hr.mono hle2

/-! ## Parts of statements -/

lemma fault_together (h : g.InStep s s') {c c' : Complaint} :
    g.Together (fault tok c) (fault token' c') s s' .eq :=
  (Paired.report h).map fun _ _ _ _ => rfl

lemma Paired.withPart {P : Link α} (hm : g.Together m m' s s' .eq)
    (ha : ∀ {R S : TypeId → TypeId → Prop}, R ≤ S → P R a a' → P S a a')
    (hP : P (g.Same s s') a a') :
    g.Together (m >>= fun n => Pure.pure (a, n)) (m' >>= fun n => Pure.pure (a', n)) s s'
      (P.prod .eq) :=
  hm.bind fun _ _ _ _ h1 hle hn => .pure h1 ⟨ha hle hP, hn⟩

section

variable (h : g.InStep s s')
include h

lemma setSwitch_together {o o' : Option OpenSwitch}
    (ho : Option.Rel (OpenSwitch.Like (g.Same s s')) o o') :
    g.Together (modify fun s => { s with switch := o }) (modify fun s => { s with switch := o' }) s s'
      .eq :=
  ⟨⟨⟨h.left, h.right, h.names, h.names', h.symbols⟩, ho, h.cleanups⟩,
    ⟨.refl _, fun _ => .inl rfl⟩, ⟨.refl _, fun _ => .inl rfl⟩, rfl⟩

lemma returned_together (hc : g.Same s s' c.returnType c.returnType) {tok : Token}
    (ho : (g.exprLink c.scope).option (g.Same s s') o o') :
    g.Together (returned c tok o) (returned c tok o') s s' ((g.exprLink c.scope).option.prod .eq) := by
  cases ho with
  | none =>
    refine .types ?_
    rw [(h.answers hc).isVoid]
    split
    · exact .pure h ⟨.none, rfl⟩
    · exact (fault_together h).map fun _ _ _ hn => ⟨.none, hn⟩
  | some he =>
    refine .counted (expr_follows h he (.some hc)) fun h1 hle1 hr => ?_
    have hc1 := hle1 _ _ hc
    dsimp only
    split
    · exact .pure h1 ⟨.some hr, rfl⟩
    · refine .types ?_
      rw [(h1.answers hc1).isVoid,
        (h1.answers (same_typeOf h1 hr)).isVoid]
      split
      · refine .bind (fault_together h1) fun _ _ s2 s2' h2 hle2 hn => .pure h2 ⟨?_, hn⟩
        exact .some (hr.mono hle2)
      · exact (convert_together h1 hc1 hr).map fun _ _ _ hr => ⟨.some hr.1, hr.2⟩

lemma recordCase_together {o o' : OpenSwitch}
    (ho : o.Like (g.Same s s') o') :
    g.Together (recordCase tok constant o) (recordCase tok constant o') s s' .eq := by
  unfold recordCase
  rw [ho.cases]
  split
  · exact fault_together h
  · refine .map (Q := .eq) ?_ fun _ _ _ _ => rfl
    exact setSwitch_together h (.some ⟨ho.valueType, rfl, ho.hasDefault⟩)

lemma caseValue_together (he : g.exprLink c.scope (g.Same s s') e e') :
    g.Together (caseValue c tok e) (caseValue c tok e') s s' ((g.exprLink c.scope).prod .eq) := by
  have hfault {s s' : State} {e e' : Expr} {tok tok' : Token} {c' c'' : Complaint}
      (h : g.InStep s s') (he : g.exprLink c.scope (g.Same s s') e e') :
      g.Together (do return (e, ← fault tok c')) (do return (e', ← fault tok' c'')) s s'
        ((g.exprLink c.scope).prod .eq) :=
    .withPart (P := g.exprLink c.scope) (fault_together h) (fun hle => .mono hle) he
  refine .get ?_
  refine optionRel_elim h.switch (hfault h he) fun ho => ?_
  refine .counted (expr_follows h he .none) fun h1 hle1 hr => ?_
  have ho1 := ho.mono hle1
  dsimp only
  split
  · exact .pure h1 ⟨hr, rfl⟩
  · refine optionRel_elim ho1.valueType (.pure h1 ⟨hr, rfl⟩) fun hsame => ?_
    dsimp only
    rw [hr.isLiteral]
    split
    · exact hfault h1 hr
    · refine .counted (convert_together h1 hsame hr) fun h2 hle2 hr => ?_
      rw [hr.integer?, hr.token]
      split
      · exact .pure h2 ⟨hr, rfl⟩
      · dsimp only
        split
        · exact hfault h2 hr
        · exact .withPart (P := g.exprLink c.scope)
            (recordCase_together h2 (ho1.mono hle2)) (fun hle => .mono hle) hr

lemma defaultErrors_together : g.Together (defaultErrors tok) (defaultErrors tok) s s' .eq := by
  refine .get ?_
  refine optionRel_elim h.switch (fault_together h) fun ho => ?_
  dsimp only
  rw [ho.hasDefault]
  split
  · exact fault_together h
  · refine .map (Q := .eq) ?_ fun _ _ _ _ => rfl
    exact setSwitch_together h (.some ⟨ho.valueType, ho.cases, rfl⟩)

lemma switchType_together (he : g.exprLink c.scope (g.Same s s') e e') :
    g.Together (switchType e) (switchType e') s s' (Link.type.option.prod .eq) := by
  have htype := same_typeOf h he
  refine .types ?_
  rw [(h.answers htype).isInteger]
  split
  · exact .pure h ⟨.some htype, rfl⟩
  · exact (fault_together h).map fun _ _ _ hn => ⟨.none, hn⟩

lemma asmParts_together :
    g.Together (asmParts c tok asm pieces) (asmParts c tok asm pieces) s s' .eq := by
  induction pieces generalizing s s' with
  | nil => exact .pure h rfl
  | cons piece rest ih =>
    have hpart : g.Together (asmPart c tok asm piece) (asmPart c tok asm piece) s s' .eq := by
      cases piece with
      | text => exact .pure h rfl
      | identifier name =>
        refine .bind (lookupSymbol_together h c name tok) ?_
        rintro found found' s1 s1' h1 - ⟨-, hsame⟩
        rw [hsame]
        cases found with
        | some id => exact (markReferenced_together h1 id).map fun _ _ _ _ => rfl
        | none =>
          dsimp only
          split
          · exact .pure h1 rfl
          · exact (fault_together h1).map fun _ _ _ hn => congrArg _ hn
      | register =>
        rw [asmPart]
        split
        · exact .pure h rfl
        · exact (fault_together h).map fun _ _ _ hn => congrArg _ hn
    refine .bind hpart ?_
    rintro part part' s1 s1' h1 - rfl
    refine .bind (ih h1) ?_
    rintro rest rest' s2 s2' h2 - rfl
    cases part with
    | ok => exact .pure h2 rfl
    | error => exact .pure h2 rfl

lemma inlineAsm_together : g.Together (inlineAsm c tok asm) (inlineAsm c tok asm) s s' .eq := by
  unfold inlineAsm
  split
  · exact (fault_together h).map fun _ _ _ hn => congrArg _ hn
  · refine (asmParts_together h).map ?_
    rintro _ r _ rfl
    rfl

lemma optionWith_together (ho : (g.exprLink c.scope).option (g.Same s s') o o')
    (hf : ∀ e e', g.exprLink c.scope (g.Same s s') e e' →
      g.Together (f e) (f' e') s s' ((g.exprLink c.scope).prod .eq)) :
    g.Together (optionWith f o) (optionWith f' o') s s' ((g.exprLink c.scope).option.prod .eq) := by
  cases ho with
  | none => exact .pure h ⟨.none, rfl⟩
  | some he => exact (hf _ _ he).map fun _ _ _ hr => ⟨.some hr.1, hr.2⟩

end

/-! ## Statements -/

abbrev stmtLink (g : Setting) (scope : ScopeId) : Link Stmt :=
  fun R => Stmt.Like R g.Names g.Declared scope

def stmtsLink (g : Setting) (scope : ScopeId) : Link (List Stmt) :=
  fun R => Stmt.ListLike R g.Names g.Declared scope

lemma unless_together (h : g.InStep s s') (isAllowed : Bool) {st : Stmt}
    (hst : ∀ {R}, g.stmtLink c.scope R st st) :
    g.Together (if isAllowed then Pure.pure (st, 0) else do return (st, ← fault tok c'))
      (if isAllowed then Pure.pure (st, 0) else do return (st, ← fault tok c')) s s'
      ((g.stmtLink c.scope).prod .eq) := by
  split
  · exact .pure h ⟨hst, rfl⟩
  · exact (fault_together h).map fun _ _ _ hn => ⟨hst, hn⟩

/-- A statement is analyzed in step with all statements that are like it. -/
def FollowsStmt (g : Setting) (st : Stmt) : Prop :=
  ∀ {c : Context} {st' : Stmt} {s s' : State}, g.InStep s s' →
    g.Same s s' c.returnType c.returnType → g.stmtLink c.scope (g.Same s s') st st' →
    g.Together (stmt c st) (stmt c st') s s' ((g.stmtLink c.scope).prod .eq)

variable {tok : Token}

lemma stmts_together (ih : ∀ st ∈ ss, g.FollowsStmt st) (h : g.InStep s s')
    (hc : g.Same s s' c.returnType c.returnType)
    (hss : g.stmtsLink c.scope (g.Same s s') ss ss') :
    g.Together (stmts c ss) (stmts c ss') s s' ((g.stmtsLink c.scope).prod .eq) := by
  induction ss generalizing ss' s s' with
  | nil =>
    cases hss
    exact .pure h ⟨.nil, rfl⟩
  | cons st _ ihs =>
    cases hss with
    | cons hst hss =>
      refine .counted (ih st (.head _) h hc hst) fun h1 hle1 hr => ?_
      refine .counted (ihs (fun st hst => ih st (.tail _ hst)) h1 (hle1 _ _ hc) (hss.mono hle1))
        fun h2 hle2 hrs => ?_
      exact .pure h2 ⟨.cons (Stmt.Like.mono hle2 hr) hrs, rfl⟩

lemma block_follows {body : List Stmt} (ih : ∀ st ∈ body, g.FollowsStmt st) :
    g.FollowsStmt (.block tok scope' body) := by
  intro c st' s s' h hc hst
  cases hst with
  | @block _ _ _ _ _ hbody =>
    refine .map (Q := (g.stmtsLink scope').prod .eq) ?_ fun _ _ _ hr =>
      ⟨.block tok scope' hr.1, hr.2⟩
    exact stmts_together (c := { c with scope := scope' }) ih h hc hbody

lemma seq_follows {body : List Stmt} (ih : ∀ st ∈ body, g.FollowsStmt st) :
    g.FollowsStmt (.seq tok body) := by
  intro c st' s s' h hc hst
  cases hst with
  | seq _ hbody =>
    exact (stmts_together ih h hc hbody).map fun _ _ _ hr => ⟨.seq tok hr.1, hr.2⟩

lemma branch_follows {no : Option Stmt} (ihy : g.FollowsStmt yes)
    (ihn : ∀ st ∈ no, g.FollowsStmt st) : g.FollowsStmt (.branch token test yes no) := by
  intro c st' s s' h hc hst
  cases hst with
  | branch _ he hyes =>
    refine .counted (condition_together h he) fun h1 hle1 ht => ?_
    refine .counted (ihy h1 (hle1 _ _ hc) (hyes.mono hle1)) fun h2 hle2 hy => ?_
    exact .pure h2 ⟨.branch token (ht.mono hle2) hy, rfl⟩
  | branchElse _ he hyes hno =>
    refine .counted (condition_together h he) fun h1 hle1 ht => ?_
    refine .counted (ihy h1 (hle1 _ _ hc) (hyes.mono hle1)) fun h2 hle2 hy => ?_
    refine .counted (ihn _ rfl h2 (hle2 _ _ (hle1 _ _ hc)) ((hno.mono hle1).mono hle2))
      fun h3 hle3 hz => ?_
    exact .pure h3 ⟨.branchElse token ((ht.mono hle2).mono hle3) (Stmt.Like.mono hle3 hy) hz, rfl⟩

section

variable (ih : g.FollowsStmt body)
include ih

lemma loop_together (h : g.InStep s s') (hc : g.Same s s' c.returnType c.returnType)
    (he : g.exprLink c.scope (g.Same s s') test test')
    (hbody : g.stmtLink c.scope (g.Same s s') body body') {make : Expr → Stmt → Stmt}
    (hmake : ∀ {R e e' st st'}, g.exprLink c.scope R e e' →
      g.stmtLink c.scope R st st' →
      g.stmtLink c.scope R (make e st) (make e' st')) :
    g.Together (do
        let (test, m) ← condition c test
        let (body, n) ← stmt c.loop body
        return (make test body, m + n))
      (do
        let (test, m) ← condition c test'
        let (body, n) ← stmt c.loop body'
        return (make test body, m + n)) s s' ((g.stmtLink c.scope).prod .eq) := by
  refine .counted (condition_together h he) fun h1 hle1 ht => ?_
  refine .counted (Q := g.stmtLink c.scope)
    (ih (c := c.loop) h1 (hle1 _ _ hc) (hbody.mono hle1)) fun h2 hle2 hb => ?_
  exact .pure h2 ⟨hmake (ht.mono hle2) hb, rfl⟩

lemma whileLoop_follows : g.FollowsStmt (.whileLoop tok test body) := by
  intro c st' s s' h hc hst
  cases hst with
  | whileLoop _ he hbody =>
    exact loop_together ih h hc he hbody fun he hst => .whileLoop tok he hst

lemma doLoop_follows : g.FollowsStmt (.doLoop tok body test) := by
  intro c st' s s' h hc hst
  cases hst with
  | doLoop _ hbody he =>
    exact loop_together ih h hc he hbody fun he hst =>
      .doLoop tok hst he

lemma forParts_together (h : g.InStep s s') (hc : g.Same s s' c.returnType c.returnType)
    (ho : (g.exprLink c.scope).option (g.Same s s') o o')
    (hp : (g.exprLink c.scope).option (g.Same s s') p p')
    (hbody : g.stmtLink c.scope (g.Same s s') body body')
    (make make' : Option Expr → Option Expr → Stmt → Stmt) (total : Nat → Nat → Nat → Nat)
    (hmake : ∀ {o o' p p' body body' s1 s1'}, g.Same s s' ≤ g.Same s1 s1' →
      (g.exprLink c.scope).option (g.Same s1 s1') o o' →
      (g.exprLink c.scope).option (g.Same s1 s1') p p' →
      g.stmtLink c.scope (g.Same s1 s1') body body' →
      g.stmtLink c.scope (g.Same s1 s1') (make o p body) (make' o' p' body')) :
    g.Together (do
        let (test, l) ← optionWith (condition c) o
        let (step, m) ← optionWith (expr c · none) p
        let (body, n) ← stmt c.loop body
        return (make test step body, total l m n))
      (do
        let (test, l) ← optionWith (condition c) o'
        let (step, m) ← optionWith (expr c · none) p'
        let (body, n) ← stmt c.loop body'
        return (make' test step body, total l m n)) s s' ((g.stmtLink c.scope).prod .eq) := by
  have hlift {s s' s1 s1' : State} {o o' : Option Expr}
      (hle : g.Same s s' ≤ g.Same s1 s1')
      (ho : (g.exprLink c.scope).option (g.Same s s') o o') :
      (g.exprLink c.scope).option (g.Same s1 s1') o o' :=
    optionRel_mono (fun _ _ => Expr.Like.mono hle) ho
  refine .counted (optionWith_together (c := c) h ho fun _ _ he => condition_together h he)
    fun h1 hle1 ht => ?_
  refine .counted (optionWith_together (c := c) h1 (hlift hle1 hp) fun e _ he =>
    expr_follows h1 he .none) fun h2 hle2 hq => ?_
  refine .counted (Q := g.stmtLink c.scope)
    (ih (c := c.loop) h2 (hle2 _ _ (hle1 _ _ hc)) ((hbody.mono hle1).mono hle2)) fun h3 hle3 hb => ?_
  refine .pure h3 ⟨hmake ?_ (hlift hle3 (hlift hle2 ht)) (hlift hle3 hq) hb, rfl⟩
  exact (hle1.trans hle2).trans hle3

end

lemma forLoop_follows {test : Option Expr} (ihf : ∀ st ∈ first, g.FollowsStmt st)
    (ih : g.FollowsStmt body) : g.FollowsStmt (.forLoop token first test step body) := by
  intro c st' s s' h hc hst
  cases hst with
  | forLoop _ ho hp hbody =>
    exact forParts_together ih h hc ho hp hbody (.forLoop token none) (.forLoop token none)
      (· + · + ·) fun _ ho hp hbody => .forLoop token ho hp hbody
  | forLoopWith _ hfirst ho hp hbody =>
    refine .counted (ihf _ rfl h hc hfirst) @fun r r' k _ _ h1 hle1 hr => ?_
    refine forParts_together ih h1 (hle1 _ _ hc) (optionRel_mono (fun _ _ => Expr.Like.mono hle1) ho)
      (optionRel_mono (fun _ _ => Expr.Like.mono hle1) hp) (hbody.mono hle1)
      (.forLoop token (some r)) (.forLoop token (some r')) (k + · + · + ·) ?_
    exact fun hle2 ho hp hbody => .forLoopWith token (Stmt.Like.mono hle2 hr) ho hp hbody

lemma switch_follows {value : Expr} (ih : g.FollowsStmt body) :
    g.FollowsStmt (.switch tok value body labels) := by
  intro c st' s s' h hc hst
  cases hst with
  | @switch _ _ _ _ body' _ _ he hbody =>
    -- The body is analyzed whether the value has errors or not.
    have hrest {s1 s1' : State} (h1 : g.InStep s1 s1') (hle : g.Same s s' ≤ g.Same s1 s1')
        {r r' : Expr} (hr : g.exprLink c.scope (g.Same s1 s1') r r')
        {valueType valueType' : Option TypeId}
        (htype : Option.Rel (g.Same s1 s1') valueType valueType') (m : Nat) : g.Together (do
            let outer := (← get).switch
            modify fun s => { s with switch := some { valueType } }
            let (body, n) ← stmt { c with isBreakable := true } body
            modify fun s => { s with switch := outer }
            return (.switch tok r body labels, m + n))
          (do
            let outer := (← get).switch
            modify fun s => { s with switch := some { valueType := valueType' } }
            let (body, n) ← stmt { c with isBreakable := true } body'
            modify fun s => { s with switch := outer }
            return (.switch tok r' body labels, m + n)) s1 s1' ((g.stmtLink c.scope).prod .eq) := by
      refine .get ?_
      have houter := h1.switch
      refine .bind (setSwitch_together h1 (.some ⟨htype, rfl, rfl⟩)) fun _ _ s2 s2' h2 hle2 _ => ?_
      refine .counted (Q := g.stmtLink c.scope)
        (ih (c := { c with isBreakable := true }) h2 (hle2 _ _ (hle _ _ hc))
          ((hbody.mono hle).mono hle2)) fun h3 hle3 hb => ?_
      have houter3 := optionRel_mono (fun _ _ => OpenSwitch.Like.mono hle3)
        (optionRel_mono (fun _ _ => OpenSwitch.Like.mono hle2) houter)
      refine .bind (setSwitch_together h3 houter3) fun _ _ s4 s4' h4 hle4 _ => .pure h4 ⟨?_, rfl⟩
      exact .switch tok labels (((hr.mono hle2).mono hle3).mono hle4) (Stmt.Like.mono hle4 hb)
    refine .counted (expr_follows h he .none) fun h1 hle1 hr => ?_
    dsimp only
    split
    · exact hrest h1 hle1 hr .none _
    · refine .counted (switchType_together h1 hr) fun h2 hle2 htype => ?_
      exact hrest h2 (hle1.trans hle2) (hr.mono hle2) htype _

lemma cleanup_follows (ih : g.FollowsStmt body) : g.FollowsStmt (.cleanup tok body) := by
  intro c st' s s' h hc hst
  cases hst with
  | @cleanup _ _ body' _ hbody =>
    have hcount : g.Together (modify fun s => { s with cleanups := s.cleanups + 1 })
        (modify fun s => { s with cleanups := s.cleanups + 1 }) s s' .eq :=
      ⟨⟨⟨h.left, h.right, h.names, h.names', h.symbols⟩, h.switch, congrArg (· + 1) h.cleanups⟩,
        ⟨.refl _, fun _ => .inl rfl⟩, ⟨.refl _, fun _ => .inl rfl⟩, rfl⟩
    have hrest {s1 s1' : State} (h1 : g.InStep s1 s1') (hle : g.Same s s' ≤ g.Same s1 s1')
        (m : Nat) :
        g.Together
          (do
            let (body, n) ← stmt c body
            return (.cleanup tok body, m + n))
          (do
            let (body, n) ← stmt c body'
            return (.cleanup tok body, m + n)) s1 s1' ((g.stmtLink c.scope).prod .eq) := by
      refine (ih h1 (hle _ _ hc) (hbody.mono hle)).map fun _ _ _ hr => ⟨.cleanup tok hr.1, ?_⟩
      exact congrArg (m + ·) hr.2
    refine .bind hcount fun _ _ s1 s1' h1 hle1 _ => .get ?_
    rw [h1.cleanups]
    split
    · refine .bind (fault_together h1) ?_
      rintro m m' s2 s2' h2 hle2 rfl
      exact hrest h2 (hle1.trans hle2) m
    · exact hrest h1 hle1 0

lemma stmt_follows (st : Stmt) : g.FollowsStmt st := by
  induction st using Stmt.induction with
  | expr token e =>
    intro c st' s s' h hc hst
    cases hst with
    | expr _ he =>
      exact (expr_follows h he .none).map fun _ _ _ hr => ⟨.expr token hr.1, hr.2⟩
  | block _ _ _ ih => exact block_follows ih
  | seq _ _ ih => exact seq_follows ih
  | branch _ _ _ _ ihy ihn => exact branch_follows ihy ihn
  | whileLoop _ _ _ ih => exact whileLoop_follows ih
  | doLoop _ _ _ ih => exact doLoop_follows ih
  | forLoop _ _ _ _ _ ihf ih => exact forLoop_follows ihf ih
  | breakLoop | continueLoop | goto =>
    intro c st' s s' h hc hst
    cases hst
    rw [stmt]
    exact unless_together h _ (by intro; constructor)
  | ret token =>
    intro c st' s s' h hc hst
    cases hst with
    | ret _ ho =>
      exact (returned_together h hc ho).map fun _ _ _ hr => ⟨.ret token hr.1, hr.2⟩
  | gotoAddress token target =>
    intro c st' s s' h hc hst
    cases hst with
    | gotoAddress _ he =>
      refine .counted (expr_follows h he .none) fun h1 hle1 hr => ?_
      dsimp only
      split
      · exact .pure h1 ⟨.gotoAddress token hr, rfl⟩
      · refine .types ?_
        rw [(same_typeOf h1 hr).isVoidPointer h1.left h1.right]
        split
        · exact .pure h1 ⟨.gotoAddress token hr, rfl⟩
        · refine .bind (fault_together h1) fun _ _ s2 s2' h2 hle2 hn => .pure h2 ⟨?_, hn⟩
          exact .gotoAddress token (hr.mono hle2)
  | switch _ _ _ _ ih => exact switch_follows ih
  | caseLabel token =>
    intro c st' s s' h hc hst
    cases hst with
    | caseLabel _ he =>
      exact (caseValue_together h he).map fun _ _ _ hr => ⟨.caseLabel token hr.1, hr.2⟩
  | defaultLabel token =>
    intro c st' s s' h hc hst
    cases hst
    exact (defaultErrors_together h).map fun _ _ _ hn => ⟨.defaultLabel token, hn⟩
  | assertion token _ message =>
    intro c st' s s' h hc hst
    cases hst with
    | assertion _ _ he =>
      exact (condition_together h he).map fun _ _ _ hr => ⟨.assertion token message hr.1, hr.2⟩
  | asm token code =>
    intro c st' s s' h hc hst
    cases hst
    refine (inlineAsm_together h).map ?_
    rintro R r _ rfl
    exact ⟨.asm token r.1, rfl⟩
  | cleanup _ _ ih => exact cleanup_follows ih
  | label | empty =>
    intro c st' s s' h hc hst
    cases hst
    exact .pure h ⟨by constructor, rfl⟩

/-! ## Items -/

abbrev itemLink (g : Setting) (scope : ScopeId) : Link Item :=
  fun R => Item.Like R g.Names g.Declared scope

/-- Two steps lead from states that agree to states that agree, with related results; what is around a
statement is not compared. -/
abbrev Beside (g : Setting) {α : Type} : Analyze α → Analyze α → State → State → Link α → Prop :=
  g.Paired g.Aligned

namespace Paired

lemma diagnostics (h : g.Aligned s s') :
    g.Beside (modify fun s => { s with diagnostics := d }) (modify fun s => { s with diagnostics := d' })
      s s' .eq :=
  ⟨⟨h.left, h.right, h.names, h.names', h.symbols⟩, ⟨.refl _, fun _ => .inl rfl⟩,
    ⟨.refl _, fun _ => .inl rfl⟩, rfl⟩

lemma fresh {m m' : Analyze α} {Q : Link α} (hm : g.Together m m' { s with switch := none, cleanups := 0 }
    { s' with switch := none, cleanups := 0 } Q) :
    g.Beside (freshItem >>= fun _ => m) (freshItem >>= fun _ => m') s s' Q :=
  ⟨hm.states.toAligned, ⟨hm.left.types, hm.left.symbols⟩, ⟨hm.right.types, hm.right.symbols⟩,
    hm.result⟩

end Paired

lemma labelErrors_together (h : g.InStep s s') :
    g.Together (labelErrors f labels) (labelErrors f' labels) s s' .eq := by
  induction labels generalizing s s' with
  | nil => exact .pure h rfl
  | cons _ _ ih =>
    refine .bind (.report h) fun _ _ s1 s1' h1 _ _ => ?_
    exact (ih h1).map fun _ _ _ hn => congrArg (· + 1) hn

lemma Aligned.fresh (h : g.Aligned s s') :
    g.InStep { s with switch := none, cleanups := 0 } { s' with switch := none, cleanups := 0 } :=
  ⟨⟨h.left, h.right, h.names, h.names', h.symbols⟩, .none, rfl⟩

variable {scope : ScopeId} {i i' : Item}

lemma function_beside (h : g.Aligned s s') (hret : g.Same s s' f.returnType f.returnType)
    (hbody : f.body.Like (g.Same s s') g.Names g.Declared f.scope body) :
    g.Beside (function f) (function { f with body }) s s' fun R r r' =>
      g.itemLink scope R (.function r.1) (.function r'.1) ∧ r.2 = r'.2 := by
  refine .fresh (.bind (labelErrors_together h.fresh) ?_)
  rintro m m' s1 s1' h1 hle1 rfl
  have hreturn1 := hle1 _ _ hret
  have hstmt := stmt_follows (c := { scope := f.scope, returnType := f.returnType, labels := f.labels })
    f.body h1 hreturn1 (hbody.mono hle1)
  refine .counted hstmt fun h2 hle2 hr => ?_
  exact .pure h2 ⟨.function (hle2 _ _ hreturn1) hr, rfl⟩

lemma global_beside (h : g.Aligned s s')
    (hstmt : v.statement.Like (g.Same s s') g.Names g.Declared scope statement) :
    g.Beside (global scope v) (global scope { v with statement }) s s' fun R r r' =>
      g.itemLink scope R (.global r.1) (.global r'.1) ∧ r.2 = r'.2 := by
  refine .fresh (.bind (stmt_follows (c := { scope, returnType := TypeId.void, labels := [] })
    v.statement h.fresh (h.fresh.builtin .void) hstmt) ?_)
  rintro ⟨r, n⟩ ⟨r', n'⟩ s1 s1' h1 hle1 ⟨hr, rfl⟩
  exact .pure h1 ⟨.global hr, rfl⟩

lemma item_beside (h : g.Aligned s s') (hi : g.itemLink scope (g.Same s s') i i') :
    g.Beside (item scope i) (item scope i') s s' ((g.itemLink scope).prod .eq) := by
  cases hi with
  | function hret hbody =>
    exact .bind (function_beside h hret hbody) fun _ _ _ _ h1 _ hr => .pure h1 hr
  | global hstmt =>
    exact .bind (global_beside h hstmt) fun _ _ _ _ h1 _ hr => .pure h1 hr

/-- What is analyzed in step has errors in step, and is left to the next wave in step. -/
lemma pendingItem_beside (h : g.Aligned s s')
    (hi : g.itemLink scope (g.Same s s') i i') :
    g.Beside (pendingItem scope i) (pendingItem scope i') s s'
      ((g.itemLink scope).prod fun _ r r' => r.1 = r'.1) := by
  have hdone : i.isAnalyzed = i'.isAnalyzed := by cases hi <;> rfl
  unfold pendingItem
  rw [hdone]
  split
  · exact .pure h ⟨hi, rfl⟩
  · refine .get (.bind (item_beside h hi) ?_)
    rintro ⟨r, n⟩ ⟨r', n'⟩ s1 s1' h1 - ⟨hr, rfl⟩
    dsimp only
    split
    · refine .get (.bind (.diagnostics h1) fun _ _ s2 s2' h2 hle2 _ => .pure h2 ⟨?_, rfl⟩)
      exact .mono hle2 hr
    · exact .pure h1 ⟨hr, rfl⟩

/-! ## Waves -/

/-- What is compared of the result of a wave: the items and the number of errors. -/
def waveLink (L : Link (List Item)) : Link (List Item × Nat × Diagnostics) :=
  L.prod fun _ r r' => r.1 = r'.1

lemma wave_beside {items items' : List Item} (h : g.Aligned s s')
    (hitems : (g.itemLink scope).list (g.Same s s') items items') :
    g.Beside (wave scope items) (wave scope items') s s' (waveLink (g.itemLink scope).list) := by
  induction items generalizing items' s s' with
  | nil =>
    cases hitems
    exact .pure h ⟨.nil, rfl⟩
  | cons i rest ih =>
    obtain _ | ⟨hi, hrest⟩ := hitems
    refine .bind (pendingItem_beside h hi) ?_
    rintro ⟨i, m, deferred⟩ ⟨i', m', deferred'⟩ s1 s1' h1 hle1 ⟨hi, hm⟩
    have hrest1 := hrest.imp fun _ _ => Item.Like.mono hle1
    refine .bind (ih h1 hrest1) ?_
    rintro ⟨rest, n, more⟩ ⟨rest', n', more'⟩ s2 s2' h2 hle2 ⟨hrest, hn⟩
    exact .pure h2 ⟨.cons (.mono hle2 hi) hrest, congrArg₂ (· + ·) hm hn⟩

end Analysis.Setting

end CompilerCore

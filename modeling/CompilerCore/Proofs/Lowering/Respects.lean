import CompilerCore.Lowering.Program
import CompilerCore.Proofs.Analysis.Bodies
import CompilerCore.Proofs.Lowering.Fixpoint

/-!
# What lowering keeps of expressions

Lowering takes statements apart and puts expressions into new ones.  A property of the nodes of
expressions that its rules for expressions respect is therefore kept throughout a program.  The rules
for statements add only negations, a constant and a call to those.
-/

namespace CompilerCore

open Option Stmt

variable {t : TypeTable} {scopes : ScopeTree} {P R : Expr → Prop} {token : Token}

/-! ## Control flow -/

namespace ControlFlow

/-- A context with given types and scopes. -/
def Context.Over (c : Context) (t : TypeTable) (scopes : ScopeTree) : Prop :=
  c.types = t ∧ c.scopes = scopes

/-- The rules of control flow respect a property of nodes and one of returned values. -/
structure Respects (t : TypeTable) (scopes : ScopeTree) (P R : Expr → Prop) : Prop where
  expr : ∀ e st, e.All P → (expr e st).1.All P
  result : ∀ e st, e.All P → R e → R (ControlFlow.expr e st).1
  negation : ∀ e, e.All P → P (negation e)
  always : ∀ token, P (always token)
  abort : ∀ token, P (.call { token, type := some TypeId.void } abortName none [])
  declaration : ∀ (c : Context) note x collected elements st, c.Over t scopes →
    note.type.any t.isArray = true →
    (Expr.declare note x (some (.collection collected elements))).All P →
    ∀ n ∈ (expandDeclaration c note x elements st).1, n.All (Stmt.Holds P R)

variable {c : Context} (hP : Respects t scopes P R)

include hP

variable {cond : Expr} {body : Stmt}

lemma negation_holds (h : cond.All P) : (negation cond).All P :=
  Expr.all_unary.2 ⟨hP.negation cond h, h⟩

lemma exitUnless_holds (h : cond.All P) (hexit : exit.All (Stmt.Holds P R)) :
    ∀ n ∈ exitUnless token cond exit, n.All (Stmt.Holds P R) :=
  List.forall_mem_singleton.2 (all_branch.2 ⟨negation_holds hP h, hexit, nofun⟩)

lemma loopStatements_holds (h : cond.All P) (hbody : body.All (Stmt.Holds P R)) :
    ∀ n ∈ loopStatements token cond body head tail, n.All (Stmt.Holds P R) := by
  have hexit : ∀ n ∈ if isAlwaysTrue cond then []
      else exitUnless token cond (.goto token tail), n.All (Stmt.Holds P R) := by
    split
    · exact nofun
    · exact exitUnless_holds hP h (Stmt.all_goto.2 trivial)
  refine List.forall_mem_append.2 ⟨List.forall_mem_append.2 ⟨?_, hexit⟩, ?_⟩
  · exact List.forall_mem_singleton.2 (Stmt.all_label.2 trivial)
  · simp [Stmt.Holds, hbody]

lemma doAsWhile_holds (h : cond.All P) (hbody : body.All (Stmt.Holds P R)) :
    (doAsWhile token body cond next).All (Stmt.Holds P R) := by
  refine all_whileLoop.2 ⟨Expr.all_literal.2 (hP.always token), all_seq.2 ⟨trivial, ?_⟩⟩
  refine List.forall_mem_append.2 ⟨by simp [Stmt.Holds, hbody], ?_⟩
  exact exitUnless_holds hP h (all_breakLoop.2 trivial)

lemma forAsWhile_holds {first : Option Stmt} {cond step : Option Expr} {next : String}
    (hfirst : ∀ n ∈ first, n.All (Stmt.Holds P R)) (hcond : ∀ e ∈ cond, e.All P)
    (hstep : ∀ e ∈ step, e.All P) (hbody : body.All (Stmt.Holds P R)) :
    ∀ n ∈ forAsWhile token first cond step body next, n.All (Stmt.Holds P R) := by
  have hloop : (cond.getD (always token)).All P := by
    cases cond with
    | none => exact Expr.all_literal.2 (hP.always token)
    | some e => exact hcond e rfl
  refine List.forall_mem_append.2 ⟨fun n hn => hfirst n (mem_toList.1 hn),
    List.forall_mem_singleton.2 (all_whileLoop.2 ⟨hloop, all_seq.2 ⟨trivial, ?_⟩⟩)⟩
  refine List.forall_mem_append.2 ⟨by simp [Stmt.Holds, hbody], fun n hn => ?_⟩
  obtain ⟨e, he, rfl⟩ := List.mem_map.1 hn
  exact all_expr.2 (hstep e (mem_toList.1 he))

lemma optionExpr_holds (h : ∀ e ∈ value, e.All P) (st : State) :
    ∀ e ∈ (optionExpr value st).1, e.All P :=
  forall_mem_optionExpr (fun e he st => hP.expr e st (h e he)) st

omit hP in
lemma Settles.holds (h : Settles st s r) (hs : s.All (Stmt.Holds P R)) :
    r.1.All (Stmt.Holds P R) := by
  cases h with
  | stays => exact hs
  | jump => exact all_goto.2 trivial
  | mark => exact all_label.2 trivial

omit hP in
lemma declaredElements?_eq_some (h : declaredElements? t e = some (x, elems)) :
    ∃ note collected, e = .declare note x (some (.collection collected elems)) ∧
      note.type.any t.isArray = true := by
  unfold declaredElements? at h
  split at h
  · split at h
    · next harray =>
      cases h
      exact ⟨_, _, rfl, harray⟩
    · cases h
  · cases h

lemma expr_statement_holds (hc : c.Over t scopes) (h : e.All P) :
    (stmt c (.expr token e) st).1.All (Stmt.Holds P R) := by
  cases hdecl : declaredElements? c.types e with
  | none =>
    simp only [stmt, hdecl]
    exact all_expr.2 (hP.expr e st h)
  | some found =>
    obtain ⟨x, elems⟩ := found
    obtain ⟨note, collected, rfl, harray⟩ := declaredElements?_eq_some hdecl
    simp only [stmt, hdecl]
    exact all_seq.2 ⟨trivial, hP.declaration c note x collected elems st hc (hc.1 ▸ harray) h⟩

lemma stmt_holds (n : Stmt) (c : Context) (st : State) (hc : c.Over t scopes)
    (h : n.All (Stmt.Holds P R)) : (stmt c n st).1.All (Stmt.Holds P R) := by
  induction n using induction generalizing c st with
  | expr => exact expr_statement_holds hP hc (all_expr.1 h)
  | block _ _ _ ih =>
    have hbody := (all_block.1 h).2
    exact all_block.2
      ⟨trivial, forall_mem_stmts (fun n hn st => ih n hn c st hc (hbody n hn)) st⟩
  | seq _ _ ih =>
    have hbody := (all_seq.1 h).2
    exact all_seq.2 ⟨trivial, forall_mem_stmts (fun n hn st => ih n hn c st hc (hbody n hn)) st⟩
  | branch _ cond _ no ihy ihn =>
    obtain ⟨hcond, hy, hn⟩ := all_branch.1 h
    have hcondition' := hP.expr cond st hcond
    cases no with
    | none => exact all_branch.2 ⟨hcondition', ihy _ _ hc hy, nofun⟩
    | some no =>
      refine all_branch.2 ⟨hcondition', ihy _ _ hc hy, fun n' hn' => ?_⟩
      cases hn'
      exact ihn no rfl _ _ hc (hn no rfl)
  | whileLoop _ cond _ ih =>
    obtain ⟨hcond, hb⟩ := all_whileLoop.1 h
    exact all_seq.2 ⟨trivial, loopStatements_holds hP (hP.expr cond _ hcond) (ih _ _ hc hb)⟩
  | doLoop _ _ cond ih =>
    obtain ⟨hcond, hb⟩ := all_doLoop.1 h
    exact doAsWhile_holds hP (hP.expr cond _ hcond) (ih _ _ hc hb)
  | forLoop _ first _ _ _ ihf ih =>
    obtain ⟨⟨hcond, hs⟩, hf, hb⟩ := all_forLoop.1 h
    cases first with
    | none =>
      exact all_seq.2 ⟨trivial, forAsWhile_holds hP nofun (optionExpr_holds hP hcond _)
        (optionExpr_holds hP hs _) (ih _ _ hc hb)⟩
    | some first =>
      refine all_seq.2 ⟨trivial, forAsWhile_holds hP (fun n' hn' => ?_)
        (optionExpr_holds hP hcond _) (optionExpr_holds hP hs _) (ih _ _ hc hb)⟩
      cases hn'
      exact ihf first rfl _ _ hc (hf first rfl)
  | breakLoop | continueLoop | caseLabel | defaultLabel => exact Settles.holds (stmt_settles c st trivial) h
  | ret =>
    refine all_ret.2 (forall_mem_optionExpr (fun e he st => ?_) st)
    obtain ⟨hall, hresult⟩ := all_ret.1 h e he
    exact ⟨hP.expr e st hall, hP.result e st hall hresult⟩
  | gotoAddress _ target =>
    exact all_gotoAddress.2 (hP.expr target st (all_gotoAddress.1 h))
  | switch _ value _ labels ih =>
    obtain ⟨hv, hb⟩ := all_switch.1 h
    have hv' := hP.expr value st hv
    cases labels with
    | none => exact all_switch.2 ⟨hv', ih _ _ hc hb⟩
    | some => exact all_switch.2 ⟨hv', ih _ _ hc hb⟩
  | assertion token cond =>
    have hcond := hP.expr cond st (all_assertion.1 h)
    exact all_branch.2 ⟨negation_holds hP hcond,
      all_expr.2 (Expr.all_call.2 ⟨hP.abort token, nofun⟩), nofun⟩
  | cleanup _ _ ih =>
    exact all_cleanup.2 ⟨trivial, ih _ _ hc (all_cleanup.1 h).2⟩
  | goto | label | asm | empty => exact h

end ControlFlow

/-! ## Simplification -/

namespace Simplify

/-- What holds of the result of a step, whatever has been counted before. -/
def Yields {α : Type} (P : α → Prop) (m : Counted α) : Prop := ∀ n, P (m n).1

namespace Yields

variable {α β : Type} {P : α → Prop} {Q : β → Prop}

lemma pure (h : P a) : Yields P (Pure.pure a) := fun _ => h

lemma bind (h : Yields P m) (hf : ∀ a, P a → Yields Q (f a)) : Yields Q (m >>= f) :=
  fun n => hf _ (h n) _

end Yields

lemma expr_walks (t : TypeTable) : Expr.Walks (node t) (expr t) (exprs t) where
  nil := rfl
  cons _ _ := rfl
  expr e := by
    cases e with
    | declare _ _ init => cases init <;> rfl
    | _ => rfl

/-- The rules of simplification respect a property of nodes and one of returned values. -/
structure Respects (t : TypeTable) (P R : Expr → Prop) : Prop where
  expr : ∀ e, e.All P → Yields (Expr.All P) (expr t e)
  result : ∀ e, e.All P → R e → Yields R (Simplify.expr t e)

/-! ### What rules make -/

section Rules

variable {lhs rhs e e' : Expr} {type : Option TypeId}

/-- What rules make of an operation on integers with a constant: the left operand, zero, or an
operation with another constant. -/
inductive Reduces (t : TypeTable) (lhs rhs : Expr) (type : Option TypeId) (c : Int64) :
    ArithOp → Expr → Prop
  | left {op : ArithOp} (h : (op = .add ∨ op = .sub) ∧ c = 0 ∨ op = .mul ∧ c = 1) :
    Reduces t lhs rhs type c op lhs
  | zero (h : c = 0) : Reduces t lhs rhs type c .mul (integerFor 0 type lhs)
  | operation {op op' : ArithOp} {k : Nat} {amount : Int64} (hk : powerOfTwo? c = some k)
    (h : op = .mul ∧ op' = .shl ∧ amount = Int64.ofNat k ∨ isUnsigned t lhs = true ∧
      (op = .div ∧ op' = .shr ∧ amount = Int64.ofNat k ∨ op = .rem ∧ op' = .band ∧ amount = c - 1)) :
    Reduces t lhs rhs type c op (.binary { token := lhs.token, type } (.arith op') lhs
      (integerFor amount rhs.type? rhs))

lemma integerRule?_reduces (h : integerRule? t op lhs rhs type = some e') :
    ∃ c, rhs.integer? = some c ∧ Reduces t lhs rhs type c op e' := by
  unfold integerRule? at h
  simp only [bind_eq_bind, bind_eq_some_iff] at h
  obtain ⟨c, hc, h⟩ := h
  refine ⟨c, hc, ?_⟩
  split at h
  · next hneutral =>
    obtain rfl : lhs = e' := some.inj h
    exact .left hneutral
  split at h
  · next hzero =>
    obtain ⟨rfl, hzero, -⟩ := hzero
    obtain rfl := some.inj h
    exact .zero hzero
  obtain ⟨k, hk, h⟩ := bind_eq_some_iff.1 h
  split at h
  · obtain rfl := some.inj h
    exact .operation hk (.inl ⟨rfl, rfl, rfl⟩)
  · split at h
    · next hunsigned =>
      obtain rfl := some.inj h
      exact .operation hk (.inr ⟨hunsigned, .inl ⟨rfl, rfl, rfl⟩⟩)
    · cases h
  · split at h
    · next hunsigned =>
      obtain rfl := some.inj h
      exact .operation hk (.inr ⟨hunsigned, .inr ⟨rfl, rfl, rfl⟩⟩)
    · cases h
  · cases h

lemma binaryRule?_eq_some (h : binaryRule? t op lhs rhs type = some e') :
    (∃ op' c, op = .arith op' ∧ isInteger t lhs = true ∧ isInteger t rhs = true ∧
      rhs.integer? = some c ∧ Reduces t lhs rhs type c op' e') ∨
    ∃ op' note divisor, op = .arith op' ∧ isFloat t lhs = true ∧ rhs = .literal note (.float divisor) ∧
      e' = .binary { token := lhs.token, type } (.arith .mul) lhs
        (.literal { token := note.token, type := note.type } (.float (.one / divisor))) := by
  unfold binaryRule? at h
  split at h
  · split at h
    · next hint =>
      rw [Bool.and_eq_true] at hint
      obtain ⟨c, hc, hreduces⟩ := integerRule?_reduces h
      exact .inl ⟨_, c, rfl, hint.1, hint.2, hc, hreduces⟩
    split at h
    · next hfloat =>
      unfold floatRule? at h
      split at h
      · split at h
        · cases h
        · exact .inr ⟨_, _, _, rfl, hfloat, rfl, (some.inj h).symm⟩
      · cases h
    · cases h
  all_goals cases h

/-- An assignment of a place to itself is the place, and one of a place plus or minus one a step. -/
lemma assignRule?_eq_some (h : assignRule? t lhs rhs = some e') :
    samePlace lhs rhs = true ∧ e' = lhs ∨
    ∃ isDecrement note place one, samePlace lhs place = true ∧ one.integer? = some 1 ∧
      rhs = .binary note (.arith (if isDecrement then .sub else .add)) place one ∧
      e' = .unary { token := lhs.token, type := lhs.type? } (.step false isDecrement) lhs := by
  unfold assignRule? at h
  split at h
  · next hsame => exact .inl ⟨hsame, (some.inj h).symm⟩
  split at h
  · cases h
  split at h
  · split at h
    · next hsame =>
      rw [Bool.and_eq_true, beq_iff_eq] at hsame
      split at h
      · exact .inr ⟨false, _, _, _, hsame.1, hsame.2, rfl, (some.inj h).symm⟩
      · exact .inr ⟨true, _, _, _, hsame.1, hsame.2, rfl, (some.inj h).symm⟩
      · cases h
    · cases h
  · cases h

lemma notRule?_eq_some (h : notRule? t note e = some e') :
    ∃ note' rel lhs rhs, e = .binary note' (.compare rel) lhs rhs ∧
      e' = .binary { note with isPlace := false } (.compare rel.negate) lhs rhs := by
  unfold notRule? at h
  split at h
  · split at h
    · cases h
    · exact ⟨_, _, _, _, rfl, (some.inj h).symm⟩
  · cases h

lemma orKeep_yields {P : Expr → Prop} (hkeep : rule = none → P e)
    (hrule : ∀ e', rule = some e' → P e') : Yields P (orKeep e rule) := by
  cases rule with
  | none => exact .pure (hkeep rfl)
  | some e' => exact fun _ => hrule e' rfl

end Rules

/-! ### Statements -/

variable {s : Stmt}

lemma replaceAt_holds (h : s.All (Stmt.Holds P R)) :
    Yields (Stmt.All (Stmt.Holds P R)) (replaceAt token s) := by
  intro n
  change (s.withToken token).All (Stmt.Holds P R)
  cases s with
  | breakLoop | continueLoop | goto | label | defaultLabel | asm | empty =>
    simp [withToken, Stmt.Holds]
  | _ => simpa [withToken, Stmt.Holds] using h

lemma withoutEmpty_holds (h : ∀ s ∈ body, s.All (Stmt.Holds P R)) :
    Yields (fun body => ∀ s ∈ body, s.All (Stmt.Holds P R)) (withoutEmpty body) :=
  fun _ s hs => h s (List.mem_filter.1 hs).1

lemma branch_holds {cond : Expr} (h : (Stmt.branch token cond yes no).All (Stmt.Holds P R)) :
    Yields (Stmt.All (Stmt.Holds P R)) (branch token cond yes no) := by
  obtain ⟨-, hy, hn⟩ := Stmt.all_branch.1 h
  have hno : (no.getD (.empty token)).All (Stmt.Holds P R) := by
    cases no with
    | none => exact Stmt.all_empty.2 trivial
    | some no => exact hn no rfl
  unfold branch
  split
  · split
    · exact replaceAt_holds hno
    · split
      · exact replaceAt_holds hy
      · exact .pure h
  · exact .pure h

lemma stmts_yields {P : Stmt → Prop} (ih : ∀ s ∈ body, Yields P (stmt t s)) :
    Yields (fun body => ∀ s ∈ body, P s) (stmts t body) := by
  induction body with
  | nil => exact .pure nofun
  | cons _ _ ihrest =>
    rw [List.forall_mem_cons] at ih
    exact .bind ih.1 fun s' hs' => .bind (ihrest ih.2) fun rest' hrest' =>
      .pure (List.forall_mem_cons.2 ⟨hs', hrest'⟩)

lemma optionExpr_yields {P : Expr → Prop} (h : ∀ e ∈ value, Yields P (expr t e)) :
    Yields (fun value => ∀ e ∈ value, P e) (optionExpr t value) := by
  cases value with
  | none => exact .pure nofun
  | some e => exact .bind (h e rfl) fun e' he' => .pure fun x hx => some.inj hx ▸ he'

variable (hP : Respects t P R)

include hP

lemma optionExpr_holds (h : ∀ e ∈ value, e.All P) :
    Yields (fun value => ∀ e ∈ value, e.All P) (optionExpr t value) :=
  optionExpr_yields fun e he => hP.expr e (h e he)

lemma stmt_holds (s : Stmt) (h : s.All (Stmt.Holds P R)) :
    Yields (Stmt.All (Stmt.Holds P R)) (stmt t s) := by
  induction s using Stmt.induction with
  | expr _ e =>
    refine .bind (hP.expr e (Stmt.all_expr.1 h)) fun e' he' => ?_
    split
    · exact .pure (Stmt.all_expr.2 he')
    · exact replaceAt_holds (Stmt.all_empty.2 trivial)
  | block _ _ _ ih =>
    have hstmts := (Stmt.all_block.1 h).2
    refine .bind (stmts_yields fun s hs => ih s hs (hstmts s hs)) fun body' hbody => ?_
    exact .bind (withoutEmpty_holds hbody) fun kept hkept =>
      .pure (Stmt.all_block.2 ⟨trivial, hkept⟩)
  | seq _ _ ih =>
    have hstmts := (Stmt.all_seq.1 h).2
    refine .bind (stmts_yields fun s hs => ih s hs (hstmts s hs)) fun body' hbody => ?_
    exact .bind (withoutEmpty_holds hbody) fun kept hkept =>
      .pure (Stmt.all_seq.2 ⟨trivial, hkept⟩)
  | branch _ cond _ no ihy ihn =>
    obtain ⟨hc, hy, hn⟩ := Stmt.all_branch.1 h
    cases no with
    | none =>
      refine .bind (hP.expr cond hc) fun c' hc' => .bind (ihy hy) fun yes' hy' => ?_
      refine branch_holds (Stmt.all_branch.2 ⟨hc', hy', ?_⟩)
      exact nofun
    | some no =>
      refine .bind (hP.expr cond hc) fun c' hc' => .bind (ihy hy) fun yes' hy' => ?_
      refine .bind (ihn no rfl (hn no rfl)) fun no' hn' =>
        branch_holds (Stmt.all_branch.2 ⟨hc', hy', fun s hs => ?_⟩)
      cases hs
      exact hn'
  | whileLoop _ cond _ ih =>
    obtain ⟨hc, hb⟩ := Stmt.all_whileLoop.1 h
    refine .bind (hP.expr cond hc) fun c' hc' => .bind (ih hb) fun body' hb' => ?_
    split
    · exact replaceAt_holds (Stmt.all_empty.2 trivial)
    · exact .pure (Stmt.all_whileLoop.2 ⟨hc', hb'⟩)
  | doLoop _ _ cond ih =>
    obtain ⟨hc, hb⟩ := Stmt.all_doLoop.1 h
    refine .bind (hP.expr cond hc) fun c' hc' => .bind (ih hb) fun body' hb' => ?_
    split
    · exact replaceAt_holds hb'
    · exact .pure (Stmt.all_doLoop.2 ⟨hc', hb'⟩)
  | forLoop _ first _ _ _ ihf ih =>
    obtain ⟨⟨hc, hs⟩, hf, hb⟩ := Stmt.all_forLoop.1 h
    cases first with
    | none =>
      refine .bind (optionExpr_holds hP hc) fun c' hc' => .bind (optionExpr_holds hP hs)
        fun step' hs' => .bind (ih hb) fun body' hb' => .pure ?_
      exact Stmt.all_forLoop.2 ⟨⟨hc', hs'⟩, nofun, hb'⟩
    | some first =>
      refine .bind (ihf first rfl (hf first rfl)) fun first' hf' => .bind (optionExpr_holds hP hc)
        fun c' hc' => .bind (optionExpr_holds hP hs) fun step' hs' => .bind (ih hb)
        fun body' hb' => .pure (Stmt.all_forLoop.2 ⟨⟨hc', hs'⟩, fun s hs => ?_, hb'⟩)
      cases hs
      exact hf'
  | ret =>
    refine .bind (optionExpr_yields fun e he n => ?_) fun value' hvalue => .pure (Stmt.all_ret.2 hvalue)
    obtain ⟨hall, hresult⟩ := Stmt.all_ret.1 h e he
    exact ⟨hP.expr e hall n, hP.result e hall hresult n⟩
  | gotoAddress _ target =>
    exact .bind (hP.expr target (Stmt.all_gotoAddress.1 h)) fun e' he' =>
      .pure (Stmt.all_gotoAddress.2 he')
  | switch _ value _ _ ih =>
    obtain ⟨hv, hb⟩ := Stmt.all_switch.1 h
    exact .bind (hP.expr value hv) fun value' hv' => .bind (ih hb) fun body' hb' =>
      .pure (Stmt.all_switch.2 ⟨hv', hb'⟩)
  | caseLabel _ value =>
    exact .bind (hP.expr value (Stmt.all_caseLabel.1 h)) fun e' he' =>
      .pure (Stmt.all_caseLabel.2 he')
  | assertion _ cond =>
    exact .bind (hP.expr cond (Stmt.all_assertion.1 h)) fun e' he' =>
      .pure (Stmt.all_assertion.2 he')
  | cleanup _ _ ih =>
    exact .bind (ih (Stmt.all_cleanup.1 h).2) fun body' hb' =>
      .pure (Stmt.all_cleanup.2 ⟨trivial, hb'⟩)
  | _ => exact .pure h

end Simplify

/-! ## Items -/

lemma ControlFlow.Respects.passes (hP : ControlFlow.Respects t scopes P R) (limit : Nat)
    (h : body.All (Stmt.Holds P R)) :
    (repeatPass (ControlFlow.pass t scopes) limit (body, n)).2.1.All (Stmt.Holds P R) :=
  repeatPass_keeps (I := fun body : Stmt × Nat => body.1.All (Stmt.Holds P R))
    (fun body => ControlFlow.stmt_holds hP body.1 _ _ ⟨rfl, rfl⟩) limit h

lemma Simplify.Respects.passes (hP : Simplify.Respects t P R) (limit : Nat)
    (h : body.All (Stmt.Holds P R)) :
    (repeatPass (Simplify.pass t) limit body).2.All (Stmt.Holds P R) :=
  repeatPass_keeps (fun body hbody => Simplify.stmt_holds hP body hbody 0) limit h

end CompilerCore

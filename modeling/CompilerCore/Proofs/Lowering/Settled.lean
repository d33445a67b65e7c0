import CompilerCore.Proofs.Lowering.Respects

/-!
# One pass of simplification is enough

Each rule makes a node to which no rule applies, of parts that have been simplified.  A pass over
what a pass has made therefore finds nothing to do.
-/

namespace CompilerCore.Simplify

open CompilerCore.Expr Stmt

variable {t : TypeTable} {note : Note} {e lhs rhs : Expr} {tok : Token}
  {s : Stmt}

/-! ## Expressions -/

/-- No rule applies to a node. -/
def Still (t : TypeTable) (e : Expr) : Prop := node t e = pure e

lemma still_binary (hswap : swapsOperands t op lhs rhs = false)
    (hrule : binaryRule? t op lhs rhs note.type = none) : Still t (.binary note op lhs rhs) := by
  simp [Still, node, hswap, hrule, orKeep]

lemma integerRule?_eq_none (h : op = .shl ∨ op = .shr ∨ op = .band) :
    integerRule? t op lhs rhs type = none := by
  unfold integerRule?
  rcases h with rfl | rfl | rfl <;> simp

lemma binary_still (hl : lhs.All (Still t)) (hr : rhs.All (Still t))
    (hswap : swapsOperands t op lhs rhs = false) : Yields (Expr.All (Still t))
      (orKeep (.binary note op lhs rhs) (binaryRule? t op lhs rhs note.type)) := by
  refine orKeep_yields (fun hrule => ?_) fun e' hrule => ?_
  · exact all_binary.2 ⟨still_binary hswap hrule, hl, hr⟩
  obtain ⟨_, c, rfl, -, -, -, hred⟩ | ⟨_, note', divisor, rfl, hfloat, rfl, rfl⟩ :=
    binaryRule?_eq_some hrule
  · cases hred with
    | left => exact hl
    | zero => exact all_literal.2 rfl
    | @operation _ op' _ _ _ h =>
      have hop : op' = .shl ∨ op' = .shr ∨ op' = .band := by tauto
      refine all_binary.2 ⟨still_binary ?_ ?_, hl, all_literal.2 rfl⟩
      · rcases hop with rfl | rfl | rfl <;> rfl
      · rcases hop with rfl | rfl | rfl <;> simp [binaryRule?, integerRule?_eq_none, floatRule?]
  · refine all_binary.2 ⟨still_binary ?_ ?_, hl, all_literal.2 rfl⟩
    · simp [swapsOperands, isLiteral, literal?]
    · simp [binaryRule?, integerRule?, floatRule?, integer?, literal?, Literal.integer?]

lemma node_still (h : ∀ part ∈ e.parts, part.All (Still t)) :
    Yields (Expr.All (Still t)) (node t e) := by
  cases e with
  | binary note op lhs rhs =>
    have hl := h lhs (.head _)
    have hr := h rhs (.tail _ (.head _))
    by_cases hswap : swapsOperands t op lhs rhs = true
    · have hback : swapsOperands t op rhs lhs = false := by
        simp only [swapsOperands, Bool.and_eq_true, Bool.not_eq_true'] at hswap
        simp [swapsOperands, hswap.2]
      have hkept : Yields _ (orKeep (.binary note op rhs lhs) _) := binary_still hr hl hback
      simpa [node, hswap] using hkept
    · rw [Bool.not_eq_true] at hswap
      have hkept : Yields _ (orKeep (.binary note op lhs rhs) _) := binary_still hl hr hswap
      simpa [node, hswap] using hkept
  | assign note target value =>
    have htarget := h target (.head _)
    refine orKeep_yields (fun hrule => ?_) fun e' hrule => ?_
    · exact all_iff.2 ⟨by simp [Still, node, hrule, orKeep], h⟩
    · obtain ⟨-, rfl⟩ | ⟨_, _, _, _, -, -, -, rfl⟩ := assignRule?_eq_some hrule
      · exact htarget
      · exact all_unary.2 ⟨rfl, htarget⟩
  | unary note op operand =>
    cases op with
    | not =>
      refine orKeep_yields (fun hrule => ?_) fun e' hrule => ?_
      · exact all_iff.2 ⟨by simp [Still, node, hrule, orKeep], h⟩
      · obtain ⟨_, _, _, _, rfl, rfl⟩ := notRule?_eq_some hrule
        exact all_binary.2 ⟨rfl, (all_binary.1 (h _ (.head _))).2⟩
    | _ => exact .pure (all_iff.2 ⟨rfl, h⟩)
  | _ => exact .pure (all_iff.2 ⟨rfl, h⟩)

lemma expr_still : Yields (Expr.All (Still t)) (expr t e) :=
  (expr_walks t).yields (P := fun _ => True) (fun _ _ _ => trivial)
    (fun _ _ hparts => node_still hparts) fun _ _ => trivial

lemma expr_eq (h : e.All (Still t)) : expr t e = pure e := by
  induction e using Expr.parts_induction with
  | step e ih =>
    obtain ⟨hnode, hparts⟩ := all_iff.1 h
    have hexprs : exprs t e.parts = pure e.parts := by
      generalize e.parts = es at ih hparts
      induction es with
      | nil => rfl
      | cons e es ihes =>
        rw [List.forall_mem_cons] at ih hparts
        rw [(expr_walks t).cons, ih.1 hparts.1, ihes ih.2 hparts.2]
        rfl
    rw [(expr_walks t).expr, hexprs, pure_bind, withParts_parts]
    exact hnode

/-! ## Statements -/

/-- A pass over a statement, whatever its token, finds nothing to do. -/
def Settled (t : TypeTable) (s : Stmt) : Prop :=
  ∀ tok, stmt t (s.withToken tok) = pure (s.withToken tok)

lemma Settled.stmt_eq (h : Settled t s) : stmt t s = pure s := by
  have htok : s.withToken s.token = s := by cases s <;> rfl
  exact htok ▸ h s.token

lemma replaceAt_settles (h : Settled t s) : Yields (Settled t) (replaceAt tok s) := by
  intro _ tok'
  have htok : (s.withToken tok).withToken tok' = s.withToken tok' := by cases s <;> rfl
  exact htok ▸ h tok'

lemma settled_empty : Settled t (.empty tok) := fun _ => rfl

lemma stmts_eq (h : ∀ s ∈ body, Settled t s) : stmts t body = pure body := by
  induction body with
  | nil => rfl
  | cons s body ih =>
    rw [List.forall_mem_cons] at h
    rw [stmts, h.1.stmt_eq, ih h.2]
    rfl

lemma withoutEmpty_settles (h : ∀ s ∈ body, Settled t s) :
    Yields (fun body => (do withoutEmpty (← stmts t body)) = pure body) (withoutEmpty body) := by
  intro n
  change (do withoutEmpty (← stmts t (body.filter (!·.isNothing)))) = _
  rw [stmts_eq fun s hs => h s (List.mem_filter.1 hs).1, pure_bind]
  simp [withoutEmpty, count, List.filter_filter]
  rfl

lemma optionExpr_settles :
    Yields (fun value => optionExpr t value = pure value) (optionExpr t value) := by
  cases value with
  | none => exact .pure rfl
  | some e =>
    refine .bind expr_still fun e' he' => .pure ?_
    simp [optionExpr, expr_eq he']

lemma branch_settles {cond : Expr} (hc : expr t cond = pure cond) (hy : Settled t yes)
    (hn : ∀ s ∈ no, Settled t s) : Yields (Settled t) (branch tok cond yes no) := by
  have hkeep (h : ∀ tok, branch tok cond yes no = pure (.branch tok cond yes no)) :
      Settled t (.branch tok cond yes no) := by
    intro tok'
    cases no with
    | none => simp [withToken, stmt, hc, hy.stmt_eq, h]
    | some no => simp [withToken, stmt, hc, hy.stmt_eq, (hn no rfl).stmt_eq, h]
  have hno : Settled t (no.getD (.empty tok)) := by
    cases no with
    | none => exact settled_empty
    | some no => exact hn no rfl
  unfold branch at hkeep ⊢
  cases hvalue : cond.integer? with
  | none => exact .pure (hkeep fun _ => by rw [hvalue])
  | some value =>
    simp only [hvalue] at hkeep ⊢
    split
    · exact replaceAt_settles hno
    · next hyes =>
      split
      · exact replaceAt_settles hy
      · next hno => exact .pure (hkeep fun _ => by rw [if_neg hyes, if_neg hno])

lemma stmt_settles (s : Stmt) : Yields (Settled t) (stmt t s) := by
  induction s using Stmt.induction with
  | expr tok e =>
    refine .bind expr_still fun e' he' => ?_
    split
    · next heffect =>
      exact .pure fun _ => by simp [withToken, stmt, expr_eq he', heffect]
    · exact replaceAt_settles settled_empty
  | block tok scope body ih | seq tok body ih =>
    refine .bind (stmts_yields ih) fun body' hbody => ?_
    exact .bind (withoutEmpty_settles hbody) fun kept hkept => .pure fun _ => by
      simp only [withToken, stmt]
      rw [← bind_assoc, hkept, pure_bind]
  | branch tok cond yes no ihy ihn =>
    cases no with
    | none =>
      exact .bind expr_still fun c' hc' => .bind ihy fun yes' hy' =>
        branch_settles (expr_eq hc') hy' (by simp)
    | some no =>
      refine .bind expr_still fun c' hc' => .bind ihy fun yes' hy' => ?_
      exact .bind (ihn no rfl) fun no' hn' =>
        branch_settles (expr_eq hc') hy' (by simpa using hn')
  | whileLoop tok cond body ih =>
    refine .bind expr_still fun c' hc' => .bind ih fun body' hbody => ?_
    split
    · exact replaceAt_settles settled_empty
    · next hgo =>
      refine .pure fun _ => ?_
      simp only [withToken, stmt, expr_eq hc', hbody.stmt_eq, pure_bind, if_neg hgo]
  | doLoop tok body cond ih =>
    refine .bind expr_still fun c' hc' => .bind ih fun body' hbody => ?_
    split
    · exact replaceAt_settles hbody
    · next hgo =>
      refine .pure fun _ => ?_
      simp only [withToken, stmt, expr_eq hc', hbody.stmt_eq, pure_bind, if_neg hgo]
  | forLoop tok first cond step body ihf ih =>
    cases first with
    | none =>
      refine .bind optionExpr_settles fun c' hc' => .bind optionExpr_settles ?_
      refine fun step' hstep => .bind ih fun body' hbody => .pure fun _ => ?_
      simp [withToken, stmt, hc', hstep, hbody.stmt_eq]
    | some first =>
      refine .bind (ihf first rfl) fun first' hfirst => .bind optionExpr_settles ?_
      refine fun c' hc' => .bind optionExpr_settles fun step' hstep => ?_
      refine .bind ih fun body' hbody => .pure fun _ => ?_
      simp [withToken, stmt, hfirst.stmt_eq, hc', hstep, hbody.stmt_eq]
  | switch tok value body labels ih =>
    refine .bind expr_still fun v' hv' => .bind ih fun body' hbody => .pure fun _ => ?_
    simp [withToken, stmt, expr_eq hv', hbody.stmt_eq]
  | ret tok value =>
    refine .bind optionExpr_settles fun v' hv' => .pure fun _ => ?_
    simp [withToken, stmt, hv']
  | gotoAddress tok e | caseLabel tok e | assertion tok e =>
    refine .bind expr_still fun e' he' => .pure fun _ => ?_
    simp [withToken, stmt, expr_eq he']
  | cleanup tok body ih =>
    refine .bind ih fun body' hbody => .pure fun _ => ?_
    simp [withToken, stmt, hbody.stmt_eq]
  | _ => exact .pure fun _ => rfl

lemma pass_settles : Settled t (pass t body).2 := stmt_settles body 0

lemma pass_eq (h : Settled t s) : pass t s = (0, s) := by
  simp only [pass, h.stmt_eq]
  rfl

/-- A pass over what a pass has made counts no changes and makes none. -/
theorem pass_pass (t : TypeTable) (body : Stmt) :
    pass t (pass t body).2 = (0, (pass t body).2) :=
  pass_eq pass_settles

end CompilerCore.Simplify

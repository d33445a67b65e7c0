import CompilerCore.Proofs.Lowering.Respects
import CompilerCore.Proofs.Lowering.Stages

/-!
# Finished bodies

Lowering ends with a body whose labels are distinct and whose jumps lead to those labels.  Passes over
the control flow make such a body, and simplification leaves it so: it removes statements and never
adds any, and what it removes has no label that a jump could lead to.
-/

namespace CompilerCore

open List

/-- A label that programs leave to the compiler. -/
def IsReserved (label : String) : Prop := label.toList.head? = some '$'

instance (label : String) : Decidable (IsReserved label) :=
  inferInstanceAs (Decidable (label.toList.head? = some '$'))

namespace Stmt

variable {site : Site} {s : Stmt}

lemma mem_labelsIn (h : s ∈ ss) {label : String} (hlabel : label ∈ s.labels) :
    label ∈ labelsIn ss := by
  rw [labelsIn_eq_flatMap]
  exact mem_flatMap.2 ⟨s, h, hlabel⟩

/-- Switches have labels of their own besides those of label statements. -/
lemma declaredLabels_sublist (s : Stmt) : s.declaredLabels.Sublist s.labels := by
  induction s using parts_induction with
  | step s ih =>
    have hparts := List.Sublist.flatMap_right s.parts ih
    by_cases hlabel : ∃ tok name, s = label tok name
    · obtain ⟨tok, name, rfl⟩ := hlabel
      exact .refl _
    rw [declaredLabels_eq_flatMap fun tok name h => hlabel ⟨tok, name, h⟩]
    by_cases hsw : ∃ tok value body own, s = switch tok value body (some own)
    · obtain ⟨tok, value, body, own, rfl⟩ := hsw
      refine .cons _ (hparts.trans ?_)
      simp [parts]
    · rwa [labels_eq_flatMap (fun tok name h => hlabel ⟨tok, name, h⟩)
        fun tok value body own h => hsw ⟨tok, value, body, own, h⟩]

/-- A statement for which there is code as it stands. -/
def IsPlain : Stmt → Prop
  | whileLoop .. | doLoop .. | forLoop .. | breakLoop _ | continueLoop _ | caseLabel .. | defaultLabel _
  | assertion .. => False
  | switch _ _ _ own => own.isSome = true
  | _ => True

/-- The labels that a statement itself leads to: where a jump goes, and all that a switch records. -/
def targets : Stmt → List String
  | goto _ name => [name]
  | switch _ _ _ (some own) => own.tail :: (own.cases.map (·.1) ++ own.default.toList)
  | _ => []

/-- A statement that has code, leads to certain labels and has no updates left. -/
structure Remains (arrives : String → Prop) (s : Stmt) : Prop where
  plain : s.IsPlain
  targets : ∀ label ∈ s.targets, arrives label
  noUpdates : s.Holds (fun e => e.isUpdate = false) fun _ => True

/-- What is left when lowering is done: the statements lead to labels of the site or of their own. -/
lemma DoneIn.remains (h : s.DoneIn 0 site) (hsite : ∀ label ∈ site.labels, arrives label)
    (hown : ∀ label ∈ s.labels, arrives label) : s.All (Remains arrives) := by
  induction s using Stmt.induction generalizing site with
  | block _ _ _ ih =>
    exact all_block.2 ⟨⟨trivial, nofun, trivial⟩, fun s hs => ih s hs (allDoneIn_iff.1 h s hs) hsite
      fun label hlabel => hown label (mem_labelsIn hs hlabel)⟩
  | seq _ _ ih =>
    exact all_seq.2 ⟨⟨trivial, nofun, trivial⟩, fun s hs => ih s hs (allDoneIn_iff.1 h s hs) hsite
      fun label hlabel => hown label (mem_labelsIn hs hlabel)⟩
  | branch _ _ _ no ihy ihn =>
    cases no with
    | none => exact all_branch.2 ⟨⟨trivial, nofun, h.1 rfl⟩, ihy h.2 hsite hown, nofun⟩
    | some no =>
      obtain ⟨hyes, hno⟩ := List.forall_mem_append.1 hown
      refine all_branch.2 ⟨⟨trivial, nofun, h.1 rfl⟩, ihy h.2.1 hsite hyes, fun s hs => ?_⟩
      obtain rfl := Option.some.inj hs
      exact ihn no rfl h.2.2 hsite hno
  | switch _ _ _ own ih =>
    cases own with
    | none => exact absurd h.1 (by decide)
    | some own =>
      obtain ⟨hwithin, hvalue, hbody⟩ := h
      obtain ⟨-, hown⟩ := List.forall_mem_cons.1 hown
      obtain ⟨hinner, htail⟩ := List.forall_mem_append.1 hown
      have htail := htail own.tail (.head _)
      refine all_switch.2 ⟨⟨rfl, List.forall_mem_cons.2 ⟨htail, ?_⟩, hvalue rfl⟩,
        ih hbody (List.forall_mem_cons.2 ⟨htail, hsite⟩) hinner⟩
      refine List.forall_mem_append.2 ⟨List.forall_mem_map.2 fun case hcase => ?_, ?_⟩
      · exact hsite _ (hwithin.1 case hcase)
      · exact fun label hlabel => hsite label (hwithin.2 label (Option.mem_toList.1 hlabel))
  | cleanup _ _ ih => exact all_cleanup.2 ⟨⟨trivial, nofun, trivial⟩, ih h hsite hown⟩
  | forLoop _ first =>
    cases first <;> exact absurd h.1 (by decide)
  | assertion => exact absurd (Nat.le_trans h le_rfl) (Nat.not_succ_le_zero 0)
  | goto _ name => exact all_goto.2 ⟨trivial, List.forall_mem_singleton.2 (hsite name h), trivial⟩
  | expr => exact all_expr.2 ⟨trivial, nofun, h rfl⟩
  | ret => exact all_ret.2 ⟨trivial, nofun, fun e he => ⟨h e he rfl, trivial⟩⟩
  | gotoAddress => exact all_gotoAddress.2 ⟨trivial, nofun, h rfl⟩
  | label | asm | empty => exact all_of_leaf rfl |>.2 ⟨trivial, nofun, trivial⟩
  | _ => exact absurd h.1 (by decide)

lemma DoneIn.noUpdates (h : s.DoneIn 0 site) :
    s.All (Holds (fun e => e.isUpdate = false) fun _ => True) :=
  (h.remains (fun _ _ => trivial) fun _ _ => trivial).mono fun _ => Remains.noUpdates

/-- A statement that is run once from its beginning to its end. -/
def IsStraight : Stmt → Prop
  | expr .. | seq .. => True
  | _ => False

end Stmt

/-! ## Simplification -/

namespace Simplify

variable {t : TypeTable} {site : Site} {s s' : Stmt} {tok : Token}

section Expressions

open ControlFlow (NoUpdates)

variable {e : Expr}

lemma binaryRule?_noUpdates (hrule : binaryRule? t op lhs rhs type = some e') (hl : NoUpdates lhs) :
    NoUpdates e' := by
  obtain ⟨_, c, rfl, -, -, -, hreduces⟩ | ⟨_, _, _, rfl, -, rfl, rfl⟩ := binaryRule?_eq_some hrule
  · cases hreduces with
    | left => exact hl
    | zero => exact Expr.all_literal.2 rfl
    | operation => exact Expr.all_binary.2 ⟨rfl, hl, Expr.all_literal.2 rfl⟩
  · exact Expr.all_binary.2 ⟨rfl, hl, Expr.all_literal.2 rfl⟩

lemma node_noUpdates (h : NoUpdates e) : Yields NoUpdates (node t e) := by
  unfold node
  split
  · next op lhs rhs =>
    obtain ⟨-, hl, hr⟩ := Expr.all_binary.1 h
    by_cases hswap : swapsOperands t op lhs rhs = true
    · rw [if_pos hswap]
      exact orKeep_yields (fun _ => Expr.all_binary.2 ⟨rfl, hr, hl⟩) fun _ hrule =>
        binaryRule?_noUpdates hrule hr
    · rw [if_neg hswap]
      exact orKeep_yields (fun _ => h) fun _ hrule => binaryRule?_noUpdates hrule hl
  · obtain ⟨-, htgt, -⟩ := Expr.all_assign.1 h
    refine orKeep_yields (fun _ => h) fun e' hrule => ?_
    obtain ⟨-, rfl⟩ | ⟨_, _, _, _, -, -, -, rfl⟩ := assignRule?_eq_some hrule
    · exact htgt
    · exact Expr.all_unary.2 ⟨rfl, htgt⟩
  · refine orKeep_yields (fun _ => h) fun e' hrule => ?_
    obtain ⟨_, _, _, _, rfl, rfl⟩ := notRule?_eq_some hrule
    exact Expr.all_binary.2 ⟨rfl, (Expr.all_binary.1 (Expr.all_unary.1 h).2).2⟩
  · exact .pure h

lemma expr_noUpdates (e : Expr) (h : NoUpdates e) : Yields NoUpdates (expr t e) :=
  (expr_walks t).yields (fun _ _ h => Expr.isUpdate_withParts.trans h)
    (fun _ he hparts => node_noUpdates (Expr.all_iff.2 ⟨he, hparts⟩)) h

end Expressions

lemma expr_doneIn (h : e.DoneIn 0) : Yields (Expr.DoneIn 0) (expr t e) :=
  fun n _ => expr_noUpdates e (h rfl) n

/-- What simplification leaves of a statement that lowering is done with. -/
structure Trims (site : Site) (s s' : Stmt) : Prop where
  done : s'.DoneIn 0 site
  declared : s'.declaredLabels = s.declaredLabels
  labels : s'.labels.Sublist s.labels
  cleanups : s'.cleanups.length ≤ s.cleanups.length

lemma Trims.refl (h : s.DoneIn 0 site) : Trims site s s := ⟨h, rfl, .refl _, le_rfl⟩

lemma Trims.withToken (h : Trims site s s') (tok : Token) : Trims site s (s'.withToken tok) := by
  obtain ⟨hdone, hdecl, hlabs, hcleans⟩ := h
  cases s' with
  | branch _ _ _ no => cases no <;> exact ⟨hdone, hdecl, hlabs, hcleans⟩
  | forLoop _ first =>
    cases first <;> exact ⟨hdone, hdecl, hlabs, hcleans⟩
  | switch _ _ _ own => cases own <;> exact ⟨hdone, hdecl, hlabs, hcleans⟩
  | _ => exact ⟨hdone, hdecl, hlabs, hcleans⟩

lemma replaceAt_trims (h : Trims site s s') : Yields (Trims site s) (replaceAt tok s') :=
  fun _ => h.withToken tok

lemma declaredLabels_eq_nil (h : hasLabel s = false) : s.declaredLabels = [] := by
  refine filterMap_eq_nil_iff.2 fun n hn => ?_
  have hnode := any_eq_false.1 h n hn
  cases n with
  | label => exact absurd rfl hnode
  | _ => rfl

lemma declaredLabels_isNothing (h : s.isNothing = true) :
    s.declaredLabels = [] ∧ s.labels = [] ∧ s.cleanups = [] := by
  cases s with
  | empty => exact ⟨rfl, rfl, rfl⟩
  | _ => cases h

lemma withoutEmpty_trims (h : Trims site (.seq tok ss) (.seq tok ss')) :
    Yields (fun kept => Trims site (.seq tok ss) (.seq tok kept)) (withoutEmpty ss') := by
  intro n
  show Trims site _ (.seq tok (ss'.filter (!·.isNothing)))
  obtain ⟨hdone, hdecl, hlabs, hcleans⟩ := h
  have hkept (ss : List Stmt) :
      (Stmt.seq tok (ss.filter (!·.isNothing))).declaredLabels = (Stmt.seq tok ss).declaredLabels ∧
      (Stmt.seq tok (ss.filter (!·.isNothing))).labels = (Stmt.seq tok ss).labels ∧
      (Stmt.seq tok (ss.filter (!·.isNothing))).cleanups = (Stmt.seq tok ss).cleanups := by
    simp only [Stmt.declaredLabels_seq, Stmt.labels, Stmt.cleanups_seq]
    induction ss with
    | nil => exact ⟨rfl, rfl, rfl⟩
    | cons s _ ih =>
      obtain ⟨ihd, ihl, ihc⟩ := ih
      cases hs : s.isNothing with
      | true =>
        obtain ⟨hd, hl, hc⟩ := declaredLabels_isNothing hs
        rw [filter_cons_of_neg (by simp [hs])]
        simp [Stmt.labelsIn, ihd, ihl, ihc, hd, hl, hc]
      | false =>
        rw [filter_cons_of_pos (by simp [hs])]
        simp [Stmt.labelsIn, ihd, ihl, ihc]
  obtain ⟨hd, hl, hc⟩ := hkept ss'
  refine ⟨Stmt.allDoneIn_iff.2 fun s hs => ?_, hd.trans hdecl, hl ▸ hlabs, hc ▸ hcleans⟩
  exact Stmt.allDoneIn_iff.1 hdone s (mem_filter.1 hs).1

lemma stmts_trims (ih : ∀ s ∈ ss, s.DoneIn 0 site → Yields (Trims site s) (stmt t s))
    (h : ∀ s ∈ ss, s.DoneIn 0 site) (tok : Token) :
    Yields (fun ss' => Trims site (.seq tok ss) (.seq tok ss')) (stmts t ss) := by
  induction ss with
  | nil => exact .pure (.refl trivial)
  | cons _ _ ihrest =>
    rw [forall_mem_cons] at ih h
    refine .bind (ih.1 h.1) fun s' hs => .bind (ihrest ih.2 h.2) fun rest' hrest => .pure ?_
    obtain ⟨hdone, hdecl, hlabs, hcleans⟩ := hrest
    refine ⟨⟨hs.done, hdone⟩, ?_, hs.labels.append hlabs, ?_⟩
    · simp_all [hs.declared]
    · simp only [Stmt.cleanups_seq, flatMap_cons, length_append] at hcleans ⊢
      exact Nat.add_le_add hs.cleanups hcleans

/-- The labels and the cleanup statements of a branch are those of its sides. -/
lemma branch_sides (tok : Token) (cond : Expr) (yes : Stmt) (no : Option Stmt) :
    (Stmt.branch tok cond yes no).declaredLabels =
      yes.declaredLabels ++ (no.getD (.empty tok)).declaredLabels ∧
    (Stmt.branch tok cond yes no).labels = yes.labels ++ (no.getD (.empty tok)).labels ∧
    (Stmt.branch tok cond yes no).cleanups = yes.cleanups ++ (no.getD (.empty tok)).cleanups := by
  cases no with
  | none => exact ⟨(append_nil _).symm, (append_nil _).symm, (append_nil _).symm⟩
  | some no => exact ⟨Stmt.declaredLabels_branch_some, rfl, Stmt.cleanups_branch_some⟩

lemma branch_trims {cond : Expr} (hc : cond.DoneIn 0) (hy : Trims site yes yes')
    (hn : Trims site (no.getD (.empty tok)) (no'.getD (.empty tok))) :
    Yields (Trims site (.branch tok given yes no)) (branch tok cond yes' no') := by
  obtain ⟨hdecl, hlabs, hcleans⟩ := branch_sides tok given yes no
  have hkeep : Trims site (.branch tok given yes no) (.branch tok cond yes' no') := by
    obtain ⟨hdecl', hlabs', hcleans'⟩ := branch_sides tok cond yes' no'
    refine ⟨?_, ?_, ?_, ?_⟩
    · cases no' with
      | none => exact ⟨hc, hy.done⟩
      | some => exact ⟨hc, hy.done, hn.done⟩
    · rw [hdecl, hdecl', hy.declared, hn.declared]
    · rw [hlabs, hlabs']
      exact hy.labels.append hn.labels
    · rw [hcleans, hcleans', length_append, length_append]
      exact Nat.add_le_add hy.cleanups hn.cleanups
  unfold branch
  split
  · split
    · next hzero =>
      have hnone : yes'.declaredLabels = [] := declaredLabels_eq_nil (by simpa using hzero.2)
      refine replaceAt_trims ⟨hn.done, ?_, ?_, ?_⟩
      · rw [hdecl, ← hy.declared, ← hn.declared, hnone]
        rfl
      · rw [hlabs]
        exact hn.labels.trans (sublist_append_right _ _)
      · rw [hcleans, length_append]
        exact hn.cleanups.trans (Nat.le_add_left _ _)
    · split
      · next hnonzero =>
        have hnone : (no'.getD (.empty tok)).declaredLabels = [] := by
          cases no' with
          | none => rfl
          | some => exact declaredLabels_eq_nil (by simpa using hnonzero.2)
        refine replaceAt_trims ⟨hy.done, ?_, ?_, ?_⟩
        · rw [hdecl, ← hy.declared, ← hn.declared, hnone, append_nil]
        · rw [hlabs]
          exact hy.labels.trans (sublist_append_left _ _)
        · rw [hcleans, length_append]
          exact hy.cleanups.trans (Nat.le_add_right _ _)
      · exact .pure hkeep
  · exact .pure hkeep

lemma stmt_trims (h : s.DoneIn 0 site) : Yields (Trims site s) (stmt t s) := by
  induction s using Stmt.induction generalizing site with
  | expr =>
    refine .bind (expr_doneIn h) fun e' he => ?_
    split
    · exact .pure ⟨he, rfl, .refl _, le_rfl⟩
    · exact replaceAt_trims ⟨trivial, rfl, .refl _, le_rfl⟩
  | block tok _ _ ih =>
    have hbody := stmts_trims (fun s hs => ih s hs) (Stmt.allDoneIn_iff.1 h) tok
    refine .bind hbody fun body' hbody => .bind (withoutEmpty_trims hbody) fun kept hkept => .pure ?_
    exact ⟨hkept.done, hkept.declared, hkept.labels, hkept.cleanups⟩
  | seq tok _ ih =>
    have hbody := stmts_trims (fun s hs => ih s hs) (Stmt.allDoneIn_iff.1 h) tok
    exact .bind hbody fun body' hbody => .bind (withoutEmpty_trims hbody) fun kept => .pure
  | branch _ _ _ no ihy ihn =>
    cases no with
    | none =>
      refine .bind (expr_doneIn h.1) fun c' hc => .bind (ihy h.2) fun yes' hy => ?_
      exact branch_trims hc hy (.refl trivial)
    | some no =>
      refine .bind (expr_doneIn h.1) fun c' hc => .bind (ihy h.2.1) fun yes' hy =>
        .bind (ihn no rfl h.2.2) fun no' hno => ?_
      exact branch_trims hc hy hno
  | ret =>
    exact .bind (optionExpr_yields fun e he => expr_doneIn (h e he)) fun value' hvalue =>
      .pure ⟨hvalue, rfl, .refl _, le_rfl⟩
  | gotoAddress =>
    exact .bind (expr_doneIn h) fun e' he => .pure ⟨he, rfl, .refl _, le_rfl⟩
  | switch _ _ _ own ih =>
    cases own with
    | none => exact absurd h.1 (by decide)
    | some =>
      refine .bind (expr_doneIn h.2.1) fun value' hv => .bind (ih h.2.2) fun body' hb => .pure ?_
      exact ⟨⟨h.1, hv, hb.done⟩, hb.declared, (hb.labels.append (.refl _)).cons_cons _, hb.cleanups⟩
  | cleanup _ _ ih =>
    exact .bind (ih h) fun body' hb => .pure ⟨hb.done, hb.declared, hb.labels,
      Nat.succ_le_succ hb.cleanups⟩
  | forLoop _ first =>
    cases first with
    | none => exact absurd h.1 (by decide)
    | some => exact absurd h.1 (by decide)
  | assertion => exact absurd (Nat.le_trans h le_rfl) (Nat.not_succ_le_zero 0)
  | goto | label | asm | empty => exact .pure (.refl h)
  | _ => exact absurd h.1 (by decide)

end Simplify

/-! ## Control flow -/

namespace ControlFlow

lemma stmt_straight (s : Stmt) (h : s.All Stmt.IsStraight) (c : Context) (st : State) :
    (stmt c s st).1.All Stmt.IsStraight := by
  induction s using Stmt.induction generalizing c st with
  | expr tok e =>
    cases hdecl : declaredElements? c.types e with
    | none =>
      rw [stmt_expr_none c st hdecl]
      exact Stmt.all_expr.2 trivial
    | some declared =>
      obtain ⟨ss, k, hss, hrun⟩ := expandDeclaration_makesExprs c e.note declared.1 declared.2
      rw [stmt_expr_some c st hdecl, hrun]
      refine Stmt.all_seq.2 ⟨trivial, fun s hs => ?_⟩
      obtain ⟨tok, e, rfl⟩ := hss s hs
      exact Stmt.all_expr.2 trivial
  | seq _ _ ih =>
    have hbody := (Stmt.all_seq.1 h).2
    exact Stmt.all_seq.2 ⟨trivial, forall_mem_stmts (fun s hs => ih s hs (hbody s hs) c) st⟩
  | _ => exact h.self.elim

/-! ## Names of labels -/

lemma toList_madeLabel_ne (hc : c ≠ '_') (hdigit : c.isDigit = false) {id : Nat} {suffix : String}
    {rest : List Char} : (madeLabel id suffix).toList ≠ '$' :: c :: rest := by
  intro h
  rw [toList_madeLabel, cons_inj_right] at h
  cases hdigits : Nat.toDigits 10 id with
  | nil =>
    rw [hdigits] at h
    exact hc (cons.inj h).1.symm
  | cons digit =>
    rw [hdigits] at h
    have hmem : digit.isDigit = true :=
      Nat.isDigit_of_mem_toDigits (by decide) (by decide) (hdigits ▸ mem_cons_self)
    rw [(cons.inj h).1, hdigit] at hmem
    cases hmem

/-- The labels of a body are given ones or made by passes. -/
def LabelsFrom (given : List String) (body : Stmt) : Prop :=
  ∀ label ∈ body.labels, label ∈ given ∨ ∃ id suffix, label = madeLabel id suffix

lemma pass_labelsFrom (hdist : HasDistinctLabels body) (h : LabelsFrom given body.1) :
    LabelsFrom given (pass types scopes body).2.1 := by
  obtain ⟨fresh, hperm, -, -, hbetween⟩ := hdist.exists_fresh types scopes
  intro label hlabel
  obtain hold | hfresh := mem_append.1 (hperm.mem_iff.1 hlabel)
  · exact h label hold
  · obtain ⟨id, suffix, -, -, hmade⟩ := hbetween label hfresh
    exact .inr ⟨id, suffix, hmade⟩

lemma LabelsFrom.toList_ne (h : LabelsFrom given body)
    (hgiven : ∀ label ∈ given, ¬ IsReserved label) (hlabel : label ∈ body.labels) (hc : c ≠ '_')
    (hdigit : c.isDigit = false) (rest : List Char) : label.toList ≠ '$' :: c :: rest := by
  obtain hmem | ⟨id, suffix, rfl⟩ := h label hlabel
  · intro heq
    exact hgiven label hmem (by rw [IsReserved, heq]; rfl)
  · exact toList_madeLabel_ne hc hdigit

end ControlFlow

/-! ## Whole bodies -/

/-- A body in which nothing is left to lower, with one cleanup at most. -/
structure Stmt.Finished (body : Stmt) : Prop where
  closes : ControlFlow.ClosesIn 0 body
  cleanups : body.cleanups.length ≤ 1

/-- A body whose labels differ and are given ones or made ones. -/
structure Stmt.Distinct (given : List String) (body : Stmt) : Prop where
  nodup : body.labels.Nodup
  labels : ControlFlow.LabelsFrom given body

namespace ControlFlow

variable {types : TypeTable} {scopes : ScopeTree} {body : Stmt × Nat}

lemma repeatPass_finished (hlimit : n ≤ limit) (hcloses : ClosesIn n body.1)
    (hcleans : body.1.cleanups.length ≤ 1) :
    (repeatPass (pass types scopes) limit body).2.1.Finished := by
  refine ⟨repeatPass_closesIn hlimit hcloses, ?_⟩
  exact repeatPass_keeps (I := fun body' : Stmt × Nat => body'.1.cleanups.length ≤ 1)
    (fun body' h => (stmt_reworks body'.1 _ _).cleanups.le.trans h) limit hcleans

lemma repeatPass_distinct (limit : Nat) (h : HasDistinctLabels body) :
    (repeatPass (pass types scopes) limit body).2.1.Distinct body.1.labels := by
  have hkept : HasDistinctLabels (repeatPass (pass types scopes) limit body).2 ∧
      LabelsFrom body.1.labels (repeatPass (pass types scopes) limit body).2.1 :=
    repeatPass_keeps
      (I := fun body' : Stmt × Nat => HasDistinctLabels body' ∧ LabelsFrom body.1.labels body'.1)
      (fun body' h => ⟨h.1.pass types scopes, pass_labelsFrom h.1 h.2⟩) limit ⟨h, fun _ => .inl⟩
  exact ⟨hkept.1.nodup, hkept.2⟩

end ControlFlow

namespace Simplify

variable {t : TypeTable} {body : Stmt}

/-- Simplification leaves a finished body finished, and adds no labels. -/
lemma repeatPass_trims (limit : Nat) (h : body.Finished) :
    (repeatPass (pass t) limit body).2.Finished ∧
      (repeatPass (pass t) limit body).2.labels.Sublist body.labels := by
  refine repeatPass_keeps
    (I := fun body' : Stmt => body'.Finished ∧ body'.labels.Sublist body.labels)
    (fun body' ⟨⟨hcloses, hcleans⟩, hlabs⟩ => ?_) limit ⟨h, .refl _⟩
  have htrims := stmt_trims (t := t) hcloses 0
  refine ⟨⟨?_, htrims.cleanups.trans hcleans⟩, htrims.labels.trans hlabs⟩
  show Stmt.DoneIn 0 { labels := Stmt.declaredLabels _ } _
  rw [show Stmt.declaredLabels (pass t body').2 = body'.declaredLabels from htrims.declared]
  exact htrims.done

end Simplify

end CompilerCore

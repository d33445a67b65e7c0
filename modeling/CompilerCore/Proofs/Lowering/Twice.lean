import CompilerCore.Proofs.Lowering.Fragment

/-!
# Two passes

Two passes bring a structured statement into its lowered form.  The first one turns `do` and `for`
loops into `while` loops, whose end has no label yet, so a `break` in them waits for the second one.
-/

namespace CompilerCore.ControlFlow

open Structured Bool Option PendingSwitch Stmt

/-! ## Labels of switches -/

/-- A switch with the labels of more statements, given what became of them. -/
def PendingSwitch.record (pending : PendingSwitch) (ss ss' : List Stmt) : PendingSwitch :=
  { pending with
    labels :=
      { pending.labels with
        cases := pending.labels.cases ++ caseTable ss ss'
        default := pending.labels.default <|> defaultIn ss ss' } }

/-- Whether the default label of a switch, if it has one, has the name that a pass gives it. -/
def PendingSwitch.NamesDefault (pending : PendingSwitch) : Prop :=
  ∀ name ∈ pending.labels.default, name = madeLabel pending.id "default"

lemma caseTable_cons (s s' : Stmt) (ss ss' : List Stmt) :
    caseTable (s :: ss) (s' :: ss') = caseTable [s] [s'] ++ caseTable ss ss' := by
  cases s with
  | caseLabel => cases s' <;> simp [caseTable]
  | _ => rfl

lemma defaultIn_cons (s s' : Stmt) (ss ss' : List Stmt) :
    defaultIn (s :: ss) (s' :: ss') = (defaultIn [s] [s'] <|> defaultIn ss ss') := by
  cases s with
  | defaultLabel => cases s' <;> simp [defaultIn]
  | _ => rfl

lemma PendingSwitch.record_cons {pending : PendingSwitch} :
    (pending.record [s] [s']).record ss ss' = pending.record (s :: ss) (s' :: ss') := by
  rw [record, record, record, caseTable_cons s s' ss ss', defaultIn_cons s s' ss ss']
  cases pending.labels.default <;> simp

variable {p : Place} {body : Stmt} {tok : Token}

lemma stmts_switch (hs : allStructured p ss = true)
    (h : ∀ s ∈ ss, s.isStructured p = true → ∀ st, (stmt c s st).2.switch = st.switch)
    (st : State) : (stmts c ss st).2.switch = st.switch := by
  induction ss generalizing st with
  | nil => rfl
  | cons s _ ih =>
    rw [allStructured, and_eq_true] at hs
    rw [stmts_cons, ih hs.2 fun s hs => h s (.tail _ hs)]
    exact h s (.head _) hs.1 st

/-- Case labels elsewhere than in the body of a switch would be needed to change its labels. -/
lemma stmt_switch_elsewhere (s : Stmt) (hs : s.isStructured .elsewhere = true) (c : Context)
    (st : State) : (stmt c s st).2.switch = st.switch := by
  induction s using induction generalizing c st with
  | expr =>
    rw [stmt_expr_none c st (declaredElements_eq_none c.types hs), switch_expr]
  | block tok scope body ih | seq tok body ih =>
    exact stmts_switch hs (fun s hmem hs st => ih s hmem hs c st) st
  | branch _ _ _ no ihYes ihNo =>
    cases no with
    | none =>
      rw [isStructured, and_eq_true] at hs
      rw [stmt_branch_none, ihYes hs.2, switch_expr]
    | some no =>
      rw [isStructured, and_eq_true, and_eq_true] at hs
      rw [stmt_branch_some, ihNo no rfl hs.2, ihYes hs.1.2, switch_expr]
  | whileLoop _ _ _ ih =>
    rw [isStructured, and_eq_true] at hs
    rw [stmt_whileLoop, ih hs.2, switch_expr]
  | doLoop _ _ _ ih =>
    rw [isStructured, and_eq_true] at hs
    rw [stmt_doLoop, ih hs.2, switch_expr]
  | forLoop _ first _ _ _ ihFirst ih =>
    cases first with
    | none =>
      rw [isStructured, and_eq_true] at hs
      rw [stmt_forLoop_none, ih hs.2, switch_optionExpr, switch_optionExpr]
    | some first =>
      rw [isStructured, and_eq_true, and_eq_true, and_eq_true] at hs
      rw [stmt_forLoop_some, ih hs.2, switch_optionExpr, switch_optionExpr, ihFirst first rfl hs.1.1.1]
  | breakLoop =>
    rw [stmt]
    cases c.breakTo <;> rfl
  | continueLoop =>
    rw [stmt]
    cases c.continueTo <;> rfl
  | ret _ value => exact switch_optionExpr value st
  | switch _ value _ labels =>
    cases labels with
    | none => exact switch_expr value st
    | some => cases hs
  | assertion _ cond => exact switch_expr cond st
  | empty => rfl
  | _ => cases hs

/-- What a pass makes of statements of a switch's body: it enters their labels into the switch, and
the next pass keeps them. -/
structure Records (pending : PendingSwitch) (ss ss' : List Stmt) (st' : State) : Prop where
  switch_eq : st'.switch = some (pending.record ss ss')
  named : (pending.record ss ss').NamesDefault
  cases_eq : ∀ c st, caseTable ss (stmts c ss' st).1 = caseTable ss ss'
  default_eq : ∀ c st, defaultIn ss (stmts c ss' st).1 = defaultIn ss ss'

lemma not_recorded (hs : s.isStructured .elsewhere = true) :
    caseTable [s] [s'] = [] ∧ defaultIn [s] [s'] = none := by
  cases s with
  | caseLabel | defaultLabel => cases hs
  | _ => exact ⟨rfl, rfl⟩

section Records

variable {pending : PendingSwitch} {st : State} (hst : st.switch = some pending)
  (hnamed : pending.NamesDefault) (c : Context)

include hst hnamed

lemma records_elsewhere (hs : s.isStructured .elsewhere = true) :
    Records pending [s] [(stmt c s st).1] (stmt c s st).2 := by
  have hrecord (s' : Stmt) : pending.record [s] [s'] = pending := by
    rw [record, (not_recorded hs).1, (not_recorded hs).2]
    simp
  refine ⟨?_, ?_, fun c' st' => ?_, fun c' st' => ?_⟩
  · rw [stmt_switch_elsewhere s hs, hrecord, hst]
  · rw [hrecord]
    exact hnamed
  · rw [stmts_cons, (not_recorded hs).1]
    exact (not_recorded hs).1
  · rw [stmts_cons, (not_recorded hs).2]
    exact (not_recorded hs).2

lemma records_item (hs : s.isStructured .item = true) (hp : s.isPlaced inLoop isBreakable = true) :
    Records pending [s] [(stmt c s st).1] (stmt c s st).2 := by
  rcases s.isStructured_item with ⟨tok, value, rfl⟩ | ⟨tok, rfl⟩ | heq
  · obtain ⟨constant, hv⟩ := isSome_iff_exists.1 hp
    rw [stmt_caseLabel_some c st hst hv]
    refine ⟨?_, ?_, fun c' st' => rfl, fun c' st' => rfl⟩
    · simp [record, caseTable, defaultIn, hv]
    · simpa [PendingSwitch.NamesDefault, record, caseTable, defaultIn, hv] using hnamed
  · rw [stmt_defaultLabel_some c st hst]
    have hdef : (pending.labels.default <|> some (madeLabel pending.id "default")) =
        some (madeLabel pending.id "default") := by
      cases h : pending.labels.default with
      | none => rfl
      | some name => rw [hnamed name h]; rfl
    refine ⟨?_, ?_, fun c' st' => rfl, fun c' st' => rfl⟩
    · simp [record, caseTable, defaultIn, hdef]
    · intro name hname
      rw [record, defaultIn, hdef] at hname
      exact (some.inj hname).symm
  · exact records_elsewhere hst hnamed c (heq.symm.trans hs)

lemma records_items (hs : allStructured .item ss = true)
    (hp : allPlaced inLoop isBreakable ss = true) :
    Records pending ss (stmts c ss st).1 (stmts c ss st).2 := by
  induction ss generalizing pending st with
  | nil =>
    have hrecord : pending.record [] [] = pending := by
      simp [record, caseTable, defaultIn]
    refine ⟨?_, ?_, fun c' st' => rfl, fun c' st' => rfl⟩
    · show st.switch = _
      rw [hst]
      exact congrArg some hrecord.symm
    · show (pending.record [] []).NamesDefault
      rw [hrecord]
      exact hnamed
  | cons s ss ih =>
    rw [allStructured, and_eq_true] at hs
    rw [allPlaced, and_eq_true] at hp
    have hfirst := records_item hst hnamed c hs.1 hp.1
    have hrest := ih hfirst.switch_eq hfirst.named hs.2 hp.2
    rw [stmts_cons]
    refine ⟨?_, ?_, fun c' st' => ?_, fun c' st' => ?_⟩
    · rw [← record_cons]
      exact hrest.switch_eq
    · rw [← record_cons]
      exact hrest.named
    · have hhead := hfirst.cases_eq c' st'
      rw [stmts_cons] at hhead ⊢
      rw [caseTable_cons s _ ss, caseTable_cons s _ ss, hrest.cases_eq]
      exact congrArg (· ++ _) hhead
    · have hhead := hfirst.default_eq c' st'
      rw [stmts_cons] at hhead ⊢
      rw [defaultIn_cons s _ ss, defaultIn_cons s _ ss, hrest.default_eq]
      exact congrArg (· <|> _) hhead

end Records

/-- The labels that a switch ends up with are those in its lowered body. -/
lemma exists_switchLabels (hst : st.switch = some pending) (hcases : pending.labels.cases = [])
    (hdef : pending.labels.default = none) (hs : body.isStructured .body = true)
    (hp : body.isPlaced inLoop isBreakable = true)
    (hl : Lowered T body (stmt c' (stmt c body st).1 st').1) :
    ∃ inner labels, (stmt c body st).2.switch.map (·.labels) = some labels ∧
      labels.tail = pending.labels.tail ∧ Holds (stmt c' (stmt c body st).1 st').1 inner ∧
      LoweredAll T (items body) inner ∧ labels.cases = caseTable (items body) inner ∧
      labels.default = defaultIn (items body) inner := by
  have hnamed : pending.NamesDefault := by
    intro name hname
    rw [hdef] at hname
    cases hname
  -- It is enough to know what the statements of the body become.
  have finish {ss ss' : List Stmt} {after : State} (h : Records pending ss ss' after) :
      after.switch.map (·.labels) = some (pending.record ss ss').labels ∧
      (pending.record ss ss').labels.tail = pending.labels.tail ∧
      (pending.record ss ss').labels.cases = caseTable ss (stmts c' ss' st').1 ∧
      (pending.record ss ss').labels.default = defaultIn ss (stmts c' ss' st').1 := by
    refine ⟨by rw [h.switch_eq]; rfl, rfl, ?_, ?_⟩
    · rw [h.cases_eq, record, hcases, List.nil_append]
    · rw [h.default_eq, record, hdef]
      rfl
  rcases body.isStructured_body with ⟨tok, scope, inner, rfl⟩ | ⟨tok, inner, rfl⟩ | ⟨heq, hitems⟩
  · obtain ⟨hlabs, htail, hcs, hd⟩ := finish (records_items hst hnamed c hs hp)
    cases hl with
    | block parts => exact ⟨_, _, hlabs, htail, .block _ _ _, parts, hcs, hd⟩
  · obtain ⟨hlabs, htail, hcs, hd⟩ := finish (records_items hst hnamed c hs hp)
    cases hl with
    | seq parts => exact ⟨_, _, hlabs, htail, .seq _ _, parts, hcs, hd⟩
  · obtain ⟨hlabs, htail, hcs, hd⟩ := finish (records_item hst hnamed c (heq.symm.trans hs) hp)
    rw [hitems]
    exact ⟨_, _, hlabs, htail, .single _, .cons hl .nil, hcs, hd⟩

/-! ## Statements -/

/-- Where jumps out of loops go after two passes: the first one decides if it can. -/
def targets (c c' : Context) : Targets :=
  ⟨c.breakTo <|> c'.breakTo, c.continueTo <|> c'.continueTo⟩

/-- Whether two passes know where jumps out of loops go, at a place where analysis allows them. -/
structure KnowsTargets (c c' : Context) (inLoop isBreakable : Bool) : Prop where
  breakTo : isBreakable = true → (targets c c').breakTo.isSome
  continueTo : inLoop = true → (targets c c').continueTo.isSome

/-- Two passes bring a statement into its lowered form, if case labels stand in a switch and it is
known where jumps out of loops go. -/
def LowersTwice (s : Stmt) : Prop :=
  ∀ (c c' : Context) (st st' : State) {p : Place} {inLoop isBreakable : Bool},
    s.isStructured p = true → s.isPlaced inLoop isBreakable = true →
    KnowsTargets c c' inLoop isBreakable → (p ≠ .elsewhere → st.switch.isSome) →
    Lowered (targets c c') s (stmt c' (stmt c s st).1 st').1

lemma stmts_lowersTwice (h : ∀ s ∈ ss, LowersTwice s) (c c' : Context) (st st' : State)
    (hs : allStructured p ss = true) (hp : allPlaced inLoop isBreakable ss = true)
    (hr : KnowsTargets c c' inLoop isBreakable) (hst : p ≠ .elsewhere → st.switch.isSome) :
    LoweredAll (targets c c') ss (stmts c' (stmts c ss st).1 st').1 := by
  induction ss generalizing st st' with
  | nil => exact .nil
  | cons s _ ih =>
    rw [allStructured, and_eq_true] at hs
    rw [allPlaced, and_eq_true] at hp
    refine .cons (h s (.head _) c c' st st' hs.1 hp.1 hr hst) ?_
    refine ih (fun s hs => h s (.tail _ hs)) _ _ hs.2 hp.2 fun hne => ?_
    rw [(stmt_advances s c st).isSome_eq]
    exact hst hne

section Loops

variable (c : Context) {tok : Token} {cond : Expr} {body : Stmt} {head tail next : String}
  (st : State)

lemma negation_isSimple (h : cond.isSimple = true) : (negation cond).isSimple = true := by
  simpa [negation, Expr.isSimple, Expr.nodes, Expr.isShorthand] using h

lemma stmt_exit (h : cond.isSimple = true) :
    stmt c (.branch tok (negation cond) (.goto tok tail) none) st =
      (.branch tok (negation cond) (.goto tok tail) none, st) := by
  simp only [stmt_branch_none, expr_eq_self _ (negation_isSimple h)]
  rfl

lemma stmts_loopStatements (h : cond.isSimple = true) :
    stmts c (loopStatements tok cond body head tail) st =
      (loopStatements tok cond (stmt c body st).1 head tail, (stmt c body st).2) := by
  unfold loopStatements
  cases isAlwaysTrue cond with
  | true => rfl
  | false =>
    show stmts c (.label tok head :: .branch tok (negation cond) (.goto tok tail) none ::
        [body, .goto tok head, .label tok tail]) st = _
    rw [stmts_cons, stmts_cons]
    simp only [show stmt c (.label tok head) st = (.label tok head, st) from rfl, stmt_exit c st h]
    rfl

lemma stmts_step {step : Option Expr} (h : step.all Expr.isSimple = true) :
    (stmts c (step.toList.map (.expr tok)) st).1 = step.toList.map (.expr tok) := by
  cases step with
  | none => rfl
  | some e =>
    show [(stmt c (.expr tok e) st).1] = _
    rw [stmt_expr_none c st (declaredElements_eq_none c.types h), expr_eq_self e h]
    rfl

/-- The exit of a `do` loop gets its target from the second pass. -/
lemma stmts_exitUnless (h : cond.isSimple = true) (hc : c.breakTo = some tail) :
    (stmts c (exitUnless tok cond (.breakLoop tok)) st).1 =
      exitUnless tok cond (.goto tok tail) := by
  have hbreak : (stmt c (.breakLoop tok) st).1 = .goto tok tail := by
    simp only [stmt, hc]
    rfl
  show [(stmt c (.branch tok (negation cond) (.breakLoop tok) none) st).1] = _
  simp only [stmt_branch_none, expr_eq_self _ (negation_isSimple h), hbreak]
  rfl

lemma getD_always_isSimple {cond : Option Expr} (h : cond.all Expr.isSimple = true) :
    (cond.getD (always tok)).isSimple = true := by
  cases cond with
  | none => rfl
  | some => exact h

lemma stmt_whileLoop_turn (hc : cond.isSimple = true)
    (h : ∀ c' st', c'.breakTo = some (madeLabel st.nextLabel "tail") →
      (stmts c' more st').1 = more') :
    (stmt c (.whileLoop tok cond (.seq tok ([body, .label tok next] ++ more))) st).1 =
      let head := madeLabel st.nextLabel "head"
      let tail := madeLabel st.nextLabel "tail"
      let inner := stmt { c with breakTo := some tail, continueTo := some head } body
        { st with nextLabel := st.nextLabel + 1 }
      .seq tok (loopStatements tok cond
        (.seq tok ([inner.1, .label tok next] ++ more')) head tail) := by
  simp only [stmt_whileLoop, expr_eq_self cond hc, stmt_seq, List.cons_append, List.nil_append,
    stmts_cons]
  rw [h _ _ rfl]
  rfl

end Loops

lemma Place.inner_ne (h : p.inner ≠ .elsewhere) : p ≠ .elsewhere := by
  rintro rfl
  exact h rfl

lemma LowersTwice.whileLoop {cond : Expr} (ih : LowersTwice body) :
    LowersTwice (.whileLoop tok cond body) := by
  intro c c' st st' p inLoop isBreakable hs hp hr hst
  rw [isStructured, and_eq_true] at hs
  simp only [stmt_whileLoop, expr_eq_self cond hs.1]
  show Lowered _ _ (.seq tok (stmts c' (loopStatements ..) st').1)
  rw [stmts_loopStatements c' st' hs.1]
  exact .whileLoop (ih { c with breakTo := some _, continueTo := some _ } c' _ _ hs.2 hp
    ⟨fun _ => rfl, fun _ => rfl⟩ (absurd rfl))

lemma LowersTwice.loopBody (ih : LowersTwice body) (c c' : Context) (st st' : State)
    (head tail next : String) (hs : body.isStructured .elsewhere = true)
    (hp : body.isPlaced true true = true) : Lowered ⟨some tail, some next⟩ body
      (stmt { c' with breakTo := some tail, continueTo := some head }
        (stmt (c.loopBody next) body st).1 st').1 :=
  ih (c.loopBody next) { c' with breakTo := some tail, continueTo := some head } st st' hs hp
    ⟨fun _ => rfl, fun _ => rfl⟩ (absurd rfl)

lemma LowersTwice.doLoop {cond : Expr} (ih : LowersTwice body) :
    LowersTwice (.doLoop tok body cond) := by
  intro c c' st st' p inLoop isBreakable hs hp hr hst
  rw [isStructured, and_eq_true] at hs
  simp only [stmt_doLoop, expr_eq_self cond hs.1, doAsWhile]
  rw [stmt_whileLoop_turn c' st' rfl fun c st hc => stmts_exitUnless c st hs.1 hc]
  exact .doLoop (ih.loopBody c c' _ _ _ _ _ hs.2 hp)

lemma LowersTwice.forLoop {cond step : Option Expr} (ihFirst : ∀ s ∈ first, LowersTwice s)
    (ih : LowersTwice body) : LowersTwice (.forLoop tok first cond step body) := by
  intro c c' st st' p inLoop isBreakable hs hp hr hst
  cases first with
  | none =>
    rw [isStructured, and_eq_true, and_eq_true] at hs
    obtain ⟨⟨hc, hstep⟩, hbody⟩ := hs
    simp only [stmt_forLoop_none, optionExpr_eq_self hc, optionExpr_eq_self hstep, stmt_seq,
      forAsWhile, toList_none, List.nil_append, stmts_cons]
    rw [stmt_whileLoop_turn c' st' (getD_always_isSimple hc) fun c st _ => stmts_step c st hstep]
    exact .forLoopAlone (ih.loopBody c c' _ _ _ _ _ hbody hp)
  | some first =>
    rw [isStructured, and_eq_true, and_eq_true, and_eq_true] at hs
    rw [isPlaced, and_eq_true] at hp
    obtain ⟨⟨⟨hfirst, hc⟩, hstep⟩, hbody⟩ := hs
    simp only [stmt_forLoop_some, optionExpr_eq_self hc, optionExpr_eq_self hstep, stmt_seq,
      forAsWhile, toList_some, List.singleton_append, stmts_cons]
    rw [stmt_whileLoop_turn c' _ (getD_always_isSimple hc) fun c st _ => stmts_step c st hstep]
    exact .forLoopFirst (ihFirst first rfl c c' _ st' hfirst hp.1 hr (absurd rfl))
      (ih.loopBody c c' _ _ _ _ _ hbody hp.2)

lemma LowersTwice.switch (ih : LowersTwice body) : LowersTwice (.switch tok value body none) := by
  intro c c' st st' p inLoop isBreakable hs hp hr hst
  rw [isStructured, and_eq_true] at hs
  -- The body is lowered with the switch's end as the target of `break` in both passes.
  have hbody (inside : State) (labels : SwitchLabels) (hin : inside.switch.isSome) :
      Lowered ⟨some labels.tail, (targets c c').continueTo⟩ body
        (stmt (c'.switchBody labels.tail) (stmt (c.switchBody labels.tail) body inside).1 st').1 :=
    ih (c.switchBody labels.tail) (c'.switchBody labels.tail) inside st' hs.2 hp
      ⟨fun _ => rfl, hr.continueTo⟩ fun _ => hin
  simp only [stmt_switch_none, expr_eq_self value hs.1]
  obtain ⟨inner, labels, hlabs, htail, hholds, hparts, hcases, hdef⟩ :=
    exists_switchLabels (rfl : st.openSwitch.switch = some _) rfl rfl hs.2 hp
      (hbody st.openSwitch { head := madeLabel st.nextLabel "head", tail := _ } rfl)
  rw [hlabs]
  simp only [stmt_switch_some, expr_eq_self value hs.1]
  rw [htail]
  refine .switch hholds ?_ hcases hdef
  rw [htail]
  exact hparts

/-- Two passes bring every structured statement into its lowered form. -/
lemma lowersTwice (s : Stmt) : LowersTwice s := by
  intro c c' st st' p inLoop isBreakable hs hp hr hst
  induction s using induction generalizing c c' st st' p inLoop isBreakable with
  | expr tok e =>
    rw [stmt_expr_none c st (declaredElements_eq_none c.types hs), expr_eq_self e hs,
      stmt_expr_none c' st' (declaredElements_eq_none c'.types hs), expr_eq_self e hs]
    exact .expr tok e
  | block _ _ _ ih =>
    exact .block (stmts_lowersTwice ih c c' st st' hs hp hr fun h => hst (Place.inner_ne h))
  | seq _ _ ih =>
    exact .seq (stmts_lowersTwice ih c c' st st' hs hp hr fun h => hst (Place.inner_ne h))
  | branch _ cond _ no ihYes ihNo =>
    cases no with
    | none =>
      rw [isStructured, and_eq_true] at hs
      simp only [stmt_branch_none, expr_eq_self cond hs.1]
      exact .branch (ihYes c c' _ _ hs.2 hp hr (absurd rfl))
    | some no =>
      rw [isStructured, and_eq_true, and_eq_true] at hs
      rw [isPlaced, and_eq_true] at hp
      simp only [stmt_branch_some, expr_eq_self cond hs.1.1]
      exact .branchElse (ihYes c c' _ _ hs.1.2 hp.1 hr (absurd rfl))
        (ihNo no rfl c c' _ _ hs.2 hp.2 hr (absurd rfl))
  | whileLoop _ _ _ ih => exact LowersTwice.whileLoop ih c c' st st' hs hp hr hst
  | doLoop _ _ _ ih => exact LowersTwice.doLoop ih c c' st st' hs hp hr hst
  | forLoop _ _ _ _ _ ihFirst ih => exact LowersTwice.forLoop ihFirst ih c c' st st' hs hp hr hst
  | breakLoop =>
    obtain ⟨label, hl⟩ := isSome_iff_exists.1 (hr.breakTo hp)
    cases h : c.breakTo with
    | some =>
      rw [stmt_breakLoop_some c st h]
      exact .breakLoop (by simp [targets, h])
    | none =>
      have h' : c'.breakTo = some label := by simpa [targets, h] using hl
      rw [stmt_breakLoop_none c st h, stmt_breakLoop_some c' st' h']
      exact .breakLoop hl
  | continueLoop =>
    obtain ⟨label, hl⟩ := isSome_iff_exists.1 (hr.continueTo hp)
    cases h : c.continueTo with
    | some =>
      rw [stmt_continueLoop_some c st h]
      exact .continueLoop (by simp [targets, h])
    | none =>
      have h' : c'.continueTo = some label := by simpa [targets, h] using hl
      rw [stmt_continueLoop_none c st h, stmt_continueLoop_some c' st' h']
      exact .continueLoop hl
  | ret tok value =>
    show Lowered _ _ (.ret tok (optionExpr (optionExpr value st).1 st').1)
    rw [optionExpr_eq_self hs, optionExpr_eq_self hs]
    exact .ret tok value
  | switch _ _ _ labels ih =>
    cases labels with
    | none => exact LowersTwice.switch ih c c' st st' hs hp hr hst
    | some => cases hs
  | caseLabel tok value =>
    obtain ⟨constant, hv⟩ := isSome_iff_exists.1 hp
    obtain ⟨pending, hpend⟩ := isSome_iff_exists.1 (hst (bne_iff_ne.1 hs))
    rw [stmt_caseLabel_some c st hpend hv]
    exact .caseLabel tok value _
  | defaultLabel tok =>
    obtain ⟨pending, hpend⟩ := isSome_iff_exists.1 (hst (bne_iff_ne.1 hs))
    rw [stmt_defaultLabel_some c st hpend]
    exact .defaultLabel tok _
  | assertion tok cond message =>
    show Lowered _ _ (stmt c' (.branch tok (negation (expr cond st).1) (abortCall tok) none) st').1
    rw [expr_eq_self cond hs]
    simp only [stmt_branch_none, expr_eq_self _ (negation_isSimple hs)]
    exact .assertion tok cond message
  | empty tok => exact .empty tok
  | _ => cases hs

end CompilerCore.ControlFlow

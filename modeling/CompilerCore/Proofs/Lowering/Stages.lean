import CompilerCore.Proofs.Lowering.Fixpoint

/-!
# How much is left to lower

A pass removes all forms that lowering is there for but one: it turns `do` and `for` loops into
`while` loops, which the next pass removes.  That holds of statements that stand where a pass knows
what to do with them: jumps out of loops in loops, and case labels with constants in switches.  The
jumps that a pass makes lead to labels that are there already or that it makes as well.
-/

namespace CompilerCore

open Option

/-- Lowering is done with an expression after a number of passes.  One pass removes all updates. -/
def Expr.DoneIn (passes : Nat) (e : Expr) : Prop :=
  passes = 0 → e.All fun n => n.isUpdate = false

/-- Where a statement stands. -/
structure Site where
  inLoop : Bool := false
  isBreakable : Bool := false
  /-- Whether it is in a switch that has no labels yet. -/
  inSwitch : Bool := false
  /-- The labels that jumps may lead to. -/
  labels : List String

namespace Site

/-- Where the body of a loop stands. -/
def loop (site : Site) : Site := { site with inLoop := true, isBreakable := true }

/-- Where the body of a switch stands. -/
def switch (site : Site) : Site := { site with isBreakable := true, inSwitch := true }

/-- The body of a switch, from where jumps may lead to its end. -/
def within (site : Site) (own : SwitchLabels) : Site :=
  { site with isBreakable := true, labels := own.tail :: site.labels }

/-- A site at which more may stand. -/
structure Le (site site' : Site) : Prop where
  inLoop : site.inLoop = true → site'.inLoop = true
  isBreakable : site.isBreakable = true → site'.isBreakable = true
  inSwitch : site.inSwitch = true → site'.inSwitch = true
  labels : ∀ l ∈ site.labels, l ∈ site'.labels

variable {site site' : Site}

lemma Le.loop (h : site.Le site') : site.loop.Le site'.loop :=
  ⟨id, id, h.inSwitch, h.labels⟩

lemma Le.switch (h : site.Le site') : site.switch.Le site'.switch :=
  ⟨h.inLoop, id, id, h.labels⟩

lemma Le.within (h : site.Le site') (own : SwitchLabels) :
    (site.within own).Le (site'.within own) :=
  ⟨h.inLoop, id, h.inSwitch, fun l hl => List.mem_cons.2 ((List.mem_cons.1 hl).imp_right (h.labels l))⟩

end Site

/-- The labels of the cases of a switch are among given ones. -/
def SwitchLabels.Within (labels : List String) (own : SwitchLabels) : Prop :=
  (∀ case ∈ own.cases, case.1 ∈ labels) ∧ ∀ name ∈ own.default, name ∈ labels

lemma SwitchLabels.Within.mono {own : SwitchLabels} (hsub : ∀ l ∈ labels, l ∈ labels')
    (h : own.Within labels) : own.Within labels' :=
  ⟨fun case hcase => hsub _ (h.1 case hcase), fun name hname => hsub _ (h.2 name hname)⟩

namespace Stmt

mutual

/-- Lowering is done with a statement at a site after a number of passes, and its jumps lead to
labels of the site. -/
def DoneIn (passes : Nat) (site : Site) : Stmt → Prop
  | expr _ e => e.DoneIn passes
  | block _ _ body => AllDoneIn passes site body
  | seq _ body => AllDoneIn passes site body
  | branch _ condition yes none => condition.DoneIn passes ∧ DoneIn passes site yes
  | branch _ condition yes (some no) =>
    condition.DoneIn passes ∧ DoneIn passes site yes ∧ DoneIn passes site no
  | whileLoop _ condition body =>
    1 ≤ passes ∧ condition.DoneIn passes ∧ DoneIn passes site.loop body
  | doLoop _ body _ => 2 ≤ passes ∧ DoneIn passes site.loop body
  | forLoop _ none _ _ body => 2 ≤ passes ∧ DoneIn passes site.loop body
  | forLoop _ (some first) _ _ body =>
    2 ≤ passes ∧ DoneIn passes site first ∧ DoneIn passes site.loop body
  | breakLoop _ => 1 ≤ passes ∧ site.isBreakable = true
  | continueLoop _ => 1 ≤ passes ∧ site.inLoop = true
  | ret _ value => ∀ e ∈ value, e.DoneIn passes
  | goto _ name => name ∈ site.labels
  | gotoAddress _ target => target.DoneIn passes
  | switch _ value body none =>
    1 ≤ passes ∧ value.DoneIn passes ∧ DoneIn passes site.switch body
  | switch _ value body (some own) =>
    own.Within site.labels ∧ value.DoneIn passes ∧ DoneIn passes (site.within own) body
  | caseLabel _ value => 1 ≤ passes ∧ site.inSwitch = true ∧ value.integer?.isSome = true
  | defaultLabel _ => 1 ≤ passes ∧ site.inSwitch = true
  | assertion .. => 1 ≤ passes
  | cleanup _ body => DoneIn passes site body
  | label .. | asm .. | empty _ => True
termination_by structural s => s

/-- `DoneIn` of each of some statements. -/
def AllDoneIn (passes : Nat) (site : Site) : List Stmt → Prop
  | [] => True
  | s :: rest => DoneIn passes site s ∧ AllDoneIn passes site rest
termination_by structural ss => ss

end

variable {passes : Nat} {site site' : Site}

lemma allDoneIn_iff : AllDoneIn passes site ss ↔ ∀ s ∈ ss, s.DoneIn passes site := by
  induction ss with
  | nil => simp [AllDoneIn]
  | cons _ _ ih => simp [AllDoneIn, ih]

lemma allDoneIn_append :
    AllDoneIn passes site (ss ++ ss') ↔ AllDoneIn passes site ss ∧ AllDoneIn passes site ss' := by
  simp [allDoneIn_iff, or_imp, forall_and]

/-- One more pass does no harm, nor does a site at which more may stand. -/
lemma DoneIn.mono (hle : passes ≤ passes') {s : Stmt} (hsite : site.Le site')
    (h : s.DoneIn passes site) : s.DoneIn passes' site' := by
  have hexpr {e : Expr} (he : e.DoneIn passes) : e.DoneIn passes' := fun hzero => he (by omega)
  induction s using Stmt.induction generalizing site site' with
  | expr => exact hexpr h
  | block tok scope body ih | seq tok body ih =>
    exact allDoneIn_iff.2 fun s hs => ih s hs hsite (allDoneIn_iff.1 h s hs)
  | branch _ _ _ no ihy ihn =>
    cases no with
    | none => exact ⟨hexpr h.1, ihy hsite h.2⟩
    | some no => exact ⟨hexpr h.1, ihy hsite h.2.1, ihn no rfl hsite h.2.2⟩
  | whileLoop _ _ _ ih =>
    exact ⟨h.1.trans hle, hexpr h.2.1, ih hsite.loop h.2.2⟩
  | doLoop _ _ _ ih => exact ⟨h.1.trans hle, ih hsite.loop h.2⟩
  | forLoop _ first _ _ _ ihf ih =>
    cases first with
    | none => exact ⟨h.1.trans hle, ih hsite.loop h.2⟩
    | some first => exact ⟨h.1.trans hle, ihf first rfl hsite h.2.1, ih hsite.loop h.2.2⟩
  | breakLoop => exact ⟨h.1.trans hle, hsite.isBreakable h.2⟩
  | continueLoop => exact ⟨h.1.trans hle, hsite.inLoop h.2⟩
  | ret => exact fun e he => hexpr (h e he)
  | goto _ name => exact hsite.labels name h
  | gotoAddress => exact hexpr h
  | switch _ _ _ own ih =>
    cases own with
    | none => exact ⟨h.1.trans hle, hexpr h.2.1, ih hsite.switch h.2.2⟩
    | some own => exact ⟨h.1.mono hsite.labels, hexpr h.2.1, ih (hsite.within own) h.2.2⟩
  | caseLabel => exact ⟨h.1.trans hle, hsite.inSwitch h.2.1, h.2.2⟩
  | defaultLabel => exact ⟨h.1.trans hle, hsite.inSwitch h.2⟩
  | assertion => exact Nat.le_trans h hle
  | cleanup _ _ ih => exact ih hsite h
  | label | asm | empty => trivial

end Stmt

/-! ## Labels that a pass makes -/

namespace ControlFlow

/-- The labels of the cases that a switch has so far. -/
def caseNames (switch : Option PendingSwitch) : List String :=
  switch.elim [] (·.made)

/-- A pass keeps all labels, and the cases of the switch around it get labels of their own. -/
structure Marks (before : Option PendingSwitch) (old : List String) (after : Option PendingSwitch)
    (new : List String) : Prop where
  labels : ∀ l ∈ old, l ∈ new
  cases : ∀ l ∈ caseNames after, l ∈ caseNames before ∨ l ∈ new

namespace Marks

variable {before after later : Option PendingSwitch} {old old' new new' : List String}

lemma refl (switch : Option PendingSwitch) (labels : List String) :
    Marks switch labels switch labels :=
  ⟨fun _ => id, fun _ => .inl⟩

lemma append (h : Marks before old after new) (h' : Marks after old' later new') :
    Marks before (old ++ old') later (new ++ new') where
  labels l hl := List.mem_append.2 ((List.mem_append.1 hl).imp (h.labels l) (h'.labels l))
  cases l hl := by
    rw [List.mem_append]
    obtain hl | hl := h'.cases l hl
    · exact (h.cases l hl).imp_right .inl
    · exact .inr (.inr hl)

/-- More labels may be made. -/
lemma more (h : Marks before old after new) (hsub : ∀ l ∈ new, l ∈ new') :
    Marks before old after new' :=
  ⟨fun l hl => hsub l (h.labels l hl), fun l hl => (h.cases l hl).imp_right (hsub l)⟩

lemma of_eq (hs : after = before) (h : Marks after old later new) : Marks before old later new :=
  hs ▸ h

end Marks

lemma Settles.marks (h : Settles st s r) (hs : s.declaredLabels = []) :
    Marks st.switch s.declaredLabels r.2.switch r.1.declaredLabels := by
  rw [hs]
  cases h with
  | stays =>
    rw [hs]
    exact .refl _ []
  | jump => exact .refl _ []
  | mark _ hsw _ hmade =>
    rw [hsw]
    exact ⟨nofun, fun l hl => (hmade l hl).imp_right List.mem_singleton.2⟩

lemma declaredLabels_exprs {ss : List Stmt} (h : ∀ s ∈ ss, ∃ tok e, s = .expr tok e) :
    ss.flatMap Stmt.declaredLabels = [] := by
  refine List.flatMap_eq_nil_iff.2 fun s hs => ?_
  obtain ⟨tok, e, rfl⟩ := h s hs
  rfl

lemma declaredLabels_loopStatements (tok : Token) (condition : Expr) (body : Stmt)
    (head tail : String) :
    (loopStatements tok condition body head tail).flatMap Stmt.declaredLabels =
      head :: (body.declaredLabels ++ [tail]) := by
  unfold loopStatements
  cases isAlwaysTrue condition <;> simp [exitUnless, Stmt.declaredLabels, Stmt.nodes]

lemma declaredLabels_doAsWhile (tok : Token) (body : Stmt) (condition : Expr) (next : String) :
    (doAsWhile tok body condition next).declaredLabels = body.declaredLabels ++ [next] := by
  simp [doAsWhile, exitUnless]
  rfl

lemma declaredLabels_forAsWhile (tok : Token) (first : Option Stmt)
    (condition step : Option Expr) (body : Stmt) (next : String) :
    (forAsWhile tok first condition step body next).flatMap Stmt.declaredLabels =
      first.elim [] Stmt.declaredLabels ++ (body.declaredLabels ++ [next]) := by
  have hstep : (step.toList.map (Stmt.expr tok)).flatMap Stmt.declaredLabels = [] := by
    refine declaredLabels_exprs fun s hs => ?_
    obtain ⟨e, -, rfl⟩ := List.mem_map.1 hs
    exact ⟨tok, e, rfl⟩
  cases first <;> simp [forAsWhile, hstep]

lemma stmts_marks
    (h : ∀ s ∈ ss, ∀ c st, Marks st.switch s.declaredLabels (stmt c s st).2.switch
      (stmt c s st).1.declaredLabels) (c : Context) (st : State) :
    Marks st.switch (ss.flatMap Stmt.declaredLabels) (stmts c ss st).2.switch
      ((stmts c ss st).1.flatMap Stmt.declaredLabels) := by
  induction ss generalizing st with
  | nil => exact .refl _ []
  | cons _ _ ih =>
    rw [List.forall_mem_cons] at h
    exact (h.1 c st).append (ih h.2 _)

lemma stmt_marks (s : Stmt) (c : Context) (st : State) :
    Marks st.switch s.declaredLabels (stmt c s st).2.switch (stmt c s st).1.declaredLabels := by
  induction s using Stmt.induction generalizing c st with
  | expr _ e =>
    cases h : declaredElements? c.types e with
    | none =>
      rw [stmt_expr_none c st h, switch_expr]
      exact .refl _ []
    | some declared =>
      obtain ⟨ss, k, hss, hrun⟩ := expandDeclaration_makesExprs c e.note declared.1 declared.2
      rw [stmt_expr_some c st h, hrun]
      rw [Stmt.declaredLabels_seq, declaredLabels_exprs hss]
      exact .refl _ []
  | block _ _ _ ih =>
    have hbody := stmts_marks ih c st
    rw [← Stmt.declaredLabels_block, ← Stmt.declaredLabels_block] at hbody
    exact hbody
  | seq _ _ ih =>
    rw [stmt_seq, Stmt.declaredLabels_seq, Stmt.declaredLabels_seq]
    exact stmts_marks ih c st
  | branch _ condition _ no ihYes ihNo =>
    cases no with
    | none => exact switch_expr condition st ▸ ihYes c _
    | some no =>
      rw [stmt_branch_some, Stmt.declaredLabels_branch_some, Stmt.declaredLabels_branch_some]
      exact .append (.of_eq (switch_expr condition st) (ihYes c _)) (ihNo no rfl c _)
  | whileLoop _ condition _ ih =>
    rw [stmt_whileLoop, Stmt.declaredLabels_seq, declaredLabels_loopStatements]
    refine (Marks.of_eq (switch_expr condition { st with nextLabel := st.nextLabel + 1 }) (ih _ _)).more
      fun l hl => ?_
    exact .tail _ (List.mem_append_left _ hl)
  | doLoop _ _ condition ih =>
    rw [stmt_doLoop, declaredLabels_doAsWhile]
    refine (Marks.of_eq (switch_expr condition { st with nextLabel := st.nextLabel + 1 }) (ih _ _)).more
      fun l hl => ?_
    exact List.mem_append_left _ hl
  | forLoop _ first condition step _ ihFirst ih =>
    cases first with
    | none =>
      rw [stmt_forLoop_none, Stmt.declaredLabels_seq, declaredLabels_forAsWhile]
      have htest := switch_optionExpr condition { st with nextLabel := st.nextLabel + 1 }
      refine (Marks.of_eq ((switch_optionExpr step _).trans htest) (ih _ _)).more fun l hl => ?_
      exact List.mem_append_right _ (List.mem_append_left _ hl)
    | some first =>
      rw [stmt_forLoop_some, Stmt.declaredLabels_seq, declaredLabels_forAsWhile,
        Stmt.declaredLabels_forLoop_some]
      have htest := switch_optionExpr condition (stmt c first { st with nextLabel := st.nextLabel + 1 }).2
      refine ((ihFirst first rfl c { st with nextLabel := st.nextLabel + 1 }).append
        (.of_eq ((switch_optionExpr step _).trans htest) (ih _ _))).more fun l hl => ?_
      rw [← List.append_assoc]
      exact List.mem_append_left _ hl
  | breakLoop | continueLoop | caseLabel | defaultLabel =>
    exact Settles.marks (stmt_settles c st trivial) rfl
  | ret _ value => exact switch_optionExpr value st ▸ .refl _ []
  | gotoAddress _ target => exact switch_expr target st ▸ .refl _ []
  | switch _ value _ own ih =>
    cases own with
    | some own => exact .of_eq (switch_expr value st) (ih (c.switchBody own.tail) _)
    | none =>
      refine ⟨(ih _ _).labels, fun l hl => .inl ?_⟩
      rw [← switch_expr value st]
      exact hl
  | assertion _ condition => exact switch_expr condition st ▸ .refl _ []
  | cleanup _ _ ih => exact ih c st
  | goto | label | asm | empty => exact .refl _ _

/-! ## What a pass leaves to do -/

lemma finish_noUpdates (h : ∀ part ∈ e.parts, NoUpdates part) (st : State) :
    NoUpdates (finish e st).1 := by
  cases e with
  | update =>
    exact Expr.all_assign.2 ⟨rfl, h _ (.head _), Expr.all_iff.2 ⟨rfl, h⟩⟩
  | _ => exact Expr.all_iff.2 ⟨rfl, h⟩

lemma expr_noUpdates (e : Expr) : ∀ st, NoUpdates (expr e st).1 :=
  expr_walks.yields (fun _ _ => id) (fun _ _ => finish_noUpdates) fun _ _ => trivial

lemma expandDeclaration_noUpdates (c : Context) (note : Note) (x : SymbolId)
    (elems : List Expr) (st : State) :
    ∀ n ∈ (expandDeclaration c note x elems st).1, ∃ tok e, n = .expr tok e ∧ NoUpdates e := by
  refine List.forall_mem_cons.2 ⟨⟨_, _, rfl, Expr.all_declare.2 ⟨rfl, nofun⟩⟩, ?_⟩
  refine forall_mem_expandElement (R := fun slot _ => NoUpdates slot) (e := .collection note elems)
    (fun array _ es harray e _ position => ?_) (fun slot e st hslot _ => ?_) (Expr.all_name.2 rfl) st
  · exact Expr.all_index.2 ⟨rfl, harray, Expr.all_literal.2 rfl⟩
  · exact ⟨_, _, rfl, Expr.all_assign.2 ⟨rfl, hslot, expr_noUpdates e st⟩⟩

/-- A context that knows where the jumps at a site go, unless more passes follow; the labels that it
knows and those of the site are among given ones. -/
structure Context.Serves (c : Context) (passes : Nat) (site : Site) (labels : List String) : Prop where
  breaks : passes = 0 → site.isBreakable = true → c.breakTo.isSome = true
  continues : site.inLoop = true → c.continueTo.isSome = true
  breakTo : ∀ l ∈ c.breakTo, l ∈ labels
  continueTo : ∀ l ∈ c.continueTo, l ∈ labels
  labels : ∀ l ∈ site.labels, l ∈ labels

/-- The site that remains after a pass: only `break` may still wait for the next one. -/
def Context.after (c : Context) (site : Site) (labels : List String) : Site :=
  { isBreakable := site.isBreakable && c.breakTo.isNone, labels }

section Pass

variable {n : Nat} {site : Site} {labels : List String} {c : Context} {st : State}

/-- A pass over a statement leaves one pass less to do, and its jumps lead to given labels if those
include the labels that it makes. -/
def OneLess (n : Nat) (s : Stmt) : Prop :=
  ∀ ⦃c site st labels⦄, s.DoneIn (n + 1) site → Context.Serves c n site labels →
    (site.inSwitch = true → st.switch.isSome = true) →
    (∀ l ∈ (stmt c s st).1.declaredLabels, l ∈ labels) →
      (stmt c s st).1.DoneIn n (c.after site labels)

lemma stmts_doneIn (ih : ∀ s ∈ ss, OneLess n s) (h : Stmt.AllDoneIn (n + 1) site ss)
    (hc : c.Serves n site labels) (hst : site.inSwitch = true → st.switch.isSome = true)
    (hnew : ∀ l ∈ (stmts c ss st).1.flatMap Stmt.declaredLabels, l ∈ labels) :
    Stmt.AllDoneIn n (c.after site labels) (stmts c ss st).1 := by
  induction ss generalizing st with
  | nil => trivial
  | cons s _ ihss =>
    rw [List.forall_mem_cons] at ih
    obtain ⟨hfirst, hrest⟩ := List.forall_mem_append.1 hnew
    refine ⟨ih.1 h.1 hc hst hfirst, ihss ih.2 h.2 (fun hs => ?_) hrest⟩
    rw [(stmt_advances s c st).isSome_eq]
    exact hst hs

lemma expr_doneIn (e : Expr) (st : State) : (expr e st).1.DoneIn n := fun _ => expr_noUpdates e st

lemma optionExpr_doneIn (e : Option Expr) (st : State) : ∀ e' ∈ (optionExpr e st).1, e'.DoneIn n :=
  fun e' he' _ => forall_mem_optionExpr (fun e _ => expr_noUpdates e) st e' he'

variable {condition : Expr} {tail next : String} {tok : Token}

lemma negation_doneIn (h : condition.DoneIn n) : (negation condition).DoneIn n :=
  fun hzero => Expr.all_unary.2 ⟨rfl, h hzero⟩

lemma always_doneIn : (always tok).DoneIn n := fun _ => Expr.all_literal.2 rfl

lemma loopStatements_doneIn (hcond : condition.DoneIn n) (hbody : body.DoneIn n site)
    (hhead : head ∈ site.labels) (htail : tail ∈ site.labels) :
    Stmt.AllDoneIn n site (loopStatements tok condition body head tail) := by
  refine Stmt.allDoneIn_append.2 ⟨Stmt.allDoneIn_append.2 ⟨⟨trivial, trivial⟩, ?_⟩,
    ⟨hbody, hhead, trivial, trivial⟩⟩
  split
  · trivial
  · exact ⟨⟨negation_doneIn hcond, htail⟩, trivial⟩

lemma doAsWhile_doneIn (hn : 1 ≤ n) (hcond : condition.DoneIn n) (hbody : body.DoneIn n site.loop) :
    (doAsWhile tok body condition next).DoneIn n site :=
  ⟨hn, always_doneIn, hbody, trivial, ⟨negation_doneIn hcond, hn, rfl⟩, trivial⟩

lemma forAsWhile_doneIn {condition : Option Expr} (hn : 1 ≤ n)
    (hfirst : ∀ s ∈ first, s.DoneIn n site) (hcond : ∀ e ∈ condition, e.DoneIn n)
    (hstep : ∀ e ∈ step, e.DoneIn n) (hbody : body.DoneIn n site.loop) :
    Stmt.AllDoneIn n site (forAsWhile tok first condition step body next) := by
  have hloop : (condition.getD (always tok)).DoneIn n := by
    cases condition with
    | none => exact always_doneIn
    | some e => exact hcond e rfl
  refine Stmt.allDoneIn_append.2 ⟨?_, ⟨hn, hloop, Stmt.allDoneIn_append.2 ⟨⟨hbody, trivial, trivial⟩, ?_⟩⟩,
    trivial⟩
  · exact Stmt.allDoneIn_iff.2 fun s hs => hfirst s (Option.mem_toList.1 hs)
  · refine Stmt.allDoneIn_iff.2 fun s hs => ?_
    obtain ⟨e, he, rfl⟩ := List.mem_map.1 hs
    exact hstep e (Option.mem_toList.1 he)

lemma Context.Serves.whileBody (hc : c.Serves n site labels) (hhead : head ∈ labels)
    (htail : tail ∈ labels) :
    Context.Serves { c with breakTo := some tail, continueTo := some head } n site.loop labels where
  breaks _ _ := rfl
  continues _ := rfl
  breakTo _ hl := Option.some.inj hl ▸ htail
  continueTo _ hl := Option.some.inj hl ▸ hhead
  labels := hc.labels

lemma Context.Serves.loopBody (hc : c.Serves n site labels) (hn : 1 ≤ n) (hnext : next ∈ labels) :
    (c.loopBody next).Serves n site.loop labels where
  breaks hzero := absurd hzero (Nat.ne_of_gt hn)
  continues _ := rfl
  breakTo := nofun
  continueTo _ hl := some.inj hl ▸ hnext
  labels := hc.labels

lemma Context.Serves.switchBody (hc : c.Serves n site labels) (site' : Site) (tail : String)
    (hloop : site'.inLoop = site.inLoop) (hlabs : ∀ l ∈ site'.labels, l = tail ∨ l ∈ site.labels) :
    (c.switchBody tail).Serves n site' (tail :: labels) where
  breaks _ _ := rfl
  continues := hloop ▸ hc.continues
  breakTo _ hl := some.inj hl ▸ (.head _)
  continueTo l hl := .tail _ (hc.continueTo l hl)
  labels l hl := List.mem_cons.2 ((hlabs l hl).imp_right (hc.labels l))

/-- What is left where `break` has a target may stand anywhere. -/
lemma Context.after_le (hto : c.breakTo = some tail) {site' : Site}
    (hlabs : ∀ l ∈ labels, l ∈ site'.labels) : (c.after site labels).Le site' where
  inLoop := nofun
  isBreakable h := by
    rw [Context.after, hto, isNone_some, Bool.and_false] at h
    cases h
  inSwitch := nofun
  labels := hlabs

lemma Context.after_loopBody_le :
    ((c.loopBody next).after site.loop labels).Le (c.after site' labels).loop :=
  ⟨nofun, fun _ => rfl, nofun, fun _ => id⟩

lemma within_of_marks {new : List String} (h : ∀ l ∈ caseNames (some pending), l ∈ new)
    (hnew : ∀ l ∈ new, l ∈ labels) : pending.labels.Within labels := by
  obtain ⟨hcases, hdef⟩ := List.forall_mem_append.1 h
  exact ⟨fun case hcase => hnew _ (hcases _ (List.mem_map_of_mem hcase)),
    fun name hname => hnew _ (hdef _ (mem_toList.2 hname))⟩

lemma exists_collected (h : st.switch = some pending) :
    ∃ pending', (stmt c s st).2.switch = some pending' ∧
      pending'.labels.tail = pending.labels.tail := by
  have hframe := (stmt_advances s c st).frame_eq
  rw [h, map_some, map_eq_some_iff] at hframe
  obtain ⟨pending', hsw, heq⟩ := hframe
  exact ⟨pending', hsw, congrArg (·.2.2) heq⟩

namespace OneLess

lemma expr : OneLess n (.expr tok e) := by
  intro c site st labels _ _ _ _
  cases hdecl : declaredElements? c.types e with
  | none =>
    rw [stmt_expr_none c st hdecl]
    exact expr_doneIn e st
  | some =>
    rw [stmt_expr_some c st hdecl]
    refine Stmt.allDoneIn_iff.2 fun n hn => ?_
    obtain ⟨tok, e, rfl, he⟩ := expandDeclaration_noUpdates c _ _ _ st n hn
    exact fun _ => he

lemma branch (ihYes : OneLess n yes) (ihNo : ∀ s ∈ no, OneLess n s) :
    OneLess n (.branch tok condition yes no) := by
  intro c site st labels h hc hst hnew
  rw [← switch_expr condition st] at hst
  cases no with
  | none => exact ⟨expr_doneIn condition st, ihYes h.2 hc hst hnew⟩
  | some no =>
    rw [stmt_branch_some, Stmt.declaredLabels_branch_some] at hnew
    obtain ⟨hyes, hno⟩ := List.forall_mem_append.1 hnew
    refine ⟨expr_doneIn condition st, ihYes h.2.1 hc hst hyes,
      ihNo no rfl h.2.2 hc (fun hs => ?_) hno⟩
    rw [(stmt_advances yes c _).isSome_eq]
    exact hst hs

lemma whileLoop (ih : OneLess n body) : OneLess n (.whileLoop tok condition body) := by
  intro c site st labels h hc hst hnew
  rw [stmt_whileLoop] at hnew ⊢
  rw [Stmt.declaredLabels_seq, declaredLabels_loopStatements] at hnew
  obtain ⟨hhead, hinner⟩ := List.forall_mem_cons.1 hnew
  obtain ⟨hbody, htail⟩ := List.forall_mem_append.1 hinner
  have htail := List.forall_mem_singleton.1 htail
  have hdone := ih h.2.2 (hc.whileBody hhead htail) (by rwa [switch_expr]) hbody
  exact loopStatements_doneIn (expr_doneIn _ _) (hdone.mono le_rfl (Context.after_le rfl fun _ => id))
    hhead htail

lemma doLoop (ih : OneLess n body) : OneLess n (.doLoop tok body condition) := by
  intro c site st labels h hc hst hnew
  have hn : 1 ≤ n := Nat.le_of_succ_le_succ h.1
  rw [stmt_doLoop] at hnew ⊢
  rw [declaredLabels_doAsWhile] at hnew
  obtain ⟨hbody, hnext⟩ := List.forall_mem_append.1 hnew
  have hnext := List.forall_mem_singleton.1 hnext
  have hdone := ih h.2 (hc.loopBody hn hnext) (by rwa [switch_expr]) hbody
  exact doAsWhile_doneIn hn (expr_doneIn _ _) (hdone.mono le_rfl Context.after_loopBody_le)

lemma forLoop {condition : Option Expr} (ihFirst : ∀ s ∈ first, OneLess n s) (ih : OneLess n body) :
    OneLess n (.forLoop tok first condition step body) := by
  intro c site st labels h hc hst hnew
  cases first with
  | none =>
    have hn : 1 ≤ n := Nat.le_of_succ_le_succ h.1
    rw [stmt_forLoop_none] at hnew ⊢
    rw [Stmt.declaredLabels_seq, declaredLabels_forAsWhile] at hnew
    obtain ⟨hbody, hnext⟩ := List.forall_mem_append.1 (List.forall_mem_append.1 hnew).2
    have hnext := List.forall_mem_singleton.1 hnext
    have hdone := ih h.2 (hc.loopBody hn hnext) (by rwa [switch_optionExpr, switch_optionExpr]) hbody
    exact forAsWhile_doneIn hn nofun (optionExpr_doneIn _ _) (optionExpr_doneIn _ _)
      (hdone.mono le_rfl Context.after_loopBody_le)
  | some first =>
    have hn : 1 ≤ n := Nat.le_of_succ_le_succ h.1
    rw [stmt_forLoop_some] at hnew ⊢
    rw [Stmt.declaredLabels_seq, declaredLabels_forAsWhile] at hnew
    obtain ⟨hstart, hrest⟩ := List.forall_mem_append.1 hnew
    obtain ⟨hbody, hnext⟩ := List.forall_mem_append.1 hrest
    have hnext := List.forall_mem_singleton.1 hnext
    have hfirst : (stmt c first { st with nextLabel := st.nextLabel + 1 }).1.DoneIn n
        (c.after site labels) := ihFirst first rfl h.2.1 hc hst hstart
    have hdone := ih h.2.2 (hc.loopBody hn hnext)
      (by rwa [switch_optionExpr, switch_optionExpr, (stmt_advances first c _).isSome_eq]) hbody
    refine forAsWhile_doneIn hn (fun s hs => ?_) (optionExpr_doneIn _ _) (optionExpr_doneIn _ _)
      (hdone.mono le_rfl Context.after_loopBody_le)
    obtain rfl := Option.some.inj hs
    exact hfirst

lemma breakLoop : OneLess n (.breakLoop tok) := by
  intro c site st labels h hc _ _
  cases hto : c.breakTo with
  | none =>
    rw [stmt_breakLoop_none c st hto]
    refine ⟨Nat.pos_of_ne_zero fun hzero => ?_, ?_⟩
    · have hsome := hc.breaks hzero h.2
      rw [hto] at hsome
      cases hsome
    · rw [Context.after, h.2, hto]
      rfl
  | some label =>
    rw [stmt_breakLoop_some c st hto]
    exact hc.breakTo label hto

lemma switch (ih : OneLess n body) : OneLess n (.switch tok value body own) := by
  intro c site st labels h hc hst hnew
  cases own with
  | some own =>
    have hin := hc.switchBody (site.within own) own.tail rfl fun _ => List.mem_cons.1
    have hdone := ih h.2.2 hin (by rwa [switch_expr]) fun l hl => .tail _ (hnew l hl)
    exact ⟨h.1.mono hc.labels, expr_doneIn value st,
      hdone.mono le_rfl (Context.after_le rfl fun _ => id)⟩
  | none =>
    rw [stmt_switch_none] at hnew ⊢
    dsimp only at hnew ⊢
    set inside := c.switchBody (madeLabel (ControlFlow.expr value st).2.nextLabel "tail")
    obtain ⟨pending, hcollected, htail⟩ :=
      exists_collected (rfl : (ControlFlow.expr value st).2.openSwitch.switch = some _)
    have hmarks := (stmt_marks body inside (ControlFlow.expr value st).2.openSwitch).cases
    rw [hcollected] at hnew hmarks ⊢
    have hin := hc.switchBody site.switch (madeLabel (ControlFlow.expr value st).2.nextLabel "tail") rfl
      fun _ => .inr
    have hdone := ih h.2.2 hin (fun _ => rfl) fun l hl => .tail _ (hnew l hl)
    refine ⟨?_, expr_doneIn value st, hdone.mono le_rfl (Context.after_le rfl fun l hl => ?_)⟩
    · exact within_of_marks (fun l hl => (hmarks l hl).resolve_left List.not_mem_nil) hnew
    · show l ∈ pending.labels.tail :: labels
      rw [htail]
      exact hl

end OneLess

lemma stmt_doneIn (s : Stmt) : OneLess n s := by
  induction s using Stmt.induction with
  | expr => exact .expr
  | branch _ _ _ _ ihYes ihNo => exact .branch ihYes ihNo
  | whileLoop _ _ _ ih => exact .whileLoop ih
  | doLoop _ _ _ ih => exact .doLoop ih
  | forLoop _ _ _ _ _ ihFirst ih => exact .forLoop ihFirst ih
  | breakLoop => exact .breakLoop
  | switch _ _ _ _ ih => exact .switch ih
  | cleanup _ _ ih => exact ih
  | block tok scope body ih =>
    intro c site st labels h hc hst hnew
    replace hnew : ∀ l ∈ (Stmt.block tok scope (stmts c body st).1).declaredLabels, l ∈ labels := hnew
    rw [Stmt.declaredLabels_block] at hnew
    exact stmts_doneIn ih h hc hst hnew
  | seq _ _ ih =>
    intro c site st labels h hc hst hnew
    rw [stmt_seq, Stmt.declaredLabels_seq] at hnew
    exact stmts_doneIn ih h hc hst hnew
  | continueLoop =>
    intro c site st labels h hc _ _
    obtain ⟨label, hto⟩ := Option.isSome_iff_exists.1 (hc.continues h.2)
    rw [stmt_continueLoop_some c st hto]
    exact hc.continueTo label hto
  | caseLabel =>
    intro c site st labels h _ hst _
    obtain ⟨pending, hs⟩ := Option.isSome_iff_exists.1 (hst h.2.1)
    obtain ⟨constant, hv⟩ := Option.isSome_iff_exists.1 h.2.2
    rw [stmt_caseLabel_some c st hs hv]
    trivial
  | defaultLabel =>
    intro c site st labels h _ hst _
    obtain ⟨pending, hs⟩ := Option.isSome_iff_exists.1 (hst h.2)
    rw [stmt_defaultLabel_some c st hs]
    trivial
  | goto _ name => exact fun _ _ _ _ h hc _ _ => hc.labels name h
  | ret _ value => exact fun _ _ st _ _ _ _ _ => optionExpr_doneIn value st
  | gotoAddress _ target => exact fun _ _ st _ _ _ _ _ => expr_doneIn target st
  | assertion _ condition =>
    exact fun _ _ st _ _ _ _ _ => ⟨fun _ => Expr.all_unary.2 ⟨rfl, expr_noUpdates condition st⟩,
      fun _ => Expr.all_call.2 ⟨rfl, nofun⟩⟩
  | label | asm | empty => exact fun _ _ _ _ _ _ _ _ => trivial

end Pass

/-! ## Repeated passes -/

/-- A body that lowering is done with after a number of passes, and whose jumps lead to its own
labels. -/
def ClosesIn (passes : Nat) (body : Stmt) : Prop := body.DoneIn passes { labels := body.declaredLabels }

variable {types : TypeTable} {scopes : ScopeTree} {body : Stmt × Nat}

lemma pass_closesIn (h : ClosesIn (n + 1) body.1) : ClosesIn n (pass types scopes body).2.1 := by
  have hserves : Context.Serves { types, scopes } n { labels := body.1.declaredLabels }
      (pass types scopes body).2.1.declaredLabels :=
    ⟨nofun, nofun, nofun, nofun, (stmt_marks body.1 _ _).labels⟩
  exact stmt_doneIn body.1 h hserves nofun fun _ => id

/-- A body that a pass does not change has nothing left to do. -/
lemma closesIn_zero_of_quiet (hquiet : (pass types scopes body).2 = body) (h : ClosesIn n body.1) :
    ClosesIn 0 body.1 := by
  induction n with
  | zero => exact h
  | succ n ih =>
    have hpass : ClosesIn n (pass types scopes body).2.1 := pass_closesIn h
    rw [hquiet] at hpass
    exact ih hpass

/-- As many passes as a body needs are enough, and more do no harm. -/
lemma repeatPass_closesIn {limit : Nat} (hlimit : n ≤ limit) (h : ClosesIn n body.1) :
    ClosesIn 0 (repeatPass (pass types scopes) limit body).2.1 := by
  induction limit generalizing n body with
  | zero =>
    obtain rfl := Nat.le_zero.1 hlimit
    exact h
  | succ _ ih =>
    have hnext : ClosesIn (n - 1) (pass types scopes body).2.1 := by
      cases n with
      | zero => exact pass_closesIn (h.mono (Nat.zero_le 1) ⟨id, id, id, fun _ => id⟩)
      | succ => exact pass_closesIn h
    rw [repeatPass_succ]
    split
    · next hzero =>
      have hquiet := pass_quiet types scopes body hzero
      rw [hquiet]
      exact closesIn_zero_of_quiet hquiet h
    · exact ih (Nat.sub_le_of_le_add hlimit) hnext

end ControlFlow

end CompilerCore

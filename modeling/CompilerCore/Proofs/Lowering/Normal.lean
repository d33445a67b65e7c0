import CompilerCore.Proofs.Code.Completion

/-!
# Two passes are enough

Two passes over the control flow of an accepted statement leave none of the forms that lowering is there
for.  A statement without those forms is left alone by any further pass, and there is code for it.
-/

namespace CompilerCore

open Build Demo List

namespace Stmt

/-- No array is declared with its elements by the statement itself. -/
def SpellsOut (t : TypeTable) : Stmt → Prop
  | expr _ (.declare note _ (some (.collection ..))) => note.type.any t.isArray = false
  | _ => True

/-- Nothing in a statement is left to lower. -/
structure IsLowered (t : TypeTable) (s : Stmt) : Prop where
  plain : s.All IsPlain
  spellsOut : s.All (SpellsOut t)
  noUpdates : ∀ e ∈ s.exprNodes, e.isUpdate = false

variable {t : TypeTable} {site : Site} {s : Stmt} {tok : Token} {e : Expr}

lemma spellsOut_expr_iff : (expr tok e).SpellsOut t ↔ ControlFlow.declaredElements? t e = none := by
  cases e with
  | declare note symbol init =>
    cases init with
    | none => exact iff_of_true trivial rfl
    | some value =>
      cases value with
      | collection _ elems =>
        show note.type.any t.isArray = false ↔
          (if note.type.any t.isArray = true then some (symbol, elems) else none) = none
        cases note.type.any t.isArray <;> simp
      | _ => exact iff_of_true trivial rfl
  | _ => exact iff_of_true trivial rfl

lemma DoneIn.plain (h : s.DoneIn 0 site) : s.All IsPlain :=
  (h.remains (fun _ _ => trivial) fun _ _ => trivial).mono fun _ => Remains.plain

end Stmt

namespace ControlFlow

variable {t : TypeTable} {c : Context} {st : State} {s : Stmt} {site : Site}

/-! ## Declarations of arrays -/

lemma declaredElements_expr (h : declaredElements? t e = none) (st : State) :
    declaredElements? t (expr e st).1 = none := by
  cases e with
  | declare note _ init =>
    cases init with
    | none => rfl
    | some value =>
      cases value with
      | collection =>
        by_cases harray : note.type.any t.isArray = true
        · simp [declaredElements?, harray] at h
        · exact if_neg harray
      | declare _ _ value => cases value <;> rfl
      | _ => rfl
  | _ => rfl

lemma expandDeclaration_spellsOut (c : Context) (note : Note) (x : SymbolId)
    (elems : List Expr) (st : State) :
    ∀ n ∈ (expandDeclaration c note x elems st).1, n.All (Stmt.SpellsOut t) := by
  refine forall_mem_cons.2 ⟨Stmt.all_expr.2 trivial, ?_⟩
  exact forall_mem_expandElement (R := fun _ _ => True) (e := .collection note elems)
    (fun _ _ _ _ _ _ _ => trivial) (fun _ _ _ _ _ => Stmt.all_expr.2 trivial) trivial st

lemma Settles.spellsOut (h : Settles st s r) (hs : s.All (Stmt.SpellsOut t)) :
    r.1.All (Stmt.SpellsOut t) := by
  cases h with
  | stays => exact hs
  | jump => exact Stmt.all_goto.2 trivial
  | mark => exact Stmt.all_label.2 trivial

/-- The last pass leaves no array declared with its elements.  An earlier one may: it makes a statement
of the step of a `for` loop. -/
lemma stmt_spellsOut (s : Stmt) (h : s.DoneIn 1 site) (c : Context) (st : State) :
    (stmt c s st).1.All (Stmt.SpellsOut c.types) := by
  induction s using Stmt.induction generalizing site c st with
  | expr _ e =>
    cases hdecl : declaredElements? c.types e with
    | none =>
      rw [stmt_expr_none c st hdecl]
      exact Stmt.all_expr.2 (Stmt.spellsOut_expr_iff.2 (declaredElements_expr hdecl st))
    | some =>
      rw [stmt_expr_some c st hdecl]
      exact Stmt.all_seq.2 ⟨trivial, expandDeclaration_spellsOut c _ _ _ st⟩
  | block _ _ _ ih =>
    have hbody := Stmt.allDoneIn_iff.1 h
    exact Stmt.all_block.2 ⟨trivial, forall_mem_stmts (fun s hs => ih s hs (hbody s hs) c) st⟩
  | seq _ _ ih =>
    have hbody := Stmt.allDoneIn_iff.1 h
    exact Stmt.all_seq.2 ⟨trivial, forall_mem_stmts (fun s hs => ih s hs (hbody s hs) c) st⟩
  | branch _ _ _ no ihy ihn =>
    cases no with
    | none => exact Stmt.all_branch.2 ⟨trivial, ihy h.2 c _, nofun⟩
    | some no =>
      refine Stmt.all_branch.2 ⟨trivial, ihy h.2.1 c _, fun s hs => ?_⟩
      obtain rfl := Option.some.inj hs
      exact ihn no rfl h.2.2 c _
  | whileLoop _ _ _ ih =>
    refine Stmt.all_seq.2 ⟨trivial, ?_⟩
    refine forall_mem_append.2 ⟨forall_mem_append.2 ⟨?_, ?_⟩, ?_⟩
    · exact forall_mem_singleton.2 (Stmt.all_label.2 trivial)
    · split
      · exact nofun
      · exact forall_mem_singleton.2
          (Stmt.all_branch.2 ⟨trivial, Stmt.all_goto.2 trivial, nofun⟩)
    · simp only [forall_mem_cons, Stmt.all_goto, Stmt.all_label]
      exact ⟨ih h.2.2 _ _, trivial, trivial, nofun⟩
  | doLoop => exact absurd h.1 (by decide)
  | forLoop _ first =>
    cases first <;> exact absurd h.1 (by decide)
  | breakLoop | continueLoop | caseLabel | defaultLabel =>
    exact Settles.spellsOut (stmt_settles c st trivial) (Stmt.all_of_leaf rfl |>.2 trivial)
  | switch _ _ _ own ih =>
    cases own with
    | some => exact Stmt.all_switch.2 ⟨trivial, ih h.2.2 _ _⟩
    | none =>
      exact Stmt.all_switch.2 ⟨trivial, ih h.2.2 _ _⟩
  | assertion =>
    exact Stmt.all_branch.2 ⟨trivial, Stmt.all_expr.2 trivial, nofun⟩
  | cleanup _ _ ih => exact Stmt.all_cleanup.2 ⟨trivial, ih h c st⟩
  | _ => exact Stmt.all_of_leaf rfl |>.2 trivial

/-! ## What a pass leaves alone -/

/-- What a pass leaves alone in a statement. -/
def IsInert (t : TypeTable) (s : Stmt) : Prop :=
  s.IsPlain ∧ s.SpellsOut t ∧ s.Holds (fun e => e.isUpdate = false) fun _ => True

lemma stmts_eq_self (h : ∀ s ∈ ss, ∀ st, stmt c s st = (s, st)) (st : State) :
    stmts c ss st = (ss, st) := by
  induction ss generalizing st with
  | nil => rfl
  | cons _ _ ih =>
    rw [forall_mem_cons] at h
    rw [stmts_cons, h.1 st, ih h.2 st]

lemma stmt_eq_self (s : Stmt) (h : s.All (IsInert c.types)) (st : State) :
    stmt c s st = (s, st) := by
  induction s using Stmt.induction generalizing c st with
  | expr _ e =>
    obtain ⟨-, hspells, hnone⟩ := h.self
    rw [stmt_expr_none c st (Stmt.spellsOut_expr_iff.1 hspells), (expr_faithful e).eq_self hnone]
  | block tok scope body ih =>
    have hbody := stmts_eq_self (fun s hs => ih s hs ((Stmt.all_block.1 h).2 s hs)) st
    show (Stmt.block tok scope (stmts c body st).1, (stmts c body st).2) = _
    rw [hbody]
  | seq _ _ ih =>
    rw [stmt_seq, stmts_eq_self (fun s hs => ih s hs ((Stmt.all_seq.1 h).2 s hs)) st]
  | branch _ cond _ no ihy ihn =>
    obtain ⟨⟨-, -, hc⟩, hy, hn⟩ := Stmt.all_branch.1 h
    cases no with
    | none => simp only [stmt_branch_none, (expr_faithful cond).eq_self hc, ihy hy]
    | some no =>
      simp only [stmt_branch_some, (expr_faithful cond).eq_self hc, ihy hy, ihn no rfl (hn no rfl)]
  | ret tok value =>
    have hvalue := (optionExpr_faithful _).eq_self (fun e he => (h.self.2.2 e he).1) st
    show (Stmt.ret tok (optionExpr value st).1, (optionExpr value st).2) = _
    rw [hvalue]
  | gotoAddress tok target =>
    show (Stmt.gotoAddress tok (expr target st).1, (expr target st).2) = _
    rw [(expr_faithful target).eq_self h.self.2.2]
  | switch _ value body own ih =>
    obtain ⟨⟨hplain, -, hv⟩, hb⟩ := Stmt.all_switch.1 h
    cases own with
    | none => cases hplain
    | some own =>
      have hbody : stmt (c.switchBody own.tail) body st = (body, st) :=
        ih (c := c.switchBody own.tail) hb st
      simp only [stmt_switch_some, (expr_faithful value).eq_self hv, hbody]
  | cleanup tok body ih =>
    show (Stmt.cleanup tok (stmt c body st).1, (stmt c body st).2) = _
    rw [ih (Stmt.all_cleanup.1 h).2 st]
  | goto | label | asm | empty => rfl
  | _ => exact h.self.1.elim

variable {scopes : ScopeTree} {body : Stmt × Nat}

lemma pass_of_isLowered (h : body.1.IsLowered t) : pass t scopes body = (0, body) := by
  have hinert : body.1.All (IsInert t) := fun n hn =>
    ⟨h.plain n hn, h.spellsOut n hn, Stmt.all_holds_iff.2 h.noUpdates n hn⟩
  have hrun : stmt { types := t, scopes } body.1 { nextLabel := body.2 } =
      (body.1, { nextLabel := body.2 }) := stmt_eq_self body.1 hinert _
  show ((stmt { types := t, scopes } body.1 { nextLabel := body.2 }).2.changes,
    (stmt { types := t, scopes } body.1 { nextLabel := body.2 }).1,
    (stmt { types := t, scopes } body.1 { nextLabel := body.2 }).2.nextLabel) = _
  rw [hrun]

lemma pass_doneIn (h : body.1.DoneIn (n + 1) { labels }) :
    ∃ labels', (pass t scopes body).2.1.DoneIn n { labels := labels' } := by
  refine ⟨labels ++ (pass t scopes body).2.1.declaredLabels, ?_⟩
  refine stmt_doneIn body.1 h ⟨nofun, nofun, nofun, nofun, ?_⟩ nofun ?_
  · exact fun l hl => mem_append_left _ hl
  · exact fun l hl => mem_append_right _ hl

/-- Two passes over a body leave nothing to lower, and a third one has nothing to do. -/
def LowersInTwo (t : TypeTable) (scopes : ScopeTree) (body : Stmt × Nat) : Prop :=
  ∃ twice, (pass t scopes (pass t scopes body).2).2 = twice ∧ twice.1.IsLowered t ∧
    pass t scopes twice = (0, twice)

lemma lowersInTwo_of_doneIn (h : body.1.DoneIn 2 { labels }) : LowersInTwo t scopes body := by
  obtain ⟨labels1, h1⟩ := pass_doneIn h
  obtain ⟨labels2, h2⟩ := pass_doneIn h1
  have hlowered : (pass t scopes (pass t scopes body).2).2.1.IsLowered t :=
    ⟨h2.plain, stmt_spellsOut _ h1 _ _, h2.noUpdates.exprNodes⟩
  exact ⟨_, rfl, hlowered, pass_of_isLowered hlowered⟩

end ControlFlow

open Code ControlFlow

/-- Whether analysis of some statement outside of loops and switches ends with this one and without
errors.  The switches in it have no labels yet. -/
def Analysis.Admits (body : Stmt) : Prop :=
  ∃ (scope : ScopeId) (returnType : TypeId) (labels : List String) (given : Stmt) (s : State),
    given.All Stmt.IsUnlabelled ∧ s.switch = none ∧
      (stmt { scope, returnType, labels } given s).1 = (body, 0)

lemma Analysis.Admits.doneIn (h : Admits body) : ∃ labels, body.DoneIn 2 { labels } := by
  obtain ⟨scope, returnType, labels, given, s, hgiven, hsw, hrun⟩ := h
  have houtlined := stmt_outlined given { scope, returnType, labels } s
  rw [Gives, hrun] at houtlined
  have hdone := (houtlined.approved rfl (houtlined.unlabelled hgiven)).done
  rw [Context.site, hsw] at hdone
  exact ⟨labels, hdone⟩

/-- Lowering takes two passes: after them nothing in an accepted statement is left to lower, whatever
its next label, and a third pass changes nothing.  So code generation finds nothing in an accepted
program that should have been lowered, if at least two passes were allowed. -/
theorem Program.lowered_in_two_passes :
    (∀ body, Analysis.Admits body → ∀ types scopes n, LowersInTwo types scopes (body, n)) ∧
    ∀ (p : Program) (types : TypeTable) (config : Config) (diagnostics : Diagnostics)
      (accepted : Analysis.Outcome) (waves : Nat),
      p.IsBuilt types → (∀ i ∈ p.items, i.Formed p.scopes) →
      p.analyze config types diagnostics = accepted → accepted.result = .ok waves →
      (∀ i ∈ accepted.program.items, ∀ types scopes n,
        LowersInTwo types scopes (i.statement, n)) ∧
      ∀ lowering : Config, 2 ≤ lowering.maxLoweringPasses → ∀ name construct,
        (accepted.program.lower accepted.types lowering).2.compile accepted.types name ≠
          .error (.unlowered construct) := by
  refine ⟨fun body hbody types scopes n => ?_, ?_⟩
  · obtain ⟨labels, hdone⟩ := hbody.doneIn
    exact lowersInTwo_of_doneIn hdone
  · intro p types config diagnostics accepted waves hbuilt hformed hanalyze hok
    refine ⟨fun i hi types scopes n => ?_, fun lowering hpasses name construct => ?_⟩
    · have hcloses := (hbuilt.shaped hformed hanalyze hok i hi).2.closes
      exact lowersInTwo_of_doneIn hcloses
    · -- The reasons for which code generation may fail leave out this one.
      exact fun herror => hbuilt.overlooks hformed hanalyze hok hpasses rfl herror

/-- A function `i32 turns(i32 n)` with the body `i32 i = 0; cleanup i = 0; for (; i < n; i += 1) { do {
switch (i) { case 1: continue; default: break; } assert(i < 5); } while (i > 7); i32 pair[2] = { i, 2 }; }
return i;` -/
def turns : Program × Session :=
  (Session.start {}).build "turns" do
    let pair ← types (·.arrayOf TypeId.i32 2)
    function "turns" TypeId.i32 [{ name := "n", type := TypeId.i32 }] do
      let start ← localVar "i" (some TypeId.i32) (some (← int 0))
      let reset ← perform (← assign (← ident "i") (← int 0))
      let cleanup ← stmt (.cleanup · reset)
      let compare (op : Relation) (bound : Build Expr) : Build Expr := do
        binary (.compare op) (← ident "i") (← bound)
      let goesOn ← compare .lt (ident "n")
      let i ← ident "i"
      let one ← int 1
      let step ← expr (.update · (.arith .add) i one)
      let body ← block do
        let inner ← block do
          let cases ← block do
            let one ← int 1
            return [← stmt (.caseLabel · one), ← stmt .continueLoop,
              ← stmt .defaultLabel, ← stmt .breakLoop]
          let i ← ident "i"
          let choice ← stmt (.switch · i cases none)
          let isSmall ← compare .lt (int 5)
          return [choice, ← stmt (.assertion · isSmall none)]
        let again ← compare .gt (int 7)
        let loop ← stmt (.doLoop · inner again)
        let elements := [← ident "i", ← int 2]
        let elements ← expr (.collection · elements)
        return [loop, ← localVar "pair" (some pair) (some elements)]
      let loop ← stmt (.forLoop · none (some goesOn) (some step) body)
      return [start, cleanup, loop, ← giveBack (← ident "i")]

def acceptedTurns : Analysis.Outcome := turns.1.analyze {} turns.2.types []

/-- What analysis makes of the body of the function alone, with the number of its errors. -/
def analyzedTurns (f : Function) : Stmt × Nat :=
  (Analysis.stmt { scope := f.scope, returnType := f.returnType, labels := f.labels } f.body
    { types := turns.2.types, scopes := turns.1.scopes, diagnostics := [] }).1

/-- Loops of all kinds, one in the other, around a switch with jumps out of it. -/
theorem Program.lowered_in_two_passes_turns :
    (∀ f ∈ turns.1.functions, Analysis.Admits (analyzedTurns f).1 ∧
      LowersInTwo turns.2.types turns.1.scopes ((analyzedTurns f).1, 7)) ∧
    acceptedTurns.result = .ok 1 ∧
    (∀ i ∈ acceptedTurns.program.items, LowersInTwo acceptedTurns.types acceptedTurns.program.scopes
      (i.statement, 0)) ∧
    ∀ construct, (acceptedTurns.program.lower acceptedTurns.types {}).2.compile acceptedTurns.types
      "turns" ≠ .error (.unlowered construct) := by
  have hbuilt : turns.1.IsBuilt turns.2.types := by decide +kernel
  have hformed : ∀ i ∈ turns.1.items, i.Formed turns.1.scopes := by decide +kernel
  have hok : acceptedTurns.result = .ok 1 := by decide +kernel
  have hadmits (f : Function) (hf : f ∈ turns.1.functions) :
      Analysis.Admits (analyzedTurns f).1 := by
    have herrors : ∀ f ∈ turns.1.functions, (analyzedTurns f).2 = 0 := by decide +kernel
    refine ⟨f.scope, f.returnType, f.labels, f.body,
      { types := turns.2.types, scopes := turns.1.scopes, diagnostics := [] }, ?_, rfl,
      Prod.ext rfl (herrors f hf)⟩
    exact (hbuilt.known _ (mem_functions.1 hf)).statement.mono fun _ => Stmt.Known.isUnlabelled
  obtain ⟨hbodies, hprograms⟩ := lowered_in_two_passes
  obtain ⟨hitems, hcompile⟩ := hprograms turns.1 turns.2.types {} [] acceptedTurns 1 hbuilt hformed
    rfl hok
  refine ⟨fun f hf => ⟨hadmits f hf, hbodies _ (hadmits f hf) _ _ _⟩, hok, ?_, ?_⟩
  · exact fun i hi => hitems i hi _ _ 0
  · exact hcompile {} (by decide) "turns"

end CompilerCore

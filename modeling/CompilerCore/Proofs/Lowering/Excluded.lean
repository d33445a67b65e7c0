import CompilerCore.Demo
import CompilerCore.Proofs.Lowering.Phases

/-!
# What simplification drops

A branch on a constant becomes one of its sides and a loop that is never performed goes away, unless a
jump leads into what is dropped.  A declaration there is dropped as well, although statements behind
the branch may name the variable, and so are cleanup statements, although they belong to the whole
function.  Nothing else is lost: every other declaration and all other cleanup statements stay.
-/

namespace CompilerCore

open Stmt Simplify

/-- What statements elsewhere in a function may rely on. -/
inductive Mark where
  | target
  | cleanup
  | declares (x : SymbolId)
  deriving DecidableEq, Repr

namespace Stmt

/-- The mark of a statement itself.  Declarations are statements of their own. -/
def mark? : Stmt → Option Mark
  | label .. | caseLabel .. | defaultLabel _ => some .target
  | cleanup .. => some .cleanup
  | expr _ (.declare _ x _) => some (.declares x)
  | _ => none

/-- The marks of a statement's nodes. -/
def marks (s : Stmt) : List Mark := s.nodes.filterMap mark?

/-- No statement in a statement has the mark. -/
def Lacks (m : Mark) : Stmt → Prop := All fun s => s.mark? ≠ some m

variable {m : Mark} {s : Stmt}

lemma lacks_iff : s.Lacks m ↔ m ∉ s.marks := by
  simp [Lacks, All, marks, List.mem_filterMap]

lemma lacks_target : s.Lacks .target ↔ hasLabel s = false := by
  rw [hasLabel, List.any_eq_false]
  refine forall₂_congr fun s _ => ?_
  cases s with
  | expr _ e => cases e <;> simp [mark?]
  | _ => simp [mark?]

lemma lacks_of_isNothing (h : s.isNothing = true) : s.Lacks m := by
  cases s <;> simp_all [isNothing, Lacks, mark?]

lemma lacks_withToken : (s.withToken tok).Lacks m ↔ s.Lacks m := by
  cases s with
  | expr _ e => cases e <;> simp [Lacks, withToken, mark?]
  | _ => simp [Lacks, withToken, mark?]

end Stmt

namespace Simplify

variable {t : TypeTable} {m : Mark} {s s' : Stmt} {tok : Token}

/-- Simplification makes the expression a constant. -/
def Settles (t : TypeTable) (e : Expr) (value : Int64) : Prop :=
  ∃ n, ((expr t e).run n).1.integer? = some value

/-- The part of a branch or of a loop that is not performed because the condition is a constant. -/
def Excludes (t : TypeTable) : Stmt → Stmt → Prop
  | .branch _ condition yes no, side =>
    ∃ value, Settles t condition value ∧ if value = 0 then side = yes else side ∈ no
  | .whileLoop _ condition body, side => Settles t condition 0 ∧ side = body
  | _, _ => False

/-- No part that the statement excludes has the mark. -/
def Spares (t : TypeTable) (m : Mark) (s : Stmt) : Prop :=
  ∀ side, Excludes t s side → hasLabel side = false → side.Lacks m

/-- A mark that gets lost is that of an excluded part. -/
def Retains (t : TypeTable) (s s' : Stmt) : Prop :=
  ∀ m, s'.Lacks m → s.All (Spares t m) → s.Lacks m

lemma Retains.hasLabel (h : Retains t s s') (hs' : hasLabel s' = false) : hasLabel s = false :=
  lacks_target.1 (h .target (lacks_target.2 hs') fun _ _ _ _ => lacks_target.2)

lemma replaceAt_retains (h : Retains t s s') : Yields (Retains t s) (replaceAt tok s') :=
  fun _ m hm => h m (lacks_withToken.1 hm)

lemma expr_settles :
    Yields (fun e' => ∀ value, e'.integer? = some value → Settles t e value) (expr t e) :=
  fun n _ h => ⟨n, h⟩

lemma expr_declare :
    Yields (fun e => ∃ value', e = .declare note x value') (expr t (.declare note x value)) := by
  cases value with
  | none => exact fun _ => ⟨_, rfl⟩
  | some => exact fun _ => ⟨_, rfl⟩

lemma exprStmt_retains : Yields (Retains t (.expr tok e)) (stmt t (.expr tok e)) := by
  cases e with
  | declare note x value =>
    refine .bind expr_declare fun e' he' => ?_
    obtain ⟨value', rfl⟩ := he'
    exact .pure fun m hm _ => all_expr.2 (all_expr.1 hm)
  | _ => exact fun _ _ _ _ => all_expr.2 nofun

lemma stmts_retains (ih : ∀ s ∈ body, Yields (Retains t s) (stmt t s)) :
    Yields (List.Forall₂ (Retains t) body) (stmts t body) := by
  induction body with
  | nil => exact .pure .nil
  | cons _ _ ihrest =>
    rw [List.forall_mem_cons] at ih
    exact .bind ih.1 fun s' hs => .bind (ihrest ih.2) fun rest' hrest => .pure (.cons hs hrest)

lemma lacks_of_withoutEmpty (h : List.Forall₂ (Retains t) body body')
    (hleft : ∀ s ∈ body'.filter (!·.isNothing), s.Lacks m) (hs : ∀ s ∈ body, s.All (Spares t m)) :
    ∀ s ∈ body, s.Lacks m := by
  have hlacks : ∀ s' ∈ body', s'.Lacks m := by
    intro s' hs'
    cases hnothing : s'.isNothing with
    | true => exact lacks_of_isNothing hnothing
    | false => exact hleft s' (List.mem_filter.2 ⟨hs', by rw [hnothing]; rfl⟩)
  clear hleft
  induction h with
  | nil => exact nofun
  | cons hfirst _ ih =>
    rw [List.forall_mem_cons] at hs hlacks ⊢
    exact ⟨hfirst m hlacks.1 hs.1, ih hs.2 hlacks.2⟩

lemma branch_retains {cond : Expr}
    (hc : ∀ value, condition'.integer? = some value → Settles t cond value)
    (hy : Retains t yes yes') (hn : Option.Rel (Retains t) no no') :
    Yields (Retains t (.branch tok cond yes no)) (branch tok condition' yes' no') := by
  have hkeep : Retains t (.branch tok cond yes no) (.branch tok condition' yes' no') := by
    intro m hm hs
    obtain ⟨-, hym, hnm⟩ := all_branch.1 hm
    obtain ⟨-, hys, hns⟩ := all_branch.1 hs
    refine all_branch.2 ⟨nofun, hy m hym hys, fun s h => ?_⟩
    subst h
    cases hn with
    | some hn => exact hn m (hnm _ rfl) (hns s rfl)
  unfold branch
  split
  · next value hvalue =>
    split
    · next h =>
      obtain ⟨rfl, hlabel⟩ := h
      refine fun _ m hm hs => ?_
      obtain ⟨hself, hys, hns⟩ := all_branch.1 hs
      refine all_branch.2 ⟨nofun, ?_, fun s h => ?_⟩
      · exact hself yes ⟨0, hc 0 hvalue, rfl⟩ (hy.hasLabel (by simpa using hlabel))
      · subst h
        cases hn with
        | some hn => exact hn m (lacks_withToken.1 hm) (hns s rfl)
    · split
      · next h =>
        obtain ⟨hvalue', hlabel⟩ := h
        refine fun _ m hm hs => ?_
        obtain ⟨hself, hys, hns⟩ := all_branch.1 hs
        refine all_branch.2 ⟨nofun, hy m (lacks_withToken.1 hm) hys, fun s h => ?_⟩
        subst h
        cases hn with
        | some hn =>
          refine hself s ⟨value, hc value hvalue, ?_⟩ (hn.hasLabel (by simpa using hlabel))
          rw [if_neg hvalue']
          rfl
      · exact .pure hkeep
  · exact .pure hkeep

lemma stmt_retains : Yields (Retains t s) (stmt t s) := by
  induction s using induction with
  | expr _ e => exact exprStmt_retains
  | block _ _ _ ih =>
    refine .bind (stmts_retains ih) fun body' hbody => fun _ m hm hs => ?_
    exact all_block.2 ⟨nofun,
      lacks_of_withoutEmpty hbody (all_block.1 hm).2 (all_block.1 hs).2⟩
  | seq _ _ ih =>
    refine .bind (stmts_retains ih) fun body' hbody => fun _ m hm hs => ?_
    exact all_seq.2 ⟨nofun,
      lacks_of_withoutEmpty hbody (all_seq.1 hm).2 (all_seq.1 hs).2⟩
  | branch _ cond _ no ihy ihn =>
    cases no with
    | none =>
      exact .bind expr_settles fun c' hc => .bind ihy fun yes' hy =>
        branch_retains hc hy .none
    | some no =>
      exact .bind expr_settles fun c' hc => .bind ihy fun yes' hy =>
        .bind (ihn no rfl) fun no' hno => branch_retains hc hy (.some hno)
  | whileLoop _ cond body ih =>
    refine .bind expr_settles fun c' hc => .bind ih fun body' hb => ?_
    split
    · next h =>
      obtain ⟨hvalue, hlabel⟩ := Bool.and_eq_true_iff.1 h
      refine fun _ m _ hs => all_whileLoop.2 ⟨nofun, ?_⟩
      exact (all_whileLoop.1 hs).1 body ⟨hc 0 (beq_iff_eq.1 hvalue), rfl⟩
        (hb.hasLabel (by simpa using hlabel))
    · exact .pure fun m hm hs => all_whileLoop.2
        ⟨nofun, hb m (all_whileLoop.1 hm).2 (all_whileLoop.1 hs).2⟩
  | doLoop tok body cond ih =>
    refine .bind expr_settles fun c' _ => .bind ih fun body' hb => ?_
    have hloop (m : Mark) (hm : body'.Lacks m) (hs : (doLoop tok body cond).All (Spares t m)) :
        (doLoop tok body cond).Lacks m :=
      all_doLoop.2 ⟨nofun, hb m hm (all_doLoop.1 hs).2⟩
    split
    · exact replaceAt_retains hloop
    · exact .pure fun m hm => hloop m (all_doLoop.1 hm).2
  | forLoop _ first _ _ _ ihf ih =>
    cases first with
    | none =>
      refine fun n m hm hs => all_forLoop.2 ⟨nofun, nofun, ?_⟩
      exact ih _ m (all_forLoop.1 hm).2.2 (all_forLoop.1 hs).2.2
    | some first =>
      intro n m hm hs
      obtain ⟨-, hfirst, hbody⟩ := all_forLoop.1 hm
      obtain ⟨-, hfirsts, hbodys⟩ := all_forLoop.1 hs
      refine all_forLoop.2 ⟨nofun, fun s h => ?_, ih _ m hbody hbodys⟩
      obtain rfl : first = s := Option.some.inj h
      exact ihf first rfl _ m (hfirst _ rfl) (hfirsts first rfl)
  | switch _ _ _ _ ih =>
    refine fun n m hm hs => all_switch.2 ⟨nofun, ?_⟩
    exact ih _ m (all_switch.1 hm).2 (all_switch.1 hs).2
  | cleanup _ _ ih =>
    intro n m hm hs
    obtain ⟨hself, hbody⟩ := all_cleanup.1 hm
    exact all_cleanup.2 ⟨hself, ih _ m hbody (all_cleanup.1 hs).2⟩
  | ret | gotoAddress | assertion => exact fun _ _ _ _ => by simp [Stmt.Lacks, mark?]
  | caseLabel => exact fun _ m hm _ => all_caseLabel.2 (all_caseLabel.1 hm)
  | _ => exact fun _ m hm _ => hm

/-! ## Passes -/

/-- A statement after so many passes. -/
def after (t : TypeTable) (k : Nat) (s : Stmt) : Stmt := (fun s => (pass t s).2)^[k] s

lemma repeatPass_lacks (h : (repeatPass (pass t) limit s).2.Lacks m)
    (hs : ∀ k < limit, (after t k s).All (Spares t m)) : s.Lacks m := by
  induction limit generalizing s with
  | zero => exact h
  | succ limit ih =>
    refine stmt_retains 0 m ?_ (hs 0 (Nat.succ_pos limit))
    rw [repeatPass_succ] at h
    split at h
    · exact h
    · exact ih h fun k hk => hs (k + 1) (Nat.succ_lt_succ hk)

end Simplify

/-- A declaration, cleanup statement or label stays in a function, however many passes are made, unless
it stands in a part that one of the passes excludes. -/
theorem Function.mark_kept_or_excluded (f : Function) (types : TypeTable) (limit : Nat) {m : Mark}
    (h : m ∈ f.body.marks) : m ∈ (f.simplify types limit).body.marks ∨
      ∃ k < limit, ∃ s ∈ (after types k f.body).nodes, ∃ side,
        Simplify.Excludes types s side ∧ hasLabel side = false ∧ m ∈ side.marks := by
  by_contra hnot
  obtain ⟨hlost, hnone⟩ := not_or.1 hnot
  refine Stmt.lacks_iff.1 (repeatPass_lacks (Stmt.lacks_iff.2 hlost) ?_) h
  intro k hk s hs side hside hlabel
  rw [Stmt.lacks_iff]
  exact fun hm => hnone ⟨k, hk, s, hs, side, hside, hlabel, hm⟩

/-- A function whose cleanup statements and the declaration of whose variable stand in branches that
are never taken. -/
def skipped : Program × Session :=
  (Session.start {}).build "skipped" do
    Build.function "skipped" TypeId.i32 [] do
      let skip (s : Stmt) : Build Stmt := do
        let never ← Demo.int 0
        Build.stmt (.branch · never s none)
      let nothing ← Build.stmt .empty
      let cleanup ← skip (← Build.stmt (.cleanup · nothing))
      let declaration ← skip (← Build.localVar "x" (some TypeId.i32) (some (← Demo.int 1)))
      return [cleanup, declaration, ← Demo.giveBack (← Demo.ident "x")]

def acceptedSkipped : Analysis.Outcome := skipped.1.analyze {} skipped.2.types []

def flatSkipped : Program := acceptedSkipped.program.flatten acceptedSkipped.types 8

/-- The cleanup statements of `skipped` stand in an excluded part. -/
theorem Function.mark_kept_or_excluded_skipped : ∃ f, flatSkipped.function? "skipped" = some f ∧
    .cleanup ∈ f.body.marks ∧
      ∃ k < 8, ∃ s ∈ (after acceptedSkipped.types k f.body).nodes, ∃ side,
        Simplify.Excludes acceptedSkipped.types s side ∧ hasLabel side = false ∧
        .cleanup ∈ side.marks := by
  obtain ⟨f, hf, hbefore, hafter⟩ : ∃ f, flatSkipped.function? "skipped" = some f ∧
      .cleanup ∈ f.body.marks ∧ .cleanup ∉ (f.simplify acceptedSkipped.types 8).body.marks := by
    decide +kernel
  exact ⟨f, hf, hbefore, (mark_kept_or_excluded f _ 8 hbefore).resolve_left hafter⟩

/-- After simplification, `skipped` has no cleanup statements any more and names a variable without a
declaration. -/
theorem Program.compiled_before_simplification : acceptedSkipped.result = .ok 1 ∧
    (∃ m, flatSkipped.compile acceptedSkipped.types "skipped" = .ok m) ∧
    (flatSkipped.simplify acceptedSkipped.types 8).compile acceptedSkipped.types "skipped" =
      .error (.unresolved "x") ∧
    ∃ f x, flatSkipped.function? "skipped" = some f ∧ f.body.marks = [.cleanup, .declares x] ∧
      (f.simplify acceptedSkipped.types 8).body.marks = [] := by
  obtain ⟨m, hm, -⟩ : ∃ m, flatSkipped.compile acceptedSkipped.types "skipped" = .ok m ∧ True := by
    decide +kernel
  obtain ⟨f, hf, hmarks⟩ : ∃ f, flatSkipped.function? "skipped" = some f ∧
      f.body.marks = [.cleanup, .declares 1] ∧
      (f.simplify acceptedSkipped.types 8).body.marks = [] := by
    decide +kernel
  exact ⟨by decide +kernel, ⟨m, hm⟩, by decide +kernel, f, 1, hf, hmarks⟩

end CompilerCore

import CompilerCore.Proofs.Tree.Induction
import Mathlib.Data.List.Forall2

/-!
# Properties of all nodes

A property of nodes that all nodes of a tree have.  The lemmas for the single constructors take it
apart into the property of the node itself and that of its parts.
-/

namespace CompilerCore

open List

namespace Expr

/-- All nodes of an expression have a property. -/
def All (P : Expr → Prop) (e : Expr) : Prop := ∀ n ∈ e.nodes, P n

instance decidableAll {P : Expr → Prop} [DecidablePred P] (e : Expr) : Decidable (e.All P) :=
  inferInstanceAs (Decidable (∀ n ∈ e.nodes, P n))

variable {P Q R : Expr → Prop} {e : Expr} {note : Note}

lemma forall_nodesOfList : (∀ n ∈ nodesOfList es, P n) ↔ ∀ e ∈ es, e.All P := by
  induction es with
  | nil => simp [nodesOfList]
  | cons _ _ ih => simp [nodesOfList, or_imp, forall_and, ih, All]

/-! ## Expressions by the number of their parts -/

lemma all_of_leaf (h : e.nodes = [e]) : e.All P ↔ P e := by simp [All, h]

lemma all_of_part {a : Expr} (h : e.nodes = e :: a.nodes) : e.All P ↔ P e ∧ a.All P := by
  simp [All, h]

lemma all_of_parts {a b : Expr} (h : e.nodes = e :: (a.nodes ++ b.nodes)) :
    e.All P ↔ P e ∧ a.All P ∧ b.All P := by
  simp [All, h, or_imp, forall_and]

lemma all_of_list (h : e.nodes = e :: nodesOfList es) : e.All P ↔ P e ∧ ∀ a ∈ es, a.All P := by
  rw [← forall_nodesOfList]
  simp [All, h]

@[simp] lemma all_literal : (literal note value).All P ↔ P (literal note value) :=
  all_of_leaf rfl

variable {text : String}

@[simp] lemma all_name : (name note text symbol).All P ↔ P (name note text symbol) :=
  all_of_leaf rfl

@[simp] lemma all_binary :
    (binary note op lhs rhs).All P ↔ P (binary note op lhs rhs) ∧ lhs.All P ∧ rhs.All P :=
  all_of_parts rfl

@[simp] lemma all_unary :
    (unary note op operand).All P ↔ P (unary note op operand) ∧ operand.All P :=
  all_of_part rfl

@[simp] lemma all_conditional {cond : Expr} : (conditional note cond yes no).All P ↔
      P (conditional note cond yes no) ∧ cond.All P ∧ yes.All P ∧ no.All P := by
  simp [All, nodes, or_imp, forall_and]

@[simp] lemma all_member :
    (member note object text deref).All P ↔ P (member note object text deref) ∧ object.All P :=
  all_of_part rfl

@[simp] lemma all_qualified : (qualified note scope text).All P ↔ P (qualified note scope text) :=
  all_of_leaf rfl

@[simp] lemma all_call :
    (call note callee symbol args).All P ↔ P (call note callee symbol args) ∧ ∀ e ∈ args, e.All P :=
  all_of_list rfl

@[simp] lemma all_index :
    (index note base position).All P ↔ P (index note base position) ∧ base.All P ∧ position.All P :=
  all_of_parts rfl

@[simp] lemma all_collection :
    (collection note elems).All P ↔ P (collection note elems) ∧ ∀ e ∈ elems, e.All P :=
  all_of_list rfl

@[simp] lemma all_cast : (cast note operand target isImplicit).All P ↔
      P (cast note operand target isImplicit) ∧ operand.All P :=
  all_of_part rfl

@[simp] lemma all_assign :
    (assign note target value).All P ↔ P (assign note target value) ∧ target.All P ∧ value.All P :=
  all_of_parts rfl

@[simp] lemma all_update : (update note op target value).All P ↔
      P (update note op target value) ∧ target.All P ∧ value.All P :=
  all_of_parts rfl

@[simp] lemma all_declare :
    (declare note symbol init).All P ↔ P (declare note symbol init) ∧ ∀ e ∈ init, e.All P := by
  cases init with
  | none => simp [All, nodes]
  | some => simpa using all_of_part rfl

@[simp] lemma all_sizeOf : (sizeOf note type).All P ↔ P (sizeOf note type) :=
  all_of_leaf rfl

lemma All.self (h : e.All P) : P e := h e (by rw [nodes.eq_def]; exact .head _)

/-! ## Expressions and their parts -/

def parts : Expr → List Expr
  | binary _ _ a b | index _ a b | assign _ a b | update _ _ a b => [a, b]
  | unary _ _ a | member _ a _ _ | cast _ a _ _ => [a]
  | conditional _ a b c => [a, b, c]
  | call _ _ _ es | collection _ es => es
  | declare _ _ initializer => initializer.toList
  | literal .. | name .. | qualified .. | sizeOf .. => []

/-- The same node with other parts. -/
def withParts : Expr → List Expr → Expr
  | binary note op _ _, [a, b] => binary note op a b
  | unary note op _, [a] => unary note op a
  | conditional note _ _ _, [a, b, c] => conditional note a b c
  | member note _ text throughPointer, [a] => member note a text throughPointer
  | call note callee symbol _, es => call note callee symbol es
  | index note _ _, [a, b] => index note a b
  | collection note _, es => collection note es
  | cast note _ target isImplicit, [a] => cast note a target isImplicit
  | assign note _ _, [a, b] => assign note a b
  | update note op _ _, [a, b] => update note op a b
  | declare note symbol (some _), [a] => declare note symbol (some a)
  | e, _ => e

/-- Induction over expressions, whatever their forms. -/
@[elab_as_elim] lemma parts_induction {motive : Expr → Prop}
    (step : ∀ e, (∀ part ∈ e.parts, motive part) → motive e) (e : Expr) : motive e := by
  induction e using Expr.induction with
  | call _ _ _ _ ih | collection _ _ ih => exact step _ ih
  | declare _ _ _ ih => exact step _ fun part h => ih part (Option.mem_toList.1 h)
  | _ => exact step _ (by simp_all [parts])

lemma all_iff : e.All P ↔ P e ∧ ∀ part ∈ e.parts, part.All P := by
  cases e with
  | declare => simp [parts]
  | _ => simp [parts]

lemma parts_withParts (h : es.length = e.parts.length) : (e.withParts es).parts = es := by
  cases e with
  | call | collection => rfl
  | declare _ _ init => cases init <;> obtain _ | ⟨a, _ | _⟩ := es <;> simp_all [parts, withParts]
  | _ => obtain _ | ⟨a, _ | ⟨b, _ | ⟨c, _ | _⟩⟩⟩ := es <;> simp_all [parts, withParts]

lemma withParts_parts : e.withParts e.parts = e := by
  cases e with
  | declare _ _ init => cases init <;> rfl
  | _ => rfl

lemma note_withParts : (e.withParts es).note = e.note := by
  unfold withParts
  split <;> rfl

/-- A walk over expressions that finishes each node when its parts are done. -/
structure Walks {σ : Type} (finish expr : Expr → StateM σ Expr)
    (exprs : List Expr → StateM σ (List Expr)) : Prop where
  nil : exprs [] = pure []
  cons e es : exprs (e :: es) = do return (← expr e) :: (← exprs es)
  expr e : expr e = exprs e.parts >>= fun es => finish (e.withParts es)

section Walks

variable {σ : Type} {finish expr : Expr → StateM σ Expr} {exprs : List Expr → StateM σ (List Expr)}

/-- What a walk makes of a node is related to it if this follows from the same of the parts. -/
lemma Walks.relates (h : Walks finish expr exprs) {R : Expr → Expr → Prop}
    (hfin : ∀ e es, List.Forall₂ R e.parts es → ∀ st, R e (finish (e.withParts es) st).1)
    (e : Expr) (st : σ) : R e (expr e st).1 := by
  induction e using parts_induction generalizing st with
  | step e ih =>
    rw [h.expr]
    refine hfin e _ ?_ _
    generalize e.parts = es at ih
    induction es generalizing st with
    | nil =>
      rw [h.nil]
      exact .nil
    | cons _ _ ihrest =>
      rw [forall_mem_cons] at ih
      rw [h.cons]
      exact .cons (ih.1 st) (ihrest _ ih.2)

/-- What a walk makes of a tree has a property if each node gets it from its parts. -/
lemma Walks.yields (h : Walks finish expr exprs) (hP : ∀ e es, P e → P (e.withParts es))
    (hfin : ∀ e, P e → (∀ part ∈ e.parts, Q part) → ∀ st, Q (finish e st).1) (he : e.All P)
    (st : σ) : Q (expr e st).1 := by
  refine h.relates (R := fun e e' => e.All P → Q e') (fun e es hes st he => ?_) e st he
  refine hfin _ (hP e es he.self) ?_ st
  rw [parts_withParts hes.length_eq.symm]
  have hparts := (all_iff.1 he).2
  generalize e.parts = parts at hes hparts
  induction hes with
  | nil => exact nofun
  | cons hpart _ ih =>
    rw [forall_mem_cons] at hparts
    exact forall_mem_cons.2 ⟨hpart hparts.1, ih hparts.2⟩

end Walks

/-- A property that a node has if another one holds in all of it. -/
lemma All.imp (h : ∀ e : Expr, e.All P → Q e → R e) (hp : e.All P) (hq : e.All Q) : e.All R := by
  induction e using parts_induction with
  | step e ih =>
    exact all_iff.2 ⟨h e hp hq.self, fun part hpart =>
      ih part hpart ((all_iff.1 hp).2 part hpart) ((all_iff.1 hq).2 part hpart)⟩

lemma All.mono (h : ∀ e, P e → Q e) (hp : e.All P) : e.All Q := fun n hn => h n (hp n hn)

end Expr

namespace Stmt

/-- All statements in a statement, itself included, have a property. -/
def All (P : Stmt → Prop) (s : Stmt) : Prop := ∀ n ∈ s.nodes, P n

instance decidableAll {P : Stmt → Prop} [DecidablePred P] (s : Stmt) : Decidable (s.All P) :=
  inferInstanceAs (Decidable (∀ n ∈ s.nodes, P n))

variable {P Q : Stmt → Prop} {s : Stmt} {tok : Token}

def parts : Stmt → List Stmt
  | block _ _ body | seq _ body => body
  | branch _ _ yes no => yes :: no.toList
  | whileLoop _ _ body | doLoop _ body _ | switch _ _ body _ | cleanup _ body => [body]
  | forLoop _ first _ _ body => first.toList ++ [body]
  | _ => []

/-- Induction over statements, whatever their forms. -/
@[elab_as_elim] lemma parts_induction {motive : Stmt → Prop}
    (step : ∀ s, (∀ part ∈ s.parts, motive part) → motive s) (s : Stmt) : motive s := by
  induction s using Stmt.induction with
  | block _ _ _ ih | seq _ _ ih => exact step _ ih
  | branch _ _ _ _ ihy ihn =>
    exact step _ (forall_mem_cons.2 ⟨ihy, fun part h => ihn part (Option.mem_toList.1 h)⟩)
  | forLoop _ _ _ _ _ ihf ih =>
    exact step _ (forall_mem_append.2
      ⟨fun part h => ihf part (Option.mem_toList.1 h), forall_mem_singleton.2 ih⟩)
  | whileLoop _ _ _ ih | doLoop _ _ _ ih | switch _ _ _ _ ih | cleanup _ _ ih =>
    exact step _ (forall_mem_singleton.2 ih)
  | _ => exact step _ nofun

lemma nodesOfList_eq_flatMap : nodesOfList ss = ss.flatMap nodes := by
  induction ss with
  | nil => rfl
  | cons _ _ ih => rw [nodesOfList, ih, flatMap_cons]

lemma nodes_eq : s.nodes = s :: s.parts.flatMap nodes := by
  cases s with
  | branch _ _ _ no => cases no <;> simp [nodes, parts]
  | forLoop _ first => cases first <;> simp [nodes, parts]
  | _ => simp [nodes, parts, nodesOfList_eq_flatMap]

lemma all_iff : s.All P ↔ P s ∧ ∀ part ∈ s.parts, part.All P := by
  rw [All, nodes_eq]
  simp only [forall_mem_cons, forall_mem_flatMap, All]

/-! ## Statements by the number of their parts -/

lemma all_of_leaf (h : s.nodes = [s]) : s.All P ↔ P s := by simp [All, h]

lemma all_of_part {a : Stmt} (h : s.nodes = s :: a.nodes) : s.All P ↔ P s ∧ a.All P := by
  simp [All, h]

lemma all_of_parts {a b : Stmt} (h : s.nodes = s :: (a.nodes ++ b.nodes)) :
    s.All P ↔ P s ∧ a.All P ∧ b.All P := by
  simp [All, h, or_imp, forall_and]

@[simp] lemma all_expr : (expr tok e).All P ↔ P (expr tok e) := all_of_leaf rfl

variable {scope : ScopeId} {cond value : Expr} {yes body : Stmt} {step : Option Expr}
  {name : String}

@[simp] lemma all_block {body : List Stmt} :
    (block tok scope body).All P ↔ P (block tok scope body) ∧ ∀ s ∈ body, s.All P :=
  all_iff

@[simp] lemma all_seq {body : List Stmt} :
    (seq tok body).All P ↔ P (seq tok body) ∧ ∀ s ∈ body, s.All P :=
  all_iff

@[simp] lemma all_branch : (branch tok cond yes no).All P ↔
      P (branch tok cond yes no) ∧ yes.All P ∧ ∀ s ∈ no, s.All P := by
  cases no with
  | none => simpa using all_of_part rfl
  | some => simpa using all_of_parts rfl

@[simp] lemma all_whileLoop :
    (whileLoop tok cond body).All P ↔ P (whileLoop tok cond body) ∧ body.All P :=
  all_of_part rfl

@[simp] lemma all_doLoop : (doLoop tok body cond).All P ↔ P (doLoop tok body cond) ∧ body.All P :=
  all_of_part rfl

@[simp] lemma all_forLoop {cond : Option Expr} : (forLoop tok first cond step body).All P ↔
      P (forLoop tok first cond step body) ∧ (∀ s ∈ first, s.All P) ∧ body.All P := by
  cases first with
  | none => simpa using all_of_part rfl
  | some => simpa using all_of_parts rfl

@[simp] lemma all_breakLoop : (breakLoop tok).All P ↔ P (breakLoop tok) := all_of_leaf rfl

@[simp] lemma all_continueLoop : (continueLoop tok).All P ↔ P (continueLoop tok) :=
  all_of_leaf rfl

@[simp] lemma all_ret {value : Option Expr} : (ret tok value).All P ↔ P (ret tok value) :=
  all_of_leaf rfl

@[simp] lemma all_goto : (goto tok name).All P ↔ P (goto tok name) :=
  all_of_leaf rfl

@[simp] lemma all_gotoAddress : (gotoAddress tok target).All P ↔ P (gotoAddress tok target) :=
  all_of_leaf rfl

@[simp] lemma all_label : (label tok name).All P ↔ P (label tok name) :=
  all_of_leaf rfl

@[simp] lemma all_switch :
    (switch tok value body labels).All P ↔ P (switch tok value body labels) ∧ body.All P :=
  all_of_part rfl

@[simp] lemma all_caseLabel : (caseLabel tok value).All P ↔ P (caseLabel tok value) :=
  all_of_leaf rfl

@[simp] lemma all_defaultLabel : (defaultLabel tok).All P ↔ P (defaultLabel tok) :=
  all_of_leaf rfl

@[simp] lemma all_assertion : (assertion tok cond message).All P ↔ P (assertion tok cond message) :=
  all_of_leaf rfl

@[simp] lemma all_asm : (asm tok code).All P ↔ P (asm tok code) :=
  all_of_leaf rfl

@[simp] lemma all_cleanup : (cleanup tok body).All P ↔ P (cleanup tok body) ∧ body.All P :=
  all_of_part rfl

@[simp] lemma all_empty : (empty tok).All P ↔ P (empty tok) := all_of_leaf rfl

lemma All.self (h : s.All P) : P s := h s (by rw [nodes.eq_def]; exact .head _)

lemma All.mono (h : ∀ s, P s → Q s) (hp : s.All P) : s.All Q := fun n hn => h n (hp n hn)

/-- A property of all statements in a statement is one of all statements in any of those. -/
lemma All.each (h : s.All P) : s.All (All P) := by
  induction s using parts_induction with
  | step s ih => exact all_iff.2 ⟨h, fun part hpart => ih part hpart ((all_iff.1 h).2 part hpart)⟩

/-! ## Labels and cleanups by the form of a statement -/

/-- A statement that is not itself counted holds what its parts hold. -/
lemma filterMap_nodes {f : Stmt → Option α} (h : f s = none) :
    s.nodes.filterMap f = s.parts.flatMap fun s => s.nodes.filterMap f := by
  rw [nodes_eq, filterMap_cons_none h, filterMap_flatMap]

lemma declaredLabels_eq_flatMap (h : ∀ tok name, s ≠ label tok name) :
    s.declaredLabels = s.parts.flatMap declaredLabels := by
  refine filterMap_nodes ?_
  cases s with
  | label tok name => exact absurd rfl (h tok name)
  | _ => rfl

@[simp] lemma declaredLabels_seq {body : List Stmt} :
    (seq tok body).declaredLabels = body.flatMap declaredLabels :=
  filterMap_nodes rfl

@[simp] lemma declaredLabels_block {body : List Stmt} :
    (block tok scope body).declaredLabels = body.flatMap declaredLabels :=
  filterMap_nodes rfl

@[simp] lemma declaredLabels_branch_none :
    (branch tok cond yes none).declaredLabels = yes.declaredLabels := rfl

@[simp] lemma declaredLabels_branch_some :
    (branch tok cond yes (some no)).declaredLabels = yes.declaredLabels ++ no.declaredLabels :=
  filterMap_append

@[simp] lemma declaredLabels_whileLoop :
    (whileLoop tok cond body).declaredLabels = body.declaredLabels := rfl

@[simp] lemma declaredLabels_doLoop :
    (doLoop tok body cond).declaredLabels = body.declaredLabels := rfl

@[simp] lemma declaredLabels_forLoop_none {cond : Option Expr} :
    (forLoop tok none cond step body).declaredLabels = body.declaredLabels := rfl

@[simp] lemma declaredLabels_forLoop_some {cond : Option Expr} :
    (forLoop tok (some first) cond step body).declaredLabels =
      first.declaredLabels ++ body.declaredLabels :=
  filterMap_append

@[simp] lemma declaredLabels_label : (label tok name).declaredLabels = [name] :=
  rfl

/-- The bodies of a statement's cleanups. -/
def cleanups (s : Stmt) : List Stmt :=
  s.nodes.filterMap fun s =>
    match s with
    | cleanup _ body => some body
    | _ => none

@[simp] lemma cleanups_seq {body : List Stmt} : (seq tok body).cleanups = body.flatMap cleanups :=
  filterMap_nodes rfl

@[simp] lemma cleanups_block {body : List Stmt} :
    (block tok scope body).cleanups = body.flatMap cleanups :=
  filterMap_nodes rfl

@[simp] lemma cleanups_branch_none : (branch tok cond yes none).cleanups = yes.cleanups := rfl

@[simp] lemma cleanups_branch_some :
    (branch tok cond yes (some no)).cleanups = yes.cleanups ++ no.cleanups :=
  filterMap_append

@[simp] lemma cleanups_whileLoop : (whileLoop tok cond body).cleanups = body.cleanups := rfl

@[simp] lemma cleanups_doLoop : (doLoop tok body cond).cleanups = body.cleanups := rfl

@[simp] lemma cleanups_forLoop_none {cond : Option Expr} :
    (forLoop tok none cond step body).cleanups = body.cleanups := rfl

@[simp] lemma cleanups_forLoop_some {cond : Option Expr} :
    (forLoop tok (some first) cond step body).cleanups = first.cleanups ++ body.cleanups :=
  filterMap_append

@[simp] lemma cleanups_switch : (switch tok value body own).cleanups = body.cleanups := rfl

@[simp] lemma cleanups_cleanup : (cleanup tok body).cleanups = body :: body.cleanups := rfl

@[simp] lemma cleanups_expr : (expr tok e).cleanups = [] := rfl

@[simp] lemma cleanups_goto : (goto tok name).cleanups = [] := rfl

@[simp] lemma cleanups_label : (label tok name).cleanups = [] := rfl

@[simp] lemma cleanups_breakLoop : (breakLoop tok).cleanups = [] := rfl

end Stmt

end CompilerCore

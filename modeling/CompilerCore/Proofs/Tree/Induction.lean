import CompilerCore.Tree.Stmt
import Mathlib.Tactic.Lemma

/-!
# Induction over trees

Expressions and statements hold lists and optional parts, so the principles that come with their
types speak of those as well.  The ones below speak of expressions or statements alone: a list or an
optional part is covered by what holds of its members.
-/

namespace CompilerCore

@[elab_as_elim] lemma Expr.induction {motive : Expr → Prop}
    (literal : ∀ note value, motive (.literal note value))
    (name : ∀ note name symbol, motive (.name note name symbol))
    (binary : ∀ note op lhs rhs, motive lhs → motive rhs → motive (.binary note op lhs rhs))
    (unary : ∀ note op operand, motive operand → motive (.unary note op operand))
    (conditional : ∀ note cond yes no, motive cond → motive yes → motive no →
      motive (.conditional note cond yes no))
    (member : ∀ note object member deref, motive object → motive (.member note object member deref))
    (qualified : ∀ note scope member, motive (.qualified note scope member))
    (call : ∀ note callee symbol args, (∀ e ∈ args, motive e) →
      motive (.call note callee symbol args))
    (index : ∀ note base index, motive base → motive index → motive (.index note base index))
    (collection : ∀ note elems, (∀ e ∈ elems, motive e) → motive (.collection note elems))
    (cast : ∀ note operand target isImplicit, motive operand →
      motive (.cast note operand target isImplicit))
    (assign : ∀ note target value, motive target → motive value →
      motive (.assign note target value))
    (update : ∀ note op target value, motive target → motive value →
      motive (.update note op target value))
    (declare : ∀ note symbol init, (∀ e ∈ init, motive e) → motive (.declare note symbol init))
    (sizeOf : ∀ note type, motive (.sizeOf note type)) (e : Expr) : motive e := by
  exact @Expr.rec motive (fun es => ∀ e ∈ es, motive e) (fun o => ∀ e ∈ o, motive e) literal name
    binary unary conditional member qualified call index collection cast assign update declare sizeOf
    nofun (fun _ _ head tail => List.forall_mem_cons.2 ⟨head, tail⟩)
    nofun (fun _ he _ h => Option.some.inj h ▸ he) e

@[elab_as_elim] lemma Stmt.induction {motive : Stmt → Prop} (expr : ∀ tok e, motive (.expr tok e))
    (block : ∀ tok scope body, (∀ s ∈ body, motive s) → motive (.block tok scope body))
    (seq : ∀ tok body, (∀ s ∈ body, motive s) → motive (.seq tok body))
    (branch : ∀ tok cond yes no, motive yes → (∀ s ∈ no, motive s) →
      motive (.branch tok cond yes no))
    (whileLoop : ∀ tok cond body, motive body → motive (.whileLoop tok cond body))
    (doLoop : ∀ tok body cond, motive body → motive (.doLoop tok body cond))
    (forLoop : ∀ tok first cond step body, (∀ s ∈ first, motive s) → motive body →
      motive (.forLoop tok first cond step body))
    (breakLoop : ∀ tok, motive (.breakLoop tok))
    (continueLoop : ∀ tok, motive (.continueLoop tok))
    (ret : ∀ tok value, motive (.ret tok value))
    (goto : ∀ tok label, motive (.goto tok label))
    (gotoAddress : ∀ tok target, motive (.gotoAddress tok target))
    (label : ∀ tok name, motive (.label tok name))
    (switch : ∀ tok value body labels, motive body → motive (.switch tok value body labels))
    (caseLabel : ∀ tok value, motive (.caseLabel tok value))
    (defaultLabel : ∀ tok, motive (.defaultLabel tok))
    (assertion : ∀ tok cond message, motive (.assertion tok cond message))
    (asm : ∀ tok code, motive (.asm tok code))
    (cleanup : ∀ tok body, motive body → motive (.cleanup tok body))
    (empty : ∀ tok, motive (.empty tok)) (s : Stmt) : motive s := by
  exact @Stmt.rec motive (fun ss => ∀ s ∈ ss, motive s) (fun o => ∀ s ∈ o, motive s) expr block seq
    branch whileLoop doLoop forLoop breakLoop continueLoop ret goto gotoAddress label switch caseLabel
    defaultLabel assertion asm cleanup empty
    nofun (fun _ _ head tail => List.forall_mem_cons.2 ⟨head, tail⟩)
    nofun (fun _ hs _ h => Option.some.inj h ▸ hs) s

end CompilerCore

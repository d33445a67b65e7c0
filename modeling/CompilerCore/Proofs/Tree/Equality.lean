import CompilerCore.Proofs.Tree.Induction
import CompilerCore.Tree.Program

/-!
# Comparing trees

Whether two trees are the same can be computed, so that it can be checked what a step does to a given
program.
-/

namespace CompilerCore

namespace Expr

mutual

def same : Expr → Expr → Bool
  | literal n value, literal n' value' => decide (n = n' ∧ value = value')
  | name n text symbol, name n' text' symbol' => decide (n = n' ∧ text = text' ∧ symbol = symbol')
  | binary n op l r, binary n' op' l' r' => decide (n = n' ∧ op = op') && same l l' && same r r'
  | unary n op e, unary n' op' e' => decide (n = n' ∧ op = op') && same e e'
  | conditional n c yes no, conditional n' c' yes' no' =>
    decide (n = n') && same c c' && same yes yes' && same no no'
  | member n e text deref, member n' e' text' deref' =>
    decide (n = n') && same e e' && decide (text = text' ∧ deref = deref')
  | qualified n scope text, qualified n' scope' text' =>
    decide (n = n' ∧ scope = scope' ∧ text = text')
  | call n callee symbol es, call n' callee' symbol' es' =>
    decide (n = n' ∧ callee = callee' ∧ symbol = symbol') && sameList es es'
  | index n e i, index n' e' i' => decide (n = n') && same e e' && same i i'
  | collection n es, collection n' es' => decide (n = n') && sameList es es'
  | cast n e target isImplicit, cast n' e' target' isImplicit' =>
    decide (n = n') && same e e' && decide (target = target' ∧ isImplicit = isImplicit')
  | assign n e v, assign n' e' v' => decide (n = n') && same e e' && same v v'
  | update n op e v, update n' op' e' v' => decide (n = n' ∧ op = op') && same e e' && same v v'
  | declare n x o, declare n' x' o' => decide (n = n' ∧ x = x') && sameOption o o'
  | sizeOf n type, sizeOf n' type' => decide (n = n' ∧ type = type')
  | _, _ => false

def sameList : List Expr → List Expr → Bool
  | [], [] => true
  | e :: es, e' :: es' => same e e' && sameList es es'
  | _, _ => false

def sameOption : Option Expr → Option Expr → Bool
  | none, none => true
  | some e, some e' => same e e'
  | _, _ => false

end

lemma sameList_iff (ih : ∀ e ∈ es, ∀ e', e.same e' = true ↔ e = e') :
    sameList es es' = true ↔ es = es' := by
  induction es generalizing es' with
  | nil => cases es' <;> simp [sameList]
  | cons _ _ ihs =>
    rw [List.forall_mem_cons] at ih
    cases es' <;> simp [sameList, ih.1, ihs ih.2]

lemma sameOption_iff (ih : ∀ e ∈ o, ∀ e', e.same e' = true ↔ e = e') :
    sameOption o o' = true ↔ o = o' := by
  cases o with
  | none => cases o' <;> simp [sameOption]
  | some e => cases o' <;> simp [sameOption, ih e rfl]

lemma same_iff {e' : Expr} : e.same e' = true ↔ e = e' := by
  induction e using Expr.induction generalizing e' with
  | call _ _ _ _ ih =>
    cases e' <;> simp [same, sameList_iff fun e he _ => ih e he, and_assoc]
  | collection _ _ ih =>
    cases e' <;> simp [same, sameList_iff fun e he _ => ih e he]
  | declare _ _ _ ih =>
    cases e' <;> simp [same, sameOption_iff fun e he _ => ih e he, and_assoc]
  | _ => cases e' <;> simp_all [same, and_assoc]

instance : DecidableEq Expr := fun _ _ => decidable_of_iff _ same_iff

end Expr

namespace Stmt

mutual

def same : Stmt → Stmt → Bool
  | expr t e, expr t' e' => decide (t = t' ∧ e = e')
  | block t scope body, block t' scope' body' =>
    decide (t = t' ∧ scope = scope') && sameList body body'
  | seq t body, seq t' body' => decide (t = t') && sameList body body'
  | branch t e yes no, branch t' e' yes' no' =>
    decide (t = t' ∧ e = e') && same yes yes' && sameOption no no'
  | whileLoop t e body, whileLoop t' e' body' => decide (t = t' ∧ e = e') && same body body'
  | doLoop t body e, doLoop t' body' e' => decide (t = t') && same body body' && decide (e = e')
  | forLoop t first e step body, forLoop t' first' e' step' body' =>
    decide (t = t') && sameOption first first' && decide (e = e' ∧ step = step') && same body body'
  | breakLoop t, breakLoop t' => decide (t = t')
  | continueLoop t, continueLoop t' => decide (t = t')
  | ret t value, ret t' value' => decide (t = t' ∧ value = value')
  | goto t target, goto t' target' => decide (t = t' ∧ target = target')
  | gotoAddress t e, gotoAddress t' e' => decide (t = t' ∧ e = e')
  | label t text, label t' text' => decide (t = t' ∧ text = text')
  | switch t e body labels, switch t' e' body' labels' =>
    decide (t = t' ∧ e = e') && same body body' && decide (labels = labels')
  | caseLabel t e, caseLabel t' e' => decide (t = t' ∧ e = e')
  | defaultLabel t, defaultLabel t' => decide (t = t')
  | assertion t e message, assertion t' e' message' =>
    decide (t = t' ∧ e = e' ∧ message = message')
  | asm t code, asm t' code' => decide (t = t' ∧ code = code')
  | cleanup t body, cleanup t' body' => decide (t = t') && same body body'
  | empty t, empty t' => decide (t = t')
  | _, _ => false

def sameList : List Stmt → List Stmt → Bool
  | [], [] => true
  | st :: ss, st' :: ss' => same st st' && sameList ss ss'
  | _, _ => false

def sameOption : Option Stmt → Option Stmt → Bool
  | none, none => true
  | some st, some st' => same st st'
  | _, _ => false

end

lemma sameList_iff (ih : ∀ st ∈ ss, ∀ st', st.same st' = true ↔ st = st') :
    sameList ss ss' = true ↔ ss = ss' := by
  induction ss generalizing ss' with
  | nil => cases ss' <;> simp [sameList]
  | cons _ _ ihs =>
    rw [List.forall_mem_cons] at ih
    cases ss' <;> simp [sameList, ih.1, ihs ih.2]

lemma sameOption_iff (ih : ∀ st ∈ o, ∀ st', st.same st' = true ↔ st = st') :
    sameOption o o' = true ↔ o = o' := by
  cases o with
  | none => cases o' <;> simp [sameOption]
  | some st => cases o' <;> simp [sameOption, ih st rfl]

lemma same_iff {st' : Stmt} : st.same st' = true ↔ st = st' := by
  induction st using Stmt.induction generalizing st' with
  | block _ _ _ ih =>
    cases st' <;> simp [same, sameList_iff fun st hst _ => ih st hst, and_assoc]
  | seq _ _ ih => cases st' <;> simp [same, sameList_iff fun st hst _ => ih st hst]
  | branch _ _ _ _ ihy ihn =>
    cases st' <;> simp [same, ihy, sameOption_iff fun st hst _ => ihn st hst, and_assoc]
  | forLoop _ _ _ _ _ ihf ih =>
    cases st' <;> simp [same, ih, sameOption_iff fun st hst _ => ihf st hst, and_assoc]
  | _ => cases st' <;> simp_all [same, and_assoc]

instance : DecidableEq Stmt := fun _ _ => decidable_of_iff _ same_iff

end Stmt

deriving instance DecidableEq for Global, Function, Item

end CompilerCore

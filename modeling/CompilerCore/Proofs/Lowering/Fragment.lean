import CompilerCore.Proofs.Lowering.Form
import CompilerCore.Proofs.Lowering.Pass

/-!
# Statements with structure

`Stmt.isStructured` describes the statements whose lowering is studied: loops, branches, jumps out of
loops, assertions and switches with their case labels in front of the statements of their bodies.
`Stmt.isPlaced` describes what analysis demands of the jumps and case labels among them.
-/

namespace CompilerCore

open CompilerCore.Expr

/-! ## Expressions -/

/-- Whether a node stands for other nodes: an update or the elements of an array. -/
def Expr.isShorthand : Expr → Bool
  | .update .. | .collection .. => true
  | _ => false

/-- Whether an expression has no updates and no collections. -/
def Expr.isSimple (e : Expr) : Bool := e.nodes.all (!·.isShorthand)

namespace ControlFlow

lemma noUpdates_of_isSimple (h : e.isSimple = true) : NoUpdates e := by
  intro n hn
  have hnode := List.all_eq_true.1 h n hn
  cases n <;> simp_all [isShorthand, isUpdate]

lemma expr_eq_self (e : Expr) (h : e.isSimple = true) (st : State) : expr e st = (e, st) :=
  (expr_faithful e).eq_self (noUpdates_of_isSimple h) st

lemma optionExpr_eq_self (h : e.all isSimple = true) (st : State) :
    optionExpr e st = (e, st) := by
  refine (optionExpr_faithful e).eq_self (fun e' he => noUpdates_of_isSimple ?_) st
  obtain rfl := he
  exact h

lemma declaredElements_eq_none (t : TypeTable) (h : e.isSimple = true) :
    declaredElements? t e = none := by
  unfold declaredElements?
  split
  · simp [isSimple, nodes, isShorthand] at h
  · rfl

end ControlFlow

/-! ## Statements -/

/-- Where a statement stands: it is the body of a switch, among the statements of such a body, or
anywhere else. -/
inductive Place where
  | body
  | item
  | elsewhere
  deriving DecidableEq, Repr

def Place.inner : Place → Place
  | .body => .item
  | .item | .elsewhere => .elsewhere

namespace Stmt

mutual

/-- Whether a statement is made of structured statements, and its case labels stand directly in the
bodies of switches. -/
def isStructured (p : Place) : Stmt → Bool
  | .expr _ e => e.isSimple
  | .block _ _ body => allStructured p.inner body
  | .seq _ body => allStructured p.inner body
  | .branch _ condition yes none => condition.isSimple && isStructured .elsewhere yes
  | .branch _ condition yes (some no) =>
    condition.isSimple && isStructured .elsewhere yes && isStructured .elsewhere no
  | .whileLoop _ condition body => condition.isSimple && isStructured .elsewhere body
  | .doLoop _ body condition => condition.isSimple && isStructured .elsewhere body
  | .forLoop _ none condition step body =>
    condition.all isSimple && step.all isSimple && isStructured .elsewhere body
  | .forLoop _ (some first) condition step body =>
    isStructured .elsewhere first && condition.all isSimple && step.all isSimple &&
      isStructured .elsewhere body
  | .ret _ value => value.all isSimple
  | .switch _ value body none => value.isSimple && isStructured .body body
  | .switch _ _ _ (some _) => false
  | .caseLabel _ _ | .defaultLabel _ => p != .elsewhere
  | .assertion _ condition _ => condition.isSimple
  | .breakLoop _ | .continueLoop _ | .empty _ => true
  | .goto .. | .gotoAddress .. | .label .. | .asm .. | .cleanup .. => false
termination_by structural s => s

def allStructured (p : Place) : List Stmt → Bool
  | [] => true
  | s :: rest => isStructured p s && allStructured p rest
termination_by structural ss => ss

end

/-- Among the statements of a switch's body, only case labels are special. -/
lemma isStructured_item (s : Stmt) :
    (∃ tok value, s = .caseLabel tok value) ∨ (∃ tok, s = .defaultLabel tok) ∨
      isStructured .item s = isStructured .elsewhere s := by
  cases s with
  | caseLabel tok value => exact .inl ⟨tok, value, rfl⟩
  | defaultLabel tok => exact .inr (.inl ⟨tok, rfl⟩)
  | branch _ _ _ no => cases no <;> exact .inr (.inr rfl)
  | forLoop _ first => cases first <;> exact .inr (.inr rfl)
  | switch _ _ _ labels => cases labels <;> exact .inr (.inr rfl)
  | _ => exact .inr (.inr rfl)

/-- The body of a switch holds statements or is the only one. -/
lemma isStructured_body (s : Stmt) :
    (∃ tok scope body, s = .block tok scope body) ∨ (∃ tok body, s = .seq tok body) ∨
      isStructured .body s = isStructured .item s ∧ Structured.items s = [s] := by
  cases s with
  | block tok scope body => exact .inl ⟨tok, scope, body, rfl⟩
  | seq tok body => exact .inr (.inl ⟨tok, body, rfl⟩)
  | branch _ _ _ no => cases no <;> exact .inr (.inr ⟨rfl, rfl⟩)
  | forLoop _ first => cases first <;> exact .inr (.inr ⟨rfl, rfl⟩)
  | switch _ _ _ labels => cases labels <;> exact .inr (.inr ⟨rfl, rfl⟩)
  | _ => exact .inr (.inr ⟨rfl, rfl⟩)

mutual

/-- The number of default labels outside of switches that collect their own. -/
def defaults : Stmt → Nat
  | .block _ _ body => defaultsIn body
  | .seq _ body => defaultsIn body
  | .branch _ _ yes none => defaults yes
  | .branch _ _ yes (some no) => defaults yes + defaults no
  | .whileLoop _ _ body => defaults body
  | .doLoop _ body _ => defaults body
  | .forLoop _ none _ _ body => defaults body
  | .forLoop _ (some first) _ _ body => defaults first + defaults body
  | .switch _ _ body (some _) => defaults body
  | .defaultLabel _ => 1
  | .cleanup _ body => defaults body
  | .switch _ _ _ none | .expr .. | .breakLoop _ | .continueLoop _ | .ret .. | .goto ..
  | .gotoAddress .. | .label .. | .caseLabel .. | .assertion .. | .asm .. | .empty _ => 0
termination_by structural s => s

def defaultsIn : List Stmt → Nat
  | [] => 0
  | s :: rest => defaults s + defaultsIn rest
termination_by structural ss => ss

end

mutual

/-- Whether every jump out of a loop is in one, and every case has a constant. -/
def isPlaced (inLoop isBreakable : Bool) : Stmt → Bool
  | .block _ _ body => allPlaced inLoop isBreakable body
  | .seq _ body => allPlaced inLoop isBreakable body
  | .branch _ _ yes none => isPlaced inLoop isBreakable yes
  | .branch _ _ yes (some no) => isPlaced inLoop isBreakable yes && isPlaced inLoop isBreakable no
  | .whileLoop _ _ body => isPlaced true true body
  | .doLoop _ body _ => isPlaced true true body
  | .forLoop _ none _ _ body => isPlaced true true body
  | .forLoop _ (some first) _ _ body =>
    isPlaced inLoop isBreakable first && isPlaced true true body
  | .breakLoop _ => isBreakable
  | .continueLoop _ => inLoop
  | .switch _ _ body _ => isPlaced inLoop true body
  | .caseLabel _ value => value.integer?.isSome
  | .cleanup _ body => isPlaced inLoop isBreakable body
  | .expr .. | .ret .. | .goto .. | .gotoAddress .. | .label .. | .defaultLabel _
  | .assertion .. | .asm .. | .empty _ => true
termination_by structural s => s

def allPlaced (inLoop isBreakable : Bool) : List Stmt → Bool
  | [] => true
  | s :: rest => isPlaced inLoop isBreakable s && allPlaced inLoop isBreakable rest
termination_by structural ss => ss

end

mutual

/-- Whether no switch that collects its labels has two default labels. -/
def hasSingleDefaults : Stmt → Bool
  | .block _ _ body => allSingleDefaults body
  | .seq _ body => allSingleDefaults body
  | .branch _ _ yes none => hasSingleDefaults yes
  | .branch _ _ yes (some no) => hasSingleDefaults yes && hasSingleDefaults no
  | .whileLoop _ _ body => hasSingleDefaults body
  | .doLoop _ body _ => hasSingleDefaults body
  | .forLoop _ none _ _ body => hasSingleDefaults body
  | .forLoop _ (some first) _ _ body => hasSingleDefaults first && hasSingleDefaults body
  | .switch _ _ body none => hasSingleDefaults body && defaults body ≤ 1
  | .switch _ _ body (some _) => hasSingleDefaults body
  | .cleanup _ body => hasSingleDefaults body
  | .expr .. | .breakLoop _ | .continueLoop _ | .ret .. | .goto .. | .gotoAddress .. | .label ..
  | .caseLabel .. | .defaultLabel _ | .assertion .. | .asm .. | .empty _ => true
termination_by structural s => s

def allSingleDefaults : List Stmt → Bool
  | [] => true
  | s :: rest => hasSingleDefaults s && allSingleDefaults rest
termination_by structural ss => ss

end

end Stmt

end CompilerCore

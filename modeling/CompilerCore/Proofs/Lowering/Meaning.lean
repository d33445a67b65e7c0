import CompilerCore.Lowering.ControlFlow
import Mathlib.Computability.StateTransition

/-!
# The meaning of statements

Two meanings of statements, as transition systems that keep a list of what remains to be done.  Both
take the meaning of expressions as given: an expression changes a state and has a value, or fails.

* `Structured.step` — loops, `break`, `continue` and switches with case labels.  What remains is a
  list of tasks; a running loop or switch leaves a mark in it, which is what `break` and `continue`
  look for.
* `Goto.step` — labels and jumps.  What remains is a list of statements, and a jump replaces it by
  what remains from the label on in the whole body.  A switch whose cases have labels ends with a
  label of its own.

A run that comes to no end, or to a statement that a meaning does not cover, has no outcome.
-/

namespace CompilerCore

/-- How a body ends.  Falling off its end returns nothing. -/
inductive Outcome (σ ε : Type) where
  | returned (value : Option Int64) (state : σ)
  | failed (error : ε)

/-- What expressions mean. -/
structure Meaning (σ ε : Type) where
  /-- The value of an expression and the state after it. -/
  eval : Expr → σ → Except ε (Int64 × σ)
  /-- What the constant of a case counts as beside the value of an expression. -/
  constant : Expr → Int64 → Int64
  /-- The failure of an assertion. -/
  abort : ε

/-- A moment of a run: what remains to be done in which state, or how the run ended. -/
inductive Moment (α σ ε : Type) where
  | running (rest : List α) (state : σ)
  | done (outcome : Outcome σ ε)

/-- Goes on with the result of an evaluation, or ends the run with its failure. -/
def afterEval {α β σ ε : Type} (result : Except ε (β × σ))
    (next : β → σ → Option (Moment α σ ε)) : Option (Moment α σ ε) :=
  match result with
  | .ok (value, s) => next value s
  | .error e => some (.done (.failed e))

namespace Meaning

variable {σ ε : Type}

/-- Literals stand for themselves, `!` for negation, and the call that a failed assertion makes
fails. -/
structure Lawful (M : Meaning σ ε) : Prop where
  literal : ∀ note (value : Literal) n s, value.integer? = some n →
    M.eval (.literal note value) s = .ok (n, s)
  not : ∀ note e s, M.eval (.unary note .not e) s =
    (M.eval e s).map fun (n, s) => (if n = 0 then 1 else 0, s)
  abort : ∀ note s, M.eval (.call note ControlFlow.abortName none []) s = .error M.abort

variable (M : Meaning σ ε)

/-- Whether a condition holds; one left out always does. -/
def test : Option Expr → σ → Except ε (Bool × σ)
  | none, s => .ok (true, s)
  | some c, s => (M.eval c s).map fun (n, s) => (n != 0, s)

/-- Evaluates the step of a loop, if there is one, for its effect. -/
def perform : Option Expr → σ → Except ε σ
  | none, s => .ok s
  | some e, s => (M.eval e s).map (·.2)

end Meaning

/-! ## Loops and switches -/

namespace Structured

/-- What remains to be done. -/
inductive Task where
  | run (s : Stmt)
  /-- The end of a loop's body: the step, the condition and, if it holds, the body again. -/
  | again (step condition : Option Expr) (body : Stmt)
  /-- The end of a switch. -/
  | leave

/-- What remains after the innermost loop or switch. -/
def breakTo : List Task → Option (List Task)
  | [] => none
  | .run _ :: rest => breakTo rest
  | .again .. :: rest | .leave :: rest => some rest

/-- What remains from the end of the innermost loop's body, past any switch in it. -/
def continueTo : List Task → Option (List Task)
  | [] => none
  | .run _ :: rest | .leave :: rest => continueTo rest
  | .again step condition body :: rest => some (.again step condition body :: rest)

/-- The statements of a switch's body among which its case labels stand. -/
def items : Stmt → List Stmt
  | .block _ _ body | .seq _ body => body
  | s => [s]

/-- What follows the first case whose constant a test accepts. -/
def afterCase (accepts : Int64 → Bool) : List Stmt → Option (List Stmt)
  | [] => none
  | .caseLabel _ value :: rest =>
    if value.integer?.any accepts then some rest else afterCase accepts rest
  | _ :: rest => afterCase accepts rest

/-- What follows the default label. -/
def afterDefault : List Stmt → Option (List Stmt)
  | [] => none
  | .defaultLabel _ :: rest => some rest
  | _ :: rest => afterDefault rest

variable {σ ε : Type} (M : Meaning σ ε)

/-- What a switch does when its selector has a value: it goes on after the case of that value, or
else after the default label, and falls through later labels. -/
def enter (selector : Expr) (value : Int64) (body : Stmt) (rest : List Task) : List Task :=
  let accepts (constant : Int64) : Bool := M.constant selector constant == value
  match afterCase accepts (items body) <|> afterDefault (items body) with
  | some entered => entered.map .run ++ .leave :: rest
  | none => rest

/-- Runs the body of a loop once more if its condition holds. -/
def iterate (step condition : Option Expr) (body : Stmt) (rest : List Task)
    (result : Except ε (Bool × σ)) : Option (Moment Task σ ε) :=
  afterEval result fun holds s =>
    some (.running (if holds then .run body :: .again step condition body :: rest else rest) s)

/-- Begins a statement before the tasks that remain; `none` for what only jumps can mean. -/
def stmt (rest : List Task) (s : σ) : Stmt → Option (Moment Task σ ε)
  | .expr _ e => afterEval (M.eval e s) fun _ s => some (.running rest s)
  | .block _ _ body | .seq _ body => some (.running (body.map .run ++ rest) s)
  | .branch _ condition yes no =>
    afterEval (M.test (some condition) s) fun holds s =>
      some (.running ((if holds then [yes] else no.toList).map .run ++ rest) s)
  | .whileLoop _ condition body =>
    iterate none (some condition) body rest (M.test (some condition) s)
  | .doLoop _ body condition =>
    some (.running (.run body :: .again none (some condition) body :: rest) s)
  | .forLoop _ none condition step body =>
    iterate step condition body rest (M.test condition s)
  | .forLoop token (some first) condition step body =>
    some (.running (.run first :: .run (.forLoop token none condition step body) :: rest) s)
  | .breakLoop _ => (breakTo rest).map (.running · s)
  | .continueLoop _ => (continueTo rest).map (.running · s)
  | .ret _ none => some (.done (.returned none s))
  | .ret _ (some e) => afterEval (M.eval e s) fun n s => some (.done (.returned (some n) s))
  | .switch _ selector body _ =>
    afterEval (M.eval selector s) fun n s => some (.running (enter M selector n body rest) s)
  | .assertion _ condition _ =>
    afterEval (M.test (some condition) s) fun holds s =>
      some (if holds then .running rest s else .done (.failed M.abort))
  | .caseLabel .. | .defaultLabel _ | .empty _ => some (.running rest s)
  | .goto .. | .gotoAddress .. | .label .. | .asm .. | .cleanup .. => none

/-- Takes up the next task; a body that is left at its end returns nothing. -/
def step : Moment Task σ ε → Option (Moment Task σ ε)
  | .done _ => none
  | .running [] s => some (.done (.returned none s))
  | .running (.run st :: rest) s => stmt M rest s st
  | .running (.again next condition body :: rest) s =>
    iterate next condition body rest ((M.perform next s).bind (M.test condition))
  | .running (.leave :: rest) s => some (.running rest s)

/-- A body before its run. -/
def start (body : Stmt) (s : σ) : Moment Task σ ε := .running [.run body] s

/-- A body's run from a state comes to an end, with this outcome. -/
def Ends (body : Stmt) (s : σ) (outcome : Outcome σ ε) : Prop :=
  .done outcome ∈ StateTransition.eval (step M) (start body s)

end Structured

/-! ## Labels and jumps -/

namespace Goto

mutual

/-- What remains from a label on, in a statement that is followed by others. -/
def seek (label : String) : Stmt → List Stmt → Option (List Stmt)
  | .label token name, rest => if name = label then some (.label token name :: rest) else none
  | .block _ _ body, rest => seekIn label body rest
  | .seq _ body, rest => seekIn label body rest
  | .branch _ _ yes none, rest => seek label yes rest
  | .branch _ _ yes (some no), rest => seek label yes rest <|> seek label no rest
  | .switch token selector body (some labels), rest =>
    if labels.head = label then some (.switch token selector body (some labels) :: rest)
    else
      seek label body (.label token labels.tail :: rest) <|>
        if labels.tail = label then some (.label token labels.tail :: rest) else none
  | .switch _ _ _ none, _ | .expr .., _ | .whileLoop .., _ | .doLoop .., _ | .forLoop .., _
  | .breakLoop _, _ | .continueLoop _, _ | .ret .., _ | .goto .., _ | .gotoAddress .., _
  | .caseLabel .., _ | .defaultLabel _, _ | .assertion .., _ | .asm .., _ | .cleanup .., _
  | .empty _, _ => none
termination_by structural s => s

/-- What remains from a label on, in statements that are followed by others. -/
def seekIn (label : String) : List Stmt → List Stmt → Option (List Stmt)
  | [], _ => none
  | s :: body, rest => seek label s (body ++ rest) <|> seekIn label body rest
termination_by structural ss => ss

end

/-- The label that a switch goes to: of the first case whose constant a test accepts, or else the
default label, or else the end. -/
def target (labels : SwitchLabels) (accepts : Int64 → Bool) : String :=
  match labels.cases.find? (accepts ·.2) with
  | some (name, _) => name
  | none => labels.default.getD labels.tail

variable {σ ε : Type} (M : Meaning σ ε) (body : Stmt)

/-- Goes to a label of the body. -/
def jump (label : String) (s : σ) : Option (Moment Stmt σ ε) :=
  (seek label body []).map (.running · s)

/-- Begins a statement of a body in which the loops are already labels and jumps. -/
def stmt (rest : List Stmt) (s : σ) : Stmt → Option (Moment Stmt σ ε)
  | .expr _ e => afterEval (M.eval e s) fun _ s => some (.running rest s)
  | .block _ _ inner | .seq _ inner => some (.running (inner ++ rest) s)
  | .branch _ condition yes no =>
    afterEval (M.test (some condition) s) fun holds s =>
      some (.running ((if holds then [yes] else no.toList) ++ rest) s)
  | .ret _ none => some (.done (.returned none s))
  | .ret _ (some e) => afterEval (M.eval e s) fun n s => some (.done (.returned (some n) s))
  | .goto _ label => jump body label s
  | .label .. | .empty _ => some (.running rest s)
  | .switch _ selector _ (some labels) =>
    afterEval (M.eval selector s) fun n s => jump body (target labels (M.constant selector · == n)) s
  | .switch _ _ _ none | .whileLoop .. | .doLoop .. | .forLoop .. | .breakLoop _ | .continueLoop _
  | .gotoAddress .. | .caseLabel .. | .defaultLabel _ | .assertion .. | .asm .. | .cleanup .. => none

/-- Takes up the next statement; a body that is left at its end returns nothing. -/
def step : Moment Stmt σ ε → Option (Moment Stmt σ ε)
  | .done _ => none
  | .running [] s => some (.done (.returned none s))
  | .running (st :: rest) s => stmt M body rest s st

def start (s : σ) : Moment Stmt σ ε := .running [body] s

/-- The body's run from a state comes to an end, with this outcome. -/
def Ends (s : σ) (outcome : Outcome σ ε) : Prop :=
  .done outcome ∈ StateTransition.eval (step M body) (start body s)

end Goto

end CompilerCore

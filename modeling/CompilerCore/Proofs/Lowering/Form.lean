import CompilerCore.Proofs.Lowering.Labels

/-!
# The lowered form of a statement

`Lowered` relates a statement with loops, `break`, `continue` and case labels to the labels and jumps
that it becomes.  It says nothing about how many passes that takes, nor how the labels are named.
-/

namespace CompilerCore

open ControlFlow Structured

/-- Where `break` and `continue` go at a place of the lowered body. -/
structure Targets where
  breakTo : Option String
  continueTo : Option String

/-- The labels of case statements with their constants, given the statements that became of them. -/
def caseTable : List Stmt → List Stmt → List (String × Int64)
  | .caseLabel _ value :: rest, .label _ name :: rest' =>
    (value.integer?.map (name, ·)).toList ++ caseTable rest rest'
  | _ :: rest, _ :: rest' => caseTable rest rest'
  | _, _ => []

/-- The label of the first default statement, given the statements that became of them. -/
def defaultIn : List Stmt → List Stmt → Option String
  | .defaultLabel _ :: _, .label _ name :: _ => some name
  | _ :: rest, _ :: rest' => defaultIn rest rest'
  | _, _ => none

/-- A statement and the statements that its case labels stand among. -/
inductive Holds : Stmt → List Stmt → Prop
  | block (token : Token) (scope : ScopeId) (body : List Stmt) : Holds (.block token scope body) body
  | seq (token : Token) (body : List Stmt) : Holds (.seq token body) body
  | single (s : Stmt) : Holds s [s]

/-- The exit at the head of a loop; one whose condition always holds has none. -/
def exits (token : Token) (condition : Expr) (tail : String) : List Stmt :=
  if isAlwaysTrue condition then [] else exitUnless token condition (.goto token tail)

def doStatements (token : Token) (body : Stmt) (condition : Expr) (head tail next : String) :
    List Stmt :=
  loopStatements token (always token)
    (.seq token ([body, .label token next] ++ exitUnless token condition (.goto token tail)))
    head tail

def forStatements (token : Token) (condition step : Option Expr) (body : Stmt)
    (head tail next : String) : List Stmt :=
  loopStatements token (condition.getD (always token))
    (.seq token ([body, .label token next] ++ step.toList.map (.expr token))) head tail

mutual

/-- A statement and its lowered form, where `break` and `continue` have these targets. -/
inductive Lowered : Targets → Stmt → Stmt → Prop
  | expr {T : Targets} (token : Token) (e : Expr) : Lowered T (.expr token e) (.expr token e)
  | block {T : Targets} {token : Token} {scope : ScopeId} {body body' : List Stmt}
      (parts : LoweredAll T body body') :
      Lowered T (.block token scope body) (.block token scope body')
  | seq {T : Targets} {token : Token} {body body' : List Stmt}
      (parts : LoweredAll T body body') :
      Lowered T (.seq token body) (.seq token body')
  | branch {T : Targets} {token : Token} {condition : Expr} {yes yes' : Stmt}
      (part : Lowered T yes yes') :
      Lowered T (.branch token condition yes none) (.branch token condition yes' none)
  | branchElse {T : Targets} {token : Token} {condition : Expr} {yes yes' no no' : Stmt}
      (part : Lowered T yes yes') (part' : Lowered T no no') :
      Lowered T (.branch token condition yes (some no)) (.branch token condition yes' (some no'))
  | whileLoop {T : Targets} {token : Token} {condition : Expr} {body body' : Stmt}
      {head tail : String} (part : Lowered ⟨some tail, some head⟩ body body') :
      Lowered T (.whileLoop token condition body)
        (.seq token (loopStatements token condition body' head tail))
  | doLoop {T : Targets} {token : Token} {condition : Expr} {body body' : Stmt}
      {head tail next : String} (part : Lowered ⟨some tail, some next⟩ body body') :
      Lowered T (.doLoop token body condition)
        (.seq token (doStatements token body' condition head tail next))
  | forLoop {T : Targets} {token : Token} {condition step : Option Expr} {body body' : Stmt}
      {head tail next : String} (part : Lowered ⟨some tail, some next⟩ body body') :
      Lowered T (.forLoop token none condition step body)
        (.seq token (forStatements token condition step body' head tail next))
  | forLoopAlone {T : Targets} {token : Token} {condition step : Option Expr} {body body' : Stmt}
      {head tail next : String} (part : Lowered ⟨some tail, some next⟩ body body') :
      Lowered T (.forLoop token none condition step body)
        (.seq token [.seq token (forStatements token condition step body' head tail next)])
  | forLoopFirst {T : Targets} {token : Token} {condition step : Option Expr}
      {first first' body body' : Stmt} {head tail next : String} (part : Lowered T first first')
      (part' : Lowered ⟨some tail, some next⟩ body body') :
      Lowered T (.forLoop token (some first) condition step body)
        (.seq token [first', .seq token (forStatements token condition step body' head tail next)])
  | breakLoop {T : Targets} {token : Token} {label : String} (known : T.breakTo = some label) :
      Lowered T (.breakLoop token) (.goto token label)
  | continueLoop {T : Targets} {token : Token} {label : String}
      (known : T.continueTo = some label) : Lowered T (.continueLoop token) (.goto token label)
  | ret {T : Targets} (token : Token) (value : Option Expr) :
      Lowered T (.ret token value) (.ret token value)
  | switch {T : Targets} {token : Token} {selector : Expr} {body body' : Stmt}
      {inner : List Stmt} {labels : SwitchLabels} (holds : Holds body' inner)
      (parts : LoweredAll ⟨some labels.tail, T.continueTo⟩ (items body) inner)
      (cases_eq : labels.cases = caseTable (items body) inner)
      (default_eq : labels.default = defaultIn (items body) inner) :
      Lowered T (.switch token selector body none) (.switch token selector body' (some labels))
  | caseLabel {T : Targets} (token : Token) (value : Expr) (name : String) :
      Lowered T (.caseLabel token value) (.label token name)
  | defaultLabel {T : Targets} (token : Token) (name : String) :
      Lowered T (.defaultLabel token) (.label token name)
  | assertion {T : Targets} (token : Token) (condition : Expr) (message : Option String) :
      Lowered T (.assertion token condition message)
        (.branch token (negation condition) (abortCall token) none)
  | empty {T : Targets} (token : Token) : Lowered T (.empty token) (.empty token)

inductive LoweredAll : Targets → List Stmt → List Stmt → Prop
  | nil {T : Targets} : LoweredAll T [] []
  | cons {T : Targets} {s s' : Stmt} {rest rest' : List Stmt} (part : Lowered T s s')
      (parts : LoweredAll T rest rest') : LoweredAll T (s :: rest) (s' :: rest')

end

lemma loopStatements_eq (tok : Token) (cond : Expr) (body : Stmt) (head tail : String) :
    loopStatements tok cond body head tail = .label tok head ::
        (exits tok cond tail ++ [body, .goto tok head, .label tok tail]) := by
  simp [loopStatements, exits]

@[simp] lemma exits_always (tok : Token) (tail : String) : exits tok (always tok) tail = [] := by
  rfl

end CompilerCore

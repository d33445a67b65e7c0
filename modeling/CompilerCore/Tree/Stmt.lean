import CompilerCore.Tree.Expr

/-!
# Statements

Loops, switches and assertions are written out as labels, branches and jumps before code is made of
them; a sequence is a list of statements that stands for one and has no scope of its own.
-/

namespace CompilerCore

/-- The labels that a switch is turned into. -/
structure SwitchLabels where
  head : String
  tail : String
  /-- Labels with their case values, in the order of the source. -/
  cases : List (String × Int64) := []
  default : Option String := none
  deriving DecidableEq, Repr

/-- A piece of an assembly template. -/
inductive AsmPart where
  | text (text : String)
  | symbol (id : SymbolId)
  | label (name : String)
  | register (name : String)
  deriving DecidableEq, Repr

structure InlineAsm where
  template : String
  preserve : List String
  ignore : List String
  /-- The pieces of the template, once it has been analyzed. -/
  parts : List AsmPart := []
  deriving DecidableEq, Repr

inductive Stmt where
  | expr (token : Token) (e : Expr)
  | block (token : Token) (scope : ScopeId) (body : List Stmt)
  | seq (token : Token) (body : List Stmt)
  | branch (token : Token) (condition : Expr) (yes : Stmt) (no : Option Stmt)
  | whileLoop (token : Token) (condition : Expr) (body : Stmt)
  | doLoop (token : Token) (body : Stmt) (condition : Expr)
  | forLoop (token : Token) (first : Option Stmt) (condition step : Option Expr) (body : Stmt)
  | breakLoop (token : Token)
  | continueLoop (token : Token)
  | ret (token : Token) (value : Option Expr)
  | goto (token : Token) (label : String)
  | gotoAddress (token : Token) (target : Expr)
  | label (token : Token) (name : String)
  | switch (token : Token) (value : Expr) (body : Stmt) (labels : Option SwitchLabels)
  | caseLabel (token : Token) (value : Expr)
  | defaultLabel (token : Token)
  | assertion (token : Token) (condition : Expr) (message : Option String)
  | asm (token : Token) (code : InlineAsm)
  /-- Statements that run whenever the function is left. -/
  | cleanup (token : Token) (body : Stmt)
  | empty (token : Token)
  deriving Repr

instance : Inhabited Stmt := ⟨.empty .synthesized⟩

namespace Stmt

def token : Stmt → Token
  | expr token _ | block token _ _ | seq token _ | branch token _ _ _ | whileLoop token _ _
  | doLoop token _ _ | forLoop token _ _ _ _ | breakLoop token | continueLoop token | ret token _
  | goto token _ | gotoAddress token _ | label token _ | switch token _ _ _ | caseLabel token _
  | defaultLabel token | assertion token _ _ | asm token _ | cleanup token _ | empty token => token

/-- The same statement with another token. -/
def withToken (s : Stmt) (token : Token) : Stmt :=
  match s with
  | expr _ e => expr token e
  | block _ scope body => block token scope body
  | seq _ body => seq token body
  | branch _ condition yes no => branch token condition yes no
  | whileLoop _ condition body => whileLoop token condition body
  | doLoop _ body condition => doLoop token body condition
  | forLoop _ first condition step body => forLoop token first condition step body
  | breakLoop _ => breakLoop token
  | continueLoop _ => continueLoop token
  | ret _ value => ret token value
  | goto _ target => goto token target
  | gotoAddress _ target => gotoAddress token target
  | label _ name => label token name
  | switch _ value body labels => switch token value body labels
  | caseLabel _ value => caseLabel token value
  | defaultLabel _ => defaultLabel token
  | assertion _ condition message => assertion token condition message
  | asm _ code => asm token code
  | cleanup _ body => cleanup token body
  | empty _ => empty token

/-- Whether this is the empty statement itself. -/
def isNothing : Stmt → Bool
  | empty _ => true
  | _ => false

mutual

/-- Whether the statement is empty or a sequence of such statements. -/
def isEmpty : Stmt → Bool
  | empty _ => true
  | seq _ body => allEmpty body
  | _ => false
termination_by structural s => s

def allEmpty : List Stmt → Bool
  | [] => true
  | s :: rest => isEmpty s && allEmpty rest
termination_by structural ss => ss

end

/-! ## Walks -/

mutual

/-- The statement and all statements in it, each before its parts. -/
def nodes (s : Stmt) : List Stmt :=
  s ::
    match s with
    | block _ _ body => nodesOfList body
    | seq _ body => nodesOfList body
    | branch _ _ yes none => nodes yes
    | branch _ _ yes (some no) => nodes yes ++ nodes no
    | whileLoop _ _ body => nodes body
    | doLoop _ body _ => nodes body
    | forLoop _ none _ _ body => nodes body
    | forLoop _ (some first) _ _ body => nodes first ++ nodes body
    | switch _ _ body _ => nodes body
    | cleanup _ body => nodes body
    | expr .. | breakLoop _ | continueLoop _ | ret .. | goto .. | gotoAddress .. | label ..
    | caseLabel .. | defaultLabel _ | assertion .. | asm .. | empty _ => []
termination_by structural s

def nodesOfList : List Stmt → List Stmt
  | [] => []
  | s :: rest => nodes s ++ nodesOfList rest
termination_by structural ss => ss

end

/-- All expressions of an optional expression. -/
def optionNodes (e : Option Expr) : List Expr := (e.map Expr.nodes).getD []

mutual

/-- All expressions of the statement.  The condition of a loop comes before its body. -/
def exprNodes : Stmt → List Expr
  | expr _ e => e.nodes
  | block _ _ body => exprNodesOfList body
  | seq _ body => exprNodesOfList body
  | branch _ condition yes none => condition.nodes ++ exprNodes yes
  | branch _ condition yes (some no) => condition.nodes ++ exprNodes yes ++ exprNodes no
  | whileLoop _ condition body => condition.nodes ++ exprNodes body
  | doLoop _ body condition => condition.nodes ++ exprNodes body
  | forLoop _ none condition step body =>
    optionNodes condition ++ optionNodes step ++ exprNodes body
  | forLoop _ (some first) condition step body =>
    exprNodes first ++ optionNodes condition ++ optionNodes step ++ exprNodes body
  | ret _ value => optionNodes value
  | gotoAddress _ target => target.nodes
  | switch _ value body _ => value.nodes ++ exprNodes body
  | caseLabel _ value => value.nodes
  | assertion _ condition _ => condition.nodes
  | cleanup _ body => exprNodes body
  | breakLoop _ | continueLoop _ | goto .. | label .. | defaultLabel _ | asm .. | empty _ => []
termination_by structural s => s

def exprNodesOfList : List Stmt → List Expr
  | [] => []
  | s :: rest => exprNodes s ++ exprNodesOfList rest
termination_by structural ss => ss

end

/-- The labels that the statement declares, in order. -/
def declaredLabels (s : Stmt) : List String :=
  s.nodes.filterMap fun s =>
    match s with
    | label _ name => some name
    | _ => none

/-- Whether the statement holds statements for when the function is left. -/
def hasCleanup (s : Stmt) : Bool :=
  s.nodes.any fun s =>
    match s with
    | cleanup .. => true
    | _ => false

end Stmt

end CompilerCore

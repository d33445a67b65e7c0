import CompilerCore.Analysis.Expression
import CompilerCore.Tree.Stmt

/-!
# Analysis of statements

Jumps are checked against the loops, switches and labels around them.
-/

namespace CompilerCore.Analysis

/-- Reports a complaint about a statement that counts as one error. -/
def fault (token : Token) (c : Complaint) : Analyze Nat := do
  report token c
  return 1

/-- A return statement's value must suit the function. -/
def returned (c : Context) (token : Token) : Option Expr → Analyze (Option Expr × Nat)
  | none => do
    if (← types).isVoid c.returnType then return (none, 0)
    else return (none, ← fault token (.missingReturnValue c.returnType))
  | some value => do
    let (value, n) ← expr c value (some c.returnType)
    if 0 < n then return (some value, n)
    else
      let t ← types
      if t.isVoid c.returnType && !t.isVoid (typeOf value) then
        return (some value, ← fault token .returnFromVoid)
      else
        let (value, n) ← convert c.returnType value
        return (some value, n)

/-- Enters a constant into the innermost switch. -/
def recordCase (token : Token) (constant : Int64) (switch : OpenSwitch) : Analyze Nat := do
  if switch.cases.contains constant then fault token (.duplicateCase constant)
  else
    modify fun s => { s with switch := some { switch with cases := switch.cases ++ [constant] } }
    return 0

/-- A case value must be a constant of the type of the switch that has not occurred yet. -/
def caseValue (c : Context) (token : Token) (value : Expr) : Analyze (Expr × Nat) := do
  match (← get).switch with
  | none => return (value, ← fault token .caseOutside)
  | some switch =>
    let (value, n) ← expr c value none
    if 0 < n then return (value, n)
    else
      match switch.valueType with
      | none => return (value, 1)
      | some type =>
        if !value.isLiteral then return (value, ← fault value.token .caseNotConstant)
        else
          let (value, n) ← convert type value
          if 0 < n then return (value, n)
          else
            match value.integer? with
            | none => return (value, ← fault value.token .caseNotInteger)
            | some constant => return (value, ← recordCase value.token constant switch)

def defaultErrors (token : Token) : Analyze Nat := do
  match (← get).switch with
  | none => fault token .defaultOutside
  | some switch =>
    if switch.hasDefault then fault token .duplicateDefault
    else
      modify fun s => { s with switch := some { switch with hasDefault := true } }
      return 0

/-- The value of a switch must be an integer; the result is its type. -/
def switchType (value : Expr) : Analyze (Option TypeId × Nat) := do
  if (← types).isInteger (typeOf value) then return (some (typeOf value), 0)
  else return (none, ← fault value.token (.badSwitch (typeOf value)))

/-! ## Assembly -/

/-- What a piece of a template stands for. -/
def asmPart (c : Context) (token : Token) (asm : InlineAsm) :
    TemplateToken → Analyze (Except Nat AsmPart)
  | .text text => return .ok (.text text)
  | .identifier name => do
    match ← lookupSymbol c name token with
    | some id =>
      markReferenced id
      return .ok (.symbol id)
    | none =>
      if c.labels.contains name then return .ok (.label name)
      else return .error (← fault token (.unknownAsmName name))
  | .register name => do
    if asm.preserve.contains name || asm.ignore.contains name then return .ok (.register name)
    else return .error (← fault token (.unknownAsmRegister name))

def asmParts (c : Context) (token : Token) (asm : InlineAsm) :
    List TemplateToken → Analyze (List AsmPart × Nat)
  | [] => return ([], 0)
  | piece :: rest => do
    let part ← asmPart c token asm piece
    let (parts, n) ← asmParts c token asm rest
    match part with
    | .ok part => return (part :: parts, n)
    | .error m => return (parts, m + n)

/-- Every name in an assembly block must be declared, and every register listed. -/
def inlineAsm (c : Context) (token : Token) (asm : InlineAsm) : Analyze (InlineAsm × Nat) := do
  match Template.parse asm.template with
  | .error error => return (asm, ← fault token (.badEscape error))
  | .ok pieces =>
    let (parts, n) ← asmParts c token asm pieces
    return (if n = 0 then { asm with parts } else asm, n)

/-! ## Statements -/

def optionWith (f : Expr → Analyze (Expr × Nat)) : Option Expr → Analyze (Option Expr × Nat)
  | none => return (none, 0)
  | some e => do
    let (e, n) ← f e
    return (some e, n)

def Context.loop (c : Context) : Context := { c with inLoop := true, isBreakable := true }

mutual

/-- Analyzes a statement.  The result is the statement and the number of its errors. -/
def stmt (c : Context) : Stmt → Analyze (Stmt × Nat)
  | .expr token e => do
    let (e, n) ← expr c e none
    return (.expr token e, n)
  | .block token scope body => do
    let (body, n) ← stmts { c with scope } body
    return (.block token scope body, n)
  | .seq token body => do
    let (body, n) ← stmts c body
    return (.seq token body, n)
  | .branch token test yes none => do
    let (test, k) ← condition c test
    let (yes, m) ← stmt c yes
    return (.branch token test yes none, k + m)
  | .branch token test yes (some no) => do
    let (test, k) ← condition c test
    let (yes, m) ← stmt c yes
    let (no, n) ← stmt c no
    return (.branch token test yes (some no), k + m + n)
  | .whileLoop token test body => do
    let (test, m) ← condition c test
    let (body, n) ← stmt c.loop body
    return (.whileLoop token test body, m + n)
  | .doLoop token body test => do
    let (test, m) ← condition c test
    let (body, n) ← stmt c.loop body
    return (.doLoop token body test, m + n)
  | .forLoop token none test step body => do
    let (test, l) ← optionWith (condition c) test
    let (step, m) ← optionWith (expr c · none) step
    let (body, n) ← stmt c.loop body
    return (.forLoop token none test step body, l + m + n)
  | .forLoop token (some first) test step body => do
    let (first, k) ← stmt c first
    let (test, l) ← optionWith (condition c) test
    let (step, m) ← optionWith (expr c · none) step
    let (body, n) ← stmt c.loop body
    return (.forLoop token (some first) test step body, k + l + m + n)
  | .breakLoop token => do
    return (.breakLoop token, ← if c.isBreakable then pure 0 else fault token .breakOutside)
  | .continueLoop token => do
    return (.continueLoop token, ← if c.inLoop then pure 0 else fault token .continueOutside)
  | .ret token value => do
    let (value, n) ← returned c token value
    return (.ret token value, n)
  | .goto token label => do
    return (.goto token label,
      ← if c.labels.contains label then pure 0 else fault token (.undeclaredLabel label))
  | .gotoAddress token target => do
    let (target, n) ← expr c target none
    if 0 < n then return (.gotoAddress token target, n)
    else
      let type := typeOf target
      return (.gotoAddress token target,
        ← if (← types).isVoidPointer type then pure 0
          else fault target.token (.badAddressGoto type))
  | .label token name => return (.label token name, 0)
  | .switch token value body labels => do
    let (value, m) ← expr c value none
    let (valueType, m) ← if 0 < m then pure (none, m) else switchType value
    let outer := (← get).switch
    modify fun s => { s with switch := some { valueType } }
    let (body, n) ← stmt { c with isBreakable := true } body
    modify fun s => { s with switch := outer }
    return (.switch token value body labels, m + n)
  | .caseLabel token value => do
    let (value, n) ← caseValue c token value
    return (.caseLabel token value, n)
  | .defaultLabel token => do return (.defaultLabel token, ← defaultErrors token)
  | .assertion token test message => do
    let (test, n) ← condition c test
    return (.assertion token test message, n)
  | .asm token code => do
    let (code, n) ← inlineAsm c token code
    return (.asm token code, n)
  | .cleanup token body => do
    modify fun s => { s with cleanups := s.cleanups + 1 }
    let m ← if 1 < (← get).cleanups then fault token .duplicateCleanup else pure 0
    let (body, n) ← stmt c body
    return (.cleanup token body, m + n)
  | .empty token => return (.empty token, 0)
termination_by structural s => s

def stmts (c : Context) : List Stmt → Analyze (List Stmt × Nat)
  | [] => return ([], 0)
  | s :: rest => do
    let (s, m) ← stmt c s
    let (rest, n) ← stmts c rest
    return (s :: rest, m + n)
termination_by structural ss => ss

end

end CompilerCore.Analysis

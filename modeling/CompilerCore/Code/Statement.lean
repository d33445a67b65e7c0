import CompilerCore.Code.Expression

/-!
# Code for statements

A return goes to the end of the method, unless it is the last statement there is.  Cleanup
statements have code only at that end.
-/

namespace CompilerCore.Code.Gen

/-- Puts the value of a return statement where the caller expects it. -/
def storeResult (result : Option Register) : Gen Unit := do
  let d ← get
  match result, d.returnRegister with
  | some value, some target =>
    if d.returnsAggregate then copyBlock target value d.returnSize
    else moveInto target value d.returnType
  | _, _ => return ()

/-- Compares the value of a switch with its cases. -/
def dispatch (value : Register) (type : OperandType) : List (String × Int64) → Gen Unit
  | [] => return ()
  | (label, constant) :: rest => do
    let isEqual ← resultOf fun destination =>
      { opcode := .compare .eq, type, destination := some destination, sources := [value]
        immediates := [.integer constant] }
    branch .branchIfNotZero (some isEqual) .bool label
    dispatch value type rest

mutual

/-- Code for a statement, which may be the last one of the method. -/
def stmt (c : Env) : Stmt → Bool → Gen Unit
  | .expr _ e, _ => do
    let _ ← expr c e .value
    return ()
  | .block _ _ body, isTail => stmts c body isTail
  | .seq _ body, isTail => stmts c body isTail
  | .branch _ condition yes none, _ => do
    let type := c.operand (← typeOf condition)
    let test ← value c condition
    let done ← newLabel
    branch .branchIfZero (some test) type done
    stmt c yes false
    defineLabel done
  | .branch _ condition yes (some no), _ => do
    let type := c.operand (← typeOf condition)
    let test ← value c condition
    let done ← newLabel
    let otherwise ← newLabel
    branch .branchIfZero (some test) type otherwise
    stmt c yes false
    jump done
    defineLabel otherwise
    stmt c no false
    defineLabel done
  | .ret _ result, isTail => do
    match result with
    | some result => storeResult (← expr c result .value)
    | none => pure ()
    if isTail then return () else jump leaveLabel
  | .goto _ label, _ => jump label
  | .gotoAddress _ target, _ => do
    let target ← value c target
    emit { opcode := .jumpIndirect, type := .address, sources := [target] }
  | .label _ name, _ => defineLabel name
  | .switch _ selector body labels, _ => do
    match labels with
    | none => throw (.unlowered .switch)
    | some labels =>
      let type := c.operand (← typeOf selector)
      defineLabel labels.head
      let selector ← value c selector
      dispatch selector type labels.cases
      jump (labels.default.getD labels.tail)
      stmt c body false
      defineLabel labels.tail
  | .asm _ code, _ =>
    emit { opcode := .inlineAsm, type := .void, symbol := some code.template }
  | .cleanup .., _ | .empty _, _ => return ()
  | .whileLoop .., _ => throw (.unlowered .whileLoop)
  | .doLoop .., _ => throw (.unlowered .doLoop)
  | .forLoop .., _ => throw (.unlowered .forLoop)
  | .breakLoop _, _ => throw (.unlowered .breakLoop)
  | .continueLoop _, _ => throw (.unlowered .continueLoop)
  | .caseLabel .., _ => throw (.unlowered .caseLabel)
  | .defaultLabel _, _ => throw (.unlowered .defaultLabel)
  | .assertion .., _ => throw (.unlowered .assertion)
termination_by structural s => s

/-- Code for statements, the last of which may be the last one of the method. -/
def stmts (c : Env) : List Stmt → Bool → Gen Unit
  | [], _ => return ()
  | s :: rest, isTail => do
    stmt c s (isTail && rest.isEmpty)
    stmts c rest isTail
termination_by structural ss => ss

end

/-- The end of a method: the cleanup statements and the only return. -/
def leave (c : Env) (cleanup : Option Stmt) : Gen Unit := do
  defineLabel leaveLabel
  match cleanup with
  | some body => stmt c body false
  | none => pure ()
  let d ← get
  emit { opcode := .ret, type := d.returnType, sources := d.returnRegister.toList }

end CompilerCore.Code.Gen

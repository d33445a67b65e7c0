import CompilerCore.Code.Statement

/-!
# Code for programs

A module has a method for each function and, if it has variables, one that initializes them.
-/

namespace CompilerCore.Code.Gen

/-- The symbols whose address is taken. -/
def addressTaken (body : Stmt) : List SymbolId :=
  body.exprNodes.filterMap fun e =>
    match e with
    | .unary _ .address (.name _ _ (some symbol)) => some symbol
    | _ => none

/-- The first cleanup statements of a body. -/
def cleanup? (body : Stmt) : Option Stmt :=
  body.nodes.findSome? fun s =>
    match s with
    | .cleanup _ body => some body
    | _ => none

/-- Gives a parameter a register, which holds the address of a reference or an aggregate. -/
def parameter (c : Env) (id : SymbolId) : Gen Unit := do
  let symbol := c.scopes.symbol id
  match symbol.type with
  | none => throw .untyped
  | some type =>
    let register ← register .parameter
    let isIndirect := symbol.isReferenceParameter || c.types.isAggregate type
    let operand := if isIndirect then .address else c.operand type
    setStorage id (if isIndirect then .indirect register else .register register)
    modify fun d =>
      { d with
        parameters := d.parameters ++ [operand]
        locals := d.locals ++ [⟨symbol.name, register⟩] }

def parameters (c : Env) : List SymbolId → Gen Unit
  | [] => return ()
  | id :: rest => do
    parameter c id
    parameters c rest

/-- Reserves the register of the result.  The address for an aggregate is one more parameter. -/
def resultRegister (c : Env) (type : TypeId) : Gen Unit := do
  let operand := c.operand type
  modify fun d => { d with returnType := operand }
  if c.types.isAggregate type then
    let target ← register .parameter
    modify fun d =>
      { d with
        parameters := d.parameters ++ [.address]
        returnRegister := some target
        returnSize := c.types.size type
        returnsAggregate := true }
  else if operand.isVoid then return ()
  else
    let target ← register .localVar
    modify fun d => { d with returnRegister := some target }

def function (c : Env) (f : Function) : Gen Unit := do
  modify fun d => { d with addressTaken := addressTaken f.body }
  parameters c f.parameters
  resultRegister c f.returnType
  stmt c f.body true
  leave c (cleanup? f.body)

def globals (c : Env) : List Global → Gen Unit
  | [] => return ()
  | g :: rest => do
    stmt c g.statement false
    globals c rest

/-- Makes one method.  The result is the method and the statics with those it added. -/
def method (statics : StaticLayout) (name : String) (code : Gen Unit) :
    Except CompileError (Method × StaticLayout) := do
  let (_, d) ← code.run { name, statics }
  return (← toMethod d, d.statics)

/-- Reserves memory for the variables of a module. -/
def layoutGlobals (c : Env) : List Global → StaticLayout → Except CompileError StaticLayout
  | [], statics => .ok statics
  | g :: rest, statics =>
    let symbol := c.scopes.symbol g.symbol
    match symbol.type with
    | none => .error .untyped
    | some type =>
      let statics := statics.allocate symbol.name (c.types.size type) []
      layoutGlobals c rest { statics with symbols := statics.symbols ++ [(g.symbol, symbol.name)] }

def functions (c : Env) :
    List Function → StaticLayout → Except CompileError (List Method × StaticLayout)
  | [], statics => .ok ([], statics)
  | f :: rest, statics => do
    let (first, statics) ← method statics f.name (function c f)
    let (others, statics) ← functions c rest statics
    return (first :: others, statics)

end CompilerCore.Code.Gen

namespace CompilerCore

open CompilerCore.Code

def Program.compile (p : Program) (types : TypeTable) (name : String) :
    Except CompileError Module := do
  let c : Env := { scopes := p.scopes, types }
  let statics ← Gen.layoutGlobals c p.globals {}
  let (first, statics) ← if p.globals.isEmpty then pure ([], statics)
    else do
      let (m, statics) ← Gen.method statics staticInitializer do
        Gen.globals c p.globals
        Gen.leave c none
      pure ([m], statics)
  let (others, statics) ← Gen.functions c p.functions statics
  return { name, methods := (first ++ others).toArray, statics := statics.slots }

end CompilerCore

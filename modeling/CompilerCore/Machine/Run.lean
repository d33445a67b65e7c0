import CompilerCore.Machine.Effect

/-!
# Runs

A call gets a frame above its caller's: registers first, then blocks, all zero but for the
arguments.  A run first fills the statics, which lie below every frame, and then calls the entry
point.  The number of steps of a run is limited.
-/

namespace CompilerCore.Machine

open CompilerCore.Code

/-- The state of a machine, between runs and during one. -/
structure State where
  stack : Stack
  /-- The active calls, innermost first; none between runs. -/
  frames : List Frame := []
  /-- What the last call returned. -/
  result : UInt64 := 0
  /-- The steps of the current run, or of the last one. -/
  steps : Nat := 0

namespace State

def start (stackSize : Nat) : State := { stack := Stack.empty stackSize }

def passArguments : List UInt64 → Stack → Nat → Stack
  | [], stack, _ => stack
  | a :: rest, stack, base => passArguments rest (stack.setSlot base a) (base + 8)

def pushFrame (m : Module) (s : State) (callee : Nat) (arguments : List UInt64) : State :=
  let callerExtent := s.stack.extent
  let base := (callerExtent + 7) / 8 * 8
  let size := (m.methods[callee]?.map (·.frameSize.toNat)).getD 0
  let stack := passArguments arguments ((s.stack.setExtent (base + size)).zero base size) base
  { s with
    stack
    frames := { method := callee, pc := 0, base, callerExtent, pending := none } :: s.frames }

/-- Counts a step and hands the result of a finished call to the register that waits for it. -/
def begin (s : State) (frame : Frame) (callers : List Frame) : State :=
  match frame.pending with
  | some register =>
    { s with
      stack := s.stack.setSlot (frame.place register) s.result
      frames := { frame with pending := none } :: callers
      steps := s.steps + 1 }
  | none => { s with steps := s.steps + 1 }

/-- The instruction that the innermost frame performs next. -/
def fetch (m : Module) (frame : Frame) : Except Fault (Method × Instruction) :=
  match m.methods[frame.method]? with
  | some method =>
    match method.instructions[frame.pc]? with
    | some i => .ok (method, i)
    | none => .error (.codeOutOfRange method.name frame.pc)
  | none => .error (.codeOutOfRange "" frame.pc)

/-- The effect of that instruction.  The machine breaks off at a register outside its memory, where
only a frame of a size beyond the words has any. -/
def effect (m : Module) (stack : Stack) (frame : Frame) : Except Fault Effect := do
  let (method, i) ← fetch m frame
  if ∀ r ∈ i.registers, frame.place r + 8 ≤ stack.capacity then
    Effect.of { module := m, method, stack, frame } i
  else .error (.overrun (Stack.addressOf frame.base))

/-- Carries out an effect of the innermost frame. -/
def apply (m : Module) (s : State) (frame : Frame) (callers : List Frame) : Effect → State
  | .none => { s with frames := { frame with pc := frame.pc + 1 } :: callers }
  | .write register value =>
    { s with
      stack := s.stack.setSlot (frame.place register) value
      frames := { frame with pc := frame.pc + 1 } :: callers }
  | .store offset width value =>
    { s with
      stack := s.stack.put offset width value
      frames := { frame with pc := frame.pc + 1 } :: callers }
  | .copy target source size =>
    { s with
      stack := s.stack.move target source size
      frames := { frame with pc := frame.pc + 1 } :: callers }
  | .jump pc => { s with frames := { frame with pc } :: callers }
  | .call callee arguments pending =>
    pushFrame m { s with frames := { frame with pc := frame.pc + 1, pending } :: callers }
      callee arguments
  | .leave result =>
    { s with stack := s.stack.setExtent frame.callerExtent, frames := callers, result }

/-- Performs instructions until no call is active, a fault stops the run or `fuel` steps are done. -/
def finish (m : Module) (limit : Nat) (fuel : Nat) (s : State) : Except Fault Unit × State :=
  match s.frames with
  | [] => (.ok (), s)
  | frame :: callers =>
    match fuel with
    | 0 => (.error (.stepLimit limit), { s with steps := s.steps + 1 })
    | fuel + 1 =>
      let s := s.begin frame callers
      let frame := { frame with pending := none }
      match effect m s.stack frame with
      | .error fault => (.error fault, s)
      | .ok e => finish m limit fuel (s.apply m frame callers e)

/-- Calls a method and runs until it returns. -/
def execute (m : Module) (limit : Nat) (s : State) (callee : Nat) (arguments : List UInt64) :
    Except Fault Unit × State :=
  finish m limit (limit - s.steps) (pushFrame m s callee arguments)

/-- Clears the statics and gives them the contents they start with. -/
def reset (m : Module) (s : State) : State :=
  let size := m.staticSize.toNat
  let stack := (s.stack.setExtent size).zero 0 size
  { stack := m.statics.foldl (fun stack slot => stack.fill slot.offset.toNat slot.data) stack }

/-- Runs the initializer of the statics, if the module has one. -/
def initializeStatics (m : Module) (limit : Nat) (s : State) : Except Fault Unit × State :=
  match m.methodIndex? staticInitializer with
  | some index => s.execute m limit index []
  | none => (.ok (), s)

/-- Runs a method of the module, once the statics are initialized. -/
def runMethod (m : Module) (limit : Nat) (s : State) (callee : Nat) (arguments : List UInt64) :
    Except Fault Unit × State :=
  match (s.reset m).initializeStatics m limit with
  | (.ok (), s) => s.execute m limit callee arguments
  | (.error fault, s) => (.error fault, s)

/-- Runs an entry point.  The result has the 64-bit form of the method's return type. -/
def run (m : Module) (limit : Nat) (s : State) (entry : String) (arguments : List UInt64) :
    Except Fault UInt64 × State :=
  match m.methodIndex? entry with
  | none => (.error (.unknownMethod entry), s)
  | some callee =>
    match m.methods[callee]? with
    | none => (.error (.unknownMethod entry), s)
    | some method =>
      if arguments.length = method.parameters.length then
        match s.runMethod m limit callee arguments with
        | (.ok (), s) => (.ok (extend s.result method.returnType), s)
        | (.error fault, s) => (.error fault, { s with frames := [] })
      else
        (.error (.argumentCount entry method.parameters.length arguments.length), s)

end State

end CompilerCore.Machine

import CompilerCore.Proofs.Code.Bounds
import CompilerCore.Proofs.Except
import CompilerCore.Proofs.Machine.Integers
import CompilerCore.Proofs.Machine.Slots
import CompilerCore.Proofs.Machine.Steps

/-!
# One call

Most instructions read and write registers of the current call only.  Their effect is the same in
every machine whose call has the same registers, so a stretch of such code can be followed with
nothing but a place in the code and the contents of the registers.

* `Local.Step`, `Local.Runs`, `Local.Faults` — steps of a call that stays within itself.
-/

namespace CompilerCore.Machine

open CompilerCore.Code StateTransition OperandType

/-- The contents of the registers of a call. -/
abbrev Registers := Nat → UInt64

/-- What an instruction does whenever its registers have the given contents. -/
def Does (i : Instruction) (ρ : Registers) (x : Except Fault Effect) : Prop :=
  ∀ c : Effect.Context, (∀ r ∈ i.registers, c.register r = ρ r.index) → Effect.of c i = x

namespace Local

/-- One step of a call that stays within the call. -/
inductive Step (code : Array Instruction) : Nat × Registers → Nat × Registers → Prop where
  | pass {pc : Nat} {ρ : Registers} {i : Instruction} :
    code[pc]? = some i → Does i ρ (.ok .none) → Step code (pc, ρ) (pc + 1, ρ)
  | write {pc : Nat} {ρ : Registers} {i : Instruction} {r : Register} {w : UInt64} :
    code[pc]? = some i → r ∈ i.registers → Does i ρ (.ok (.write r w)) →
    Step code (pc, ρ) (pc + 1, Function.update ρ r.index w)
  | jump {pc target : Nat} {ρ : Registers} {i : Instruction} :
    code[pc]? = some i → Does i ρ (.ok (.jump target)) → Step code (pc, ρ) (target, ρ)

/-- Any number of steps within a method. -/
abbrev Runs (code : Array Instruction) : Nat × Registers → Nat × Registers → Prop :=
  Relation.ReflTransGen (Step code)

/-- The next instruction raises a fault. -/
def Faults (code : Array Instruction) (here : Nat × Registers) (fault : Fault) : Prop :=
  ∃ i, code[here.1]? = some i ∧ Does i here.2 (.error fault)

/-- The next instruction ends the call. -/
def Leaves (code : Array Instruction) (here : Nat × Registers) (result : UInt64) : Prop :=
  ∃ i, code[here.1]? = some i ∧ Does i here.2 (.ok (.leave result))

end Local

/-! ## Machines in a call -/

/-- A machine whose innermost call is at a place of a method and has the given registers. -/
def InCall (m : Module) (method : Method) (callers : List Frame) (here : Nat × Registers)
    (s : State) : Prop :=
  ∃ frame, s.frames = frame :: callers ∧ m.methods[frame.method]? = some method ∧
    frame.pc = here.1 ∧ frame.pending = none ∧
    (∀ k < method.registerCount, s.stack.slot (frame.base + k * 8) = here.2 k) ∧
    frame.base + method.registerCount * 8 ≤ s.stack.bytes.size

section

variable {m : Module} {method : Method} {callers : List Frame} {here there : Nat × Registers}
  {s : State} (hregs : ∀ i ∈ method.instructions, ∀ r ∈ i.registers, r.index < method.registerCount)

include hregs

section

variable (h : InCall m method callers here s)
include h

lemma InCall.upcoming (hi : method.instructions[here.1]? = some i) (hx : Does i here.2 x) :
    ∃ frame, s.frames = frame :: callers ∧ s.upcoming m frame callers = x := by
  obtain ⟨frame, hfs, hmeth, hpc, hpend, hslots, hsize⟩ := h
  refine ⟨frame, hfs, ?_⟩
  have hbegin : (s.begin frame callers).stack = s.stack := by simp [State.begin, hpend]
  have hwindow := hregs i (Array.mem_of_getElem? hi)
  rw [State.upcoming_eq_ite hmeth (hpc ▸ hi), if_pos fun r hr => ?_]
  · refine hx _ fun r hr => ?_
    rw [Effect.Context.register, State.context, hbegin]
    exact hslots r.index (hwindow r hr)
  · have := hwindow r hr
    rw [hbegin, Frame.place, Stack.capacity]
    omega

lemma InCall.step (hstep : Local.Step method.instructions here there) :
    ∃ t, s.next m = some t ∧ InCall m method callers there t := by
  obtain ⟨frame, hfs, hmeth, hpc, hpend, hslots, hsize⟩ := id h
  have hnext {i : Instruction} {e : Effect} (hi : method.instructions[here.1]? = some i)
      (he : Does i here.2 (.ok e)) : s.next m =
        some (.apply m { s with steps := s.steps + 1 } { frame with pending := none } callers e) := by
    obtain ⟨frame', hframes', hupcoming⟩ := h.upcoming hregs hi he
    obtain rfl : frame = frame' := by simpa [hfs] using hframes'
    simp only [State.next, hfs, hupcoming, State.begin, hpend]
  cases hstep with
  | pass hi he =>
    exact ⟨_, hnext hi he, _, rfl, hmeth, by simp [hpc], rfl, hslots, hsize⟩
  | @write _ _ i r w hi hr he =>
    refine ⟨_, hnext hi he, _, rfl, hmeth, by simp [hpc], rfl, fun k hk => ?_, ?_⟩
    · have hrk := hregs i (Array.mem_of_getElem? hi) r hr
      by_cases hkr : k = r.index
      · subst hkr
        simp only [State.apply, Frame.place, Function.update_self]
        exact Stack.slot_setSlot_self (by omega) w
      · simp only [State.apply, Frame.place, Function.update_of_ne hkr]
        rw [Stack.slot_setSlot_of_disjoint (by omega)]
        exact hslots k hk
    · simp only [State.apply, Stack.size_setSlot]
      exact hsize
  | jump hi he =>
    exact ⟨_, hnext hi he, _, rfl, hmeth, rfl, rfl, hslots, hsize⟩

lemma InCall.runs (hruns : Local.Runs method.instructions here there) :
    ∃ t, Reaches (State.next m) s t ∧ InCall m method callers there t := by
  induction hruns with
  | refl => exact ⟨s, .refl, h⟩
  | tail _ hstep ih =>
    obtain ⟨t, hreach, ht⟩ := ih
    obtain ⟨u, hnext, hu⟩ := ht.step hregs hstep
    exact ⟨u, hreach.tail hnext, hu⟩

lemma InCall.fault {fault : Fault} (hfault : Local.Faults method.instructions here fault) :
    s.fault? m = some fault := by
  obtain ⟨i, hi, hdoes⟩ := hfault
  obtain ⟨frame, hfs, hupcoming⟩ := h.upcoming hregs hi hdoes
  simp only [State.fault?, hfs, hupcoming]

lemma InCall.leave (hleave : Local.Leaves method.instructions here result) :
    ∃ t, s.next m = some t ∧ t.frames = callers ∧ t.result = result := by
  obtain ⟨i, hi, hdoes⟩ := hleave
  obtain ⟨frame, hfs, hupcoming⟩ := h.upcoming hregs hi hdoes
  refine ⟨_, by simp only [State.next, hfs, hupcoming]; rfl, ?_, ?_⟩
  · simp [State.apply]
  · simp [State.apply]

end

end

/-! ## Code that computes a value -/

namespace Local

/-- Code that leaves an integer in a register, or raises a fault.  When it goes through, control is
at `stop` and no register but the touched ones has changed. -/
def Yields (code : Array Instruction) (here : Nat × Registers) (stop : Nat) (touched : Nat → Prop)
    (target : Register) (type : OperandType) : Except Fault Int → Prop
  | .ok value => ∃ ρ, Runs code here (stop, ρ) ∧ type.read (ρ target.index) = value ∧
      ∀ k, ¬touched k → ρ k = here.2 k
  | .error fault => ∃ there, Runs code here there ∧ Faults code there fault

variable {code : Array Instruction} {pc mid stop : Nat} {ρ : Registers}
  {touched touched' : Nat → Prop} {target target' : Register}

lemma Yields.cases (h : Yields code here stop touched target type x) :
    (∃ n ρ, x = .ok n ∧ Runs code here (stop, ρ) ∧ type.read (ρ target.index) = n ∧
      ∀ k, ¬touched k → ρ k = here.2 k) ∨
    ∃ fault there, x = .error fault ∧ Runs code here there ∧ Faults code there fault := by
  cases x with
  | ok n =>
    obtain ⟨ρ, h⟩ := h
    exact .inl ⟨n, ρ, rfl, h⟩
  | error fault =>
    obtain ⟨there, h⟩ := h
    exact .inr ⟨fault, there, rfl, h⟩

lemma Yields.of_runs (hruns : Runs code here there) (hsame : ∀ k, ¬touched k → there.2 k = here.2 k)
    (h : Yields code there stop touched target type x) :
    Yields code here stop touched target type x := by
  cases x with
  | ok =>
    obtain ⟨ρ', hruns', hvalue, hframe⟩ := h
    exact ⟨ρ', hruns.trans hruns', hvalue, fun k hk => (hframe k hk).trans (hsame k hk)⟩
  | error =>
    obtain ⟨there', hruns', hfault⟩ := h
    exact ⟨there', hruns.trans hruns', hfault⟩

lemma Yields.mono (h : Yields code here stop touched target type x)
    (hsub : ∀ k, touched k → touched' k) : Yields code here stop touched' target type x := by
  cases x with
  | ok =>
    obtain ⟨ρ', hruns, hvalue, hframe⟩ := h
    exact ⟨ρ', hruns, hvalue, fun k hk => hframe k (mt (hsub k) hk)⟩
  | error => exact h

lemma Yields.then_step (h : Yields code here mid touched target type x)
    (hstep : ∀ ρ, Step code (mid, ρ) (stop, ρ)) : Yields code here stop touched target type x := by
  cases x with
  | ok =>
    obtain ⟨ρ', hruns, hvalue, hframe⟩ := h
    exact ⟨ρ', hruns.tail (hstep ρ'), hvalue, hframe⟩
  | error => exact h

lemma Yields.bind (h : Yields code here mid touched target type x)
    (hsub : ∀ k, touched k → touched' k)
    (hf : ∀ ρ, (∀ k, ¬touched k → ρ k = here.2 k) →
      Yields code (mid, ρ) stop touched' target' type' (f (type.read (ρ target.index)))) :
    Yields code here stop touched' target' type' (x >>= f) := by
  cases x with
  | ok =>
    obtain ⟨ρ', hruns, rfl, hframe⟩ := h
    exact .of_runs hruns (fun k hk => hframe k (mt (hsub k) hk)) (hf ρ' hframe)
  | error => exact h

lemma Yields.of_write (hi : code[pc]? = some i) (hdest : i.destination = some target)
    (hdoes : Does i ρ (.ok (.write target w))) (hread : type.read w = value)
    (htouched : touched target.index) :
    Yields code (pc, ρ) (pc + 1) touched target type (.ok value) := by
  have htgt : target ∈ i.registers := by simp [Instruction.registers, hdest]
  refine ⟨_, .single (.write hi htgt hdoes), by simpa using hread, fun k hk => ?_⟩
  exact Function.update_of_ne (by rintro rfl; exact hk htouched) _ _

end Local

/-! ## Single instructions -/

/-- The right operand of an instruction, given the contents of the registers. -/
def HasOperand (i : Instruction) (ρ : Registers) (w : UInt64) : Prop :=
  ∀ c : Effect.Context, (∀ r ∈ i.registers, c.register r = ρ r.index) → Effect.operand c i = .ok w

variable {i : Instruction} {ρ : Registers}

lemma HasOperand.register (h : i.sources = [left, right]) : HasOperand i ρ (ρ right.index) := by
  intro c hc
  have hright : c.register right = ρ right.index := hc right (by simp [Instruction.registers, h])
  simp [Effect.operand, Effect.source, h, hright, Effect.need]

lemma HasOperand.immediate (h : i.sources = [left]) (himm : i.immediates = [.integer value])
    (htype : i.type.IsInteger) : HasOperand i ρ value.toUInt64 := by
  intro c _
  have hkind : i.type.kind ≠ .float := by rcases htype.kind with h | h <;> simp [h]
  simp [Effect.operand, h, Effect.floatImmediate?, himm, hkind, Effect.integer, Effect.need,
    Immediate.integer?, Except.map]

lemma source_eq_ok (hc : ∀ r ∈ i.registers, c.register r = ρ r.index)
    (h : i.sources = source :: rest) : Effect.source c i 0 = .ok (ρ source.index) := by
  have hsrc : c.register source = ρ source.index := hc source (by simp [Instruction.registers, h])
  simp [Effect.source, h, hsrc, Effect.need]

lemma toDestination_eq_ok (h : i.destination = some target) (w : UInt64) :
    Effect.toDestination i w = .ok (.write target w) := by
  simp [Effect.toDestination, Effect.destination, h, Effect.need]

lemma mergeDestination_eq_ok (hc : ∀ r ∈ i.registers, c.register r = ρ r.index)
    (h : i.destination = some target) (w : UInt64) : Effect.mergeDestination c i w =
      .ok (.write target (Word.merge (ρ target.index) w i.type.width)) := by
  have htgt : c.register target = ρ target.index := hc target (by simp [Instruction.registers, h])
  simp [Effect.mergeDestination, Effect.destination, h, Effect.need, htgt]

lemma branch_eq_ok (h : i.immediates.head? = some (.offset label)) :
    Effect.branch i = .ok (.jump label) := by
  simp [Effect.branch, Effect.target, h]

namespace Local

variable {code : Array Instruction} {pc : Nat} {touched : Nat → Prop}
  {i : Instruction} {target source : Register}

section

variable (hi : code[pc]? = some i) (hdest : i.destination = some target)
  (htouched : touched target.index)

include hi hdest htouched

lemma yields_loadImmediate (hop : i.opcode = .loadImmediate)
    (himm : i.immediates = [.integer value]) (htype : i.type.IsInteger) :
    Yields code (pc, ρ) (pc + 1) touched target i.type (.ok (i.type.reduce value.toInt)) := by
  refine .of_write (w := extend value.toUInt64 i.type) hi hdest (fun c _ => ?_) ?_ htouched
  · have hkind : i.type.kind ≠ .float := by rcases htype.kind with h | h <;> simp [h]
    simp [Effect.of, hop, Effect.floatImmediate?, himm, hkind, Effect.integer, Effect.need,
      Immediate.integer?, toDestination_eq_ok hdest]
  · rw [extend_eq htype, read_word htype, read_toUInt64 htype,
      reduce_reduce]

lemma yields_move (type : OperandType) (hop : i.opcode = .move) (hsrcs : i.sources = [source]) :
    Yields code (pc, ρ) (pc + 1) touched target type (.ok (type.read (ρ source.index))) := by
  refine .of_write hi hdest (fun c hc => ?_) rfl htouched
  simp [Effect.of, hop, source_eq_ok hc hsrcs, toDestination_eq_ok hdest]

lemma yields_arith (hop : i.opcode = .arith op) (hsrcs : i.sources = source :: rest)
    (hoper : HasOperand i ρ w) (htype : i.type.IsInteger) :
    Yields code (pc, ρ) (pc + 1) touched target i.type
      (i.type.arith op (i.type.read (ρ source.index)) (i.type.read w)) := by
  rw [← map_read_binary htype]
  have hof (c : Effect.Context) (hc : ∀ r ∈ i.registers, c.register r = ρ r.index) :
      Effect.of c i = (binary (.arith op) i.type (ρ source.index) w).map fun value =>
        .write target (Word.merge (ρ target.index) value i.type.width) := by
    cases hbinary : binary (.arith op) i.type (ρ source.index) w <;>
      simp [Effect.of, hop, source_eq_ok hc hsrcs, hoper c hc, hbinary, mergeDestination_eq_ok hc hdest,
        Except.map]
  cases hbinary : binary (.arith op) i.type (ρ source.index) w with
  | ok value =>
    refine .of_write hi hdest (fun c hc => ?_) (read_merge htype (ρ target.index) value)
      htouched
    rw [hof c hc, hbinary]
    rfl
  | error =>
    refine ⟨_, .refl, i, hi, fun c hc => ?_⟩
    rw [hof c hc, hbinary]
    rfl

lemma yields_compare (hop : i.opcode = .compare rel) (hsrcs : i.sources = source :: rest)
    (hoper : HasOperand i ρ w) (htype : i.type.IsInteger) :
    Yields code (pc, ρ) (pc + 1) touched target .bool
      (.ok (rel.test (i.type.read (ρ source.index)) (i.type.read w)).toInt) := by
  refine .of_write hi hdest (fun c hc => ?_) (read_bool _) htouched
  simp [Effect.of, hop, source_eq_ok hc hsrcs, hoper c hc, compare_eq htype,
    toDestination_eq_ok hdest]

lemma yields_unary (hop : i.opcode = opcode) (hopcode : opcode = .negate ∨ opcode = .bitwiseNot)
    (hsrcs : i.sources = [source]) (htype : i.type.IsInteger)
    (hvalue : (unary opcode i.type (ρ source.index)).map i.type.read = .ok value) :
    Yields code (pc, ρ) (pc + 1) touched target i.type (.ok value) := by
  cases hunary : unary opcode i.type (ρ source.index) with
  | error =>
    rw [hunary] at hvalue
    cases hvalue
  | ok w =>
    rw [hunary] at hvalue
    have hread : i.type.read (Word.merge (ρ target.index) w i.type.width) = value :=
      (read_merge htype _ w).trans (Except.ok.inj hvalue)
    refine .of_write hi hdest (fun c hc => ?_) hread htouched
    subst hop
    rcases hopcode with hop | hop <;> rw [hop] at hunary <;>
      simp [Effect.of, hop, source_eq_ok hc hsrcs, hunary, mergeDestination_eq_ok hc hdest]

lemma yields_logicalNot (hop : i.opcode = .logicalNot) (hsrcs : i.sources = [source])
    (htype : i.type.IsInteger) : Yields code (pc, ρ) (pc + 1) touched target .bool
      (.ok (decide (i.type.read (ρ source.index) = 0)).toInt) := by
  refine .of_write hi hdest (fun c hc => ?_) (read_bool _) htouched
  simp [Effect.of, hop, source_eq_ok hc hsrcs, isZero_eq htype,
    toDestination_eq_ok hdest]

lemma yields_convert (hop : i.opcode = .convert) (hsrcs : i.sources = [source])
    (htypes : i.sourceTypes = [type]) (htype : i.type.IsInteger) (hsrc : type.IsInteger) :
    Yields code (pc, ρ) (pc + 1) touched target i.type
      (.ok (i.type.reduce (type.read (ρ source.index)))) := by
  refine .of_write (w := word (i.type.reduce (type.read (ρ source.index)))) hi hdest
    (fun c hc => ?_) ?_ htouched
  · simp [Effect.of, hop, source_eq_ok hc hsrcs, htypes, convert_eq hsrc htype,
      toDestination_eq_ok hdest, Effect.need]
  · rw [read_word htype, reduce_reduce]

end

/-! ## Branches -/

lemma step_jump (hi : code[pc]? = some i) (hop : i.opcode = .jump)
    (himm : i.immediates.head? = some (.offset label)) : Step code (pc, ρ) (label, ρ) := by
  refine .jump hi fun c _ => ?_
  simp [Effect.of, hop, branch_eq_ok himm]

lemma step_branch (onZero : Bool) (hi : code[pc]? = some i)
    (hop : i.opcode = if onZero then .branchIfZero else .branchIfNotZero)
    (himm : i.immediates.head? = some (.offset label)) (hsrcs : i.sources = [source])
    (htype : i.type = type) (hint : type.IsInteger) :
    Step code (pc, ρ)
      (if decide (type.read (ρ source.index) = 0) = onZero then label else pc + 1, ρ) := by
  subst htype
  have hof (c : Effect.Context) (hc : ∀ r ∈ i.registers, c.register r = ρ r.index) :
      Effect.of c i = .ok (if decide (i.type.read (ρ source.index) = 0) = onZero then .jump label
        else .none) := by
    cases onZero <;> by_cases hzero : i.type.read (ρ source.index) = 0 <;>
      simp [Effect.of, hop, source_eq_ok hc hsrcs, isZero_eq hint, hzero, branch_eq_ok himm]
  split
  · next hholds => exact .jump hi fun c hc => by rw [hof c hc, if_pos hholds]
  · next hholds => exact .pass hi fun c hc => by rw [hof c hc, if_neg hholds]

lemma leaves_ret (hi : code[pc]? = some i) (hop : i.opcode = .ret) (hsrcs : i.sources = [source]) :
    Leaves code (pc, ρ) (ρ source.index) := by
  refine ⟨i, hi, fun c hc => ?_⟩
  have hsrc : c.register source = ρ source.index :=
    hc source (by simp [Instruction.registers, hsrcs])
  simp [Effect.of, hop, hsrcs, hsrc]

lemma leaves_ret_nil (hi : code[pc]? = some i) (hop : i.opcode = .ret) (hsrcs : i.sources = []) :
    Leaves code (pc, ρ) 0 :=
  ⟨i, hi, fun c _ => by simp [Effect.of, hop, hsrcs]⟩

end Local

end CompilerCore.Machine

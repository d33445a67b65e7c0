import CompilerCore.Demo
import CompilerCore.Proofs.Code.Closed
import CompilerCore.Proofs.Machine.Steps

/-!
# Closed modules run safely

While a closed module runs, every active call stands at an instruction of its method, and every
register that is read or written belongs to the window of its frame.  So no run leaves its code or
asks for a static that does not exist.  When the instructions are formed as well, each of them can be
performed.
-/

namespace CompilerCore.Machine

open CompilerCore.Code StateTransition Option State

/-! ## The effects of an instruction -/

/-- Faults that show that control or a name has left the module, and instructions that cannot be
performed, when that counts. -/
def Fault.IsGrave (strict : Prop) : Fault → Prop
  | .codeOutOfRange .. | .unknownStatic _ => True
  | .malformed _ => strict
  | _ => False

/-- Faults that show that control or a name has left the module. -/
def Fault.IsEscape : Fault → Prop := IsGrave False

/-- A step that reports no grave fault. -/
def Tame (strict : Prop) {α : Type} (x : Except Fault α) : Prop :=
  ∀ fault, x = .error fault → ¬fault.IsGrave strict

variable {strict : Prop}

namespace Tame

variable {α β : Type} {fault : Fault} {x : Except Fault α}

lemma ok (a : α) : Tame strict (.ok a : Except Fault α) := nofun

lemma error (h : ¬fault.IsGrave strict) : Tame strict (.error fault : Except Fault α) := by
  rintro _ ⟨⟩
  exact h

lemma map (hx : Tame strict x) (f : α → β) : Tame strict (x.map f) := by
  cases x with
  | ok => exact .ok _
  | error fault => exact .error (hx fault rfl)

end Tame

lemma Tame.ite [Decidable p] (hx : Tame strict x) (hy : Tame strict y) :
    Tame strict (if p then x else y) := by
  split
  · exact hx
  · exact hy

lemma signed_tame : Tame strict (signed op a b) := by
  cases op with
  | div | rem => exact .ite (.error id) (.ok _)
  | _ => exact .ok _

lemma unsigned_tame : Tame strict (unsigned op a b) := by
  cases op with
  | div | rem => exact .ite (.error id) (.ok _)
  | _ => exact .ok _

lemma binary_tame (h : strict → type.kind ≠ .float ∨ op.group = .numeric) :
    Tame strict (binary (.arith op) type lhs rhs) := by
  unfold binary
  cases hkind : type.kind with
  | vector => exact .error id
  | signed => exact .map signed_tame _
  | unsigned => exact unsigned_tame
  | float =>
    dsimp only
    split
    · exact .ok _
    · next hnone =>
      refine .error fun hstrict => ?_
      have hgroup := (h hstrict).resolve_left (· hkind)
      cases op <;> simp [ArithOp.group, floating?] at hgroup hnone

lemma unary_tame (hop : opcode = .negate ∨ opcode = .bitwiseNot)
    (h : strict → opcode = .negate ∨ type.kind ≠ .float) :
    Tame strict (unary opcode type operand) := by
  unfold unary
  obtain rfl | rfl := hop
  · cases type.kind with
    | vector => exact .error id
    | _ => exact .ok _
  · cases hkind : type.kind with
    | vector => exact .error id
    | float => exact .error fun hstrict => (h hstrict).elim nofun (· hkind)
    | _ => exact .ok _

lemma compare_tame : Tame strict (compare (.compare rel) type lhs rhs) := by
  unfold compare
  cases type.kind with
  | vector => exact .error id
  | _ => exact .ok _

lemma convert_tame : Tame strict (convert value source target) := by
  unfold convert
  extract_lets converted
  clear_value converted
  split
  · exact .ok _
  · exact .error id

lemma locate_tame {stack : Stack} {address size : UInt64} :
    Tame strict (stack.locate address size) :=
  .ite (.error id) (.ite (.error id) (.ite (.error id) (.ite (.error id) (.ok _))))

lemma span_tame {stack : Stack} {address : UInt64} {size : Nat} :
    Tame strict (stack.span address size) := by
  intro fault h
  obtain h | ⟨_, -, h⟩ := error_of_bind h
  · exact locate_tame fault h
  · exact Tame.ite (.error id) (.ok _) fault h

lemma spans_tame {stack : Stack} {target source : UInt64} {size : Nat} :
    Tame strict (stack.spans target source size) := by
  intro fault h
  obtain h | ⟨_, -, h⟩ := error_of_bind h
  · exact locate_tame fault h
  obtain h | ⟨_, -, h⟩ := error_of_bind h
  · exact locate_tame fault h
  · exact Tame.ite (.error id) (.ok _) fault h

lemma le_of_span {stack : Stack} (h : stack.span address size = .ok offset) :
    offset + size ≤ stack.extent := by
  obtain ⟨_, -, h⟩ := ok_of_bind h
  split at h
  · cases h
  · next hle =>
    cases h
    exact Nat.le_of_not_lt hle

lemma le_of_spans {stack : Stack} (h : stack.spans target source size = .ok places) :
    places.1 + size ≤ stack.extent ∧ places.2 + size ≤ stack.extent := by
  obtain ⟨_, -, h⟩ := ok_of_bind h
  obtain ⟨_, -, h⟩ := ok_of_bind h
  split at h
  · cases h
  · cases h
    omega

namespace Effect

variable {c : Context} {i : Instruction}

lemma need_tame (h : strict → o.isSome) : Tame strict (need i o) := by
  cases o with
  | none => exact .error fun hstrict => nomatch h hstrict
  | some a => exact .ok a

lemma source_tame (h : strict → k < i.sources.length) : Tame strict (source c i k) :=
  need_tame fun hstrict => by simp [h hstrict]

lemma integer_tame (hfloat : floatImmediate? i = Option.none) (h : strict → i.hasNumber = true) :
    Tame strict (integer i) := by
  refine need_tame fun hstrict => ?_
  have hnumber := h hstrict
  unfold Instruction.hasNumber at hnumber
  unfold floatImmediate? at hfloat
  cases himm : i.immediates.head? with
  | none => simp [himm] at hnumber
  | some immediate =>
    cases immediate with
    | integer => rfl
    | float => simp [himm] at hfloat
    | offset => simp [himm] at hnumber

lemma operand_tame (h : strict → 1 < i.sources.length ∨ i.hasNumber = true) :
    Tame strict (operand c i) := by
  unfold operand
  split
  · next hlt => exact source_tame fun _ => hlt
  · next hlt =>
    split
    · exact .ok _
    · next hfloat => exact .map (integer_tame hfloat fun hstrict => (h hstrict).resolve_left hlt) _

lemma target_tame (h : strict → i.immediates.head?.any (· matches .offset _) = true) :
    Tame strict (target i) := by
  unfold target
  split
  · exact .ok _
  · next hoff =>
    refine .map (need_tame fun hstrict => ?_) _
    obtain ⟨immediate, himm, hmatch⟩ := (any_eq_true _ _).1 (h hstrict)
    cases immediate with
    | offset index => exact absurd himm (hoff index)
    | integer | float => cases hmatch

/-- The effects that an instruction can have.  What it writes to memory lies below the extent. -/
inductive IsOf (c : Context) (i : Instruction) : Effect → Prop where
  | none : i.opcode ≠ .ret → IsOf c i .none
  | write {r : Register} {value : UInt64} :
    i.opcode ≠ .ret → i.destination = some r → IsOf c i (.write r value)
  | store {offset width : Nat} {value : UInt64} :
    i.opcode ≠ .ret → offset + width ≤ c.stack.extent → IsOf c i (.store offset width value)
  | copy {target source size : Nat} : i.opcode ≠ .ret → target + size ≤ c.stack.extent →
    source + size ≤ c.stack.extent → IsOf c i (.copy target source size)
  | jump {index : Nat} :
    i.opcode.isBranch = true → target i = .ok index → IsOf c i (.jump index)
  | call {name : String} {callee : Nat} {arguments : List UInt64} :
    i.opcode ≠ .ret → c.module.methodIndex? name = some callee →
    arguments.length = (c.module.methods[callee]?.map (·.parameters.length)).getD 0 →
    IsOf c i (.call callee arguments i.destination)
  | leave {value : UInt64} : i.opcode = .ret → IsOf c i (.leave value)

/-- An instruction that does what it can do or reports no grave fault. -/
def Behaves (strict : Prop) (c : Context) (i : Instruction) (x : Except Fault Effect) : Prop :=
  Tame strict x ∧ ∀ e, x = .ok e → IsOf c i e

namespace Behaves

lemma ok (h : IsOf c i e) : Behaves strict c i (.ok e) :=
  ⟨.ok e, by rintro _ ⟨⟩; exact h⟩

lemma error (h : ¬fault.IsGrave strict) : Behaves strict c i (.error fault) :=
  ⟨.error h, nofun⟩

lemma bind (hx : Tame strict x) (hf : ∀ a, x = .ok a → Behaves strict c i (f a)) :
    Behaves strict c i (x >>= f) := by
  refine ⟨fun fault h => ?_, fun e h => ?_⟩
  · obtain h | ⟨a, ha, h⟩ := error_of_bind h
    · exact hx fault h
    · exact (hf a ha).1 fault h
  · obtain ⟨a, ha, h⟩ := ok_of_bind h
    exact (hf a ha).2 e h

lemma ite [Decidable p] (hx : Behaves strict c i x) (hy : Behaves strict c i y) :
    Behaves strict c i (if p then x else y) := by
  split
  · exact hx
  · exact hy

end Behaves

lemma destination_eq (h : destination i = .ok r) : i.destination = some r := by
  unfold destination need at h
  split at h
  · next heq => rw [heq, Except.ok.inj h]
  · cases h

lemma toDestination_behaves (c : Context) (hop : i.opcode ≠ .ret)
    (h : strict → i.destination.isSome) (value : UInt64) :
    Behaves strict c i (toDestination i value) :=
  .bind (need_tame h) fun _ hr => .ok (.write hop (destination_eq hr))

lemma mergeDestination_behaves (hop : i.opcode ≠ .ret)
    (h : strict → i.destination.isSome) :
    Behaves strict c i (mergeDestination c i value) :=
  .bind (need_tame h) fun _ hr => .ok (.write hop (destination_eq hr))

lemma branch_behaves (hop : i.opcode.isBranch = true)
    (h : strict → i.immediates.head?.any (· matches .offset _) = true) :
    Behaves strict c i (branch i) :=
  .bind (target_tame h) fun _ hindex => .ok (.jump hop hindex)

lemma block_tame
    (h : ∃ index < c.method.blocks.length, i.immediates = [.integer (Int64.ofNat index)])
    (hvalue : integer i = .ok value) :
    Tame strict (need i c.method.blocks[value.toUInt64.toNat]?) := by
  obtain ⟨index, hlt, himm⟩ := h
  obtain rfl : Int64.ofNat index = value := by
    simpa [integer, need, himm, Immediate.integer?] using hvalue
  have hle : (Int64.ofNat index).toUInt64.toNat ≤ index := Nat.mod_le _ _
  refine need_tame fun _ => ?_
  rw [List.getElem?_eq_getElem (hle.trans_lt hlt)]
  rfl

lemma of_behaves (hblock : i.opcode = .blockAddress →
      ∃ index < c.method.blocks.length, i.immediates = [.integer (Int64.ofNat index)])
    (hstatic : i.opcode = .staticAddress →
      ∃ name, i.symbol = some name ∧ ∃ slot, c.module.static? name = some slot)
    (hform : strict → i.isFormed = true) : Behaves strict c i (of c i) := by
  have hfirst (h : (!i.sources.isEmpty) = true) : 0 < i.sources.length := by
    simpa [List.length_pos_iff] using h
  unfold of
  unfold Instruction.isFormed Instruction.hasOperands at hform
  cases hop : i.opcode with
    simp only [hop, Bool.and_eq_true, Bool.or_eq_true, decide_eq_true_eq, bne_iff_ne] at hform
  | nop => exact .ok (.none (by simp [hop]))
  | loadImmediate =>
    have hwrite (value : UInt64) := toDestination_behaves c (by simp [hop]) (fun h => (hform h).1) value
    dsimp only
    split
    · exact hwrite _
    · next hfloat => exact .bind (integer_tame hfloat fun h => (hform h).2) fun _ _ => hwrite _
  | move =>
    exact .bind (source_tame fun h => hfirst (hform h).2) fun value _ =>
      toDestination_behaves c (by simp [hop]) (fun h => (hform h).1) value
  | arith =>
    refine .bind (source_tame fun h => hfirst (hform h).1.1.2) fun lhs _ =>
      .bind (operand_tame fun h => (hform h).1.2) fun rhs _ => ?_
    exact .bind (binary_tame (fun h => (hform h).2)) fun value _ =>
      mergeDestination_behaves (by simp [hop]) (fun h => (hform h).1.1.1)
  | negate =>
    refine .bind (source_tame fun h => hfirst (hform h).2) fun operand _ => ?_
    exact .bind (unary_tame (.inl rfl) (fun _ => .inl rfl)) fun value _ =>
      mergeDestination_behaves (by simp [hop]) (fun h => (hform h).1)
  | bitwiseNot =>
    refine .bind (source_tame fun h => hfirst (hform h).1.2) fun operand _ => ?_
    exact .bind (unary_tame (.inr rfl) (fun h => .inr (hform h).2)) fun value _ =>
      mergeDestination_behaves (by simp [hop]) (fun h => (hform h).1.1)
  | logicalNot =>
    exact .bind (source_tame fun h => hfirst (hform h).2) fun value _ =>
      toDestination_behaves c (by simp [hop]) (fun h => (hform h).1) _
  | compare =>
    refine .bind (source_tame fun h => hfirst (hform h).1.2) fun lhs _ =>
      .bind (operand_tame fun h => (hform h).2) fun rhs _ => ?_
    exact .bind compare_tame fun value _ =>
      toDestination_behaves c (by simp [hop]) (fun h => (hform h).1.1) _
  | convert =>
    refine .bind (need_tame fun h => ?_) fun type _ =>
      .bind (source_tame fun h => hfirst (hform h).1.2) fun value _ => ?_
    · simpa [List.isSome_head?] using (hform h).2
    · exact .bind convert_tame fun value _ =>
        toDestination_behaves c (by simp [hop]) (fun h => (hform h).1.1) value
  | load =>
    refine .bind (source_tame fun h => hfirst (hform h).2) fun address _ => ?_
    exact .bind (.map span_tame _) fun value _ =>
      toDestination_behaves c (by simp [hop]) (fun h => (hform h).1) _
  | store =>
    refine .bind (source_tame fun h => Nat.zero_lt_of_lt (hform h)) fun address _ =>
      .bind (source_tame hform) fun value _ => ?_
    exact .bind span_tame fun _ hoff => .ok (.store (by simp [hop]) (le_of_span hoff))
  | registerAddress =>
    exact .bind (need_tame fun h => (hform h).2) fun index _ =>
      toDestination_behaves c (by simp [hop]) (fun h => (hform h).1) _
  | blockAddress =>
    refine .bind (need_tame fun h => (hform h).2) fun index hindex => ?_
    exact .bind (block_tame (hblock hop) hindex) fun block _ =>
      toDestination_behaves c (by simp [hop]) (fun h => (hform h).1) _
  | staticAddress =>
    obtain ⟨name, hsym, slot, hslot⟩ := hstatic hop
    refine .bind (need_tame fun h => (hform h).2) fun name' hname => ?_
    obtain rfl : name = name' := by simpa [symbol, need, hsym] using hname
    rw [hslot]
    exact toDestination_behaves c (by simp [hop]) (fun h => (hform h).1) _
  | functionAddress =>
    refine .bind (need_tame fun h => (hform h).2) fun name _ => ?_
    split
    · exact toDestination_behaves c (by simp [hop]) (fun h => (hform h).1) _
    · exact .error id
  | blockCopy =>
    refine .bind (source_tame fun h => Nat.zero_lt_of_lt (hform h).1) fun target _ =>
      .bind (source_tame fun h => (hform h).1) fun origin _ => ?_
    refine .bind (need_tame fun h => (hform h).2) fun size _ =>
      .bind spans_tame fun places hplaces => ?_
    obtain ⟨htgt, hsrc⟩ := le_of_spans hplaces
    exact .ok (.copy (by simp [hop]) htgt hsrc)
  | jump => exact branch_behaves (by simp [hop, Opcode.isBranch]) hform
  | branchIfZero =>
    exact .bind (source_tame fun h => hfirst (hform h).1) fun value _ => .ite
      (branch_behaves (by simp [hop, Opcode.isBranch]) fun h => (hform h).2)
      (.ok (.none (by simp [hop])))
  | branchIfNotZero =>
    exact .bind (source_tame fun h => hfirst (hform h).1) fun value _ => .ite
      (.ok (.none (by simp [hop])))
      (branch_behaves (by simp [hop, Opcode.isBranch]) fun h => (hform h).2)
  | jumpIndirect => exact .error id
  | call =>
    refine .bind (need_tame hform) fun name _ => ?_
    dsimp only
    split
    · exact .error id
    · next callee hcallee =>
      split
      · next hcount => exact .ok (.call (by simp [hop]) hcallee hcount)
      · exact .error id
  | ret => exact .ok (.leave hop)
  | abort | debugTrap | inlineAsm => exact .error id

end Effect

/-! ## Valid frames -/

/-- A call that stands at an instruction of its method and waits at most for a register of its own. -/
structure Frame.Valid (m : Module) (method : Method) (f : Frame) : Prop where
  found : m.methods[f.method]? = some method
  pc : f.pc < method.instructions.size
  pending : ∀ r ∈ f.pending, r.index < method.registerCount

/-- Each frame of the stack runs a method of the module and fits it. -/
def State.Valid (m : Module) (s : State) : Prop := ∀ f ∈ s.frames, ∃ method, f.Valid m method

lemma methodIndex?_valid {m : Module} (h : m.methodIndex? name = some callee) :
    ∃ method, m.methods[callee]? = some method := by
  obtain ⟨hlt, -⟩ := Array.findIdx?_eq_some_iff_getElem.1 h
  exact ⟨m.methods[callee], Array.getElem?_eq_getElem hlt⟩

lemma name_of_methodIndex? {m : Module} (h : m.methodIndex? name = some callee)
    (hmethod : m.methods[callee]? = some method) : method.name = name := by
  obtain ⟨hlt, hname, -⟩ := Array.findIdx?_eq_some_iff_getElem.1 h
  obtain rfl : m.methods[callee] = method := Option.some.inj ((Array.getElem?_eq_getElem hlt) ▸ hmethod)
  exact beq_iff_eq.1 hname

section

variable {m : Module} (hm : m.Closed) {method : Method} {s t : State} {frame : Frame}
  {callers : List Frame}

include hm

section

variable {k : Nat} (h : m.methods[k]? = some method)
include h

lemma closed_of_getElem? : method.Closed m.statics :=
  hm method (Array.mem_of_getElem? h)

lemma size_pos_of_getElem? : 0 < method.instructions.size := by
  obtain ⟨body, last, hcode, -⟩ := (closed_of_getElem? hm h).returns
  simp [hcode]

lemma succ_lt_size (hi : method.instructions[pc]? = some i) (hop : i.opcode ≠ .ret) :
    pc + 1 < method.instructions.size := by
  obtain ⟨body, last, hcode, hlast, -⟩ := (closed_of_getElem? hm h).returns
  rw [hcode, Array.getElem?_push] at hi
  split at hi
  · obtain rfl := Option.some.inj hi
    exact absurd hlast hop
  · obtain ⟨hlt, -⟩ := Array.getElem?_eq_some_iff.1 hi
    simp [hcode, hlt]

lemma target_lt_size (hi : i ∈ method.instructions) (hop : i.opcode.isBranch = true)
    (hindex : Effect.target i = .ok index) : index < method.instructions.size := by
  obtain ⟨target, hlt, himm⟩ := (closed_of_getElem? hm h).branches i hi hop
  have hindex : target = index := by simpa [Effect.target, himm] using hindex
  exact hindex ▸ hlt

end

lemma upcoming_behaves (hform : strict → m.Formed)
    (hframe : frame.Valid m method) : ∃ i, method.instructions[frame.pc]? = some i ∧
      Effect.Behaves strict (s.context m frame callers method) i (s.upcoming m frame callers) := by
  obtain ⟨i, hi⟩ : ∃ i, method.instructions[frame.pc]? = some i :=
    ⟨_, Array.getElem?_eq_getElem hframe.pc⟩
  refine ⟨i, hi, ?_⟩
  have hmem := Array.mem_of_getElem? hi
  have hfits := (closed_of_getElem? hm hframe.found).fits i hmem
  rw [upcoming_eq_ite hframe.found hi]
  split
  case isFalse => exact .error id
  refine Effect.of_behaves hfits.blockAddress (fun hop => ?_) fun hstrict =>
    hform hstrict method (Array.mem_of_getElem? hframe.found) i hmem
  obtain ⟨name, hsym, slot, hslot, hname⟩ := hfits.staticAddress hop
  refine ⟨name, hsym, isSome_iff_exists.1 ?_⟩
  exact List.find?_isSome.2 ⟨slot, hslot, by simp [hname]⟩

lemma upcoming_isOf (s : State) (callers : List Frame) (hframe : frame.Valid m method) :
    ∃ i, method.instructions[frame.pc]? = some i ∧ ∀ e, s.upcoming m frame callers = .ok e →
      Effect.IsOf (s.context m frame callers method) i e := by
  obtain ⟨i, hi, -, hok⟩ := upcoming_behaves hm False.elim hframe
  exact ⟨i, hi, hok⟩

lemma pushFrame_valid {callee : Nat} (hcallee : m.methods[callee]? = some method)
    (hs : s.Valid m) (args : List UInt64) : (s.pushFrame m callee args).Valid m := by
  intro f hf
  obtain rfl | hf := List.mem_cons.1 hf
  · exact ⟨method, hcallee, size_pos_of_getElem? hm hcallee, by simp⟩
  · exact hs f hf

lemma next_valid (hs : s.Valid m) (h : s.next m = some t) : t.Valid m := by
  unfold next at h
  split at h
  · cases h
  · next frame callers hfs =>
    obtain ⟨method, hframe⟩ := hs frame (by simp [hfs])
    have hcallers (f : Frame) (hf : f ∈ callers) : ∃ method, f.Valid m method :=
      hs f (by simp [hfs, hf])
    obtain ⟨i, hi, hok⟩ := upcoming_isOf hm s callers hframe
    split at h
    · next e he =>
      obtain rfl := some.inj h
      have hgo (pc : Nat) (hpc : pc < method.instructions.size) (pending : Option Register)
          (hpend : ∀ r ∈ pending, r.index < method.registerCount) :
          ∀ f ∈ { frame with pc, pending } :: callers, ∃ method, f.Valid m method := by
        intro f hf
        obtain rfl | hf := List.mem_cons.1 hf
        · exact ⟨method, hframe.found, hpc, hpend⟩
        · exact hcallers f hf
      have hsucc (hop : i.opcode ≠ .ret) := succ_lt_size hm hframe.found hi hop
      cases hok e he with
      | none hop | write hop | store hop | copy hop => exact hgo _ (hsucc hop) none (by simp)
      | jump hop hvalue =>
        exact hgo _ (target_lt_size hm hframe.found (Array.mem_of_getElem? hi) hop hvalue) none
          (by simp)
      | call hop hcallee =>
        obtain ⟨calleeMethod, hget⟩ := methodIndex?_valid hcallee
        refine pushFrame_valid hm hget ?_ _
        refine hgo _ (hsucc hop) i.destination fun r hr => ?_
        have hfits := (closed_of_getElem? hm hframe.found).fits i (Array.mem_of_getElem? hi)
        exact hfits.registers r (List.mem_append.2 (.inl (mem_toList.2 hr)))
      | leave => exact hcallers
    · cases h

lemma fault_not_isGrave (hform : strict → m.Formed) (hs : s.Valid m) (h : s.fault? m = some fault) :
    ¬fault.IsGrave strict := by
  unfold fault? at h
  split at h
  · cases h
  · next frame callers hfs =>
    obtain ⟨method, hframe⟩ := hs frame (by simp [hfs])
    obtain ⟨i, -, htame, -⟩ := upcoming_behaves hm hform hframe
    split at h
    · cases h
    · next he =>
      obtain rfl := some.inj h
      exact htame _ he

/-- What a run keeps: by induction over its steps, every state that it reaches is valid. -/
lemma reaches_valid (hs : s.Valid m) (h : Reaches (next m) s t) : t.Valid m := by
  induction h with
  | refl => exact hs
  | tail _ hstep ih => exact next_valid hm ih hstep

end

/-! ## Register accesses -/

/-- Whether a register lies in the window that a frame has for the registers of its method. -/
def Frame.InWindow (m : Module) (f : Frame) (r : Register) : Prop :=
  ∃ method, m.methods[f.method]? = some method ∧
    f.base ≤ f.place r ∧ f.place r + 8 ≤ f.base + method.registerCount * 8

lemma Frame.inWindow_of_lt {f : Frame} {method : Method} (h : m.methods[f.method]? = some method)
    (hr : r.index < method.registerCount) : f.InWindow m r := by
  refine ⟨method, h, Nat.le_add_right .., ?_⟩
  unfold Frame.place
  omega

/-- The registers that one step reads or writes. -/
inductive State.Accesses (m : Module) (s : State) : Frame → Register → Prop where
  /-- The register that gets the result of a finished call. -/
  | pending {f : Frame} {callers : List Frame} {r : Register} :
    s.frames = f :: callers → r ∈ f.pending → Accesses m s f r
  /-- A source or the destination of the instruction. -/
  | named {f : Frame} {callers : List Frame} {method : Method} {i : Instruction} {r : Register} :
    s.frames = f :: callers → State.fetch m f = .ok (method, i) → r ∈ i.registers →
    Accesses m s f r
  /-- A register of a called method that gets an argument. -/
  | argument {f f' : Frame} {callers : List Frame} {callee k : Nat} {arguments : List UInt64}
      {result : Option Register} {t : State} :
    s.frames = f :: callers → s.upcoming m f callers = .ok (.call callee arguments result) →
    s.next m = some t → t.frames.head? = some f' → k < arguments.length →
    Accesses m s f' ⟨k, .parameter⟩

section

variable {m : Module} (hm : m.Closed) {s t : State}

include hm

lemma accesses_inWindow (hs : s.Valid m) {f : Frame} {r : Register} (h : s.Accesses m f r) :
    f.InWindow m r := by
  cases h with
  | pending hfs hr =>
    obtain ⟨method, hframe⟩ := hs f (by simp [hfs])
    exact Frame.inWindow_of_lt hframe.found (hframe.pending r hr)
  | named hfs hfetch hr =>
    obtain ⟨method, hframe⟩ := hs f (by simp [hfs])
    unfold fetch at hfetch
    rw [hframe.found] at hfetch
    dsimp only at hfetch
    split at hfetch
    · next hi =>
      cases hfetch
      have hfits := (closed_of_getElem? hm hframe.found).fits _ (Array.mem_of_getElem? hi)
      exact Frame.inWindow_of_lt hframe.found (hfits.registers r hr)
    · cases hfetch
  | @argument caller _ callers _ _ _ _ _ hfs hcall hnext hhead _ =>
    obtain ⟨method, hframe⟩ := hs caller (by simp [hfs])
    obtain ⟨i, -, hok⟩ := upcoming_isOf hm s callers hframe
    cases hok _ hcall with
    | call _ hcallee hcount =>
      obtain ⟨calleeMethod, hget⟩ := methodIndex?_valid hcallee
      simp only [next, hfs, hcall] at hnext
      obtain rfl := some.inj hnext
      obtain rfl := some.inj hhead
      refine Frame.inWindow_of_lt hget ?_
      have hle := (closed_of_getElem? hm hget).parameters
      simp only [hget, map_some, getD_some] at hcount
      dsimp only
      omega

end

/-! ## Whole runs -/

/-- The calls that a run makes itself, with the states in which it makes them: first of the
initializer of the statics, then of the entry point. -/
inductive State.Enters (m : Module) (limit : Nat) (s : State) (entry : String)
    (arguments : List UInt64) : State → Nat → List UInt64 → Prop where
  | initializer {index callee : Nat} {method : Method} :
    m.methodIndex? entry = some callee → m.methods[callee]? = some method →
    arguments.length = method.parameters.length → m.methodIndex? staticInitializer = some index →
    Enters m limit s entry arguments (s.reset m) index []
  | entry {callee : Nat} {method : Method} {t : State} :
    m.methodIndex? entry = some callee → m.methods[callee]? = some method →
    arguments.length = method.parameters.length →
    (s.reset m).initializeStatics m limit = (.ok (), t) →
    Enters m limit s entry arguments t callee arguments

/-- What a run of an entry point answers when its call has ended. -/
def answer (method : Method) : Except Fault Unit × State → Except Fault UInt64
  | (.ok (), s) => .ok (extend s.result method.returnType)
  | (.error fault, _) => .error fault

lemma answer_of_error (h : ended.1 = .error fault) : answer method ended = .error fault := by
  obtain ⟨_, u⟩ := ended
  obtain rfl := h
  rfl

lemma answer_congr (h : ended.1 = ended'.1) (hres : ended.2.result = ended'.2.result) :
    answer method ended = answer method ended' := by
  obtain ⟨result, u⟩ := ended
  obtain ⟨result', u'⟩ := ended'
  obtain rfl : result = result' := h
  cases result with
  | error => rfl
  | ok => exact congrArg (fun value => Except.ok (extend value method.returnType)) hres

section

variable {m : Module} (hm : m.Closed) {limit callee : Nat} {s t : State} {method : Method}
  {entry : String} {arguments : List UInt64}

/-- A call that a run accepts. -/
def Accepts (m : Module) (entry : String) (arguments : List UInt64) : Prop :=
  ∃ callee method, m.methodIndex? entry = some callee ∧ m.methods[callee]? = some method ∧
    arguments.length = method.parameters.length

lemma accepts_or_rejects : Accepts m entry arguments ∨ ∃ fault, (∀ strict, ¬fault.IsGrave strict) ∧
      ∀ limit (s : State), s.run m limit entry arguments = (.error fault, s) := by
  cases hindex : m.methodIndex? entry with
  | none =>
    refine .inr ⟨.unknownMethod entry, fun _ => id, fun _ s => ?_⟩
    simp only [run, hindex]
  | some callee =>
    obtain ⟨method, hmeth⟩ := methodIndex?_valid hindex
    by_cases hcount : arguments.length = method.parameters.length
    · exact .inl ⟨callee, method, hindex, hmeth, hcount⟩
    · refine .inr ⟨.argumentCount entry method.parameters.length arguments.length, fun _ => id,
        fun _ s => ?_⟩
      simp only [run, hindex, hmeth, hcount, if_false]

lemma run_eq_runMethod (hindex : m.methodIndex? entry = some callee)
    (hmeth : m.methods[callee]? = some method)
    (hcount : arguments.length = method.parameters.length) (limit : Nat) (s : State) :
    (s.run m limit entry arguments).1 = answer method (s.runMethod m limit callee arguments) ∧
      (s.run m limit entry arguments).2.steps = (s.runMethod m limit callee arguments).2.steps ∧
      (s.run m limit entry arguments).2.stack = (s.runMethod m limit callee arguments).2.stack := by
  simp only [run, hindex, hmeth, hcount, if_true]
  rcases s.runMethod m limit callee arguments with ⟨_ | _, u⟩
  · exact ⟨rfl, rfl, rfl⟩
  · exact ⟨rfl, rfl, rfl⟩

/-- What is true of the reset machine, and of what a call ends with if it is true before the call, is
true of what a run ends with. -/
lemma runMethod_induction {P : Except Fault Unit × State → Prop}
    (hmeth : m.methods[callee]? = some method) (hreset : P (.ok (), s.reset m))
    (hexecute : ∀ {u callee method arguments}, m.methods[callee]? = some method → P (.ok (), u) →
      P (u.execute m limit callee arguments)) : P (s.runMethod m limit callee arguments) := by
  have hinit : P ((s.reset m).initializeStatics m limit) := by
    unfold initializeStatics
    split
    · next hindex =>
      obtain ⟨_, hfound⟩ := methodIndex?_valid hindex
      exact hexecute hfound hreset
    · exact hreset
  unfold runMethod
  rcases hended : (s.reset m).initializeStatics m limit with ⟨_ | _, u⟩
  · exact hended.subst hinit
  · exact hexecute hmeth (hended.subst hinit)

lemma execute_frames (h : s.execute m limit callee args = (.ok (), t)) : t.frames = [] :=
  (reaches_of_finish h).2

lemma initializeStatics_frames (hs : s.frames = [])
    (h : s.initializeStatics m limit = (.ok (), t)) : t.frames = [] := by
  unfold initializeStatics at h
  split at h
  · exact execute_frames h
  · cases h
    exact hs

include hm

section

variable (hform : strict → m.Formed)

include hform

lemma execute_tame (hcallee : m.methods[callee]? = some method) (hs : s.Valid m)
    : Tame strict (s.execute m limit callee args).1 := by
  have hstart := pushFrame_valid hm hcallee hs args
  intro fault h
  obtain hlimit | ⟨u, -, -, hfin⟩ | ⟨u, fault', hu, hfault, hfin⟩ :=
    finish_cases m limit (limit - s.steps) (s.pushFrame m callee args)
  · rw [execute, hlimit] at h
    cases h
    exact id
  · rw [execute, hfin] at h
    cases h
  · rw [execute, hfin] at h
    cases h
    exact fault_not_isGrave hm hform (reaches_valid hm hstart hu) hfault

/-- No run of a closed module of formed instructions reports a grave fault. -/
lemma run_not_isGrave (s : State) (entry : String) (args : List UInt64) :
    Tame strict (s.run m limit entry args).1 := by
  obtain ⟨callee, method, hindex, hmeth, hcount⟩ | ⟨fault, hfault, hrejects⟩ := accepts_or_rejects
  · have hrun : Tame strict (s.runMethod m limit callee args).1 := by
      refine (runMethod_induction (P := fun r => Tame strict r.1 ∧ (r.1 = .ok () → r.2.frames = []))
        hmeth ⟨.ok _, fun _ => rfl⟩ fun {u} _ _ _ hfound hu => ?_).1
      have hidle : u.frames = [] := hu.2 rfl
      exact ⟨execute_tame hm hform hfound (by simp [State.Valid, hidle]),
        fun h => execute_frames (Prod.ext h rfl)⟩
    rw [(run_eq_runMethod hindex hmeth hcount limit s).1]
    generalize s.runMethod m limit callee args = ended at hrun ⊢
    obtain ⟨fault | _, u⟩ := ended
    · exact .error (hrun fault rfl)
    · exact .ok _
  · rw [hrejects]
    exact .error (hfault strict)

end

/-- Every call that a run makes itself starts in a valid state, with a register for each argument. -/
lemma enters_valid (h : s.Enters m limit entry arguments t callee arguments') :
    t.Valid m ∧ ∃ method, m.methods[callee]? = some method ∧
      arguments'.length ≤ method.registerCount := by
  cases h with
  | initializer _ _ _ hindex =>
    obtain ⟨method, hmethod⟩ := methodIndex?_valid hindex
    exact ⟨by simp [State.Valid, reset], method, hmethod, Nat.zero_le _⟩
  | @entry _ method _ _ hmethod hcount hinit =>
    have hframes := initializeStatics_frames rfl hinit
    refine ⟨by simp [State.Valid, hframes], method, hmethod, ?_⟩
    exact hcount.le.trans (closed_of_getElem? hm hmethod).parameters

end

/-- Compiled modules are closed, and so their runs are safe: on any machine, for any entry point and
arguments, no run leaves the code of its module or looks for a static that it lacks, and all
registers that are read or written lie in the windows of their frames. -/
theorem closed_and_safe_of_compile {p : Program} {types : TypeTable} {name : String} {m : Module}
    (h : p.compile types name = .ok m) :
    (∀ method ∈ m.methods, method.Closed m.statics) ∧
    ∀ (limit : Nat) (s : State) (entry : String) (arguments : List UInt64),
      (∀ fault, (s.run m limit entry arguments).1 = .error fault → ¬fault.IsEscape) ∧
      ∀ t callee arguments', s.Enters m limit entry arguments t callee arguments' →
        (∀ f k, (t.pushFrame m callee arguments').frames.head? = some f → k < arguments'.length →
          f.InWindow m ⟨k, .parameter⟩) ∧
        ∀ u, Reaches (State.next m) (t.pushFrame m callee arguments') u →
          ∀ f r, u.Accesses m f r → f.InWindow m r := by
  have hm : m.Closed := Program.compile_closed h
  refine ⟨hm, fun limit s entry arguments => ⟨run_not_isGrave hm False.elim s entry arguments, ?_⟩⟩
  intro t callee arguments' henters
  obtain ⟨hvalid, method, hmethod, hcount⟩ := enters_valid hm henters
  refine ⟨fun f k hhead hk => ?_, fun u hu f r haccess => ?_⟩
  · obtain rfl := Option.some.inj hhead
    exact Frame.inWindow_of_lt hmethod (hk.trans_le hcount)
  · exact accesses_inWindow hm (reaches_valid hm (pushFrame_valid hm hmethod hvalid arguments') hu)
      haccess

/-- A demonstration program as the code generator gets it, with its types. -/
def loweredDemo (d : Demo) : Program × TypeTable :=
  let (p, s) := d.build (Session.start {})
  let (_, p, s) := s.analyze p
  ((s.lower p).2, s.types)

/-- The code of the example with a struct: both of its methods are closed, and no run escapes. -/
theorem closed_and_safe_of_compile_pair :
    ∃ m, (loweredDemo .pair).1.compile (loweredDemo .pair).2 "main" = .ok m ∧ m.methods.size = 2 ∧
      (∀ method ∈ m.methods, method.Closed m.statics) ∧
      ∀ fault, ((State.start 64).run m 1000 "main" []).1 = .error fault → ¬fault.IsEscape := by
  obtain ⟨m, h, hsize⟩ : ∃ m, (loweredDemo .pair).1.compile (loweredDemo .pair).2 "main" = .ok m ∧
      m.methods.size = 2 := by
    decide +kernel
  obtain ⟨hclosed, hsafe⟩ := closed_and_safe_of_compile h
  exact ⟨m, h, hsize, hclosed, (hsafe 1000 (State.start 64) "main" []).1⟩

end CompilerCore.Machine

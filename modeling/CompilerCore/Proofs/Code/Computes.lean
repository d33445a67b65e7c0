import CompilerCore.Proofs.Code.Closed
import CompilerCore.Proofs.Code.Scalar
import CompilerCore.Proofs.Machine.Local

/-!
# Code for integer expressions is correct

The code of an expression leaves the value of the expression in a register, touches no register but
those made for it, and faults exactly when evaluation does.  A move after it may make the last
instruction write another register instead, so the statement covers that as well.
-/

namespace CompilerCore.Code

open CompilerCore.Machine OperandType Local Draft Option Nat CompilerCore.Expr Instruction

/-! ## Variables in registers -/

/-- A draft in which integer variables live in registers of their own. -/
structure Draft.Places (vars : SymbolId → Option Primitive) (d : Draft) : Prop where
  register : ∀ x p s, vars x = some p → d.storage.lookup x = some s →
    ∃ r, s = .register r ∧ r.storage ≠ .temporary
  notStatic : ∀ x p, vars x = some p → d.statics.symbols.lookup x = none
  injective : ∀ x y r r', d.storage.lookup x = some (.register r) →
    d.storage.lookup y = some (.register r') → r.index = r'.index → x = y
  notResult : ∀ x r q, d.storage.lookup x = some (.register r) → d.returnRegister = some q →
    r.index ≠ q.index

lemma Draft.Places.of_eq {vars : SymbolId → Option Primitive} {d d' : Draft} (h : d.Places vars)
    (hleads : d.Leads d') (hstor : d'.storage = d.storage) : d'.Places vars where
  register := hstor ▸ h.register
  notStatic := hleads.symbols ▸ h.notStatic
  injective := hstor ▸ h.injective
  notResult := hstor ▸ hleads.result ▸ h.notResult

/-- Registers that hold the values of the variables, by the places that these have in a draft. -/
def Agrees (vars : SymbolId → Option Primitive) (d : Draft) (σ : SymbolId → Int) (ρ : Registers) :
    Prop :=
  ∀ x p r, vars x = some p → d.storage.lookup x = some (.register r) →
    (OperandType.ofPrimitive p).read (ρ r.index) = σ x

/-- Between two drafts with the same variables, registers are made for no variable. -/
lemma Draft.Sound.outside {d d' : Draft} (hd : d.Sound) (hleads : d'.Leads dF)
    (hstor : d'.storage = d.storage) (hr : dF.storage.lookup x = some (.register r)) :
    ¬(d.registerCount ≤ r.index ∧ r.index < d'.registerCount) := by
  obtain hr' | hr' := hleads.fresh x r hr
  · have hbound : r.index < d.registerCount :=
      hd.storage (x, .register r) (mem_of_lookup (hstor ▸ hr'))
    omega
  · omega

lemma Agrees.of_same {d d' : Draft} (h : Agrees vars dF σ ρ) (hd : d.Sound) (hleads : d'.Leads dF)
    (hstor : d'.storage = d.storage)
    (hsame : ∀ k, ¬(d.registerCount ≤ k ∧ k < d'.registerCount) → ρ' k = ρ k) :
    Agrees vars dF σ ρ' := by
  intro x p r hx hr
  rw [hsame r.index (hd.outside hleads hstor hr)]
  exact h x p r hx hr

namespace Gen

/-! ## Steps that keep the places of variables -/

/-- Code from one draft to another that keeps the places of variables. -/
structure Extends (d d' : Draft) : Prop where
  sound : d'.Sound
  leads : d.Leads d'
  storage : d'.storage = d.storage

section

variable {code : Array Instruction} {d d1 d' dF : Draft} {label : String} {type : OperandType}

lemma Extends.trans (h : Extends d d1) (h' : Extends d1 d') : Extends d d' :=
  ⟨h'.sound, h.leads.trans h'.leads, h'.storage.trans h.storage⟩

lemma Extends.places {vars : SymbolId → Option Primitive} (h : Extends d d') (hd : d.Places vars) :
    d'.Places vars :=
  hd.of_eq h.leads h.storage

lemma register_ext (hd : d.Sound) {storage : StorageClass} (h : register storage d = .ok (r, d')) :
    r = ⟨d.registerCount, storage⟩ ∧ d' = d.addRegister ∧ Extends d d' := by
  have hd' := (register_safe hd storage _ _ h).2
  obtain ⟨rfl, rfl⟩ := register_eq_ok h
  exact ⟨rfl, rfl, hd', .addRegister d, rfl⟩

lemma newLabel_ext (hd : d.Sound) (h : newLabel d = .ok (label, d')) :
    d' = d.addLabelName ∧ Extends d d' := by
  have hd' := (newLabel_safe hd _ _ h).2
  obtain rfl := newLabel_eq_ok h
  exact ⟨rfl, hd', .addLabelName d, rfl⟩

lemma defineLabel_ext (hd : d.Sound) (h : defineLabel label d = .ok ((), d')) :
    Extends d d' ∧ d'.labels.find? label = some d.instructions.size ∧
      d'.instructions.size = d.instructions.size := by
  have hd' := (defineLabel_safe hd label _ _ h).2
  obtain ⟨hnone, rfl⟩ := defineLabel_eq_ok h
  exact ⟨⟨hd', .addLabel hnone, rfl⟩, Labels.find?_insert .., rfl⟩

lemma branch_ext (hd : d.Sound) {opcode : Opcode} {cond : Option Register}
    (hop : opcode.isBranch = true) (hcond : ∀ r ∈ cond, r.index < d.registerCount)
    (h : branch opcode cond type label d = .ok ((), d')) : Extends d d' := by
  have hd' := (branch_safe hd hop hcond type label _ _ h).2
  obtain ⟨i, -, -, -, rfl⟩ := branch_eq_ok h
  exact ⟨hd', .addBranch d i label, rfl⟩

lemma jump_ext (hd : d.Sound) (h : jump label d = .ok ((), d')) : Extends d d' :=
  branch_ext hd rfl (by rintro _ ⟨⟩) h

lemma of_typeOf_bind {e : Expr} {type : TypeId} {f : TypeId → Gen α} (htype : e.type? = some type)
    (h : (typeOf e >>= f) d = .ok r) : f type d = .ok r := by
  rwa [typeOf, htype] at h

variable (hF : Finished code dF)
include hF

lemma branch_of_addBranch (hleads : (d.addBranch i label).Leads dF) :
    ∃ offset, dF.labels.find? label = some offset ∧
      code[d.instructions.size]? = some (goto offset i) :=
  hF.goto hleads (by simp [addBranch]) (.head _)

lemma branch_step (onZero : Bool) {test : Register} (hint : type.IsInteger)
    (h : branch (if onZero then .branchIfZero else .branchIfNotZero) (some test) type label d =
      .ok ((), d')) (hleads : d'.Leads dF) :
    ∃ offset, dF.labels.find? label = some offset ∧ ∀ ρ, Local.Step code (d.instructions.size, ρ)
        (if decide (type.read (ρ test.index) = 0) = onZero then offset else d'.instructions.size,
          ρ) := by
  obtain ⟨i, hop, htype, hsrcs, rfl⟩ := branch_eq_ok h
  obtain ⟨offset, hoff, hcode⟩ := branch_of_addBranch hF hleads
  refine ⟨offset, hoff, fun ρ => ?_⟩
  rw [size_addBranch]
  exact step_branch onZero hcode hop rfl hsrcs htype hint

lemma jump_step (h : jump label d = .ok ((), d')) (hleads : d'.Leads dF) :
    ∃ offset, dF.labels.find? label = some offset ∧
      ∀ ρ, Local.Step code (d.instructions.size, ρ) (offset, ρ) := by
  obtain ⟨i, hop, -, -, rfl⟩ := branch_eq_ok h
  obtain ⟨offset, hoff, hcode⟩ := branch_of_addBranch hF hleads
  exact ⟨offset, hoff, fun ρ => step_jump hcode hop rfl⟩

end

/-! ## What the code of an expression does -/

/-- The registers to which a result can be delivered, with the drafts that do so: the register that
was made for it, or any other one if the last instruction is made to write there. -/
inductive Delivered (d : Draft) (r : Register) : Register → Draft → Prop where
  | kept : Delivered d r r d
  | retargeted (target : Register) : r.storage = .temporary →
    d.instructions.back?.map (·.destination) = some (some r) →
    Delivered d r target (d.retarget target)

/-- The registers that code between two drafts may change when it delivers to a register. -/
def Touched (d d' : Draft) (r target : Register) (k : Nat) : Prop :=
  (d.registerCount ≤ k ∧ k < d'.registerCount) ∨ (k = target.index ∧ target ≠ r)

/-- Code from one draft to another that delivers a value, in the register of a variable or in a new
one.  It is looked at where it ends up: in the finished code of the method. -/
structure Delivers (code : Array Instruction) (dF : Draft) (vars : SymbolId → Option Primitive)
    (d d' : Draft) (r : Register) (hand : Option SymbolId) (type : OperandType)
    (value : (SymbolId → Int) → Except Fault Int) : Prop extends Extends d d' where
  bound : r.index < d'.registerCount
  hands : match hand with
    | some x => d.storage.lookup x = some (.register r)
    | none => d.registerCount ≤ r.index
  emits : r.storage = .temporary → d.instructions.size < d'.instructions.size
  yields : ∀ target d'', Delivered d' r target d'' → d''.Leads dF → ∀ σ ρ, Agrees vars dF σ ρ →
    Local.Yields code (d.instructions.size, ρ) d'.instructions.size (Touched d d' r target) target
      type (value σ)

/-- A step of making code whose code delivers a value. -/
def Computes (code : Array Instruction) (dF : Draft) (vars : SymbolId → Option Primitive)
    (g : Gen Register) (hand : Option SymbolId) (type : OperandType)
    (value : (SymbolId → Int) → Except Fault Int) : Prop :=
  ∀ d r d', d.Sound → d.Places vars → g d = .ok (r, d') →
    Delivers code dF vars d d' r hand type value

/-- A step whose code may have no value but delivers one. -/
def ComputesOption (code : Array Instruction) (dF : Draft) (vars : SymbolId → Option Primitive)
    (g : Gen (Option Register)) (hand : Option SymbolId) (type : OperandType)
    (value : (SymbolId → Int) → Except Fault Int) : Prop :=
  ∀ d o d', d.Sound → d.Places vars → g d = .ok (o, d') →
    ∃ r, o = some r ∧ Delivers code dF vars d d' r hand type value

/-- Code from one draft to another that puts a value into a register that is there already. -/
structure Fills (code : Array Instruction) (dF : Draft) (vars : SymbolId → Option Primitive)
    (d d' : Draft) (target : Register) (type : OperandType)
    (value : (SymbolId → Int) → Except Fault Int) : Prop extends Extends d d' where
  yields : d'.Leads dF → ∀ σ ρ, Agrees vars dF σ ρ →
    Local.Yields code (d.instructions.size, ρ) d'.instructions.size
      (fun k => (d.registerCount ≤ k ∧ k < d'.registerCount) ∨ k = target.index) target type (value σ)

section

variable {code : Array Instruction} {dF : Draft} {vars : SymbolId → Option Primitive}
  {d d1 d' d'' : Draft} {r target : Register} {hand : Option SymbolId} {type : OperandType}
  {value : (SymbolId → Int) → Except Fault Int}

variable {i : Instruction} {typeId : TypeId} {g : Gen Register} {x : SymbolId}

lemma Delivered.push (h : Delivered (d.add i) r target d'') (hi : i.destination = some r) :
    d.Leads d'' ∧ d''.instructions[d.instructions.size]? =
      some { i with destination := some target } ∧ d''.pendingBranches = d.pendingBranches := by
  cases h with
  | kept =>
    refine ⟨.add d i, ?_, rfl⟩
    rw [← hi]
    simp [add]
  | retargeted =>
    refine ⟨(Draft.Leads.add d i).retarget (by simp) target, ?_, rfl⟩
    simp only [retarget, add, Array.getElem?_modify]
    simp

lemma moveInto_eq_ok (h : moveInto target r movedAs d = .ok ((), d')) : (r = target ∧ d' = d) ∨
    (r.storage = .temporary ∧ d.instructions.back?.map (·.destination) = some (some r) ∧
      d' = d.retarget target) ∨
    d' = d.add { opcode := .move, type := movedAs, destination := some target, sources := [r] } := by
  unfold moveInto at h
  split at h
  · next heq =>
    cases h
    exact .inl ⟨heq, rfl⟩
  · obtain ⟨_, _, hget, h⟩ := bind_eq_ok h
    cases hget
    dsimp only at h
    split at h
    · next hcond =>
      cases h
      exact .inr (.inl ⟨hcond.1, by simpa using hcond.2.2, rfl⟩)
    · cases h
      exact .inr (.inr rfl)

lemma touched_target (hr : d.registerCount ≤ r.index ∧ r.index < d'.registerCount) :
    Touched d d' r target target.index := by
  by_cases h : target = r
  · exact .inl (h ▸ hr)
  · exact .inr ⟨rfl, h⟩

lemma Delivers.bind {s : Register} (h : Delivers code dF vars d d1 s hand type value) (hd : d.Sound)
    (hleads : d1.Leads dF) (hagr : Agrees vars dF σ ρ)
    (hsub : ∀ k, d.registerCount ≤ k → k < d1.registerCount → touched k)
    (hrest : ∀ ρ', Agrees vars dF σ ρ' →
      (∀ k, ¬(d.registerCount ≤ k ∧ k < d1.registerCount) → ρ' k = ρ k) →
      Local.Yields code (d1.instructions.size, ρ') stop touched target type'
        (f (type.read (ρ' s.index)))) :
    Local.Yields code (d.instructions.size, ρ) stop touched target type' (value σ >>= f) := by
  have hkept (k : Nat) (hk : Touched d d1 s s k) : d.registerCount ≤ k ∧ k < d1.registerCount :=
    hk.resolve_right (by simp)
  refine (h.yields s d1 .kept hleads σ ρ hagr).bind
    (fun k hk => hsub k (hkept k hk).1 (hkept k hk).2) fun ρ' hsame => ?_
  have hsame' (k : Nat) (hk : ¬(d.registerCount ≤ k ∧ k < d1.registerCount)) : ρ' k = ρ k :=
    hsame k (mt (hkept k) hk)
  exact hrest ρ' (hagr.of_same hd hleads h.storage hsame') hsame'

/-- What code delivers lies in the range of its type, so reducing it changes nothing. -/
lemma Delivers.reduce (h : Delivers code dF vars d d' r hand type value) :
    Delivers code dF vars d d' r hand type fun σ => value σ >>= fun x => .ok (type.reduce x) :=
  { h with
    yields := fun target d'' hdel hleads σ ρ hagr => by
      have hyields := h.yields target d'' hdel hleads σ ρ hagr
      cases hx : value σ with
      | error =>
        rw [hx] at hyields
        exact hyields
      | ok =>
        rw [hx] at hyields
        obtain ⟨ρ', hruns, hread, hsame⟩ := hyields
        refine ⟨ρ', hruns, ?_, hsame⟩
        rw [← hread, OperandType.read, OperandType.reduce_reduce] }

lemma ComputesOption.need {g : Gen (Option Register)}
    (h : ComputesOption code dF vars g hand type value) :
    Computes code dF vars (need g) hand type value := by
  intro d r d' hd hplaces hrun
  obtain ⟨o, d1, ho, hrun⟩ := bind_eq_ok hrun
  obtain ⟨s, rfl, hs⟩ := h d o d1 hd hplaces ho
  cases hrun
  exact hs

lemma Computes.some (h : Computes code dF vars g hand type value) :
    ComputesOption code dF vars (some <$> g) hand type value := by
  intro d o d' hd hplaces hrun
  obtain ⟨r, rfl, hr⟩ := map_eq_ok hrun
  exact ⟨r, rfl, h d r d' hd hplaces hr⟩

lemma storage?_eq_ok (hx : d.statics.symbols.lookup x = none) (h : storage? x d = .ok (o, d')) :
    d' = d ∧ o = d.storage.lookup x := by
  cases h
  rw [hx]
  exact ⟨rfl, by cases d.storage.lookup x <;> rfl⟩

lemma storageOf_eq_ok (hx : d.statics.symbols.lookup x = none) (h : storageOf c x d = .ok (s, d')) :
    d' = d ∧ d.storage.lookup x = some s := by
  obtain ⟨found, d1, hfound, h⟩ := bind_eq_ok h
  obtain ⟨rfl, rfl⟩ := storage?_eq_ok hx hfound
  cases hlook : d1.storage.lookup x with
  | none =>
    rw [hlook] at h
    cases h
  | some =>
    rw [hlook] at h
    cases h
    exact ⟨rfl, rfl⟩

variable (hF : Finished code dF)
include hF

lemma last_of_delivered (hd : d.Sound) (h : Delivered (d.add i) r target d'')
    (hi : i.destination = some r) (hleads : d''.Leads dF) :
    d.Leads dF ∧ code[d.instructions.size]? = some { i with destination := some target } := by
  obtain ⟨hbefore, hget, hpending⟩ := h.push hi
  refine ⟨hbefore.trans hleads, hF.instruction hleads hget fun label hmem => ?_⟩
  rw [hpending] at hmem
  exact absurd (hd.pending _ hmem) (by simp)

/-- A value is moved to a register: the last instruction writes there, or a move follows. -/
lemma Delivers.moveInto (h : Delivers code dF vars d d' r hand type value)
    (htarget : target.index < d.registerCount)
    (hmove : moveInto target r movedAs d' = .ok ((), d'')) :
    Fills code dF vars d d'' target type value := by
  have htarget' := htarget.trans_le h.leads.registers
  have hsub (k : Nat) (hk : Touched d d' r target k) :
      (d.registerCount ≤ k ∧ k < d'.registerCount) ∨ k = target.index :=
    hk.imp_right And.left
  obtain ⟨rfl, rfl⟩ | ⟨htemp, hlast, rfl⟩ | rfl := moveInto_eq_ok hmove
  · exact ⟨h.toExtends, fun hleads σ ρ hagrees =>
      (h.yields _ _ .kept hleads σ ρ hagrees).mono hsub⟩
  · refine ⟨⟨h.sound.retarget htarget' _, h.leads.retarget (h.emits htemp) target, h.storage⟩,
      fun hleads σ ρ hagrees => ?_⟩
    have hyields := h.yields target _ (.retargeted target htemp hlast) hleads σ ρ hagrees
    rw [size_retarget]
    exact hyields.mono hsub
  · refine ⟨⟨(emit_ordinary_safe h.sound (by trivial) ?_ _ _ rfl).2, h.leads.trans (.add d' _),
      h.storage⟩, fun hleads σ ρ hagrees => ?_⟩
    · simp [registers, htarget', h.bound]
    obtain ⟨hleads', hlast⟩ := last_of_delivered hF h.sound .kept rfl hleads
    have hfirst := h.yields r d' .kept hleads' σ ρ hagrees
    have hvalue : value σ = value σ >>= Except.ok := by cases value σ <;> rfl
    rw [hvalue, size_add]
    refine hfirst.bind (fun k hk => .inl (hk.resolve_right (by simp))) fun ρ' _ => ?_
    exact yields_move hlast rfl (.inr rfl) type rfl rfl

lemma Delivers.of_add (hd1 : Extends d d1)
    (hr : d.registerCount ≤ r.index ∧ r.index < d1.registerCount) (hop : Ordinary i.opcode)
    (hregs : ∀ s ∈ i.registers, s.index < d1.registerCount) (hdest : i.destination = some r)
    (hyields : ∀ target, code[d1.instructions.size]? = some { i with destination := some target } →
      d1.Leads dF → ∀ σ ρ, Agrees vars dF σ ρ →
      Local.Yields code (d.instructions.size, ρ) (d1.instructions.size + 1) (Touched d d1 r target)
        target type (value σ)) :
    Delivers code dF vars d (d1.add i) r none type value where
  sound := (emit_ordinary_safe hd1.sound hop hregs _ _ rfl).2
  bound := hr.2
  hands := hr.1
  leads := hd1.leads.trans (.add d1 i)
  storage := hd1.storage
  emits _ := by
    have := hd1.leads.size
    rw [size_add]
    omega
  yields target d'' hdel hleads'' σ ρ hagrees := by
    obtain ⟨hleads1, hlast⟩ := last_of_delivered hF hd1.sound hdel hdest hleads''
    rw [size_add]
    exact hyields target hlast hleads1 σ ρ hagrees

lemma Delivers.apply (hd : d.Sound)
    (h : Delivers code dF vars d d1 s hand type value) (make : Register → Register → Instruction)
    (f : Int → Except Fault Int) (hop : ∀ s r, Ordinary (make s r).opcode)
    (hregs : ∀ s r, (make s r).registers = [r, s])
    (hmake : ∀ s r target, { make s r with destination := some target } = make s target)
    (hstep : ∀ s target pc ρ (touched : Nat → Prop), code[pc]? = some (make s target) →
      touched target.index →
      Local.Yields code (pc, ρ) (pc + 1) touched target type' (f (type.read (ρ s.index))))
    (hrun : resultOf (make s) d1 = .ok (r, d')) :
    Delivers code dF vars d d' r none type' fun σ => value σ >>= f := by
  obtain ⟨t, d2, htemp, hrun⟩ := bind_eq_ok hrun
  obtain ⟨rfl, rfl, hext⟩ := register_ext h.sound htemp
  cases hrun
  have hr : d.registerCount ≤ d1.registerCount := h.leads.registers
  have hs : s.index < d1.registerCount + 1 := h.bound.trans (lt_succ_self _)
  refine .of_add hF (h.toExtends.trans hext) ⟨hr, lt_succ_self _⟩ (hop _ _)
    (by simp [hregs]; omega) (congrArg destination (hmake s s _)).symm
    fun target hlast hleads σ ρ hagrees => ?_
  rw [hmake] at hlast
  refine h.bind hd (hext.leads.trans hleads) hagrees (fun k hle hlt => .inl ⟨hle, hlt.trans ?_⟩)
    fun ρ' _ _ => ?_
  · exact lt_succ_self _
  · exact hstep s target _ ρ' _ hlast (touched_target ⟨hr, lt_succ_self _⟩)

/-! ## Operators -/

/-- The type at which the machine carries out a binary operation: a comparison's is its operands'.
-/
def operationType (c : Env) (op : BinaryOp) (lhsType type : TypeId) : OperandType :=
  match op with
  | .compare _ => c.operand lhsType
  | .arith _ | .and | .or => c.operand type

/-- The left operand stays in its register while the right one is computed. -/
lemma operation_computes {op : BinaryOp} {rhs : Expr}
    {lhsType rhsType : TypeId} {lhsCode rhsCode : Gen Register} {tl tr : OperandType}
    {xl xr : (SymbolId → Int) → Except Fault Int} {f : Int → Int → Except Fault Int}
    (hl : Computes code dF vars lhsCode hand tl xl) (hr : Computes code dF vars rhsCode hand' tr xr)
    {t : OperandType} (ht : operationType c op lhsType typeId = t) (hint : t.IsInteger)
    (hfloat : c.types.isFloat rhsType = false)
    (himm : ∀ n, rhs.integer? = some n → ∀ σ, xr σ = .ok (tr.read n.toUInt64))
    (hop : Ordinary (opcodeOf op))
    (hstep : ∀ (i : Instruction) left rest target pc ρ w (touched : Nat → Prop),
      code[pc]? = some i → i.opcode = opcodeOf op → i.type = t → i.destination = some target →
      i.sources = left :: rest → HasOperand i ρ w → touched target.index →
      Local.Yields code (pc, ρ) (pc + 1) touched target type
        (f (tl.read (ρ left.index)) (tr.read w))) :
    Computes code dF vars (operation c op rhs lhsType rhsType typeId lhsCode rhsCode) none type
      fun σ => xl σ >>= fun x => xr σ >>= f x := by
  intro d r d' hd hplaces hrun
  subst ht
  obtain ⟨left, d1, hleft, hrun⟩ := bind_eq_ok hrun
  have h := hl d left d1 hd hplaces hleft
  obtain ⟨destination, d2, htemp, hrun⟩ := bind_eq_ok hrun
  obtain ⟨rfl, rfl, hext⟩ := register_ext h.sound htemp
  have h2 := h.toExtends.trans hext
  have hlow : d.registerCount ≤ d1.registerCount := h.leads.registers
  have hbound := h.bound
  have hfilter : (rhs.integer?.filter fun _ => !c.types.isFloat rhsType) = rhs.integer? := by
    cases rhs.integer? <;> simp [hfloat]
  rw [hfilter] at hrun
  cases hconst : rhs.integer? with
  | some n =>
    rw [hconst] at hrun
    obtain ⟨_, d3, hemit, hrun⟩ := bind_eq_ok hrun
    obtain rfl := emit_eq_ok hemit
    cases hrun
    refine .of_add hF h2 ⟨hlow, lt_succ_self _⟩ hop (by simp [registers]; omega) rfl
      fun target hlast hleads σ ρ hagrees => ?_
    refine h.bind hd (hext.leads.trans hleads) hagrees (fun k hle hlt => .inl ⟨hle, hlt.trans ?_⟩)
      fun ρ' _ _ => ?_
    · exact lt_succ_self _
    · rw [himm n hconst]
      exact hstep _ left [] target _ ρ' _ _ hlast rfl rfl rfl rfl (.immediate rfl rfl hint)
        (touched_target ⟨hlow, lt_succ_self _⟩)
  | none =>
    rw [hconst] at hrun
    obtain ⟨right, d3, hright, hrun⟩ := bind_eq_ok hrun
    have h' := hr _ right d3 hext.sound (h2.places hplaces) hright
    obtain ⟨_, d4, hemit, hrun⟩ := bind_eq_ok hrun
    obtain rfl := emit_eq_ok hemit
    cases hrun
    have hcount : d1.registerCount + 1 ≤ d3.registerCount := h'.leads.registers
    have hr3 : d.registerCount ≤ d1.registerCount ∧ d1.registerCount < d3.registerCount := by omega
    refine .of_add hF (h2.trans h'.toExtends) hr3 hop
      (by simp [registers, hbound.trans hr3.2, h'.bound, hr3.2]) rfl
      fun target hlast hleads σ ρ hagrees => ?_
    refine h.bind hd (hext.leads.trans (h'.leads.trans hleads)) hagrees
      (fun k hle hlt => .inl ⟨hle, hlt.trans hr3.2⟩) fun ρ1 hagrees1 _ => ?_
    refine h'.bind hext.sound hleads hagrees1 (fun k hle hlt => .inl ⟨?_, hlt⟩) fun ρ2 _ hsame => ?_
    · exact hlow.trans ((le_succ _).trans hle)
    -- The left operand lies below all that the right one touches.
    have hkeep : ρ2 left.index = ρ1 left.index :=
      hsame _ fun hk => absurd hk.1 (by rw [registerCount_addRegister]; omega)
    rw [← hkeep]
    exact hstep _ left [right] target _ ρ2 _ _ hlast rfl rfl rfl rfl (.register rfl)
      (touched_target hr3)

/-! ## Branches within expressions -/

/-- A connective decides by its left operand or gives its right one. -/
lemma shortCircuit_computes {lhs : Gen Register}
    {xr : (SymbolId → Int) → Except Fault Int} (hl : Computes code dF vars lhs hand .bool xl)
    (hr : Computes code dF vars rhs hand' .bool xr) :
    Computes code dF vars (shortCircuit isAnd lhs rhs) none .bool
      fun σ => xl σ >>= fun x => if decide (x = 0) = isAnd then .ok x else xr σ := by
  intro d r d' hd hplaces hrun
  obtain ⟨D, d1, hreg, hrun⟩ := bind_eq_ok hrun
  obtain ⟨rfl, rfl, h1⟩ := register_ext hd hreg
  obtain ⟨done, d2, hlabel, hrun⟩ := bind_eq_ok hrun
  obtain ⟨rfl, h2⟩ := newLabel_ext h1.sound hlabel
  have h2 := h1.trans h2
  -- The left operand goes to the register of the result.
  obtain ⟨left, d3, hleft, hrun⟩ := bind_eq_ok hrun
  have h3 := hl _ left d3 h2.sound (h2.places hplaces) hleft
  obtain ⟨_, d4, hmove, hrun⟩ := bind_eq_ok hrun
  have h4 := h3.moveInto hF (lt_succ_self _) hmove
  have hD4 : d.registerCount < d4.registerCount := h4.leads.registers
  -- The right one is skipped if the left one decides.
  obtain ⟨_, d5, hbr, hrun⟩ := bind_eq_ok hrun
  have h5 := branch_ext h4.sound (by cases isAnd <;> rfl) (by rintro _ ⟨⟩; exact hD4) hbr
  have hD5 := h5.leads.registers
  have h5' := h2.trans (h4.toExtends.trans h5)
  obtain ⟨right, d6, hright, hrun⟩ := bind_eq_ok hrun
  have h6 := hr _ right d6 h5'.sound (h5'.places hplaces) hright
  obtain ⟨_, d7, hmove', hrun⟩ := bind_eq_ok hrun
  have h7 := h6.moveInto hF (hD4.trans_le hD5) hmove'
  have hD7 := h7.leads.registers
  obtain ⟨_, d8, hdone, hrun⟩ := bind_eq_ok hrun
  obtain ⟨h8, hfind, hsize⟩ := defineLabel_ext h7.sound hdone
  have hD8 := h8.leads.registers
  cases hrun
  refine ⟨h5'.trans (h7.toExtends.trans h8), by dsimp only; omega, le_rfl, nofun,
    fun target d'' hdel hleads σ ρ hagr => ?_⟩
  cases hdel with
  | retargeted _ htemp => cases htemp
  | kept =>
    have hleads7 := h8.leads.trans hleads
    have hleads5 := h7.leads.trans hleads7
    have hleads4 := h5.leads.trans hleads5
    have hfirst := h4.yields hleads4 σ ρ hagr
    simp only [registerCount_addLabelName, registerCount_addRegister] at hfirst
    refine hfirst.bind (fun k hk => .inl (by omega)) fun ρ1 hsame1 => ?_
    have hagrees1 : Agrees vars dF σ ρ1 :=
      hagr.of_same hd hleads4 h4.storage fun k hk => hsame1 k (by omega)
    obtain ⟨_, hto, hstep⟩ := branch_step hF isAnd isInteger_bool hbr hleads5
    obtain rfl := some.inj (hto.symm.trans (hleads.labels _ _ hfind))
    have hstep := hstep ρ1
    rw [hsize]
    split at hstep
    · next hdecides =>
      rw [if_pos hdecides]
      exact .of_runs (.single hstep) (fun _ _ => rfl) ⟨ρ1, .refl, rfl, fun _ _ => rfl⟩
    · next hdecides =>
      rw [if_neg hdecides]
      exact .of_runs (.single hstep) (fun _ _ => rfl)
        ((h7.yields hleads7 σ ρ1 hagrees1).mono fun k hk => .inl (by dsimp only at hk; omega))

lemma arm_fills {g : Gen (Option Register)}
    (hg : ComputesOption code dF vars g hand type value) (hd : d.Sound) (hplaces : d.Places vars)
    (hD : D.index < d.registerCount) (hrun : arm operand (some D) g d = .ok ((), d')) :
    Fills code dF vars d d' D type value := by
  obtain ⟨o, d1, ho, hrun⟩ := bind_eq_ok hrun
  obtain ⟨r, rfl, hr⟩ := hg d o d1 hd hplaces ho
  exact hr.moveInto hF hD hrun

lemma conditional_computes {cond : Expr} {conditionId : TypeId}
    {no : Gen (Option Register)} (hvoid : (c.operand typeId).isVoid = false)
    (hid : cond.type? = some conditionId) (htc : c.operand conditionId = tc) (hint : tc.IsInteger)
    (hc : Computes code dF vars conditionCode hand tc xc)
    (hy : ComputesOption code dF vars yes hand' type xy)
    (hn : ComputesOption code dF vars no hand'' type xn) :
    ComputesOption code dF vars (conditional c cond typeId conditionCode yes no) none type
      fun σ => xc σ >>= fun x => if x = 0 then xn σ else xy σ := by
  intro d o d' hd hplaces hrun
  unfold conditional at hrun
  simp only [hvoid, Bool.false_eq_true, if_false] at hrun
  obtain ⟨D?, d1, hreg, hrun⟩ := bind_eq_ok hrun
  obtain ⟨D, rfl, hfresh⟩ : ∃ D, D? = some D ∧ register .localVar d = .ok (D, d1) := by
    cases hreg
    exact ⟨_, rfl, rfl⟩
  obtain ⟨rfl, rfl, h1⟩ := register_ext hd hfresh
  obtain ⟨otherwise, d2, hlabel, hrun⟩ := bind_eq_ok hrun
  obtain ⟨rfl, h2⟩ := newLabel_ext h1.sound hlabel
  obtain ⟨done, d3, hlabel', hrun⟩ := bind_eq_ok hrun
  obtain ⟨rfl, h3⟩ := newLabel_ext h2.sound hlabel'
  have h3 := h1.trans (h2.trans h3)
  -- The condition.
  obtain ⟨test, d5, htest, hrun⟩ := bind_eq_ok (of_typeOf_bind hid hrun)
  have h5 := hc _ test d5 h3.sound (h3.places hplaces) htest
  have hD5 : d.registerCount + 1 ≤ d5.registerCount := h5.leads.registers
  obtain ⟨_, d6, hbr, hrun⟩ := bind_eq_ok hrun
  have h6 := branch_ext h5.sound rfl (by rintro _ ⟨⟩; exact h5.bound) hbr
  have hD6 := h6.leads.registers
  have h6' := h3.trans (h5.toExtends.trans h6)
  -- The first expression, which skips the second one.
  obtain ⟨_, d7, hyes, hrun⟩ := bind_eq_ok hrun
  have h7 := arm_fills (D := ⟨d.registerCount, .localVar⟩) hF hy h6'.sound (h6'.places hplaces)
    (hD5.trans hD6) hyes
  have hD7 := h7.leads.registers
  obtain ⟨_, d8, hjump, hrun⟩ := bind_eq_ok hrun
  have h8 := jump_ext h7.sound hjump
  have hD8 := h8.leads.registers
  obtain ⟨_, d9, hotherwise, hrun⟩ := bind_eq_ok hrun
  obtain ⟨h9, hfind9, hsize9⟩ := defineLabel_ext h8.sound hotherwise
  have hD9 := h9.leads.registers
  have h9' := h6'.trans (h7.toExtends.trans (h8.trans h9))
  -- The second expression.
  obtain ⟨_, d10, hno, hrun⟩ := bind_eq_ok hrun
  have h10 := arm_fills (D := ⟨d.registerCount, .localVar⟩) hF hn h9'.sound (h9'.places hplaces)
    (by dsimp only; omega) hno
  have hD10 := h10.leads.registers
  obtain ⟨_, d11, hdone, hrun⟩ := bind_eq_ok hrun
  obtain ⟨h11, hfind11, hsize11⟩ := defineLabel_ext h10.sound hdone
  have hD11 := h11.leads.registers
  cases hrun
  refine ⟨_, rfl, h9'.trans (h10.toExtends.trans h11), by dsimp only; omega, le_rfl, nofun,
    fun target d'' hdel hleads σ ρ hagr => ?_⟩
  cases hdel with
  | retargeted _ htemp => cases htemp
  | kept =>
    have hF10 := h11.leads.trans hleads
    have hF9 := h10.leads.trans hF10
    have hF8 := h9.leads.trans hF9
    have hF7 := h8.leads.trans hF8
    have hF6 := h7.leads.trans hF7
    refine h5.bind h3.sound (h6.leads.trans hF6) hagr (fun k hle hlt => .inl ?_)
      fun ρ1 hagrees1 _ => ?_
    · simp only [registerCount_addLabelName, registerCount_addRegister] at hle
      omega
    obtain ⟨_, hto, hstep⟩ := branch_step hF true (htc ▸ hint) hbr hF6
    obtain rfl := some.inj (hto.symm.trans (hF9.labels _ _ hfind9))
    obtain ⟨_, hto', hskip⟩ := jump_step hF hjump hF8
    obtain rfl := some.inj (hto'.symm.trans (hleads.labels _ _ hfind11))
    have hstep := hstep ρ1
    simp only [decide_eq_true_eq, htc] at hstep
    rw [hsize11]
    by_cases hzero : tc.read (ρ1 test.index) = 0
    · rw [if_pos hzero] at hstep ⊢
      rw [← hsize9] at hstep
      exact .of_runs (.single hstep) (fun _ _ => rfl)
        ((h10.yields hF10 σ ρ1 hagrees1).mono fun k hk => .inl (by dsimp only at hk; omega))
    · rw [if_neg hzero] at hstep ⊢
      exact .of_runs (.single hstep) (fun _ _ => rfl)
        (((h7.yields hF7 σ ρ1 hagrees1).then_step hskip).mono fun k hk =>
          .inl (by dsimp only at hk; omega))

lemma unaryOperation_computes (hg : Computes code dF vars g hand type value)
    {opcode : Opcode} (hop : Ordinary opcode) {f : Int → Int}
    (hstep : ∀ s target pc ρ (touched : Nat → Prop), touched target.index →
      code[pc]? = some { opcode, type, destination := some target, sources := [s] } →
      Local.Yields code (pc, ρ) (pc + 1) touched target type' (.ok (f (type.read (ρ s.index))))) :
    Computes code dF vars (unaryOperation opcode type g) none type'
      fun σ => value σ >>= fun x => .ok (f x) := by
  intro d r d' hd hplaces hrun
  obtain ⟨s, d1, hs, hrun⟩ := bind_eq_ok hrun
  exact (hg d s d1 hd hplaces hs).apply hF hd
    (fun s r => { opcode, type, destination := some r, sources := [s] }) (fun x => .ok (f x))
    (fun _ _ => hop) (fun _ _ => rfl) (fun _ _ _ => rfl)
    (fun s target pc ρ touched hi htouched => hstep s target pc ρ touched htouched hi) hrun

end

/-! ## Expressions -/

/-- The code for an expression computes its value, an integer of a primitive type. -/
def ComputesExpr (code : Array Instruction) (dF : Draft) (vars : SymbolId → Option Primitive)
    (c : Env) (e : Expr) (p : Primitive) : Prop :=
  ComputesOption code dF vars (expr c e .value) (e.handed? c.types) (.ofPrimitive p)
    (e.evaluate c.types)

section

variable {code : Array Instruction} {dF : Draft} {vars : SymbolId → Option Primitive} {c : Env}
  {note : Note} {lhs rhs operand cond yes no : Expr} {l r id : TypeId} {p q : Primitive}

lemma isFloat_eq_false (hp : p.isInteger = true) (hshape : c.types.shape id = .builtin p) :
    c.types.isFloat id = false := by
  cases p with
  | void | float => cases hp
  | bool | signed | unsigned =>
    simp [TypeTable.isFloat, TypeTable.has, TypeTable.traits, TypeTable.shapeTraits, hshape,
      Primitive.traits]

lemma expr_arith (hid : note.type = some id) (hltype : lhs.type? = some l)
    (hlshape : c.types.shape l = .builtin p) (hrtype : rhs.type? = some r)
    (hrshape : c.types.shape r = .builtin q) :
    expr c (.binary note (.arith op) lhs rhs) .value =
      some <$> operation c (.arith op) rhs l r id (need (expr c lhs .value))
        (need (expr c rhs .value)) := by
  simp [expr, hid, binary, typeOf, hltype, hrtype, TypeTable.isPointer, hlshape, hrshape]

namespace ComputesExpr

lemma name {text : String} (hprim : c.types.IsPrimitive note.type p) (hx : vars x = some p)
    (hkind : (c.scopes.symbol x).kind ≠ .function) :
    ComputesExpr code dF vars c (.name note text (some x)) p := by
  obtain ⟨id, hid, -⟩ := hprim
  have hcode : expr c (.name note text (some x)) .value = some <$> Gen.name c x id .value := by
    simp [expr, typeOf, type?, Expr.note, hid]
  rw [ComputesExpr, hcode]
  refine Computes.some fun d r d' hd hplaces hrun => ?_
  simp only [Gen.name, hkind, if_false] at hrun
  obtain ⟨storage, d1, hstor, hrun⟩ := bind_eq_ok hrun
  obtain ⟨rfl, hlook⟩ := storageOf_eq_ok (hplaces.notStatic x p hx) hstor
  obtain ⟨q, rfl, hq⟩ := hplaces.register x p storage hx hlook
  cases hrun
  refine ⟨⟨hd, .refl _, rfl⟩, hd.storage _ (mem_of_lookup hlook), hlook, fun h => absurd h hq,
    fun target d'' hdel hleads σ ρ hagr => ?_⟩
  cases hdel with
  | retargeted _ htemp => exact absurd htemp hq
  | kept => exact ⟨ρ, .refl, hagr x p _ hx (hleads.storage _ _ hlook), fun _ _ => rfl⟩

variable (hF : Finished code dF)
include hF

lemma literal {value : Literal} (hprim : c.types.IsPrimitive note.type p)
    (hp : p.isInteger = true) (hn : value.integer? = some n) :
    ComputesExpr code dF vars c (.literal note value) p := by
  obtain ⟨id, hid, hshape⟩ := id hprim
  have hint := isInteger_ofPrimitive hp
  have hkind : (ofPrimitive p).kind ≠ .float := by rcases hint.kind with h | h <;> simp [h]
  have hoper : c.operand id = .ofPrimitive p := TypeTable.operand_of_builtin hshape
  have hcode : expr c (.literal note value) .value = some <$> resultOf fun destination =>
      { opcode := .loadImmediate, type := .ofPrimitive p, destination := some destination
        immediates := [.integer n] } := by
    cases value with
    | integer | bool =>
      obtain rfl := some.inj hn
      simp [expr, typeOf, type?, Expr.note, hid, Gen.literal, hoper, literalImmediate, hkind]
    | float | text | null => cases hn
  have hvalue : (Expr.literal note value).evaluate c.types =
      fun _ => .ok ((ofPrimitive p).reduce n.toInt) := by
    funext σ
    rw [Expr.evaluate, hprim.operand, hn]
    rfl
  rw [ComputesExpr, hcode, hvalue]
  refine Computes.some fun d r d' hd _ hrun => ?_
  obtain ⟨s, d1, htemp, hrun⟩ := bind_eq_ok hrun
  obtain ⟨rfl, rfl, hext⟩ := register_ext hd htemp
  cases hrun
  refine .of_add hF hext ⟨le_rfl, lt_succ_self _⟩ (by trivial) (by simp [registers]) rfl
    fun target hlast _ σ ρ _ => ?_
  exact yields_loadImmediate hlast rfl (touched_target ⟨le_rfl, lt_succ_self _⟩) rfl rfl
    hint

section

variable (hl : lhs.Scalar c.types vars p) (hr : rhs.Scalar c.types vars q)
  (ihl : ComputesExpr code dF vars c lhs p) (ihr : ComputesExpr code dF vars c rhs q)
include hl hr ihl ihr

lemma arith (hprim : c.types.IsPrimitive note.type p) (hsame : op.group ≠ .shift → q = p) :
    ComputesExpr code dF vars c (.binary note (.arith op) lhs rhs) p := by
  obtain ⟨id, hid, hshape⟩ := id hprim
  obtain ⟨l, hltype, hlshape⟩ := hl.isPrimitive
  obtain ⟨r, hrtype, hrshape⟩ := hr.isPrimitive
  have hint := isInteger_ofPrimitive hl.isInteger
  have hvalue : (Expr.binary note (.arith op) lhs rhs).evaluate c.types = fun σ =>
      lhs.evaluate c.types σ >>= fun x => rhs.evaluate c.types σ >>= (ofPrimitive p).arith op x := by
    funext σ
    rw [Expr.evaluate, hprim.operand]
  -- The machine reads the count of a shift at the type of the result.
  have hcount (x : Int) (w : UInt64) : (ofPrimitive p).arith op x ((ofPrimitive p).read w) =
      (ofPrimitive p).arith op x ((ofPrimitive q).read w) := by
    by_cases hop : op.group = .shift
    · refine arith_shift_congr hop x ?_
      rw [read_emod_64 hint, read_emod_64 (isInteger_ofPrimitive hr.isInteger)]
    · rw [hsame hop]
  rw [ComputesExpr, expr_arith hid hltype hlshape hrtype hrshape, hvalue]
  refine Computes.some (operation_computes hF ihl.need ihr.need (TypeTable.operand_of_builtin hshape) hint
    (isFloat_eq_false hr.isInteger hrshape) (fun n => evaluate_of_integer? hr)
    (by simp [Ordinary, opcodeOf])
    fun i left rest target pc ρ w touched hi hop htype hdest hsrcs hoperands htouched => ?_)
  have hyields := yields_arith hi hdest htouched hop hsrcs hoperands (htype ▸ hint)
  rw [htype, hcount] at hyields
  exact hyields

lemma compare (hprim : c.types.IsPrimitive note.type .bool) (hsame : q = p) :
    ComputesExpr code dF vars c (.binary note (.compare rel) lhs rhs) .bool := by
  subst hsame
  obtain ⟨id, hid, -⟩ := hprim
  obtain ⟨l, hltype, hlshape⟩ := hl.isPrimitive
  obtain ⟨r, hrtype, hrshape⟩ := hr.isPrimitive
  have hint := isInteger_ofPrimitive hl.isInteger
  have hcode : expr c (.binary note (.compare rel) lhs rhs) .value =
      some <$> operation c (.compare rel) rhs l r id (need (expr c lhs .value))
        (need (expr c rhs .value)) := by
    simp [expr, hid, binary, typeOf, hltype, hrtype]
  rw [ComputesExpr, hcode]
  refine Computes.some (operation_computes hF ihl.need ihr.need (TypeTable.operand_of_builtin hlshape) hint
    (isFloat_eq_false hr.isInteger hrshape) (fun n => evaluate_of_integer? hr)
    (by simp [Ordinary, opcodeOf])
    fun i left rest target pc ρ w touched hi hop htype hdest hsrcs hoperands htouched => ?_)
  have hyields := yields_compare hi hdest htouched hop hsrcs hoperands (htype ▸ hint)
  rw [htype] at hyields
  exact hyields

end

lemma connective (hop : op = .and ∨ op = .or) (hprim : c.types.IsPrimitive note.type .bool)
    (ihl : ComputesExpr code dF vars c lhs .bool) (ihr : ComputesExpr code dF vars c rhs .bool) :
    ComputesExpr code dF vars c (.binary note op lhs rhs) .bool := by
  obtain ⟨id, hid, -⟩ := hprim
  have hcode : expr c (.binary note op lhs rhs) .value = some <$>
      shortCircuit (decide (op = .and)) (need (expr c lhs .value)) (need (expr c rhs .value)) := by
    obtain rfl | rfl := hop <;> simp [expr, hid, binary]
  have hvalue : (Expr.binary note op lhs rhs).evaluate c.types = fun σ =>
      lhs.evaluate c.types σ >>= fun x =>
        if decide (x = 0) = decide (op = .and) then .ok x else rhs.evaluate c.types σ := by
    funext σ
    obtain rfl | rfl := hop <;> simp [Expr.evaluate, pure, Except.pure]
  rw [ComputesExpr, hcode, hvalue]
  exact (shortCircuit_computes hF ihl.need ihr.need).some

lemma negation (hop : op = .negate ∨ op = .complement) (hprim : c.types.IsPrimitive note.type p)
    (h : operand.Scalar c.types vars p) (ih : ComputesExpr code dF vars c operand p) :
    ComputesExpr code dF vars c (.unary note op operand) p := by
  obtain ⟨id, hid, hshape⟩ := id hprim
  have hint := isInteger_ofPrimitive h.isInteger
  obtain ⟨opcode, f, hopcode, hcode, hf⟩ : ∃ (opcode : Opcode) (f : Int → Int),
      (opcode = .negate ∨ opcode = .bitwiseNot) ∧
      (expr c (.unary note op operand) .value =
        some <$> unaryOperation opcode (c.operand id) (need (expr c operand .value)) ∧
      (unary note op operand).evaluate c.types = fun σ => operand.evaluate c.types σ >>=
        fun x => .ok ((c.types.operand note.type).reduce (f x))) ∧
      ∀ w, (Machine.unary opcode (.ofPrimitive p) w).map (ofPrimitive p).read =
        .ok ((ofPrimitive p).reduce (f ((ofPrimitive p).read w))) := by
    obtain rfl | rfl := hop
    · exact ⟨.negate, (- ·), .inl rfl, ⟨by simp [expr, hid], rfl⟩, map_read_negate hint⟩
    · exact ⟨.bitwiseNot, (- · - 1), .inr rfl, ⟨by simp [expr, hid], rfl⟩, map_read_bitwiseNot hint⟩
  rw [ComputesExpr, hcode.1, hcode.2, hprim.operand, Env.operand,
    TypeTable.operand_of_builtin hshape]
  refine (unaryOperation_computes hF ih.need (by obtain rfl | rfl := hopcode <;> trivial)
    fun _ _ _ _ _ htouched hi => ?_).some
  exact yields_unary hi rfl htouched rfl hopcode rfl hint (hf _)

lemma not (hprim : c.types.IsPrimitive note.type .bool) (h : operand.Scalar c.types vars p)
    (ih : ComputesExpr code dF vars c operand p) :
    ComputesExpr code dF vars c (.unary note .not operand) .bool := by
  obtain ⟨id, hid, -⟩ := hprim
  obtain ⟨o, hotype, hoshape⟩ := h.isPrimitive
  have hoper : c.operand o = .ofPrimitive p := TypeTable.operand_of_builtin hoshape
  have hcode : expr c (.unary note .not operand) .value =
      some <$> unaryOperation .logicalNot (.ofPrimitive p) (need (expr c operand .value)) := by
    simp [expr, hid, typeOf, hotype, hoper]
  rw [ComputesExpr, hcode]
  refine (unaryOperation_computes hF ih.need (by trivial) fun _ _ _ _ _ htouched hi => ?_).some
  exact yields_logicalNot hi rfl htouched rfl rfl (isInteger_ofPrimitive h.isInteger)

lemma conditional (hprim : c.types.IsPrimitive note.type p) (hc : cond.Scalar c.types vars q)
    (hp : p.isInteger = true) (ihc : ComputesExpr code dF vars c cond q)
    (ihy : ComputesExpr code dF vars c yes p) (ihn : ComputesExpr code dF vars c no p) :
    ComputesExpr code dF vars c (.conditional note cond yes no) p := by
  obtain ⟨id, hid, hshape⟩ := hprim
  obtain ⟨o, hotype, hoshape⟩ := hc.isPrimitive
  have hvoid : (c.operand id).isVoid = false := by
    rw [Env.operand, TypeTable.operand_of_builtin hshape]
    exact isVoid_eq_false (isInteger_ofPrimitive hp)
  have hcode : expr c (.conditional note cond yes no) .value =
      Gen.conditional c cond id (need (expr c cond .value)) (expr c yes .value)
        (expr c no .value) := by
    simp [expr, hid]
  rw [ComputesExpr, hcode]
  exact conditional_computes hF hvoid hotype (TypeTable.operand_of_builtin hoshape)
    (isInteger_ofPrimitive hc.isInteger) ihc.need ihy ihn

lemma cast (hprim : c.types.IsPrimitive note.type p) (htgt : c.types.IsPrimitive (some target) p)
    (hp : p.isInteger = true) (h : operand.Scalar c.types vars q)
    (ih : ComputesExpr code dF vars c operand q) :
    ComputesExpr code dF vars c (.cast note operand target isImplicit) p := by
  obtain ⟨id, hid, -⟩ := hprim
  obtain ⟨_, ⟨⟩, htshape⟩ := htgt
  obtain ⟨source, hstype, hsshape⟩ := h.isPrimitive
  have hsoper := TypeTable.operand_of_builtin hsshape
  have htoper := TypeTable.operand_of_builtin htshape
  have hvoid : c.types.isVoid target = false := by
    have hne : p ≠ .void := by rintro rfl; cases hp
    simp [TypeTable.isVoid, htshape, hne]
  have hsint := isInteger_ofPrimitive h.isInteger
  have hcode : expr c (.cast note operand target isImplicit) .value =
      Gen.cast c source target (expr c operand .value) := by
    simp [expr, hid, typeOf, hstype]
  have hvalue : (Expr.cast note operand target isImplicit).evaluate c.types = fun σ =>
      operand.evaluate c.types σ >>= fun x =>
        if c.types.isBool target && !c.types.isBool source then .ok (decide (x ≠ 0)).toInt
        else .ok ((ofPrimitive p).reduce x) := by
    funext σ
    simp only [Expr.evaluate, hstype, any_some, htoper]
    rfl
  rw [ComputesExpr, hcode, hvalue, handed?, h.isPrimitive.operand, htoper, hstype]
  intro d o d' hd hplaces hrun
  obtain ⟨found, d1, hfound, hrun⟩ := bind_eq_ok hrun
  obtain ⟨s, rfl, hs⟩ := ih d found d1 hd hplaces hfound
  simp only [hvoid, Bool.false_eq_true, if_false, need, pure_bind, Env.operand, hsoper, htoper] at hrun
  split at hrun
  · next htest =>
    -- Whatever is not zero is true.
    obtain rfl : p = .bool := by
      have hbool : c.types.isBool target = true := (Bool.and_eq_true_iff.1 htest).1
      simpa [TypeTable.isBool, htshape] using hbool
    obtain ⟨r, rfl, hr⟩ := map_eq_ok hrun
    refine ⟨r, rfl, ?_⟩
    simp only [any_some, htest, if_true]
    refine hs.apply hF hd
      (fun s r => { opcode := .compare .ne, type := .ofPrimitive q, destination := some r
                    sources := [s], immediates := [.integer 0] })
      (fun x => .ok (decide (x ≠ 0)).toInt) (fun _ _ => by simp [Ordinary])
      (fun _ _ => rfl) (fun _ _ _ => rfl) (fun s target pc ρ _ hi htouched => ?_) hr
    have hzero : (ofPrimitive q).read (0 : Int64).toUInt64 = 0 := by
      rw [read_toUInt64 hsint]
      simp [OperandType.reduce]
    have hcompare := yields_compare (ρ := ρ) hi rfl htouched rfl rfl
      (.immediate rfl rfl hsint) hsint
    have hne (x : Int) : Relation.ne.test x 0 = decide (x ≠ 0) := by
      rw [Relation.test, decide_not]
      rfl
    rw [hzero, hne] at hcompare
    exact hcompare
  · next htest =>
    simp only [any_some, htest, Bool.false_eq_true, if_false]
    split at hrun
    · next hsame =>
      cases hrun
      rw [if_pos hsame]
      rw [hsame] at hs
      exact ⟨s, rfl, hs.reduce⟩
    · next hother =>
      obtain ⟨r, rfl, hr⟩ := map_eq_ok hrun
      refine ⟨r, rfl, ?_⟩
      rw [if_neg hother]
      refine hs.apply hF hd
        (fun s r => { opcode := .convert, type := .ofPrimitive p, destination := some r
                      sources := [s], sourceTypes := [.ofPrimitive q] })
        (fun x => .ok ((ofPrimitive p).reduce x)) (fun _ _ => by simp [Ordinary])
        (fun _ _ => rfl) (fun _ _ _ => rfl) (fun s target pc ρ _ hi htouched => ?_) hr
      exact yields_convert hi rfl htouched rfl rfl rfl (isInteger_ofPrimitive hp) hsint

end ComputesExpr

/-- The code for an integer expression computes its value. -/
lemma expr_computes (hF : Finished code dF) (c : Env)
    (hvars : ∀ x p, vars x = some p → (c.scopes.symbol x).kind ≠ .function) {e : Expr}
    (h : e.Scalar c.types vars p) : ComputesExpr code dF vars c e p := by
  induction h with
  | literal hprim hp hn => exact .literal hF hprim hp hn
  | @name _ _ x p hprim _ hx => exact .name hprim hx (hvars x p hx)
  | arith hprim hl hr hsame ihl ihr => exact .arith hF hl hr ihl ihr hprim hsame
  | compare hprim hl hr ihl ihr => exact .compare hF hl hr ihl ihr hprim rfl
  | connective hop hprim _ _ ihl ihr => exact .connective hF hop hprim ihl ihr
  | negation hop hprim h ih => exact .negation hF hop hprim h ih
  | not hprim h ih => exact .not hF hprim h ih
  | conditional hprim hc hy _ ihc ihy ihn =>
    exact .conditional hF hprim hc hy.isInteger ihc ihy ihn
  | cast hprim htgt hp h ih => exact .cast hF hprim htgt hp h ih

end

end Gen

end CompilerCore.Code

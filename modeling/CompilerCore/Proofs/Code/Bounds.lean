import CompilerCore.Code.Program
import CompilerCore.Proofs.Tree.Induction
import Mathlib.Order.Nat

/-!
# Code within bounds

While code is made, registers and blocks are only added, and so are statics.  Hence an instruction
that names existing ones when it is made does so in the finished method.  The draft of a method is
*sound* when all its instructions name existing things, all its branches wait for a label, and no
label stands past the end.  Every step of making code keeps a sound draft sound.
-/

namespace CompilerCore.Code

open Array

/-! ## Instructions that fit a method -/

/-- A module has a static slot of this name. -/
def HasStatic (statics : List Static) (name : String) : Prop := ∃ slot ∈ statics, slot.name = name

/-- An instruction all of whose registers, blocks and statics exist. -/
structure Instruction.Fits (registerCount blockCount : Nat) (statics : List Static)
    (i : Instruction) : Prop where
  registers : ∀ r ∈ i.registers, r.index < registerCount
  registerAddress : i.opcode = .registerAddress →
    ∃ index < registerCount, i.immediates = [.integer (Int64.ofNat index)]
  blockAddress : i.opcode = .blockAddress →
    ∃ index < blockCount, i.immediates = [.integer (Int64.ofNat index)]
  staticAddress : i.opcode = .staticAddress →
    ∃ name, i.symbol = some name ∧ HasStatic statics name

namespace Instruction.Fits

variable {registers registers' blocks blocks' : Nat} {statics statics' : List Static}
  {i : Instruction}

lemma mono (h : i.Fits registers blocks statics) (hr : registers ≤ registers')
    (hb : blocks ≤ blocks') (hs : statics ⊆ statics') : i.Fits registers' blocks' statics' where
  registers r hmem := (h.registers r hmem).trans_le hr
  registerAddress hop := by
    obtain ⟨index, hlt, himm⟩ := h.registerAddress hop
    exact ⟨index, hlt.trans_le hr, himm⟩
  blockAddress hop := by
    obtain ⟨index, hlt, himm⟩ := h.blockAddress hop
    exact ⟨index, hlt.trans_le hb, himm⟩
  staticAddress hop := by
    obtain ⟨name, hsym, slot, hmem, hname⟩ := h.staticAddress hop
    exact ⟨name, hsym, slot, hs hmem, hname⟩

/-- An instruction that takes no address need only have its registers in range. -/
lemma of_registers (hregs : ∀ r ∈ i.registers, r.index < registers)
    (hop : i.opcode ≠ .registerAddress ∧ i.opcode ≠ .blockAddress ∧ i.opcode ≠ .staticAddress) :
    i.Fits registers blocks statics where
  registers := hregs
  registerAddress h := absurd h hop.1
  blockAddress h := absurd h hop.2.1
  staticAddress h := absurd h hop.2.2

lemma retarget (h : i.Fits registers blocks statics) (hr : r.index < registers) :
    ({ i with destination := some r } : Instruction).Fits registers blocks statics where
  registers s hs := by
    simp only [Instruction.registers, Option.toList_some, List.cons_append, List.nil_append,
      List.mem_cons] at hs
    obtain rfl | hs := hs
    · exact hr
    · exact h.registers s (by simp [Instruction.registers, hs])
  registerAddress := h.registerAddress
  blockAddress := h.blockAddress
  staticAddress := h.staticAddress

end Instruction.Fits

/-! ## Instructions with all their parts -/

namespace Instruction

variable (i : Instruction)

/-- Whether an instruction carries a constant. -/
def hasNumber : Bool := i.immediates.head?.any fun
  | .integer _ | .float _ => true
  | .offset _ => false

/-- A destination and two operands. -/
def hasOperands : Bool :=
  i.destination.isSome && !i.sources.isEmpty && (decide (1 < i.sources.length) || i.hasNumber)

/-- An instruction that has the parts its operation needs, and whose operation its type has. -/
def isFormed : Bool :=
  let hasInteger := (i.immediates.head? >>= Immediate.integer?).isSome
  let hasSource := i.destination.isSome && !i.sources.isEmpty
  let hasTarget := i.immediates.head?.any (· matches .offset _)
  match i.opcode with
  | .nop | .jumpIndirect | .ret | .abort | .debugTrap | .inlineAsm => true
  | .jump => hasTarget
  | .loadImmediate => i.destination.isSome && i.hasNumber
  | .registerAddress | .blockAddress => i.destination.isSome && hasInteger
  | .move | .negate | .logicalNot | .load => hasSource
  | .bitwiseNot => hasSource && i.type.kind != .float
  | .arith op => i.hasOperands && (i.type.kind != .float || decide (op.group = .numeric))
  | .compare _ => i.hasOperands
  | .convert => hasSource && !i.sourceTypes.isEmpty
  | .store => decide (1 < i.sources.length)
  | .blockCopy => decide (1 < i.sources.length) && hasInteger
  | .branchIfZero | .branchIfNotZero => !i.sources.isEmpty && hasTarget
  | .staticAddress | .functionAddress => i.destination.isSome && i.symbol.isSome
  | .call => i.symbol.isSome

variable {i}

lemma isFormed_retarget (h : i.isFormed = true) (target : Register) :
    ({ i with destination := some target } : Instruction).isFormed = true := by
  cases hop : i.opcode <;> simp_all [isFormed, hasOperands, hasNumber]

lemma isFormed_branch {opcode : Opcode} (hop : opcode.isBranch = true) {cond : Option Register}
    (h : opcode = .jump ∨ cond.isSome) (type : OperandType) :
    ({ opcode, type, sources := cond.toList, immediates := [.offset 0] } :
      Instruction).isFormed = true := by
  cases cond <;> cases opcode <;> simp_all [isFormed, Opcode.isBranch]

end Instruction

/-! ## Additions to a draft -/

namespace Draft

def addRegister (d : Draft) : Draft := { d with registerCount := d.registerCount + 1 }

def addLabelName (d : Draft) : Draft := { d with nextLabel := d.nextLabel + 1 }

def add (d : Draft) (i : Instruction) : Draft := { d with instructions := d.instructions.push i }

def addBranch (d : Draft) (i : Instruction) (label : String) : Draft :=
  { d with
    pendingBranches := (d.instructions.size, label) :: d.pendingBranches
    instructions := d.instructions.push i }

def addLabel (d : Draft) (name : String) : Draft :=
  { d with labels := d.labels.insert name d.instructions.size }

/-- Makes the last instruction write elsewhere. -/
def retarget (d : Draft) (target : Register) : Draft :=
  { d with
    instructions := d.instructions.modify (d.instructions.size - 1) fun i =>
      { i with destination := some target } }

def addVariable (d : Draft) (x : SymbolId) (r : Register) (name : String) : Draft :=
  { d with
    registerCount := d.registerCount + 1
    locals := d.locals ++ [⟨name, r⟩]
    storage := (x, .register r) :: d.storage }

variable (d : Draft) (i : Instruction) (label : String) (target : Register)

@[simp] lemma registerCount_addRegister : d.addRegister.registerCount = d.registerCount + 1 := rfl
@[simp] lemma registerCount_addLabelName : d.addLabelName.registerCount = d.registerCount := rfl
@[simp] lemma registerCount_add : (d.add i).registerCount = d.registerCount := rfl
@[simp] lemma registerCount_addBranch : (d.addBranch i label).registerCount = d.registerCount := rfl
@[simp] lemma registerCount_addLabel : (d.addLabel label).registerCount = d.registerCount := rfl

@[simp] lemma instructions_addRegister : d.addRegister.instructions = d.instructions := rfl
@[simp] lemma instructions_addLabelName : d.addLabelName.instructions = d.instructions := rfl
@[simp] lemma instructions_addLabel : (d.addLabel label).instructions = d.instructions := rfl

@[simp] lemma size_add : (d.add i).instructions.size = d.instructions.size + 1 :=
  size_push ..

@[simp] lemma size_addBranch : (d.addBranch i label).instructions.size = d.instructions.size + 1 :=
  size_push ..

@[simp] lemma size_retarget : (d.retarget target).instructions.size = d.instructions.size :=
  size_modify ..

end Draft

/-! ## Sound drafts -/

/-- The registers, blocks and statics of one draft are among those of another. -/
structure Draft.Below (d d' : Draft) : Prop where
  registers : d.registerCount ≤ d'.registerCount
  blocks : d.blocks.length ≤ d'.blocks.length
  statics : d.statics.slots ⊆ d'.statics.slots

/-- An instruction refers only to what a draft has. -/
def Draft.Fits (d : Draft) (i : Instruction) : Prop :=
  i.Fits d.registerCount d.blocks.length d.statics.slots

/-- What a storage names is there in a draft. -/
def Draft.HasStorage (d : Draft) : Storage → Prop
  | .register r | .indirect r => r.index < d.registerCount
  | .block index => index < d.blocks.length
  | .static name => HasStatic d.statics.slots name

/-- Statics whose names for variables and texts are the names of slots. -/
structure StaticLayout.Sound (s : StaticLayout) : Prop where
  symbols : ∀ entry ∈ s.symbols, HasStatic s.slots entry.2
  texts : ∀ entry ∈ s.texts, HasStatic s.slots entry.2

/-- A method under construction in which all that is named exists. -/
structure Draft.Sound (d : Draft) : Prop where
  fits : ∀ i ∈ d.instructions, d.Fits i
  noReturn : ∀ i ∈ d.instructions, i.opcode ≠ .ret
  /-- Exactly the branches wait for a label. -/
  branches : ∀ j i, d.instructions[j]? = some i →
    (i.opcode.isBranch = true ↔ ∃ label, (j, label) ∈ d.pendingBranches)
  pending : ∀ entry ∈ d.pendingBranches, entry.1 < d.instructions.size
  ordered : d.pendingBranches.Pairwise fun entry other => other.1 < entry.1
  labels : ∀ entry ∈ d.labels, entry.2 ≤ d.instructions.size
  storage : ∀ entry ∈ d.storage, d.HasStorage entry.2
  result : ∀ r ∈ d.returnRegister, r.index < d.registerCount
  parameters : d.parameters.length ≤ d.registerCount
  statics : d.statics.Sound

namespace Draft

variable {d d' d'' : Draft}

lemma Below.refl (d : Draft) : d.Below d := ⟨le_rfl, le_rfl, List.Subset.refl _⟩

lemma Below.trans (h : d.Below d') (h' : d'.Below d'') : d.Below d'' :=
  ⟨h.registers.trans h'.registers, h.blocks.trans h'.blocks, List.Subset.trans h.statics h'.statics⟩

lemma Below.register (h : d.Below d') {r : Register} (hr : r.index < d.registerCount) :
    r.index < d'.registerCount :=
  hr.trans_le h.registers

lemma Below.fits (h : d.Below d') (hi : d.Fits i) : d'.Fits i :=
  hi.mono h.registers h.blocks h.statics

lemma Below.hasStatic (h : d.Below d') {name : String} (hn : HasStatic d.statics.slots name) :
    HasStatic d'.statics.slots name := by
  obtain ⟨slot, hmem, hname⟩ := hn
  exact ⟨slot, h.statics hmem, hname⟩

lemma Below.hasStorage (h : d.Below d') (hs : d.HasStorage s) : d'.HasStorage s := by
  cases s with
  | register => exact h.register hs
  | indirect => exact h.register hs
  | block => exact Nat.lt_of_lt_of_le hs h.blocks
  | static => exact h.hasStatic hs

namespace Sound

/-- A sound draft stays sound when registers, blocks and statics are added. -/
lemma grow (hd : d.Sound) (h : d.Below d') (hcode : d'.instructions = d.instructions)
    (hpend : d'.pendingBranches = d.pendingBranches) (hlabs : d'.labels = d.labels)
    (hstor : ∀ entry ∈ d'.storage, d'.HasStorage entry.2)
    (hres : ∀ r ∈ d'.returnRegister, r.index < d'.registerCount)
    (hparams : d'.parameters.length ≤ d'.registerCount) (hstat : d'.statics.Sound) : d'.Sound where
  fits i hi := h.fits (hd.fits i (hcode ▸ hi))
  noReturn i hi := hd.noReturn i (hcode ▸ hi)
  branches := by rw [hcode, hpend]; exact hd.branches
  pending := by rw [hcode, hpend]; exact hd.pending
  ordered := by rw [hpend]; exact hd.ordered
  labels := by rw [hcode, hlabs]; exact hd.labels
  storage := hstor
  result := hres
  parameters := hparams
  statics := hstat

lemma emit (hd : d.Sound) {i : Instruction} (hi : d.Fits i) (hret : i.opcode ≠ .ret)
    (hbr : i.opcode.isBranch = false) :
    ({ d with instructions := d.instructions.push i } : Draft).Sound where
  fits j hj := by
    obtain hj | rfl := mem_push.1 hj
    · exact hd.fits j hj
    · exact hi
  noReturn j hj := by
    obtain hj | rfl := mem_push.1 hj
    · exact hd.noReturn j hj
    · exact hret
  branches j k hk := by
    rw [getElem?_push] at hk
    split at hk
    · next heq =>
      obtain rfl : i = k := by simpa using hk
      refine ⟨fun h => by simp [hbr] at h, fun ⟨label, hmem⟩ => ?_⟩
      -- No branch waits at the end of the code.
      exact absurd (hd.pending _ hmem) (by simp [heq])
    · exact hd.branches j k hk
  pending entry hmem := by
    rw [size_push]
    exact (hd.pending entry hmem).trans (Nat.lt_succ_self _)
  ordered := hd.ordered
  labels entry hmem := by
    rw [size_push]
    exact (hd.labels entry hmem).trans (Nat.le_succ _)
  storage := hd.storage
  result := hd.result
  parameters := hd.parameters
  statics := hd.statics

lemma branch (hd : d.Sound) (hi : d.Fits i) (hbr : i.opcode.isBranch = true) (label : String) :
    ({ d with
        pendingBranches := (d.instructions.size, label) :: d.pendingBranches
        instructions := d.instructions.push i } : Draft).Sound where
  fits j hj := by
    obtain hj | rfl := mem_push.1 hj
    · exact hd.fits j hj
    · exact hi
  noReturn j hj := by
    obtain hj | rfl := mem_push.1 hj
    · exact hd.noReturn j hj
    · intro hret
      simp [hret, Opcode.isBranch] at hbr
  branches j k hk := by
    rw [getElem?_push] at hk
    split at hk
    · next heq =>
      obtain rfl : i = k := by simpa using hk
      exact ⟨fun _ => ⟨label, by simp [heq]⟩, fun _ => hbr⟩
    · next hne =>
      rw [hd.branches j k hk]
      simp [hne]
  pending entry hmem := by
    rw [size_push]
    obtain rfl | hmem := List.mem_cons.1 hmem
    · exact Nat.lt_succ_self _
    · exact (hd.pending entry hmem).trans (Nat.lt_succ_self _)
  ordered := List.pairwise_cons.2 ⟨hd.pending, hd.ordered⟩
  labels entry hmem := by
    rw [size_push]
    exact (hd.labels entry hmem).trans (Nat.le_succ _)
  storage := hd.storage
  result := hd.result
  parameters := hd.parameters
  statics := hd.statics

lemma retarget (hd : d.Sound) (hr : r.index < d.registerCount) (k : Nat) :
    ({ d with
        instructions := d.instructions.modify k fun i =>
          { i with destination := some r } } : Draft).Sound where
  fits j hj := by
    obtain ⟨n, hn, rfl⟩ := mem_iff_getElem.1 hj
    rw [getElem_modify]
    split
    · exact (hd.fits _ (getElem_mem _)).retarget hr
    · exact hd.fits _ (getElem_mem _)
  noReturn j hj := by
    obtain ⟨n, hn, rfl⟩ := mem_iff_getElem.1 hj
    have hn' : n < d.instructions.size := by simpa using hn
    rw [getElem_modify]
    split
    · exact hd.noReturn d.instructions[n] (getElem_mem hn')
    · exact hd.noReturn d.instructions[n] (getElem_mem hn')
  branches j i hi := by
    rw [getElem?_modify] at hi
    split at hi
    · obtain ⟨i', hi', rfl⟩ := Option.map_eq_some_iff.1 hi
      exact hd.branches j i' hi'
    · exact hd.branches j i hi
  pending := by simpa using hd.pending
  ordered := hd.ordered
  labels := by simpa using hd.labels
  storage := hd.storage
  result := hd.result
  parameters := hd.parameters
  statics := hd.statics

end Sound

end Draft

end CompilerCore.Code

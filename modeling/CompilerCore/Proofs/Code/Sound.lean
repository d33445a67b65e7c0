import CompilerCore.Proofs.Code.Bounds
import CompilerCore.Proofs.Except

/-!
# Steps that keep drafts sound

A single step of making code is *safe* when it loses nothing and leads from a sound draft to a sound
one.
-/

namespace CompilerCore.Code.Gen

variable {α β : Type} {d : Draft}

/-- Whenever the step succeeds on the draft, nothing is lost and the new draft is sound. -/
def Safe (d : Draft) (g : Gen α) : Prop := ∀ a d', g d = .ok (a, d') → d.Below d' ∧ d'.Sound

lemma bind_eq_ok {f : α → Gen β} (h : (g >>= f) d = .ok (b, d')) :
    ∃ a d1, g d = .ok (a, d1) ∧ f a d1 = .ok (b, d') := by
  obtain ⟨p, hg, hf⟩ := ok_of_bind h
  exact ⟨p.1, p.2, hg, hf⟩

lemma map_eq_ok {g : Gen α} {f : α → β} (h : (f <$> g) d = .ok (b, d')) :
    ∃ a, f a = b ∧ g d = .ok (a, d') := by
  rw [map_eq_pure_bind] at h
  obtain ⟨a, _, hg, h⟩ := bind_eq_ok h
  cases h
  exact ⟨a, rfl, hg⟩

/-! ## Instructions -/

/-- An instruction that does not leave its place in the code. -/
def Plain (i : Instruction) : Prop := i.opcode ≠ .ret ∧ i.opcode.isBranch = false

lemma emit_safe (hd : d.Sound) (hi : d.Fits i) (hplain : Plain i) : Safe d (emit i) := by
  rintro _ _ ⟨⟩
  exact ⟨⟨le_rfl, le_rfl, List.Subset.refl _⟩, hd.emit hi hplain.1 hplain.2⟩

lemma register_safe (hd : d.Sound) (storage : StorageClass) : Safe d (register storage) := by
  rintro _ _ ⟨⟩
  have hbelow : d.Below { d with registerCount := d.registerCount + 1 } :=
    ⟨Nat.le_succ _, le_rfl, List.Subset.refl _⟩
  refine ⟨hbelow, ?_⟩
  exact hd.grow hbelow rfl rfl rfl (fun entry h => hbelow.hasStorage (hd.storage entry h))
    (fun r h => hbelow.register (hd.result r h)) (hd.parameters.trans (Nat.le_succ _)) hd.statics

/-- An opcode that neither leaves its place in the code nor takes an address by number or name. -/
def Ordinary : Opcode → Prop
  | .ret | .jump | .branchIfZero | .branchIfNotZero | .registerAddress | .blockAddress
  | .staticAddress => False
  | .nop | .loadImmediate | .move | .arith _ | .negate | .bitwiseNot | .logicalNot | .compare _
  | .convert | .load | .store | .functionAddress | .blockCopy | .jumpIndirect | .call | .abort
  | .debugTrap | .inlineAsm => True

lemma Ordinary.plain (h : Ordinary i.opcode) : Plain i := by
  unfold Plain
  cases hop : i.opcode <;> simp_all [Ordinary, Opcode.isBranch]

lemma Ordinary.takesNoAddress (h : Ordinary opcode) :
    opcode ≠ .registerAddress ∧ opcode ≠ .blockAddress ∧ opcode ≠ .staticAddress := by
  refine ⟨?_, ?_, ?_⟩ <;> rintro rfl <;> exact h

lemma emit_ordinary_safe (hd : d.Sound) (hop : Ordinary i.opcode)
    (hregs : ∀ r ∈ i.registers, r.index < d.registerCount) : Safe d (emit i) :=
  emit_safe hd (.of_registers hregs hop.takesNoAddress) hop.plain

/-! ## Labels -/

lemma newLabel_safe (hd : d.Sound) : Safe d newLabel := by
  rintro _ _ ⟨⟩
  have hbelow : d.Below { d with nextLabel := d.nextLabel + 1 } :=
    ⟨le_rfl, le_rfl, List.Subset.refl _⟩
  exact ⟨hbelow, hd.grow hbelow rfl rfl rfl hd.storage hd.result hd.parameters hd.statics⟩

lemma addLabel_sound (hd : d.Sound) (name : String) : (d.addLabel name).Sound :=
  { hd with
    labels := fun entry h => by
      obtain rfl | h := List.mem_cons.1 h
      · exact le_rfl
      · exact hd.labels entry (List.mem_filter.1 h).1 }

lemma branch_safe (hd : d.Sound) {cond : Option Register} (hop : opcode.isBranch = true)
    (hcond : ∀ r ∈ cond, r.index < d.registerCount) (type : OperandType) (label : String) :
    Safe d (branch opcode cond type label) := by
  have hne (other : Opcode) (hother : other.isBranch = false) : opcode ≠ other := by
    rintro rfl
    exact absurd hop (by simp [hother])
  rintro _ _ ⟨⟩
  refine ⟨⟨le_rfl, le_rfl, List.Subset.refl _⟩, hd.branch ?_ hop label⟩
  refine .of_registers (fun r hr => hcond r ?_) ⟨hne _ rfl, hne _ rfl, hne _ rfl⟩
  simpa [Instruction.registers] using hr

/-! ## Statics -/

lemma allocate_sound {s : StaticLayout} (hs : s.Sound) (name : String) (size : UInt64)
    (data : List UInt8) :
    s.slots ⊆ (s.allocate name size data).slots ∧ (s.allocate name size data).Sound ∧
      HasStatic (s.allocate name size data).slots name := by
  have hsub : s.slots ⊆ (s.allocate name size data).slots := by
    simp [StaticLayout.allocate]
  refine ⟨hsub, ⟨fun entry h => ?_, fun entry h => ?_⟩, ?_⟩
  · obtain ⟨slot, hmem, hname⟩ := hs.symbols entry h
    exact ⟨slot, hsub hmem, hname⟩
  · obtain ⟨slot, hmem, hname⟩ := hs.texts entry h
    exact ⟨slot, hsub hmem, hname⟩
  · simp [HasStatic, StaticLayout.allocate]

lemma text_sound {s : StaticLayout} (hs : s.Sound) (value : String) :
    s.slots ⊆ (s.text value).2.slots ∧ (s.text value).2.Sound ∧
      HasStatic (s.text value).2.slots (s.text value).1 := by
  unfold StaticLayout.text
  split
  · next name h => exact ⟨List.Subset.refl _, hs, hs.texts _ (mem_of_lookup h)⟩
  · dsimp only
    obtain ⟨hsub, hsound, hname⟩ := allocate_sound hs ("$str" ++ toString s.texts.length)
      (UInt64.ofNat (value.toUTF8.data.toList ++ [0]).length) (value.toUTF8.data.toList ++ [0])
    refine ⟨hsub, ⟨hsound.symbols, fun entry h => ?_⟩, hname⟩
    obtain h | rfl := List.mem_append.1 h |>.imp_right List.mem_singleton.1
    · exact hsound.texts entry h
    · exact hname

end CompilerCore.Code.Gen

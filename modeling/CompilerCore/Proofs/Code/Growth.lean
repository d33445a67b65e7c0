import CompilerCore.Proofs.Code.Sound

/-!
# Growth of a method

Making code only adds to a method: what stands in the draft after one construct still stands there,
at the same place, when the method is finished.  Variables keep their places, and those that get one
later get a register that is new then.  So what a stretch of code does can be told from the draft in
which it was made.
-/

namespace CompilerCore.Code

open List

namespace Gen

variable {d d' : Draft}

lemma register_eq_ok (h : register storage d = .ok (r, d')) :
    r = ⟨d.registerCount, storage⟩ ∧ d' = d.addRegister := by
  cases h
  exact ⟨rfl, rfl⟩

lemma newLabel_eq_ok {name : String} (h : newLabel d = .ok (name, d')) : d' = d.addLabelName := by
  cases h
  rfl

lemma emit_eq_ok (h : emit i d = .ok ((), d')) : d' = d.add i := by
  cases h
  rfl

lemma branch_eq_ok {cond : Option Register} (h : branch opcode cond type label d = .ok ((), d')) :
    ∃ i : Instruction, i.opcode = opcode ∧ i.type = type ∧ i.sources = cond.toList ∧
      d' = d.addBranch i label := by
  cases h
  exact ⟨_, rfl, rfl, rfl, rfl⟩

lemma defineLabel_eq_ok {name : String} (h : defineLabel name d = .ok ((), d')) :
    d.labels.find? name = none ∧ d' = d.addLabel name := by
  obtain ⟨_, _, hget, h⟩ := bind_eq_ok h
  cases hget
  cases hfind : d.labels.find? name with
  | some =>
    rw [hfind] at h
    cases h
  | none =>
    rw [hfind] at h
    cases h
    exact ⟨rfl, rfl⟩

lemma defineLabel_safe (hd : d.Sound) (name : String) : Safe d (defineLabel name) := by
  intro _ d' h
  obtain ⟨-, rfl⟩ := defineLabel_eq_ok h
  exact ⟨⟨le_rfl, le_rfl, List.Subset.refl _⟩, addLabel_sound hd name⟩

end Gen

/-! ## Growth -/

/-- One draft of a method becomes another by adding to it. -/
structure Draft.Leads (d d' : Draft) : Prop where
  size : d.instructions.size ≤ d'.instructions.size
  code : ∀ j < d.instructions.size, d'.instructions[j]? = d.instructions[j]?
  pending : ∀ entry, entry.1 < d.instructions.size →
    (entry ∈ d'.pendingBranches ↔ entry ∈ d.pendingBranches)
  labels : ∀ label offset, d.labels.find? label = some offset → d'.labels.find? label = some offset
  registers : d.registerCount ≤ d'.registerCount
  storage : ∀ x s, d.storage.lookup x = some s → d'.storage.lookup x = some s
  /-- A variable that gets a place gets a new register. -/
  fresh : ∀ x r, d'.storage.lookup x = some (.register r) →
    d.storage.lookup x = some (.register r) ∨ d.registerCount ≤ r.index
  result : d'.returnRegister = d.returnRegister
  returnType : d'.returnType = d.returnType
  aggregate : d'.returnsAggregate = d.returnsAggregate
  parameters : d'.parameters = d.parameters
  symbols : d'.statics.symbols = d.statics.symbols

namespace Draft.Leads

variable {d d' d'' : Draft}

lemma refl (d : Draft) : d.Leads d where
  size := le_rfl
  code _ _ := rfl
  pending _ _ := .rfl
  labels _ _ h := h
  registers := le_rfl
  storage _ _ h := h
  fresh _ _ h := .inl h
  result := rfl
  returnType := rfl
  aggregate := rfl
  parameters := rfl
  symbols := rfl

lemma trans (h : d.Leads d') (h' : d'.Leads d'') : d.Leads d'' where
  size := h.size.trans h'.size
  code j hj := (h'.code j (hj.trans_le h.size)).trans (h.code j hj)
  pending entry hentry := (h'.pending entry (hentry.trans_le h.size)).trans (h.pending entry hentry)
  labels label offset hlabel := h'.labels label offset (h.labels label offset hlabel)
  registers := h.registers.trans h'.registers
  storage x s hs := h'.storage x s (h.storage x s hs)
  fresh x r hr := by
    obtain hr | hr := h'.fresh x r hr
    · exact h.fresh x r hr
    · exact .inr (h.registers.trans hr)
  result := h'.result.trans h.result
  returnType := h'.returnType.trans h.returnType
  aggregate := h'.aggregate.trans h.aggregate
  parameters := h'.parameters.trans h.parameters
  symbols := h'.symbols.trans h.symbols

lemma addRegister (d : Draft) : d.Leads d.addRegister :=
  { refl d with registers := Nat.le_succ _ }

lemma addLabelName (d : Draft) : d.Leads d.addLabelName := { refl d with }

lemma add (d : Draft) (i : Instruction) : d.Leads (d.add i) :=
  { refl d with
    size := by simp
    code := fun j hj => by
      rw [Draft.add, Array.getElem?_push, if_neg (by omega)] }

lemma addBranch (d : Draft) (i : Instruction) (label : String) : d.Leads (d.addBranch i label) :=
  { refl d with
    size := by simp
    code := fun j hj => by
      rw [Draft.addBranch, Array.getElem?_push, if_neg (by omega)]
    pending := fun entry hentry => by
      refine ⟨fun h => ?_, .tail _⟩
      obtain rfl | h := mem_cons.1 h
      · exact absurd hentry (by simp)
      · exact h }

lemma retarget (h : d.Leads d') (hsize : d.instructions.size < d'.instructions.size)
    (target : Register) : d.Leads (d'.retarget target) :=
  { h with
    size := by simpa using h.size
    code := fun j hj => by
      rw [Draft.retarget, Array.getElem?_modify, if_neg (by omega)]
      exact h.code j hj }

end Draft.Leads

lemma Draft.Leads.addVariable {d : Draft} (hx : d.storage.lookup x = none)
    (hr : r.index = d.registerCount) (name : String) : d.Leads (d.addVariable x r name) :=
  { refl d with
    registers := Nat.le_succ _
    storage := fun y s hy => by
      have hne : (y == x) = false := by
        rw [beq_eq_false_iff_ne]
        rintro rfl
        rw [hx] at hy
        cases hy
      simp only [Draft.addVariable, lookup_cons, hne]
      exact hy
    fresh := fun y s hy => by
      simp only [Draft.addVariable, lookup_cons] at hy
      cases hne : y == x with
      | true =>
        rw [hne] at hy
        cases hy
        exact .inr hr.ge
      | false =>
        rw [hne] at hy
        exact .inl hy }

lemma Labels.find?_insert (labels : Labels) (name : String) (index : Nat) :
    (labels.insert name index).find? name = some index := by
  simp [Labels.insert, Labels.find?]

lemma Labels.find?_insert_of_ne {labels : Labels} {name label : String} (h : label ≠ name)
    (index : Nat) : (labels.insert name index).find? label = labels.find? label := by
  have hbeq : (label == name) = false := by simpa using h
  simp only [Labels.insert, Labels.find?, lookup_cons, hbeq]
  induction labels with
  | nil => rfl
  | cons entry _ ih =>
    by_cases hentry : entry.1 = name
    · have hne : (label == entry.1) = false := by simpa [hentry] using h
      rw [filter_cons_of_neg (by simpa using hentry), ih, lookup_cons, hne]
    · rw [filter_cons_of_pos (by simpa using hentry), lookup_cons, lookup_cons, ih]

lemma Draft.Leads.addLabel {d : Draft} {name : String} (h : d.labels.find? name = none) :
    d.Leads (d.addLabel name) :=
  { refl d with
    labels := fun label k hk => by
      have hne : label ≠ name := by
        rintro rfl
        rw [h] at hk
        cases hk
      rwa [Draft.addLabel, Labels.find?_insert_of_ne hne] }

/-! ## Memory -/

/-- Where the last block of a frame ends. -/
def blocksEnd (blocks : List Block) : UInt64 :=
  match blocks.getLast? with
  | some last => last.offset + last.size
  | none => 0

def addBlock (c : Env) (blocks : List Block) (size : UInt64) : List Block :=
  blocks ++ [⟨size, c.types.alignUp (blocksEnd blocks)⟩]

def addText (s : StaticLayout) (value : String) : StaticLayout := (s.text value).2

lemma symbols_addTexts (texts : List String) (s : StaticLayout) :
    (texts.foldl addText s).symbols = s.symbols := by
  induction texts generalizing s with
  | nil => rfl
  | cons text _ ih =>
    rw [foldl_cons, ih, addText, StaticLayout.text]
    split <;> rfl

/-- One draft has the memory of another and what was allocated since. -/
structure Draft.Allocates (c : Env) (d d' : Draft) : Prop where
  name : d'.name = d.name
  blocks : ∃ sizes : List UInt64, d'.blocks = sizes.foldl (addBlock c) d.blocks
  statics : ∃ texts : List String, d'.statics = texts.foldl addText d.statics

namespace Draft.Allocates

variable {c : Env} {d d' d'' : Draft}

lemma same (hname : d'.name = d.name) (hblocks : d'.blocks = d.blocks)
    (hstat : d'.statics = d.statics) : d.Allocates c d' :=
  ⟨hname, ⟨[], hblocks⟩, ⟨[], hstat⟩⟩

lemma trans (h : d.Allocates c d') (h' : d'.Allocates c d'') : d.Allocates c d'' := by
  obtain ⟨hname, ⟨sizes, hblocks⟩, ⟨texts, hstat⟩⟩ := h
  obtain ⟨hname', ⟨sizes', hblocks'⟩, ⟨texts', hstatics'⟩⟩ := h'
  refine ⟨hname'.trans hname, ⟨sizes ++ sizes', ?_⟩, ⟨texts ++ texts', ?_⟩⟩
  · rw [hblocks', hblocks, foldl_append]
  · rw [hstatics', hstat, foldl_append]

end Draft.Allocates

end CompilerCore.Code

import CompilerCore.Proofs.Code.Closed

/-!
# The layout of memory

Statics and the blocks of a method are placed one after the other, statics on multiples of eight and
blocks on multiples of the alignment.  As long as no sum exceeds a word, the regions do not overlap
and end where the layout ends.
-/

namespace CompilerCore.Code

open List

/-! ## Regions -/

/-- A part of memory. -/
structure Region where
  offset : Nat
  size : Nat
  deriving DecidableEq, Repr

namespace Region

def stop (r : Region) : Nat := r.offset + r.size

/-- Regions in order, each of which ends before those after it start. -/
def Apart (rs : List Region) : Prop := rs.Pairwise fun r r' => r.stop ≤ r'.offset

/-- Regions that lie between two places. -/
def Within (start stop : Nat) (rs : List Region) : Prop := ∀ r ∈ rs, start ≤ r.offset ∧ r.stop ≤ stop

end Region

/-- A region as the compiler computes it. -/
abbrev Extent := UInt64 × UInt64

/-- The region that starts at the first word and has the second one as its size. -/
def Extent.region (e : Extent) : Region := ⟨e.1.toNat, e.2.toNat⟩

/-- Where the last of some regions ends. -/
def endOf (es : List Extent) : UInt64 :=
  match es.getLast? with
  | some last => last.1 + last.2
  | none => 0

/-- Regions that were placed one after the other.  The place of each is found from the end of the
one before. -/
inductive Consecutive (place : UInt64 → UInt64) : List Extent → Prop where
  | nil : Consecutive place []
  | snoc {es : List Extent} (size : UInt64) :
    Consecutive place es → Consecutive place (es ++ [(place (endOf es), size)])

variable {es : List Extent} {s : StaticLayout}

lemma toNat_endOf (h : ∀ e ∈ es, e.region.stop < 2 ^ 64) :
    (endOf es).toNat = (es.getLast?.map fun e => e.region.stop).getD 0 := by
  unfold endOf
  cases hlast : es.getLast? with
  | none => rfl
  | some e =>
    have hlt := h e (List.mem_of_getLast? hlast)
    simpa [Region.stop, Extent.region, UInt64.toNat_add] using Nat.mod_eq_of_lt hlt

lemma Consecutive.apart (h : Consecutive place es)
    (hplace : ∀ e ∈ es, (e.1 + e.2).toNat ≤ (place (e.1 + e.2)).toNat)
    (hword : ∀ e ∈ es, e.region.stop < 2 ^ 64) :
    Region.Apart (es.map Extent.region) ∧ Region.Within 0 (endOf es).toNat (es.map Extent.region) := by
  induction h with
  | nil => exact ⟨.nil, by simp [Region.Within]⟩
  | @snoc es size _ ih =>
    have hword' (e : Extent) (he : e ∈ es) := hword e (mem_append_left _ he)
    obtain ⟨hapart, hwithin⟩ := ih (fun e he => hplace e (mem_append_left _ he)) hword'
    have hafter : (endOf es).toNat ≤ (place (endOf es)).toNat := by
      unfold endOf
      cases hlast : es.getLast? with
      | none => exact Nat.zero_le _
      | some e => exact hplace e (mem_append_left _ (mem_of_getLast? hlast))
    have hend : (endOf (es ++ [(place (endOf es), size)])).toNat =
        (place (endOf es)).toNat + size.toNat := by
      rw [toNat_endOf hword]
      simp [Region.stop, Extent.region]
    refine ⟨?_, ?_⟩
    · rw [map_append]
      refine pairwise_append.2 ⟨hapart, pairwise_singleton _ _, fun r hr r' hr' => ?_⟩
      obtain rfl : r' = Extent.region (place (endOf es), size) := by simpa using hr'
      exact (hwithin r hr).2.trans hafter
    · intro r hr
      rw [map_append] at hr
      rw [hend]
      obtain hr | hr := List.mem_append.1 hr
      · exact ⟨Nat.zero_le _, (hwithin r hr).2.trans (hafter.trans (Nat.le_add_right ..))⟩
      · obtain rfl : r = Extent.region (place (endOf es), size) := by simpa using hr
        exact ⟨Nat.zero_le _, le_rfl⟩

/-! ## Statics -/

def Static.extent (s : Static) : Extent := (s.offset, s.size)

/-- Statics that were placed one after the other and have room for what they hold at the start. -/
structure Placed (slots : List Static) : Prop where
  consecutive : Consecutive nextMultipleOf8 (slots.map Static.extent)
  data : ∀ slot ∈ slots, slot.data = [] ∨ slot.size = UInt64.ofNat slot.data.length

lemma endOf_slots {slots : List Static} : endOf (slots.map Static.extent) =
      match slots.getLast? with
      | some last => last.offset + last.size
      | none => 0 := by
  unfold endOf
  rw [getLast?_map]
  cases slots.getLast? <;> rfl

lemma Placed.allocate (h : Placed s.slots) (name : String) {data : List UInt8}
    (hdata : data = [] ∨ size = UInt64.ofNat data.length) :
    Placed (s.allocate name size data).slots := by
  refine ⟨?_, fun slot hslot => ?_⟩
  · have hsnoc := h.consecutive.snoc size
    rw [endOf_slots] at hsnoc
    rw [StaticLayout.allocate, List.map_append]
    exact hsnoc
  · obtain hslot | rfl := List.mem_append.1 hslot |>.imp_right List.mem_singleton.1
    · exact h.data slot hslot
    · exact hdata

lemma Placed.addText (h : Placed s.slots) (value : String) : Placed (addText s value).slots := by
  unfold Code.addText StaticLayout.text
  split
  · exact h
  · exact h.allocate _ (.inr rfl)

lemma Placed.addTexts (h : Placed s.slots) (texts : List String) :
    Placed (texts.foldl Code.addText s).slots := by
  induction texts generalizing s with
  | nil => exact h
  | cons value _ ih => exact ih (h.addText value)

lemma layoutGlobals_placed (hs : Placed s.slots) (h : Gen.layoutGlobals c gs s = .ok s') :
    Placed s'.slots := by
  induction gs generalizing s with
  | nil =>
    cases h
    exact hs
  | cons _ _ ih =>
    simp only [Gen.layoutGlobals] at h
    split at h
    · cases h
    · refine ih ?_ h
      exact hs.allocate _ (.inl rfl)

lemma toNat_nextMultipleOf8 (h : n.toNat + 7 < 2 ^ 64) :
    (nextMultipleOf8 n).toNat = (n.toNat + 7) / 8 * 8 := by
  unfold nextMultipleOf8
  simp only [UInt64.toNat_mul, UInt64.toNat_div, UInt64.toNat_add, UInt64.reduceToNat]
  omega

lemma Consecutive.exists_place (h : Consecutive place es) (he : e ∈ es) :
    e.1 = place 0 ∨ ∃ e' ∈ es, e.1 = place (e'.1 + e'.2) := by
  induction h with
  | nil => cases he
  | @snoc es _ _ ih =>
    obtain he | rfl := mem_append.1 he |>.imp_right mem_singleton.1
    · exact (ih he).imp_right fun ⟨e', he', h⟩ => ⟨e', mem_append_left _ he', h⟩
    · unfold endOf
      cases hlast : es.getLast? with
      | none => exact .inl rfl
      | some e' => exact .inr ⟨e', mem_append_left _ (mem_of_getLast? hlast), rfl⟩

/-! ## Blocks -/

def Block.extent (b : Block) : Extent := (b.offset, b.size)

lemma endOf_blocks : endOf (blocks.map Block.extent) = blocksEnd blocks := by
  unfold endOf blocksEnd
  rw [getLast?_map]
  cases blocks.getLast? <;> rfl

lemma addBlocks_consecutive (c : Env) (h : Consecutive c.types.alignUp (blocks.map Block.extent))
    (sizes : List UInt64) :
    Consecutive c.types.alignUp ((sizes.foldl (addBlock c) blocks).map Block.extent) := by
  induction sizes generalizing blocks with
  | nil => exact h
  | cons size _ ih =>
    refine ih ?_
    have hsnoc := h.snoc size
    rw [endOf_blocks] at hsnoc
    simpa [addBlock, Block.extent] using hsnoc

lemma le_alignUp {t : TypeTable} (halign : 0 < t.alignment) {n : UInt64}
    (h : n.toNat + t.alignment.toNat < 2 ^ 64) : n.toNat ≤ (t.alignUp n).toNat := by
  have hpos : 0 < t.alignment.toNat := UInt64.lt_iff_toNat_lt.1 halign
  have hdiv := Nat.div_add_mod n.toNat t.alignment.toNat
  have hmod := Nat.mod_lt n.toNat hpos
  have hzero : n % t.alignment = 0 ↔ n.toNat % t.alignment.toNat = 0 := by
    rw [← UInt64.toNat_inj, UInt64.toNat_mod]
    rfl
  unfold TypeTable.alignUp
  generalize hq : n.toNat / t.alignment.toNat = q at hdiv
  have hqn : q * t.alignment.toNat ≤ n.toNat := by rw [Nat.mul_comm]; omega
  split
  · next heq =>
    rw [UInt64.add_zero, UInt64.toNat_mul, UInt64.toNat_div, hq, Nat.mod_eq_of_lt (by omega)]
    have := hzero.1 heq
    rw [Nat.mul_comm]
    omega
  · next hne =>
    have hsum : (n / t.alignment + 1).toNat = q + 1 := by
      rw [UInt64.toNat_add, UInt64.toNat_div, hq]
      refine Nat.mod_eq_of_lt ?_
      have : q ≤ n.toNat := hq ▸ Nat.div_le_self _ _
      simp only [UInt64.reduceToNat]
      omega
    rw [UInt64.toNat_mul, hsum, Nat.mod_eq_of_lt (by rw [Nat.add_mul]; omega), Nat.add_mul, Nat.mul_comm q]
    omega

/-! ## Modules -/

/-- No sum that the layout of a module needs exceeds a word. -/
@[mk_iff] structure Module.WithinWords (alignment : UInt64) (m : Module) : Prop where
  statics : ∀ slot ∈ m.statics, slot.offset.toNat + slot.size.toNat + 7 < 2 ^ 64
  data : ∀ slot ∈ m.statics, slot.data.length < 2 ^ 64
  blocks : ∀ method ∈ m.methods, ∀ block ∈ method.blocks,
    block.offset.toNat + block.size.toNat + alignment.toNat < 2 ^ 64
  frames : ∀ method ∈ m.methods, method.frameBytes < 2 ^ 64

instance (alignment : UInt64) (m : Module) : Decidable (m.WithinWords alignment) :=
  decidable_of_iff' _ (m.withinWords_iff alignment)

/-- A frame within the words is given room for all its registers and blocks. -/
lemma Method.toNat_frameSize {m : Method} (h : m.frameBytes < 2 ^ 64) :
    m.frameSize.toNat = m.registerCount * 8 + m.blockBytes.toNat :=
  UInt64.toNat_ofNat_of_lt' h

/-- The statics of a module: one after the other on multiples of eight, all below the end, and each
with room for its contents. -/
structure Module.StaticsApart (m : Module) : Prop where
  apart : Region.Apart (m.statics.map (·.extent.region))
  aligned : ∀ slot ∈ m.statics, 8 ∣ slot.offset.toNat
  below : Region.Within 0 m.staticSize.toNat (m.statics.map (·.extent.region))
  data : ∀ slot ∈ m.statics, slot.data.length ≤ slot.size.toNat

/-- The blocks of a method: one after the other, all below the end. -/
structure Method.BlocksApart (m : Method) : Prop where
  apart : Region.Apart (m.blocks.map (·.extent.region))
  below : Region.Within 0 m.blockBytes.toNat (m.blocks.map (·.extent.region))

lemma Placed.staticsApart {m : Module} (h : Placed m.statics) (hword : m.WithinWords alignment) :
    m.StaticsApart := by
  have hsum (slot : Static) (hslot : slot ∈ m.statics) :
      (slot.offset + slot.size).toNat = slot.offset.toNat + slot.size.toNat := by
    have := hword.statics slot hslot
    rw [UInt64.toNat_add, Nat.mod_eq_of_lt (by omega)]
  have hplace (e : Extent) (he : e ∈ m.statics.map Static.extent) :
      (nextMultipleOf8 (e.1 + e.2)).toNat = ((e.1 + e.2).toNat + 7) / 8 * 8 := by
    obtain ⟨slot, hslot, rfl⟩ := mem_map.1 he
    refine toNat_nextMultipleOf8 ?_
    have := hword.statics slot hslot
    have := hsum slot hslot
    simp only [Static.extent]
    omega
  have hlay := h.consecutive.apart (fun e he => by rw [hplace e he]; omega) fun e he => by
    obtain ⟨slot, hslot, rfl⟩ := mem_map.1 he
    have := hword.statics slot hslot
    simp only [Region.stop, Extent.region, Static.extent]
    omega
  rw [map_map, endOf_slots] at hlay
  refine ⟨hlay.1, fun slot hslot => ?_, hlay.2, fun slot hslot => ?_⟩
  · obtain hfirst | ⟨e, he, hnext⟩ :=
      h.consecutive.exists_place (mem_map_of_mem (f := Static.extent) hslot)
    · rw [show slot.offset = nextMultipleOf8 0 from hfirst]
      decide
    · rw [show slot.offset = nextMultipleOf8 (e.1 + e.2) from hnext, hplace e he]
      exact Nat.dvd_mul_left 8 _
  · obtain hnil | hsize := h.data slot hslot
    · simp [hnil]
    · have := hword.data slot hslot
      rw [hsize, UInt64.toNat_ofNat_of_lt' this]

lemma Consecutive.blocksApart {t : TypeTable} {m : Method}
    (h : Consecutive t.alignUp (m.blocks.map Block.extent)) (halign : 0 < t.alignment)
    (hword : ∀ block ∈ m.blocks,
      block.offset.toNat + block.size.toNat + t.alignment.toNat < 2 ^ 64) : m.BlocksApart := by
  have hlay := h.apart (fun e he => by
      obtain ⟨block, hblock, rfl⟩ := List.mem_map.1 he
      have := hword block hblock
      refine le_alignUp halign ?_
      simp only [Block.extent]
      rw [UInt64.toNat_add, Nat.mod_eq_of_lt (by omega)]
      omega)
    fun e he => by
      obtain ⟨block, hblock, rfl⟩ := List.mem_map.1 he
      have := hword block hblock
      simp only [Region.stop, Extent.region, Block.extent]
      omega
  rw [List.map_map, endOf_blocks] at hlay
  exact ⟨hlay.1, hlay.2⟩

end CompilerCore.Code

namespace CompilerCore

open Code Code.Gen

/-- The statics of a compiled module do not overlap. -/
lemma Program.compile_staticsApart {p : Program} {name : String} (h : p.compile types name = .ok m)
    (hword : m.WithinWords alignment) : m.StaticsApart := by
  obtain ⟨statics, texts, hlay, hslots, -⟩ := compile_made rfl False.elim h
  have hstat : Placed statics.slots := layoutGlobals_placed ⟨.nil, by simp⟩ hlay
  refine Placed.staticsApart ?_ hword
  rw [hslots]
  exact hstat.addTexts texts

/-- Neither the statics of a compiled module nor the blocks of its methods overlap. -/
lemma Program.compile_laidOut {p : Program} {name : String} (h : p.compile types name = .ok m)
    (halign : 0 < types.alignment) (hword : m.WithinWords types.alignment) :
    m.StaticsApart ∧ ∀ method ∈ m.methods, method.BlocksApart := by
  obtain ⟨-, -, -, -, hmethods⟩ := compile_made rfl False.elim h
  refine ⟨compile_staticsApart h hword, fun method hmem => ?_⟩
  obtain ⟨sizes, hsizes⟩ := (hmethods method hmem).blocks
  refine Consecutive.blocksApart (t := types) ?_ halign (hword.blocks method hmem)
  rw [hsizes]
  exact addBlocks_consecutive { scopes := p.scopes, types } .nil sizes

end CompilerCore

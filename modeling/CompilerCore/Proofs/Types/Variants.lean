import CompilerCore.Proofs.Types.Placeholders

/-!
# Immutable variants follow their bases

An immutable variant is a copy of its base, taken at one moment.  From then on a placeholder and its
variant are resolved in separate turns, possibly in different passes.  Whenever an operation on the
table is over they have one shape again, whether resolution succeeded or not: their names stand for the
same type, so either both of them can be resolved or neither can.
-/

namespace CompilerCore.TypeTable

open List

/-- A table in which every immutable variant belongs to one mutable type and has its shape. -/
structure Paired (t : TypeTable) : Prop where
  base : ∀ entry ∈ t.variants, entry.1 < t.slots.size ∧ t.isImmutable entry.1 = false
  variant : ∀ entry ∈ t.variants, entry.2 < t.slots.size ∧ t.isImmutable entry.2 = true
  shape : ∀ entry ∈ t.variants, t.shape entry.2 = t.shape entry.1
  unique : ∀ a b variant, (a, variant) ∈ t.variants → (b, variant) ∈ t.variants → a = b

variable {t t' u : TypeTable} {scopes : ScopeTree} {a b id : TypeId}

/-- A change that keeps the variants, which types are immutable, and that variants have the shapes of
their bases. -/
lemma Paired.congr (h : t.Paired) (hvariants : t'.variants = t.variants)
    (hsize : t.slots.size ≤ t'.slots.size)
    (himmutable : ∀ id < t.slots.size, t'.isImmutable id = t.isImmutable id)
    (hshape : ∀ entry ∈ t.variants, t'.shape entry.2 = t'.shape entry.1) : t'.Paired := by
  constructor
  all_goals rw [hvariants]
  · intro entry hentry
    obtain ⟨hlt, hbase⟩ := h.base entry hentry
    exact ⟨hlt.trans_le hsize, (himmutable _ hlt).trans hbase⟩
  · intro entry hentry
    obtain ⟨hlt, hvariant⟩ := h.variant entry hentry
    exact ⟨hlt.trans_le hsize, (himmutable _ hlt).trans hvariant⟩
  · exact hshape
  · exact h.unique

/-! ## Making types -/

lemma Paired.insert (h : t.Paired) (slot : TypeSlot) : (t.insert slot).2.Paired := by
  have hgrows := insert_growsTo t slot
  refine h.congr rfl hgrows.size ?_ ?_
  · intro id hid
    rw [isImmutable, hgrows.slot id hid, isImmutable]
  · intro entry hentry
    rw [TypeTable.shape, TypeTable.shape, hgrows.slot _ (h.variant entry hentry).1,
      hgrows.slot _ (h.base entry hentry).1]
    exact h.shape entry hentry

lemma Paired.intern (h : t.Paired) (shape : Shape) : (t.intern shape).2.Paired := by
  unfold TypeTable.intern
  split
  · exact h
  · exact h.insert _

lemma Paired.addConstant (h : t.Paired) (id : TypeId) (constant : NamedConstant) :
    (t.addConstant id constant).Paired := by
  refine h.congr rfl Array.size_modify.ge ?_ ?_
  · intro x _
    obtain ⟨_, hslot⟩ := t.slot_addConstant
    rw [isImmutable, hslot]
    rfl
  · intro entry hentry
    rw [shape_addConstant, shape_addConstant, h.shape entry hentry]

/-- The variant of a mutable type, made if there is none yet. -/
lemma Paired.immutable (h : t.Paired) (hid : id < t.slots.size) (hmutable : t.isImmutable id = false) :
    (id, (t.immutable id).1) ∈ (t.immutable id).2.variants ∧ (t.immutable id).2.Paired := by
  unfold TypeTable.immutable
  rw [if_neg (by simp [hmutable])]
  split
  · next variant hlookup => exact ⟨mem_of_lookup hlookup, h⟩
  · have hpaired := h.insert { t.slot id with isImmutable := true, generation := 0 }
    have hbase := (addVariant_growsTo t id).slot id hid
    have hslot := slot_addVariant t id
    have hsize : t.slots.size < (t.addVariant id).slots.size := by simp [addVariant, size_insert]
    refine ⟨by simp [TypeTable.insert], ?_, ?_, ?_, ?_⟩
    · refine forall_mem_cons.2 ⟨⟨hid.trans hsize, ?_⟩, hpaired.base⟩
      exact (congrArg TypeSlot.isImmutable hbase).trans hmutable
    · refine forall_mem_cons.2 ⟨⟨hsize, ?_⟩, hpaired.variant⟩
      exact congrArg TypeSlot.isImmutable hslot
    · refine forall_mem_cons.2 ⟨?_, hpaired.shape⟩
      exact (congrArg TypeSlot.shape hslot).trans (congrArg TypeSlot.shape hbase).symm
    · -- The new variant has a number that none of the others has.
      have hfresh : ∀ a, (a, t.slots.size) ∉ t.variants := by
        intro a ha
        exact absurd (h.variant _ ha).1 (lt_irrefl _)
      intro a b variant ha hb
      rcases mem_cons.1 ha with ha | ha <;> rcases mem_cons.1 hb with hb | hb
      · cases ha
        cases hb
        rfl
      · cases ha
        exact absurd hb (hfresh b)
      · cases hb
        exact absurd ha (hfresh a)
      · exact h.unique a b variant ha hb

/-! ## Resolution -/

/-- Two placeholders for one name can be resolved together or not at all.  If the name stands for one
of them, neither can. -/
lemma Resolvable.congr (h : Resolvable scopes t a) (hshape : t.shape b = t.shape a) :
    Resolvable scopes t b := by
  obtain @⟨_, target, _, _, _, ha, htarget, -, hparts⟩ := h
  have hb := hshape.trans ha
  refine .intro hb htarget ?_ hparts
  intro hself
  subst hself
  have hwaits : t.isPlaceholder target = true := by
    rw [isPlaceholder, hb]
    rfl
  obtain ⟨hb', htarget', hne', -⟩ := hparts target .refl hwaits
  rw [hb] at hb'
  cases hb'
  exact hne' (Option.some.inj (htarget'.symm.trans htarget))

/-- Types of one shape have one shape after resolution. -/
lemma Orderly.shape_resolve (h : t.Orderly) (scopes : ScopeTree) (hshape : t.shape a = t.shape b) :
    (t.resolve scopes).2.shape a = (t.resolve scopes).2.shape b := by
  have hadvances := h.resolve scopes
  have hwaiting := (h.settles scopes).waiting
  by_cases ha : (t.resolve scopes).2.isPlaceholder a = true
  · have hbefore := hadvances.isPlaceholder_of_waiting ha
    have hb : (t.resolve scopes).2.isPlaceholder b = true :=
      (hwaiting b (by rwa [isPlaceholder, ← hshape])).2 fun hcan =>
        (hwaiting a hbefore).1 ha (hcan.congr hshape)
    rw [TypeTable.shape, TypeTable.shape, hadvances.waiting a ha, hadvances.waiting b hb]
    exact hshape
  · have hb : (t.resolve scopes).2.isPlaceholder b ≠ true := by
      intro hb
      have hbefore := hadvances.isPlaceholder_of_waiting hb
      exact ha ((hwaiting a (by rwa [isPlaceholder, hshape])).2 fun hcan =>
        (hwaiting b hbefore).1 hb (hcan.congr hshape.symm))
    exact hadvances.shape_eq hshape (by simpa using ha) (by simpa using hb)

lemma Built.paired (h : t.Built) : t.Paired := by
  induction h with
  | start => exact ⟨nofun, nofun, nofun, nofun⟩
  | pointerTo _ _ ih | arrayOf _ _ _ ih | function _ _ _ _ ih => exact ih.intern _
  | declareRecord _ _ _ _ _ ih | declareEnum _ _ _ _ _ ih | placeholder _ _ _ _ ih =>
    exact ih.insert _
  | addConstant id constant _ ih => exact ih.addConstant id constant
  | @immutable t id _ hid ih =>
    by_cases himmutable : t.isImmutable id = true
    · rwa [TypeTable.immutable, if_pos himmutable]
    · exact (ih.immutable hid (by simpa using himmutable)).2
  | resolve scopes hbuilt ih =>
    have hadvances := hbuilt.orderly.resolve scopes
    exact ih.congr hadvances.variants hadvances.size.ge
      (fun id _ => hadvances.isImmutable_eq id)
      fun entry hentry => hbuilt.orderly.shape_resolve scopes (ih.shape entry hentry)

/-! ## What follows -/

lemma Paired.unqualified_eq (h : t.Paired) (hentry : (a, b) ∈ t.variants) : t.unqualified b = a := by
  have hfound : (t.variants.find? (·.2 == b)).isSome = true :=
    find?_isSome.2 ⟨(a, b), hentry, by simp⟩
  obtain ⟨⟨base, variant⟩, hfind⟩ := Option.isSome_iff_exists.1 hfound
  have hmem := mem_of_find?_eq_some hfind
  obtain rfl : variant = b := by simpa using find?_some hfind
  rw [unqualified, if_pos (h.variant _ hentry).2, hfind]
  exact h.unique base a variant hmem hentry

lemma immutable_notMem_shapeTraits (t : TypeTable) (s : Shape) : Trait.immutable ∉ t.shapeTraits s := by
  cases s with
  | builtin p => cases p <;> simp [shapeTraits, Primitive.traits]
  | enum =>
    rw [shapeTraits]
    split <;> simp
  | _ => simp [shapeTraits]

lemma Paired.traits_eq (h : t.Paired) (hentry : (a, b) ∈ t.variants) :
    .immutable ∉ t.traits a ∧ t.traits b = t.traits a ++ [.immutable] := by
  have hbase : t.isImmutable a = false := (h.base _ hentry).2
  have hvariant : t.isImmutable b = true := (h.variant _ hentry).2
  have hshape : t.shape b = t.shape a := h.shape _ hentry
  simp [traits, hbase, hvariant, hshape, immutable_notMem_shapeTraits]

/-- In every table that is built by the operations on tables, resolution among them, a variant is
immutable, belongs to exactly one type, which is mutable, and has the shape of that type and its traits
except for immutability.  Hence taking the variant of a type can be undone, and taking it twice is
taking it once. -/
theorem variants_follow_bases (h : t.Built) :
    (∀ base variant, (base, variant) ∈ t.variants →
      t.isImmutable base = false ∧ t.isImmutable variant = true ∧
        t.shape variant = t.shape base ∧ (∀ other, (other, variant) ∈ t.variants → other = base) ∧
        .immutable ∉ t.traits base ∧ t.traits variant = t.traits base ++ [.immutable]) ∧
    ∀ id < t.slots.size,
      (t.isImmutable id = false → (id, (t.immutable id).1) ∈ (t.immutable id).2.variants ∧
        (t.immutable id).2.unqualified (t.immutable id).1 = id) ∧
      (t.immutable id).2.immutable (t.immutable id).1 = t.immutable id := by
  have hpaired := h.paired
  constructor
  · intro base variant hentry
    obtain ⟨htraits, htraits'⟩ := hpaired.traits_eq hentry
    exact ⟨(hpaired.base _ hentry).2, (hpaired.variant _ hentry).2, hpaired.shape _ hentry,
      fun other hother => hpaired.unique other base variant hother hentry, htraits, htraits'⟩
  · intro id hid
    by_cases himmutable : t.isImmutable id = true
    · have hself : t.immutable id = (id, t) := by rw [TypeTable.immutable, if_pos himmutable]
      constructor
      · intro hmutable
        rw [himmutable] at hmutable
        cases hmutable
      · rw [hself]
        exact hself
    · have hmutable : t.isImmutable id = false := by simpa using himmutable
      obtain ⟨hentry, hpaired'⟩ := hpaired.immutable hid hmutable
      constructor
      · intro _
        exact ⟨hentry, hpaired'.unqualified_eq hentry⟩
      · rw [TypeTable.immutable, if_pos (hpaired'.variant _ hentry).2]

/-- `Outer` is known by name only, and so is the `Inner` that it holds; `const Outer` is made before
either is declared, and `const Knot` is a struct that holds itself. -/
def early : TypeTable :=
  let t := ((start 8 8).placeholder "Outer" none 0).2
  let t := (t.placeholder "Inner" none 0).2
  let t := (t.immutable 12).2
  let t := (t.declareRecord (some "Outer") [⟨"inner", 13⟩] false (some 0)).2
  let t := (t.declareRecord (some "Inner") [⟨"value", TypeId.i32⟩] false (some 0)).2
  let t := (t.placeholder "Knot" none 0).2
  let t := (t.immutable 17).2
  (t.declareRecord (some "Knot") [⟨"self", 17⟩] false (some 0)).2

def earlyScopes : ScopeTree :=
  let entry (type : TypeId) : ScopeEntry := .record ⟨type, .synthesized, false⟩
  { scopes := #[{ parent := none, names :=
      [("Outer", entry 15), ("Inner", entry 16), ("Knot", entry 19)] }] }

/-- `const Outer` is resolved in the first pass, after `Inner`, and `Outer` itself in the second one;
`Knot` and `const Knot` stay what they were. -/
theorem variants_follow_bases_early :
    (early.resolvePass earlyScopes early.unresolved).2 = [12, 17, 18] ∧
      (early.resolve earlyScopes).1 = .error ⟨["Knot", "Knot"]⟩ ∧
      (early.resolve earlyScopes).2.shape 12 = .record [⟨"inner", 13⟩] false ∧
      (early.resolve earlyScopes).2.shape 14 = (early.resolve earlyScopes).2.shape 12 ∧
      (early.resolve earlyScopes).2.shape 18 = (early.resolve earlyScopes).2.shape 17 := by
  have hbuilt : early.Built := by
    refine .declareRecord _ _ _ (.immutable (.placeholder _ _ _ (.declareRecord _ _ _
      (.declareRecord _ _ _ (.immutable (.placeholder _ _ _ (.placeholder _ _ _ (.start 8 8))) ?_) ?_)
        ?_)) ?_) ?_
    all_goals decide +kernel
  obtain ⟨hvariants, -⟩ := variants_follow_bases (hbuilt.resolve earlyScopes)
  obtain ⟨-, -, houter, -⟩ := hvariants 12 14 (by decide +kernel)
  obtain ⟨-, -, hknot, -⟩ := hvariants 17 18 (by decide +kernel)
  exact ⟨by decide +kernel, by decide +kernel, by decide +kernel, houter, hknot⟩

end CompilerCore.TypeTable

import CompilerCore.Proofs.Types.Equivalence
import CompilerCore.Proofs.Types.Placeholders
import CompilerCore.Types.Constant

/-!
# Tables that grow apart

Analysis makes pointers, arrays and immutable variants out of the types it is given.  Which numbers
these get depends on the order in which they are made, but what they are does not: each of them is
described by a *term* over the given types.  Two tables that have grown from one table therefore
correspond type by type, and every question about types has one answer for types that correspond.
-/

namespace CompilerCore

open List Nat

/-- The forms of the types that are found again by their shape during analysis. -/
inductive TypeForm where
  | pointer
  | array (length : UInt64)

def TypeForm.shape : TypeForm → TypeId → Shape
  | pointer, id => .pointer id
  | array length, id => .array id length

/-- How a type is made from the types of a table. -/
inductive TypeTerm where
  | given (id : TypeId)
  | derived (form : TypeForm) (of : TypeTerm)
  | immutable (of : TypeTerm)

namespace TypeForm

variable {form form' : TypeForm} {x y : TypeId}

lemma shape_injective (h : form.shape x = form'.shape y) : form = form' ∧ x = y := by
  cases form <;> cases form' <;> simp_all [shape]

lemma references_shape : (form.shape x).references = [x] := by
  cases form <;> rfl

lemma parts_shape : (form.shape x).parts ⊆ [x] :=
  references_shape ▸ Shape.parts_subset _

lemma shape_ne_builtin (form : TypeForm) (x : TypeId) (p : Primitive) :
    form.shape x ≠ .builtin p := by
  cases form <;> nofun

end TypeForm

namespace TypeTable

/-! ## Growth -/

/-- A table to start from: sound, without placeholders, and no type contains itself. -/
structure Ground (base : TypeTable) : Prop where
  sound : base.Sound
  orderly : base.Orderly
  settled : ∀ id, base.isPlaceholder id = false

/-- What a variant that was made since `base` is. -/
structure IsVariant (t : TypeTable) (x a : TypeId) : Prop where
  lt : x < a
  size : a < t.slots.size
  plain : t.isImmutable x = false
  slot : t.slot a = { t.slot x with isImmutable := true, generation := 0 }
  lookup : t.variants.lookup x = some a
  find : t.variants.find? (·.2 == a) = some (x, a)

/-- A table that has grown from another one by pointers, arrays and immutable variants. -/
structure Over (base t : TypeTable) : Prop where
  ground : base.Ground
  orderly : t.Orderly
  size : base.slots.size ≤ t.slots.size
  slot : ∀ id < base.slots.size, t.slot id = base.slot id
  alignment : t.alignment = base.alignment
  pointerSize : t.pointerSize = base.pointerSize
  made : ∀ id, base.slots.size ≤ id → id < t.slots.size →
    (∃ form x, x < id ∧ t.slot id = { shape := TypeForm.shape form x }) ∨ ∃ x, (x, id) ∈ t.variants
  unique : ∀ a b form x, base.slots.size ≤ a → t.slot a = { shape := TypeForm.shape form x } →
    isDerived (t.slot b) = true → t.shape b = form.shape x → b = a
  variant : ∀ x a, (x, a) ∈ t.variants → base.slots.size ≤ a → t.IsVariant x a
  variant_old : ∀ x a, (x, a) ∈ t.variants → a < base.slots.size → (x, a) ∈ base.variants
  lookup_old : ∀ x a, base.variants.lookup x = some a → t.variants.lookup x = some a
  find_old : ∀ a < base.slots.size,
    t.variants.find? (·.2 == a) = base.variants.find? (·.2 == a)

/-- A type of a table that has grown from `base` is what a term describes. -/
inductive Denotes (base t : TypeTable) : TypeId → TypeTerm → Prop
  | given {id : TypeId} : id < base.slots.size → Denotes base t id (.given id)
  | derived {id x : TypeId} {form : TypeForm} {τ : TypeTerm} : base.slots.size ≤ id →
    id < t.slots.size → t.slot id = { shape := form.shape x } → Denotes base t x τ →
    Denotes base t id (.derived form τ)
  | immutable {id x : TypeId} {τ : TypeTerm} : base.slots.size ≤ id → (x, id) ∈ t.variants →
    Denotes base t x τ → Denotes base t id (.immutable τ)

/-- Two types, each of its own table, that are made in the same way. -/
def Same (base t u : TypeTable) (a b : TypeId) : Prop :=
  ∃ τ, Denotes base t a τ ∧ Denotes base u b τ

variable {base t t' t'' u u' : TypeTable} {a b c id x y : TypeId} {τ σ : TypeTerm}

lemma intern_cases (t : TypeTable) (shape : Shape) :
    (∃ id < t.slots.size, t.intern shape = (id, t) ∧
      (isDerived (t.slot id) = true ∧ t.shape id = shape) ∧
      ∀ j < id, ¬(isDerived (t.slot j) = true ∧ t.shape j = shape)) ∨
    (t.intern shape = t.insert { shape } ∧
      ∀ j < t.slots.size, ¬(isDerived (t.slot j) = true ∧ t.shape j = shape)) := by
  have hslot (j : TypeId) (hj : j < t.slots.size) : t.slot j = t.slots[j] := by
    unfold slot
    rw [Array.getD_eq_getD_getElem?, Array.getElem?_eq_getElem hj, Option.getD_some]
  have htest (j : TypeId) (hj : j < t.slots.size) :
      (isDerived t.slots[j] && decide (t.slots[j].shape = shape)) = true ↔
        isDerived (t.slot j) = true ∧ t.shape j = shape := by
    rw [Bool.and_eq_true, decide_eq_true_iff, TypeTable.shape, hslot j hj]
  unfold intern
  split
  · next id hfind =>
    obtain ⟨hid, hthis, hbefore⟩ := Array.findIdx?_eq_some_iff_getElem.1 hfind
    refine .inl ⟨id, hid, rfl, (htest id hid).1 hthis, fun j hj hboth => ?_⟩
    exact hbefore j hj ((htest j (hj.trans hid)).2 hboth)
  · next hfind =>
    refine .inr ⟨rfl, fun j hj hboth => ?_⟩
    have hnone := Array.findIdx?_eq_none_iff.1 hfind t.slots[j] (Array.getElem_mem hj)
    rw [(htest j hj).2 hboth] at hnone
    cases hnone

/-! ## What terms describe -/

namespace Denotes

lemma lt (h : Over base t) (ha : Denotes base t a τ) : a < t.slots.size := by
  cases ha with
  | given hid => exact hid.trans_le h.size
  | derived _ hid => exact hid
  | immutable hid hmem => exact (h.variant _ _ hmem hid).size

lemma mono (h : t.GrowsTo t') (ha : Denotes base t a τ) : Denotes base t' a τ := by
  induction ha with
  | given hid => exact .given hid
  | derived hnew hid hslot _ ih =>
    exact .derived hnew (hid.trans_le h.size) ((h.slot _ hid).trans hslot) ih
  | immutable hnew hmem _ ih => exact .immutable hnew (h.variants hmem) ih

lemma unique (h : Over base t) (hτ : Denotes base t a τ) (hσ : Denotes base t a σ) : τ = σ := by
  induction hτ generalizing σ with
  | given hid =>
    cases hσ with
    | given => rfl
    | derived hnew => exact absurd hid (not_lt.2 hnew)
    | immutable hnew => exact absurd hid (not_lt.2 hnew)
  | derived hnew _ hslot _ ih =>
    cases hσ with
    | given hold => exact absurd hold (not_lt.2 hnew)
    | derived _ _ hslot' hx' =>
      obtain ⟨rfl, rfl⟩ := TypeForm.shape_injective (congrArg TypeSlot.shape (hslot.symm.trans hslot'))
      rw [ih hx']
    | immutable _ hmem =>
      have := hslot.symm.trans (h.variant _ _ hmem hnew).slot
      cases congrArg TypeSlot.isImmutable this
  | immutable hnew hmem _ ih =>
    cases hσ with
    | given hold => exact absurd hold (not_lt.2 hnew)
    | derived _ _ hslot =>
      have := hslot.symm.trans (h.variant _ _ hmem hnew).slot
      cases congrArg TypeSlot.isImmutable this
    | immutable _ hmem' hx' =>
      have := (h.variant _ _ hmem hnew).find.symm.trans (h.variant _ _ hmem' hnew).find
      cases this
      rw [ih hx']

lemma injective (h : Over base t) (ha : Denotes base t a τ) (hb : Denotes base t b τ) : a = b := by
  induction ha generalizing b with
  | given => cases hb; rfl
  | derived hnew _ hslot _ ih =>
    cases hb with
    | derived _ _ hslot' hx' =>
      obtain rfl := ih hx'
      refine (h.unique _ _ _ _ hnew hslot ?_ ?_).symm
      · rw [hslot']
        rfl
      · rw [shape, hslot']
  | immutable hnew hmem _ ih =>
    cases hb with
    | immutable hnew' hmem' hx' =>
      obtain rfl := ih hx'
      have := (h.variant _ _ hmem hnew).lookup.symm.trans (h.variant _ _ hmem' hnew').lookup
      exact Option.some.inj this

end Denotes

lemma Ground.over (h : base.Ground) : Over base base where
  ground := h
  orderly := h.orderly
  size := le_refl _
  slot _ _ := rfl
  alignment := rfl
  pointerSize := rfl
  made id hid hlt := absurd hlt (not_lt.2 hid)
  unique a b form x ha hslot _ _ := by
    rw [slot_of_le ha] at hslot
    exact absurd (congrArg TypeSlot.shape hslot).symm (form.shape_ne_builtin x .void)
  variant x a hmem ha := absurd (h.sound.variants _ hmem).2.1 (not_lt.2 ha)
  variant_old _ _ hmem _ := hmem
  lookup_old _ _ hlook := hlook
  find_old _ _ := rfl

/-! ## Making types -/

lemma IsVariant.grow (h : t.IsVariant x a) (hgrow : t.GrowsTo t')
    (hlook : t'.variants.lookup x = t.variants.lookup x)
    (hfind : t'.variants.find? (·.2 == a) = t.variants.find? (·.2 == a)) : t'.IsVariant x a where
  lt := h.lt
  size := h.size.trans_le hgrow.size
  plain := by
    rw [isImmutable, hgrow.slot x (h.lt.trans h.size)]
    exact h.plain
  slot := by
    rw [hgrow.slot a h.size, hgrow.slot x (h.lt.trans h.size)]
    exact h.slot
  lookup := hlook.trans h.lookup
  find := hfind.trans h.find

namespace Over

/-- A table stays grown from `base` when a slot is added that is found by its shape, or that is a
variant, and that no other slot is taken for. -/
lemma push (h : Over base t) (slot : TypeSlot) (variants : List (TypeId × TypeId))
    (hparts : ∀ b ∈ slot.shape.parts, b < t.slots.size)
    (hmade : (∃ form x, x < t.slots.size ∧ slot = { shape := TypeForm.shape form x }) ∨
      ∃ x, (x, t.slots.size) ∈ variants)
    (hunique : isDerived slot = true → ∀ j < t.slots.size,
      ¬(isDerived (t.slot j) = true ∧ t.shape j = slot.shape))
    (hvar : ∀ x a, (x, a) ∈ variants → base.slots.size ≤ a →
      { (t.insert slot).2 with variants : TypeTable }.IsVariant x a)
    (hsub : t.variants ⊆ variants)
    (hold : ∀ x a, (x, a) ∈ variants → a < base.slots.size → (x, a) ∈ t.variants)
    (hlook : ∀ x a, t.variants.lookup x = some a → variants.lookup x = some a)
    (hfind : ∀ a < t.slots.size,
      variants.find? (·.2 == a) = t.variants.find? (·.2 == a)) :
    Over base { (t.insert slot).2 with variants } := by
  let t' : TypeTable := { (t.insert slot).2 with variants }
  have hsize : t'.slots.size = t.slots.size + 1 := size_insert t slot
  have hslot (id : TypeId) : t'.slot id = if id = t.slots.size then slot else t.slot id :=
    slot_insert
  have hslot_old (id : TypeId) (hid : id < t.slots.size) : t'.slot id = t.slot id := by
    rw [hslot, if_neg hid.ne]
  have hslot_new : t'.slot t.slots.size = slot := by rw [hslot, if_pos rfl]
  have hmiss (id : TypeId) (form : TypeForm) (x : TypeId) (hid : id ≠ t.slots.size)
      (hshape : t'.shape id = form.shape x) : id < t.slots.size ∧ t.shape id = form.shape x := by
    rw [shape, hslot, if_neg hid] at hshape
    refine ⟨?_, hshape⟩
    by_contra hle
    rw [slot_of_le (Nat.le_of_not_lt hle)] at hshape
    exact form.shape_ne_builtin x .void hshape.symm
  refine ⟨h.ground, (h.orderly.insert hparts).congr rfl fun _ => rfl, ?_, ?_, h.alignment,
    h.pointerSize, ?_, ?_, hvar, ?_, ?_, ?_⟩
  · exact h.size.trans insert_leads.size
  · exact fun id hid => (hslot_old id (hid.trans_le h.size)).trans (h.slot id hid)
  · intro id hnew hid
    obtain hid | rfl := Nat.lt_succ_iff_lt_or_eq.1 (hsize ▸ hid)
    · obtain ⟨form, x, hx, hthis⟩ | ⟨x, hmem⟩ := h.made id hnew hid
      · exact .inl ⟨form, x, hx, (hslot_old id hid).trans hthis⟩
      · exact .inr ⟨x, hsub hmem⟩
    · refine hmade.imp_left ?_
      rintro ⟨form, x, hx, hthis⟩
      exact ⟨form, x, hx, hslot_new.trans hthis⟩
  · intro a b form x hnew ha hderived hb
    have hshape : t'.shape a = form.shape x := by rw [shape, ha]
    -- A new slot that is found by its shape has a shape of its own.
    have hclash (c : TypeId) (hc : c ≠ t.slots.size) (hself : isDerived slot = true)
        (hderived : isDerived (t'.slot c) = true) (heq : t'.shape c = form.shape x)
        (hother : slot.shape = form.shape x) : False := by
      obtain ⟨hlt, hthis⟩ := hmiss c form x hc heq
      rw [hslot_old c hlt] at hderived
      exact hunique hself c hlt ⟨hderived, hthis.trans hother.symm⟩
    have ha' : isDerived (t'.slot a) = true := by
      rw [ha]
      rfl
    by_cases han : a = t.slots.size
    · by_contra hne
      rw [han] at ha' hshape hne
      rw [hslot_new] at ha'
      rw [shape, hslot_new] at hshape
      exact hclash b hne ha' hderived hb hshape
    · by_cases hbn : b = t.slots.size
      · rw [hbn] at hb hderived
        rw [hslot_new] at hderived
        rw [shape, hslot_new] at hb
        exact (hclash a han hderived ha' hshape hb).elim
      · obtain ⟨hlt, -⟩ := hmiss a form x han hshape
        obtain ⟨hlt', hthis⟩ := hmiss b form x hbn hb
        rw [hslot_old a hlt] at ha
        rw [hslot_old b hlt'] at hderived
        exact h.unique a b form x hnew ha hderived hthis
  · exact fun x a hmem ha => h.variant_old x a (hold x a hmem ha) ha
  · exact fun x a hx => hlook x a (h.lookup_old x a hx)
  · exact fun a ha => (hfind a (ha.trans_le h.size)).trans (h.find_old a ha)

lemma insert_derived (h : Over base t) {form : TypeForm} (hx : x < t.slots.size)
    (hnone : ∀ j < t.slots.size, ¬(isDerived (t.slot j) = true ∧ t.shape j = form.shape x)) :
    Over base (t.insert { shape := form.shape x }).2 := by
  refine h.push { shape := form.shape x } t.variants ?_ ?_ ?_ ?_
    (List.Subset.refl _) (fun _ _ hmem _ => hmem) (fun _ _ hlook => hlook) fun _ _ => rfl
  · intro b hb
    obtain rfl := mem_singleton.1 (form.parts_shape hb)
    exact hx
  · exact .inl ⟨form, x, hx, rfl⟩
  · exact fun _ => hnone
  · exact fun y a hmem ha => (h.variant y a hmem ha).grow (insert_growsTo t _) rfl rfl

lemma insert_variant (h : Over base t) (hx : x < t.slots.size) (hplain : t.isImmutable x = false)
    (hnone : t.variants.lookup x = none) :
    Over base (t.addVariant x) := by
  have hgrow := addVariant_growsTo t x
  have hlook (y a : TypeId) (hy : t.variants.lookup y = some a) :
      ((x, t.slots.size) :: t.variants).lookup y = t.variants.lookup y := by
    have hne : y ≠ x := by
      rintro rfl
      rw [hnone] at hy
      cases hy
    rw [lookup_cons, beq_false_of_ne hne]
  have hfind (a : TypeId) (ha : a < t.slots.size) :
      ((x, t.slots.size) :: t.variants).find? (·.2 == a) = t.variants.find? (·.2 == a) :=
    find?_cons_of_neg (by simpa using ha.ne')
  refine h.push _ _ (h.orderly.closed x) (.inr ⟨x, (.head _)⟩) ?_ ?_
    (subset_cons_self _ _) ?_ ?_ hfind
  · intro hderived
    simp [isDerived] at hderived
  · intro y a hmem ha
    obtain heq | hmem := mem_cons.1 hmem
    · cases heq
      refine ⟨hx, ?_, ?_, ?_, lookup_cons_self, find?_cons_of_pos (by simp)⟩
      · rw [size_insert]
        exact lt_succ_self _
      · exact (congrArg TypeSlot.isImmutable (hgrow.slot x hx)).trans hplain
      · have hnew := slot_addVariant t x
        rwa [← hgrow.slot x hx] at hnew
    · have hvar := h.variant y a hmem ha
      exact hvar.grow hgrow (hlook y a hvar.lookup) (hfind a hvar.size)
  · intro y a hmem ha
    obtain heq | hmem := mem_cons.1 hmem
    · cases heq
      exact absurd ha (not_lt.2 h.size)
    · exact hmem
  · exact fun y a hy => (hlook y a hy).trans hy

end Over

/-- What making a type gives: a table that has grown from the same types, and a type in it that is
made in a known way. -/
structure Yields (base t : TypeTable) (result : TypeId × TypeTable) (τ : TypeTerm) : Prop where
  table : Over base result.2
  grows : t.GrowsTo result.2
  denotes : Denotes base result.2 result.1 τ

end TypeTable

namespace TypeTerm

open TypeTable (isDerived)

/-- The term for a pointer or an array: a type of the table if there is one. -/
def derive (base : TypeTable) (form : TypeForm) : TypeTerm → TypeTerm
  | given x =>
    let id := (base.intern (form.shape x)).1
    if id < base.slots.size then given id else derived form (given x)
  | τ => derived form τ

/-- The term for the immutable variant. -/
def freeze (base : TypeTable) : TypeTerm → TypeTerm
  | given x =>
    if base.isImmutable x then given x
    else
      match base.variants.lookup x with
      | some variant => given variant
      | none => immutable (given x)
  | derived form τ => immutable (derived form τ)
  | immutable τ => immutable τ

/-- The term for the type that a variant was made from. -/
def thaw (base : TypeTable) : TypeTerm → TypeTerm
  | given x => given (base.unqualified x)
  | derived form τ => derived form τ
  | immutable τ => τ

end TypeTerm

namespace TypeTable

variable {base t t' t'' u u' : TypeTable} {a b c id x y : TypeId}

namespace Over

variable (h : Over base t)

include h

lemma shape (hid : id < base.slots.size) : t.shape id = base.shape id := by
  rw [TypeTable.shape, h.slot id hid]
  rfl

lemma yields_self (ha : Denotes base t a τ) : Yields base t (a, t) τ :=
  ⟨h, .refl t, ha⟩

/-- A slot that is found by the shape of a pointer or an array and is not in `base` was made for it. -/
lemma denotes_derived (hx : Denotes base t x τ) (hnew : base.slots.size ≤ id)
    (hid : id < t.slots.size) (hderived : isDerived (t.slot id) = true)
    (hshape : t.shape id = form.shape x) : Denotes base t id (.derived form τ) := by
  obtain ⟨form', x', -, hslot⟩ | ⟨x', hmem⟩ := h.made id hnew hid
  · rw [TypeTable.shape, hslot] at hshape
    dsimp only at hshape
    rw [hshape] at hslot
    exact .derived hnew hid hslot hx
  · rw [(h.variant x' id hmem hnew).slot] at hderived
    simp [isDerived] at hderived

lemma lt_of_shape {form : TypeForm} (hid : id < base.slots.size)
    (hshape : t.shape id = form.shape x) : x < base.slots.size := by
  rw [h.shape hid] at hshape
  exact h.ground.sound.references_lt hshape (by simp [TypeForm.references_shape])

lemma intern (hx : Denotes base t x τ) (form : TypeForm) :
    Yields base t (t.intern (form.shape x)) (τ.derive base form) := by
  -- The term of a type that is not in `base`, and of one in `base` that is not found there.
  have hoff (hfresh : ∀ j < base.slots.size, ¬(isDerived (t.slot j) = true ∧ t.shape j = form.shape x)) :
      Yields base t (t.intern (form.shape x)) (.derived form τ) := by
    obtain ⟨id, hid, hrun, hthis, -⟩ | ⟨hrun, hnone⟩ := intern_cases t (form.shape x)
    · rw [hrun]
      have hnew : base.slots.size ≤ id := Nat.le_of_not_lt fun hlt => hfresh id hlt hthis
      exact h.yields_self (h.denotes_derived hx hnew hid hthis.1 hthis.2)
    · rw [hrun]
      have hgrow := insert_growsTo t { shape := form.shape x }
      refine ⟨h.insert_derived (hx.lt h) hnone, hgrow, .derived h.size ?_ ?_ (hx.mono hgrow)⟩
      · rw [size_insert]
        exact lt_succ_self _
      · exact slot_insert.trans (if_pos rfl)
  cases hx with
  | derived hnew | immutable hnew =>
    refine hoff fun j hj hboth => ?_
    exact absurd (h.lt_of_shape hj hboth.2) (not_lt.2 hnew)
  | given =>
    have hsame (j : TypeId) (hj : j < base.slots.size) :
        (isDerived (t.slot j) = true ∧ t.shape j = form.shape x) ↔
          (isDerived (base.slot j) = true ∧ base.shape j = form.shape x) := by
      rw [h.slot j hj, h.shape hj]
    rw [TypeTerm.derive]
    obtain ⟨id, hid, hrun, hthis, hfirst⟩ | ⟨hrun, hnone⟩ := intern_cases base (form.shape x)
    · rw [hrun, if_pos hid]
      -- The first slot of the shape is the same one in both tables.
      obtain ⟨id', hid', hrun', hthis', hfirst'⟩ | ⟨-, hnone'⟩ := intern_cases t (form.shape x)
      · obtain hlt | rfl | hlt := lt_trichotomy id id'
        · exact absurd ((hsame id hid).2 hthis) (hfirst' id hlt)
        · rw [hrun']
          exact h.yields_self (.given hid)
        · exact absurd ((hsame id' (hlt.trans hid)).1 hthis') (hfirst id' hlt)
      · exact absurd ((hsame id hid).2 hthis) (hnone' id (hid.trans_le h.size))
    · rw [hrun, insert, if_neg (lt_irrefl _)]
      exact hoff fun j hj hboth => hnone j hj ((hsame j hj).1 hboth)

lemma pointerTo (hx : Denotes base t x τ) :
    Yields base t (t.pointerTo x) (τ.derive base .pointer) :=
  h.intern hx .pointer

lemma arrayOf (hx : Denotes base t x τ) (length : UInt64) :
    Yields base t (t.arrayOf x length) (τ.derive base (.array length)) :=
  h.intern hx (.array length)

lemma isImmutable (hid : id < base.slots.size) : t.isImmutable id = base.isImmutable id := by
  rw [TypeTable.isImmutable, h.slot id hid]
  rfl

lemma immutable (hx : Denotes base t x τ) : Yields base t (t.immutable x) (τ.freeze base) := by
  have hoff (hplain : t.isImmutable x = false) (hfresh : base.variants.lookup x = none) :
      Yields base t (t.immutable x) (.immutable τ) := by
    rw [TypeTable.immutable, hplain, if_neg Bool.false_ne_true]
    split
    · next variant hlook =>
      have hmem := mem_of_lookup hlook
      refine h.yields_self (.immutable (Nat.le_of_not_lt fun hlt => ?_) hmem hx)
      have hbase := h.variant_old x variant hmem hlt
      simpa using List.lookup_eq_none_iff.1 hfresh _ hbase
    · next hnone =>
      have hgrow := addVariant_growsTo t x
      exact ⟨h.insert_variant (hx.lt h) hplain hnone, hgrow,
        .immutable h.size (.head _) (hx.mono hgrow)⟩
  cases hx with
  | given hold =>
    have hsame := h.isImmutable hold
    rw [TypeTerm.freeze]
    split
    · next himm =>
      rw [TypeTable.immutable, hsame, if_pos himm]
      exact h.yields_self (.given hold)
    · next himm =>
      have hplain : t.isImmutable x = false := hsame.trans (Bool.eq_false_iff.2 himm)
      split
      · next variant hlook =>
        have hvar := (h.ground.sound.variants (x, variant) (mem_of_lookup hlook)).2.1
        rw [TypeTable.immutable, hplain, if_neg Bool.false_ne_true, h.lookup_old x variant hlook]
        exact h.yields_self (.given hvar)
      · next hnone => exact hoff hplain hnone
  | derived hnew _ hslot =>
    refine hoff ?_ ?_
    · rw [TypeTable.isImmutable, hslot]
    · by_contra hsome
      obtain ⟨variant, hlook⟩ := Option.ne_none_iff_exists'.1 hsome
      exact absurd (h.ground.sound.variants _ (mem_of_lookup hlook)).1 (not_lt.2 hnew)
  | immutable hnew hmem hy =>
    have himm : t.isImmutable x = true := by rw [TypeTable.isImmutable, (h.variant _ _ hmem hnew).slot]
    rw [TypeTable.immutable, himm, if_pos rfl]
    exact h.yields_self (.immutable hnew hmem hy)

lemma unqualified (ha : Denotes base t a τ) : Denotes base t (t.unqualified a) (τ.thaw base) := by
  cases ha with
  | given hold =>
    have heq : t.unqualified a = base.unqualified a := by
      rw [TypeTable.unqualified, TypeTable.unqualified, h.isImmutable hold, h.find_old a hold]
    rw [heq]
    exact .given (h.ground.sound.unqualified_lt hold)
  | derived hnew hid hslot hx =>
    have hplain : t.isImmutable a = false := by rw [TypeTable.isImmutable, hslot]
    rw [TypeTable.unqualified, hplain, if_neg Bool.false_ne_true]
    exact .derived hnew hid hslot hx
  | immutable hnew hmem hx =>
    have hvar := h.variant _ _ hmem hnew
    have himm : t.isImmutable a = true := by rw [TypeTable.isImmutable, hvar.slot]
    rw [TypeTable.unqualified, himm, if_pos rfl, hvar.find]
    exact hx

end Over

/-! ## Types that correspond -/

lemma Same.mono (ht : t.GrowsTo t') (hu : u.GrowsTo u') (h : Same base t u a b) :
    Same base t' u' a b := by
  obtain ⟨τ, ha, hb⟩ := h
  exact ⟨τ, ha.mono ht, hb.mono hu⟩

lemma Same.symm (h : Same base t u a b) : Same base u t b a := by
  obtain ⟨τ, ha, hb⟩ := h
  exact ⟨τ, hb, ha⟩

lemma same_given (t u : TypeTable) (hid : id < base.slots.size) : Same base t u id id :=
  ⟨.given id, .given hid, .given hid⟩

/-- What is asked about a type and has the same answer for two types, each of its own table. -/
structure Answers (t u : TypeTable) (a b : TypeId) : Prop where
  isVoid : t.isVoid a = u.isVoid b
  isBool : t.isBool a = u.isBool b
  isPointer : t.isPointer a = u.isPointer b
  isArray : t.isArray a = u.isArray b
  isRecord : t.isRecord a = u.isRecord b
  isFunction : t.isFunction a = u.isFunction b
  length : t.length a = u.length b
  isImmutable : t.isImmutable a = u.isImmutable b
  constants : (t.slot a).constants = (u.slot b).constants
  traits : t.traits a = u.traits b
  size : t.size a = u.size b

namespace Answers

variable (h : Answers t u a b)

include h

lemma has (trait : Trait) : t.has a trait = u.has b trait := by
  rw [TypeTable.has, TypeTable.has, h.traits]

lemma isScalar : t.isScalar a = u.isScalar b := h.has _

lemma isInteger : t.isInteger a = u.isInteger b := h.has _

lemma isFloat : t.isFloat a = u.isFloat b := h.has _

lemma isNumeric : t.isNumeric a = u.isNumeric b :=
  congrArg₂ or h.isInteger h.isFloat

lemma isTestable : t.isTestable a = u.isTestable b :=
  congrArg₂ or h.isInteger (h.has _)

lemma information : t.information a = u.information b := by
  rw [TypeTable.information, TypeTable.information, h.size, h.isPointer, h.isArray, h.isFloat,
    isUnsigned, isUnsigned, h.has]

end Answers

end TypeTable

lemma Shape.Match.refl (hs : s.isPlaceholder = false) (h : ∀ r ∈ s.references, R r r) :
    Shape.Match R s s := by
  have hlist {α : Type} {P : α → α → Prop} (xs : List α) (hxs : ∀ x ∈ xs, P x x) : xs.Forall₂ P xs :=
    forall₂_same.2 hxs
  cases s with
  | builtin p => exact .builtin p
  | pointer x => exact .pointer (h x (mem_singleton_self x))
  | array x length => exact .array length (h x (mem_singleton_self x))
  | function x ps isVariadic =>
    refine .function isVariadic (h x (.head _)) (hlist ps fun p hp => ⟨rfl, ?_⟩)
    exact h p.type (.tail _ (mem_map_of_mem hp))
  | record ms isUnion =>
    exact .record isUnion (hlist ms fun m hm => ⟨rfl, h m.type (mem_map_of_mem hm)⟩)
  | enum x => exact .enum (h x (mem_singleton_self x))
  | placeholder => cases hs

lemma Shape.Match.isPlaceholder (h : Shape.Match R s s') : s'.isPlaceholder = false := by
  cases h <;> rfl

/-! ## Options that are related -/

section

variable {R : α → β → Prop} {o : Option α} {o' : Option β} (h : Option.Rel R o o')

include h

@[elab_as_elim]
lemma optionRel_elim {motive : Option α → Option β → Prop} (none : motive none none)
    (some : ∀ {a b}, R a b → motive (some a) (some b)) : motive o o' := by
  cases h with
  | none => exact none
  | some hab => exact some hab

lemma optionRel_getD (hab : R a b) : R (o.getD a) (o'.getD b) :=
  optionRel_elim h hab id

lemma optionRel_bind {S : γ → δ → Prop} {f : α → Option γ} {f' : β → Option δ}
    (hf : ∀ {a b}, R a b → Option.Rel S (f a) (f' b)) : Option.Rel S (o >>= f) (o' >>= f') :=
  optionRel_elim h .none hf

lemma optionRel_filter {p : α → Bool} {q : β → Bool} (hp : ∀ {a b}, R a b → p a = q b) :
    Option.Rel R (o.filter p) (o'.filter q) := by
  refine optionRel_elim h .none fun hab => ?_
  rw [Option.filter_some, Option.filter_some, hp hab]
  split
  · exact .some hab
  · exact .none

end

lemma optionRel_mono (hsub : ∀ a b, R a b → S a b) (h : Option.Rel R o o') : Option.Rel S o o' :=
  optionRel_elim h .none fun hab => .some (hsub _ _ hab)

namespace TypeTable

variable {base t t' u u' : TypeTable} {a a' b b' id : TypeId}

section Correspondence

variable (ht : Over base t) (hu : Over base u)

include ht hu

namespace Same

lemma alignUp (size : UInt64) : t.alignUp size = u.alignUp size := by
  rw [TypeTable.alignUp, TypeTable.alignUp, ht.alignment, hu.alignment]

variable (h : Same base t u a b)

include h

lemma eq (h' : Same base t u a' b') : a = a' ↔ b = b' := by
  obtain ⟨τ, ha, hb⟩ := h
  obtain ⟨σ, ha', hb'⟩ := h'
  constructor
  · rintro rfl
    obtain rfl := ha.unique ht ha'
    exact hb.injective hu hb'
  · rintro rfl
    obtain rfl := hb.unique hu hb'
    exact ha.injective ht ha'

lemma slot : (t.slot a).constants = (u.slot b).constants ∧
    (t.slot a).isImmutable = (u.slot b).isImmutable ∧
      Shape.Match (Same base t u) (t.slot a).shape (u.slot b).shape := by
  obtain ⟨τ, ha, hb⟩ := h
  induction ha generalizing b with
  | given hid =>
    cases hb
    rw [ht.slot _ hid, hu.slot _ hid]
    refine ⟨rfl, rfl, .refl (ht.ground.settled _) fun r hr => ?_⟩
    exact same_given t u (ht.ground.sound.closed _ hid r hr)
  | @derived _ _ form τ _ _ hslot hx _ =>
    cases hb with
    | derived _ _ hslot' hy =>
      rw [hslot, hslot']
      refine ⟨rfl, rfl, ?_⟩
      cases form with
      | pointer => exact .pointer ⟨τ, hx, hy⟩
      | array length => exact .array length ⟨τ, hx, hy⟩
  | immutable hnew hmem _ ih =>
    cases hb with
    | immutable hnew' hmem' hy =>
      obtain ⟨hconsts, -, hshape⟩ := ih hy
      rw [(ht.variant _ _ hmem hnew).slot, (hu.variant _ _ hmem' hnew').slot]
      exact ⟨hconsts, rfl, hshape⟩

lemma shape : Shape.Match (Same base t u) (t.shape a) (u.shape b) :=
  (h.slot ht hu).2.2

lemma underlyingWithin (fuel : Nat) :
    Same base t u (t.underlyingWithin fuel a) (u.underlyingWithin fuel b) := by
  induction fuel generalizing a b with
  | zero => exact h
  | succ _ ih =>
    rw [TypeTable.underlyingWithin, TypeTable.underlyingWithin]
    have hshape := h.shape ht hu
    generalize t.shape a = s, u.shape b = s' at hshape ⊢
    cases hshape with
    | enum hbase => exact ih hbase
    | _ => exact h

lemma underlying : Same base t u (t.underlying a) (u.underlying b) := by
  have hsame := h.underlyingWithin ht hu (max t.slots.size u.slots.size)
  rwa [ht.orderly.acyclic.underlyingWithin_eq (le_max_left _ _),
    hu.orderly.acyclic.underlyingWithin_eq (le_max_right _ _)] at hsame

lemma sizeWithin (fuel : Nat) : t.sizeWithin fuel a = u.sizeWithin fuel b := by
  induction fuel generalizing a b with
  | zero => rfl
  | succ fuel ih =>
    rw [TypeTable.sizeWithin, TypeTable.sizeWithin]
    have hshape := h.shape ht hu
    generalize t.shape a = s, u.shape b = s' at hshape ⊢
    -- The sizes of the members are added up, or the largest one is taken.
    have hfold (f : UInt64 → UInt64 → UInt64) {ms ns : List Member}
        (hms : ms.Forall₂ (fun m n => m.name = n.name ∧ Same base t u m.type n.type) ns)
        (total : UInt64) :
        ms.foldl (fun total m => f total (t.alignUp (t.sizeWithin fuel m.type))) total =
          ns.foldl (fun total m => f total (u.alignUp (u.sizeWithin fuel m.type))) total := by
      induction hms generalizing total with
      | nil => rfl
      | cons hm _ ihms =>
        rw [foldl_cons, foldl_cons, ih hm.2, alignUp ht hu]
        exact ihms _
    cases hshape with
    | builtin => rfl
    | pointer | function => exact ht.pointerSize.trans hu.pointerSize.symm
    | array length hx => exact congrArg (length * ·) (ih hx)
    | record isUnion hms =>
      cases isUnion with
      | false => exact hfold (· + ·) hms 0
      | true => exact hfold max hms 0
    | enum hx => exact ih hx

lemma size : t.size a = u.size b := by
  have hsame := h.sizeWithin ht hu (max t.slots.size u.slots.size)
  rwa [ht.orderly.acyclic.sizeWithin_eq (le_max_left _ _),
    hu.orderly.acyclic.sizeWithin_eq (le_max_right _ _)] at hsame

lemma traits : t.traits a = u.traits b := by
  have himm : t.isImmutable a = u.isImmutable b := (h.slot ht hu).2.1
  rw [TypeTable.traits, TypeTable.traits, himm]
  congr 1
  have hshape := h.shape ht hu
  generalize t.shape a = s, u.shape b = s' at hshape ⊢
  cases hshape with
  | enum hx =>
    have hunderlying := (hx.underlying ht hu).shape ht hu
    rw [shapeTraits, shapeTraits]
    generalize t.shape (t.underlying _) = r, u.shape (u.underlying _) = r' at hunderlying ⊢
    cases hunderlying <;> rfl
  | _ => rfl

lemma answers : Answers t u a b := by
  obtain ⟨hconsts, himm, hshape⟩ := h.slot ht hu
  change Shape.Match _ (t.shape a) (u.shape b) at hshape
  refine ⟨?_, ?_, ?_, ?_, ?_, ?_, ?_, himm, hconsts, h.traits ht hu, h.size ht hu⟩
  all_goals
    simp only [isVoid, isBool, isPointer, isArray, isRecord, isFunction, length]
    generalize t.shape a = s, u.shape b = s' at hshape ⊢
    cases hshape <;> rfl

lemma pointee? : Option.Rel (Same base t u) (t.pointee? a) (u.pointee? b) := by
  have hshape := h.shape ht hu
  rw [TypeTable.pointee?, TypeTable.pointee?]
  generalize t.shape a = s, u.shape b = s' at hshape ⊢
  cases hshape with
  | pointer hx => exact .some hx
  | _ => exact .none

lemma element? : Option.Rel (Same base t u) (t.element? a) (u.element? b) := by
  have hshape := h.shape ht hu
  rw [TypeTable.element?, TypeTable.element?]
  generalize t.shape a = s, u.shape b = s' at hshape ⊢
  cases hshape with
  | pointer hx => exact .some hx
  | array _ hx => exact .some hx
  | _ => exact .none

lemma isVoidPointer : t.isVoidPointer a = u.isVoidPointer b := by
  rw [TypeTable.isVoidPointer, TypeTable.isVoidPointer]
  refine optionRel_elim (h.pointee? ht hu) ?_ fun hx => ?_
  · rfl
  · exact (hx.answers ht hu).isVoid

omit h in
lemma findMember (name : String)
    (hms : ms.Forall₂ (fun m n => m.name = n.name ∧ Same base t u m.type n.type) ns)
    (offset : UInt64) :
    Option.Rel (fun m n => Same base t u m.1 n.1 ∧ m.2 = n.2) (t.findMember name offset ms)
      (u.findMember name offset ns) := by
  induction hms generalizing offset with
  | nil => exact .none
  | cons hm _ ih =>
    rw [TypeTable.findMember, TypeTable.findMember, hm.1, hm.2.size ht hu, alignUp ht hu]
    split
    · exact .some ⟨hm.2, rfl⟩
    · exact ih _

lemma member? (name : String) :
    Option.Rel (fun m n => Same base t u m.1 n.1 ∧ m.2 = n.2) (t.member? a name)
      (u.member? b name) := by
  have hshape := h.shape ht hu
  rw [TypeTable.member?, TypeTable.member?]
  generalize t.shape a = s, u.shape b = s' at hshape ⊢
  cases hshape with
  | record _ hms =>
    dsimp only
    refine optionRel_elim (findMember ht hu name hms 0) .none fun hmember => .some ⟨hmember.1, ?_⟩
    dsimp only
    rw [hmember.2]
  | _ => exact .none

/-! ## Comparisons and conversions -/

/-- Types that are alike in one table correspond to types that are alike in the other. -/
lemma alike (h' : Same base t u a' b') (halike : t.Alike a a') : u.Alike b b' := by
  refine ⟨fun y y' => ∃ x x', Same base t u x y ∧ Same base t u x' y' ∧ t.Alike x x', ⟨?_, ?_, ?_⟩,
    a, a', h, h', halike⟩
  · rintro y y' ⟨x, x', hx, -, -⟩
    exact (hx.shape ht hu).isPlaceholder
  · rintro y y' ⟨x, x', -, hx', -⟩
    exact (hx'.shape ht hu).isPlaceholder
  · rintro y y' ⟨x, x', hx, hx', hxx'⟩
    refine ((alike_consistent t).resembles x x' hxx').imp (hx.eq ht hu hx').1 fun hres => ?_
    refine ⟨?_, ?_, ?_⟩
    · rw [← hx.traits ht hu, ← hx'.traits ht hu]
      exact hres.traits
    · rw [← hx.size ht hu, ← hx'.size ht hu]
      exact hres.size
    · have hback : Shape.Match (fun p q => Same base t u q p) (u.shape y) (t.shape x) :=
        (hx.shape ht hu).flip fun _ _ => id
      have hthere := hback.comp (T := fun p q => ∃ x, Same base t u x p ∧ t.Alike x q)
        (fun p q r hpq hqr => ⟨q, hpq, hqr⟩) hres.shape
      exact hthere.comp (fun p q r ⟨x, hxp, hxq⟩ hqr => ⟨x, q, hxp, hqr, hxq⟩) (hx'.shape ht hu)

lemma equal (h' : Same base t u a' b') : t.equal a a' = u.equal b b' := by
  rw [Bool.eq_iff_iff, equal_iff_alike, equal_iff_alike]
  exact ⟨h.alike ht hu h', h.symm.alike hu ht h'.symm⟩

lemma unqualified : Same base t u (t.unqualified a) (u.unqualified b) := by
  obtain ⟨τ, ha, hb⟩ := h
  exact ⟨_, ht.unqualified ha, hu.unqualified hb⟩

lemma converts (h' : Same base t u a' b') : t.converts a a' = u.converts b b' := by
  have ha := h.answers ht hu
  have ha' := h'.answers ht hu
  rw [TypeTable.converts, TypeTable.converts, ha.isVoid, ha.isBool, ha'.isScalar, ha.isNumeric,
    ha'.isNumeric, h'.isVoidPointer ht hu]
  have hshape := h.shape ht hu
  have hshape' := h'.shape ht hu
  generalize t.shape a = s, u.shape b = r at hshape ⊢
  generalize t.shape a' = s', u.shape b' = r' at hshape' ⊢
  cases hshape with
  | pointer => cases hshape' <;> rfl
  | array _ hx =>
    cases hshape' with
    | array _ hx' =>
      dsimp only
      rw [hx.equal ht hu hx']
    | _ => rfl
  | _ => rfl

lemma richer (h' : Same base t u a' b') : Same base t u (t.richer a a') (u.richer b b') := by
  rw [TypeTable.richer, TypeTable.richer, (h.answers ht hu).information,
    (h'.answers ht hu).information]
  split
  · exact h'
  · exact h

lemma constantValue? (name : String) : t.constantValue? a name = u.constantValue? b name := by
  rw [TypeTable.constantValue?, TypeTable.constantValue?, (h.answers ht hu).constants]

end Same

end Correspondence

/-- Two types, each of its own table, with one structure: they are related by pairs of types that match
in shape and mutability up to pairs of the same relation. -/
def Twin (t u : TypeTable) (a b : TypeId) : Prop :=
  ∃ R : TypeId → TypeId → Prop, R a b ∧ ∀ x y, R x y →
    Shape.Match R (t.shape x) (u.shape y) ∧ t.isImmutable x = u.isImmutable y

lemma Same.twin (ht : Over base t) (hu : Over base u) (h : Same base t u a b) : Twin t u a b :=
  ⟨Same base t u, h, fun _ _ hxy => ⟨hxy.shape ht hu, (hxy.answers ht hu).isImmutable⟩⟩

lemma Same.trans (hu : Over base u) (h : Same base t u a b) (h' : Same base u v b c) :
    Same base t v a c := by
  obtain ⟨τ, ha, hb⟩ := h
  obtain ⟨σ, hb', hc⟩ := h'
  obtain rfl := hb.unique hu hb'
  exact ⟨τ, ha, hc⟩

end TypeTable

end CompilerCore

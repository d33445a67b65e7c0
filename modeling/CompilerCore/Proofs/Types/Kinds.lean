import CompilerCore.Proofs.Except
import CompilerCore.Types.Conversion
import Mathlib.Order.Nat

/-!
# Kinds of types

What computing with the values of a type depends on is its *kind*: which primitive type it is, or
that it is an enum.  Types that are equal have one kind, and so have a type and its immutable
variant.

A type table is *sound* when the built-in types stand in their places, no type refers to one that is
missing, and every variant has the shape of the type it was made from.  Making types keeps a table
sound and leaves the types alone that it holds already.
-/

namespace CompilerCore

open List Nat

lemma Primitive.mem_all : p ∈ all := by
  cases p with
  | signed width | unsigned width | float width => cases width <;> decide
  | _ => decide

/-- What computing with the values of a type depends on. -/
inductive Kind where
  | primitive (p : Primitive)
  | enum
  | other
  deriving DecidableEq, Repr

namespace Kind

def isInteger : Kind → Bool
  | primitive p => p.isInteger
  | enum => true
  | other => false

def isFloat : Kind → Bool
  | primitive (.float _) => true
  | primitive _ | enum | other => false

end Kind

namespace Shape

def kind : Shape → Kind
  | builtin p => .primitive p
  | enum _ => .enum
  | pointer _ | array .. | function .. | record .. | placeholder .. => .other

/-- The types that a shape is built from. -/
def references : Shape → List TypeId
  | builtin _ | placeholder .. => []
  | pointer pointee => [pointee]
  | array element _ => [element]
  | function result parameters _ => result :: parameters.map (·.type)
  | record members _ => members.map (·.type)
  | enum base => [base]

lemma eq_builtin_of_kind {s : Shape} (h : s.kind = .primitive p) : s = .builtin p := by
  cases s <;> simp_all [kind]

end Shape

namespace TypeTable

/-- The kind of a type. -/
def kind (t : TypeTable) (id : TypeId) : Kind := (t.shape id).kind

variable {t t' t'' : TypeTable} {id a b : TypeId}

lemma kind_eq_of_shape (h : t'.shape id' = t.shape id) : t'.kind id' = t.kind id := by
  unfold kind
  rw [h]

/-! ## Tests and comparisons -/

lemma isInteger_and_isFloat_eq :
    t.isInteger id = (t.kind id).isInteger ∧ t.isFloat id = (t.kind id).isFloat := by
  unfold isInteger isFloat has traits kind
  cases t.isImmutable id with
  | _ =>
    cases t.shape id with
    | builtin p => cases p <;> exact ⟨rfl, rfl⟩
    | enum =>
      simp only [shapeTraits]
      split <;> exact ⟨rfl, rfl⟩
    | _ => exact ⟨rfl, rfl⟩

lemma isInteger_eq : t.isInteger id = (t.kind id).isInteger := isInteger_and_isFloat_eq.1

lemma isFloat_eq : t.isFloat id = (t.kind id).isFloat := isInteger_and_isFloat_eq.2

lemma isPointer_of_kind (h : (t.kind id).isInteger = true) : t.isPointer id = false := by
  unfold kind at h
  unfold isPointer
  split
  · next hshape => simp [hshape, Shape.kind, Kind.isInteger] at h
  · rfl

/-! ## Sound tables -/

/-- A table that holds everything another one holds. -/
structure GrowsTo (t t' : TypeTable) : Prop where
  size : t.slots.size ≤ t'.slots.size
  slot : ∀ id < t.slots.size, t'.slot id = t.slot id
  variants : t.variants ⊆ t'.variants

namespace GrowsTo

lemma refl (t : TypeTable) : t.GrowsTo t := ⟨le_refl _, fun _ _ => rfl, List.Subset.refl _⟩

lemma trans (h : t.GrowsTo t') (h' : t'.GrowsTo t'') : t.GrowsTo t'' where
  size := h.size.trans h'.size
  slot id hid := (h'.slot id (hid.trans_le h.size)).trans (h.slot id hid)
  variants := List.Subset.trans h.variants h'.variants

end GrowsTo

/-- A type that is immutable or was made as an immutable variant. -/
def Qualified (t : TypeTable) (id : TypeId) : Prop :=
  t.isImmutable id = true ∨ ∃ base, (base, id) ∈ t.variants

/-- A table all of whose variants are immutable. -/
def Marked (t : TypeTable) : Prop := ∀ entry ∈ t.variants, t.isImmutable entry.2 = true

instance (t : TypeTable) : Decidable t.Marked :=
  inferInstanceAs (Decidable (∀ entry ∈ t.variants, t.isImmutable entry.2 = true))

lemma Marked.isImmutable (h : t.Marked) (hid : t.Qualified id) : t.isImmutable id = true := by
  obtain hid | ⟨base, hmem⟩ := hid
  · exact hid
  · exact h (base, id) hmem

/-- A table that holds the types of another one, and whose variants are as those are. -/
structure Leads (t t' : TypeTable) : Prop extends GrowsTo t t' where
  marked : t.Marked → t'.Marked

namespace Leads

lemma refl (t : TypeTable) : t.Leads t := ⟨.refl t, id⟩

lemma trans (h : t.Leads t') (h' : t'.Leads t'') : t.Leads t'' :=
  ⟨h.toGrowsTo.trans h'.toGrowsTo, fun hmarked => h'.marked (h.marked hmarked)⟩

lemma shape (h : t.Leads t') (id : TypeId) (hid : id < t.slots.size) : t'.shape id = t.shape id :=
  congrArg TypeSlot.shape (h.slot id hid)

lemma kind (h : t.Leads t') (hid : id < t.slots.size) : t'.kind id = t.kind id :=
  kind_eq_of_shape (h.shape id hid)

end Leads

/-- A table in which the built-in types have their places, no type refers to a missing one, and
variants have the shapes of what they were made from. -/
@[mk_iff] structure Sound (t : TypeTable) : Prop where
  builtin : ∀ p : Primitive, p.index < t.slots.size ∧ t.shape p.index = .builtin p
  closed : ∀ id < t.slots.size, ∀ r ∈ (t.shape id).references, r < t.slots.size
  variants : ∀ entry ∈ t.variants,
    entry.1 < t.slots.size ∧ entry.2 < t.slots.size ∧ t.shape entry.2 = t.shape entry.1

instance (t : TypeTable) : Decidable t.Sound :=
  have : Decidable (∀ p : Primitive, p.index < t.slots.size ∧ t.shape p.index = .builtin p) :=
    decidable_of_iff (∀ p ∈ Primitive.all, _) ⟨fun h p => h p p.mem_all, fun h p _ => h p⟩
  decidable_of_iff' _ (sound_iff t)

/-- What making a type gives: a type of a sound table that holds the types there were. -/
structure Makes (t : TypeTable) (result : TypeId × TypeTable) : Prop where
  sound : result.2.Sound
  leads : t.Leads result.2
  known : result.1 < result.2.slots.size

lemma slot_of_le (h : t.slots.size ≤ id) : t.slot id = default := by
  unfold slot
  rw [Array.getD_eq_getD_getElem?, Array.getElem?_eq_none h]
  rfl

lemma slot_insert {slot : TypeSlot} :
    (t.insert slot).2.slot id = if id = t.slots.size then slot else t.slot id := by
  unfold TypeTable.slot insert
  simp only [Array.getD_eq_getD_getElem?, Array.getElem?_push]
  split <;> rfl

lemma shape_insert {slot : TypeSlot} :
    (t.insert slot).2.shape id = if id = t.slots.size then slot.shape else t.shape id := by
  rw [shape, slot_insert]
  split <;> rfl

lemma shape_of_le (h : t.slots.size ≤ id) : t.shape id = .builtin .void :=
  congrArg TypeSlot.shape (slot_of_le h)

lemma lt_of_isImmutable (h : t.isImmutable id = true) : id < t.slots.size := by
  by_contra hid
  rw [isImmutable, slot_of_le (Nat.le_of_not_lt hid)] at h
  cases h

lemma GrowsTo.isImmutable (h : t.GrowsTo t') (himm : t.isImmutable id = true) :
    t'.isImmutable id = true := by
  rw [TypeTable.isImmutable, h.slot id (lt_of_isImmutable himm)]
  exact himm

lemma GrowsTo.qualified (h : t.GrowsTo t') (hid : t.Qualified id) : t'.Qualified id :=
  hid.imp h.isImmutable fun ⟨base, hmem⟩ => ⟨base, h.variants hmem⟩

lemma size_insert (t : TypeTable) (slot : TypeSlot) :
    (t.insert slot).2.slots.size = t.slots.size + 1 :=
  Array.size_push _

lemma insert_growsTo (t : TypeTable) (slot : TypeSlot) : t.GrowsTo (t.insert slot).2 where
  size := by rw [size_insert]; omega
  slot id hid := by rw [slot_insert, if_neg hid.ne]
  variants := List.Subset.refl _

lemma insert_leads {slot : TypeSlot} : t.Leads (t.insert slot).2 where
  toGrowsTo := insert_growsTo t slot
  marked hmarked entry hentry := (insert_growsTo t slot).isImmutable (hmarked entry hentry)

/-- The type found is that of the first member of the name, whatever the sizes of types. -/
lemma map_fst_findMember (offset : UInt64) : (t.findMember name offset members).map Prod.fst =
    (members.find? (·.name = name)).map Member.type := by
  induction members generalizing offset with
  | nil => rfl
  | cons _ _ ih =>
    rw [findMember, find?_cons]
    split <;> simp_all

lemma isSome_member?_of_shape (h : t'.shape id' = t.shape id) :
    (t'.member? id' name).isSome = (t.member? id name).isSome := by
  unfold member?
  rw [h]
  split
  · rw [Option.isSome_map, Option.isSome_map, ← Option.isSome_map (f := Prod.fst),
      map_fst_findMember, ← map_fst_findMember 0, Option.isSome_map]
  · rfl

lemma lt_of_isSome_member? (h : (t.member? id name).isSome) : id < t.slots.size := by
  by_contra hid
  rw [member?, shape_of_le (Nat.le_of_not_lt hid)] at h
  cases h

lemma Leads.member (h : t.Leads t') (hmember : (t.member? id name).isSome) :
    (t'.member? id name).isSome := by
  rw [isSome_member?_of_shape (h.shape id (lt_of_isSome_member? hmember))]
  exact hmember

lemma mem_of_findMember (h : t.findMember name offset members = some (type, offset')) :
    ∃ m ∈ members, m.name = name ∧ m.type = type := by
  have hfirst := congrArg (Option.map Prod.fst) h
  rw [map_fst_findMember, Option.map_some, Option.map_eq_some_iff] at hfirst
  obtain ⟨m, hm, htype⟩ := hfirst
  exact ⟨m, mem_of_find?_eq_some hm, by simpa using find?_some hm, htype⟩

lemma exists_of_member? (h : t.member? id name = some (type, offset)) :
    ∃ members isUnion start, t.shape id = .record members isUnion ∧
      t.findMember name 0 members = some (type, start) ∧ offset = if isUnion then 0 else start := by
  unfold member? at h
  split at h
  · next members isUnion hshape =>
    obtain ⟨⟨_, start⟩, hfind, heq⟩ := Option.map_eq_some_iff.1 h
    cases heq
    exact ⟨members, isUnion, start, hshape, hfind, rfl⟩
  · cases h

/-- A table with a new immutable variant of a type. -/
def addVariant (t : TypeTable) (id : TypeId) : TypeTable :=
  { (t.insert { t.slot id with isImmutable := true, generation := 0 }).2 with
    variants := (id, t.slots.size) :: t.variants }

lemma addVariant_growsTo (t : TypeTable) (id : TypeId) : t.GrowsTo (t.addVariant id) where
  size := (insert_growsTo t _).size
  slot := (insert_growsTo t _).slot
  variants := subset_cons_self _ _

lemma slot_addVariant (t : TypeTable) (id : TypeId) :
    (t.addVariant id).slot t.slots.size = { t.slot id with isImmutable := true, generation := 0 } :=
  slot_insert.trans (if_pos rfl)

namespace Sound

variable (h : t.Sound)
include h

lemma insert {slot : TypeSlot}
    (hslot : ∀ r ∈ slot.shape.references, r < t.slots.size) : t.Makes (t.insert slot) where
  sound :=
    { builtin := fun p => by
        have hp := h.builtin p
        rw [size_insert, shape_insert, if_neg (Nat.ne_of_lt hp.1)]
        exact ⟨lt_succ_of_lt hp.1, hp.2⟩
      closed := fun id hid r hr => by
        rw [size_insert] at hid ⊢
        rw [shape_insert] at hr
        split at hr
        · exact lt_succ_of_lt (hslot r hr)
        · next hne =>
          exact lt_succ_of_lt (h.closed id (lt_of_le_of_ne (le_of_lt_succ hid) hne) r hr)
      variants := fun entry hentry => by
        obtain ⟨hbase, hvar, hshape⟩ := h.variants entry hentry
        rw [size_insert, shape_insert, shape_insert, if_neg (Nat.ne_of_lt hbase),
          if_neg (Nat.ne_of_lt hvar)]
        exact ⟨lt_succ_of_lt hbase, lt_succ_of_lt hvar, hshape⟩ }
  leads := insert_leads
  known := by
    rw [size_insert]
    exact lt_succ_self _

lemma intern {shape : Shape} (hshape : ∀ r ∈ shape.references, r < t.slots.size) :
    t.Makes (t.intern shape) := by
  unfold TypeTable.intern
  split
  · next id hfind =>
    obtain ⟨hid, -⟩ := Array.findIdx?_eq_some_iff_getElem.1 hfind
    exact ⟨h, .refl t, hid⟩
  · exact h.insert hshape

lemma pointerTo (hid : id < t.slots.size) : t.Makes (t.pointerTo id) :=
  h.intern (by simpa [Shape.references] using hid)

lemma arrayOf (hid : id < t.slots.size) (length : UInt64) : t.Makes (t.arrayOf id length) :=
  h.intern (by simpa [Shape.references] using hid)

/-- What a shape refers to is in the table; a missing type refers to nothing. -/
lemma references_lt (hs : t.shape id = s) (hr : r ∈ s.references) : r < t.slots.size := by
  subst hs
  by_cases hid : id < t.slots.size
  · exact h.closed id hid r hr
  · rw [shape_of_le (Nat.le_of_not_lt hid)] at hr
    cases hr

lemma pointee_lt (hid : t.pointee? id = some type) : type < t.slots.size := by
  unfold pointee? at hid
  split at hid
  · next pointee hshape =>
    cases hid
    exact h.references_lt hshape (by simp [Shape.references])
  · cases hid

lemma element_lt (hid : t.element? id = some type) : type < t.slots.size := by
  unfold element? at hid
  split at hid
  · next hshape =>
    cases hid
    exact h.references_lt hshape (by simp [Shape.references])
  · next hshape =>
    cases hid
    exact h.references_lt hshape (by simp [Shape.references])
  · cases hid

lemma member_lt (hid : t.member? id name = some (type, offset)) : type < t.slots.size := by
  obtain ⟨members, _, _, hshape, hfind, -⟩ := exists_of_member? hid
  obtain ⟨m, hm, _, htype⟩ := mem_of_findMember hfind
  exact h.references_lt hshape (mem_map.2 ⟨m, hm, htype⟩)

lemma bool : t.kind TypeId.bool = .primitive .bool := by
  have hbool : t.shape TypeId.bool = .builtin .bool := (h.builtin .bool).2
  rw [kind, hbool]
  rfl

lemma shape_unqualified (id : TypeId) : t.shape (t.unqualified id) = t.shape id := by
  unfold unqualified
  split
  · split
    · next base variant hfind =>
      have hmem := mem_of_find?_eq_some hfind
      obtain rfl : variant = id := by simpa using find?_some hfind
      exact (h.variants _ hmem).2.2.symm
    · rfl
  · rfl

lemma kind_unqualified : t.kind (t.unqualified id) = t.kind id :=
  kind_eq_of_shape (h.shape_unqualified id)

lemma unqualified_lt (hid : id < t.slots.size) : t.unqualified id < t.slots.size := by
  unfold unqualified
  split
  · split
    · next hfind => exact (h.variants _ (mem_of_find?_eq_some hfind)).1
    · exact hid
  · exact hid

lemma immutable (hid : id < t.slots.size) :
    t.Makes (t.immutable id) ∧ (t.immutable id).2.shape (t.immutable id).1 = t.shape id ∧
      (t.immutable id).2.Qualified (t.immutable id).1 := by
  unfold TypeTable.immutable
  split
  · next himm => exact ⟨⟨h, .refl t, hid⟩, rfl, .inl himm⟩
  · split
    · next variant hlook =>
      have hmem := mem_of_lookup hlook
      obtain ⟨-, hvar, hshape⟩ := h.variants (id, variant) hmem
      exact ⟨⟨h, .refl t, hvar⟩, hshape, .inr ⟨id, hmem⟩⟩
    · have hmakes : t.Makes (t.insert { t.slot id with isImmutable := true, generation := 0 }) :=
        h.insert (h.closed id hid)
      have hgrows := addVariant_growsTo t id
      have hnew : (t.addVariant id).shape t.slots.size = t.shape id := by
        rw [shape, slot_addVariant]
        rfl
      have himm : (t.addVariant id).isImmutable t.slots.size = true := by
        rw [isImmutable, slot_addVariant]
      refine ⟨⟨⟨hmakes.sound.builtin, hmakes.sound.closed, ?_⟩, ⟨hgrows, fun hmarked => ?_⟩,
        hmakes.known⟩, hnew, .inl himm⟩
      · refine forall_mem_cons.2 ⟨?_, hmakes.sound.variants⟩
        exact ⟨lt_of_lt_of_le hid hmakes.leads.size, hmakes.known,
          hnew.trans (hmakes.leads.shape id hid).symm⟩
      · exact forall_mem_cons.2 ⟨himm, fun entry hentry =>
          hgrows.isImmutable (hmarked entry hentry)⟩

end Sound

end TypeTable

end CompilerCore

import CompilerCore.Proofs.Types.Equivalence

/-!
# Arrays of arrays

How many levels of arrays a type has.  Types that are alike have the same levels.
-/

namespace CompilerCore.TypeTable

variable {t t' : TypeTable} {a b id : TypeId} {n : Nat}

/-- A type with at least `n` levels of arrays. -/
def Nested (t : TypeTable) : Nat → TypeId → Prop
  | 0, _ => True
  | n + 1, id => ∃ element length, t.shape id = .array element length ∧ t.Nested n element

lemma nested_zero (t : TypeTable) (id : TypeId) : t.Nested 0 id := trivial

lemma nested_congr (h : t.shape a = t.shape b) (n : Nat) : t.Nested n a ↔ t.Nested n b := by
  cases n with
  | zero => exact Iff.rfl
  | succ => rw [Nested, Nested, h]

lemma Nested.le (hle : m ≤ n) (h : t.Nested n id) : t.Nested m id := by
  induction m generalizing n id with
  | zero => trivial
  | succ m ih =>
    obtain ⟨n, rfl⟩ := Nat.exists_eq_add_of_lt hle
    obtain ⟨element, length, hshape, helem⟩ := h
    exact ⟨element, length, hshape, ih (Nat.le_add_right m n) helem⟩

lemma nested_max (hm : t.Nested m id) (hn : t.Nested n id) : t.Nested (max m n) id := by
  obtain h | h := le_total m n
  · rwa [max_eq_right h]
  · rwa [max_eq_left h]

lemma Nested.element (h : t.Nested (n + 1) id) :
    ∃ element, t.element? id = some element ∧ t.Nested n element := by
  obtain ⟨element, length, hshape, helem⟩ := h
  exact ⟨element, by rw [element?, hshape], helem⟩

lemma isArray_of_shape {length : UInt64} (h : t.shape id = .array element length) :
    t.isArray id = true := by
  rw [isArray, h]

lemma exists_of_isArray (h : t.isArray id = true) :
    ∃ element length, t.shape id = .array element length := by
  unfold isArray at h
  split at h
  · next element length hshape => exact ⟨element, length, hshape⟩
  · cases h

lemma Nested.isArray (h : t.Nested (n + 1) id) : t.isArray id = true := by
  obtain ⟨element, length, hshape, -⟩ := h
  exact isArray_of_shape hshape

lemma Leads.shape_eq (h : t.Leads t') (hvoid : t.shape id ≠ .builtin .void) :
    t'.shape id = t.shape id := by
  by_cases hid : id < t.slots.size
  · exact h.shape id hid
  · exact absurd (shape_of_le (Nat.le_of_not_lt hid)) hvoid

lemma Leads.array (h : t.Leads t') {length : UInt64} (hshape : t.shape id = .array element length) :
    t'.shape id = .array element length :=
  (h.shape_eq (by rw [hshape]; nofun)).trans hshape

lemma Leads.isFunction (h : t.Leads t') (hfun : t.isFunction id = true) :
    t'.isFunction id = true := by
  have hshape : t'.shape id = t.shape id := h.shape_eq fun hvoid => by
    rw [TypeTable.isFunction, hvoid] at hfun
    cases hfun
  rwa [TypeTable.isFunction, hshape]

lemma Leads.isArray (h : t.Leads t') (harray : t.isArray id = true) : t'.isArray id = true := by
  obtain ⟨element, length, hshape⟩ := exists_of_isArray harray
  exact isArray_of_shape (h.array hshape)

lemma Leads.nested (h : t.Leads t') (hn : t.Nested n id) : t'.Nested n id := by
  induction n generalizing id with
  | zero => trivial
  | succ _ ih =>
    obtain ⟨element, length, hshape, helem⟩ := hn
    exact ⟨element, length, h.array hshape, ih helem⟩

lemma shape_intern (t : TypeTable) (shape : Shape) :
    (t.intern shape).2.shape (t.intern shape).1 = shape := by
  unfold intern
  split
  · next id hfind =>
    obtain ⟨hid, hslot, -⟩ := Array.findIdx?_eq_some_iff_getElem.1 hfind
    rw [Bool.and_eq_true, decide_eq_true_eq] at hslot
    rw [TypeTable.shape, slot, Array.getD_eq_getD_getElem?, Array.getElem?_eq_getElem hid]
    exact hslot.2
  · exact shape_insert.trans (if_pos rfl)

lemma Alike.nested (h : t.Alike a b) (hn : t.Nested n a) : t.Nested n b := by
  induction n generalizing a b with
  | zero => trivial
  | succ _ ih =>
    obtain hshape | hshape := h.shapes
    · exact (nested_congr hshape _).1 hn
    · obtain ⟨element, length, harray, helem⟩ := hn
      rw [harray] at hshape
      generalize hb : t.shape b = y at hshape
      cases hshape with
      | array _ hab => exact ⟨_, length, hb, ih hab helem⟩

end CompilerCore.TypeTable

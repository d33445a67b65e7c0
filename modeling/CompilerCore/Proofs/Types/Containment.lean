import CompilerCore.Proofs.Types.Kinds
import CompilerCore.Types.Resolution
import Mathlib.Data.Finset.Card
import Mathlib.Logic.Relation

/-!
# Containment by value

An array contains its elements, a struct or union its members and an enum the type that represents
it; a pointer contains nothing.  As long as no type contains itself, walks along containment end, so
the size of a type and whether it can be laid out do not depend on how deep the walk may go.
-/

namespace CompilerCore

open Finset

/-- The types whose values are part of a value of the shape. -/
def Shape.parts : Shape → List TypeId
  | builtin _ | pointer _ | function .. | placeholder .. => []
  | array element _ => [element]
  | record members _ => members.map (·.type)
  | enum base => [base]

lemma Shape.parts_subset (s : Shape) : s.parts ⊆ s.references := by
  cases s <;> simp [parts, references]

namespace TypeTable

/-- One type contains another one by value. -/
def Contains (t : TypeTable) (a b : TypeId) : Prop := b ∈ (t.shape a).parts

/-- A type is another one or is somewhere inside it. -/
abbrev Reaches (t : TypeTable) : TypeId → TypeId → Prop := Relation.ReflTransGen t.Contains

/-- No type contains itself. -/
def Acyclic (t : TypeTable) : Prop := ∀ id, ¬Relation.TransGen t.Contains id id

/-- Neither the type nor anything in it is a placeholder. -/
def Complete (t : TypeTable) (id : TypeId) : Prop :=
  ∀ x, t.Reaches id x → t.isPlaceholder x = false

variable {t : TypeTable} {a b id : TypeId}

lemma Contains.lt (h : t.Contains a b) : a < t.slots.size := by
  by_contra hid
  rw [Contains, shape_of_le (Nat.le_of_not_lt hid)] at h
  cases h

lemma not_contains_of_isPlaceholder (h : t.isPlaceholder a = true) : ¬t.Contains a b := by
  intro hcont
  unfold Contains at hcont
  unfold isPlaceholder at h
  cases hshape : t.shape a with
  | placeholder =>
    rw [hshape] at hcont
    cases hcont
  | _ =>
    rw [hshape] at h
    cases h

/-- Numbers that fall along containment rule out cycles. -/
lemma acyclic_of_rank (rank : TypeId → Nat)
    (h : ∀ a < t.slots.size, ∀ b ∈ (t.shape a).parts, rank b < rank a) : t.Acyclic := by
  intro id hcycle
  have hfalls (x y : TypeId) (hxy : Relation.TransGen t.Contains x y) : rank y < rank x := by
    induction hxy with
    | single hxy => exact h x hxy.lt _ hxy
    | tail _ hyz ih => exact (h _ hyz.lt _ hyz).trans ih
  exact lt_irrefl _ (hfalls id id hcycle)

/-- Without cycles there are such numbers, all of them below the number of types: how many types of
the table a type contains. -/
lemma Acyclic.exists_rank (h : t.Acyclic) : ∃ rank : TypeId → Nat,
    (∀ id < t.slots.size, rank id < t.slots.size) ∧
      ∀ a b, t.Contains a b → b < t.slots.size → rank b < rank a := by
  classical
  let inside (id : TypeId) : Finset TypeId :=
    (range t.slots.size).filter (Relation.TransGen t.Contains id)
  refine ⟨fun id => (inside id).card, fun id hid => ?_, fun a b hab hb => ?_⟩
  · have hself : inside id ⊆ (range t.slots.size).erase id := by
      intro x hx
      rw [mem_filter] at hx
      refine mem_erase.2 ⟨?_, hx.1⟩
      rintro rfl
      exact h x hx.2
    have hmem : id ∈ range t.slots.size := mem_range.2 hid
    calc (inside id).card
      _ ≤ ((range t.slots.size).erase id).card := card_le_card hself
      _ < (range t.slots.size).card := card_erase_lt_of_mem hmem
      _ = t.slots.size := card_range _
  · refine card_lt_card (ssubset_iff_of_subset ?_ |>.2 ⟨b, ?_, ?_⟩)
    · intro x hx
      rw [mem_filter] at hx ⊢
      exact ⟨hx.1, .head hab hx.2⟩
    · exact mem_filter.2 ⟨mem_range.2 hb, .single hab⟩
    · exact fun hb' => h b (mem_filter.1 hb').2

/-! ## Walks end -/

section Walks

variable {rank : TypeId → Nat} (hrank : ∀ a b, t.Contains a b → b < t.slots.size → rank b < rank a)

include hrank

/-- A walk that has enough steps left for a type has enough for what the type contains. -/
lemma rank_lt_of_contains (h : t.Contains a b) (hfuel : a < t.slots.size → rank a < fuel + 1)
    (hb : b < t.slots.size) : rank b < fuel := by
  have := hrank a b h hb
  have := hfuel h.lt
  omega

/-- A walk gives the same for every depth that is enough, if what it gives for a type depends on what it
gives for the parts of the type. -/
lemma walk_congr {walk : Nat → TypeId → α}
    (hzero : ∀ id, t.slots.size ≤ id → walk 1 id = walk 0 id)
    (hstep : ∀ fuel fuel' id, (∀ b, t.Contains id b → walk fuel b = walk fuel' b) →
      walk (fuel + 1) id = walk (fuel' + 1) id)
    (h : id < t.slots.size → rank id < fuel) (h' : id < t.slots.size → rank id < fuel') :
    walk fuel id = walk fuel' id := by
  have hmiss (fuel : Nat) {id : TypeId} (hid : t.slots.size ≤ id) : walk fuel id = walk 0 id := by
    cases fuel with
    | zero => rfl
    | succ fuel =>
      exact (hstep fuel 0 id fun b hb => absurd hb.lt hid.not_gt).trans (hzero id hid)
  induction fuel generalizing fuel' id with
  | zero => exact (hmiss _ (Nat.le_of_not_lt fun hid => absurd (h hid) (Nat.not_lt_zero _))).symm
  | succ fuel ih =>
    by_cases hid : id < t.slots.size
    · obtain ⟨fuel', rfl⟩ := Nat.exists_eq_succ_of_ne_zero (Nat.ne_zero_of_lt (h' hid))
      exact hstep _ _ _ fun b hb =>
        ih (rank_lt_of_contains hrank hb h) (rank_lt_of_contains hrank hb h')
    · rw [hmiss _ (Nat.le_of_not_lt hid), hmiss fuel' (Nat.le_of_not_lt hid)]

/-- In a table that refers to no missing types, a walk finds every placeholder in a type. -/
lemma isCompleteWithin_iff (hclosed : ∀ a b, t.Contains a b → b < t.slots.size)
    (hid : id < t.slots.size) (h : rank id < fuel) :
    t.isCompleteWithin fuel id = true ↔ t.Complete id := by
  induction fuel generalizing id with
  | zero => exact absurd h (Nat.not_lt_zero _)
  | succ fuel ih =>
    have hpart (b : TypeId) (hb : t.Contains id b) :
        t.isCompleteWithin fuel b = true ↔ t.Complete b :=
      ih (hclosed id b hb) (rank_lt_of_contains hrank hb (fun _ => h) (hclosed id b hb))
    have hsplit : t.Complete id ↔
        t.isPlaceholder id = false ∧ ∀ b, t.Contains id b → t.Complete b := by
      constructor
      · intro hcomp
        exact ⟨hcomp id .refl, fun b hb x hx => hcomp x (.head hb hx)⟩
      · rintro ⟨hself, hparts⟩ x hx
        obtain rfl | ⟨b, hb, hx⟩ := hx.cases_head
        · exact hself
        · exact hparts b hb x hx
    have hparts : (∀ b, t.Contains id b → t.Complete b) ↔
        ∀ b ∈ (t.shape id).parts, t.isCompleteWithin fuel b = true :=
      forall₂_congr fun b hb => (hpart b hb).symm
    rw [hsplit, hparts, isPlaceholder, isCompleteWithin]
    cases t.shape id <;> simp [Shape.parts, Shape.isPlaceholder]

end Walks

namespace Acyclic

variable (h : t.Acyclic)

include h

lemma walk_eq {walk : Nat → TypeId → α}
    (hzero : ∀ id, t.slots.size ≤ id → walk 1 id = walk 0 id)
    (hstep : ∀ fuel fuel' id, (∀ b ∈ (t.shape id).parts, walk fuel b = walk fuel' b) →
      walk (fuel + 1) id = walk (fuel' + 1) id) (hfuel : t.slots.size ≤ fuel) :
    walk fuel id = walk t.slots.size id := by
  obtain ⟨rank, hlt, hrank⟩ := h.exists_rank
  exact walk_congr hrank hzero hstep (fun hid => (hlt id hid).trans_le hfuel) (hlt id)

/-- The size of a type does not depend on how deep it is looked into. -/
lemma sizeWithin_eq (hfuel : t.slots.size ≤ fuel) (id : TypeId) :
    t.sizeWithin fuel id = t.size id := by
  have hzero (id : TypeId) (hid : t.slots.size ≤ id) : t.sizeWithin 1 id = 0 := by
    rw [sizeWithin, shape_of_le hid]
    rfl
  refine h.walk_eq hzero (fun fuel fuel' id hpart => ?_) hfuel
  rw [sizeWithin, sizeWithin]
  cases hshape : t.shape id with
  | array | enum =>
    rw [hshape] at hpart
    simp only [hpart _ (List.mem_singleton_self _)]
  | record members isUnion =>
    rw [hshape] at hpart
    have hmember (m : Member) (hm : m ∈ members) :
        t.sizeWithin fuel m.type = t.sizeWithin fuel' m.type :=
      hpart m.type (List.mem_map.2 ⟨m, hm, rfl⟩)
    cases isUnion with
    | false => exact List.foldl_ext _ _ _ fun total m hm => by rw [hmember m hm]
    | true => exact List.foldl_ext _ _ _ fun largest m hm => by rw [hmember m hm]
  | _ => rfl

lemma underlyingWithin_eq (hfuel : t.slots.size ≤ fuel) (id : TypeId) :
    t.underlyingWithin fuel id = t.underlying id := by
  have hzero (id : TypeId) (hid : t.slots.size ≤ id) : t.underlyingWithin 1 id = id := by
    rw [underlyingWithin, shape_of_le hid]
  refine h.walk_eq hzero (fun _ _ id hpart => ?_) hfuel
  rw [underlyingWithin, underlyingWithin]
  cases hshape : t.shape id with
  | enum =>
    rw [hshape] at hpart
    exact hpart _ (List.mem_singleton_self _)
  | _ => rfl

lemma isCompleteWithin_iff_complete (hclosed : ∀ a b, t.Contains a b → b < t.slots.size)
    (hfuel : t.slots.size ≤ fuel) (hid : id < t.slots.size) :
    t.isCompleteWithin fuel id = true ↔ t.Complete id := by
  obtain ⟨rank, hlt, hrank⟩ := h.exists_rank
  exact isCompleteWithin_iff hrank hclosed hid ((hlt id hid).trans_le hfuel)

end Acyclic

end TypeTable

end CompilerCore

import CompilerCore.Proofs.Types.Containment
import CompilerCore.Proofs.Types.Resolution

/-!
# Resolution is exact

Placeholders are resolved in place, one after the other, while other types refer to them.  Whatever the
order, those that end up resolved are the members of a least set: the placeholders whose names stand for
a type that contains no others but members of the set.  A type that takes over the contents of a
complete one contains nothing that waits for it, so no type ever comes to contain itself.
-/

namespace CompilerCore.TypeTable

open List Nat

/-! ## Tables that are built -/

/-- A table made by the operations on tables, each of which is given types that exist. -/
inductive Built : TypeTable → Prop
  | start (alignment pointerSize : UInt64) : Built (start alignment pointerSize)
  | pointerTo {t : TypeTable} {id : TypeId} : Built t → id < t.slots.size → Built (t.pointerTo id).2
  | arrayOf {t : TypeTable} {id : TypeId} (length : UInt64) : Built t → id < t.slots.size →
    Built (t.arrayOf id length).2
  | function {t : TypeTable} {result : TypeId} {parameters : List ParameterType}
    (isVariadic : Bool) : Built t → result < t.slots.size →
    (∀ p ∈ parameters, p.type < t.slots.size) → Built (t.function result parameters isVariadic).2
  | declareRecord {t : TypeTable} {members : List Member} (name : Option String) (isUnion : Bool)
    (scope : Option ScopeId) : Built t → (∀ m ∈ members, m.type < t.slots.size) →
    Built (t.declareRecord name members isUnion scope).2
  | declareEnum {t : TypeTable} {base : TypeId} (name : String) (constants : List NamedConstant)
    (scope : Option ScopeId) : Built t → base < t.slots.size →
    Built (t.declareEnum name base constants scope).2
  | placeholder {t : TypeTable} (name : String) (origin : Option SourceId) (scope : ScopeId) :
    Built t → Built (t.placeholder name origin scope).2
  | addConstant {t : TypeTable} (id : TypeId) (constant : NamedConstant) : Built t →
    Built (t.addConstant id constant)
  | immutable {t : TypeTable} {id : TypeId} : Built t → id < t.slots.size → Built (t.immutable id).2
  | resolve {t : TypeTable} (scopes : ScopeTree) : Built t → Built (t.resolve scopes).2

/-- A table in which types contain types of the table and none contains itself. -/
structure Orderly (t : TypeTable) : Prop where
  pos : 0 < t.slots.size
  closed : ∀ a b, t.Contains a b → b < t.slots.size
  acyclic : t.Acyclic

variable {t t' u u' : TypeTable} {scopes : ScopeTree} {a b id target : TypeId}

lemma Orderly.congr (h : t.Orderly) (hsize : t'.slots.size = t.slots.size)
    (hshape : ∀ id, t'.shape id = t.shape id) : t'.Orderly := by
  have hcont : t'.Contains = t.Contains := by
    funext a b
    rw [Contains, Contains, hshape]
  refine ⟨hsize ▸ h.pos, ?_, ?_⟩
  · rw [hcont, hsize]
    exact h.closed
  · rw [Acyclic, hcont]
    exact h.acyclic

lemma Orderly.insert (h : t.Orderly) {slot : TypeSlot}
    (hslot : ∀ b ∈ slot.shape.parts, b < t.slots.size) : (t.insert slot).2.Orderly := by
  obtain ⟨rank, hlt, hrank⟩ := h.acyclic.exists_rank
  have hsize := size_insert t slot
  have hcases (a : TypeId) : ∀ b ∈ ((t.insert slot).2.shape a).parts, b < t.slots.size ∧
      (a ≠ t.slots.size → t.Contains a b) := by
    intro b hb
    rw [shape_insert] at hb
    split at hb
    · next heq => exact ⟨hslot b hb, fun hne => absurd heq hne⟩
    · exact ⟨h.closed a b hb, fun _ => hb⟩
  refine ⟨hsize ▸ succ_pos _, fun a b hb => ?_, ?_⟩
  · rw [hsize]
    exact lt_succ_of_lt (hcases a b hb).1
  · refine acyclic_of_rank (fun id => if id = t.slots.size then t.slots.size else rank id) ?_
    intro a _ b hb
    obtain ⟨hold, hcont⟩ := hcases a b hb
    rw [if_neg hold.ne]
    split
    · exact hlt b hold
    · next hne => exact hrank a b (hcont hne) hold

lemma Orderly.intern (h : t.Orderly) {shape : Shape}
    (hshape : ∀ b ∈ shape.parts, b < t.slots.size) : (t.intern shape).2.Orderly := by
  unfold TypeTable.intern
  split
  · exact h
  · exact h.insert hshape

lemma Orderly.immutable (h : t.Orderly) (id : TypeId) : (t.immutable id).2.Orderly := by
  unfold TypeTable.immutable
  split
  · exact h
  · split
    · exact h
    · let variant : TypeSlot := { t.slot id with isImmutable := true, generation := 0 }
      have hparts : ∀ b ∈ variant.shape.parts, b < t.slots.size := h.closed id
      exact (h.insert hparts).congr rfl fun _ => rfl

lemma slot_addConstant :
    ∃ constants, (t.addConstant id constant).slot x = { t.slot x with constants } := by
  unfold slot addConstant
  simp only [Array.getD_eq_getD_getElem?, Array.getElem?_modify]
  split
  · cases t.slots[x]? <;> exact ⟨_, rfl⟩
  · exact ⟨_, rfl⟩

lemma shape_addConstant (t : TypeTable) (id : TypeId) (constant : NamedConstant) (x : TypeId) :
    (t.addConstant id constant).shape x = t.shape x := by
  obtain ⟨_, hslot⟩ := t.slot_addConstant
  rw [shape, hslot]
  rfl

lemma shape_start {alignment pointerSize : UInt64} {a : TypeId} :
    ∃ p, (start alignment pointerSize).shape a = .builtin p := by
  simp only [start, shape, slot, Array.getD_eq_getD_getElem?, getElem?_toArray,
    getElem?_map]
  cases Primitive.all[a]? with
  | none => exact ⟨.void, rfl⟩
  | some p => exact ⟨p, rfl⟩

lemma orderly_start {alignment pointerSize : UInt64} : (start alignment pointerSize).Orderly := by
  have hcont (a b : TypeId) : ¬(start alignment pointerSize).Contains a b := by
    obtain ⟨p, hp⟩ := shape_start
    rw [Contains, hp]
    exact not_mem_nil
  refine ⟨succ_pos 11, fun a b hab => absurd hab (hcont a b), ?_⟩
  exact acyclic_of_rank id fun a _ b hb => absurd hb (hcont a b)

/-! ## Steps of resolution -/

variable {fuel : Nat}

lemma Orderly.isComplete_iff (h : t.Orderly) (hfuel : t.slots.size ≤ fuel) :
    t.isCompleteWithin fuel id = true ↔ t.Complete id := by
  by_cases hid : id < t.slots.size
  · exact h.acyclic.isCompleteWithin_iff_complete h.closed hfuel hid
  · -- A type that is missing counts as `void`.
    have hshape := shape_of_le (Nat.le_of_not_lt hid)
    obtain ⟨fuel, rfl⟩ := Nat.exists_eq_succ_of_ne_zero (h.pos.trans_le hfuel).ne'
    refine iff_of_true (by rw [isCompleteWithin, hshape]) fun x hx => ?_
    obtain rfl | ⟨b, hb, -⟩ := hx.cases_head
    · rw [isPlaceholder, hshape]
      rfl
    · exact absurd hb.lt hid

namespace Adopts

variable (h : Adopts scopes t id target)

include h

variable {x y : TypeId}

lemma ne_of_complete (hx : t.Complete x) (hy : t.Reaches x y) : y ≠ id :=
  h.ne_of_done (hx y hy)

lemma contains_of_ne (hx : x ≠ id) : (t.adopt id target).Contains x y ↔ t.Contains x y := by
  rw [Contains, Contains, h.shape_of_ne hx]

lemma contains_self : (t.adopt id target).Contains id y ↔ t.Contains target y := by
  rw [Contains, Contains, h.shape_self]

lemma reaches_of_complete (hx : t.Complete x) (hy : (t.adopt id target).Reaches x y) :
    t.Reaches x y := by
  induction hy with
  | refl => exact .refl
  | tail _ hyz ih => exact ih.tail ((h.contains_of_ne (h.ne_of_complete hx ih)).1 hyz)

lemma complete_of_complete (hx : t.Complete x) : (t.adopt id target).Complete x := by
  intro y hy
  have hreach := h.reaches_of_complete hx hy
  rw [h.isPlaceholder_of_ne (h.ne_of_complete hx hreach)]
  exact hx y hreach

lemma complete_self (hcomplete : t.Complete target) : (t.adopt id target).Complete id := by
  intro y hy
  obtain rfl | ⟨z, hz, hy⟩ := hy.cases_head
  · exact h.isPlaceholder_self
  · -- What the type contains now is contained in its target.
    have hz := h.contains_self.1 hz
    have hcomp : t.Complete z := fun x hx => hcomplete x (.head hz hx)
    exact h.complete_of_complete hcomp y hy

/-- A way along containment avoids the type, or comes to it and goes on inside its target. -/
lemma transGen_cases (hxy : Relation.TransGen (t.adopt id target).Contains x y) :
    Relation.TransGen t.Contains x y ∨ (t.Reaches x id ∧ t.Reaches target y) := by
  have hstep {y z : TypeId} (hyz : (t.adopt id target).Contains y z)
      (hy : t.Reaches x y ∨ (t.Reaches x id ∧ t.Reaches target y)) :
      Relation.TransGen t.Contains x z ∨ (t.Reaches x id ∧ t.Reaches target z) := by
    by_cases heq : y = id
    · subst heq
      refine .inr ⟨?_, .single (h.contains_self.1 hyz)⟩
      exact hy.elim id And.left
    · have hyz := (h.contains_of_ne heq).1 hyz
      exact hy.imp (fun hxy => .tail' hxy hyz) fun hy => ⟨hy.1, hy.2.tail hyz⟩
  induction hxy with
  | single hxz => exact hstep hxz (.inl .refl)
  | tail _ hyz ih => exact hstep hyz (ih.imp_left (·.to_reflTransGen))

lemma orderly (ht : t.Orderly) (hcomplete : t.Complete target) : (t.adopt id target).Orderly where
  pos := size_adopt t id target ▸ ht.pos
  closed x y hxy := by
    rw [size_adopt]
    by_cases hx : x = id
    · subst hx
      exact ht.closed target y (h.contains_self.1 hxy)
    · exact ht.closed x y ((h.contains_of_ne hx).1 hxy)
  acyclic x hcycle := by
    obtain hcycle | ⟨hto, hfrom⟩ := h.transGen_cases hcycle
    · exact ht.acyclic x hcycle
    · exact h.ne_of_complete hcomplete (hfrom.trans hto) rfl

end Adopts

/-! ## What can be resolved -/

/-- The placeholders that can be resolved: the least set of those whose name stands for another type
that contains no placeholders but members of the set. -/
inductive Resolvable (scopes : ScopeTree) (t : TypeTable) : TypeId → Prop
  | intro {id target : TypeId} {name : String} {origin : Option SourceId} {scope : ScopeId} :
    t.shape id = .placeholder name origin scope →
    scopes.resolveType? scope name origin = some target → target ≠ id →
    (∀ x, t.Reaches target x → t.isPlaceholder x = true → Resolvable scopes t x) →
    Resolvable scopes t id

/-- A table in which some placeholders of another one have been resolved, each when its target was
complete. -/
structure Advances (scopes : ScopeTree) (t u : TypeTable) : Prop extends Resolves scopes t u where
  orderly : u.Orderly
  complete : ∀ id, t.isPlaceholder id = true → u.isPlaceholder id = false → u.Complete id
  resolvable : ∀ id, t.isPlaceholder id = true → u.isPlaceholder id = false → Resolvable scopes t id

namespace Advances

variable (h : Advances scopes t u)

include h

/-- A way along containment in the first table leads through types that are no placeholders, so it is
there in the second one. -/
lemma reaches (hx : t.Reaches id x) : u.Reaches id x := by
  induction hx with
  | refl => exact .refl
  | @tail y _ _ hyz ih =>
    have hy : t.isPlaceholder y = false := by
      rw [← Bool.not_eq_true]
      exact fun hy => not_contains_of_isPlaceholder hy hyz
    refine ih.tail ?_
    rw [Contains, shape, h.kept y hy]
    exact hyz

/-- What a type contains in the second table is contained in it in the first one, or in a placeholder
that has been resolved. -/
lemma reaches_cases (hx : u.Reaches id x) : t.Reaches id x ∨
      ∃ y, t.Reaches id y ∧ t.isPlaceholder y = true ∧ u.isPlaceholder y = false ∧ u.Reaches y x := by
  induction hx with
  | refl => exact .inl .refl
  | @tail y _ _ hyz ih =>
    obtain hy | ⟨w, hw, hwaits, hdone, hwy⟩ := ih
    · have hdone : u.isPlaceholder y = false := by
        rw [← Bool.not_eq_true]
        exact fun hy => not_contains_of_isPlaceholder hy hyz
      cases hwaits : t.isPlaceholder y with
      | true => exact .inr ⟨y, hy, hwaits, hdone, .single hyz⟩
      | false =>
        rw [Contains, shape, h.kept y hwaits] at hyz
        exact .inl (hy.tail hyz)
    · exact .inr ⟨w, hw, hwaits, hdone, hwy.tail hyz⟩

lemma adopt (hadopts : Adopts scopes u id target) : Advances scopes t (u.adopt id target) := by
  have hcomplete : u.Complete target := (h.orderly.isComplete_iff le_rfl).1 hadopts.ready
  have hdone {x : TypeId} (hx : (u.adopt id target).isPlaceholder x = false) (hne : x ≠ id) :
      u.isPlaceholder x = false :=
    (hadopts.isPlaceholder_of_ne hne).symm.trans hx
  refine ⟨h.toResolves.adopt hadopts, hadopts.orderly h.orderly hcomplete, ?_, ?_⟩
  · intro x hwaits hx
    by_cases hxid : x = id
    · exact hxid ▸ hadopts.complete_self hcomplete
    · exact hadopts.complete_of_complete (h.complete x hwaits (hdone hx hxid))
  · intro x hwaits hx
    by_cases hxid : x = id
    · subst hxid
      obtain ⟨name, origin, scope, hshape, htarget⟩ := hadopts.waits
      rw [shape, h.waiting x hadopts.isPlaceholder] at hshape
      refine .intro hshape htarget hadopts.ne fun y hy hyes => ?_
      -- The target is complete, so placeholders in it have been resolved before.
      exact h.resolvable y hyes (hcomplete y (h.reaches hy))
    · exact h.resolvable x hwaits (hdone hx hxid)

/-- When no placeholder is ready, all that can be resolved have been. -/
lemma not_waiting_of_resolvable
    (hstuck : ∀ id, u.isPlaceholder id = true → u.resolveOne? scopes id = none)
    (hid : Resolvable scopes t id) : u.isPlaceholder id = false := by
  induction hid with
  | @intro id target name origin scope hshape htgt hne _ ih =>
    rw [← Bool.not_eq_true]
    intro hwaits
    have hcomp : u.Complete target := by
      intro x hx
      obtain hx | ⟨y, hy, hyes, hno, hyx⟩ := h.reaches_cases hx
      · cases hyes : t.isPlaceholder x with
        | true => exact ih x hx hyes
        | false =>
          rw [isPlaceholder, shape, h.kept x hyes]
          exact hyes
      · exact h.complete y hyes hno x hyx
    have hshape' : u.shape id = .placeholder name origin scope := by
      rw [shape, h.waiting id hwaits]
      exact hshape
    have hnone := hstuck id hwaits
    simp only [resolveOne?, hshape', htgt] at hnone
    rw [if_pos ⟨hne, (h.orderly.isComplete_iff le_rfl).2 hcomp⟩] at hnone
    cases hnone

end Advances

/-! ## The outcome -/

/-- Each pass but the last resolves a placeholder, so a limit on their number does not matter if it
allows one pass for each. -/
lemma resolvePasses_congr (hfuel : pending.length ≤ fuel) (hfuel' : pending.length ≤ fuel') :
    t.resolvePasses scopes fuel pending passes = t.resolvePasses scopes fuel' pending passes := by
  have hdone (fuel : Nat) (t : TypeTable) (passes : Nat) :
      t.resolvePasses scopes fuel [] passes = (.ok passes, t) := by
    cases fuel <;> rfl
  induction fuel generalizing t pending fuel' passes with
  | zero =>
    obtain rfl := length_eq_zero_iff.1 (le_zero.1 hfuel)
    rw [hdone, hdone]
  | succ _ ih =>
    cases fuel' with
    | zero =>
      obtain rfl := length_eq_zero_iff.1 (le_zero.1 hfuel')
      rw [hdone, hdone]
    | succ =>
      rw [resolvePasses, resolvePasses]
      cases hpass : t.resolvePass scopes pending with
      | mk =>
        have hle := (resolvePass_length hpass).1
        dsimp only
        split
        · rfl
        · split
          · rfl
          · exact ih (by omega) (by omega)

lemma Orderly.advances (h : t.Orderly) (hsteps : Steps scopes t u) : Advances scopes t u := by
  induction hsteps with
  | refl =>
    have hnone {p : Prop} {id : TypeId} (hyes : t.isPlaceholder id = true)
        (hno : t.isPlaceholder id = false) : p :=
      nomatch hyes.symm.trans hno
    exact ⟨.refl scopes t, h, fun _ => hnone, fun _ => hnone⟩
  | adopt _ hadopts ih => exact ih.adopt hadopts

lemma Orderly.resolve (h : t.Orderly) (scopes : ScopeTree) :
    Advances scopes t (t.resolve scopes).2 :=
  h.advances (resolve_steps rfl).1

lemma Built.orderly (h : t.Built) : t.Orderly := by
  induction h with
  | start alignment pointerSize => exact orderly_start
  | pointerTo _ _ ih => exact ih.intern fun b hb => nomatch hb
  | arrayOf _ _ _ ih =>
    refine ih.intern fun b hb => ?_
    rwa [mem_singleton.1 hb]
  | function _ _ _ _ ih => exact ih.intern fun b hb => nomatch hb
  | declareRecord _ _ _ _ hmembers ih =>
    refine ih.insert fun b hb => ?_
    obtain ⟨m, hm, rfl⟩ := mem_map.1 hb
    exact hmembers m hm
  | declareEnum _ _ _ _ _ ih =>
    refine ih.insert fun b hb => ?_
    rwa [mem_singleton.1 hb]
  | placeholder _ _ _ _ ih => exact ih.insert fun b hb => nomatch hb
  | addConstant id constant _ ih => exact ih.congr Array.size_modify (shape_addConstant _ id constant)
  | immutable _ _ ih => exact ih.immutable _
  | resolve scopes _ ih => exact (ih.resolve scopes).orderly

/-! ## What resolution comes to -/

/-- What is to be expected of a table whose placeholders have been resolved as far as possible, and of
the answer that comes with it. -/
structure Settles (scopes : ScopeTree) (t t' : TypeTable) (answer : Except UnresolvedTypes Nat) :
    Prop where
  size : t'.slots.size = t.slots.size
  kept : ∀ id, t.isPlaceholder id = false → t'.slot id = t.slot id
  acyclic : t'.Acyclic
  /-- Walks along containment end: they give the same at any depth that allows for every type. -/
  walks : ∀ fuel ≥ t'.slots.size, ∀ id, t'.sizeWithin fuel id = t'.size id ∧
    (t'.isCompleteWithin fuel id = true ↔ t'.Complete id)
  /-- One pass for each placeholder is enough. -/
  passes : ∀ n, answer = .ok n → n ≤ t.unresolved.length
  resolved : ∀ n, answer = .ok n → ∀ id, t'.isPlaceholder id = false ∧
    (t.isPlaceholder id = true → Takes scopes t t' id)
  /-- The names in the answer are those of the placeholders that are left, one by one. -/
  names : ∀ e, answer = .error e → t'.unresolved ≠ [] ∧
    List.Forall₂ (fun id name => ∃ origin scope, t'.shape id = .placeholder name origin scope)
      t'.unresolved e.names
  waiting : ∀ id, t.isPlaceholder id = true →
    (t'.isPlaceholder id = true ↔ ¬Resolvable scopes t id)

lemma Advances.settles (h : Advances scopes t t') (houtcome : Outcome scopes t' answer)
    (hcount : ∀ n, answer = .ok n → n ≤ t.unresolved.length) : Settles scopes t t' answer where
  size := h.size
  kept := h.kept
  acyclic := h.orderly.acyclic
  walks fuel hfuel id :=
    ⟨h.orderly.acyclic.sizeWithin_eq hfuel id, h.orderly.isComplete_iff hfuel⟩
  passes := hcount
  resolved n hn id := by
    subst hn
    exact ⟨houtcome.done id, fun hwaits => h.takes id hwaits (houtcome.done id)⟩
  names e he := (he ▸ houtcome).names
  waiting id hid := by
    have hstuck : ∀ x, t'.isPlaceholder x = true → t'.resolveOne? scopes x = none := by
      intro x hx
      cases answer with
      | ok => exact nomatch hx.symm.trans (houtcome.done x)
      | error => exact houtcome.2.2 x hx
    constructor
    · intro hwaits hresolvable
      have := h.not_waiting_of_resolvable hstuck hresolvable
      rw [hwaits] at this
      cases this
    · intro hnot
      by_contra hdone
      exact hnot (h.resolvable id hid (Bool.not_eq_true _ ▸ hdone))

lemma Orderly.settles (h : t.Orderly) (scopes : ScopeTree) :
    Settles scopes t (t.resolve scopes).2 (t.resolve scopes).1 := by
  obtain ⟨-, houtcome, hcount⟩ := resolve_steps (rfl : t.resolve scopes = (_, _))
  exact (h.resolve scopes).settles houtcome hcount

/-- Resolution of a table that was built by the operations on tables ends, within any limit that
allows one pass for each placeholder, and resolves exactly the placeholders that can be resolved. -/
theorem resolve_exact (h : t.Built) (scopes : ScopeTree) :
    t.Acyclic ∧
      (∀ limit ≥ t.unresolved.length,
        t.resolvePasses scopes limit t.unresolved 0 = t.resolve scopes) ∧
      Settles scopes t (t.resolve scopes).2 (t.resolve scopes).1 := by
  refine ⟨h.orderly.acyclic, fun limit hlimit => ?_, h.orderly.settles scopes⟩
  exact resolvePasses_congr hlimit (Nat.le_succ _)

/-- A struct `Outer` holds an `Inner` and a pointer to one; a struct `Knot` holds itself.  All three are
known by name before they are declared. -/
def nested : TypeTable :=
  let (inner, t) := ((start 8 8).placeholder "Outer" none 0).2.placeholder "Inner" none 0
  let (toInner, t) := t.pointerTo inner
  let (_, t) := t.declareRecord (some "Outer") [⟨"inner", inner⟩, ⟨"link", toInner⟩] false (some 0)
  let (_, t) := t.declareRecord (some "Inner") [⟨"value", TypeId.i32⟩] false (some 0)
  let (knot, t) := t.placeholder "Knot" none 0
  (t.declareRecord (some "Knot") [⟨"self", knot⟩] false (some 0)).2

def nestedScopes : ScopeTree :=
  let entry (type : TypeId) : ScopeEntry := .record ⟨type, .synthesized, false⟩
  { scopes := #[{ parent := none, names :=
      [("Outer", entry 15), ("Inner", entry 16), ("Knot", entry 18)] }] }

/-- `Inner` is resolved after `Outer` was tried in vain, and `Knot` never. -/
theorem resolve_exact_nested : nested.Built ∧ nested.unresolved = [12, 13, 17] ∧
    Resolvable nestedScopes nested 12 ∧ ¬Resolvable nestedScopes nested 17 ∧
    (nested.resolve nestedScopes).1 = .error ⟨["Knot"]⟩ ∧
    Settles nestedScopes nested (nested.resolve nestedScopes).2 (.error ⟨["Knot"]⟩) := by
  have hbuilt : nested.Built := by
    refine .declareRecord _ _ _ (.placeholder _ _ _ (.declareRecord _ _ _ (.declareRecord _ _ _
      (.pointerTo (.placeholder _ _ _ (.placeholder _ _ _ (.start 8 8))) ?_) ?_) ?_)) ?_
    all_goals decide +kernel
  have hanswer : (nested.resolve nestedScopes).1 = .error ⟨["Knot"]⟩ := by decide +kernel
  obtain ⟨-, -, hsettles⟩ := resolve_exact hbuilt nestedScopes
  rw [hanswer] at hsettles
  refine ⟨hbuilt, by decide +kernel, ?_, ?_, hanswer, hsettles⟩
  · by_contra hnot
    have := (hsettles.waiting 12 (by decide +kernel)).2 hnot
    revert this
    decide +kernel
  · exact (hsettles.waiting 17 (by decide +kernel)).1 (by decide +kernel)

end CompilerCore.TypeTable

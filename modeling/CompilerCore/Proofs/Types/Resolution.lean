import CompilerCore.Proofs.Types.Kinds
import CompilerCore.Types.Resolution
import Mathlib.Data.List.Forall2

/-!
# Steps of resolution

Resolution goes by steps, in each of which a placeholder takes over the contents of the type that its
name stands for (`Adopts`).  What holds of a table after any number of them holds of the outcome
(`resolve_steps`).  In particular, placeholders for one name that have been resolved have one shape, so
a type and its immutable variant do: resolution keeps a table sound.
-/

namespace CompilerCore.TypeTable

open List Nat

variable {scopes : ScopeTree} {t t' u u' : TypeTable} {id target a b x : TypeId}

/-! ## One step -/

lemma slot_adopt (hid : id < t.slots.size) : (t.adopt id target).slot x = if x = id then
      { t.slot id with
        shape := (t.slot target).shape
        name := (t.slot target).name
        constants := (t.slot target).constants
        generation := (t.slot id).generation + 1 }
      else t.slot x := by
  unfold slot adopt
  simp only [Array.getD_eq_getD_getElem?, Array.getElem?_modify, eq_comm]
  split
  · next heq =>
    subst heq
    simp [Array.getElem?_eq_getElem hid, slot]
  · rfl

lemma size_adopt (t : TypeTable) (id target : TypeId) :
    (t.adopt id target).slots.size = t.slots.size :=
  Array.size_modify

lemma lt_of_isPlaceholder (h : t.isPlaceholder id = true) : id < t.slots.size := by
  by_contra hid
  rw [isPlaceholder, shape_of_le (Nat.le_of_not_lt hid)] at h
  cases h

/-- A placeholder that can take over the contents of a type. -/
structure Adopts (scopes : ScopeTree) (t : TypeTable) (id target : TypeId) : Prop where
  waits : ∃ name origin scope, t.shape id = .placeholder name origin scope ∧
    scopes.resolveType? scope name origin = some target
  ne : target ≠ id
  ready : t.isComplete target = true

namespace Adopts

variable (h : Adopts scopes t id target)

include h

lemma isPlaceholder : t.isPlaceholder id = true := by
  obtain ⟨name, origin, scope, hshape, -⟩ := h.waits
  rw [TypeTable.isPlaceholder, hshape]
  rfl

lemma isPlaceholder_target : t.isPlaceholder target = false := by
  have hready := h.ready
  unfold isComplete at hready
  cases hsize : t.slots.size with
  | zero => rw [hsize] at hready; cases hready
  | succ =>
    rw [hsize, isCompleteWithin] at hready
    rw [TypeTable.isPlaceholder]
    cases hshape : t.shape target with
    | placeholder => rw [hshape] at hready; cases hready
    | _ => rfl

lemma ne_of_done (hx : t.isPlaceholder x = false) : x ≠ id := by
  rintro rfl
  rw [h.isPlaceholder] at hx
  cases hx

lemma slot_of_ne (hx : x ≠ id) : (t.adopt id target).slot x = t.slot x := by
  rw [slot_adopt (lt_of_isPlaceholder h.isPlaceholder), if_neg hx]

lemma shape_of_ne (hx : x ≠ id) : (t.adopt id target).shape x = t.shape x :=
  congrArg TypeSlot.shape (h.slot_of_ne hx)

lemma isPlaceholder_of_ne (hx : x ≠ id) :
    (t.adopt id target).isPlaceholder x = t.isPlaceholder x :=
  congrArg Shape.isPlaceholder (h.shape_of_ne hx)

lemma shape_self : (t.adopt id target).shape id = t.shape target := by
  rw [shape, slot_adopt (lt_of_isPlaceholder h.isPlaceholder), if_pos rfl]
  rfl

lemma isPlaceholder_self : (t.adopt id target).isPlaceholder id = false :=
  (congrArg Shape.isPlaceholder h.shape_self).trans h.isPlaceholder_target

end Adopts

/-! ## Any number of steps -/

/-- A table that another one becomes by steps of resolution. -/
inductive Steps (scopes : ScopeTree) (t : TypeTable) : TypeTable → Prop
  | refl : Steps scopes t t
  | adopt {u : TypeTable} {id target : TypeId} : Steps scopes t u → Adopts scopes u id target →
    Steps scopes t (u.adopt id target)

/-- What a placeholder of `t` has become in `u`: it has the contents of the type that its name stands
for. -/
def Takes (scopes : ScopeTree) (t u : TypeTable) (id : TypeId) : Prop :=
  ∃ name origin scope target, t.shape id = .placeholder name origin scope ∧
    scopes.resolveType? scope name origin = some target ∧ u.isPlaceholder target = false ∧
    u.slot id =
      { t.slot id with
        shape := (u.slot target).shape
        name := (u.slot target).name
        constants := (u.slot target).constants
        generation := (t.slot id).generation + 1 }

/-- A table in which some placeholders of another one have been resolved. -/
structure Resolves (scopes : ScopeTree) (t u : TypeTable) : Prop where
  size : u.slots.size = t.slots.size
  variants : u.variants = t.variants
  shapes : ∀ id, ∃ source, u.shape id = t.shape source
  kept : ∀ id, t.isPlaceholder id = false → u.slot id = t.slot id
  waiting : ∀ id, u.isPlaceholder id = true → u.slot id = t.slot id
  takes : ∀ id, t.isPlaceholder id = true → u.isPlaceholder id = false → Takes scopes t u id

namespace Resolves

lemma refl (scopes : ScopeTree) (t : TypeTable) : Resolves scopes t t where
  size := rfl
  variants := rfl
  shapes id := ⟨id, rfl⟩
  kept _ _ := rfl
  waiting _ _ := rfl
  takes _ hyes hno := nomatch hyes.symm.trans hno

variable (h : Resolves scopes t u)

include h

lemma isPlaceholder_of_waiting (hid : u.isPlaceholder id = true) : t.isPlaceholder id = true := by
  rw [isPlaceholder, shape, h.waiting id hid] at hid
  exact hid

lemma adopt (hadopts : Adopts scopes u id target) : Resolves scopes t (u.adopt id target) := by
  have hid : t.isPlaceholder id = true := h.isPlaceholder_of_waiting hadopts.isPlaceholder
  have hslot : u.slot id = t.slot id := h.waiting id hadopts.isPlaceholder
  refine ⟨(size_adopt u id target).trans h.size, h.variants, fun x => ?_, fun x hx => ?_,
    fun x hx => ?_, fun x hwaits hx => ?_⟩
  · by_cases hxid : x = id
    · rw [hxid, hadopts.shape_self]
      exact h.shapes target
    · rw [hadopts.shape_of_ne hxid]
      exact h.shapes x
  · have hxid : x ≠ id := by
      rintro rfl
      rw [hid] at hx
      cases hx
    exact (hadopts.slot_of_ne hxid).trans (h.kept x hx)
  · by_cases hxid : x = id
    · rw [hxid, hadopts.isPlaceholder_self] at hx
      cases hx
    · rw [hadopts.isPlaceholder_of_ne hxid] at hx
      exact (hadopts.slot_of_ne hxid).trans (h.waiting x hx)
  · by_cases hxid : x = id
    · subst hxid
      obtain ⟨name, origin, scope, hshape, htarget⟩ := hadopts.waits
      refine ⟨name, origin, scope, target, ?_, htarget, ?_, ?_⟩
      · rw [shape, ← hslot]
        exact hshape
      · rw [hadopts.isPlaceholder_of_ne hadopts.ne]
        exact hadopts.isPlaceholder_target
      · rw [slot_adopt (lt_of_isPlaceholder hadopts.isPlaceholder), if_pos rfl,
          hadopts.slot_of_ne hadopts.ne, hslot]
    · rw [hadopts.isPlaceholder_of_ne hxid] at hx
      obtain ⟨name, origin, scope, goal, hshape, hgoal, hdone, hslot'⟩ := h.takes x hwaits hx
      -- What was resolved before was not resolved to the placeholder.
      have hne := hadopts.ne_of_done hdone
      refine ⟨name, origin, scope, goal, hshape, hgoal, ?_, ?_⟩
      · rw [hadopts.isPlaceholder_of_ne hne]
        exact hdone
      · rw [hadopts.slot_of_ne hxid, hadopts.slot_of_ne hne]
        exact hslot'

lemma isImmutable_eq (id : TypeId) : u.isImmutable id = t.isImmutable id := by
  unfold isImmutable
  cases hbefore : t.isPlaceholder id with
  | false => rw [h.kept id hbefore]
  | true =>
    cases hafter : u.isPlaceholder id with
    | true => rw [h.waiting id hafter]
    | false =>
      obtain ⟨_, _, _, _, _, _, _, hslot⟩ := h.takes id hbefore hafter
      rw [hslot]

/-- Placeholders for one name are resolved to one shape. -/
lemma shape_eq (hshape : t.shape a = t.shape b) (ha : u.isPlaceholder a = false)
    (hb : u.isPlaceholder b = false) : u.shape a = u.shape b := by
  have hsame : t.isPlaceholder a = t.isPlaceholder b := congrArg Shape.isPlaceholder hshape
  unfold shape at hshape ⊢
  cases hbefore : t.isPlaceholder a with
  | false => rw [h.kept a hbefore, h.kept b (hsame ▸ hbefore), hshape]
  | true =>
    obtain ⟨_, _, _, target, ha', htarget, -, hslot⟩ := h.takes a hbefore ha
    obtain ⟨_, _, _, target', hb', htarget', -, hslot'⟩ := h.takes b (hsame ▸ hbefore) hb
    unfold shape at ha' hb'
    rw [ha', hb'] at hshape
    cases hshape
    obtain rfl : target = target' := Option.some.inj (htarget.symm.trans htarget')
    rw [hslot, hslot']

lemma sound (ht : t.Sound) (hdone : ∀ id, u.isPlaceholder id = false) : u.Sound where
  builtin p := by
    obtain ⟨hp, hshape⟩ := ht.builtin p
    have hkept := h.kept p.index (by rw [isPlaceholder, hshape]; rfl)
    exact ⟨h.size ▸ hp, (congrArg TypeSlot.shape hkept).trans hshape⟩
  closed id _ r hr := by
    obtain ⟨source, hshape⟩ := h.shapes id
    rw [h.size]
    exact ht.references_lt rfl (hshape ▸ hr)
  variants entry hentry := by
    rw [h.variants] at hentry
    obtain ⟨hbase, hvariant, hshape⟩ := ht.variants entry hentry
    rw [h.size]
    exact ⟨hbase, hvariant, h.shape_eq hshape (hdone _) (hdone _)⟩

lemma marked (ht : t.Marked) : u.Marked := by
  intro entry hentry
  rw [h.isImmutable_eq]
  exact ht entry (h.variants ▸ hentry)

end Resolves

lemma Steps.resolves (h : Steps scopes t u) : Resolves scopes t u := by
  induction h with
  | refl => exact .refl scopes t
  | adopt _ hadopts ih => exact ih.adopt hadopts

/-! ## Passes -/

lemma mem_unresolved : id ∈ t.unresolved ↔ t.isPlaceholder id = true := by
  rw [unresolved, mem_filter, mem_range]
  exact and_iff_right_of_imp lt_of_isPlaceholder

lemma Steps.resolveOne? (h : Steps scopes t u) (hwaits : u.isPlaceholder id = true)
    (hone : u.resolveOne? scopes id = some u') :
    Steps scopes t u' ∧ u'.isPlaceholder id = false ∧
      ∀ x ≠ id, u'.isPlaceholder x = u.isPlaceholder x := by
  unfold TypeTable.resolveOne? at hone
  split at hone
  · next name origin scope hshape =>
    split at hone
    · next target htarget =>
      split at hone
      · next hcan =>
        cases hone
        have hadopts : Adopts scopes u id target :=
          ⟨⟨name, origin, scope, hshape, htarget⟩, hcan.1, hcan.2⟩
        exact ⟨h.adopt hadopts, hadopts.isPlaceholder_self, fun x => hadopts.isPlaceholder_of_ne⟩
      · cases hone
    · cases hone
  · next hshape =>
    unfold isPlaceholder Shape.isPlaceholder at hwaits
    split at hwaits
    · next name origin scope heq => exact absurd heq (hshape name origin scope)
    · cases hwaits

/-- A pass over placeholders gives those that it did not resolve and leaves alone what it was not
given. -/
lemma Steps.resolvePass (h : Steps scopes t u) (hids : ids.Nodup)
    (hwaits : ∀ id ∈ ids, u.isPlaceholder id = true)
    (hpass : u.resolvePass scopes ids = (u', remaining)) :
    Steps scopes t u' ∧ remaining = ids.filter u'.isPlaceholder ∧
      ∀ x ∉ ids, u'.isPlaceholder x = u.isPlaceholder x := by
  induction ids generalizing u remaining with
  | nil =>
    cases hpass
    exact ⟨h, rfl, fun _ _ => rfl⟩
  | cons id ids ih =>
    obtain ⟨hid, hids⟩ := nodup_cons.1 hids
    obtain ⟨hfirst, hrest⟩ := forall_mem_cons.1 hwaits
    unfold TypeTable.resolvePass at hpass
    split at hpass
    · next u1 hone =>
      obtain ⟨h1, hdone, hothers⟩ := h.resolveOne? hfirst hone
      have hrest1 : ∀ x ∈ ids, u1.isPlaceholder x = true := by
        intro x hx
        rw [hothers x (ne_of_mem_of_not_mem hx hid)]
        exact hrest x hx
      obtain ⟨h', hrem, houtside⟩ := ih h1 hids hrest1 hpass
      refine ⟨h', ?_, fun x hx => ?_⟩
      · rw [filter_cons_of_neg, hrem]
        rw [houtside id hid, hdone]
        exact Bool.false_ne_true
      · rw [mem_cons, not_or] at hx
        rw [houtside x hx.2, hothers x hx.1]
    · cases hpass
      obtain ⟨h', hrem, houtside⟩ := ih h hids hrest rfl
      refine ⟨h', ?_, fun x hx => houtside x fun hmem => hx (.tail _ hmem)⟩
      rw [filter_cons_of_pos, hrem]
      rw [houtside id hid]
      exact hfirst

lemma Steps.resolvePass_unresolved (h : Steps scopes t u)
    (hpass : u.resolvePass scopes u.unresolved = (u', remaining)) :
    Steps scopes t u' ∧ remaining = u'.unresolved := by
  have hnodup : u.unresolved.Nodup := nodup_range.filter _
  obtain ⟨h', hrem, houtside⟩ := h.resolvePass hnodup (fun _ => mem_unresolved.1) hpass
  refine ⟨h', ?_⟩
  have hfilter (x : TypeId) : (u'.isPlaceholder x && u.isPlaceholder x) = u'.isPlaceholder x := by
    rw [Bool.and_eq_left_iff_imp]
    intro hx
    by_contra hnot
    rw [houtside x fun hmem => hnot (mem_unresolved.1 hmem)] at hx
    exact hnot hx
  rw [hrem, unresolved, unresolved, filter_filter, h.resolves.size, h'.resolves.size]
  exact filter_congr fun x _ => hfilter x

/-- A pass leaves no more placeholders than there were; if it leaves as many, it could resolve none. -/
lemma resolvePass_length (h : t.resolvePass scopes ids = (t', remaining)) :
    remaining.length ≤ ids.length ∧ (remaining.length = ids.length →
      t' = t ∧ ∀ id ∈ ids, t.resolveOne? scopes id = none) := by
  induction ids generalizing t t' remaining with
  | nil =>
    cases h
    exact ⟨le_rfl, fun _ => ⟨rfl, nofun⟩⟩
  | cons _ ids ih =>
    unfold resolvePass at h
    split at h
    · have hle := (ih h).1
      exact ⟨hle.trans (Nat.le_succ _), fun heq => absurd heq (Nat.lt_succ_of_le hle).ne⟩
    · next hnone =>
      obtain ⟨hle, hsame⟩ := ih (rfl : t.resolvePass scopes ids = (_, _))
      cases h
      refine ⟨Nat.succ_le_succ hle, fun heq => ?_⟩
      obtain ⟨ht, hrest⟩ := hsame (Nat.succ.inj heq)
      exact ⟨ht, forall_mem_cons.2 ⟨hnone, hrest⟩⟩

/-- What is known when resolution is over. -/
def Outcome (scopes : ScopeTree) (t : TypeTable) : Except UnresolvedTypes Nat → Prop
  | .ok _ => t.unresolved = []
  | .error e => t.unresolved ≠ [] ∧ e.names = t.placeholderNames t.unresolved ∧
    ∀ id, t.isPlaceholder id = true → t.resolveOne? scopes id = none

lemma Outcome.done (h : Outcome scopes t (.ok n)) (id : TypeId) : t.isPlaceholder id = false := by
  rw [← Bool.not_eq_true, ← mem_unresolved, h]
  exact not_mem_nil

lemma Steps.resolvePasses (h : Steps scopes t u) (hfuel : u.unresolved.length < fuel)
    (hrun : u.resolvePasses scopes fuel u.unresolved passes = (result, u')) :
    Steps scopes t u' ∧ Outcome scopes u' result ∧
      ∀ n, result = .ok n → n ≤ passes + u.unresolved.length := by
  induction fuel generalizing u passes with
  | zero => exact absurd hfuel (not_lt_zero _)
  | succ _ ih =>
    rw [TypeTable.resolvePasses] at hrun
    split at hrun
    · next hempty =>
      cases hrun
      refine ⟨h, isEmpty_iff.1 hempty, fun n hn => ?_⟩
      cases hn
      exact le_add_right _ _
    · next hpend =>
      cases hpass : u.resolvePass scopes u.unresolved with
      | mk =>
        rw [hpass] at hrun
        obtain ⟨h1, rfl⟩ := h.resolvePass_unresolved hpass
        obtain ⟨hle, hstuck⟩ := resolvePass_length hpass
        dsimp only at hrun
        split at hrun
        · next hlen =>
          cases hrun
          obtain ⟨rfl, hnone⟩ := hstuck hlen
          refine ⟨h, ⟨?_, rfl, fun id hid => hnone id (mem_unresolved.2 hid)⟩, by simp⟩
          rwa [List.isEmpty_iff] at hpend
        · next hne =>
          obtain ⟨h', houtcome, hcount⟩ := ih h1 (by omega) hrun
          refine ⟨h', houtcome, fun n hn => ?_⟩
          have := hcount n hn
          omega

/-- Resolution is a number of steps, after which none is possible, in at most one pass for each
placeholder. -/
lemma resolve_steps (h : t.resolve scopes = (answer, t')) :
    Steps scopes t t' ∧ Outcome scopes t' answer ∧ ∀ n, answer = .ok n → n ≤ t.unresolved.length := by
  obtain ⟨hsteps, houtcome, hcount⟩ :=
    (.refl : Steps scopes t t).resolvePasses (lt_succ_self t.unresolved.length) h
  exact ⟨hsteps, houtcome, fun n hn => (hcount n hn).trans_eq (Nat.zero_add _)⟩

lemma Sound.resolve (h : t.Sound) (hok : t.resolve scopes = (.ok n, t')) :
    t'.Sound ∧ t'.slots.size = t.slots.size ∧ (t.Marked → t'.Marked) := by
  obtain ⟨hsteps, houtcome, -⟩ := resolve_steps hok
  exact ⟨hsteps.resolves.sound h houtcome.done, hsteps.resolves.size, hsteps.resolves.marked⟩

lemma placeholderNames_forall₂ (h : ∀ id ∈ ids, t.isPlaceholder id = true) :
    List.Forall₂ (fun id name => ∃ origin scope, t.shape id = .placeholder name origin scope)
      ids (t.placeholderNames ids) := by
  induction ids with
  | nil => exact .nil
  | cons id ids ih =>
    obtain ⟨hid, hids⟩ := forall_mem_cons.1 h
    unfold isPlaceholder Shape.isPlaceholder at hid
    split at hid
    · next name origin scope hshape =>
      have hnames : t.placeholderNames (id :: ids) = name :: t.placeholderNames ids := by
        simp [placeholderNames, hshape]
      rw [hnames]
      exact .cons ⟨origin, scope, hshape⟩ (ih hids)
    · cases hid

/-- The names in a failure are those of the placeholders that are left, one by one. -/
lemma Outcome.names (h : Outcome scopes t (.error e)) : t.unresolved ≠ [] ∧
    List.Forall₂ (fun id name => ∃ origin scope, t.shape id = .placeholder name origin scope)
      t.unresolved e.names := by
  obtain ⟨hsome, hnames, -⟩ := h
  rw [hnames]
  exact ⟨hsome, placeholderNames_forall₂ fun id => mem_unresolved.1⟩

lemma names_of_resolve_error (h : t.resolve scopes = (.error e, t')) : e.names ≠ [] := by
  obtain ⟨-, houtcome, -⟩ := resolve_steps h
  obtain ⟨hsome, hnames⟩ := houtcome.names
  intro hnil
  rw [hnil] at hnames
  exact hsome (forall₂_nil_right_iff.1 hnames)

end CompilerCore.TypeTable

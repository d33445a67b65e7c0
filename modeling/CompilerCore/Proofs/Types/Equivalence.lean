import CompilerCore.Proofs.Types.Containment
import Mathlib.Data.Finset.Prod

/-!
# Equality of types is an equivalence

A comparison takes a pair for granted that it has seen before.  What it accepts in the end is a set of
pairs in which every pair is accounted for by others of the set, so the types it calls equal are those
that some such set relates: the types are *alike*.  Likeness is symmetric and transitive since sets of
pairs can be turned round and composed.
-/

namespace CompilerCore

open List

/-- Two shapes of one form whose parts are related. -/
inductive Shape.Match (R : TypeId → TypeId → Prop) : Shape → Shape → Prop
  | builtin (p : Primitive) : Match R (.builtin p) (.builtin p)
  | pointer {x y : TypeId} : R x y → Match R (.pointer x) (.pointer y)
  | array {x y : TypeId} (length : UInt64) : R x y → Match R (.array x length) (.array y length)
  | function {x y : TypeId} {ps qs : List ParameterType} (isVariadic : Bool) : R x y →
    ps.Forall₂ (fun p q => p.isReference = q.isReference ∧ R p.type q.type) qs →
    Match R (.function x ps isVariadic) (.function y qs isVariadic)
  | record {ms ns : List Member} (isUnion : Bool) :
    ms.Forall₂ (fun m n => m.name = n.name ∧ R m.type n.type) ns →
    Match R (.record ms isUnion) (.record ns isUnion)
  | enum {x y : TypeId} : R x y → Match R (.enum x) (.enum y)

namespace Shape.Match

variable {R S T : TypeId → TypeId → Prop} {s s' s'' : Shape}

lemma mono (hsub : ∀ x y, R x y → S x y) (h : Match R s s') : Match S s s' := by
  cases h with
  | builtin p => exact .builtin p
  | pointer hr => exact .pointer (hsub _ _ hr)
  | array length hr => exact .array length (hsub _ _ hr)
  | function isVariadic hr hps =>
    exact .function isVariadic (hsub _ _ hr) (hps.imp fun _ _ hp => ⟨hp.1, hsub _ _ hp.2⟩)
  | record isUnion hms => exact .record isUnion (hms.imp fun _ _ hm => ⟨hm.1, hsub _ _ hm.2⟩)
  | enum hr => exact .enum (hsub _ _ hr)

lemma flip (hflip : ∀ x y, R x y → S y x) (h : Match R s s') : Match S s' s := by
  cases h with
  | builtin p => exact .builtin p
  | pointer hr => exact .pointer (hflip _ _ hr)
  | array length hr => exact .array length (hflip _ _ hr)
  | function isVariadic hr hps =>
    refine .function isVariadic (hflip _ _ hr) (List.Forall₂.flip ?_)
    exact hps.imp fun _ _ hp => ⟨hp.1.symm, hflip _ _ hp.2⟩
  | record isUnion hms =>
    refine .record isUnion (List.Forall₂.flip ?_)
    exact hms.imp fun _ _ hm => ⟨hm.1.symm, hflip _ _ hm.2⟩
  | enum hr => exact .enum (hflip _ _ hr)

lemma forall₂_comp {U : α → α → Prop} (hcomp : ∀ x y z, P x y → Q y z → U x z) {xs : List α}
    (h : xs.Forall₂ P ys) (h' : ys.Forall₂ Q zs) : xs.Forall₂ U zs := by
  induction h generalizing zs with
  | nil =>
    cases h'
    exact .nil
  | cons hx _ ih =>
    cases h' with
    | cons hy hys => exact .cons (hcomp _ _ _ hx hy) (ih hys)

lemma comp (hcomp : ∀ x y z, R x y → S y z → T x z) (h : Match R s s') (h' : Match S s' s'') :
    Match T s s'' := by
  cases h with
  | builtin p =>
    cases h'
    exact .builtin p
  | pointer hr =>
    cases h' with
    | pointer hs => exact .pointer (hcomp _ _ _ hr hs)
  | array length hr =>
    cases h' with
    | array _ hs => exact .array length (hcomp _ _ _ hr hs)
  | function isVariadic hr hps =>
    cases h' with
    | function _ hs hqs =>
      refine .function isVariadic (hcomp _ _ _ hr hs) (forall₂_comp ?_ hps hqs)
      exact fun _ _ _ hp hq => ⟨hp.1.trans hq.1, hcomp _ _ _ hp.2 hq.2⟩
  | record isUnion hms =>
    cases h' with
    | record _ hns =>
      refine .record isUnion (forall₂_comp ?_ hms hns)
      exact fun _ _ _ hm hn => ⟨hm.1.trans hn.1, hcomp _ _ _ hm.2 hn.2⟩
  | enum hr =>
    cases h' with
    | enum hs => exact .enum (hcomp _ _ _ hr hs)

end Shape.Match

namespace TypeTable

/-- Two types with the same traits and size, and with shapes whose parts are related. -/
structure Resembles (t : TypeTable) (R : TypeId → TypeId → Prop) (a b : TypeId) : Prop where
  traits : t.traits a = t.traits b
  size : t.size a = t.size b
  shape : Shape.Match R (t.shape a) (t.shape b)

/-- A relation in which every pair is a type and itself, or two types that resemble each other by
pairs of the relation.  It relates no placeholders. -/
structure Consistent (t : TypeTable) (R : TypeId → TypeId → Prop) : Prop where
  left : ∀ a b, R a b → t.isPlaceholder a = false
  right : ∀ a b, R a b → t.isPlaceholder b = false
  resembles : ∀ a b, R a b → a = b ∨ t.Resembles R a b

/-- Two types with the same structure. -/
def Alike (t : TypeTable) (a b : TypeId) : Prop := ∃ R, t.Consistent R ∧ R a b

variable {t : TypeTable} {R S : TypeId → TypeId → Prop} {a b c : TypeId}

lemma Resembles.mono (hsub : ∀ x y, R x y → S x y) (h : t.Resembles R a b) : t.Resembles S a b :=
  ⟨h.traits, h.size, h.shape.mono hsub⟩

/-- Likeness is the largest consistent relation. -/
lemma alike_consistent (t : TypeTable) : t.Consistent t.Alike where
  left := fun a b ⟨_, hR, hab⟩ => hR.left a b hab
  right := fun a b ⟨_, hR, hab⟩ => hR.right a b hab
  resembles := fun a b ⟨R, hR, hab⟩ =>
    (hR.resembles a b hab).imp_right (·.mono fun _ _ hxy => ⟨R, hR, hxy⟩)

/-- Types that are alike have one shape, or shapes of one form with parts that are alike. -/
lemma Alike.shapes (h : t.Alike a b) :
    t.shape a = t.shape b ∨ Shape.Match t.Alike (t.shape a) (t.shape b) := by
  obtain rfl | hres := (alike_consistent t).resembles a b h
  · exact .inl rfl
  · exact .inr hres.shape

lemma Alike.kind (h : t.Alike a b) : t.kind a = t.kind b := by
  unfold TypeTable.kind
  obtain hshape | hshape := h.shapes
  · rw [hshape]
  · generalize t.shape a = x, t.shape b = y at hshape
    cases hshape <;> rfl

lemma Alike.refl (ha : t.isPlaceholder a = false) : t.Alike a a := by
  refine ⟨fun x y => x = y ∧ t.isPlaceholder x = false, ⟨?_, ?_, ?_⟩, rfl, ha⟩
  · exact fun x y hxy => hxy.2
  · rintro x y ⟨rfl, hx⟩
    exact hx
  · exact fun x y hxy => .inl hxy.1

lemma Alike.symm (h : t.Alike a b) : t.Alike b a := by
  have hc := alike_consistent t
  refine ⟨fun x y => t.Alike y x, ⟨?_, ?_, ?_⟩, h⟩
  · exact fun x y hxy => hc.right y x hxy
  · exact fun x y hxy => hc.left y x hxy
  · intro x y hxy
    refine (hc.resembles y x hxy).imp Eq.symm fun hres => ?_
    exact ⟨hres.traits.symm, hres.size.symm, hres.shape.flip fun _ _ => id⟩

lemma Alike.trans (h : t.Alike a b) (h' : t.Alike b c) : t.Alike a c := by
  have hc := alike_consistent t
  refine ⟨fun x z => ∃ y, t.Alike x y ∧ t.Alike y z, ⟨?_, ?_, ?_⟩, b, h, h'⟩
  · rintro x z ⟨y, hxy, -⟩
    exact hc.left x y hxy
  · rintro x z ⟨y, -, hyz⟩
    exact hc.right y z hyz
  · rintro x z ⟨y, hxy, hyz⟩
    -- A step in which nothing changes leaves the other one as it is.
    obtain rfl | hxy' := hc.resembles x y hxy
    · refine (hc.resembles x z hyz).imp_right (·.mono fun u v huv => ⟨u, ?_, huv⟩)
      exact .refl (hc.left u v huv)
    obtain rfl | hyz' := hc.resembles y z hyz
    · exact .inr (hxy'.mono fun u v huv => ⟨v, huv, .refl (hc.right u v huv)⟩)
    · exact .inr ⟨hxy'.traits.trans hyz'.traits, hxy'.size.trans hyz'.size,
        hxy'.shape.comp (fun u v w huv hvw => ⟨v, huv, hvw⟩) hyz'.shape⟩

/-! ## What a comparison accepts -/

/-- Two types that a comparison may take to be equal after it has seen some pairs. -/
def Linked (t : TypeTable) (seen : List (TypeId × TypeId)) (a b : TypeId) : Prop :=
  t.isPlaceholder a = false ∧ t.isPlaceholder b = false ∧ (a = b ∨ (a, b) ∈ seen)

/-- More pairs have been seen, and each of them is accounted for. -/
structure Explains (t : TypeTable) (seen seen' : List (TypeId × TypeId)) : Prop where
  subset : seen ⊆ seen'
  fresh : ∀ pair ∈ seen', pair ∈ seen ∨ (t.Linked seen' pair.1 pair.2 ∧
    t.Resembles (t.Linked seen') pair.1 pair.2)

variable {seen seen1 seen' : List (TypeId × TypeId)} {fuel : Nat}

lemma Linked.mono (hsub : seen ⊆ seen') (h : t.Linked seen a b) : t.Linked seen' a b :=
  ⟨h.1, h.2.1, h.2.2.imp_right (hsub ·)⟩

lemma Explains.refl (t : TypeTable) (seen : List (TypeId × TypeId)) : t.Explains seen seen :=
  ⟨List.Subset.refl _, fun _ => .inl⟩

lemma Explains.trans (h : t.Explains seen seen1) (h' : t.Explains seen1 seen') :
    t.Explains seen seen' where
  subset := List.Subset.trans h.subset h'.subset
  fresh pair hpair := by
    obtain hpair | hnew := h'.fresh pair hpair
    · refine (h.fresh pair hpair).imp_right fun ⟨hlinked, hres⟩ => ?_
      exact ⟨hlinked.mono h'.subset, hres.mono fun _ _ => .mono h'.subset⟩
    · exact .inr hnew

lemma foldlM_explains [DecidableEq β] {label : α → β} {type : α → TypeId}
    (h : ∀ {seen seen' a b}, t.equalWithin fuel seen a b = some seen' →
      t.Explains seen seen' ∧ t.Linked seen' a b) {xs : List α} (hlen : xs.length = ys.length)
    (hrun : (xs.zip ys).foldlM (fun seen pair => if label pair.1 = label pair.2 then
      t.equalWithin fuel seen (type pair.1) (type pair.2) else none) seen = some seen') :
    t.Explains seen seen' ∧
      xs.Forall₂ (fun x y => label x = label y ∧ t.Linked seen' (type x) (type y)) ys := by
  induction xs generalizing ys seen with
  | nil =>
    obtain rfl := eq_nil_of_length_eq_zero hlen.symm
    cases hrun
    exact ⟨.refl t _, .nil⟩
  | cons _ _ ih =>
    cases ys with
    | nil => cases hlen
    | cons =>
      rw [zip_cons_cons, foldlM_cons] at hrun
      obtain ⟨seen1, hfirst, hrest⟩ := Option.bind_eq_some_iff.1 hrun
      split at hfirst
      · next hlabel =>
        obtain ⟨hexpl, hlinked⟩ := h hfirst
        obtain ⟨hexplains', hall⟩ := ih (Nat.succ.inj hlen) hrest
        exact ⟨hexpl.trans hexplains', .cons ⟨hlabel, hlinked.mono hexplains'.subset⟩ hall⟩
      · cases hfirst

/-- A comparison that succeeds accounts for all pairs it has come across. -/
lemma equalWithin_explains (h : t.equalWithin fuel seen a b = some seen') :
    t.Explains seen seen' ∧ t.Linked seen' a b := by
  induction fuel generalizing seen seen' a b with
  | zero => cases h
  | succ _ ih =>
    rw [equalWithin] at h
    split at h
    · cases h
    next hph =>
    rw [Bool.or_eq_true, not_or, Bool.not_eq_true, Bool.not_eq_true] at hph
    obtain ⟨ha, hb⟩ := hph
    split at h
    · next heq =>
      cases h
      exact ⟨.refl t seen, ha, hb, .inl heq⟩
    split at h
    · next hmem =>
      cases h
      exact ⟨.refl t seen, ha, hb, .inr (contains_iff_mem.1 hmem)⟩
    split at h
    · cases h
    next hpre =>
    rw [not_or, not_not, not_not] at hpre
    -- It remains to account for the pair itself, given that its parts are.
    have finish (hexpl : t.Explains ((a, b) :: seen) seen')
        (hmatch : Shape.Match (t.Linked seen') (t.shape a) (t.shape b)) :
        t.Explains seen seen' ∧ t.Linked seen' a b := by
      have hself : t.Linked seen' a b := ⟨ha, hb, .inr (hexpl.subset (.head _))⟩
      refine ⟨⟨fun pair hpair => hexpl.subset (.tail _ hpair), ?_⟩, hself⟩
      intro pair hpair
      obtain hold | hnew := hexpl.fresh pair hpair
      · obtain rfl | hold := mem_cons.1 hold
        · exact .inr ⟨hself, hpre.1, hpre.2, hmatch⟩
        · exact .inl hold
      · exact .inr hnew
    split at h
    · next p q hp hq =>
      split at h
      · next hpq =>
        cases h
        refine finish (.refl t _) ?_
        rw [hp, hq, hpq]
        exact .builtin q
      · cases h
    · next x y hx hy =>
      obtain ⟨hexpl, hlinked⟩ := ih h
      refine finish hexpl ?_
      rw [hx, hy]
      exact .pointer hlinked
    · next x m y n hx hy =>
      split at h
      · next hlen =>
        obtain ⟨hexpl, hlinked⟩ := ih h
        refine finish hexpl ?_
        rw [hx, hy, hlen]
        exact .array n hlinked
      · cases h
    · next r ps v r' ps' v' hx hy =>
      split at h
      · next hcount =>
        obtain ⟨seen1, hres, hparams⟩ := Option.bind_eq_some_iff.1 h
        obtain ⟨hexpl, hlinked⟩ := ih hres
        obtain ⟨hexplains', hall⟩ := foldlM_explains ih
          hcount.2 hparams
        refine finish (hexpl.trans hexplains') ?_
        rw [hx, hy, hcount.1]
        exact .function v' (hlinked.mono hexplains'.subset) hall
      · cases h
    · next ms u ms' u' hx hy =>
      split at h
      · next hcount =>
        obtain ⟨hexpl, hall⟩ := foldlM_explains ih hcount.2 h
        refine finish hexpl ?_
        rw [hx, hy, hcount.1]
        exact .record u' hall
      · cases h
    · next x y hx hy =>
      obtain ⟨hexpl, hlinked⟩ := ih h
      refine finish hexpl ?_
      rw [hx, hy]
      exact .enum hlinked
    · cases h

lemma alike_of_equalWithin (h : t.equalWithin fuel [] a b = some seen') : t.Alike a b := by
  obtain ⟨hexpl, hlinked⟩ := equalWithin_explains h
  refine ⟨t.Linked seen', ⟨fun _ _ hxy => hxy.1, fun _ _ hxy => hxy.2.1, fun x y hxy => ?_⟩, hlinked⟩
  refine hxy.2.2.imp_right fun hmem => ?_
  obtain hnil | ⟨-, hres⟩ := hexpl.fresh (x, y) hmem
  · cases hnil
  · exact hres

/-! ## A comparison ends -/

/-- The pairs of types of the table that have not been seen yet. -/
def unseen (t : TypeTable) (seen : List (TypeId × TypeId)) : Finset (TypeId × TypeId) :=
  (Finset.range t.slots.size ×ˢ Finset.range t.slots.size).filter (· ∉ seen)

lemma card_unseen_le (hsub : seen ⊆ seen') : (t.unseen seen').card ≤ (t.unseen seen).card := by
  refine Finset.card_le_card fun pair hpair => ?_
  rw [unseen, Finset.mem_filter] at hpair ⊢
  exact ⟨hpair.1, fun hmem => hpair.2 (hsub hmem)⟩

lemma card_unseen_nil : (t.unseen []).card = t.slots.size * t.slots.size := by
  simp [unseen]

lemma card_unseen_cons_lt (ha : a < t.slots.size) (hb : b < t.slots.size) (h : (a, b) ∉ seen) :
    (t.unseen ((a, b) :: seen)).card < (t.unseen seen).card := by
  refine Finset.card_lt_card ((Finset.ssubset_iff_of_subset fun pair hpair => ?_).2 ⟨(a, b), ?_, ?_⟩)
  · rw [unseen, Finset.mem_filter] at hpair ⊢
    exact ⟨hpair.1, fun hmem => hpair.2 (.tail _ hmem)⟩
  · simp [unseen, ha, hb, h]
  · simp [unseen]

lemma exists_foldlM [DecidableEq β] {label : α → β} {type : α → TypeId}
    {P : List (TypeId × TypeId) → Prop} (hP : ∀ {seen seen'}, seen ⊆ seen' → P seen → P seen')
    (h : ∀ {seen a b}, P seen → R a b → ∃ seen', t.equalWithin fuel seen a b = some seen' ∧
      seen ⊆ seen') {xs : List α}
    (hall : xs.Forall₂ (fun x y => label x = label y ∧ R (type x) (type y)) ys) (hseen : P seen) :
    ∃ seen', (xs.zip ys).foldlM (fun seen pair => if label pair.1 = label pair.2 then
      t.equalWithin fuel seen (type pair.1) (type pair.2) else none) seen = some seen' ∧
        seen ⊆ seen' := by
  induction hall generalizing seen with
  | nil => exact ⟨seen, rfl, List.Subset.refl _⟩
  | cons hfirst _ ih =>
    obtain ⟨seen1, hrun, hsub⟩ := h hseen hfirst.2
    obtain ⟨seen', hrest, hsub'⟩ := ih (hP hsub hseen)
    refine ⟨seen', ?_, List.Subset.trans hsub hsub'⟩
    rw [zip_cons_cons, foldlM_cons, if_pos hfirst.1, hrun]
    exact hrest

/-- Types that a consistent relation relates are found equal, by a comparison that may go on as long
as there are pairs left to see. -/
lemma exists_equalWithin (hR : t.Consistent R) (hab : R a b) (hfuel : (t.unseen seen).card < fuel) :
    ∃ seen', t.equalWithin fuel seen a b = some seen' ∧ seen ⊆ seen' := by
  induction fuel generalizing seen a b with
  | zero => exact absurd hfuel (Nat.not_lt_zero _)
  | succ fuel ih =>
    rw [equalWithin, hR.left a b hab, hR.right a b hab, Bool.or_false, if_neg Bool.false_ne_true]
    split
    · exact ⟨seen, rfl, List.Subset.refl _⟩
    next hne =>
    split
    · exact ⟨seen, rfl, List.Subset.refl _⟩
    next hseen =>
    obtain heq | hres := hR.resembles a b hab
    · exact absurd heq hne
    rw [if_neg (not_or.2 ⟨not_not.2 hres.traits, not_not.2 hres.size⟩)]
    -- Only types of the table have parts, and then their pair is one less to see.
    have hless {s : Shape} (hshape : t.shape a = s) {s' : Shape} (hshape' : t.shape b = s')
        (hs : s ≠ .builtin .void) (hs' : s' ≠ .builtin .void) :
        (t.unseen ((a, b) :: seen)).card < fuel := by
      have hmem : (a, b) ∉ seen := fun hmem => hseen (contains_iff_mem.2 hmem)
      have ha : a < t.slots.size := by
        by_contra ha
        exact hs (hshape ▸ shape_of_le (Nat.le_of_not_lt ha))
      have hb : b < t.slots.size := by
        by_contra hb
        exact hs' (hshape' ▸ shape_of_le (Nat.le_of_not_lt hb))
      have := card_unseen_cons_lt ha hb hmem
      omega
    have hsub : seen ⊆ (a, b) :: seen := subset_cons_self _ _
    have hshape := hres.shape
    generalize hx : t.shape a = x at hshape ⊢
    generalize hy : t.shape b = y at hshape ⊢
    cases hshape with
    | builtin => exact ⟨_, if_pos rfl, hsub⟩
    | pointer hr | enum hr =>
      obtain ⟨seen', hrun, hsub'⟩ := ih hr (hless hx hy nofun nofun)
      exact ⟨seen', hrun, List.Subset.trans hsub hsub'⟩
    | array _ hr =>
      obtain ⟨seen', hrun, hsub'⟩ := ih hr (hless hx hy nofun nofun)
      exact ⟨seen', (if_pos rfl).trans hrun, List.Subset.trans hsub hsub'⟩
    | function _ hr hps =>
      have hcard := hless hx hy nofun nofun
      obtain ⟨seen1, hrun, hsub1⟩ := ih hr hcard
      obtain ⟨seen', hrest, hsub'⟩ := exists_foldlM
        (P := fun seen => (t.unseen seen).card < fuel) (fun hsub => (card_unseen_le hsub).trans_lt)
        (fun hseen hr => ih hr hseen) hps ((card_unseen_le hsub1).trans_lt hcard)
      refine ⟨seen', ?_, List.Subset.trans hsub (List.Subset.trans hsub1 hsub')⟩
      dsimp only
      rw [if_pos ⟨rfl, hps.length_eq⟩, hrun]
      exact hrest
    | record _ hms =>
      obtain ⟨seen', hrun, hsub'⟩ := exists_foldlM
        (P := fun seen => (t.unseen seen).card < fuel) (fun hsub => (card_unseen_le hsub).trans_lt)
        (fun hseen hr => ih hr hseen) hms (hless hx hy nofun nofun)
      exact ⟨seen', (if_pos ⟨rfl, hms.length_eq⟩).trans hrun, List.Subset.trans hsub hsub'⟩

/-- A comparison finds out whether two types are alike, however many more steps it may take. -/
lemma isSome_equalWithin_iff (hfuel : t.slots.size * t.slots.size < fuel) :
    (t.equalWithin fuel [] a b).isSome = true ↔ t.Alike a b := by
  constructor
  · intro h
    obtain ⟨seen', hrun⟩ := Option.isSome_iff_exists.1 h
    exact alike_of_equalWithin hrun
  · rintro ⟨R, hR, hab⟩
    have hall : (t.unseen []).card < fuel := by rwa [card_unseen_nil]
    obtain ⟨seen', hrun, -⟩ := exists_equalWithin hR hab hall
    rw [hrun]
    rfl

lemma equal_iff_alike : t.equal a b = true ↔ t.Alike a b :=
  isSome_equalWithin_iff (Nat.lt_succ_self _)

/-- Equality of types is an equivalence.  If no type contains itself by value, a comparison ends, and
so do the computations of sizes and representations that it relies on; it finds types equal exactly
if they have the same structure.  That relates every type but placeholders to itself, and is symmetric
and transitive; a placeholder is equal to nothing. -/
theorem equal_equivalence (h : t.Acyclic) :
    (∀ a b fuel, t.slots.size * t.slots.size < fuel →
      (t.equalWithin fuel [] a b).isSome = t.equal a b) ∧
    (∀ id fuel, t.slots.size ≤ fuel →
      t.sizeWithin fuel id = t.size id ∧ t.underlyingWithin fuel id = t.underlying id) ∧
    (∀ a b, t.equal a b = true ↔ t.Alike a b) ∧
    Equivalence (fun a b : {id // t.isPlaceholder id = false} => t.equal a.1 b.1 = true) ∧
    ∀ a b, t.isPlaceholder a = true → t.equal a b = false ∧ t.equal b a = false := by
  refine ⟨fun a b fuel hfuel => ?_, fun id fuel hfuel => ?_, fun a b => equal_iff_alike, ?_, ?_⟩
  · rw [Bool.eq_iff_iff, isSome_equalWithin_iff hfuel, equal_iff_alike]
  · exact ⟨h.sizeWithin_eq hfuel id, h.underlyingWithin_eq hfuel id⟩
  · constructor
    · exact fun a => equal_iff_alike.2 (.refl a.2)
    · exact fun hab => equal_iff_alike.2 (equal_iff_alike.1 hab).symm
    · exact fun hab hbc => equal_iff_alike.2 ((equal_iff_alike.1 hab).trans (equal_iff_alike.1 hbc))
  · intro a b ha
    have hconsistent := alike_consistent t
    constructor
    · refine Bool.eq_false_iff.2 fun hab => ?_
      have := hconsistent.left a b (equal_iff_alike.1 hab)
      rw [ha] at this
      cases this
    · refine Bool.eq_false_iff.2 fun hba => ?_
      have := hconsistent.right b a (equal_iff_alike.1 hba)
      rw [ha] at this
      cases this

/-- Two structs, declared apart, whose members point to structs of the same kind, and a placeholder
for a third one. -/
def rings : TypeTable :=
  let (first, t) := (start 8 8).placeholder "First" none 0
  let (toFirst, t) := t.pointerTo first
  let (firstRing, t) := t.declareRecord (some "First") [⟨"value", TypeId.i32⟩, ⟨"next", toFirst⟩]
    false (some 0)
  let (second, t) := t.placeholder "Second" none 0
  let (toSecond, t) := t.pointerTo second
  let (secondRing, t) := t.declareRecord (some "Second")
    [⟨"value", TypeId.i32⟩, ⟨"next", toSecond⟩] false (some 0)
  let (_, t) := t.placeholder "Third" none 0
  let entry (type : TypeId) : ScopeEntry := .record ⟨type, .synthesized, false⟩
  let names := [("First", entry firstRing), ("Second", entry secondRing)]
  (t.resolve { scopes := #[{ parent := none, names }] }).2

/-- The two structs are equal, and the third is equal to nothing. -/
theorem equal_equivalence_rings : rings.Acyclic ∧
    rings.shape 12 = rings.shape 14 ∧ rings.shape 13 = .pointer 12 ∧
    rings.Alike 14 17 ∧ rings.equal 17 14 = true ∧ rings.equal 18 18 = false := by
  have hacyclic : rings.Acyclic :=
    acyclic_of_rank (fun id => (rings.shape id).parts.length) (by decide +kernel)
  obtain ⟨-, -, halike, hequivalence, hplaceholder⟩ := equal_equivalence hacyclic
  have hequal : rings.equal 14 17 = true := by decide +kernel
  refine ⟨hacyclic, by decide +kernel, by decide +kernel, (halike 14 17).1 hequal, ?_, ?_⟩
  · exact hequivalence.symm (x := ⟨14, by decide +kernel⟩) (y := ⟨17, by decide +kernel⟩) hequal
  · exact (hplaceholder 18 18 (by decide +kernel)).1

end TypeTable

end CompilerCore

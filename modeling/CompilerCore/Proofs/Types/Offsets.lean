import CompilerCore.Proofs.Types.Containment
import Mathlib.Algebra.Order.Group.Nat
import Mathlib.Algebra.Ring.Nat

/-!
# Members lie inside their types

Sizes and offsets are 64-bit words.  If the size of a struct or union can be written as such a word, then
its members start at multiples of the alignment, stay inside of it and, in a struct, apart from each
other.  The offsets along a path of members and elements add up to a place with the same properties.

* `TypeTable.exactSize` — the size of a type as a natural number.
* `TypeTable.access?` — the type and the offset at the end of a path.
* `TypeTable.LaidOut` — what is true of the members of a struct or union.
* `TypeTable.laidOut_of_access` — all that a path leads to is laid out and in bounds.
-/

namespace CompilerCore.TypeTable

open TypeId Option UInt64

/-! ## Exact sizes -/

/-- The least multiple of the alignment that is not below `n`. -/
def roundUp (t : TypeTable) (n : Nat) : Nat :=
  (n / t.alignment.toNat + if n % t.alignment.toNat = 0 then 0 else 1) * t.alignment.toNat

/-- The bytes taken by the members so far and by one more. -/
def join (isUnion : Bool) (total room : Nat) : Nat :=
  if isUnion then max total room else total + room

/-- Where members that start at `start` end, from the sizes of their types. -/
def span (t : TypeTable) (sizeOf : TypeId → Nat) (isUnion : Bool) (start : Nat)
    (members : List Member) : Nat :=
  members.foldl (fun stop m => join isUnion stop (t.roundUp (sizeOf m.type))) start

/-- The number of bytes for a value of a shape, from the sizes of its parts. -/
def shapeSize (t : TypeTable) (sizeOf : TypeId → Nat) : Shape → Nat
  | .builtin p => p.size
  | .pointer _ | .function .. => t.pointerSize.toNat
  | .array element length => length.toNat * sizeOf element
  | .record members isUnion => t.span sizeOf isUnion 0 members
  | .enum base => sizeOf base
  | .placeholder .. => 0

/-- `sizeWithin` on the natural numbers, where no sum or product wraps. -/
def exactWithin (t : TypeTable) : Nat → TypeId → Nat
  | 0, _ => 0
  | fuel + 1, id => t.shapeSize (t.exactWithin fuel) (t.shape id)

/-- The size of a type, which need not be a 64-bit word. -/
def exactSize (t : TypeTable) (id : TypeId) : Nat := t.exactWithin t.slots.size id

/-! ## Paths -/

/-- One step into a value: to a member of a struct or union, or to an element of an array. -/
inductive PathStep where
  | member (name : String)
  | element (index : UInt64)
  deriving DecidableEq, Repr

/-- The type and the offset of what a step leads to. -/
def step? (t : TypeTable) (id : TypeId) : PathStep → Option (TypeId × UInt64)
  | .member name => t.member? id name
  | .element index =>
    match t.shape id with
    | .array element length => if index < length then some (element, index * t.size element) else none
    | _ => none

/-- The type and the offset of what a path leads to. -/
def access? (t : TypeTable) (id : TypeId) : List PathStep → Option (TypeId × UInt64)
  | [] => some (id, 0)
  | step :: path => do
    let (inner, offset) ← t.step? id step
    let (type, more) ← t.access? inner path
    return (type, offset + more)

/-- The members of a struct or union start at multiples of the alignment and end inside of it, and those
of a union all start at zero.  A name stands for the first member that has it. -/
structure LaidOut (t : TypeTable) (id : TypeId) (members : List Member) (isUnion : Bool) : Prop where
  size : t.alignment.toNat ∣ (t.size id).toNat
  member : ∀ m ∈ members, ∃ first offset, members.find? (·.name = m.name) = some first ∧
    t.member? id m.name = some (first.type, offset) ∧
    t.alignment.toNat ∣ offset.toNat ∧ offset.toNat + (t.size first.type).toNat ≤ (t.size id).toNat ∧
    (isUnion = true → offset = 0)

/-- A type whose size is a 64-bit word, in a table without cycles. -/
structure WordSized (t : TypeTable) (id : TypeId) : Prop where
  acyclic : t.Acyclic
  aligned : 1 ≤ t.alignment
  below : t.exactSize id < 2 ^ 64

/-! ## Rounding up and adding up -/

variable {t : TypeTable} {id type type' : TypeId} {offset offset' : UInt64} {sizeOf : TypeId → Nat}
  {members : List Member} {isUnion : Bool} {name name' : String} {step step' : PathStep}
  {path rest rest' : List PathStep}

lemma dvd_roundUp (n : Nat) : t.alignment.toNat ∣ t.roundUp n := Nat.dvd_mul_left _ _

lemma le_join (isUnion : Bool) (total room : Nat) :
    total ≤ join isUnion total room ∧ room ≤ join isUnion total room := by
  cases isUnion <;> simp [join]

lemma dvd_join {n total room : Nat} (htotal : n ∣ total) (hroom : n ∣ room) :
    n ∣ join isUnion total room := by
  unfold join
  split_ifs
  · rcases max_choice total room with hmax | hmax
    · rwa [hmax]
    · rwa [hmax]
  · exact Nat.dvd_add htotal hroom

lemma span_cons {start : Nat} {m : Member} : t.span sizeOf isUnion start (m :: members) =
    t.span sizeOf isUnion (join isUnion start (t.roundUp (sizeOf m.type))) members := rfl

lemma le_span (start : Nat) (members : List Member) : start ≤ t.span sizeOf isUnion start members ∧
    ∀ m ∈ members, t.roundUp (sizeOf m.type) ≤ t.span sizeOf isUnion start members := by
  induction members generalizing start with
  | nil => exact ⟨le_rfl, fun _ hm => nomatch hm⟩
  | cons m members ih =>
    obtain ⟨hrest, hmembers⟩ := ih (join isUnion start (t.roundUp (sizeOf m.type)))
    obtain ⟨hstart, hroom⟩ := le_join isUnion start (t.roundUp (sizeOf m.type))
    refine ⟨hstart.trans hrest, ?_⟩
    rintro m' (_ | ⟨_, hm'⟩)
    · exact hroom.trans hrest
    · exact hmembers m' hm'

lemma dvd_span {start : Nat} (h : t.alignment.toNat ∣ start) (members : List Member) :
    t.alignment.toNat ∣ t.span sizeOf isUnion start members := by
  induction members generalizing start with
  | nil => exact h
  | cons m members ih => exact ih (dvd_join h (dvd_roundUp _))

section

variable (halign : 1 ≤ t.alignment)

include halign

lemma le_roundUp (n : Nat) : n ≤ t.roundUp n := by
  have hpos : 0 < t.alignment.toNat := le_iff_toNat_le.1 halign
  have hsplit := Nat.div_add_mod' n t.alignment.toNat
  have hmod := Nat.mod_lt n hpos
  unfold roundUp
  split_ifs with hzero
  · rw [Nat.add_zero]
    omega
  · rw [Nat.add_mul, Nat.one_mul]
    omega

/-! ## Words are exact if the size is below 2⁶⁴ -/

lemma toNat_alignUp {size : UInt64} (h : t.roundUp size.toNat < 2 ^ 64) :
    (t.alignUp size).toNat = t.roundUp size.toNat := by
  have hpos : 0 < t.alignment.toNat := le_iff_toNat_le.1 halign
  have hcond : size % t.alignment = 0 ↔ size.toNat % t.alignment.toNat = 0 := by
    rw [← UInt64.toNat_inj, UInt64.toNat_mod]
    rfl
  have hquotient : (size / t.alignment + if size % t.alignment = 0 then 0 else 1).toNat =
      size.toNat / t.alignment.toNat + if size.toNat % t.alignment.toNat = 0 then 0 else 1 := by
    rw [UInt64.toNat_add, UInt64.toNat_div, apply_ite toNat, if_congr hcond rfl rfl]
    exact Nat.mod_eq_of_lt ((Nat.le_mul_of_pos_right _ hpos).trans_lt h)
  rw [alignUp, UInt64.toNat_mul, hquotient]
  exact Nat.mod_eq_of_lt h

omit halign in
lemma toNat_foldl {op : UInt64 → UInt64 → UInt64} {room : Member → UInt64} {total : UInt64}
    (hop : ∀ a b, join isUnion a.toNat b.toNat < 2 ^ 64 → (op a b).toNat = join isUnion a.toNat b.toNat)
    (hroom : ∀ m, t.roundUp (sizeOf m.type) < 2 ^ 64 → (room m).toNat = t.roundUp (sizeOf m.type))
    (h : t.span sizeOf isUnion total.toNat members < 2 ^ 64) :
    (members.foldl (fun total m => op total (room m)) total).toNat =
      t.span sizeOf isUnion total.toNat members := by
  induction members generalizing total with
  | nil => rfl
  | cons m members ih =>
    rw [span_cons] at h ⊢
    have hjoin := (le_span _ members).1.trans_lt h
    have hm := hroom m ((le_join _ _ _).2.trans_lt hjoin)
    have hnext : (op total (room m)).toNat = join isUnion total.toNat (t.roundUp (sizeOf m.type)) := by
      rw [← hm] at hjoin ⊢
      exact hop _ _ hjoin
    rw [← hnext] at h ⊢
    exact ih h

lemma toNat_sizeWithin {fuel : Nat} (h : t.exactWithin fuel id < 2 ^ 64) :
    (t.sizeWithin fuel id).toNat = t.exactWithin fuel id := by
  induction fuel generalizing id with
  | zero => rfl
  | succ fuel ih =>
    have hroom (m : Member) (hm : t.roundUp (t.exactWithin fuel m.type) < 2 ^ 64) :
        (t.alignUp (t.sizeWithin fuel m.type)).toNat = t.roundUp (t.exactWithin fuel m.type) := by
      have hsize := ih ((le_roundUp halign _).trans_lt hm)
      rw [← hsize] at hm ⊢
      exact toNat_alignUp halign hm
    rw [exactWithin] at h ⊢
    rw [sizeWithin]
    cases hshape : t.shape id with
    | builtin p =>
      rw [hshape] at h
      exact toNat_ofNat_of_lt h
    | pointer | function | placeholder => rfl
    | array element length =>
      simp only [hshape, shapeSize] at h ⊢
      rw [UInt64.toNat_mul]
      -- An array without elements may have elements of any size.
      rcases Nat.eq_zero_or_pos length.toNat with hzero | hpos
      · simp [hzero]
      · rw [ih ((Nat.le_mul_of_pos_left _ hpos).trans_lt h)]
        exact Nat.mod_eq_of_lt h
    | record members isUnion =>
      rw [hshape] at h
      cases isUnion with
      | false => exact toNat_foldl (fun _ _ hlt => Nat.mod_eq_of_lt hlt) hroom h
      | true => exact toNat_foldl (fun a b _ => toNat_max a b) hroom h
    | enum base =>
      simp only [hshape, shapeSize] at h ⊢
      exact ih h

/-! ## Places of members -/

/-- The place after a member. -/
lemma toNat_next {m : Member} (h : t.span t.exactSize false offset.toNat (m :: members) < 2 ^ 64) :
    (offset + t.alignUp (t.size m.type)).toNat = offset.toNat + t.roundUp (t.exactSize m.type) := by
  have hlt : offset.toNat + t.roundUp (t.exactSize m.type) < 2 ^ 64 := (le_span _ members).1.trans_lt h
  have hsize : (t.size m.type).toNat = t.exactSize m.type := by
    have hle := le_roundUp halign (t.exactSize m.type)
    exact toNat_sizeWithin halign (show t.exactSize m.type < 2 ^ 64 by omega)
  rw [UInt64.toNat_add, toNat_alignUp halign (by rw [hsize]; omega), hsize]
  exact Nat.mod_eq_of_lt hlt

/-- A member that is found starts where the members in front of it end, and ends where those up to it
do. -/
lemma findMember_le (h : t.findMember name offset members = some (type, offset'))
    (hfits : t.span t.exactSize false offset.toNat members < 2 ^ 64) :
    offset.toNat ≤ offset'.toNat ∧
      offset'.toNat + t.roundUp (t.exactSize type) ≤ t.span t.exactSize false offset.toNat members ∧
      (t.alignment.toNat ∣ offset.toNat → t.alignment.toNat ∣ offset'.toNat) := by
  induction members generalizing offset with
  | nil => cases h
  | cons m members ih =>
    have hnext := toNat_next halign hfits
    rw [findMember] at h
    split_ifs at h with hname
    · cases h
      exact ⟨le_rfl, (le_span _ members).1, id⟩
    · obtain ⟨hle, hend, hdvd⟩ := ih h (hnext ▸ hfits)
      rw [hnext] at hle hend hdvd
      exact ⟨Nat.le_of_add_right_le hle, hend, fun hoffset => hdvd (Nat.dvd_add hoffset (dvd_roundUp _))⟩

/-- Of two members, one is found behind the other. -/
lemma findMember_apart {start : UInt64} (hne : name ≠ name')
    (h : t.findMember name start members = some (type, offset))
    (h' : t.findMember name' start members = some (type', offset'))
    (hfits : t.span t.exactSize false start.toNat members < 2 ^ 64) :
    offset.toNat + t.roundUp (t.exactSize type) ≤ offset'.toNat ∨
      offset'.toNat + t.roundUp (t.exactSize type') ≤ offset.toNat := by
  induction members generalizing start with
  | nil => cases h
  | cons m members ih =>
    have hnext := toNat_next halign hfits
    have hrest : t.span t.exactSize false (start + t.alignUp (t.size m.type)).toNat members < 2 ^ 64 :=
      hnext ▸ hfits
    rw [findMember] at h h'
    split_ifs at h h' with hname hname' hname'
    · exact absurd (hname.symm.trans hname') hne
    · cases h
      exact .inl (hnext ▸ (findMember_le halign h' hrest).1)
    · cases h'
      exact .inr (hnext ▸ (findMember_le halign h hrest).1)
    · exact ih h h' hrest

end

/-- The size of a type is the size of its shape. -/
lemma exactSize_eq {s : Shape} (hacyclic : t.Acyclic) (hshape : t.shape id = s) :
    t.exactSize id = t.shapeSize t.exactSize s := by
  have hzero (id : TypeId) (hid : t.slots.size ≤ id) : t.exactWithin 1 id = 0 := by
    rw [exactWithin, shape_of_le hid]
    rfl
  subst hshape
  refine (hacyclic.walk_eq hzero (fun fuel fuel' id hpart => ?_) (Nat.le_succ _)).symm
  rw [exactWithin, exactWithin]
  cases hshape : t.shape id with
  | array | enum =>
    rw [hshape] at hpart
    simp only [shapeSize, hpart _ (List.mem_singleton_self _)]
  | record =>
    rw [hshape] at hpart
    exact List.foldl_ext _ _ _ fun total m hm => by rw [hpart _ (List.mem_map_of_mem hm)]
  | _ => rfl

/-- The sizes of structs and unions are multiples of the alignment. -/
lemma dvd_exactSize (hacyclic : t.Acyclic) (hshape : t.shape id = .record members isUnion) :
    t.alignment.toNat ∣ t.exactSize id := by
  rw [exactSize_eq hacyclic hshape]
  exact dvd_span (Nat.dvd_zero _) members

lemma WordSized.part (h : t.WordSized id) (hle : t.exactSize type ≤ t.exactSize id) :
    t.WordSized type := { h with below := hle.trans_lt h.below }

lemma WordSized.toNat_size (h : t.WordSized id) : (t.size id).toNat = t.exactSize id :=
  toNat_sizeWithin h.aligned h.below

lemma access?_cons_eq_some (h : t.access? id (step :: path) = some (type, offset)) :
    ∃ inner first more, t.step? id step = some (inner, first) ∧
      t.access? inner path = some (type, more) ∧ offset = first + more := by
  rw [access?] at h
  obtain ⟨⟨inner, first⟩, hstep, h⟩ := bind_eq_some_iff.1 h
  obtain ⟨⟨type, more⟩, hpath, h⟩ := bind_eq_some_iff.1 h
  cases h
  exact ⟨inner, first, more, hstep, hpath, rfl⟩

section

variable (hid : t.WordSized id)

include hid

/-! ## One step -/

/-- Where a member is. -/
lemma step_member (h : t.member? id name = some (type, offset)) :
    offset.toNat + t.exactSize type ≤ t.exactSize id ∧ t.alignment.toNat ∣ offset.toNat := by
  obtain ⟨members, isUnion, start, hshape, hfind, rfl⟩ := exists_of_member? h
  have hfits := hid.below
  have hroom := le_roundUp hid.aligned (t.exactSize type)
  rw [exactSize_eq hid.acyclic hshape] at hfits ⊢
  cases isUnion with
  | true =>
    obtain ⟨m, hm, -, rfl⟩ := mem_of_findMember hfind
    exact ⟨(Nat.zero_add _).le.trans (hroom.trans ((le_span 0 members).2 m hm)), Nat.dvd_zero _⟩
  | false =>
    obtain ⟨-, hend, hdvd⟩ := findMember_le hid.aligned hfind hfits
    exact ⟨(Nat.add_le_add_left hroom _).trans hend, hdvd (Nat.dvd_zero _)⟩

/-- Where an element is. -/
lemma step_element {index : UInt64} (h : t.step? id (.element index) = some (type, offset)) :
    ∃ length, t.shape id = .array type length ∧ t.exactSize id = length.toNat * t.exactSize type ∧
      index.toNat < length.toNat ∧ offset.toNat = index.toNat * t.exactSize type := by
  simp only [step?] at h
  split at h
  · next element length hshape =>
    split_ifs at h with hindex
    obtain ⟨rfl, rfl⟩ : element = type ∧ index * t.size element = offset := by simpa using h
    have hlt := lt_iff_toNat_lt.1 hindex
    have hsize : t.exactSize id = length.toNat * t.exactSize element := exactSize_eq hid.acyclic hshape
    refine ⟨length, hshape, hsize, hlt, ?_⟩
    have helement : t.exactSize element ≤ t.exactSize id :=
      hsize ▸ Nat.le_mul_of_pos_left _ (Nat.zero_lt_of_lt hlt)
    rw [UInt64.toNat_mul, (hid.part helement).toNat_size]
    exact Nat.mod_eq_of_lt ((Nat.mul_le_mul_right _ hlt.le).trans_lt (hsize ▸ hid.below))
  · cases h

/-- A step stays inside. -/
lemma step_le (h : t.step? id step = some (type, offset)) :
    offset.toNat + t.exactSize type ≤ t.exactSize id := by
  cases step with
  | member => exact (step_member hid h).1
  | element index =>
    obtain ⟨length, -, hsize, hlt, hoffset⟩ := step_element hid h
    rw [hoffset, hsize, ← Nat.succ_mul]
    exact Nat.mul_le_mul_right _ hlt

/-- What two different steps from a struct or an array lead to does not overlap. -/
lemma step_apart (hne : step ≠ step') (hstruct : ∀ members, t.shape id ≠ .record members true)
    (h : t.step? id step = some (type, offset))
    (h' : t.step? id step' = some (type', offset')) :
    offset.toNat + t.exactSize type ≤ offset'.toNat ∨
      offset'.toNat + t.exactSize type' ≤ offset.toNat := by
  cases step with
  | member name =>
    obtain ⟨members, isUnion, start, hshape, hfind, rfl⟩ := exists_of_member? h
    cases isUnion with
    | true => exact absurd hshape (hstruct members)
    | false =>
      cases step' with
      | element => simp [step?, hshape] at h'
      | member name' =>
        obtain ⟨_, _, start', hshape', hfind', rfl⟩ := exists_of_member? h'
        cases hshape.symm.trans hshape'
        have hname : name ≠ name' := fun heq => hne (congrArg _ heq)
        have hroom := le_roundUp hid.aligned (t.exactSize type)
        have hroom' := le_roundUp hid.aligned (t.exactSize type')
        have hapart := findMember_apart hid.aligned hname hfind hfind'
          ((exactSize_eq hid.acyclic hshape).symm.trans_lt hid.below)
        exact hapart.imp (Nat.add_le_add_left hroom _).trans (Nat.add_le_add_left hroom' _).trans
  | element index =>
    obtain ⟨length, hshape, -, -, hoffset⟩ := step_element hid h
    cases step' with
    | member =>
      obtain ⟨_, _, _, hrecord, -⟩ := exists_of_member? h'
      cases hshape.symm.trans hrecord
    | element index' =>
      obtain ⟨_, hshape', -, -, hoffset'⟩ := step_element hid h'
      cases hshape.symm.trans hshape'
      have hindex : index.toNat ≠ index'.toNat := fun heq =>
        hne (congrArg PathStep.element (UInt64.toNat_inj.1 heq))
      rw [hoffset, hoffset', ← Nat.succ_mul, ← Nat.succ_mul]
      rcases Nat.lt_or_gt_of_ne hindex with hlt | hlt
      · exact .inl (Nat.mul_le_mul_right _ hlt)
      · exact .inr (Nat.mul_le_mul_right _ hlt)

lemma LaidOut.of_record (hshape : t.shape id = .record members isUnion) :
    t.LaidOut id members isUnion := by
  constructor
  · rw [hid.toNat_size]
    exact dvd_exactSize hid.acyclic hshape
  · intro m hm
    obtain ⟨first, hfirst⟩ : ∃ first, members.find? (·.name = m.name) = some first := by
      rw [← isSome_iff_exists, List.find?_isSome]
      exact ⟨m, hm, decide_eq_true rfl⟩
    obtain ⟨⟨_, start⟩, hfind, rfl⟩ : ∃ found, t.findMember m.name 0 members = some found ∧
        found.1 = first.type := by
      rw [← map_eq_some_iff, map_fst_findMember, hfirst, map_some]
    have hfound : t.member? id m.name = some (first.type, if isUnion then 0 else start) := by
      rw [member?, hshape]
      simp only [hfind, map_some]
    obtain ⟨hle, hdvd⟩ := step_member hid hfound
    refine ⟨first, _, hfirst, hfound, hdvd, ?_, fun hunion => if_pos hunion⟩
    rwa [hid.toNat_size, (hid.part (Nat.le_of_add_left_le hle)).toNat_size]

/-! ## Paths -/

/-- What a path leads to lies inside. -/
lemma access_le (h : t.access? id path = some (type, offset)) :
    offset.toNat + t.exactSize type ≤ t.exactSize id := by
  induction path generalizing id offset with
  | nil =>
    cases h
    exact (Nat.zero_add _).le
  | cons step path ih =>
    obtain ⟨inner, first, more, hstep, hpath, rfl⟩ := access?_cons_eq_some h
    have hfirst := step_le hid hstep
    have hmore := ih (hid.part (by omega)) hpath
    have hbelow := hid.below
    rw [UInt64.toNat_add, Nat.mod_eq_of_lt (by omega)]
    omega

/-- What a path leads to lies inside what its first step leads to. -/
lemma access_cons (h : t.access? id (step :: path) = some (type, offset)) :
    ∃ inner first more, t.step? id step = some (inner, first) ∧
      t.access? inner path = some (type, more) ∧ offset.toNat = first.toNat + more.toNat ∧
      more.toNat + t.exactSize type ≤ t.exactSize inner ∧ t.WordSized inner := by
  obtain ⟨inner, first, more, hstep, hpath, rfl⟩ := access?_cons_eq_some h
  have hfirst := step_le hid hstep
  have hinner : t.WordSized inner := hid.part (by omega)
  have hmore := access_le hinner hpath
  have hbelow := hid.below
  refine ⟨inner, first, more, hstep, hpath, ?_, hmore, hinner⟩
  rw [UInt64.toNat_add]
  exact Nat.mod_eq_of_lt (by omega)

/-- Members start at multiples of the alignment, and so does what takes a multiple of it. -/
lemma dvd_access (h : t.access? id path = some (type, offset))
    (hlast : (∃ name, path.getLast? = some (.member name)) ∨ t.alignment.toNat ∣ t.exactSize type) :
    t.alignment.toNat ∣ offset.toNat ∧ t.alignment.toNat ∣ t.exactSize id := by
  induction path generalizing id offset with
  | nil =>
    cases h
    simpa using hlast
  | cons step path ih =>
    obtain ⟨inner, first, more, hstep, hpath, hoffset, -, hinner⟩ := access_cons hid h
    rw [hoffset]
    cases step with
    | member name =>
      have hmore : t.alignment.toNat ∣ more.toNat := by
        cases path with
        | nil =>
          cases hpath
          exact Nat.dvd_zero _
        | cons => exact (ih hinner hpath hlast).1
      obtain ⟨_, _, _, hshape, -⟩ := exists_of_member? hstep
      exact ⟨Nat.dvd_add (step_member hid hstep).2 hmore, dvd_exactSize hid.acyclic hshape⟩
    | element index =>
      obtain ⟨hmore, hdvd⟩ := ih hinner hpath (by cases path <;> simpa using hlast)
      obtain ⟨length, -, hsize, -, hfirst⟩ := step_element hid hstep
      rw [hfirst, hsize]
      exact ⟨Nat.dvd_add (Nat.dvd_mul_left_of_dvd hdvd _) hmore, Nat.dvd_mul_left_of_dvd hdvd _⟩

/-- Paths that part at a struct or an array lead to places that do not overlap. -/
lemma access_apart (hne : step ≠ step')
    (hstruct : ∀ inner start members, t.access? id path = some (inner, start) →
      t.shape inner ≠ .record members true)
    (h : t.access? id (path ++ step :: rest) = some (type, offset))
    (h' : t.access? id (path ++ step' :: rest') = some (type', offset')) :
    offset.toNat + t.exactSize type ≤ offset'.toNat ∨
      offset'.toNat + t.exactSize type' ≤ offset.toNat := by
  induction path generalizing id offset offset' with
  | nil =>
    obtain ⟨inner, first, more, hstep, -, hoffset, hmore, -⟩ := access_cons hid h
    obtain ⟨inner', first', more', hstep', -, hoffset', hmore', -⟩ := access_cons hid h'
    rcases step_apart hid hne (hstruct id 0 · rfl) hstep hstep' with hapart | hapart
    · exact .inl (by omega)
    · exact .inr (by omega)
  | cons first path ih =>
    obtain ⟨inner, start, more, hstep, hpath, hoffset, -, hinner⟩ := access_cons hid h
    obtain ⟨_, _, more', hstep', hpath', hoffset', -⟩ := access_cons hid h'
    cases hstep.symm.trans hstep'
    have htail := ih hinner (fun inner' start' members hstart =>
      hstruct inner' (start + start') members (by simp [access?, hstep, hstart])) hpath hpath'
    omega

end

/-- If the size of a type is below 2⁶⁴, then it is computed exactly, and what a path of members and
elements leads to lies inside the type.  Each struct or union on the way starts at a multiple of the
alignment and is laid out, as does each member.  Paths that part at a struct or an array lead to places
that do not overlap. -/
theorem laidOut_of_access {t : TypeTable} (hacyclic : t.Acyclic) (halign : 1 ≤ t.alignment)
    {id : TypeId} (hfits : t.exactSize id < 2 ^ 64) :
    (t.size id).toNat = t.exactSize id ∧
    (∀ path type offset, t.access? id path = some (type, offset) →
      offset.toNat + (t.size type).toNat ≤ (t.size id).toNat ∧
      (∀ name, path.getLast? = some (.member name) → t.alignment.toNat ∣ offset.toNat) ∧
      ∀ members isUnion, t.shape type = .record members isUnion →
        t.alignment.toNat ∣ offset.toNat ∧ t.LaidOut type members isUnion) ∧
    ∀ path step step' rest rest' type type' offset offset', step ≠ step' →
      (∀ inner start members, t.access? id path = some (inner, start) →
        t.shape inner ≠ .record members true) →
      t.access? id (path ++ step :: rest) = some (type, offset) →
      t.access? id (path ++ step' :: rest') = some (type', offset') →
      offset.toNat + (t.size type).toNat ≤ offset'.toNat ∨
        offset'.toNat + (t.size type').toNat ≤ offset.toNat := by
  have hid : t.WordSized id := ⟨hacyclic, halign, hfits⟩
  have hinside {path : List PathStep} {type : TypeId} {offset : UInt64}
      (h : t.access? id path = some (type, offset)) :
      offset.toNat + t.exactSize type ≤ t.exactSize id ∧ t.WordSized type := by
    have hle := access_le hid h
    exact ⟨hle, hid.part (Nat.le_of_add_left_le hle)⟩
  refine ⟨hid.toNat_size, ?_, ?_⟩
  · intro path type offset h
    obtain ⟨hle, htype⟩ := hinside h
    rw [hid.toNat_size, htype.toNat_size]
    refine ⟨hle, fun name hname => (dvd_access hid h (.inl ⟨name, hname⟩)).1, ?_⟩
    intro members isUnion hshape
    exact ⟨(dvd_access hid h (.inr (dvd_exactSize hacyclic hshape))).1, .of_record htype hshape⟩
  · intro path step step' rest rest' type type' offset offset' hne hstruct h h'
    rw [(hinside h).2.toNat_size, (hinside h').2.toNat_size]
    exact access_apart hid hne hstruct h h'

/-- A struct of a flag and an array of three unions, each of a struct and a word. -/
def parcels : TypeTable :=
  let t := start 8 8
  let t := (t.declareRecord none [⟨"low", 3⟩, ⟨"high", i32⟩] false none).2
  let t := (t.declareRecord none [⟨"whole", u64⟩, ⟨"pair", 12⟩] true none).2
  let t := (t.arrayOf 13 3).2
  (t.declareRecord none [⟨"tag", bool⟩, ⟨"parts", 14⟩] false none).2

/-- The place of `parts[2].pair.high`. -/
theorem laidOut_of_access_parcels :
    parcels.access? 15 [.member "parts", .element 2, .member "pair", .member "high"] =
      some (i32, 48) ∧
    parcels.alignment.toNat ∣ (48 : UInt64).toNat ∧
    (48 : UInt64).toNat + (parcels.size i32).toNat ≤ (parcels.size 15).toNat ∧
    parcels.LaidOut 13 [⟨"whole", u64⟩, ⟨"pair", 12⟩] true := by
  have hacyclic : parcels.Acyclic := acyclic_of_rank id (by decide +kernel)
  obtain ⟨-, hplaces, -⟩ :=
    laidOut_of_access hacyclic (by decide +kernel) (show parcels.exactSize 15 < 2 ^ 64 by decide +kernel)
  have hhigh : parcels.access? 15 [.member "parts", .element 2, .member "pair", .member "high"] =
      some (i32, 48) := by decide +kernel
  have hpart : parcels.access? 15 [.member "parts", .element 2] = some (13, 40) := by decide +kernel
  obtain ⟨hin, hdvd, -⟩ := hplaces _ _ _ hhigh
  obtain ⟨-, -, hrecord⟩ := hplaces _ _ _ hpart
  exact ⟨hhigh, hdvd "high" rfl, hin, (hrecord _ _ (by decide +kernel)).2⟩

end CompilerCore.TypeTable

import CompilerCore.Proofs.Analysis.Coherence
import CompilerCore.Proofs.Analysis.Folding
import CompilerCore.Proofs.Types.Nesting

/-!
# Literals in the range of their types

An integer literal is *normal* when it is the integer that its low bytes stand for in its type.  The
values of the constants of an enum are taken as they are declared, so a literal may also be one of
those.  Folding computes in the type of the operands; the result is normal because the node has a type
that is represented in the same way (`Expr.Exact`).
-/

namespace CompilerCore

open Code Int64 Option TypeTable Except

/-- The scalar that represents a shape that is no enum. -/
def Shape.scalar? : Shape → Option Scalar
  | builtin .bool => some (.integer .w8 false)
  | builtin (.signed width) => some (.integer width true)
  | builtin (.unsigned width) => some (.integer width false)
  | builtin (.float width) => some (.float width)
  | _ => none

/-- A value that is the integer which its low bytes stand for. -/
def Scalar.Holds : Scalar → Int64 → Prop
  | integer width isSigned, value => Fold.wrap width isSigned value.toInt = value
  | float _, _ => True

lemma Scalar.holds_wrap : (integer width isSigned).Holds (Fold.wrap width isSigned n) := by
  rw [Holds, Fold.wrap_eq, Fold.wrap_eq, toInt_ofInt]
  refine congrArg ofInt ((OperandType.reduce_bmod OperandType.isInteger_whole _).trans ?_)
  exact OperandType.reduce_reduce ..

lemma Scalar.holds_word (isSigned : Bool) (value : Int64) :
    (integer .w64 isSigned).Holds value := by
  have hbmod : value.toInt.bmod (2 ^ 64) = value.toInt := toInt_bmod value
  refine toInt_inj.1 (toInt_ofInt.trans ?_)
  cases isSigned with
  | false => exact (Int.emod_bmod ..).trans hbmod
  | true => exact (congrArg (Int.bmod · _) hbmod).trans hbmod

lemma Scalar.holds_half (h : -2147483648 ≤ value ∧ value ≤ 2147483647) :
    (integer .w32 true).Holds value := by
  have hreduce : Fold.reduce .w32 true value.toInt = value.toInt := Int.bmod_eq_of_le
    (le_iff_toInt_le.1 h.1) (Int.lt_add_one_of_le (le_iff_toInt_le.1 h.2))
  exact (congrArg ofInt hreduce).trans (ofInt_toInt value)

lemma Scalar.holds_zero (s : Scalar) : s.Holds 0 := by
  cases s with
  | integer => exact (Fold.wrap_eq ..).trans (congrArg ofInt (OperandType.reduce_zero _))
  | float => trivial

lemma Scalar.Holds.of_le {s : Scalar} (h : s.Holds v) (hpos : 0 ≤ u.toInt)
    (hle : u.toInt ≤ v.toInt) : s.Holds u := by
  cases s with
  | integer width isSigned =>
    have hreduce (n : Int) : Fold.reduce width isSigned n =
        if isSigned then n.bmod (2 ^ (8 * width.bytes)) else n % 2 ^ (8 * width.bytes) := rfl
    have hv : (Fold.reduce width isSigned v.toInt).bmod (2 ^ 64) = v.toInt :=
      toInt_ofInt.symm.trans (congrArg toInt h)
    have hu : (Fold.reduce width isSigned u.toInt).bmod (2 ^ 64) = u.toInt := by
      rw [hreduce] at hv ⊢
      cases width <;> cases isSigned <;> simp [IntWidth.bytes, Int.bmod_def] at hv ⊢ <;> omega
    exact toInt_inj.1 (toInt_ofInt.trans hu)
  | float => trivial

lemma Fold.normalize_eq_self {value : Int64} :
    normalize t type value = value ↔ ∀ s ∈ t.scalar? type, s.Holds value := by
  rw [normalize]
  cases t.scalar? type with
  | none => simp
  | some s => cases s <;> simp [Scalar.Holds]

namespace TypeTable

variable {t t' : TypeTable} {a b c type : TypeId} {fuel : Nat}

/-- The scalar that represents a type, if it is found behind fewer than `fuel` enums. -/
def scalarWithin? (t : TypeTable) : Nat → TypeId → Option Scalar
  | 0, _ => none
  | fuel + 1, id =>
    match t.shape id with
    | .enum base => scalarWithin? t fuel base
    | shape => shape.scalar?

lemma scalar?_eq (t : TypeTable) (id : TypeId) :
    t.scalar? id = t.scalarWithin? (t.slots.size + 1) id := by
  have hwithin (fuel : Nat) (id : TypeId) :
      (t.shape (t.underlyingWithin fuel id)).scalar? = t.scalarWithin? (fuel + 1) id := by
    induction fuel generalizing id with
    | zero =>
      unfold underlyingWithin scalarWithin?
      cases t.shape id <;> rfl
    | succ _ ih =>
      unfold underlyingWithin scalarWithin?
      cases hshape : t.shape id with
      | enum base => exact ih base
      | _ => exact congrArg Shape.scalar? hshape
  rw [← hwithin]
  rfl

/-- How far enums are followed does not change what is found. -/
lemma scalarWithin?_unique (h : s ∈ t.scalarWithin? m a)
    (h' : s' ∈ t.scalarWithin? n a) : s = s' := by
  induction m generalizing a n with
  | zero => cases h
  | succ _ ih =>
    cases n with
    | zero => cases h'
    | succ =>
      unfold scalarWithin? at h h'
      cases hshape : t.shape a with
      | enum =>
        rw [hshape] at h h'
        exact ih h h'
      | _ =>
        rw [hshape] at h h'
        exact some.inj (h.symm.trans h')

lemma Leads.scalarWithin? (h : t.Leads t') (ht : t.Sound) (ha : a < t.slots.size) :
    t'.scalarWithin? fuel a = t.scalarWithin? fuel a := by
  induction fuel generalizing a with
  | zero => rfl
  | succ _ ih =>
    unfold scalarWithin?
    rw [h.shape a ha]
    split
    · next base hbase => exact ih (ht.references_lt hbase (.head _))
    · rfl

lemma Alike.scalarWithin? (h : t.Alike a b) : t.scalarWithin? fuel a = t.scalarWithin? fuel b := by
  induction fuel generalizing a b with
  | zero => rfl
  | succ _ ih =>
    unfold scalarWithin?
    obtain hshape | hshape := h.shapes
    · rw [hshape]
    · generalize t.shape a = x, t.shape b = y at hshape
      cases hshape with
      | enum hbase => exact ih hbase
      | _ => rfl

/-- Every scalar that represents a type represents another one. -/
def Follows (t : TypeTable) (b a : TypeId) : Prop :=
  ∀ fuel, ∀ s ∈ t.scalarWithin? fuel b, s ∈ t.scalarWithin? fuel a

lemma follows_of_shape (h : t.shape b = t.shape a) : t.Follows b a := by
  intro fuel s hs
  cases fuel with
  | zero => exact hs
  | succ => rwa [scalarWithin?, ← h]

lemma scalarWithin?_of_isPointer (h : t.isPointer a = true) : t.scalarWithin? fuel a = none := by
  unfold isPointer at h
  cases fuel with
  | zero => rfl
  | succ =>
    split at h
    · next hshape => rw [scalarWithin?, hshape]; rfl
    · cases h

/-- Values of one type may stand for those of another. -/
structure Stands (t : TypeTable) (b a : TypeId) : Prop where
  kind : t.kind a = t.kind b
  follows : t.Follows b a
  nested : ∀ n, t.Nested n a → t.Nested n b

lemma stands_of_shape (h : t.shape b = t.shape a) : t.Stands b a :=
  ⟨kind_eq_of_shape h.symm, follows_of_shape h, fun n => (nested_congr h n).2⟩

lemma stands_of_equal (h : t.equal b a = true) : t.Stands b a := by
  have halike := (equal_iff_alike.1 h).symm
  exact ⟨halike.kind, fun _ _ hs => halike.scalarWithin?.trans hs, fun _ => halike.nested⟩

lemma Stands.trans (h : t.Stands c b) (h' : t.Stands b a) : t.Stands c a :=
  ⟨h'.kind.trans h.kind, fun fuel s hs => h'.follows fuel s (h.follows fuel s hs),
    fun n hn => h.nested n (h'.nested n hn)⟩

lemma Leads.follows (h : t.Leads t') (ht : t.Sound) (ha : a < t.slots.size)
    (hb : b < t.slots.size) (hab : t.Follows b a) : t'.Follows b a := by
  intro fuel s hs
  rw [h.scalarWithin? ht ha]
  rw [h.scalarWithin? ht hb] at hs
  exact hab fuel s hs

/-- A value in the range of the scalar that represents a type. -/
def Ranges (t : TypeTable) (type : TypeId) (value : Int64) : Prop :=
  ∀ fuel, ∀ s ∈ t.scalarWithin? fuel type, s.Holds value

variable {value : Int64}

lemma ranges_of_scalar? (h : t.scalar? type = some s) (hs : s.Holds value) :
    t.Ranges type value := by
  intro fuel s' hs'
  rw [scalar?_eq] at h
  rwa [← scalarWithin?_unique h hs']

lemma ranges_of_shape {shape : Shape} (h : t.shape type = shape)
    (henum : ∀ base, shape ≠ .enum base) (hs : ∀ s ∈ shape.scalar?, s.Holds value) :
    t.Ranges type value := by
  intro fuel s hmem
  cases fuel with
  | zero => cases hmem
  | succ =>
    rw [scalarWithin?, h] at hmem
    split at hmem
    · next base => exact absurd rfl (henum base)
    · exact hs s hmem

lemma Ranges.normalize (h : t.Ranges type value) : Fold.normalize t type value = value :=
  Fold.normalize_eq_self.2 fun s hs => h _ s (t.scalar?_eq type ▸ hs)

lemma Sound.ranges_signed (ht : t.Sound) {width : IntWidth}
    (h : (Scalar.integer width true).Holds value) : t.Ranges (Primitive.signed width).index value :=
  ranges_of_shape (ht.builtin (.signed width)).2 nofun fun _ hs => some.inj hs ▸ h

/-- A value that literals of a type may have: one in its range, or that of a declared constant. -/
def Offers (t : TypeTable) (type : TypeId) (value : Int64) : Prop :=
  t.Ranges type value ∨ ∃ owner < t.slots.size, t.Follows type owner ∧
    ∃ name, t.constantValue? owner name = some value

lemma Offers.follows (h : t.Offers a value) (hb : t.Follows b a) : t.Offers b value := by
  obtain h | ⟨owner, howner, hfoll, hvalue⟩ := h
  · exact .inl fun fuel s hs => h fuel s (hb fuel s hs)
  · exact .inr ⟨owner, howner, fun fuel s hs => hfoll fuel s (hb fuel s hs), hvalue⟩

lemma Leads.offers (h : t.Leads t') (ht : t.Sound) (htype : type < t.slots.size)
    (hoffers : t.Offers type value) : t'.Offers type value := by
  obtain hranges | ⟨owner, howner, hfoll, name, hvalue⟩ := hoffers
  · refine .inl fun fuel s hs => hranges fuel s ?_
    rwa [h.scalarWithin? ht htype] at hs
  · refine .inr ⟨owner, howner.trans_le h.size, h.follows ht howner htype hfoll, name, ?_⟩
    rw [constantValue?, h.slot owner howner]
    exact hvalue

/-- The type that a node is given follows that of its operand. -/
def Agrees (t : TypeTable) (node operand : Option TypeId) : Prop :=
  ∃ a ∈ operand, ∀ b ∈ node, t.Follows b a

lemma Leads.agrees (h : t.Leads t') (ht : t.Sound)
    (hnode : ∀ b ∈ node, b < t.slots.size) (hoper : ∀ a ∈ operand, a < t.slots.size)
    (hagr : t.Agrees node operand) : t'.Agrees node operand := by
  obtain ⟨a, ha, hfoll⟩ := hagr
  exact ⟨a, ha, fun b hb => h.follows ht (hoper a ha) (hnode b hb) (hfoll b hb)⟩

end TypeTable

namespace Expr

/-- An integer literal has a value that its type offers. -/
def Normal (t : TypeTable) : Expr → Prop
  | literal note (.integer value) => ∀ type ∈ note.type, t.Offers type value
  | _ => True

/-- A node is represented as the operands are from whose literals it is computed. -/
def Exact (t : TypeTable) : Expr → Prop
  | binary note (.arith _) lhs _ =>
    (∃ type ∈ lhs.type?, t.isPointer type = true) ∨ t.Agrees note.type lhs.type?
  | unary note .negate operand | unary note .complement operand => t.Agrees note.type operand.type?
  | conditional note _ yes no => t.Agrees note.type yes.type? ∧ t.Agrees note.type no.type?
  | cast note _ target _ => t.Agrees note.type (some target)
  | _ => True

/-- An integer literal is in the range of its type. -/
def Normalized (t : TypeTable) : Expr → Prop
  | literal note (.integer value) => ∀ type ∈ note.type, Fold.normalize t type value = value
  | _ => True

variable {t t' : TypeTable} {e : Expr}

lemma normal_of_untyped (h : e.integer?.isSome → e.type? = none) : e.Normal t := by
  cases e with
  | literal _ value =>
    cases value with
    | integer =>
      intro type htype
      cases (h rfl).symm.trans htype
    | _ => trivial
  | _ => trivial

lemma Normal.leads (h : t.Leads t') (ht : t.Sound) (hknown : e.Known t.slots.size)
    (he : e.Normal t) : e.Normal t' := by
  cases e with
  | literal _ value =>
    cases value with
    | integer => exact fun type htype => h.offers ht (hknown type htype) (he type htype)
    | _ => trivial
  | _ => trivial

lemma Exact.leads (h : t.Leads t') (ht : t.Sound) (hknown : e.All (Known t.slots.size))
    (he : e.Exact t) : e.Exact t' := by
  have hnote := hknown.self.type
  cases e with
  | binary _ op lhs =>
    cases op with
    | arith =>
      have hlhs := (all_binary.1 hknown).2.1.self.type
      refine he.imp (fun ⟨type, htype, hptr⟩ => ⟨type, htype, ?_⟩) (h.agrees ht hnote hlhs)
      rw [isPointer, h.shape type (hlhs type htype)]
      exact hptr
    | _ => trivial
  | unary _ op =>
    have hoper := (all_unary.1 hknown).2.self.type
    cases op with
    | negate | complement => exact h.agrees ht hnote hoper he
    | _ => trivial
  | conditional =>
    obtain ⟨-, -, hyes, hno⟩ := all_conditional.1 hknown
    exact ⟨h.agrees ht hnote hyes.self.type he.1, h.agrees ht hnote hno.self.type he.2⟩
  | cast _ _ target =>
    have htgt : target < t.slots.size := hknown.self.2
    exact h.agrees ht hnote (fun a ha => some.inj ha ▸ htgt) he
  | _ => trivial

end Expr

namespace Fold

variable {t : TypeTable} {type : TypeId} {value : Int64}

lemma holds_normalize
    (h : t.scalar? type = some (.integer width isSigned)) :
    (Scalar.integer width isSigned).Holds (normalize t type value) := by
  rw [normalize, h]
  exact Scalar.holds_wrap ..

lemma integerArith_holds
    (h : integerArith width isSigned op a b = .ok value) :
    (Scalar.integer width isSigned).Holds value := by
  rw [integerArith_eq] at h
  have hreduced (x y n : Int) (hn : (OperandType.whole width isSigned).arith op x y = .ok n) :
      ∃ m, (OperandType.whole width isSigned).reduce m = n := by
    cases op with
    | div | rem =>
      simp only [OperandType.arith] at hn
      split at hn
      · cases hn
      · exact ⟨_, ok.inj hn⟩
    | _ => exact ⟨_, ok.inj hn⟩
  unfold ofArith at h
  split at h
  · next n hn =>
    obtain ⟨m, rfl⟩ := hreduced _ _ n hn
    cases h
    rw [← wrap_eq]
    exact Scalar.holds_wrap ..
  · cases h

lemma binary_ranges
    (h : binary t op type lhs rhs = .ok (some (.integer value))) :
    (∃ op', op = .arith op') ∧ t.Ranges type value := by
  unfold binary at h
  split at h
  · next width isSigned hscal =>
    split at h
    · next a b _ _ =>
      cases op with
      | arith op =>
        refine ⟨⟨op, rfl⟩, ranges_of_scalar? hscal ?_⟩
        unfold integerBinary at h
        dsimp only at h
        cases hres : integerArith width isSigned op a b with
        | error =>
          rw [hres] at h
          cases h
        | ok =>
          rw [hres] at h
          cases h
          exact integerArith_holds hres
      | compare | and | or => cases h
    · cases h
  · split at h
    · next a b _ _ =>
      have hfloat := ok.inj h
      unfold floatBinary? at hfloat
      split at hfloat <;> cases hfloat
    · cases h
  · cases h

lemma unary?_ranges
    (h : unary? t op type operand = some (.integer value)) :
    (op = .negate ∨ op = .complement) ∧ t.Ranges type value := by
  obtain ⟨scalar, hscal, h⟩ := bind_eq_some_iff.1 h
  split at h
  · obtain ⟨_, -, h⟩ := bind_eq_some_iff.1 h
    cases h
  · obtain ⟨_, -, h⟩ := bind_eq_some_iff.1 h
    cases h
    exact ⟨.inl rfl, ranges_of_scalar? hscal (holds_normalize hscal)⟩
  · obtain ⟨_, -, h⟩ := bind_eq_some_iff.1 h
    cases h
    exact ⟨.inr rfl, ranges_of_scalar? hscal (holds_normalize hscal)⟩
  · obtain ⟨_, -, h⟩ := bind_eq_some_iff.1 h
    cases h
  · cases h

lemma cast?_ranges
    (h : cast? t literal source type = some (.integer value)) : t.Ranges type value := by
  unfold cast? at h
  split at h
  · cases h
  · split at h
    · cases h
    · split at h
      · obtain ⟨_, -, h⟩ := bind_eq_some_iff.1 h
        cases h
      · split at h
        · next hptr =>
          intro fuel s hs
          rw [scalarWithin?_of_isPointer hptr] at hs
          cases hs
        · obtain ⟨scalar, hscal, h⟩ := bind_eq_some_iff.1 h
          cases scalar with
          | integer =>
            obtain ⟨v, rfl⟩ : ∃ v, normalize t type v = value := by
              dsimp only at h
              split at h
              · cases h
                exact ⟨_, rfl⟩
              · obtain ⟨v, -, hv⟩ := bind_eq_some_iff.1 h
                cases hv
                exact ⟨v, rfl⟩
            exact ranges_of_scalar? hscal (holds_normalize hscal)
          | float =>
            dsimp only at h
            split at h
            · cases h
            · obtain ⟨_, -, h⟩ := bind_eq_some_iff.1 h
              cases h

lemma eq_integer_of_asTruth (h : asTruth t type literal = .integer value) :
    literal = .integer value := by
  unfold asTruth at h
  split at h
  · split at h
    · cases h
    · exact h
  · exact h

lemma value_offers (hexact : e.Exact t) (hnorm : e.All (Expr.Normal t))
    (htype : e.type? = some type) (h : Fold.value t e = .ok (some (.integer value))) :
    t.Offers type value := by
  unfold Fold.value at h
  split at h
  · next note op lhs rhs =>
    split at h
    · next a b operand _ _ hoper =>
      split at h
      · cases h
      · next hptr =>
        obtain ⟨⟨op, rfl⟩, hranges⟩ := binary_ranges h
        obtain ⟨found, hfound, hpointer'⟩ | ⟨found, hfound, hfoll⟩ := hexact
        · rw [hoper] at hfound
          cases hfound
          exact absurd hpointer' hptr
        · rw [hoper] at hfound
          cases hfound
          exact TypeTable.Offers.follows (.inl hranges) (hfoll type htype)
    · cases h
  · next note op operand =>
    split at h
    · next hoper =>
      obtain ⟨hop, hranges⟩ := unary?_ranges (ok.inj h)
      have hagr : t.Agrees note.type operand.type? := by
        obtain rfl | rfl := hop
        · exact hexact
        · exact hexact
      obtain ⟨found, hfound, hfoll⟩ := hagr
      rw [hoper] at hfound
      cases hfound
      exact TypeTable.Offers.follows (.inl hranges) (hfoll type htype)
    · cases h
  · next note cond yes no =>
    obtain ⟨-, -, hyes, hno⟩ := Expr.all_conditional.1 hnorm
    have hpart {part : Expr} (hpart : part.All (Expr.Normal t)) (hagr : t.Agrees note.type part.type?)
        (hliteral : part.literal? = some (.integer value)) : t.Offers type value := by
      obtain ⟨a, ha, hfoll⟩ := hagr
      cases part with
      | literal =>
        cases hliteral
        exact (hpart.self a ha).follows (hfoll type htype)
      | _ => cases hliteral
    split at h
    · next hcond hy hn =>
      have h := some.inj (ok.inj h)
      split at h
      · exact hpart hyes hexact.1 (hy.trans (congrArg some h))
      · exact hpart hno hexact.2 (hn.trans (congrArg some h))
    · cases h
  · next note operand target _ =>
    split at h
    · obtain ⟨found, hfound, hfoll⟩ := hexact
      cases hfound
      exact TypeTable.Offers.follows (.inl (cast?_ranges (ok.inj h))) (hfoll type htype)
    · cases h
  · cases h

end Fold

end CompilerCore
